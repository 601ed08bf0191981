import ScriptListing.Proofs.Outcome
import ScriptListing.SymbolTable.Mappings

/-! Symbol tables that the program builds itself, from a mapping file or type by type. Every
type of such a table is called as its key says. -/
namespace ScriptListing.TypeMap

open Outcome

/-- Maps that were read from a mapping file or put together type by type. -/
inductive Built : TypeMap → Prop where
  | empty : Built .empty
  | parsed {bytes : List UInt8} {m : TypeMap} (read : parse bytes = .ok m) : Built m
  | added {m : TypeMap} (name super : String) (built : Built m) : Built (m.add name super)

def Named (m : TypeMap) : Prop := ∀ item ∈ m.entries, item.2.name = item.1

theorem named_empty : Named .empty := by
  intro item member
  cases member

theorem mem_put {key : String} {entry : TypeEntry} {list : List (String × TypeEntry)}
    {item : String × TypeEntry} (member : item ∈ put key entry list) :
    item = (key, entry) ∨ item ∈ list := by
  induction list with
  | nil => exact .inl (List.mem_singleton.mp member)
  | cons head rest ih =>
    unfold put at member
    split at member
    · rcases List.mem_cons.mp member with new | later
      · exact .inl new
      · exact .inr (List.mem_cons_of_mem head later)
    · rcases List.mem_cons.mp member with rfl | later
      · exact .inr List.mem_cons_self
      · exact (ih later).imp_right (List.mem_cons_of_mem head)

theorem Named.add {m : TypeMap} (named : m.Named) (name super : String) :
    (m.add name super).Named := by
  intro item member
  rcases mem_put member with rfl | old
  · rfl
  · exact named item old

theorem named_ofTypes {m found : TypeMap} {types : List TypeEntry} (named : m.Named)
    (read : ofTypes m types = .ok found) : found.Named := by
  induction types generalizing m with
  | nil =>
    cases read
    exact named
  | cons t rest ih =>
    unfold ofTypes at read
    split at read
    · cases read
    · exact ih (named.add _ _) read

theorem named_ofEntries {m found : TypeMap} {entries : List (Yaml.Node × Yaml.Node)}
    (named : m.Named) (read : ofEntries m entries = .ok found) : found.Named := by
  induction entries generalizing m with
  | nil =>
    cases read
    exact named
  | cons entry rest ih =>
    unfold ofEntries at read
    split at read
    · exact ih (named.add _ _) read
    · cases read

theorem named_parse {bytes : List UInt8} {m : TypeMap} (read : parse bytes = .ok m) :
    m.Named := by
  obtain ⟨document, _, rest⟩ := bind_eq_ok.mp read
  cases document with
  | none =>
    cases rest
    exact named_empty
  | some d =>
    simp only [ofDocument] at rest
    split at rest
    · split at rest
      · obtain ⟨types, _, listed⟩ := bind_eq_ok.mp rest
        exact named_ofTypes named_empty listed
      · exact named_ofEntries named_empty rest
    · cases rest

theorem Built.named {m : TypeMap} (built : m.Built) : m.Named := by
  induction built with
  | empty => exact named_empty
  | parsed read => exact named_parse read
  | added name super _ ih => exact ih.add name super

theorem mem_of_find? {m : TypeMap} {key : String} {entry : TypeEntry}
    (found : m.find? key = some entry) : (key, entry) ∈ m.entries := by
  obtain ⟨before, after, equal, _⟩ := List.lookup_eq_some_iff.mp found
  rw [equal]
  simp

end ScriptListing.TypeMap
