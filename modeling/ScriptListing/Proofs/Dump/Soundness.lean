import ScriptListing.Proofs.Dump.Instruction
import ScriptListing.Proofs.Dump.Selection

/-! Classes from dumps are sound. What is read goes back, node by node, to what is written,
and the listing of such a class never meets a missing part. -/
namespace ScriptListing

/-- A property with a type, as its elements have at every depth. -/
inductive Property.Typed : Property → Prop where
  | mk {p : Property} (kind : p.kind ≠ "")
      (elements : ∀ q, p.inner = some q ∨ p.key = some q ∨ p.value = some q → Typed q) :
      Typed p

namespace Dump

mutual

theorem property_typed : (e : PropertyEntry) → {p : Property} → property e = .ok p → p.Typed
  | ⟨name, type, flags, enum, struct, inner, key, value, objectClass, interface, metaClass⟩,
      p, read => by
    unfold property at read
    split at read
    · cases read
    · next given =>
      obtain ⟨flags', _, rest⟩ := Outcome.bind_eq_ok.mp read
      obtain ⟨inner', first, rest⟩ := Outcome.bind_eq_ok.mp rest
      obtain ⟨key', second, rest⟩ := Outcome.bind_eq_ok.mp rest
      obtain ⟨value', third, equal⟩ := Outcome.bind_eq_ok.mp rest
      cases equal
      refine ⟨given, ?_⟩
      rintro q (here | here | here)
      · exact element_typed inner first here
      · exact element_typed key second here
      · exact element_typed value third here

theorem element_typed : (e : Option PropertyEntry) → {found : Option Property} →
    element e = .ok found → ∀ {q : Property}, found = some q → q.Typed
  | none, _, read, q, here => by
    cases read
    cases here
  | some e, _, read, q, here => by
    obtain ⟨p, below, equal⟩ := Outcome.bind_eq_ok.mp (by simpa only [element] using read)
    cases equal
    cases here
    exact property_typed e below

end

theorem properties_typed {entries : List PropertyEntry} {found : List Property}
    (read : List.Forall₂ (fun entry p => property entry = .ok p) entries found) :
    ∀ p ∈ found, p.Typed := by
  intro p member
  obtain ⟨e, _, one⟩ := Outcome.forall₂_mem read member
  exact property_typed e one

structure Reads (d : Dump) (owner : String) (e : Export) (f : Function) : Prop where
  named : f.name = e.name
  owned : f.owner = owner
  typed : ∀ p ∈ f.properties, p.Typed
  script : List.Forall₂ (fun n st => From d.document n st.expr) e.script f.script

theorem Keeps.reads {d : Dump} {owner : String} {e : Export} {f : Function}
    (kept : Keeps d owner e f) : Reads d owner e f where
  named := kept.named
  owned := kept.owned
  typed := properties_typed kept.properties
  script := kept.script.imp fun _ _ one => statement_from one

theorem Reads.sound {d : Dump} {owner : String} {e : Export} {f : Function}
    (reads : Reads d owner e f) : ∀ st ∈ f.script, st.expr.Sound := by
  intro st member
  obtain ⟨n, _, origin⟩ := Outcome.forall₂_mem reads.script member
  exact origin.sound

structure Holds (d : Dump) (name : String) (c : Class) : Prop where
  named : c.name = name
  typed : ∀ p ∈ c.properties, p.Typed
  functions : ∀ f ∈ c.functions, ∃ e ∈ d.exports, Reads d name e f

theorem select_holds {d : Dump} {name : String} {c : Class} (read : d.select name = .ok c) :
    Holds d name c := by
  obtain ⟨c, properties, exports, functions, _, fields, selected, kept, rfl⟩ :=
    select_eq_ok.mp read
  refine ⟨rfl, properties_typed (Outcome.mapM_eq_ok.mp fields), ?_⟩
  intro f member
  obtain ⟨e, inside, one⟩ := Outcome.forall₂_mem kept member
  exact ⟨e, (selected.offered e inside).1, one.reads⟩

/-- A class that could be read is sound: its parts carry its name, its properties have types,
and every instruction is there, with its operands, under the name in its own mapping. No
symbol table that answers makes a listing of it tell of a missing part. -/
theorem decoded_class_is_sound {bytes : List UInt8} {name : String} {c : Class}
    (read : decode bytes name = .ok c) :
    c.name = name ∧ (∀ f ∈ c.functions, f.owner = name) ∧
      (∀ p ∈ c.allProperties, p.Typed) ∧
      (∃ d, parse bytes = .ok d ∧ ∀ f ∈ c.functions, ∃ e ∈ d.exports,
        List.Forall₂ (fun n st => From d.document n st.expr) e.script f.script) ∧
      (∀ f ∈ c.functions, ∀ st ∈ f.script, st.expr.Sound) ∧
      ∀ table, TypeName.Answers table → ∀ w, ∃ r, Listing.render table w c = .ok r ∧
        ∀ fault ∈ r.faults, fault.message ≠ "missing instruction" ∧
          ¬ "missing operand".toList <+: fault.message.toList := by
  obtain ⟨d, written, selected⟩ := Outcome.bind_eq_ok.mp read
  have holds := select_holds selected
  have sound : ∀ f ∈ c.functions, ∀ st ∈ f.script, st.expr.Sound := by
    intro f member
    obtain ⟨e, _, reads⟩ := holds.functions f member
    exact reads.sound
  refine ⟨holds.named, ?_, ?_, ⟨d, Outcome.mapError_eq_ok.mp written, ?_⟩, sound, ?_⟩
  · intro f member
    obtain ⟨e, _, reads⟩ := holds.functions f member
    exact reads.owned
  · intro p member
    rcases List.mem_append.mp member with field | below
    · exact holds.typed p field
    · obtain ⟨f, inside, here⟩ := List.mem_flatMap.mp below
      obtain ⟨e, _, reads⟩ := holds.functions f inside
      exact reads.typed p here
  · intro f member
    obtain ⟨e, inside, reads⟩ := holds.functions f member
    exact ⟨e, inside, reads.script⟩
  · intro table answers w
    obtain ⟨r, rendered, named⟩ := Listing.render_sound answers sound w
    refine ⟨r, rendered, ?_⟩
    intro fault member
    obtain ⟨o, ofNames, same⟩ := named fault member
    rw [same]
    exact ofNames.message

def returning : List UInt8 :=
  ("exports: [\x7btype: Class, name: A\x7d, \x7btype: Function, outer: A, script: " ++
    "[\x7binst: EX_Return, offset: 0, expr: \x7binst: EX_Self\x7d\x7d]\x7d]").toList.map
    fun c => c.toNat.toUInt8

theorem returning_read : ((decode returning "A").map fun c =>
    c.functions.map (·.script.length)).toOption = some [1] := by
  decide +kernel

theorem decoded_class_is_sound_returning : ∃ c, decode returning "A" = .ok c ∧
    c.functions.map (·.script.length) = [1] ∧
    ∀ f ∈ c.functions, f.owner = "A" ∧ ∀ st ∈ f.script, st.expr.Sound := by
  have scripts := returning_read
  cases read : decode returning "A" with
  | error failure =>
    rw [read] at scripts
    cases scripts
  | ok c =>
    rw [read] at scripts
    obtain ⟨_, owned, _, _, sound, _⟩ := decoded_class_is_sound read
    exact ⟨c, rfl, Option.some.inj scripts, fun f member => ⟨owned f member, sound f member⟩⟩

end Dump
end ScriptListing
