import ScriptListing.Proofs.Outcome
import ScriptListing.TypeName

/-! Type names under a symbol table that answers every look-up: every type can be told. -/
namespace ScriptListing.TypeName

/-- The table never breaks off; having none is as good. -/
def Answers (table : Option SymbolTable) : Prop :=
  ∀ t ∈ table, ∀ name, ∃ entry, t.lookup name = .ok entry

section

variable {t : SymbolTable} (answers : ∀ name, ∃ entry, t.lookup name = .ok entry)
include answers

theorem mappedBase_ok (h : Hierarchy) (steps : Nat) (seen : List String) (key : String) :
    ∃ base, mappedBase t h steps seen key = .ok base := by
  induction steps generalizing seen key with
  | zero => exact ⟨none, rfl⟩
  | succ steps ih =>
    obtain ⟨entry, found⟩ := answers (h.nameOf key)
    unfold mappedBase
    split
    · exact ⟨none, rfl⟩
    · rw [found]
      cases entry with
      | some _ => exact ⟨some (h.nameOf key), rfl⟩
      | none =>
        cases parent : h.super? key with
        | none => exact ⟨none, rfl⟩
        | some above =>
          exact ih (key :: seen) above

theorem reachesActor_ok (steps : Nat) (seen : List String) (name : String) :
    ∃ found, reachesActor t steps seen name = .ok found := by
  induction steps generalizing seen name with
  | zero => exact ⟨false, rfl⟩
  | succ steps ih =>
    obtain ⟨entry, found⟩ := answers name
    unfold reachesActor
    split
    · exact ⟨false, rfl⟩
    · rw [found]
      cases entry with
      | none => exact ⟨false, rfl⟩
      | some entry =>
        by_cases actor : entry.name = "Actor"
        · exact ⟨true, by simp [bind, Except.bind, actor, pure, Except.pure]⟩
        · simpa [bind, Except.bind, actor] using ih (name :: seen) entry.super

end

variable {table : Option SymbolTable} (answers : Answers table)
include answers

theorem letter_ok (h : Hierarchy) (key : Option String) : ∃ c, letter table h key = .ok c := by
  unfold letter
  split
  · next t key =>
    obtain ⟨base, found⟩ := mappedBase_ok (answers t rfl) h maxDepth [] key
    rw [found]
    cases base with
    | none => exact ⟨'U', rfl⟩
    | some base =>
      obtain ⟨actor, reached⟩ := reachesActor_ok (answers t rfl) maxDepth [] base
      exact ⟨_, Outcome.bind_eq_ok.mpr ⟨_, rfl, Outcome.bind_eq_ok.mpr ⟨actor, reached, rfl⟩⟩⟩
  · exact ⟨'U', rfl⟩

theorem object_ok (h : Hierarchy) (kind : String) (key : Option String) :
    ∃ type, object table h kind key = .ok type := by
  unfold object
  split
  · next key =>
    split
    · exact ⟨_, rfl⟩
    · obtain ⟨c, found⟩ := letter_ok answers h (some key)
      exact ⟨_, Outcome.bind_eq_ok.mpr ⟨c, found, rfl⟩⟩
  · exact ⟨_, rfl⟩

/-- The type of every property can be told, whatever its elements are. -/
theorem resolve_ok (h : Hierarchy) : (p : Property) → ∃ type, resolve table h p = .ok type
  | ⟨_, kind, _, enum, struct, inner, _, _, objectClass, interface, _⟩ => by
    unfold resolve
    split
    case h_11 =>
      match inner with
      | none => exact ⟨_, rfl⟩
      | some element =>
        obtain ⟨type, told⟩ := resolve_ok h element
        exact ⟨_, Outcome.bind_eq_ok.mpr ⟨type, told, rfl⟩⟩
    case h_14 => exact object_ok answers h _ objectClass
    all_goals exact ⟨_, rfl⟩

end ScriptListing.TypeName
