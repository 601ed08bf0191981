import ScriptListing.Proofs.Listing.Isolation
import ScriptListing.Proofs.TypeName

/-! Trees with all their parts. A tree is sound when no operand is missing at any depth, but
for the two that may be left out; under a symbol table that answers, the faults of sound
trees come from names alone. -/
namespace ScriptListing

namespace Expr

def given : Expr → List Expr
  | missing => []
  | e => [e]

/-- The operands of an instruction. The value of a return and the source of a text count
only if they are given. -/
def operands : Expr → List Expr
  | assign _ target value => [target, value]
  | assignPersistent _ value => [value]
  | text source => source.given
  | struct _ members => members
  | finalCall _ _ arguments => arguments
  | virtualCall _ _ arguments => arguments
  | jumpIfNot _ condition => [condition]
  | computedJump target => [target]
  | popFlowIfNot condition => [condition]
  | ret value => value.given
  | context _ base part => [base, part]
  | structMember base _ => [base]
  | interfaceContext value => [value]
  | cast _ target => [target]
  | classCast _ _ target => [target]
  | _ => []

inductive Sound : Expr → Prop where
  | mk {e : Expr} (present : e ≠ .missing) (below : ∀ x ∈ e.operands, Sound x) : Sound e

theorem Sound.present {e : Expr} (sound : e.Sound) : e ≠ .missing := by
  obtain ⟨present, _⟩ := sound
  exact present

theorem given_of_present {e : Expr} (present : e ≠ .missing) : e.given = [e] := by
  cases e with
  | missing => exact absurd rfl present
  | _ => rfl

theorem sizeOf_operands {e x : Expr} (member : x ∈ e.operands) : sizeOf x < sizeOf e := by
  have same {y : Expr} (inside : x ∈ y.given) : x = y := by
    cases y <;> simp_all [given]
  cases e <;> simp only [operands, List.mem_cons, List.not_mem_nil, or_false] at member
  case struct | finalCall | virtualCall =>
    have := List.sizeOf_lt_of_mem member
    simp +arith
    omega
  case text | ret =>
    obtain rfl := same member
    simp
  case assign | context => rcases member with rfl | rfl <;> simp +arith
  all_goals
    subst member
    simp +arith

end Expr

def Obstacle.OfNames : Obstacle → Prop
  | noDestination | noMember | noPath => True
  | unresolvedOwner _ _ | undeclared _ _ | ownerlessCall _ => True
  | missingInstruction | missingOperand _ | lookup _ => False

/-- A text that starts with another letter does not tell of a missing part. -/
theorem not_missing_of_head {message : String} (first : Char)
    (head : message.toList.head? = some first) (differs : first ≠ 'm') :
    message ≠ "missing instruction" ∧ ¬ "missing operand".toList <+: message.toList := by
  constructor
  · rintro rfl
    exact differs (Option.some.inj head).symm
  · rintro ⟨rest, equal⟩
    rw [← equal, List.head?_append] at head
    exact differs (Option.some.inj head).symm

theorem head_append {lead rest : String} {first : Char}
    (head : lead.toList.head? = some first) : (lead ++ rest).toList.head? = some first := by
  rw [String.toList_append, List.head?_append, head]
  rfl

/-- An obstacle of names never reads like a missing part. -/
theorem Obstacle.OfNames.message {o : Obstacle} (named : o.OfNames) :
    o.message ≠ "missing instruction" ∧ ¬ "missing operand".toList <+: o.message.toList := by
  cases o with
  | noDestination => exact not_missing_of_head 'p' rfl (by decide)
  | noMember => exact not_missing_of_head 's' rfl (by decide)
  | noPath => exact not_missing_of_head 'v' rfl (by decide)
  | unresolvedOwner name owner =>
    exact not_missing_of_head 'v' (head_append (head_append (head_append rfl))) (by decide)
  | undeclared name function =>
    exact not_missing_of_head 'v' (head_append (head_append (head_append rfl))) (by decide)
  | ownerlessCall function =>
    exact not_missing_of_head 'c' (head_append (head_append rfl)) (by decide)
  | missingInstruction | missingOperand _ | lookup _ => exact named.elim

namespace Listing

/-- A step whose obstacles, if any, lie in names. -/
def Clean {α : Type} (step : Except Obstacle α) : Prop := ∀ o, step = .error o → o.OfNames

namespace Clean

variable {α β : Type}

theorem ok {a : α} : Clean (.ok a) := by
  intro o stopped
  cases stopped

theorem error {o : Obstacle} (named : o.OfNames) : Clean (.error o : Except Obstacle α) := by
  intro o' stopped
  cases stopped
  exact named

theorem bind {step : Except Obstacle α} {next : α → Except Obstacle β} (first : Clean step)
    (second : ∀ a, Clean (next a)) : Clean (step >>= next) := by
  intro o stopped
  cases step with
  | error o' =>
    cases stopped
    exact first o rfl
  | ok a => exact second a o stopped

theorem map {step : Except Obstacle α} {f : α → β} (first : Clean step) :
    Clean (step.map f) := by
  intro o stopped
  cases step with
  | error o' =>
    cases stopped
    exact first o rfl
  | ok a => cases stopped

end Clean

namespace Scope

variable {s : Scope}

theorem find_clean (ref : PropertyRef) : Clean (s.find ref) := by
  unfold find
  split
  · exact .error trivial
  · refine .bind ?_ fun f => ?_
    · unfold owner
      split
      · exact .ok
      · split
        · exact .ok
        · exact .error trivial
    · split
      · exact .ok
      · exact .error trivial

theorem field_clean (ref : PropertyRef) : Clean (field ref) := by
  unfold field
  split
  · exact .error trivial
  · exact .ok

theorem qualifier_clean (place : Place) (code : Opcode) (function : FunctionRef) :
    Clean (qualifier place code function) := by
  unfold qualifier
  split
  · exact .ok
  · split
    · exact .error trivial
    · exact .ok

theorem typeOf_clean (answers : TypeName.Answers s.table) (p : Property) :
    Clean (s.typeOf p) := by
  obtain ⟨type, told⟩ := TypeName.resolve_ok answers s.cls.hierarchy p
  rw [typeOf, told]
  exact .ok

theorem localName_clean (answers : TypeName.Answers s.table) (place : Place)
    (ref : PropertyRef) : Clean (s.localName place ref) := by
  refine .bind (find_clean ref) fun p => ?_
  split
  · exact .bind (typeOf_clean answers p) fun _ => .ok
  · exact .ok

theorem inlineAll_clean {place : Place} {es : List Expr}
    (each : ∀ e ∈ es, Clean (s.inline place e)) : Clean (s.inlineAll place es) := by
  induction es with
  | nil => exact .ok
  | cons e rest ih =>
    refine .bind (each e (by simp)) fun _ => .bind (ih ?_) fun _ => .ok
    intro x member
    exact each x (by simp [member])

/-- A sound tree reads as text, or else a name in it cannot be resolved. -/
theorem inline_clean (answers : TypeName.Answers s.table) {e : Expr} (sound : e.Sound)
    (place : Place) : Clean (s.inline place e) := by
  induction sound generalizing place with
  | @mk e present operands below =>
    clear operands
    cases e
    case missing => exact absurd rfl present
    case assign code target value =>
      refine .bind (below target (by simp [Expr.operands]) _) fun _ => ?_
      exact .bind (below value (by simp [Expr.operands]) _) fun _ => .ok
    case assignPersistent destination value =>
      simp only [inline]
      split
      · exact .error trivial
      · exact .bind (below _ (by simp [Expr.operands]) _) fun _ => .ok
    case localVariable ref => exact localName_clean answers place ref
    case localOutVariable ref => exact .bind (find_clean ref) fun _ => .ok
    case instanceVariable ref => exact field_clean ref
    case defaultVariable ref => exact field_clean ref
    case text source =>
      by_cases missing : source = .missing
      · subst missing
        exact .ok
      · rw [inline_text missing]
        refine .bind (below _ ?_ _) fun _ => .ok
        simp [Expr.operands, Expr.given_of_present missing]
    case finalCall code function arguments =>
      exact .bind (qualifier_clean place code function) fun _ =>
        .bind (inlineAll_clean fun x member => below x member _) fun _ => .ok
    case virtualCall code name arguments =>
      exact .bind (inlineAll_clean fun x member => below x member _) fun _ => .ok
    case context code base part =>
      refine .bind (below base (by simp [Expr.operands]) _) fun _ => ?_
      exact .bind (below part (by simp [Expr.operands]) _) fun _ => .ok
    case structMember struct property =>
      simp only [inline]
      split
      · exact .error trivial
      · exact .bind (below _ (by simp [Expr.operands]) _) fun _ => .ok
    case interfaceContext value => exact below value (by simp [Expr.operands]) _
    case cast => exact .bind (below _ (by simp [Expr.operands]) _) fun _ => .ok
    case classCast => exact .bind (below _ (by simp [Expr.operands]) _) fun _ => .ok
    all_goals exact .ok

theorem singleLine_clean (answers : TypeName.Answers s.table) {e : Expr} (sound : e.Sound)
    (ending : String) : Clean (s.singleLine e ending) :=
  .map (inline_clean answers sound _)

/-- A sound statement is listed, or else a name in it cannot be resolved. -/
theorem lines_clean (answers : TypeName.Answers s.table) {e : Expr} (sound : e.Sound) :
    Clean (s.lines e) := by
  obtain ⟨present, below⟩ := id sound
  cases e
  case missing => exact absurd rfl present
  case ret value =>
    simp only [lines]
    split
    · exact .ok
    · next something =>
      have given : value ≠ .missing := by
        rintro rfl
        exact something rfl
      refine .map (inline_clean answers (below value ?_) _)
      simp [Expr.operands, Expr.given_of_present given]
  case finalCall code function arguments =>
    simp only [lines]
    split
    · exact .ok
    · exact singleLine_clean answers sound _
  case jumpIfNot target condition =>
    exact .map (inline_clean answers (below condition (by simp [Expr.operands])) _)
  case popFlowIfNot condition =>
    exact .map (inline_clean answers (below condition (by simp [Expr.operands])) _)
  case computedJump target =>
    exact .map (inline_clean answers (below target (by simp [Expr.operands])) _)
  case jump | popFlow | pushFlow | endOfScript | unknown => exact .ok
  all_goals exact singleLine_clean answers sound _

end Scope

/-- What stops a script stopped one of its statements. -/
theorem stop_of_entries {s : Scope} {labels : LabelTable} {script : List Statement}
    {offset : UInt32} {o : Obstacle}
    (stopped : (entries s labels script).findSome? Entry.stop? = some (offset, o)) :
    ∃ st ∈ script, s.lines st.expr = .error o := by
  induction script with
  | nil => simp [entries] at stopped
  | cons st rest ih =>
    unfold entries at stopped
    cases found : s.lines st.expr with
    | error o' =>
      simp only [found, entry, List.findSome?_cons, Entry.stop?] at stopped
      obtain ⟨_, rfl⟩ := Prod.mk.inj (Option.some.inj stopped)
      exact ⟨st, by simp, found⟩
    | ok lines =>
      simp only [found, entry, List.findSome?_cons, Entry.stop?] at stopped
      obtain ⟨later, member, cut⟩ := ih stopped
      exact ⟨later, by simp [member], cut⟩

theorem declares_of_answers {table : Option SymbolTable} (answers : TypeName.Answers table)
    (c : Class) : Declares table c where
  fields p _ := TypeName.resolve_ok answers _ p
  returns _ _ p _ := TypeName.resolve_ok answers _ p
  parameters _ _ p _ := TypeName.resolve_ok answers _ p

/-- A class of sound scripts is listed, and its faults come from names. -/
theorem render_sound {table : Option SymbolTable} (answers : TypeName.Answers table)
    {c : Class} (sound : ∀ f ∈ c.functions, ∀ st ∈ f.script, st.expr.Sound) (w : Writer) :
    ∃ r, render table w c = .ok r ∧ ∀ fault ∈ r.faults, ∃ o : Obstacle,
      o.OfNames ∧ fault.message = o.message := by
  obtain ⟨t, told⟩ := (declares_of_answers answers c).transcript
  refine ⟨_, by rw [render_eq_transcript, told]; rfl, ?_⟩
  intro fault member
  obtain ⟨b, inside, cut⟩ := List.mem_filterMap.mp member
  obtain ⟨f, declared, one⟩ := Outcome.forall₂_mem (blocks_of_transcript told) inside
  obtain ⟨head, _, rfl⟩ := Outcome.map_eq_ok.mp one
  obtain ⟨⟨offset, o⟩, stopped, rfl⟩ := Option.map_eq_some_iff.mp cut
  obtain ⟨st, listed, failed⟩ := stop_of_entries stopped
  exact ⟨o, Scope.lines_clean answers (sound f declared st listed) o failed, rfl⟩

end Listing
end ScriptListing
