import Mathlib.Logic.Relation
import ScriptListing.Proofs.Label
import ScriptListing.Proofs.Listing.Structure

/-! Which statements cannot be listed. A statement reads its operands from the top down; the
positions it comes to are described apart from the reading, and so are the faults a position
can have by itself. Under a symbol table that answers, a statement fails exactly when it comes
to a position with a fault. -/
namespace ScriptListing

open Outcome

namespace Expr

def isFlow : Expr → Bool
  | jump _ | jumpIfNot _ _ | computedJump _ | ret _ => true
  | pushFlow _ | popFlow | popFlowIfNot _ | endOfScript => true
  | _ => false

def isStruct : Expr → Bool
  | struct _ _ => true
  | _ => false

/-- A call that enters an event graph at a constant. -/
def Dispatches : Expr → Prop
  | finalCall _ function (int _ :: _) => "ExecuteUbergraph".toList <+: function.name.toList
  | _ => False

end Expr

namespace Listing

structure Position where
  place : Place
  tree : Expr

namespace Position

/-- The operands that are read after the tree itself: none of the members of a struct, and
those of a flow instruction only where it is the statement. -/
def read (p : Position) : List Expr :=
  if p.tree.isStruct || p.tree.isFlow && !p.place.isStatement then [] else p.tree.operands

theorem read_plain {p : Position} (plain : (p.tree.isStruct || p.tree.isFlow) = false) :
    p.read = p.tree.operands := by
  rw [Bool.or_eq_false_iff] at plain
  simp [read, plain]

theorem read_statement {e : Expr} (spread : e.isStruct = false) :
    read ⟨.statement, e⟩ = e.operands := by
  simp [read, spread, Place.isStatement]

theorem sizeOf_read {p : Position} {x : Expr} (member : x ∈ p.read) :
    sizeOf x < sizeOf p.tree := by
  unfold read at member
  split at member
  · cases member
  · exact Expr.sizeOf_operands member

/-- From a tree to one of the operands that are read. -/
def Step (p q : Position) : Prop := q.place = .under p.tree ∧ q.tree ∈ p.read

end Position

/-- The positions that listing a statement comes to. A call that enters an event graph is
listed as a jump and nothing of it is read. -/
def Visits (e : Expr) (p : Position) : Prop :=
  ¬ e.Dispatches ∧ Relation.ReflTransGen Position.Step ⟨.statement, e⟩ p

namespace Scope

/-- The function that declares what a reference names: the current one, or the first of that
name in the class. -/
def Owns (s : Scope) (ref : PropertyRef) (g : Function) : Prop :=
  if ref.owner = "" ∨ ref.owner = s.function.name then g = s.function
  else s.cls.function? ref.owner = some g

/-- A reference without a name, one to a function that is not there, or one to a property that
its function does not declare. -/
def Unresolved (s : Scope) (ref : PropertyRef) : Prop :=
  ref.name = "" ∨
  (ref.owner ≠ "" ∧ ref.owner ≠ s.function.name ∧ ∀ g ∈ s.cls.functions, g.name ≠ ref.owner) ∨
  ∃ g, s.Owns ref g ∧ ∀ p ∈ g.properties, p.name ≠ ref.name

def Faulty (s : Scope) : Position → Prop
  | ⟨_, .missing⟩ => True
  | ⟨_, .localVariable ref⟩ => s.Unresolved ref
  | ⟨_, .localOutVariable ref⟩ => s.Unresolved ref
  | ⟨_, .instanceVariable ref⟩ => ref.name = ""
  | ⟨_, .defaultVariable ref⟩ => ref.name = ""
  | ⟨_, .structMember _ property⟩ => property.name = ""
  | ⟨_, .assignPersistent destination _⟩ => destination.name = ""
  | ⟨place, .finalCall code function _⟩ =>
    code ≠ .localFinalFunction ∧ function.owner = "" ∧ ¬ ∃ code' base part,
      place = .under (.context code' base part)
  | _ => False

section

variable {s : Scope}

theorem owner_eq_ok {ref : PropertyRef} {g : Function} : s.owner ref = .ok g ↔ s.Owns ref g := by
  unfold owner Owns
  split
  · simp [eq_comm]
  · cases s.cls.function? ref.owner <;> simp

theorem fails_owner {ref : PropertyRef} :
    Fails (s.owner ref) ↔ ref.owner ≠ "" ∧ ref.owner ≠ s.function.name ∧
      ∀ g ∈ s.cls.functions, g.name ≠ ref.owner := by
  unfold owner
  split
  · next own =>
    simp only [not_fails_ok, false_iff]
    rintro ⟨named, other, _⟩
    exact own.elim named other
  · next strange =>
    rw [not_or] at strange
    have absent : s.cls.function? ref.owner = none ↔
        ∀ g ∈ s.cls.functions, g.name ≠ ref.owner := by
      simp [Class.function?]
    cases found : s.cls.function? ref.owner with
    | none => exact ⟨fun _ => ⟨strange.1, strange.2, absent.mp found⟩, fun _ => fails_error _⟩
    | some g =>
      have present := mt absent.mpr (by simp [found])
      exact ⟨fun fails => absurd fails (not_fails_ok g), fun none => absurd none.2.2 present⟩

theorem fails_find {ref : PropertyRef} : Fails (s.find ref) ↔ s.Unresolved ref := by
  unfold find Unresolved
  by_cases pathless : ref.name = ""
  · simp [pathless]
  · simp only [pathless, if_false, false_or]
    cases found : s.owner ref with
    | error o =>
      have strange := fails_owner.mp ⟨o, found⟩
      simp only [bind, Except.bind, fails_error, true_iff]
      exact .inl strange
    | ok g =>
      have known : ¬ Fails (s.owner ref) := by simp [found]
      have owns (g' : Function) : s.Owns ref g' ↔ g' = g := by
        rw [← owner_eq_ok, found]
        simp [eq_comm]
      have absent : g.property? ref.name = none ↔ ∀ p ∈ g.properties, p.name ≠ ref.name := by
        simp [Function.property?]
      rw [fails_owner] at known
      simp only [known, owns, exists_eq_left, false_or, ← absent, bind, Except.bind]
      cases g.property? ref.name <;> simp [throw, throwThe, MonadExceptOf.throw]

theorem fails_field {ref : PropertyRef} : Fails (field ref) ↔ ref.name = "" := by
  unfold field
  split <;> simp [*]

theorem inContext_iff {place : Place} :
    place.inContext = true ↔ ∃ code base part, place = .under (.context code base part) := by
  constructor
  · intro within
    unfold Place.inContext at within
    split at within
    · next code base part => exact ⟨code, base, part, rfl⟩
    · cases within
  · rintro ⟨code, base, part, rfl⟩
    rfl

theorem fails_qualifier {place : Place} {code : Opcode} {function : FunctionRef} :
    Fails (qualifier place code function) ↔ code ≠ .localFinalFunction ∧ function.owner = "" ∧
      ¬ ∃ code' base part, place = .under (.context code' base part) := by
  rw [← inContext_iff]
  unfold qualifier
  split
  · next free =>
    simp only [not_fails_ok, false_iff]
    rintro ⟨bound, _, outside⟩
    exact free.elim bound outside
  · next bound =>
    rw [not_or] at bound
    split
    · next ownerless => simp [bound, ownerless]
    · next owned => simp [owned]

theorem fails_inlineAll {place : Place} {es : List Expr} :
    Fails (s.inlineAll place es) ↔ ∃ x ∈ es, Fails (s.inline place x) := by
  induction es with
  | nil => simp [inlineAll]
  | cons e rest ih =>
    rw [inlineAll, fails_bind fun _ => fails_bind_pure, ih, List.exists_mem_cons_iff]

theorem fails_localName (answers : TypeName.Answers s.table) {place : Place} {ref : PropertyRef} :
    Fails (s.localName place ref) ↔ s.Unresolved ref := by
  have told (p : Property) : ¬ Fails (s.typeOf p) := by
    obtain ⟨type, resolved⟩ := TypeName.resolve_ok answers s.cls.hierarchy p
    simp [typeOf, resolved, Except.mapError]
  have shown (p : Property) : Fails (if place.isStatement && !p.isParm then
      (do return (← s.typeOf p) ++ " " ++ p.name) else return p.name) ↔ False := by
    split
    · rw [fails_bind_pure]
      exact iff_false_intro (told p)
    · exact iff_false_intro (not_fails_ok p.name)
  rw [localName, fails_bind shown, fails_find, or_false]

/-- Inside a line a flow instruction is never the statement. -/
def Inside (p : Position) : Prop := p.tree.isFlow = true → p.place.isStatement = false

/-- A tree cannot be read when it has a fault itself, or one of the operands that are read
after it cannot be read. -/
theorem fails_inline (answers : TypeName.Answers s.table) {place : Place} {e : Expr}
    (inside : Inside ⟨place, e⟩) :
    Fails (s.inline place e) ↔ s.Faulty ⟨place, e⟩ ∨
      ∃ x ∈ Position.read ⟨place, e⟩, Fails (s.inline (.under e) x) := by
  cases e
  case missing => exact iff_of_true ⟨_, rfl⟩ (.inl trivial)
  case assign code target value =>
    rw [inline, fails_bind fun _ => fails_bind_pure, Position.read_plain rfl]
    simp [Faulty, Expr.operands]
  case assignPersistent destination value =>
    simp only [inline]
    split
    · next pathless => exact iff_of_true ⟨_, rfl⟩ (.inl pathless)
    · next named =>
      rw [fails_bind_pure, Position.read_plain rfl]
      simp [Faulty, named, Expr.operands]
  case localVariable ref =>
    rw [inline, fails_localName answers, Position.read_plain rfl]
    simp [Faulty, Expr.operands]
  case localOutVariable ref =>
    rw [inline, fails_bind_pure, fails_find, Position.read_plain rfl]
    simp [Faulty, Expr.operands]
  case instanceVariable ref | defaultVariable ref =>
    rw [inline, fails_field, Position.read_plain rfl]
    simp [Faulty, Expr.operands]
  case text source =>
    rw [Position.read_plain rfl]
    by_cases missing : source = .missing
    · subst missing
      simp [inline, Faulty, Expr.operands, Expr.given]
    · rw [inline_text missing, fails_bind_pure]
      simp [Faulty, Expr.operands, Expr.given_of_present missing]
  case finalCall code function arguments =>
    rw [inline, fails_bind fun _ => fails_bind_pure, fails_qualifier, fails_inlineAll,
      Position.read_plain rfl]
    rfl
  case virtualCall code name arguments =>
    rw [inline, fails_bind_pure, fails_inlineAll, Position.read_plain rfl]
    simp [Faulty, Expr.operands]
  case context code base part =>
    rw [inline, fails_bind fun _ => fails_bind_pure, Position.read_plain rfl]
    simp [Faulty, Expr.operands]
  case structMember base property =>
    simp only [inline]
    split
    · next pathless => exact iff_of_true ⟨_, rfl⟩ (.inl pathless)
    · next named =>
      rw [fails_bind_pure, Position.read_plain rfl]
      simp [Faulty, named, Expr.operands]
  case interfaceContext value =>
    rw [inline, Position.read_plain rfl]
    simp [Faulty, Expr.operands]
  case cast | classCast =>
    rw [inline, fails_bind_pure, Position.read_plain rfl]
    simp [Faulty, Expr.operands]
  case struct => simp [inline, Faulty, Position.read, Expr.isStruct]
  case jump | jumpIfNot | computedJump | ret | pushFlow | popFlow | popFlowIfNot | endOfScript =>
    have nested : place.isStatement = false := inside rfl
    simp [inline, Faulty, Position.read, Expr.isFlow, nested]
  -- All others are constants.
  all_goals
    rw [Position.read_plain rfl]
    simp [inline, Faulty, Expr.operands]

/-- A tree cannot be read when a position with a fault is reached from it. -/
theorem fails_inline_iff (answers : TypeName.Answers s.table) (place : Place) (e : Expr)
    (inside : Inside ⟨place, e⟩) :
    Fails (s.inline place e) ↔
      ∃ p, Relation.ReflTransGen Position.Step ⟨place, e⟩ p ∧ s.Faulty p := by
  rw [fails_inline answers inside]
  constructor
  · rintro (faulty | ⟨x, member, fails⟩)
    · exact ⟨_, .refl, faulty⟩
    · have smaller : sizeOf x < sizeOf e := Position.sizeOf_read member
      obtain ⟨p, reached, faulty⟩ :=
        (fails_inline_iff answers (.under e) x fun _ => rfl).mp fails
      exact ⟨p, .head ⟨rfl, member⟩ reached, faulty⟩
  · rintro ⟨p, reached, faulty⟩
    rcases reached.cases_head with rfl | ⟨⟨_, x⟩, ⟨rfl, member⟩, reached⟩
    · exact .inl faulty
    · have smaller : sizeOf x < sizeOf e := Position.sizeOf_read member
      refine .inr ⟨x, member, ?_⟩
      exact (fails_inline_iff answers (.under e) x fun _ => rfl).mpr ⟨p, reached, faulty⟩
termination_by e

theorem dispatches_iff {code : Opcode} {function : FunctionRef} {arguments : List Expr} :
    (Expr.finalCall code function arguments).Dispatches ↔
      ∃ offset, Label.dispatchTarget? function arguments = some offset := by
  simp only [Label.dispatchTarget_eq_some_iff, Label.isDispatch_iff]
  constructor
  · intro dispatches
    unfold Expr.Dispatches at dispatches
    split at dispatches
    · next equal =>
      obtain ⟨rfl, rfl, rfl⟩ := Expr.finalCall.inj equal
      exact ⟨_, _, _, rfl, dispatches, rfl⟩
    · exact dispatches.elim
  · rintro ⟨_, value, rest, rfl, starts, _⟩
    exact starts

/-- A statement cannot be listed when it is no dispatch and has a fault itself, or when an
operand that it reads cannot be read. -/
theorem fails_lines (answers : TypeName.Answers s.table) {e : Expr} :
    Fails (s.lines e) ↔ ¬ e.Dispatches ∧ (s.Faulty ⟨.statement, e⟩ ∨
      ∃ x ∈ Position.read ⟨.statement, e⟩, Fails (s.inline (.under e) x)) := by
  have plain {ending : String} (calm : e.isFlow = false) (direct : ¬ e.Dispatches) :
      Fails (s.singleLine e ending) ↔ ¬ e.Dispatches ∧ (s.Faulty ⟨.statement, e⟩ ∨
        ∃ x ∈ Position.read ⟨.statement, e⟩, Fails (s.inline (.under e) x)) := by
    have inside : Inside ⟨.statement, e⟩ := by simp [Inside, calm]
    rw [singleLine, fails_map, fails_inline answers inside, and_iff_right direct]
  cases e
  case missing => exact iff_of_true ⟨_, rfl⟩ ⟨id, .inl trivial⟩
  case ret value =>
    rw [Position.read_statement rfl]
    simp only [lines]
    split
    · next nothing =>
      have calm : ∀ x ∈ value.given, ¬ Fails (s.inline (.under (.ret value)) x) := by
        unfold isNothing at nothing
        split at nothing <;> simp_all [Expr.given, inline]
      simpa [Faulty, Expr.operands] using fun _ => calm
    · next something =>
      have present : value ≠ .missing := by
        rintro rfl
        exact something rfl
      rw [fails_map]
      simp [Expr.Dispatches, Faulty, Expr.operands, Expr.given_of_present present]
  case finalCall code function arguments =>
    simp only [lines]
    cases entered : Label.dispatchTarget? function arguments with
    | some offset => simp [dispatches_iff, entered]
    | none => exact plain rfl (by simp [dispatches_iff, entered])
  case jump | popFlow | pushFlow | endOfScript | unknown =>
    rw [Position.read_statement rfl]
    simp [lines, Faulty, Expr.operands]
  case jumpIfNot | popFlowIfNot | computedJump =>
    simp only [lines, guardedLines, fails_map]
    rw [Position.read_statement rfl]
    simp [Expr.Dispatches, Faulty, Expr.operands]
  all_goals exact plain rfl id

end

end Scope

/-- A statement fails exactly at the positions with a fault that it comes to. Under a symbol
table that answers, an instruction cannot be listed as a statement when it is missing, or when
listing it comes to a missing operand, a reference that cannot be resolved, a field without a
name or a call without the owner it has to show; and in no other case. -/
theorem statements_fail_at_faulty_positions (s : Scope) (answers : TypeName.Answers s.table)
    (w : Writer) (e : Expr) :
    (∃ obstacle, s.statement w e = .error obstacle) ↔
      e = .missing ∨ ∃ p, Visits e p ∧ s.Faulty p := by
  have fails : Fails (s.statement w e) ↔ ∃ p, Visits e p ∧ s.Faulty p := by
    rw [Scope.statement_eq_lines, fails_map, Scope.fails_lines answers]
    constructor
    · rintro ⟨direct, faulty | ⟨x, member, fails⟩⟩
      · exact ⟨_, ⟨direct, .refl⟩, faulty⟩
      · obtain ⟨p, reached, faulty⟩ :=
          (Scope.fails_inline_iff answers (.under e) x fun _ => rfl).mp fails
        exact ⟨p, ⟨direct, .head ⟨rfl, member⟩ reached⟩, faulty⟩
    · rintro ⟨p, ⟨direct, reached⟩, faulty⟩
      refine ⟨direct, ?_⟩
      rcases reached.cases_head with rfl | ⟨⟨_, x⟩, ⟨rfl, member⟩, reached⟩
      · exact .inl faulty
      · refine .inr ⟨x, member, ?_⟩
        exact (Scope.fails_inline_iff answers (.under e) x fun _ => rfl).mpr ⟨p, reached, faulty⟩
  constructor
  · intro stopped
    exact .inr (fails.mp stopped)
  · rintro (rfl | visited)
    · exact ⟨_, rfl⟩
    · exact fails.mpr visited

def doorway : Scope := ⟨none, { name := "Door_C" }, ⟨"Open", "Door_C", [], []⟩⟩

def turning (call : Expr → Expr) (argument : Expr) : Expr :=
  .assign .let (.instanceVariable ⟨["Lock"], ""⟩)
    (call (.finalCall .finalFunction ⟨"Turn", ""⟩ [argument]))

/-- Made through an object the call needs no owner, and a member that a struct lacks is not
looked at; made by itself the call is a fault under the assignment and the cast. -/
theorem statements_fail_at_faulty_positions_turning :
    (∀ p, Visits (turning (.context .context .self) (.struct "Key" [.missing])) p →
      ¬ doorway.Faulty p) ∧
    ∃ obstacle, doorway.statement {} (turning (.cast "Bool") (.struct "Key" [])) =
      .error obstacle := by
  have answers : TypeName.Answers doorway.table := nofun
  constructor
  · intro p visited faulty
    obtain ⟨obstacle, stopped⟩ := (statements_fail_at_faulty_positions doorway answers {} _).mpr
      (.inr ⟨p, visited, faulty⟩)
    cases stopped
  · let call : Expr := .finalCall .finalFunction ⟨"Turn", ""⟩ [.struct "Key" []]
    let whole : Expr := turning (.cast "Bool") (.struct "Key" [])
    have value : Position.Step ⟨.statement, whole⟩ ⟨.under whole, .cast "Bool" call⟩ :=
      ⟨rfl, List.mem_cons_of_mem _ List.mem_cons_self⟩
    have target : Position.Step ⟨.under whole, .cast "Bool" call⟩
        ⟨.under (.cast "Bool" call), call⟩ := ⟨rfl, List.mem_cons_self⟩
    have faulty : doorway.Faulty ⟨.under (.cast "Bool" call), call⟩ := ⟨by decide, rfl, nofun⟩
    exact (statements_fail_at_faulty_positions doorway answers {} whole).mpr
      (.inr ⟨_, ⟨id, .tail (.single value) target⟩, faulty⟩)

end Listing
end ScriptListing
