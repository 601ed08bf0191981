import ScriptListing.Proofs.Listing.Jumps
import ScriptListing.Proofs.Listing.Letters

/-! Where types show in a body. A local that is a statement of its own declares itself with its
type; everywhere below another instruction it reads as its name, as if the name stood in the
tree itself. Two classes whose properties have the same names are therefore cut at the same
statements and list the same text for all statements but those locals. -/
namespace ScriptListing

structure Function.Retyped (f f' : Function) : Prop where
  name : f.name = f'.name
  script : f.script = f'.script
  properties : f.properties.map Property.name = f'.properties.map Property.name

/-- Classes of one name whose functions differ in the types of their properties at most. -/
structure Class.Retyped (c c' : Class) : Prop where
  name : c.name = c'.name
  functions : List.Forall₂ Function.Retyped c.functions c'.functions

theorem Function.property?_name (f : Function) (name : String) :
    (f.property? name).map Property.name =
      if name ∈ f.properties.map Property.name then some name else none := by
  cases found : f.property? name with
  | none =>
    have absent : name ∉ f.properties.map Property.name := by
      simpa [property?] using found
    rw [if_neg absent, Option.map_none]
  | some p =>
    have same : p.name = name := by simpa using List.find?_some found
    have present : name ∈ f.properties.map Property.name :=
      List.mem_map.mpr ⟨p, List.mem_of_find?_eq_some found, same⟩
    rw [if_pos present, Option.map_some, same]

namespace Listing

open Outcome

/-- The jumps of a class do not depend on types. -/
theorem discover_retyped {c c' : Class} (retyped : c.Retyped c') :
    Label.discover c = Label.discover c' := by
  have targets : c.functions.flatMap Label.targets = c'.functions.flatMap Label.targets := by
    refine (flatMap_of_forall₂ retyped.functions fun f f' _ same => ?_).symm
    simp only [Label.targets, same.name, same.script]
  rw [Label.discover, Label.discover, targets]

namespace Scope

section

variable {table table' : Option SymbolTable} {c c' : Class} {f f' : Function}

theorem owner_retyped (functions : List.Forall₂ Function.Retyped c.functions c'.functions)
    (own : f.Retyped f') (ref : PropertyRef) :
    Agree Function.Retyped (owner ⟨table, c, f⟩ ref) (owner ⟨table', c', f'⟩ ref) := by
  unfold owner
  rw [← own.name]
  split
  · exact .ok own
  · have found := find_related (fun _ _ same => same.name) functions ref.owner
    unfold Class.function?
    generalize c.functions.find? (·.name == ref.owner) = g at found
    generalize c'.functions.find? (·.name == ref.owner) = g' at found
    cases found with
    | none => exact .error _
    | some same => exact .ok same

theorem find_retyped (functions : List.Forall₂ Function.Retyped c.functions c'.functions)
    (own : f.Retyped f') (ref : PropertyRef) :
    Agree (fun p p' => p.name = p'.name) (find ⟨table, c, f⟩ ref) (find ⟨table', c', f'⟩ ref) := by
  unfold find
  split
  · exact .error _
  · apply (owner_retyped functions own ref).bind
    intro g g' same
    have names := g.property?_name ref.name
    rw [same.properties, ← g'.property?_name] at names
    rw [same.name]
    cases found : g.property? ref.name with
    | none =>
      rw [found] at names
      rw [Option.map_eq_none_iff.mp names.symm]
      exact .error _
    | some p =>
      rw [found] at names
      obtain ⟨p', found', equal⟩ := Option.map_eq_some_iff.mp names.symm
      rw [found']
      exact .ok equal.symm

theorem sameNames_retyped (functions : List.Forall₂ Function.Retyped c.functions c'.functions)
    (own : f.Retyped f') : SameNames ⟨table, c, f⟩ ⟨table', c', f'⟩ := by
  intro ref
  have found : Agree (fun p p' => p.name = p'.name) (find ⟨table, c, f⟩ ref)
      (find ⟨table', c', f'⟩ ref) := find_retyped functions own ref
  generalize find ⟨table, c, f⟩ ref = x at found
  generalize find ⟨table', c', f'⟩ ref = y at found
  cases found with
  | error obstacle => rfl
  | ok same => exact congrArg Except.ok same

end

def Plain (e : Expr) : Prop := ∀ ref, e ≠ .localVariable ref

theorem undeclared_plain {e : Expr} (plain : Plain e) (place : Place) : Undeclared place e := by
  cases place with
  | under parent => trivial
  | statement =>
    cases e with
    | localVariable ref => exact (plain ref rfl).elim
    | _ => trivial

/-- Scopes with the same names list a statement alike unless it is a local alone. -/
theorem lines_names {s s' : Scope} (names : SameNames s s')
    (name : s.function.name = s'.function.name) {e : Expr} (plain : Plain e) :
    s.lines e = s'.lines e :=
  lines_congr name (inline_names names .statement e (undeclared_plain plain _))
    fun x => inline_names names _ x (undeclared_under e x)

/-- What a local alone on a line shows: its type and its name, a parameter only its name,
unless the reference cannot be resolved. -/
inductive LocalLines (s : Scope) (ref : PropertyRef) : Except Obstacle (List Line) → Prop where
  | declared {p : Property} {type : String} (found : s.find ref = .ok p)
      (owned : p.isParm = false)
      (told : TypeName.resolve s.table s.cls.hierarchy p = .ok type) :
      LocalLines s ref (.ok [{ phrase := .words (type ++ " " ++ p.name ++ ";") }])
  | parameter {p : Property} (found : s.find ref = .ok p) (parm : p.isParm = true) :
      LocalLines s ref (.ok [{ phrase := .words (p.name ++ ";") }])
  | unresolved {obstacle : Obstacle} (missing : s.find ref = .error obstacle) :
      LocalLines s ref (.error obstacle)

theorem localLines_of_answers {s : Scope} (answers : TypeName.Answers s.table)
    (ref : PropertyRef) : s.LocalLines ref (s.lines (.localVariable ref)) := by
  have shown : s.lines (.localVariable ref) = (s.localName .statement ref).map fun content =>
      [{ phrase := .words (content ++ ";") }] := rfl
  rw [shown, localName]
  cases found : s.find ref with
  | error obstacle => exact .unresolved found
  | ok p =>
    simp only [bind, Except.bind]
    cases parm : p.isParm with
    | true => exact .parameter found parm
    | false =>
      obtain ⟨type, told⟩ := TypeName.resolve_ok answers s.cls.hierarchy p
      simp only [typeOf, told]
      exact .declared found parm told

/-- Scopes that find the same names are stopped by the same statements, and list a statement
alike unless it is a local alone. -/
theorem lines_agree {s s' : Scope} (names : SameNames s s')
    (name : s.function.name = s'.function.name) (answers : TypeName.Answers s.table)
    (answers' : TypeName.Answers s'.table) (e : Expr) :
    Agree (fun lines lines' => Plain e → lines = lines') (s.lines e) (s'.lines e) := by
  by_cases plain : Plain e
  · exact .of_eq (fun _ _ => rfl) (lines_names names name plain)
  · obtain ⟨ref, rfl⟩ : ∃ ref, e = .localVariable ref := by simpa [Plain] using plain
    have shown := localLines_of_answers answers ref
    have shown' := localLines_of_answers answers' ref
    have same := names ref
    generalize s.lines (.localVariable ref) = x at shown
    generalize s'.lines (.localVariable ref) = y at shown'
    cases shown with
    | declared found | parameter found =>
      cases shown' with
      | declared | parameter => exact .ok fun alone => (alone ref rfl).elim
      | unresolved missing =>
        rw [found, missing] at same
        cases same
    | unresolved missing =>
      cases shown' with
      | declared found | parameter found =>
        rw [found, missing] at same
        cases same
      | unresolved missing' =>
        rw [missing, missing'] at same
        cases same
        exact .error _

mutual

/-- The tree with its locals, where they are found, written as plain names. -/
def named (s : Scope) : Expr → Expr
  | .localVariable ref =>
    match s.find ref with
    | .ok p => .object p.name
    | .error _ => .localVariable ref
  | .assign code target value => .assign code (named s target) (named s value)
  | .assignPersistent destination value => .assignPersistent destination (named s value)
  | .text source => .text (named s source)
  | .struct name members => .struct name (namedAll s members)
  | .finalCall code function arguments => .finalCall code function (namedAll s arguments)
  | .virtualCall code name arguments => .virtualCall code name (namedAll s arguments)
  | .jumpIfNot target condition => .jumpIfNot target (named s condition)
  | .computedJump target => .computedJump (named s target)
  | .popFlowIfNot condition => .popFlowIfNot (named s condition)
  | .ret value => .ret (named s value)
  | .context code object member => .context code (named s object) (named s member)
  | .structMember struct property => .structMember (named s struct) property
  | .interfaceContext value => .interfaceContext (named s value)
  | .cast conversion target => .cast conversion (named s target)
  | .classCast code className target => .classCast code className (named s target)
  | e => e

def namedAll (s : Scope) : List Expr → List Expr
  | [] => []
  | e :: rest => named s e :: namedAll s rest

end

structure SamePlace (place place' : Place) : Prop where
  name : place.name = place'.name
  isStatement : place.isStatement = place'.isStatement
  inContext : place.inContext = place'.inContext
  inText : place.inText = place'.inText

theorem named_missing {s : Scope} {e : Expr} : s.named e = .missing ↔ e = .missing := by
  cases e with
  | localVariable ref =>
    simp only [named]
    split <;> simp
  | _ => simp [named]

/-- Below an instruction a local reads as the name that is found for it. -/
theorem inline_found {s : Scope} {place : Place} (below : place.isStatement = false)
    (ref : PropertyRef) :
    s.inline place (s.named (.localVariable ref)) = (s.find ref).map Property.name := by
  cases place with
  | statement => cases below
  | under parent =>
    simp only [named]
    cases found : s.find ref with
    | ok p => rfl
    | error obstacle =>
      change s.localName _ ref = _
      rw [localName_under, found]

/-- An instruction that is no local keeps its code, and what it asks of its operands. -/
theorem under_named (s : Scope) (parent : Expr) (plain : Plain parent) :
    SamePlace (.under parent) (.under (s.named parent)) := by
  cases parent with
  | localVariable ref => exact (plain ref rfl).elim
  | _ => exact ⟨rfl, rfl, rfl, rfl⟩

theorem qualifier_place {place place' : Place} (same : SamePlace place place') (code : Opcode)
    (function : FunctionRef) : qualifier place code function = qualifier place' code function := by
  simp only [qualifier, same.inContext]

mutual

/-- A tree reads as the tree of the names: whatever place under an instruction a local has, it
is its name that stands there. -/
theorem inline_named (s : Scope) {place place' : Place} (same : SamePlace place place') :
    (e : Expr) → Undeclared place e → s.inline place e = s.inline place' (s.named e)
  | .missing, _ => by simp only [inline, named, same.name]
  | .localVariable ref, undeclared => by
    cases place with
    | statement => exact undeclared.elim
    | under parent =>
      rw [inline_found same.isStatement.symm]
      exact localName_under s parent ref
  | .assign code target value, _ => by
    have here := under_named s (.assign code target value) nofun
    simp only [inline, named, inline_named s here target (undeclared_under ..),
      inline_named s here value (undeclared_under ..)]
  | .assignPersistent destination value, _ => by
    have here := under_named s (.assignPersistent destination value) nofun
    simp only [inline, named, inline_named s here value (undeclared_under ..)]
  | .text source, _ => by
    have here := under_named s (.text source) nofun
    have below := inline_named s here source (undeclared_under ..)
    by_cases missing : source = .missing
    · subst missing
      rfl
    · rw [named, inline_text missing, inline_text (mt named_missing.mp missing), below, named]
  | .finalCall code function arguments, _ => by
    have here := under_named s (.finalCall code function arguments) nofun
    simp only [inline, named, inlineAll_named s here arguments, qualifier_place same]
  | .virtualCall code name arguments, _ => by
    have here := under_named s (.virtualCall code name arguments) nofun
    simp only [inline, named, inlineAll_named s here arguments]
  | .context code object member, _ => by
    have here := under_named s (.context code object member) nofun
    simp only [inline, named, inline_named s here object (undeclared_under ..),
      inline_named s here member (undeclared_under ..)]
  | .structMember struct property, _ => by
    have here := under_named s (.structMember struct property) nofun
    simp only [inline, named, inline_named s here struct (undeclared_under ..)]
  | .interfaceContext value, _ => by
    have here := under_named s (.interfaceContext value) nofun
    simp only [inline, named, inline_named s here value (undeclared_under ..)]
  | .cast conversion target, _ => by
    have here := under_named s (.cast conversion target) nofun
    simp only [inline, named, inline_named s here target (undeclared_under ..)]
  | .classCast code className target, _ => by
    have here := under_named s (.classCast code className target) nofun
    simp only [inline, named, inline_named s here target (undeclared_under ..)]
  | .string _ _, _ => by simp only [inline, named, same.inText]
  | .localOutVariable _, _ | .instanceVariable _, _ | .defaultVariable _, _ => rfl
  | .self, _ | .nothing, _ | .noObject, _ | .truth _, _ | .int _, _ | .int64 _, _ => rfl
  | .byte _, _ | .float _, _ | .double _, _ | .name _, _ | .vector _ _ _, _ => rfl
  | .rotation _ _ _, _ | .object _, _ | .struct _ _, _ | .unknown _, _ | .jump _, _ => rfl
  | .jumpIfNot _ _, _ | .computedJump _, _ | .ret _, _ | .pushFlow _, _ | .popFlow, _ => rfl
  | .popFlowIfNot _, _ | .endOfScript, _ => rfl

theorem inlineAll_named (s : Scope) {parent parent' : Expr}
    (same : SamePlace (.under parent) (.under parent')) :
    (es : List Expr) →
      s.inlineAll (.under parent) es = s.inlineAll (.under parent') (s.namedAll es)
  | [] => rfl
  | e :: rest => by
    simp only [inlineAll, namedAll, inline_named s same e (undeclared_under ..),
      inlineAll_named s same rest]

end

theorem isNothing_named (s : Scope) (e : Expr) : isNothing (s.named e) = isNothing e := by
  cases e with
  | localVariable ref =>
    simp only [named]
    split <;> rfl
  | _ => rfl

theorem dispatchTarget_named (s : Scope) (function : FunctionRef) (arguments : List Expr) :
    Label.dispatchTarget? function (s.namedAll arguments) =
      Label.dispatchTarget? function arguments := by
  cases arguments with
  | nil => rfl
  | cons e rest =>
    cases e with
    | localVariable ref =>
      simp only [namedAll, named]
      split <;> rfl
    | _ => rfl

theorem singleLine_named (s : Scope) {e : Expr} (plain : Plain e) (ending : String) :
    s.singleLine e ending = s.singleLine (s.named e) ending := by
  have whole : s.inline .statement e = s.inline .statement (s.named e) :=
    inline_named s ⟨rfl, rfl, rfl, rfl⟩ e (undeclared_plain plain _)
  rw [singleLine, singleLine, whole]

/-- A statement is listed as the statement with the names in place of the locals below it. -/
theorem lines_named (s : Scope) {e : Expr} (plain : Plain e) :
    s.lines e = s.lines (s.named e) := by
  have single (ending : String) := singleLine_named s plain ending
  have below {x : Expr} := inline_named s (under_named s e plain) x (undeclared_under ..)
  cases e
  case localVariable ref => exact (plain ref rfl).elim
  case ret value =>
    simp only [named] at below
    simp only [lines, named, isNothing_named, below]
  case finalCall code function arguments =>
    simp only [named] at single
    simp only [lines, named, dispatchTarget_named, single]
  case jumpIfNot | popFlowIfNot | computedJump =>
    simp only [named] at below
    simp only [lines, guardedLines, named, below]
  case missing | jump | popFlow | pushFlow | endOfScript | unknown => rfl
  all_goals exact single _

end Scope

/-- Entries of one statement under two scopes: with the same label, and stopped by the same
obstacle, if at all. They are alike unless the statement is a local alone; then each shows what
its own scope declares. -/
structure Entry.Retyped (s s' : Scope) (e e' : Entry) : Prop where
  statement : e.statement = e'.statement
  labelled : e.labelled = e'.labelled
  stop : e.stop? = e'.stop?
  output : Scope.Plain e.statement.expr → e.outcome = e'.outcome
  localLines : ∀ ref, e.statement.expr = .localVariable ref →
    s.LocalLines ref e.outcome ∧ s'.LocalLines ref e'.outcome

theorem entry_retyped {s s' : Scope} (names : s.SameNames s')
    (name : s.function.name = s'.function.name) (answers : TypeName.Answers s.table)
    (answers' : TypeName.Answers s'.table) (labels : LabelTable) (st : Statement) :
    Entry.Retyped s s' (entry s labels st) (entry s' labels st) where
  statement := rfl
  labelled := by simp only [entry, name]
  stop := by
    have agree := Scope.lines_agree names name answers answers' st.expr
    simp only [Entry.stop?, entry]
    generalize s.lines st.expr = x at agree
    generalize s'.lines st.expr = y at agree
    cases agree with
    | error obstacle => rfl
    | ok _ => rfl
  output plain := Scope.lines_names names name plain
  localLines ref alone := by
    simp only [entry] at alone ⊢
    rw [alone]
    exact ⟨Scope.localLines_of_answers answers ref, Scope.localLines_of_answers answers' ref⟩

/-- A script has the same entries, one by one, up to the same end. -/
theorem entries_retyped {s s' : Scope} (names : s.SameNames s')
    (name : s.function.name = s'.function.name) (answers : TypeName.Answers s.table)
    (answers' : TypeName.Answers s'.table) (labels : LabelTable) (script : List Statement) :
    List.Forall₂ (Entry.Retyped s s') (entries s labels script) (entries s' labels script) := by
  induction script with
  | nil => exact .nil
  | cons st rest ih =>
    have one := entry_retyped names name answers answers' labels st
    have agree := Scope.lines_agree names name answers answers' st.expr
    unfold entries
    generalize s.lines st.expr = x at agree
    generalize s'.lines st.expr = y at agree
    cases agree with
    | error obstacle => exact .cons one .nil
    | ok _ => exact .cons one ih

theorem stop_retyped {s s' : Scope} {es es' : List Entry}
    (retyped : List.Forall₂ (Entry.Retyped s s') es es') :
    es.findSome? Entry.stop? = es'.findSome? Entry.stop? := by
  induction retyped with
  | nil => rfl
  | cons one _ ih => rw [List.findSome?_cons, List.findSome?_cons, one.stop, ih]

structure Block.Retyped (table table' : Option SymbolTable) (c c' : Class) (b b' : Block) :
    Prop where
  function : b.function.Retyped b'.function
  entries : List.Forall₂ (Entry.Retyped ⟨table, c, b.function⟩ ⟨table', c', b'.function⟩)
    b.entries b'.entries
  fault : b.fault? c = b'.fault? c'

section

variable {table table' : Option SymbolTable} (answers : TypeName.Answers table)
  (answers' : TypeName.Answers table') {c c' : Class}
include answers answers'

theorem block_retyped (retyped : c.Retyped c') {f f' : Function} (same : f.Retyped f')
    {labels : LabelTable} {b b' : Block} (told : block table c labels f = .ok b)
    (told' : block table' c' labels f' = .ok b') : Block.Retyped table table' c c' b b' := by
  obtain ⟨rfl, found⟩ := block_eq_ok told
  obtain ⟨rfl, found'⟩ := block_eq_ok told'
  have names : Scope.SameNames ⟨table, c, b.function⟩ ⟨table', c', b'.function⟩ :=
    Scope.sameNames_retyped retyped.functions same
  have entries := entries_retyped names same.name answers answers' labels b.function.script
  rw [← found, same.script, ← found'] at entries
  refine ⟨same, entries, ?_⟩
  rw [Block.fault?, Block.fault?, stop_retyped entries]
  simp only [fault, retyped.name, same.name]

theorem blocks_retyped (retyped : c.Retyped c') {t t' : Transcript}
    (told : transcript table c = .ok t) (told' : transcript table' c' = .ok t') :
    List.Forall₂ (Block.Retyped table table' c c') t.blocks t'.blocks := by
  have blocks := blocks_of_transcript told
  have blocks' := blocks_of_transcript told'
  rw [← discover_retyped retyped] at blocks'
  apply (forall₂_both retyped.functions blocks blocks').imp
  rintro b b' ⟨f, f', same, one, one'⟩
  exact block_retyped answers answers' retyped same one one'

end

theorem faults_retyped {table table' : Option SymbolTable} {c c' : Class} {t t' : Transcript}
    (blocks : List.Forall₂ (Block.Retyped table table' c c') t.blocks t'.blocks) :
    t.faults c = t'.faults c' := by
  rw [Transcript.faults, Transcript.faults, List.filterMap_eq_flatMap_toList,
    List.filterMap_eq_flatMap_toList]
  refine (flatMap_of_forall₂ blocks fun b b' _ retyped => ?_).symm
  rw [retyped.fault]

theorem blocks_function {table : Option SymbolTable} {c : Class} {t : Transcript}
    (told : transcript table c = .ok t) : t.blocks.map Block.function = c.functions := by
  have blocks : List.Forall₂ (fun f b => f = b.function) c.functions t.blocks :=
    (blocks_of_transcript told).imp fun f b one => (block_eq_ok one).1.symm
  have same := List.forall₂_map_right_iff.mpr blocks
  rw [List.forall₂_eq_eq_eq] at same
  exact same.symm

/-- Types show in a body only for a local alone. Under symbol tables that answer, two classes
whose properties have the same names are cut at the same statements for the same reasons, and
every statement is listed alike but the locals that stand alone: such a line is the type and the
name of the property, and the name only if it is a parameter. Below any other instruction a
local reads as the name that is found for it, and so a statement that is no local alone is
listed as if these names stood in its tree, at whatever depth. -/
theorem types_show_in_bare_locals_only (table table' : Option SymbolTable)
    (answers : TypeName.Answers table) (answers' : TypeName.Answers table') (w : Writer)
    (c c' : Class) (retyped : c.Retyped c') :
    (∃ (r r' : Result) (t t' : Transcript),
      render table w c = .ok r ∧ render table' w c' = .ok r' ∧
      transcript table c = .ok t ∧ transcript table' c' = .ok t' ∧
      r.text = w.text ++ t.text w.depth ∧ r'.text = w.text ++ t'.text w.depth ∧
      t.blocks.map Block.function = c.functions ∧
      t'.blocks.map Block.function = c'.functions ∧
      List.Forall₂ (Block.Retyped table table' c c') t.blocks t'.blocks ∧
      r.faults = r'.faults) ∧
    (∀ f parent ref, Scope.inline ⟨table, c, f⟩ (.under parent) (.localVariable ref) =
      (Scope.find ⟨table, c, f⟩ ref).map Property.name) ∧
    ∀ f w e, Scope.Plain e → Scope.statement ⟨table, c, f⟩ w e =
      Scope.statement ⟨table, c, f⟩ w (Scope.named ⟨table, c, f⟩ e) := by
  refine ⟨?_, fun f parent ref => Scope.localName_under ⟨table, c, f⟩ parent ref, ?_⟩
  · obtain ⟨r, rendered⟩ := (declares_of_answers answers c).render w
    obtain ⟨r', rendered'⟩ := (declares_of_answers answers' c').render w
    obtain ⟨t, told, text, faults⟩ := transcript_of_render rendered
    obtain ⟨t', told', text', faults'⟩ := transcript_of_render rendered'
    have blocks := blocks_retyped answers answers' retyped told told'
    refine ⟨r, r', t, t', rendered, rendered', told, told', text, text', blocks_function told,
      blocks_function told', blocks, ?_⟩
    rw [faults, faults', faults_retyped blocks]
  · intro f w e plain
    rw [Scope.statement_eq_lines, Scope.statement_eq_lines, Scope.lines_named _ plain]

/-- A function that names a property alone, uses it under a cast, and is cut at a missing
instruction. -/
def gripping (hinge : Property) : Class where
  name := "Door_C"
  functions := [⟨"Grip", "Door_C", [hinge], [
    ⟨0, .localVariable ⟨["Hinge"], ""⟩⟩,
    ⟨9, .assign .let (.instanceVariable ⟨["Held"], ""⟩)
      (.cast "Bool" (.localVariable ⟨["Hinge"], ""⟩))⟩,
    ⟨40, .missing⟩]⟩]

def hingeLocal : Property :=
  { name := "Hinge", kind := "ObjectProperty", objectClass := some "Part" }

def hingeParameter : Property := { name := "Hinge", kind := "BoolProperty", flags := .parm }

/-- The line of the property alone differs, the assignment and the fault do not. -/
theorem types_show_in_bare_locals_only_gripping :
    ∃ r r' : Result,
      render (some actors) {} (gripping hingeLocal) = .ok r ∧
      render none {} (gripping hingeParameter) = .ok r' ∧
      r.faults = r'.faults ∧ r.faults.map Fault.message = ["missing instruction"] ∧
      r.text = "class Door_C\n\x7b\n\n    void Grip()\n    \x7b\n" ++
        "        class APart* Hinge;\n        Held = Cast(Bool, Hinge);\n" ++
        "        // truncated: missing instruction\n    \x7d\n\x7d\n" ∧
      r'.text = "class Door_C\n\x7b\n\n    void Grip(bool Hinge)\n    \x7b\n" ++
        "        Hinge;\n        Held = Cast(Bool, Hinge);\n" ++
        "        // truncated: missing instruction\n    \x7d\n\x7d\n" := by
  have answers : TypeName.Answers (some actors) := by
    intro t given name
    cases given
    exact ⟨_, rfl⟩
  have retyped : (gripping hingeLocal).Retyped (gripping hingeParameter) :=
    ⟨rfl, .cons ⟨rfl, rfl, rfl⟩ .nil⟩
  obtain ⟨⟨r, r', _, _, rendered, rendered', _, _, _, _, _, _, _, faults⟩, _⟩ :=
    types_show_in_bare_locals_only (some actors) none answers nofun {} _ _ retyped
  have shown : (render (some actors) {} (gripping hingeLocal)).toOption.map
      (fun r => (r.faults.map Fault.message, r.text)) = some (_, _) := rfl
  have shown' : (render none {} (gripping hingeParameter)).toOption.map Result.text = some _ := rfl
  simp only [rendered, rendered', Except.toOption, Option.map_some, Option.some.injEq,
    Prod.mk.injEq] at shown shown'
  refine ⟨r, r', rendered, rendered', faults, ?_, ?_, ?_⟩
  · rw [shown.1]
    decide +kernel
  · rw [shown.2]
    decide +kernel
  · rw [shown']
    decide +kernel

end Listing
end ScriptListing
