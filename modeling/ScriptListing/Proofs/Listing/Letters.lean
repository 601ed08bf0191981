import ScriptListing.Proofs.Listing.Structure
import ScriptListing.Proofs.Text.Letter

/-! What a symbol table can change in a listing: the letter of an object type, and nothing
else. Two listings of one class under tables that answer have the same lines, the same
padding and the same faults. -/
namespace ScriptListing

open Outcome Text

theorem TypeName.letter_eq {table : Option SymbolTable} {h : Hierarchy} {key : Option String}
    {c : Char} (told : letter table h key = .ok c) :
    c = 'A' ∨ c = 'U' := by
  unfold letter at told
  split at told
  · obtain ⟨base, _, rest⟩ := bind_eq_ok.mp told
    cases base with
    | none =>
      obtain rfl := pure_eq_ok.mp rest
      exact .inr rfl
    | some base =>
      obtain ⟨actor, _, chosen⟩ := bind_eq_ok.mp rest
      obtain rfl := pure_eq_ok.mp chosen
      cases actor with
      | true => exact .inl rfl
      | false => exact .inr rfl
  · obtain rfl := pure_eq_ok.mp told
    exact .inr rfl

section

variable {table table' : Option SymbolTable} (answers : TypeName.Answers table)
  (answers' : TypeName.Answers table')
include answers answers'

namespace TypeName

theorem object_relettered (h : Hierarchy) (kind : String) (key : Option String) :
    Agree Relettered (object table h kind key) (object table' h kind key) := by
  unfold object
  split
  · next key =>
    split
    · exact .ok (.refl _)
    · obtain ⟨c, told⟩ := letter_ok answers h (some key)
      obtain ⟨c', told'⟩ := letter_ok answers' h (some key)
      rw [told, told']
      have swapped : SameButLetter c c' := by
        rcases letter_eq told with rfl | rfl <;> rcases letter_eq told' with rfl | rfl <;>
          simp [SameButLetter]
      have letters : Relettered c.toString c'.toString := by
        simpa [Relettered] using swapped
      exact .ok (((letters.after "class ").before (h.nameOf key)).before "*")
  · exact .ok (.refl _)

theorem resolve_relettered (h : Hierarchy) :
    (p : Property) → Agree Relettered (resolve table h p) (resolve table' h p)
  | ⟨_, kind, _, enum, struct, inner, _, _, objectClass, interface, _⟩ => by
    unfold resolve
    split
    case h_11 =>
      match inner with
      | none => exact .ok (.refl _)
      | some element =>
        apply (resolve_relettered h element).bind
        intro type type' same
        exact .ok ((same.after "TArray<").before ">")
    case h_14 => exact object_relettered answers answers' h _ objectClass
    all_goals exact .ok (.refl _)

end TypeName

end

structure Writer.Relettered (w w' : Writer) : Prop where
  depth : w.depth = w'.depth
  text : Text.Relettered w.text w'.text

namespace Writer.Relettered

theorem refl (w : Writer) : Relettered w w := ⟨rfl, .refl w.text⟩

variable {w w' : Writer} (same : Relettered w w')
include same

theorem write {a b : String} (fragment : Text.Relettered a b) :
    Relettered (w.write a) (w'.write b) :=
  ⟨same.depth, same.text.append fragment⟩

theorem line {a b : String} (content : Text.Relettered a b) :
    Relettered (w.line a) (w'.line b) := by
  unfold Writer.line Writer.startLine
  rw [same.depth]
  exact ((same.write (.refl _)).write content).write (.refl _)

theorem raw {a b : String} (content : Text.Relettered a b) : Relettered (w.raw a) (w'.raw b) :=
  (same.write content).write (.refl _)

theorem blank : Relettered w.blank w'.blank := same.write (.refl _)

theorem indent : Relettered w.indent w'.indent := ⟨congrArg (· + 1) same.depth, same.text⟩

theorem dedent : Relettered w.dedent w'.dedent := ⟨congrArg (· - 1) same.depth, same.text⟩

end Writer.Relettered

namespace Listing

section

variable {table table' : Option SymbolTable} (answers : TypeName.Answers table)
  (answers' : TypeName.Answers table')

namespace Scope

variable {c : Class} {f : Function}

theorem sameNames_of_table : SameNames ⟨table, c, f⟩ ⟨table', c, f⟩ := fun _ => rfl

/-- Under another instruction no table is asked. -/
theorem inline_under (parent e : Expr) :
    inline ⟨table, c, f⟩ (.under parent) e = inline ⟨table', c, f⟩ (.under parent) e :=
  inline_names sameNames_of_table (.under parent) e (undeclared_under parent e)

theorem guarded_relettered {w w' : Writer} (same : w.Relettered w') (parent condition : Expr)
    (body : String) :
    Agree Writer.Relettered (guarded ⟨table, c, f⟩ w parent condition body)
      (guarded ⟨table', c, f⟩ w' parent condition body) := by
  have tests : Agree Text.Relettered (inline ⟨table, c, f⟩ (.under parent) condition)
      (inline ⟨table', c, f⟩ (.under parent) condition) :=
    .of_eq .refl (inline_under parent condition)
  apply tests.bind
  intro test test' alike
  have opened := (same.line ((alike.after "if (!").before ")")).line (.refl "\x7b")
  exact .ok ((opened.indent.line (.refl body)).dedent.line (.refl "\x7d"))

include answers answers'

theorem localName_relettered (place : Place) (ref : PropertyRef) :
    Agree Text.Relettered (localName ⟨table, c, f⟩ place ref)
      (localName ⟨table', c, f⟩ place ref) := by
  unfold localName
  have found : Agree Eq (find ⟨table, c, f⟩ ref) (find ⟨table', c, f⟩ ref) :=
    .of_eq (fun _ => rfl) rfl
  apply found.bind
  rintro p _ rfl
  split
  · have type : Agree Text.Relettered (typeOf ⟨table, c, f⟩ p) (typeOf ⟨table', c, f⟩ p) := by
      obtain ⟨type, told⟩ := TypeName.resolve_ok answers c.hierarchy p
      obtain ⟨type', told', same⟩ :=
        (TypeName.resolve_relettered answers answers' c.hierarchy p).exists_ok told
      simp only [typeOf, told, told']
      exact .ok same
    apply type.bind
    intro name name' same
    exact .ok ((same.before " ").before p.name)
  · exact .ok (.refl _)

theorem inline_relettered (place : Place) (e : Expr) :
    Agree Text.Relettered (inline ⟨table, c, f⟩ place e) (inline ⟨table', c, f⟩ place e) := by
  by_cases undeclared : Undeclared place e
  · exact .of_eq .refl (inline_names sameNames_of_table place e undeclared)
  · obtain ⟨ref, rfl⟩ := local_of_declared undeclared
    exact localName_relettered answers answers' place ref

theorem single_relettered {w w' : Writer} (same : w.Relettered w') (e : Expr) (ending : String) :
    Agree Writer.Relettered (single ⟨table, c, f⟩ w e ending)
      (single ⟨table', c, f⟩ w' e ending) := by
  apply (inline_relettered answers answers' .statement e).bind
  intro content content' alike
  exact .ok (same.line (alike.before ending))

theorem statement_relettered {w w' : Writer} (same : w.Relettered w') (e : Expr) :
    Agree Writer.Relettered (statement ⟨table, c, f⟩ w e) (statement ⟨table', c, f⟩ w' e) := by
  cases e
  case missing => exact .error _
  case ret value =>
    simp only [statement]
    split
    · exact .ok (same.line (.refl _))
    · apply (inline_relettered answers answers' _ value).bind
      intro result result' alike
      exact .ok (same.line ((alike.after "return ").before ";"))
  case finalCall code function arguments =>
    simp only [statement]
    split
    · exact .ok (same.line (.refl _))
    · exact single_relettered answers answers' same _ _
  case jumpIfNot target condition => exact guarded_relettered same _ condition _
  case popFlowIfNot condition => exact guarded_relettered same _ condition _
  case jump | popFlow | unknown => exact .ok (same.line (.refl _))
  case pushFlow | endOfScript => exact .ok same
  case computedJump target =>
    apply (inline_relettered answers answers' _ target).bind
    intro value value' alike
    exact .ok (same.line ((alike.after "goto(").before ");"))
  all_goals exact single_relettered answers answers' same _ _

end Scope

variable {c : Class}

structure Body.Relettered (b b' : Body) : Prop where
  writer : b.writer.Relettered b'.writer
  stop : b.stop = b'.stop

theorem labelLine_relettered {w w' : Writer} (same : w.Relettered w') (labels : LabelTable)
    (function : String) (offset : UInt32) :
    (labelLine labels function offset w).Relettered (labelLine labels function offset w') := by
  unfold labelLine
  split
  · exact same.blank.raw (.refl _)
  · exact same

theorem padRight_relettered (width : Nat) {a b : String} (same : Text.Relettered a b) :
    Text.Relettered (padRight width a) (padRight width b) := by
  unfold padRight
  rw [places_relettered same]
  exact same.before _

include answers answers'

theorem body_relettered (f : Function) (labels : LabelTable) {w w' : Writer}
    (same : w.Relettered w') (script : List Statement) :
    (body ⟨table, c, f⟩ labels w script).Relettered (body ⟨table', c, f⟩ labels w' script) := by
  induction script generalizing w w' with
  | nil => exact ⟨same, rfl⟩
  | cons st rest ih =>
    have labelled := labelLine_relettered same labels f.name st.offset
    have written := Scope.statement_relettered answers answers' (c := c) (f := f) labelled st.expr
    simp only [body]
    revert written
    generalize Scope.statement ⟨table, c, f⟩ (labelLine labels f.name st.offset w) st.expr = x
    generalize Scope.statement ⟨table', c, f⟩ (labelLine labels f.name st.offset w') st.expr = y
    intro written
    cases written with
    | error obstacle => exact ⟨labelled, rfl⟩
    | ok next => exact ih next

theorem parameter_relettered (h : Hierarchy) (p : Property) :
    Agree Text.Relettered (parameter table h p) (parameter table' h p) := by
  apply (TypeName.resolve_relettered answers answers' h p).bind
  intro type type' same
  exact .ok (((same.before _).before " ").before p.name)

theorem returnType_relettered (h : Hierarchy) (f : Function) :
    Agree Text.Relettered (returnType table h f) (returnType table' h f) := by
  unfold returnType
  split
  · exact .ok (.refl _)
  · exact TypeName.resolve_relettered answers answers' h _

theorem signature_relettered (h : Hierarchy) (f : Function) :
    Agree Text.Relettered (signature table h f) (signature table' h f) := by
  apply (returnType_relettered answers answers' h f).bind
  intro result result' alike
  apply (Agree.mapM fun p _ => parameter_relettered answers answers' h p).bind
  intro parts parts' each
  have called := ((alike.before " ").before f.name).before "("
  exact .ok ((called.append (.intercalate ", " each)).before ")")

theorem function_relettered (labels : LabelTable) {w w' : Writer} (same : w.Relettered w')
    (f : Function) :
    Agree (fun r r' => r.1.Relettered r'.1 ∧ r.2 = r'.2) (function table c labels w f)
      (function table' c labels w' f) := by
  apply (signature_relettered answers answers' c.hierarchy f).bind
  intro head head' alike
  have opened := ((same.line alike).line (.refl "\x7b")).indent
  have done := body_relettered answers answers' f labels opened f.script (c := c)
  dsimp only
  rw [done.stop]
  split
  · exact .ok ⟨done.writer.dedent.line (.refl _), rfl⟩
  · exact .ok ⟨(done.writer.line (.refl _)).dedent.line (.refl _), rfl⟩

theorem functions_relettered (labels : LabelTable) {w w' : Writer} (same : w.Relettered w')
    (fs : List Function) :
    Agree (fun r r' => r.1.Relettered r'.1 ∧ r.2 = r'.2) (functions table c labels w fs)
      (functions table' c labels w' fs) := by
  induction fs generalizing w w' with
  | nil => exact .ok ⟨same, rfl⟩
  | cons f rest ih =>
    apply (function_relettered answers answers' labels same.blank f).bind
    rintro ⟨next, stop⟩ ⟨next', stop'⟩ ⟨alike, cut⟩
    apply (ih alike).bind
    rintro ⟨last, faults⟩ ⟨last', faults'⟩ ⟨done, others⟩
    dsimp only at cut others
    subst cut others
    exact .ok ⟨done, rfl⟩

theorem fields_relettered (h : Hierarchy) {w w' : Writer} (same : w.Relettered w')
    (ps : List Property) :
    Agree Writer.Relettered (fields table h w ps) (fields table' h w' ps) := by
  induction ps generalizing w w' with
  | nil => exact .ok same
  | cons p rest ih =>
    have content : Agree Text.Relettered (fieldLine table h p) (fieldLine table' h p) := by
      apply (TypeName.resolve_relettered answers answers' h p).bind
      intro type type' alike
      exact .ok ((((padRight_relettered 32 alike).before " ").before p.name).before ";")
    apply content.bind
    intro line line' alike
    exact ih (same.line alike)

theorem render_relettered {w w' : Writer} (same : w.Relettered w') (c : Class) :
    Agree (fun r r' => r.className = r'.className ∧ r.functions = r'.functions ∧
      r.faults = r'.faults ∧ Text.Relettered r.text r'.text)
      (render table w c) (render table' w' c) := by
  have opened := ((same.line (.refl (header c))).line (.refl "\x7b")).indent
  apply (fields_relettered answers answers' c.hierarchy opened c.properties).bind
  intro declared declared' alike
  apply (functions_relettered answers answers' (Label.discover c) alike c.functions).bind
  rintro ⟨written, faults⟩ ⟨written', faults'⟩ ⟨done, cut⟩
  exact .ok ⟨rfl, rfl, cut, (done.dedent.line (.refl "\x7d")).text⟩

omit answers' in
theorem render_ok (w : Writer) (c : Class) : ∃ r, render table w c = .ok r :=
  (declares_of_answers answers c).render w

end

/-- A symbol table decides the letters of object types and nothing else. Under any two tables
that answer every look-up, or under none, a class is listed with the same name, functions and
faults, and with the same text but for letters `A` against `U`. -/
theorem symbols_decide_letters_only (table table' : Option SymbolTable)
    (answers : TypeName.Answers table) (answers' : TypeName.Answers table') (w : Writer)
    (c : Class) :
    ∃ r r' : Result, render table w c = .ok r ∧ render table' w c = .ok r' ∧
      r.className = r'.className ∧ r.functions = r'.functions ∧ r.faults = r'.faults ∧
      Text.Relettered r.text r'.text := by
  obtain ⟨r, listed⟩ := render_ok answers w c
  obtain ⟨r', listed', alike⟩ :=
    (render_relettered answers answers' (.refl w) c).exists_ok listed
  exact ⟨r, r', listed, listed', alike⟩

/-- A class with an object type in a field, in a signature and in a local of its own, and a
statement that cannot be listed. -/
def mounted : Class where
  name := "Door_C"
  properties := [{ name := "Hinge", kind := "ObjectProperty", objectClass := some "Part" }]
  functions := [
    ⟨"Mount", "Door_C", [
      { name := "On", kind := "ObjectProperty", objectClass := some "Part", flags := .parm },
      { name := "All", kind := "ArrayProperty",
        inner := some { name := "All", kind := "ObjectProperty", objectClass := some "Part" } }],
      [⟨0, .localVariable ⟨["All"], ""⟩⟩, ⟨8, .missing⟩]⟩]

def actors : SymbolTable := (TypeMap.empty.add "Part" "Actor" |>.add "Actor" "Object").toTable

/-- With the table every part of the class becomes an actor, without it none is. -/
theorem symbols_decide_letters_only_mounted :
    ∃ r r' : Result, render (some actors) {} mounted = .ok r ∧ render none {} mounted = .ok r' ∧
      r.faults = r'.faults ∧ Text.Relettered r.text r'.text ∧
      r.faults.map Fault.message = ["missing instruction"] ∧
      r.text.toList.count 'A' = r'.text.toList.count 'A' + 3 := by
  have answers : TypeName.Answers (some actors) := by
    intro t given name
    cases given
    exact ⟨_, rfl⟩
  obtain ⟨r, r', listed, listed', _, _, faults, text⟩ :=
    symbols_decide_letters_only (some actors) none answers nofun {} mounted
  have known : (render (some actors) {} mounted).toOption.map
      (fun r => (r.faults.map Fault.message, r.text.toList.count 'A')) =
      some (["missing instruction"], 5) := by decide +kernel
  have unknown : (render none {} mounted).toOption.map (fun r => r.text.toList.count 'A') =
      some 2 := by decide +kernel
  simp only [listed, listed', Except.toOption, Option.map_some, Option.some.injEq,
    Prod.mk.injEq] at known unknown
  refine ⟨r, r', listed, listed', faults, text, known.1, ?_⟩
  rw [known.2, unknown]

end Listing
end ScriptListing
