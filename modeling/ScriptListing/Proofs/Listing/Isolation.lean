import ScriptListing.Proofs.Listing.Names
import ScriptListing.Proofs.Listing.Transcript

/-! Functions are listed apart. What a function shows of the others is their parameters and
locals, never their instructions, so a change inside one script changes one block and at most
the fault of that block. -/
namespace ScriptListing

namespace Listing

namespace Scope

/-- Two scopes that find the same properties under every name and give them the same types. -/
structure Alike (s s' : Scope) : Prop where
  find : ∀ ref, s.find ref = s'.find ref
  typeOf : ∀ p, s.typeOf p = s'.typeOf p

theorem Alike.names {s s' : Scope} (alike : Alike s s') : SameNames s s' := by
  intro ref
  rw [alike.find]

/-- Alike scopes read every tree alike, obstacles included. -/
theorem inline_alike {s s' : Scope} (alike : Alike s s') (place : Place) (e : Expr) :
    s.inline place e = s'.inline place e := by
  by_cases undeclared : Undeclared place e
  · exact inline_names alike.names place e undeclared
  · obtain ⟨ref, rfl⟩ := local_of_declared undeclared
    simp only [inline, localName, alike.find, alike.typeOf]

/-- Statements are listed alike where they and the trees below them read alike. -/
theorem lines_congr {s s' : Scope} (name : s.function.name = s'.function.name) {e : Expr}
    (whole : s.inline .statement e = s'.inline .statement e)
    (below : ∀ x, s.inline (.under e) x = s'.inline (.under e) x) : s.lines e = s'.lines e := by
  cases e <;> simp only [lines, singleLine, guardedLines, whole, below, name]

theorem lines_alike {s s' : Scope} (alike : Alike s s')
    (name : s.function.name = s'.function.name) (e : Expr) : s.lines e = s'.lines e :=
  lines_congr name (inline_alike alike _ e) fun x => inline_alike alike _ x

end Scope

theorem entries_alike {s s' : Scope} (alike : s.Alike s')
    (name : s.function.name = s'.function.name) (labels : LabelTable)
    (script : List Statement) : entries s labels script = entries s' labels script := by
  induction script with
  | nil => rfl
  | cons st rest ih => simp only [entries, entry, Scope.lines_alike alike name, name, ih]

/-- Functions that agree in all that other functions can see of them. -/
def SameHead (f g : Function) : Prop := f.name = g.name ∧ f.properties = g.properties

/-- Functions that are related one by one are found by name alike. -/
theorem find_related {R : Function → Function → Prop} (name : ∀ f g, R f g → f.name = g.name)
    {fs gs : List Function} (related : List.Forall₂ R fs gs) (wanted : String) :
    Option.Rel R (fs.find? (·.name == wanted)) (gs.find? (·.name == wanted)) := by
  induction related with
  | nil => exact .none
  | @cons f g _ _ same _ ih =>
    rw [List.find?_cons, List.find?_cons, ← name f g same]
    split
    · exact .some same
    · exact ih

/-- Classes whose functions differ in their scripts at most are alike as scopes. -/
theorem alike_of_heads {table : Option SymbolTable} {c c' : Class} {f : Function}
    (hierarchy : c.hierarchy = c'.hierarchy)
    (heads : List.Forall₂ SameHead c.functions c'.functions) :
    Scope.Alike ⟨table, c, f⟩ ⟨table, c', f⟩ where
  find ref := by
    have found := find_related (fun _ _ same => same.1) heads ref.owner
    simp only [Scope.find, Scope.owner, Class.function?]
    revert found
    generalize c.functions.find? (·.name == ref.owner) = a
    generalize c'.functions.find? (·.name == ref.owner) = b
    intro found
    cases found with
    | none => rfl
    | some same =>
      by_cases own : ref.owner = "" ∨ ref.owner = f.name
      · simp [own]
      · simp [own, Function.property?, bind, Except.bind, same.1, same.2]
  typeOf p := by simp only [Scope.typeOf, hierarchy]

/-- The types of fields and signatures can be told: the symbol table does not break off on
them, whatever it does inside a body. -/
structure Declares (table : Option SymbolTable) (c : Class) : Prop where
  fields : ∀ p ∈ c.properties, ∃ type, TypeName.resolve table c.hierarchy p = .ok type
  returns : ∀ f ∈ c.functions, ∀ p, f.returnProperty? = some p →
    ∃ type, TypeName.resolve table c.hierarchy p = .ok type
  parameters : ∀ f ∈ c.functions, ∀ p ∈ f.parameters,
    ∃ type, TypeName.resolve table c.hierarchy p = .ok type

theorem fieldLine_ok {table : Option SymbolTable} {h : Hierarchy} {p : Property}
    (told : ∃ type, TypeName.resolve table h p = .ok type) :
    ∃ line, fieldLine table h p = .ok line := by
  obtain ⟨type, told⟩ := told
  exact ⟨_, Outcome.bind_eq_ok.mpr ⟨type, told, rfl⟩⟩

theorem parameter_ok {table : Option SymbolTable} {h : Hierarchy} {p : Property}
    (told : ∃ type, TypeName.resolve table h p = .ok type) :
    ∃ text, parameter table h p = .ok text := by
  obtain ⟨type, told⟩ := told
  exact ⟨_, Outcome.bind_eq_ok.mpr ⟨type, told, rfl⟩⟩

theorem Declares.signature {table : Option SymbolTable} {c : Class} (declared : Declares table c)
    {f : Function} (member : f ∈ c.functions) :
    ∃ head, Listing.signature table c.hierarchy f = .ok head := by
  have result : ∃ type, returnType table c.hierarchy f = .ok type := by
    unfold returnType
    split
    · exact ⟨"void", rfl⟩
    · next p found => exact declared.returns f member p found
  obtain ⟨type, result⟩ := result
  obtain ⟨parts, each⟩ := Outcome.mapM_ok_of_forall fun p inside =>
    parameter_ok (declared.parameters f member p inside)
  exact ⟨_, Outcome.bind_eq_ok.mpr ⟨type, result, Outcome.bind_eq_ok.mpr ⟨parts, each, rfl⟩⟩⟩

/-- Where the types can be told the whole class is listed. -/
theorem Declares.transcript {table : Option SymbolTable} {c : Class}
    (declared : Declares table c) : ∃ t, Listing.transcript table c = .ok t := by
  obtain ⟨fields, told⟩ := Outcome.mapM_ok_of_forall fun p member =>
    fieldLine_ok (declared.fields p member)
  have blocks : ∀ f ∈ c.functions, ∃ b, block table c (Label.discover c) f = .ok b := by
    intro f member
    obtain ⟨head, signed⟩ := declared.signature member
    exact ⟨_, Outcome.map_eq_ok.mpr ⟨head, signed, rfl⟩⟩
  obtain ⟨blocks, each⟩ := Outcome.mapM_ok_of_forall blocks
  exact ⟨_, Outcome.bind_eq_ok.mpr ⟨fields, told, Outcome.bind_eq_ok.mpr ⟨blocks, each, rfl⟩⟩⟩

theorem Declares.render {table : Option SymbolTable} {c : Class} (declared : Declares table c)
    (w : Writer) : ∃ r, Listing.render table w c = .ok r := by
  obtain ⟨t, told⟩ := declared.transcript
  exact ⟨_, by rw [render_eq_transcript, told]; rfl⟩

end Listing

def Class.withScript (c : Class) (k : Nat) (script : List Statement) : Class :=
  { c with functions := c.functions.modify k fun f => { f with script } }

namespace Listing

theorem sameHead_refl (fs : List Function) : List.Forall₂ SameHead fs fs :=
  List.forall₂_same.mpr fun _ _ => ⟨rfl, rfl⟩

theorem withScript_functions {c : Class} {k : Nat} {f : Function} (script : List Statement)
    (at' : c.functions[k]? = some f) :
    c.functions = c.functions.take k ++ f :: c.functions.drop (k + 1) ∧
      (c.withScript k script).functions =
        c.functions.take k ++ { f with script } :: c.functions.drop (k + 1) := by
  obtain ⟨inRange, rfl⟩ := List.getElem?_eq_some_iff.mp at'
  refine ⟨by rw [List.getElem_cons_drop, List.take_append_drop], ?_⟩
  rw [Class.withScript, List.modify_eq_take_cons_drop inRange]

theorem withScript_heads {c : Class} {k : Nat} {f : Function} (script : List Statement)
    (at' : c.functions[k]? = some f) :
    List.Forall₂ SameHead c.functions (c.withScript k script).functions := by
  obtain ⟨before, after⟩ := withScript_functions script at'
  rw [before, after]
  exact List.rel_append (sameHead_refl _) (.cons ⟨rfl, rfl⟩ (sameHead_refl _))

namespace Transcript

/-- The text of a listing up to the block of function number `k`. -/
def before (depth k : Nat) (t : Transcript) : String :=
  Writer.lineText depth t.header ++ Writer.lineText depth "\x7b" ++
    String.join (t.fields.map (Writer.lineText (depth + 1))) ++
    String.join ((t.blocks.take k).map (Block.text (depth + 1)))

def after (depth k : Nat) (t : Transcript) : String :=
  String.join ((t.blocks.drop (k + 1)).map (Block.text (depth + 1))) ++
    Writer.lineText depth "\x7d"

def faultsBefore (c : Class) (k : Nat) (t : Transcript) : List Fault :=
  (t.blocks.take k).filterMap (Block.fault? c)

def faultsAfter (c : Class) (k : Nat) (t : Transcript) : List Fault :=
  (t.blocks.drop (k + 1)).filterMap (Block.fault? c)

def withBlock (t : Transcript) (k : Nat) (b : Block) : Transcript :=
  { t with blocks := t.blocks.take k ++ b :: t.blocks.drop (k + 1) }

theorem withBlock_self {t : Transcript} {k : Nat} {b : Block} (at' : t.blocks[k]? = some b) :
    t.withBlock k b = t := by
  obtain ⟨inRange, rfl⟩ := List.getElem?_eq_some_iff.mp at'
  rw [withBlock, List.getElem_cons_drop, List.take_append_drop]

theorem withBlock_text (t : Transcript) (depth k : Nat) (b : Block) :
    (t.withBlock k b).text depth = t.before depth k ++ b.text (depth + 1) ++ t.after depth k := by
  simp [withBlock, text, before, after, String.append_assoc]

theorem withBlock_faults (t : Transcript) (c : Class) (k : Nat) (b : Block) :
    (t.withBlock k b).faults c =
      t.faultsBefore c k ++ (b.fault? c).toList ++ t.faultsAfter c k := by
  cases stop : b.fault? c <;> simp [withBlock, faults, faultsBefore, faultsAfter, stop]

end Transcript

/-- Another script in one function changes the block of that function and nothing else. -/
theorem transcript_withScript {table : Option SymbolTable} {c : Class} {k : Nat} {f : Function}
    {script : List Statement} {t : Transcript} (at' : c.functions[k]? = some f)
    (tables : Label.discover (c.withScript k script) = Label.discover c)
    (told : transcript table c = .ok t) :
    ∃ b' : Block, b'.function = { f with script } ∧
      transcript table (c.withScript k script) = .ok (t.withBlock k b') := by
  obtain ⟨fields, declared, rest⟩ := Outcome.bind_eq_ok.mp told
  obtain ⟨blocks, each, equal⟩ := Outcome.bind_eq_ok.mp rest
  obtain rfl := Outcome.pure_eq_ok.mp equal
  have each := Outcome.mapM_eq_ok.mp each
  obtain ⟨b, _, one⟩ := Outcome.forall₂_getElem each at'
  obtain ⟨head, signed, _⟩ := Outcome.map_eq_ok.mp one
  have same (g : Function) : block table (c.withScript k script) (Label.discover c) g =
      block table c (Label.discover c) g := by
    have alike : Scope.Alike ⟨table, c, g⟩ ⟨table, c.withScript k script, g⟩ :=
      alike_of_heads rfl (withScript_heads script at')
    simp only [block, entries_alike alike rfl]
    rfl
  refine ⟨⟨{ f with script }, head,
    entries ⟨table, c, { f with script }⟩ (Label.discover c) script⟩, rfl, ?_⟩
  refine Outcome.bind_eq_ok.mpr ⟨fields, declared, Outcome.bind_eq_ok.mpr ⟨_, ?_, rfl⟩⟩
  rw [tables, (withScript_functions script at').2, Outcome.mapM_eq_ok]
  simp only [same]
  refine List.rel_append (List.forall₂_take k each) (.cons ?_ (List.forall₂_drop (k + 1) each))
  exact Outcome.map_eq_ok.mpr ⟨head, signed, rfl⟩

/-- Faults stay inside their function. Two classes that differ in one script and jump to the
same places are listed with the same text around the block of that function and with the
same faults in all others, whatever stands in the two scripts. -/
theorem faults_stay_in_their_function (table : Option SymbolTable) (w : Writer) (c : Class)
    (k : Nat) (f : Function) (script : List Statement) (at' : c.functions[k]? = some f)
    (tables : Label.discover (c.withScript k script) = Label.discover c)
    (declared : Declares table c) :
    ∃ (r r' : Result) (t : Transcript) (b b' : Block),
      render table w c = .ok r ∧ render table w (c.withScript k script) = .ok r' ∧
      transcript table c = .ok t ∧ t.blocks[k]? = some b ∧ b.function = f ∧
      transcript table (c.withScript k script) = .ok (t.withBlock k b') ∧
      b'.function = { f with script } ∧
      r.text = w.text ++ (t.before w.depth k ++ b.text (w.depth + 1) ++ t.after w.depth k) ∧
      r'.text = w.text ++ (t.before w.depth k ++ b'.text (w.depth + 1) ++ t.after w.depth k) ∧
      r.faults = t.faultsBefore c k ++ (b.fault? c).toList ++ t.faultsAfter c k ∧
      r'.faults = t.faultsBefore c k ++ (b'.fault? c).toList ++ t.faultsAfter c k := by
  obtain ⟨t, told⟩ := declared.transcript
  obtain ⟨b, found, one⟩ := Outcome.forall₂_getElem (blocks_of_transcript told) at'
  obtain ⟨head, _, shown⟩ := Outcome.map_eq_ok.mp one
  obtain ⟨b', other, told'⟩ := transcript_withScript at' tables told
  have rendered := render_eq_transcript table w c
  have rendered' := render_eq_transcript table w (c.withScript k script)
  rw [told] at rendered
  rw [told'] at rendered'
  refine ⟨_, _, t, b, b', rendered, rendered', told, found, ?_, told', other, ?_, ?_, ?_, ?_⟩
  · rw [← shown]
  · rw [← Transcript.withBlock_text, Transcript.withBlock_self found]
    rfl
  · rw [← Transcript.withBlock_text]
    rfl
  · rw [← Transcript.withBlock_faults, Transcript.withBlock_self found]
  · rw [← Transcript.withBlock_faults]
    rfl

def breaking : SymbolTable := ⟨fun name => .error (.text ("no " ++ name))⟩

def declaring : Class where
  name := "Door_C"
  functions := [
    ⟨"Open", "Door_C", [{ name := "Hinge", kind := "ObjectProperty", objectClass := some "Part" }],
      [⟨0, .localVariable ⟨["Hinge"], ""⟩⟩]⟩,
    ⟨"Close", "Door_C", [], [⟨0, .ret .nothing⟩]⟩]

theorem declaring_declares : Declares (some breaking) declaring where
  fields := by simp [declaring]
  returns := by
    simp [declaring, Function.returnProperty?, Property.isReturnParm, Flags.has, Flags.none,
      Flags.returnParm]
  parameters := by
    simp [declaring, Function.parameters, Property.isParm, Flags.has, Flags.none, Flags.parm]

/-- A look-up that breaks off and a missing instruction leave the rest of the class alike. -/
theorem faults_stay_in_their_function_declaring :
    ∃ (r r' : Result) (before block block' after : String),
      render (some breaking) {} declaring = .ok r ∧
      render (some breaking) {} (declaring.withScript 0 [⟨8, .missing⟩]) = .ok r' ∧
      r.text = before ++ block ++ after ∧ r'.text = before ++ block' ++ after ∧
      r.faults.map Fault.message = ["no Part"] ∧
      r'.faults.map Fault.message = ["missing instruction"] := by
  obtain ⟨r, r', t, b, b', rendered, rendered', _, _, _, _, _, text, text', _, _⟩ :=
    faults_stay_in_their_function (some breaking) {} declaring 0 _ [⟨8, .missing⟩] rfl rfl
      declaring_declares
  have whole : render (some breaking) {} declaring = .ok _ := rfl
  have whole' : render (some breaking) {} (declaring.withScript 0 [⟨8, .missing⟩]) = .ok _ := rfl
  obtain rfl := Except.ok.inj (rendered.symm.trans whole)
  obtain rfl := Except.ok.inj (rendered'.symm.trans whole')
  refine ⟨_, _, t.before 0 0, b.text 1, b'.text 1, t.after 0 0, rendered, rendered', ?_, ?_, ?_, ?_⟩
  · simpa using text
  · simpa using text'
  · rfl
  · rfl

end Listing
end ScriptListing
