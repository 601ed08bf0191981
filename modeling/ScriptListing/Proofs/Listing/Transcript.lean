import ScriptListing.Listing
import ScriptListing.Proofs.Outcome

/-! The listing of a class as a transcript: each block with its entries, one entry per
statement, each line with what it says. `render_eq_transcript` spells the transcript out as
exactly the text and the faults of a listing, whatever the writer held before. -/
namespace ScriptListing

namespace Writer

@[simp] theorem write_write (w : Writer) (a b : String) :
    (w.write a).write b = w.write (a ++ b) := by
  simp [write, String.append_assoc]

@[simp] theorem write_depth (w : Writer) (a : String) : (w.write a).depth = w.depth := rfl

@[simp] theorem write_text (w : Writer) (a : String) : (w.write a).text = w.text ++ a := rfl

@[simp] theorem write_empty (w : Writer) : w.write "" = w := by
  simp [write]

def lineText (depth : Nat) (content : String) : String := margin depth ++ content ++ "\n"

theorem line_eq_write (w : Writer) (content : String) :
    w.line content = w.write (lineText w.depth content) := by
  simp [line, startLine, lineText, String.append_assoc]

theorem raw_eq_write (w : Writer) (content : String) :
    w.raw content = w.write (content ++ "\n") := by
  simp [raw]

theorem blank_eq_write (w : Writer) : w.blank = w.write "\n" := rfl

@[simp] theorem indent_depth (w : Writer) : w.indent.depth = w.depth + 1 := rfl

/-- What is written one level deeper stays when the level is left again. -/
theorem dedent_write_indent (w : Writer) (a : String) :
    (w.indent.write a).dedent = w.write a := by
  simp [indent, write, dedent]

end Writer

namespace Listing

inductive Phrase where
  | words (content : String)
  | goto (function : String) (offset : UInt32)

def Phrase.text : Phrase → String
  | words content => content
  | goto function offset => "goto " ++ Label.name function offset ++ ";"

/-- A line of a statement, and how much deeper than the statement it stands. -/
structure Line where
  inset : Nat := 0
  phrase : Phrase

def Line.text (depth : Nat) (l : Line) : String :=
  Writer.lineText (depth + l.inset) l.phrase.text

def linesText (depth : Nat) (lines : List Line) : String :=
  String.join (lines.map (Line.text depth))

@[simp] theorem linesText_nil (depth : Nat) : linesText depth [] = "" := by simp [linesText]

@[simp] theorem linesText_cons (depth : Nat) (l : Line) (rest : List Line) :
    linesText depth (l :: rest) = l.text depth ++ linesText depth rest := by simp [linesText]

namespace Scope

def singleLine (s : Scope) (e : Expr) (ending : String) : Except Obstacle (List Line) :=
  (s.inline .statement e).map fun content => [{ phrase := .words (content ++ ending) }]

def guardedLines (s : Scope) (parent condition : Expr) (body : Phrase) :
    Except Obstacle (List Line) :=
  (s.inline (.under parent) condition).map fun test => [
    { phrase := .words ("if (!" ++ test ++ ")") }, { phrase := .words "\x7b" },
    { inset := 1, phrase := body }, { phrase := .words "\x7d" }]

/-- The lines of one top-level instruction, with its jumps told apart. -/
def lines (s : Scope) : Expr → Except Obstacle (List Line)
  | .missing => .error .missingInstruction
  | .assignPersistent destination value =>
    s.singleLine (.assignPersistent destination value) "; // LetValueOnPersistentFrame"
  | .ret value =>
    if isNothing value then .ok [{ phrase := .words "return;" }]
    else (s.inline (.under (.ret value)) value).map fun result =>
      [{ phrase := .words ("return " ++ result ++ ";") }]
  | .finalCall code function arguments =>
    match Label.dispatchTarget? function arguments with
    | some offset => .ok [{ phrase := .goto function.name offset }]
    | none => s.singleLine (.finalCall code function arguments) ";"
  | .jump target => .ok [{ phrase := .goto s.function.name target }]
  | .jumpIfNot target condition =>
    s.guardedLines (.jumpIfNot target condition) condition (.goto s.function.name target)
  | .popFlowIfNot condition =>
    s.guardedLines (.popFlowIfNot condition) condition (.words "return;")
  | .popFlow => .ok [{ phrase := .words "return;" }]
  | .pushFlow _ => .ok []
  | .endOfScript => .ok []
  | .computedJump target =>
    (s.inline (.under (.computedJump target)) target).map fun value =>
      [{ phrase := .words ("goto(" ++ value ++ ");") }]
  | .unknown code => .ok [{ phrase := .words ("// " ++ code.name) }]
  | e => s.singleLine e ";"

theorem single_eq_write (s : Scope) (w : Writer) (e : Expr) (ending : String) :
    s.single w e ending =
      (s.singleLine e ending).map fun lines => w.write (linesText w.depth lines) := by
  unfold single singleLine
  cases s.inline .statement e with
  | error obstacle => rfl
  | ok content =>
    simp [bind, Except.bind, pure, Except.pure, Except.map, Writer.line_eq_write, Line.text,
      Phrase.text]

theorem guarded_eq_write (s : Scope) (w : Writer) (parent condition : Expr) (body : Phrase) :
    s.guarded w parent condition body.text =
      (s.guardedLines parent condition body).map fun lines =>
        w.write (linesText w.depth lines) := by
  unfold guarded guardedLines
  cases s.inline (.under parent) condition with
  | error obstacle => rfl
  | ok test =>
    simp only [bind, Except.bind, pure, Except.pure, Except.map, Except.ok.injEq]
    simp [Writer.line, Writer.startLine, Writer.indent, Writer.dedent, Writer.write, Line.text,
      Phrase.text, Writer.lineText, String.append_assoc]

theorem line_eq_words (w : Writer) (content : String) :
    w.line content = w.write (linesText w.depth [{ phrase := .words content }]) := by
  simp [Writer.line_eq_write, Line.text, Phrase.text]

theorem line_eq_goto (w : Writer) (function : String) (offset : UInt32) :
    w.line (goto function offset) =
      w.write (linesText w.depth [{ phrase := .goto function offset }]) := by
  simp [Writer.line_eq_write, Line.text, Phrase.text, goto]

/-- A statement writes its lines at the depth of the writer, or nothing. -/
theorem statement_eq_lines (s : Scope) (w : Writer) (e : Expr) :
    s.statement w e = (s.lines e).map fun lines => w.write (linesText w.depth lines) := by
  cases e
  case missing => rfl
  case ret value =>
    simp only [statement, lines]
    split
    · exact congrArg Except.ok (line_eq_words ..)
    · cases s.inline (.under (.ret value)) value with
      | error obstacle => rfl
      | ok result => exact congrArg Except.ok (line_eq_words ..)
  case finalCall code function arguments =>
    simp only [statement, lines]
    cases Label.dispatchTarget? function arguments with
    | some offset => exact congrArg Except.ok (line_eq_goto ..)
    | none => exact single_eq_write ..
  case jump target => exact congrArg Except.ok (line_eq_goto ..)
  case jumpIfNot target condition =>
    exact guarded_eq_write s w _ condition (.goto s.function.name target)
  case popFlowIfNot condition => exact guarded_eq_write s w _ condition (.words "return;")
  case popFlow => exact congrArg Except.ok (line_eq_words ..)
  case pushFlow | endOfScript => simp [statement, lines, pure, Except.pure, Except.map]
  case computedJump target =>
    simp only [statement, lines]
    cases s.inline (.under (.computedJump target)) target with
    | error obstacle => rfl
    | ok value => exact congrArg Except.ok (line_eq_words ..)
  case unknown code => exact congrArg Except.ok (line_eq_words ..)
  -- All others are one line of inline text.
  all_goals exact single_eq_write ..

end Scope

/-- What one statement leaves: a label line if it has one, and its lines or what stopped
it. -/
structure Entry where
  statement : Statement
  labelled : Bool
  outcome : Except Obstacle (List Line)

namespace Entry

def labelText (function : String) (e : Entry) : String :=
  if e.labelled then "\n" ++ (Label.name function e.statement.offset ++ ":") ++ "\n" else ""

def outputText (depth : Nat) (e : Entry) : String :=
  match e.outcome with
  | .ok lines => linesText depth lines
  | .error obstacle => Writer.lineText depth ("// truncated: " ++ obstacle.message)

def text (function : String) (depth : Nat) (e : Entry) : String :=
  e.labelText function ++ e.outputText depth

def stop? (e : Entry) : Option (UInt32 × Obstacle) :=
  match e.outcome with
  | .ok _ => none
  | .error obstacle => some (e.statement.offset, obstacle)

def gotos (e : Entry) : List (String × UInt32) :=
  match e.outcome with
  | .ok lines => lines.filterMap fun l =>
    match l.phrase with
    | .goto function offset => some (function, offset)
    | .words _ => none
  | .error _ => []

end Entry

def entry (s : Scope) (labels : LabelTable) (st : Statement) : Entry :=
  ⟨st, labels.has s.function.name st.offset, s.lines st.expr⟩

/-- The entries of a script up to the first statement that cannot be listed. -/
def entries (s : Scope) (labels : LabelTable) : List Statement → List Entry
  | [] => []
  | st :: rest =>
    match s.lines st.expr with
    | .ok _ => entry s labels st :: entries s labels rest
    | .error _ => [entry s labels st]

def entriesText (function : String) (depth : Nat) (es : List Entry) : String :=
  String.join (es.map (Entry.text function depth))

theorem labelLine_eq_write (s : Scope) (labels : LabelTable) (st : Statement) (w : Writer) :
    labelLine labels s.function.name st.offset w =
      w.write ((entry s labels st).labelText s.function.name) := by
  unfold labelLine Entry.labelText entry
  split
  · simp [Writer.blank_eq_write, Writer.raw_eq_write, String.append_assoc, *]
  · simp [*]

def Body.closed (b : Body) : Writer :=
  match b.stop with
  | none => b.writer
  | some (_, obstacle) => b.writer.line ("// truncated: " ++ obstacle.message)

/-- A body is the entries of its script, one after the other. -/
theorem body_eq_entries (s : Scope) (labels : LabelTable) (w : Writer)
    (script : List Statement) :
    (body s labels w script).closed =
      w.write (entriesText s.function.name w.depth (entries s labels script)) ∧
    (body s labels w script).stop = (entries s labels script).findSome? Entry.stop? := by
  induction script generalizing w with
  | nil => simp [body, entries, entriesText, Body.closed]
  | cons st rest ih =>
    simp only [body, entries, labelLine_eq_write, Scope.statement_eq_lines]
    cases listed : s.lines st.expr with
    | ok lines =>
      obtain ⟨text, stop⟩ := ih ((w.write ((entry s labels st).labelText s.function.name)).write
        (linesText w.depth lines))
      simp only [Except.map, Writer.write_depth] at text stop ⊢
      rw [text, stop]
      constructor
      · simp [entriesText, Entry.text, Entry.outputText, entry, listed, String.append_assoc]
      · simp [List.findSome?_cons, entry, Entry.stop?, listed]
    | error obstacle =>
      constructor
      · simp [Except.map, Body.closed, entriesText, Entry.text, Entry.outputText, entry, listed,
          Writer.line_eq_write]
      · simp [Except.map, Entry.stop?, entry, listed]

structure Block where
  function : Function
  signature : String
  entries : List Entry

namespace Block

/-- The text of a block that stands at a depth, with the empty line before it. -/
def text (depth : Nat) (b : Block) : String :=
  "\n" ++ Writer.lineText depth b.signature ++ Writer.lineText depth "\x7b" ++
    entriesText b.function.name (depth + 1) b.entries ++ Writer.lineText depth "\x7d"

def frame (depth : Nat) (b : Block) : String :=
  Writer.lineText depth b.signature ++ Writer.lineText depth "\x7b" ++
    entriesText b.function.name (depth + 1) b.entries ++ Writer.lineText depth "\x7d"

theorem text_eq_frame (depth : Nat) (b : Block) : b.text depth = "\n" ++ b.frame depth := by
  simp [text, frame, String.append_assoc]

def fault? (c : Class) (b : Block) : Option Fault :=
  (b.entries.findSome? Entry.stop?).map fun (offset, obstacle) =>
    fault c b.function offset obstacle

def labels (b : Block) : List String :=
  (b.entries.filter Entry.labelled).map fun e => Label.name b.function.name e.statement.offset

end Block

def block (table : Option SymbolTable) (c : Class) (labels : LabelTable) (f : Function) :
    Except Breakdown Block :=
  (signature table c.hierarchy f).map fun head => ⟨f, head, entries ⟨table, c, f⟩ labels f.script⟩

structure Transcript where
  header : String
  fields : List String
  blocks : List Block

namespace Transcript

def text (depth : Nat) (t : Transcript) : String :=
  Writer.lineText depth t.header ++ Writer.lineText depth "\x7b" ++
    String.join (t.fields.map (Writer.lineText (depth + 1))) ++
    String.join (t.blocks.map (Block.text (depth + 1))) ++ Writer.lineText depth "\x7d"

def faults (c : Class) (t : Transcript) : List Fault := t.blocks.filterMap (Block.fault? c)

def labels (t : Transcript) : List String := t.blocks.flatMap Block.labels

def gotos (t : Transcript) : List (String × UInt32) :=
  t.blocks.flatMap fun b => b.entries.flatMap Entry.gotos

end Transcript

/-- The transcript of a class, unless a field or a signature cannot be told. -/
def transcript (table : Option SymbolTable) (c : Class) : Except Breakdown Transcript := do
  let fields ← c.properties.mapM (fieldLine table c.hierarchy)
  let blocks ← c.functions.mapM (block table c (Label.discover c))
  return ⟨header c, fields, blocks⟩

/-- A function writes its block at the depth of the writer, and the writer stays there. -/
theorem function_eq_frame (table : Option SymbolTable) (c : Class) (labels : LabelTable)
    (w : Writer) (f : Function) :
    function table c labels w f =
      (block table c labels f).map fun b => (w.write (b.frame w.depth), b.fault? c) := by
  unfold function block
  cases signature table c.hierarchy f with
  | error breakdown => rfl
  | ok head =>
    obtain ⟨closed, stop⟩ := body_eq_entries ⟨table, c, f⟩ labels
      ((w.line head).line "\x7b").indent f.script
    -- Both endings of the block close the body at the depth it was opened at.
    have ending : (body ⟨table, c, f⟩ labels ((w.line head).line "\x7b").indent
        f.script).closed.dedent.line "\x7d" =
        w.write (Block.frame w.depth ⟨f, head, entries ⟨table, c, f⟩ labels f.script⟩) := by
      rw [closed, Writer.dedent_write_indent]
      simp [Writer.line_eq_write, Block.frame, String.append_assoc]
    have fault : Block.fault? c ⟨f, head, entries ⟨table, c, f⟩ labels f.script⟩ =
        (body ⟨table, c, f⟩ labels ((w.line head).line "\x7b").indent f.script).stop.map
          fun (offset, obstacle) => Listing.fault c f offset obstacle := by
      rw [stop, Block.fault?]
    simp only [bind, Except.bind, pure, Except.pure, Except.map, ← ending, fault]
    cases cut : (body ⟨table, c, f⟩ labels ((w.line head).line "\x7b").indent f.script).stop with
    | none => simp [Body.closed, cut]
    | some at' => simp [Body.closed, cut]

theorem function_eq_block (table : Option SymbolTable) (c : Class) (labels : LabelTable)
    (w : Writer) (f : Function) :
    function table c labels w.blank f =
      (block table c labels f).map fun b => (w.write (b.text w.depth), b.fault? c) := by
  rw [function_eq_frame]
  cases block table c labels f with
  | error breakdown => rfl
  | ok b => simp [Except.map, Writer.blank_eq_write, Block.text_eq_frame]

theorem functions_eq_blocks (table : Option SymbolTable) (c : Class) (labels : LabelTable)
    (w : Writer) (fs : List Function) :
    functions table c labels w fs =
      (fs.mapM (block table c labels)).map fun blocks =>
        (w.write (String.join (blocks.map (Block.text w.depth))),
          blocks.filterMap (Block.fault? c)) := by
  induction fs generalizing w with
  | nil => simp [functions, pure, Except.pure, Except.map]
  | cons f rest ih =>
    rw [functions, function_eq_block, List.mapM_cons]
    cases block table c labels f with
    | error breakdown => rfl
    | ok b =>
      simp only [Except.map, bind, Except.bind, ih]
      cases rest.mapM (block table c labels) with
      | error breakdown => rfl
      | ok blocks =>
        cases stop : b.fault? c <;> simp [pure, Except.pure, stop]

theorem fields_eq_lines (table : Option SymbolTable) (h : Hierarchy) (w : Writer)
    (properties : List Property) :
    fields table h w properties =
      (properties.mapM (fieldLine table h)).map fun lines =>
        w.write (String.join (lines.map (Writer.lineText w.depth))) := by
  induction properties generalizing w with
  | nil => simp [fields, pure, Except.pure, Except.map]
  | cons p rest ih =>
    rw [fields, List.mapM_cons]
    cases fieldLine table h p with
    | error breakdown => rfl
    | ok content =>
      simp only [bind, Except.bind, ih]
      cases rest.mapM (fieldLine table h) with
      | error breakdown => rfl
      | ok lines => simp [pure, Except.pure, Except.map, Writer.line_eq_write]

/-- A listing is its transcript, written after what the writer held. -/
theorem render_eq_transcript (table : Option SymbolTable) (w : Writer) (c : Class) :
    render table w c = (transcript table c).map fun t =>
      ⟨w.write (t.text w.depth), c.name, c.functions.length, t.faults c⟩ := by
  unfold render transcript
  simp only [fields_eq_lines]
  cases c.properties.mapM (fieldLine table c.hierarchy) with
  | error breakdown => rfl
  | ok lines =>
    simp only [Except.map, bind, Except.bind, functions_eq_blocks]
    cases c.functions.mapM (block table c (Label.discover c)) with
    | error breakdown => rfl
    | ok blocks =>
      simp [pure, Except.pure, Writer.line_eq_write, Writer.dedent_write_indent,
        Transcript.text, Transcript.faults, String.append_assoc]

theorem transcript_of_render {table : Option SymbolTable} {w : Writer} {c : Class} {r : Result}
    (rendered : render table w c = .ok r) :
    ∃ t, transcript table c = .ok t ∧ r.text = w.text ++ t.text w.depth ∧
      r.faults = t.faults c := by
  rw [render_eq_transcript] at rendered
  obtain ⟨t, told, rfl⟩ := Outcome.map_eq_ok.mp rendered
  exact ⟨t, told, rfl, rfl⟩

theorem blocks_of_transcript {table : Option SymbolTable} {c : Class} {t : Transcript}
    (told : transcript table c = .ok t) :
    List.Forall₂ (fun f b => block table c (Label.discover c) f = .ok b) c.functions t.blocks := by
  obtain ⟨fields, _, rest⟩ := Outcome.bind_eq_ok.mp told
  obtain ⟨blocks, each, equal⟩ := Outcome.bind_eq_ok.mp rest
  obtain rfl := Outcome.pure_eq_ok.mp equal
  exact Outcome.mapM_eq_ok.mp each

end Listing
end ScriptListing
