import ScriptListing.Proofs.Listing.Transcript

/-! Listing line by line into one writer that every step changes at once, so that what was
written stays when a later step fails. A statement reads all of its operands before its first
line; a failure therefore finds the writer as the statement found it, and the block of a
function comes out the same as when each statement is written whole. -/
namespace ScriptListing.Listing

abbrev Emission (ε : Type) := EStateM ε Writer

namespace Emission

def line {ε : Type} (content : String) : Emission ε Unit := modify (Writer.line · content)

/-- A text that has to be read first, and what is written with it. -/
def reading {ε : Type} (text : Except ε String) (write : String → Emission ε Unit) :
    Emission ε Unit :=
  MonadExcept.ofExcept text >>= write

theorem run_reading {ε : Type} (text : Except ε String) (write : String → Emission ε Unit)
    (w : Writer) :
    (reading text write).run w =
      match text with
      | .ok content => (write content).run w
      | .error failure => .error failure w := by
  cases text with
  | error failure => rfl
  | ok content => rfl

end Emission

open Emission

namespace Scope

def emitSingle (s : Scope) (e : Expr) (ending : String) : Emission Obstacle Unit :=
  reading (s.inline .statement e) fun content => line (content ++ ending)

def emitGuarded (s : Scope) (parent condition : Expr) (body : String) : Emission Obstacle Unit :=
  reading (s.inline (.under parent) condition) fun test => do
    line ("if (!" ++ test ++ ")")
    line "\x7b"
    modify Writer.indent
    line body
    modify Writer.dedent
    line "\x7d"

def emit (s : Scope) : Expr → Emission Obstacle Unit
  | .missing => throw .missingInstruction
  | .assignPersistent destination value =>
    s.emitSingle (.assignPersistent destination value) "; // LetValueOnPersistentFrame"
  | .ret value =>
    if isNothing value then line "return;"
    else reading (s.inline (.under (.ret value)) value) fun result =>
      line ("return " ++ result ++ ";")
  | .finalCall code function arguments =>
    match Label.dispatchTarget? function arguments with
    | some offset => line (goto function.name offset)
    | none => s.emitSingle (.finalCall code function arguments) ";"
  | .jump target => line (goto s.function.name target)
  | .jumpIfNot target condition =>
    s.emitGuarded (.jumpIfNot target condition) condition (goto s.function.name target)
  | .popFlowIfNot condition => s.emitGuarded (.popFlowIfNot condition) condition "return;"
  | .popFlow => line "return;"
  | .pushFlow _ => pure ()
  | .endOfScript => pure ()
  | .computedJump target =>
    reading (s.inline (.under (.computedJump target)) target) fun value =>
      line ("goto(" ++ value ++ ");")
  | .unknown code => line ("// " ++ code.name)
  | e => s.emitSingle e ";"

/-- What line by line writing ends in when a statement is written whole or not at all. -/
def ending (w : Writer) : Except Obstacle Writer → EStateM.Result Obstacle Writer Unit
  | .ok next => .ok () next
  | .error obstacle => .error obstacle w

theorem run_emitSingle (s : Scope) (w : Writer) (e : Expr) (tail : String) :
    (s.emitSingle e tail).run w = ending w (s.single w e tail) := by
  unfold emitSingle single
  rw [run_reading]
  cases s.inline .statement e with
  | error obstacle => rfl
  | ok content => rfl

theorem run_emitGuarded (s : Scope) (w : Writer) (parent condition : Expr) (body : String) :
    (s.emitGuarded parent condition body).run w = ending w (s.guarded w parent condition body) := by
  unfold emitGuarded guarded
  rw [run_reading]
  cases s.inline (.under parent) condition with
  | error obstacle => rfl
  | ok test => rfl

/-- Line by line or at once, a statement leaves the same writer; one that fails leaves the
writer it was given. -/
theorem run_emit (s : Scope) (w : Writer) (e : Expr) :
    (s.emit e).run w = ending w (s.statement w e) := by
  cases e
  case missing | jump | popFlow | pushFlow | endOfScript | unknown => rfl
  case ret value =>
    simp only [emit, statement]
    split
    · rfl
    · rw [run_reading]
      cases s.inline (.under (.ret value)) value with
      | error obstacle => rfl
      | ok result => rfl
  case finalCall code function arguments =>
    simp only [emit, statement]
    cases Label.dispatchTarget? function arguments with
    | some offset => rfl
    | none => exact run_emitSingle ..
  case jumpIfNot target condition => exact run_emitGuarded ..
  case popFlowIfNot condition => exact run_emitGuarded ..
  case computedJump target =>
    simp only [emit, statement]
    rw [run_reading]
    cases s.inline (.under (.computedJump target)) target with
    | error obstacle => rfl
    | ok value => rfl
  all_goals exact run_emitSingle ..

end Scope

/-- The statements of a script in turn, each after its label. A failure tells the offset of
the statement it happened in. -/
def emitScript (s : Scope) (labels : LabelTable) :
    List Statement → Emission (UInt32 × Obstacle) Unit
  | [] => pure ()
  | st :: rest => do
    modify (labelLine labels s.function.name st.offset)
    EStateM.adaptExcept (st.offset, ·) (s.emit st.expr)
    emitScript s labels rest

/-- A script leaves the writer that its body has. -/
theorem run_emitScript (s : Scope) (labels : LabelTable) (w : Writer)
    (script : List Statement) :
    (emitScript s labels script).run w =
      match (body s labels w script).stop with
      | none => .ok () (body s labels w script).writer
      | some cut => .error cut (body s labels w script).writer := by
  induction script generalizing w with
  | nil => rfl
  | cons st rest ih =>
    have step : (emitScript s labels (st :: rest)).run w =
        match (s.emit st.expr).run (labelLine labels s.function.name st.offset w) with
        | .ok _ next => (emitScript s labels rest).run next
        | .error obstacle left => .error (st.offset, obstacle) left := by
      simp only [emitScript, EStateM.run_bind, EStateM.run_modify, EStateM.run_adaptExcept]
      cases (s.emit st.expr).run (labelLine labels s.function.name st.offset w) with
      | ok value next => rfl
      | error obstacle left => rfl
    rw [step, Scope.run_emit]
    simp only [body]
    cases s.statement (labelLine labels s.function.name st.offset w) st.expr with
    | error obstacle => rfl
    | ok next => exact ih next

/-- Levels are left one by one down to that of the body, and then the body itself is left. -/
def leave (depth : Nat) (w : Writer) : Writer :=
  (Nat.repeat Writer.dedent (w.depth - depth) w).dedent.line "\x7d"

/-- At the depth of the body there is no other level to leave. -/
theorem leave_of_depth {depth : Nat} {w : Writer} (same : w.depth = depth) :
    leave depth w = w.dedent.line "\x7d" := by
  rw [leave, same, Nat.sub_self]
  rfl

/-- The block of a function, line by line. Wherever its script ends, the note about a failure
is written there, and the block is closed. -/
def emitFunction (s : Scope) (labels : LabelTable) (head : String) (w : Writer) :
    Writer × Option Fault :=
  let opened := ((w.line head).line "\x7b").indent
  match (emitScript s labels s.function.script).run opened with
  | .ok _ left => (leave opened.depth left, none)
  | .error (offset, obstacle) left =>
    (leave opened.depth (left.line ("// truncated: " ++ obstacle.message)),
      some (fault s.cls s.function offset obstacle))

theorem labelLine_depth (labels : LabelTable) (function : String) (offset : UInt32)
    (w : Writer) : (labelLine labels function offset w).depth = w.depth := by
  unfold labelLine
  split
  · rfl
  · rfl

/-- Statements leave the depth as it was, so a body ends where it began. -/
theorem body_depth (s : Scope) (labels : LabelTable) (w : Writer) (script : List Statement) :
    (body s labels w script).writer.depth = w.depth := by
  induction script generalizing w with
  | nil => rfl
  | cons st rest ih =>
    simp only [body, Scope.statement_eq_lines]
    cases s.lines st.expr with
    | error obstacle => exact labelLine_depth ..
    | ok lines =>
      simp only [Except.map]
      rw [ih, Writer.write_depth, labelLine_depth]

/-- A function is listed as its lines are written one by one. -/
theorem function_eq_emit (table : Option SymbolTable) (c : Class) (labels : LabelTable)
    (w : Writer) (f : Function) :
    function table c labels w f =
      (signature table c.hierarchy f).map fun head =>
        emitFunction ⟨table, c, f⟩ labels head w := by
  unfold function
  cases signature table c.hierarchy f with
  | error breakdown => rfl
  | ok head =>
    have depth := body_depth ⟨table, c, f⟩ labels ((w.line head).line "\x7b").indent f.script
    simp only [bind, Except.bind, Except.map, emitFunction, run_emitScript]
    cases (body ⟨table, c, f⟩ labels ((w.line head).line "\x7b").indent f.script).stop with
    | none =>
      simp only [leave_of_depth depth]
      rfl
    | some cut =>
      have noted (note : String) : ((body ⟨table, c, f⟩ labels ((w.line head).line "\x7b").indent
          f.script).writer.line note).depth = ((w.line head).line "\x7b").indent.depth := depth
      simp only [leave_of_depth (noted _)]
      rfl

end ScriptListing.Listing
