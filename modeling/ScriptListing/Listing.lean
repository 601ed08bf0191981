import ScriptListing.Failure
import ScriptListing.Listing.Statement
import ScriptListing.Log

/-! The listing of a class: a header, one line per field, and one block per function.
An obstacle cuts the function it stands in and no other; only a look-up that breaks
off on a field or a signature stops the listing itself. The whole text goes to a sink at
once, and a sink that refuses it leaves the result standing. -/
namespace ScriptListing.Listing

structure Body where
  writer : Writer
  stop : Option (UInt32 × Obstacle)

/-- A label on its own line, if a jump of the class targets the statement. -/
def labelLine (labels : LabelTable) (function : String) (offset : UInt32) (w : Writer) : Writer :=
  if labels.has function offset then w.blank.raw (Label.name function offset ++ ":") else w

/-- Statements in order up to the first that cannot be listed. -/
def body (s : Scope) (labels : LabelTable) : Writer → List Statement → Body
  | w, [] => ⟨w, none⟩
  | w, st :: rest =>
    let labelled := labelLine labels s.function.name st.offset w
    match s.statement labelled st.expr with
    | .ok next => body s labels next rest
    | .error obstacle => ⟨labelled, some (st.offset, obstacle)⟩

/-- A parameter as the signature shows it; an output parameter is a pointer. -/
def parameter (table : Option SymbolTable) (h : Hierarchy) (p : Property) :
    Except Breakdown String := do
  let type ← TypeName.resolve table h p
  return type ++ (if p.isOutParm then "*" else "") ++ " " ++ p.name

def returnType (table : Option SymbolTable) (h : Hierarchy) (f : Function) :
    Except Breakdown String :=
  match f.returnProperty? with
  | none => return "void"
  | some p => TypeName.resolve table h p

def signature (table : Option SymbolTable) (h : Hierarchy) (f : Function) :
    Except Breakdown String := do
  let result ← returnType table h f
  let parts ← f.parameters.mapM (parameter table h)
  return result ++ " " ++ f.name ++ "(" ++ ", ".intercalate parts ++ ")"

def fault (c : Class) (f : Function) (offset : UInt32) (obstacle : Obstacle) : Fault :=
  ⟨c.name, f.name, offset, obstacle.message, obstacle.cause?⟩

/-- The block of one function: signature, braces and body, and a note where the body
was cut. -/
def function (table : Option SymbolTable) (c : Class) (labels : LabelTable) (w : Writer)
    (f : Function) : Except Breakdown (Writer × Option Fault) := do
  let head ← signature table c.hierarchy f
  let opened := ((w.line head).line "\x7b").indent
  let done := body ⟨table, c, f⟩ labels opened f.script
  match done.stop with
  | none => return (done.writer.dedent.line "\x7d", none)
  | some (offset, obstacle) =>
    let note := done.writer.line ("// truncated: " ++ obstacle.message)
    return (note.dedent.line "\x7d", some (fault c f offset obstacle))

def functions (table : Option SymbolTable) (c : Class) (labels : LabelTable) :
    Writer → List Function → Except Breakdown (Writer × List Fault)
  | w, [] => return (w, [])
  | w, f :: rest => do
    let (next, stop) ← function table c labels w.blank f
    let (last, faults) ← functions table c labels next rest
    return (last, stop.toList ++ faults)

def padRight (width : Nat) (content : String) : String :=
  content ++ String.ofList (List.replicate (width - Text.places content) ' ')

def fieldLine (table : Option SymbolTable) (h : Hierarchy) (p : Property) :
    Except Breakdown String := do
  let type ← TypeName.resolve table h p
  return padRight 32 type ++ " " ++ p.name ++ ";"

def fields (table : Option SymbolTable) (h : Hierarchy) :
    Writer → List Property → Except Breakdown Writer
  | w, [] => return w
  | w, p :: rest => do
    let content ← fieldLine table h p
    fields table h (w.line content) rest

def header (c : Class) : String :=
  if c.superName = "" then "class " ++ c.name
  else "class " ++ c.name ++ " : public " ++ c.superName

structure Result where
  writer : Writer
  className : String
  functions : Nat
  faults : List Fault

def render (table : Option SymbolTable) (w : Writer) (c : Class) : Except Breakdown Result := do
  let opened := ((w.line (header c)).line "\x7b").indent
  let declared ← fields table c.hierarchy opened c.properties
  let (written, faults) ← functions table c (Label.discover c) declared c.functions
  return ⟨written.dedent.line "\x7d", c.name, c.functions.length, faults⟩

def truncated (f : Fault) : Log.Entry :=
  ⟨.warn, "function truncated", [
    ("class", .text f.className), ("function", .text f.function),
    ("offset", .text (Fault.offsetText f.offset)), ("error", .text f.message)]⟩

namespace Result

def text (r : Result) : String := r.writer.text

def log (r : Result) : List Log.Entry := r.faults.map truncated

end Result

/-- A place for text. One with a refusal takes nothing. -/
structure Sink where
  refusal : Option String := none

structure Written where
  result : Result
  /-- What the sink took. -/
  text : String
  failure : Option Failure

def Sink.take (sink : Sink) (r : Result) : Written :=
  match sink.refusal with
  | none => ⟨r, r.text, none⟩
  | some reason => ⟨r, "", some (Failure.within ("write " ++ r.className) (.of (.refused reason)))⟩

/-- A class into a sink. Without a class or a sink there is nothing to do. -/
def write (table : Option SymbolTable) (sink : Option Sink) (c : Option Class) :
    Except Breakdown (Attempt Written) :=
  match c, sink with
  | none, _ => .ok (fail .noClass)
  | some _, none => .ok (fail .noWriter)
  | some c, some sink => do return .ok (sink.take (← render table {} c))

end ScriptListing.Listing
