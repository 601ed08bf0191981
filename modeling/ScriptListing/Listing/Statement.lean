import ScriptListing.Listing.Expression

/-! Indented text. A writer holds what was written and the depth at which the next
full line starts. -/
namespace ScriptListing

structure Writer where
  depth : Nat := 0
  text : String := ""
  deriving DecidableEq, Repr, Inhabited

namespace Writer

def unit : String := "    "

def indent (w : Writer) : Writer := { w with depth := w.depth + 1 }

def dedent (w : Writer) : Writer := { w with depth := w.depth - 1 }

/-- A fragment with no white space of its own. -/
def write (w : Writer) (fragment : String) : Writer := { w with text := w.text ++ fragment }

def margin (depth : Nat) : String := String.join (List.replicate depth unit)

def startLine (w : Writer) : Writer := w.write (margin w.depth)

def line (w : Writer) (content : String) : Writer := (w.startLine.write content).write "\n"

/-- A complete line at the left edge. -/
def raw (w : Writer) (content : String) : Writer := (w.write content).write "\n"

def blank (w : Writer) : Writer := w.write "\n"

end Writer
end ScriptListing

/-! Top-level instructions as complete lines. A statement writes all of its lines or,
when an obstacle stops it, none. -/
namespace ScriptListing.Listing

def isNothing : Expr → Bool
  | .missing => true
  | .nothing => true
  | _ => false

namespace Scope

/-- A negated condition and a block of one line. -/
def guarded (s : Scope) (w : Writer) (parent condition : Expr) (body : String) :
    Except Obstacle Writer := do
  let test ← s.inline (.under parent) condition
  return (((w.line ("if (!" ++ test ++ ")")).line "\x7b").indent.line body).dedent.line "\x7d"

def single (s : Scope) (w : Writer) (e : Expr) (ending : String) : Except Obstacle Writer := do
  let content ← s.inline .statement e
  return w.line (content ++ ending)

def goto (function : String) (offset : UInt32) : String :=
  "goto " ++ Label.name function offset ++ ";"

def statement (s : Scope) (w : Writer) : Expr → Except Obstacle Writer
  | .missing => throw .missingInstruction
  | .assignPersistent destination value =>
    s.single w (.assignPersistent destination value) "; // LetValueOnPersistentFrame"
  | .ret value =>
    if isNothing value then return w.line "return;"
    else do
      let result ← s.inline (.under (.ret value)) value
      return w.line ("return " ++ result ++ ";")
  | .finalCall code function arguments =>
    match Label.dispatchTarget? function arguments with
    | some offset => return w.line (goto function.name offset)
    | none => s.single w (.finalCall code function arguments) ";"
  | .jump target => return w.line (goto s.function.name target)
  | .jumpIfNot target condition =>
    s.guarded w (.jumpIfNot target condition) condition (goto s.function.name target)
  | .popFlowIfNot condition => s.guarded w (.popFlowIfNot condition) condition "return;"
  | .popFlow => return w.line "return;"
  | .pushFlow _ => return w
  | .endOfScript => return w
  | .computedJump target => do
    let value ← s.inline (.under (.computedJump target)) target
    return w.line ("goto(" ++ value ++ ");")
  | .unknown code => return w.line ("// " ++ code.name)
  | e => s.single w e ";"

end Scope
end ScriptListing.Listing
