import ScriptListing.Class
import ScriptListing.Text.Characters

/-! Labels: the offsets inside functions that some jump of the class targets. A
dispatch call jumps into the event graph function it names, so labels are collected
over the whole class. -/
namespace ScriptListing

/-- Labelled offsets by function, as a strictly ascending list of pairs. -/
structure LabelTable where
  entries : List (String × UInt32)
  deriving DecidableEq, Repr, Inhabited

namespace LabelTable

def empty : LabelTable := ⟨[]⟩

def before (a b : String × UInt32) : Bool :=
  a.1 < b.1 || (a.1 == b.1 && a.2 < b.2)

def insert (entry : String × UInt32) : List (String × UInt32) → List (String × UInt32)
  | [] => [entry]
  | head :: rest =>
    if entry = head then head :: rest
    else if before entry head then entry :: head :: rest
    else head :: insert entry rest

def add (t : LabelTable) (function : String) (offset : UInt32) : LabelTable :=
  ⟨insert (function, offset) t.entries⟩

def has (t : LabelTable) (function : String) (offset : UInt32) : Bool :=
  t.entries.contains (function, offset)

def offsets (t : LabelTable) (function : String) : List UInt32 :=
  (t.entries.filter (·.1 == function)).map (·.2)

def functions (t : LabelTable) : List String :=
  (t.entries.map (·.1)).eraseDups

end LabelTable

namespace Label

/-- The text of a label; jumps and label lines share it. -/
def name (function : String) (offset : UInt32) : String :=
  function ++ "_" ++ Text.upperHex offset.toNat

/-- Event graph entry functions are told by how their name starts. -/
def isDispatch (function : String) : Bool :=
  "ExecuteUbergraph".toList.isPrefixOf function.toList

/-- The offset a call enters an event graph at: its first argument, an integer
constant taken as an unsigned word. -/
def dispatchTarget? (function : FunctionRef) : List Expr → Option UInt32
  | .int value :: _ => if isDispatch function.name then some value.toUInt32 else none
  | _ => none

def target? (function : String) : Expr → Option (String × UInt32)
  | .jump target => some (function, target)
  | .jumpIfNot target _ => some (function, target)
  | .finalCall _ callee arguments => (dispatchTarget? callee arguments).map (callee.name, ·)
  | _ => none

def targets (f : Function) : List (String × UInt32) :=
  f.script.filterMap fun s => target? f.name s.expr

def discover (c : Class) : LabelTable :=
  (c.functions.flatMap targets).foldl (fun t target => t.add target.1 target.2) .empty

end Label
end ScriptListing
