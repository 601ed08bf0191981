import ScriptListing.Expr
import ScriptListing.SymbolTable
import ScriptListing.Text.Characters

/-! Why a statement cannot be listed, and the record of a function that was cut
short because of it. -/
namespace ScriptListing

inductive Obstacle where
  | missingInstruction
  | missingOperand (parent : String)
  | noDestination
  | noMember
  | noPath
  | unresolvedOwner (name owner : String)
  | undeclared (name function : String)
  | ownerlessCall (function : String)
  | lookup (breakdown : Breakdown)
  deriving DecidableEq, Repr

namespace Obstacle

def message : Obstacle → String
  | missingInstruction => "missing instruction"
  | missingOperand parent => "missing operand under " ++ parent
  | noDestination => "persistent frame assignment without destination"
  | noMember => "struct member access without a property path"
  | noPath => "variable reference without a property path"
  | unresolvedOwner name owner => "variable " ++ name ++ ": unresolved owner " ++ owner
  | undeclared name function => "variable " ++ name ++ " not declared in " ++ function
  | ownerlessCall function => "call to " ++ function ++ " has no resolved owner"
  | lookup breakdown => breakdown.message

def cause? : Obstacle → Option String
  | lookup breakdown => breakdown.cause?
  | _ => none

end Obstacle

/-- A function whose listing stops at `offset`. -/
structure Fault where
  className : String
  function : String
  offset : UInt32
  message : String
  cause : Option String := none
  deriving DecidableEq, Repr, Inhabited

namespace Fault

def offsetText (offset : UInt32) : String := "0x" ++ Text.upperHex offset.toNat

/-- Where the fault is: the class and the function, as far as they are named. -/
def place (f : Fault) : List String :=
  (if f.className = "" then [] else [f.className]) ++
    (if f.function = "" then [] else ["in " ++ f.function ++ " at " ++ offsetText f.offset])

def text (f : Fault) : String :=
  if f.place.isEmpty then f.message else " ".intercalate f.place ++ ": " ++ f.message

end Fault
end ScriptListing
