import ScriptListing.Label
import ScriptListing.Listing.Fault
import ScriptListing.Number.Decimal
import ScriptListing.TypeName

/-! Instructions as inline text. What a tree reads as depends on where it stands:
alone as a statement, or under a parent. -/
namespace ScriptListing.Listing

structure Scope where
  table : Option SymbolTable
  cls : Class
  function : Function

inductive Place where
  | statement
  | under (parent : Expr)

namespace Place

/-- The name a missing operand is reported under. -/
def name : Place → String
  | statement => "statement"
  | under parent => parent.opcode.name

def isStatement : Place → Bool
  | statement => true
  | under _ => false

def inContext : Place → Bool
  | under (.context _ _ _) => true
  | _ => false

def inText : Place → Bool
  | under (.text _) => true
  | _ => false

end Place

namespace Scope

/-- The function a reference is resolved in: this one, or the named one of the class. -/
def owner (s : Scope) (ref : PropertyRef) : Except Obstacle Function :=
  if ref.owner = "" ∨ ref.owner = s.function.name then .ok s.function
  else match s.cls.function? ref.owner with
    | some f => .ok f
    | none => .error (.unresolvedOwner ref.name ref.owner)

def find (s : Scope) (ref : PropertyRef) : Except Obstacle Property :=
  if ref.name = "" then .error .noPath
  else do
    let f ← s.owner ref
    match f.property? ref.name with
    | some p => return p
    | none => throw (.undeclared ref.name f.name)

def field (ref : PropertyRef) : Except Obstacle String :=
  if ref.name = "" then .error .noPath else .ok ref.name

def typeOf (s : Scope) (p : Property) : Except Obstacle String :=
  (TypeName.resolve s.table s.cls.hierarchy p).mapError .lookup

/-- A local alone on a line declares itself with its type; a parameter never does. -/
def localName (s : Scope) (place : Place) (ref : PropertyRef) : Except Obstacle String := do
  let p ← s.find ref
  if place.isStatement && !p.isParm then
    return (← s.typeOf p) ++ " " ++ p.name
  else return p.name

/-- The owner before a statically bound call. A local call, or one made through an
object, has none. -/
def qualifier (place : Place) (code : Opcode) (function : FunctionRef) : Except Obstacle String :=
  if code = .localFinalFunction ∨ place.inContext then .ok ""
  else if function.owner = "" then .error (.ownerlessCall function.name)
  else .ok (function.owner ++ "::")

def double (value : Number.Binary) : String := value.text .double

def triple (name : String) (a b c : Number.Binary) : String :=
  name ++ "(" ++ double a ++ ", " ++ double b ++ ", " ++ double c ++ ")"

def comment (code : Opcode) : String := "/* " ++ code.name ++ " */"

mutual

def inline (s : Scope) (place : Place) : Expr → Except Obstacle String
  | .missing => throw (.missingOperand place.name)
  | .assign code target value => do
    let here := .under (.assign code target value)
    let left ← inline s here target
    let right ← inline s here value
    return left ++ " = " ++ right
  | .assignPersistent destination value => do
    if destination.name = "" then throw .noDestination
    let right ← inline s (.under (.assignPersistent destination value)) value
    return destination.name ++ " = " ++ right
  | .localVariable ref => s.localName place ref
  | .localOutVariable ref => do
    let p ← s.find ref
    return "*" ++ p.name
  | .instanceVariable ref => field ref
  | .defaultVariable ref => field ref
  | .self => return "this"
  | .nothing => return ""
  | .noObject => return "nullptr"
  | .truth value => return if value then "true" else "false"
  | .int value => return "(int32)" ++ toString value.toInt
  | .int64 value => return "(int64)" ++ toString value.toInt
  | .byte value => return "(uint8)" ++ toString value.toNat
  | .float value => return "(float)" ++ value.text .single
  | .double value => return "(double)" ++ double value
  | .name value => return "FName(" ++ value ++ ")"
  | .string _ value => return if place.inText then value else "FString(L\"" ++ value ++ "\")"
  | .text .missing => return "FText(\"\")"
  | .text source => do
    let value ← inline s (.under (.text source)) source
    return "FText(\"" ++ value ++ "\")"
  | .vector x y z => return triple "FVector" x y z
  | .rotation pitch yaw roll => return triple "FRotator" pitch yaw roll
  | .object name => return name
  | .struct name _ => return name ++ "()"
  | .finalCall code function arguments => do
    let owner ← qualifier place code function
    let parts ← inlineAll s (.under (.finalCall code function arguments)) arguments
    return owner ++ function.name ++ "(" ++ ", ".intercalate parts ++ ")"
  | .virtualCall code name arguments => do
    let parts ← inlineAll s (.under (.virtualCall code name arguments)) arguments
    return name ++ "(" ++ ", ".intercalate parts ++ ")"
  | .context code object member => do
    let here := .under (.context code object member)
    let left ← inline s here object
    let right ← inline s here member
    return left ++ "->" ++ right
  | .structMember struct property => do
    if property.name = "" then throw .noMember
    let value ← inline s (.under (.structMember struct property)) struct
    return value ++ "." ++ property.name
  | .interfaceContext value => inline s (.under (.interfaceContext value)) value
  | .cast conversion target => do
    let value ← inline s (.under (.cast conversion target)) target
    return "Cast(" ++ conversion ++ ", " ++ value ++ ")"
  | .classCast code className target => do
    let value ← inline s (.under (.classCast code className target)) target
    return "(" ++ className ++ "*)" ++ value
  | .unknown code => return comment code
  | .jump _ => return comment .jump
  | .jumpIfNot _ _ => return comment .jumpIfNot
  | .computedJump _ => return comment .computedJump
  | .ret _ => return comment .return
  | .pushFlow _ => return comment .pushExecutionFlow
  | .popFlow => return comment .popExecutionFlow
  | .popFlowIfNot _ => return comment .popExecutionFlowIfNot
  | .endOfScript => return comment .endOfScript

def inlineAll (s : Scope) (place : Place) : List Expr → Except Obstacle (List String)
  | [] => return []
  | e :: rest => do
    let head ← inline s place e
    let tail ← inlineAll s place rest
    return head :: tail

end

end Scope
end ScriptListing.Listing
