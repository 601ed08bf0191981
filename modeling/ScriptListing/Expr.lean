import ScriptListing.Number.Binary
import ScriptListing.Opcode

/-! Decoded instructions as trees. An operand that a dump left out is the tree
`missing`. Nodes that several instructions share keep the name they came under. -/
namespace ScriptListing

structure PropertyRef where
  path : List String
  owner : String
  deriving DecidableEq, Repr, Inhabited

/-- The first segment of the path, empty for an empty path. -/
def PropertyRef.name (ref : PropertyRef) : String := ref.path.headD ""

/-- A call target and the type that declares it. -/
structure FunctionRef where
  name : String
  owner : String
  deriving DecidableEq, Repr, Inhabited

inductive Expr where
  | missing
  | assign (code : Opcode) (target value : Expr)
  | assignPersistent (destination : PropertyRef) (value : Expr)
  | localVariable (ref : PropertyRef)
  | instanceVariable (ref : PropertyRef)
  | defaultVariable (ref : PropertyRef)
  | localOutVariable (ref : PropertyRef)
  | self
  | nothing
  | noObject
  | truth (value : Bool)
  | int (value : Int32)
  | int64 (value : Int64)
  | byte (value : UInt8)
  | float (value : Number.Binary)
  | double (value : Number.Binary)
  | name (value : String)
  | string (code : Opcode) (value : String)
  | text (source : Expr)
  | vector (x y z : Number.Binary)
  | rotation (pitch yaw roll : Number.Binary)
  | object (name : String)
  | struct (name : String) (members : List Expr)
  | finalCall (code : Opcode) (function : FunctionRef) (arguments : List Expr)
  | virtualCall (code : Opcode) (name : String) (arguments : List Expr)
  | jump (target : UInt32)
  | jumpIfNot (target : UInt32) (condition : Expr)
  | computedJump (target : Expr)
  | pushFlow (address : UInt32)
  | popFlow
  | popFlowIfNot (condition : Expr)
  | ret (value : Expr)
  | endOfScript
  | context (code : Opcode) (object member : Expr)
  | structMember (struct : Expr) (property : PropertyRef)
  | interfaceContext (value : Expr)
  | cast (conversion : String) (target : Expr)
  | classCast (code : Opcode) (className : String) (target : Expr)
  | unknown (code : Opcode)
  deriving Inhabited

/-- The instruction a tree was decoded from; a missing operand has none. -/
def Expr.opcode : Expr → Opcode
  | missing => ⟨""⟩
  | assign code _ _ => code
  | assignPersistent _ _ => .letValueOnPersistentFrame
  | localVariable _ => .localVariable
  | instanceVariable _ => .instanceVariable
  | defaultVariable _ => .defaultVariable
  | localOutVariable _ => .localOutVariable
  | self => .self
  | nothing => .nothing
  | noObject => .noObject
  | truth value => if value then .true else .false
  | int _ => .intConst
  | int64 _ => .int64Const
  | byte _ => .byteConst
  | float _ => .floatConst
  | double _ => .doubleConst
  | name _ => .nameConst
  | string code _ => if code.name = "" then .stringConst else code
  | text _ => .textConst
  | vector _ _ _ => .vectorConst
  | rotation _ _ _ => .rotationConst
  | object _ => .objectConst
  | struct _ _ => .structConst
  | finalCall code _ _ => code
  | virtualCall code _ _ => code
  | jump _ => .jump
  | jumpIfNot _ _ => .jumpIfNot
  | computedJump _ => .computedJump
  | pushFlow _ => .pushExecutionFlow
  | popFlow => .popExecutionFlow
  | popFlowIfNot _ => .popExecutionFlowIfNot
  | ret _ => .return
  | endOfScript => .endOfScript
  | context code _ _ => code
  | structMember _ _ => .structMemberContext
  | interfaceContext _ => .interfaceContext
  | cast _ _ => .cast
  | classCast code _ _ => code
  | unknown code => code

structure Statement where
  offset : UInt32
  expr : Expr
  deriving Inhabited

end ScriptListing
