import ScriptListing.Expr
import ScriptListing.Failure
import ScriptListing.Yaml.Record

/-! Instructions from their nodes. A mapping names its instruction under `inst` and the
operands under keys of their own; `form?` gives the layout of each instruction. -/
namespace ScriptListing.Dump

open Yaml

/-- The values of a mapping by key. A later entry of a key counts. -/
structure Fields where
  entries : List (String × Node)

namespace Fields

def ofEntries (entries : List (Node × Node)) : Fields :=
  ⟨(entries.map fun (key, value) => (key.value, value)).reverse⟩

def of? (d : Document) (n : Node) : Option Fields :=
  match d.target n with
  | .mapping _ entries _ => some (ofEntries entries)
  | _ => none

def get? (f : Fields) (key : String) : Option Node := f.entries.lookup key

def get (f : Fields) (key : String) : Attempt Node :=
  match f.get? key with
  | some n => .ok n
  | none => fail (.missingField key)

end Fields

/-- A node read into a value, `start` where it is null. -/
def valueOf {α : Type} (d : Document) (key : String) (read : Reader α) (start : α) (n : Node) :
    Attempt α :=
  inside key ((read.run start d n).mapError fun error => .of (.yaml error))

namespace Fields

variable (d : Document)

def value {α : Type} (f : Fields) (key : String) (read : Reader α) (start : α) : Attempt α := do
  valueOf d key read start (← f.get key)

def text (f : Fields) (key : String) : Attempt String := f.value d key ScalarType.text.read ""

def text? (f : Fields) (key : String) : Attempt String :=
  match f.get? key with
  | none => .ok ""
  | some n => valueOf d key ScalarType.text.read "" n

def word (f : Fields) (key : String) : Attempt UInt32 := f.value d key ScalarType.word.read 0

def path (key : String) : Node → Attempt (List String)
  | .scalar _ name _ => .ok [name]
  | n => valueOf d key readTexts [] n

/-- A property by its bare name, by a path, or by a path with an owner. -/
def property (f : Fields) (key : String) : Attempt PropertyRef := do
  match ← f.get key with
  | .scalar _ name _ => return ⟨if name = "" then [] else [name], ""⟩
  | .sequence tag items line => return ⟨← valueOf d key readTexts [] (.sequence tag items line), ""⟩
  | .mapping _ entries _ =>
    let parts := ofEntries entries
    let segments ← match parts.get? "path" with
      | some n => path d key n
      | none => inside key (fail (.missingField "path"))
    return ⟨segments, ← inside key (parts.text? d "owner")⟩
  | _ => inside key (fail .unexpectedNode)

variable (sub : Node → Attempt Expr) (f : Fields) (key : String)

def operand : Attempt Expr := do sub (← f.get key)

def operand? : Attempt Expr :=
  match f.get? key with
  | none => .ok .missing
  | some n => if n.isNull then .ok .missing else sub n

def operands : Attempt (List Expr) :=
  match f.get? key with
  | none => .ok []
  | some (.sequence tag items _) => if tag = "!!null" then .ok [] else items.mapM sub
  | some n => if n.isNull then .ok [] else inside key (fail .notList)

end Fields

structure Vector where
  x : Number.Binary := .zero
  y : Number.Binary := .zero
  z : Number.Binary := .zero

def vectorType : RecordType Vector where
  name := "struct \x7b X float64; Y float64; Z float64 \x7d"
  fields := [
    ("x", ScalarType.double.read.into fun x v => { v with x }),
    ("y", ScalarType.double.read.into fun y v => { v with y }),
    ("z", ScalarType.double.read.into fun z v => { v with z })]

structure Rotation where
  pitch : Number.Binary := .zero
  yaw : Number.Binary := .zero
  roll : Number.Binary := .zero

def rotationType : RecordType Rotation where
  name := "struct \x7b Pitch float64; Yaw float64; Roll float64 \x7d"
  fields := [
    ("pitch", ScalarType.double.read.into fun pitch r => { r with pitch }),
    ("yaw", ScalarType.double.read.into fun yaw r => { r with yaw }),
    ("roll", ScalarType.double.read.into fun roll r => { r with roll })]

inductive Form where
  | assign
  | assignPersistent
  | reference (make : PropertyRef → Expr)
  | bare (e : Expr)
  | int
  | int64
  | byte
  | float
  | double
  | name
  | string
  | object
  | text
  | vector
  | rotation
  | struct
  | finalCall
  | virtualCall
  | jump
  | jumpIfNot
  | computedJump
  | pushFlow
  | popFlowIfNot
  | ret
  | context
  | structMember
  | interfaceContext
  | cast
  | classCast

def forms : List (Opcode × Form) := [
  (.let, .assign),
  (.letBool, .assign),
  (.letObj, .assign),
  (.letWeakObjPtr, .assign),
  (.letDelegate, .assign),
  (.letMulticastDelegate, .assign),
  (.letValueOnPersistentFrame, .assignPersistent),
  (.localVariable, .reference .localVariable),
  (.instanceVariable, .reference .instanceVariable),
  (.defaultVariable, .reference .defaultVariable),
  (.localOutVariable, .reference .localOutVariable),
  (.self, .bare .self),
  (.nothing, .bare .nothing),
  (.noObject, .bare .noObject),
  (.true, .bare (.truth true)),
  (.false, .bare (.truth false)),
  (.popExecutionFlow, .bare .popFlow),
  (.endOfScript, .bare .endOfScript),
  (.intConst, .int),
  (.int64Const, .int64),
  (.byteConst, .byte),
  (.floatConst, .float),
  (.doubleConst, .double),
  (.nameConst, .name),
  (.stringConst, .string),
  (.unicodeStringConst, .string),
  (.objectConst, .object),
  (.textConst, .text),
  (.vectorConst, .vector),
  (.rotationConst, .rotation),
  (.structConst, .struct),
  (.finalFunction, .finalCall),
  (.localFinalFunction, .finalCall),
  (.callMath, .finalCall),
  (.virtualFunction, .virtualCall),
  (.localVirtualFunction, .virtualCall),
  (.jump, .jump),
  (.jumpIfNot, .jumpIfNot),
  (.computedJump, .computedJump),
  (.pushExecutionFlow, .pushFlow),
  (.popExecutionFlowIfNot, .popFlowIfNot),
  (.return, .ret),
  (.context, .context),
  (.contextFailSilent, .context),
  (.classContext, .context),
  (.structMemberContext, .structMember),
  (.interfaceContext, .interfaceContext),
  (.cast, .cast),
  (.metaCast, .classCast),
  (.dynamicCast, .classCast),
  (.objToInterfaceCast, .classCast),
  (.crossInterfaceCast, .classCast),
  (.interfaceToObjCast, .classCast)]

def form? (code : Opcode) : Option Form := forms.lookup code

/-- An instruction from its operands, in the order they are looked for; `sub` reads those
that are instructions. -/
def Form.read (d : Document) (sub : Node → Attempt Expr) (code : Opcode) (f : Fields) :
    Form → Attempt Expr
  | assign => return .assign code (← f.operand sub "variable") (← f.operand sub "expr")
  | assignPersistent =>
    return .assignPersistent (← f.property d "destination") (← f.operand sub "expr")
  | reference make => return make (← f.property d "variable")
  | bare e => .ok e
  | int => return .int (← f.value d "value" ScalarType.int32.read 0)
  | int64 => return .int64 (← f.value d "value" ScalarType.int64.read 0)
  | byte => return .byte (← f.value d "value" ScalarType.byte.read 0)
  | float => return .float (← f.value d "value" ScalarType.single.read (.ofInt .single 0))
  | double => return .double (← f.value d "value" ScalarType.double.read .zero)
  | name => return .name (← f.text d "value")
  | string => return .string code (← f.text d "value")
  | object => return .object (← f.text d "value")
  | text => return .text (← f.operand? sub "source")
  | vector => do
    let v ← f.value d "value" (vectorType.read {}) {}
    return .vector v.x v.y v.z
  | rotation => do
    let r ← f.value d "value" (rotationType.read {}) {}
    return .rotation r.pitch r.yaw r.roll
  | struct => return .struct (← f.text d "struct") (← f.operands sub "properties")
  | finalCall => do
    let function ← f.text d "function"
    let owner ← f.text? d "owner"
    return .finalCall code ⟨function, owner⟩ (← f.operands sub "parameters")
  | virtualCall => return .virtualCall code (← f.text d "function") (← f.operands sub "parameters")
  | jump => return .jump (← f.word d "target")
  | jumpIfNot => return .jumpIfNot (← f.word d "target") (← f.operand sub "condition")
  | computedJump => return .computedJump (← f.operand sub "expr")
  | pushFlow => return .pushFlow (← f.word d "address")
  | popFlowIfNot => return .popFlowIfNot (← f.operand sub "condition")
  | ret => return .ret (← f.operand? sub "expr")
  | context => return .context code (← f.operand sub "object") (← f.operand sub "member")
  | structMember => return .structMember (← f.operand sub "struct") (← f.property d "property")
  | interfaceContext => return .interfaceContext (← f.operand sub "expr")
  | cast => return .cast (← f.text d "conversion") (← f.operand sub "expr")
  | classCast => return .classCast code (← f.text d "class") (← f.operand sub "expr")

def lineOf (n : Node) : String := "line " ++ toString n.line

def fieldsOf (d : Document) (n : Node) : Attempt Fields :=
  match Fields.of? d n with
  | some f => .ok f
  | none => inside (lineOf n) (fail .notMapping)

/-- An instruction nested at most `fuel` deep. One without a layout is kept by its name. -/
def readInstruction (d : Document) : (fuel : Nat) → Node → Attempt Expr
  | 0, _ => fail .endless
  | fuel + 1, n => do
    let f ← fieldsOf d n
    let name ← inside (lineOf n) (f.text d "inst")
    let code : Opcode := ⟨name⟩
    match form? code with
    | none => return .unknown code
    | some form =>
      inside (lineOf n) (inside code.name (form.read d (readInstruction d fuel) code f))

/-- No instruction is nested deeper than the extent, unless it is inside itself. -/
def instruction (d : Document) (n : Node) : Attempt Expr := readInstruction d (d.extent + 1) n

def statement (d : Document) (n : Node) : Attempt Statement := do
  let f ← fieldsOf d n
  let offset ← inside (lineOf n) (f.word d "offset")
  return ⟨offset, ← instruction d n⟩

end ScriptListing.Dump
