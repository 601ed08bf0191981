import ScriptListing.Dump.Instruction
import ScriptListing.Proofs.Listing.Structure
import ScriptListing.Proofs.Yaml.Reading
import ScriptListing.Proofs.Yaml.Scalar

/-! The written form of instructions. An instruction is a mapping with its name under `inst`
and its parts under keys of their own; `row` is the table of these keys. -/
namespace ScriptListing.Dump

open Yaml Number

inductive Content where
  | text (value : String)
  /-- A text that may be left out where it is empty. -/
  | owner (value : String)
  | integer (value : Int)
  | single (value : Binary)
  | double (value : Binary)
  /-- A mapping from names to numbers. -/
  | point (parts : List (String × Binary))
  | property (ref : PropertyRef)
  | operand (e : Expr)
  /-- An operand that may be left out. -/
  | choice (e : Expr)
  | list (es : List Expr)

/-- The keys of each instruction besides its name, with what they hold. -/
def row : Expr → List (String × Content)
  | .assign _ target value => [("variable", .operand target), ("expr", .operand value)]
  | .assignPersistent destination value =>
    [("destination", .property destination), ("expr", .operand value)]
  | .localVariable ref | .instanceVariable ref | .defaultVariable ref | .localOutVariable ref =>
    [("variable", .property ref)]
  | .int value => [("value", .integer value.toInt)]
  | .int64 value => [("value", .integer value.toInt)]
  | .byte value => [("value", .integer value.toNat)]
  | .float value => [("value", .single value)]
  | .double value => [("value", .double value)]
  | .name value | .string _ value | .object value => [("value", .text value)]
  | .text source => [("source", .choice source)]
  | .vector x y z => [("value", .point [("x", x), ("y", y), ("z", z)])]
  | .rotation pitch yaw roll =>
    [("value", .point [("pitch", pitch), ("yaw", yaw), ("roll", roll)])]
  | .struct name members => [("struct", .text name), ("properties", .list members)]
  | .finalCall _ function arguments =>
    [("function", .text function.name), ("owner", .owner function.owner),
      ("parameters", .list arguments)]
  | .virtualCall _ name arguments => [("function", .text name), ("parameters", .list arguments)]
  | .jump target => [("target", .integer target.toNat)]
  | .jumpIfNot target condition =>
    [("target", .integer target.toNat), ("condition", .operand condition)]
  | .computedJump value | .interfaceContext value => [("expr", .operand value)]
  | .pushFlow address => [("address", .integer address.toNat)]
  | .popFlowIfNot condition => [("condition", .operand condition)]
  | .ret value => [("expr", .choice value)]
  | .context _ base part => [("object", .operand base), ("member", .operand part)]
  | .structMember base ref => [("struct", .operand base), ("property", .property ref)]
  | .cast conversion target => [("conversion", .text conversion), ("expr", .operand target)]
  | .classCast _ className target => [("class", .text className), ("expr", .operand target)]
  | .missing | .self | .nothing | .noObject | .truth _ | .popFlow | .endOfScript | .unknown _ => []

def cells (e : Expr) : List (String × Content) := ("inst", .text e.opcode.name) :: row e

def byName (entries : List (Node × Node)) : List (String × Node) :=
  entries.map fun entry => (entry.1.value, entry.2)

def Distinct (entries : List (Node × Node)) : Prop := ((byName entries).map Prod.fst).Nodup

def under (entries : List (Node × Node)) (key : String) : Option Node :=
  (byName entries).lookup key

/-- A number of double width; an integer stands for the number nearest to it. -/
inductive DenotesDouble (x : Binary) : Node → Prop where
  | float {n : Node} (written : Denotes (.float x) n) : DenotesDouble x n
  | integer {n : Node} {i : Int} (written : Denotes (.int i) n) (same : .ofInt .double i = x) :
      DenotesDouble x n

inductive DenotesTexts (texts : List String) : Node → Prop where
  | mk {items : List Node} (written : List.Forall₂ (fun t => Denotes (.text t)) texts items)
      (tag : String) (line : Nat) : DenotesTexts texts (.sequence tag items line)

/-- A text, or nothing at all where it is empty. -/
inductive DenotesOwner : String → Option Node → Prop where
  | given {owner : String} {n : Node} (written : Denotes (.text owner) n) :
      DenotesOwner owner (some n)
  | absent : DenotesOwner "" none

/-- A property by its bare name, by a path, or by a path with an owner. -/
inductive Refers : PropertyRef → Node → Prop where
  | name {tag name : String} (given : name ≠ "") (line : Nat) :
      Refers ⟨[name], ""⟩ (.scalar tag name line)
  | path {texts : List String} {tag : String} {items : List Node} {line : Nat}
      (written : DenotesTexts texts (.sequence tag items line)) :
      Refers ⟨texts, ""⟩ (.sequence tag items line)
  | full {texts : List String} {owner : String} {entries : List (Node × Node)} {n : Node}
      (distinct : Distinct entries) (path : under entries "path" = some n)
      (written : DenotesTexts texts n) (owned : DenotesOwner owner (under entries "owner"))
      (tag : String) (line : Nat) : Refers ⟨texts, owner⟩ (.mapping tag entries line)

/-- What a key of an instruction may hold, or that it may be left out; `W` says which nodes
write the instructions in it. -/
inductive Stands (W : Expr → Node → Prop) : Content → Option Node → Prop where
  | text {value : String} {n : Node} (written : Denotes (.text value) n) :
      Stands W (.text value) (some n)
  | owner {value : String} {place : Option Node} (written : DenotesOwner value place) :
      Stands W (.owner value) place
  | integer {value : Int} {n : Node} (written : Denotes (.int value) n) :
      Stands W (.integer value) (some n)
  | single {value wide : Binary} {n : Node} (written : DenotesDouble wide n)
      (narrow : wide.toWidth .single = value) : Stands W (.single value) (some n)
  | double {value : Binary} {n : Node} (written : DenotesDouble value n) :
      Stands W (.double value) (some n)
  | point {parts parts' : List (String × Binary)} {entries : List (Node × Node)}
      (order : parts'.Perm parts)
      (written : List.Forall₂ (fun part entry => IsKey part.1 entry.1 ∧
        DenotesDouble part.2 entry.2) parts' entries) (tag : String) (line : Nat) :
      Stands W (.point parts) (some (.mapping tag entries line))
  | property {ref : PropertyRef} {n : Node} (written : Refers ref n) :
      Stands W (.property ref) (some n)
  | operand {e : Expr} {n : Node} (written : W e n) : Stands W (.operand e) (some n)
  | choice {e : Expr} {n : Node} (present : e ≠ .missing) (direct : n.isNull = false)
      (written : W e n) : Stands W (.choice e) (some n)
  | noChoice : Stands W (.choice .missing) none
  | nullChoice {n : Node} (null : n.isNull = true) : Stands W (.choice .missing) (some n)
  | list {es : List Expr} {items : List Node} (written : List.Forall₂ W es items) (line : Nat) :
      Stands W (.list es) (some (.sequence "!!seq" items line))
  | noList : Stands W (.list []) none
  | nullList {n : Node} (null : n.isNull = true) : Stands W (.list []) (some n)

/-- The nodes that write an instruction. The mapping may have further keys. -/
inductive Writes : Expr → Node → Prop where
  | mk {e : Expr} {entries : List (Node × Node)} (distinct : Distinct entries)
      (fields : ∀ cell ∈ cells e, Stands Writes cell.2 (under entries cell.1)) (line : Nat) :
      Writes e (.mapping "!!map" entries line)

inductive WritesAt (offset : UInt32) (e : Expr) : Node → Prop where
  | mk {tag : String} {entries : List (Node × Node)} {line : Nat}
      (written : Writes e (.mapping tag entries line)) {n : Node}
      (found : under entries "offset" = some n) (placed : Denotes (.int offset.toNat) n) :
      WritesAt offset e (.mapping tag entries line)

def Own : Expr → Prop
  | .assign code _ _ =>
    code ∈ [.let, .letBool, .letObj, .letWeakObjPtr, .letDelegate, .letMulticastDelegate]
  | .string code _ => code ∈ [.stringConst, .unicodeStringConst]
  | .finalCall code _ _ => code ∈ [.finalFunction, .localFinalFunction, .callMath]
  | .virtualCall code _ _ => code ∈ [.virtualFunction, .localVirtualFunction]
  | .context code _ _ => code ∈ [.context, .contextFailSilent, .classContext]
  | .classCast code _ _ =>
    code ∈ [.metaCast, .dynamicCast, .objToInterfaceCast, .crossInterfaceCast, .interfaceToObjCast]
  | .unknown code => code ∉ Opcode.known
  | .float x => x.IsOf .single
  | .double x => x.IsOf .double
  | .vector x y z => x.IsOf .double ∧ y.IsOf .double ∧ z.IsOf .double
  | .rotation pitch yaw roll => pitch.IsOf .double ∧ yaw.IsOf .double ∧ roll.IsOf .double
  | _ => True

/-- Trees with all their parts and with names of their own, at every depth. -/
inductive Valid : Expr → Prop where
  | mk {e : Expr} (present : e ≠ .missing) (own : Own e) (below : ∀ x ∈ e.operands, Valid x) :
      Valid e

end ScriptListing.Dump
