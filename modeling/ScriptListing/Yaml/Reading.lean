import ScriptListing.Yaml.Error
import ScriptListing.Yaml.Node

/-! Nodes read into values. A null leaves a value out, a node of another shape is a
mismatch, and reading goes on to find the others. Only a node that cannot be made sense
of at all breaks a reading off, and so does a document that is little but aliases. -/
namespace ScriptListing.Yaml

/-- What was read: the value, unless it is null or does not fit, and each mismatch. -/
structure Reading (α : Type) where
  value : Option α := none
  mismatches : List Mismatch := []

namespace Reading

def found {α : Type} (value : α) : Reading α := { value := some value }

def unfit {α : Type} (mismatches : List Mismatch) : Reading α := { mismatches := mismatches }

end Reading

/-- What was visited so far. A node counts each time it is read. -/
structure Tally where
  nodes : Nat := 0
  /-- Those of them that were read by way of an alias. -/
  aliased : Nat := 0
  /-- The aliases that lead to the present node, by number. -/
  path : List Nat := []

namespace Tally

/-- Whether more of the nodes than allowed were read by way of an alias: 99 in a hundred,
and from 400,000 nodes on steadily less, down to ten in a hundred at 4,000,000. -/
def isExcessive (t : Tally) : Bool :=
  let allowed :=
    if t.nodes ≤ 400000 then 99 * 3600000
    else if 4000000 ≤ t.nodes then 10 * 3600000
    else 99 * 3600000 - 89 * (t.nodes - 400000)
  100 < t.aliased && 1000 < t.nodes && allowed * t.nodes < 100 * 3600000 * t.aliased

def visit (t : Tally) : Tally :=
  { t with nodes := t.nodes + 1, aliased := if t.path.isEmpty then t.aliased else t.aliased + 1 }

end Tally

/-- A part of a reading: it knows the document and keeps count. -/
abbrev Reads := ReaderT Document (StateT Tally (Except String))

abbrev Reader (α : Type) := Node → Reads (Reading α)

namespace Reads

def visit : Reads Unit := do
  let t := (← get).visit
  if t.isExcessive then throw "document contains excessive aliasing"
  set t

def follow {α : Type} (anchor : String) (number : Nat) (read : Reads α) : Reads α := do
  visit
  let path := (← get).path
  if path.contains number then throw ("anchor '" ++ anchor ++ "' value contains itself")
  modify fun t => { t with path := number :: path }
  visit
  let a ← read
  modify fun t => { t with path }
  return a

def through {α : Type} (n : Node) (read : Node → Reads α) : Reads α :=
  match n with
  | .aliased anchor number target _ => follow anchor number (read target)
  | .cycle anchor number _ => do
    let d ← ReaderT.read
    follow anchor number (read (d.target n))
  | n => do
    visit
    read n

end Reads

namespace Reader

variable {α : Type}

def runAfter (tally : Tally) (read : Reader α) (start : α) (d : Document) (n : Node) :
    Except Error α :=
  match (read n).run d |>.run tally with
  | .error problem => .error (.malformed problem)
  | .ok (reading, _) =>
    if reading.mismatches.isEmpty then .ok (reading.value.getD start)
    else .error (.mismatches reading.mismatches)

def run (read : Reader α) (start : α) (d : Document) (n : Node) : Except Error α :=
  read.runAfter {} start d n

/-- The value of a whole document, which counts as a node of its own. -/
def runDocument (read : Reader α) (start : α) (d : Document) : Except Error α :=
  read.runAfter { nodes := 1 } start d d.root

end Reader

def readNode : Reader Node := fun n => do
  Reads.visit
  return .found n

def repeatedKeys : List (Node × Node) → List Mismatch
  | [] => []
  | (key, _) :: rest =>
    (rest.filterMap fun (later, _) =>
      if later.kind = key.kind ∧ later.value = key.value then
        some (.repeatedKey later.line later.value key.line)
      else none) ++ repeatedKeys rest

def scalarOf (tag source : String) : Except String Scalar :=
  if tag = "!!str" then .ok (.text source) else Scalar.resolve tag source

namespace Node

def misfit (n : Node) (type : String) : Mismatch := .wrongType n.line n.tag n.value type

def unfit {α : Type} (type : String) (n : Node) : Reads (Reading α) :=
  match n with
  | scalar tag source _ => do
    match ← scalarOf tag source with
    | .null => return {}
    | _ => return .unfit [n.misfit type]
  | mapping _ entries _ =>
    let repeated := repeatedKeys entries
    return .unfit (if repeated.isEmpty then [n.misfit type] else repeated)
  | _ => return .unfit [n.misfit type]

end Node

structure ScalarType (α : Type) where
  name : String
  accept : Scalar → (source : String) → Option α

namespace ScalarType

def read {α : Type} (type : ScalarType α) : Reader α := fun n => Reads.through n fun
  | .scalar tag source line => do
    match ← scalarOf tag source with
    | .null => return {}
    | value =>
      match type.accept value source with
      | some v => return .found v
      | none => return .unfit [.wrongType line tag source type.name]
  | other => other.unfit type.name

/-- Text takes every scalar as it was written. -/
def text : ScalarType String where
  name := "string"
  accept value source := match value with
    | .text t => some t
    | _ => some source

def trueWords : List String := ["y", "Y", "yes", "Yes", "YES", "on", "On", "ON"]
def falseWords : List String := ["n", "N", "no", "No", "NO", "off", "Off", "OFF"]

def bool : ScalarType Bool where
  name := "bool"
  accept value _ := match value with
    | .bool b => some b
    | .text t =>
      if trueWords.contains t then some true
      else if falseWords.contains t then some false
      else none
    | _ => none

/-- Integers from `least` to `greatest`; a fraction is cut toward zero. -/
def integer (name : String) (least greatest : Int) : ScalarType Int where
  name := name
  accept value _ :=
    let inRange (n : Int) : Option Int := if least ≤ n ∧ n ≤ greatest then some n else none
    match value with
    | .int n => inRange n
    | .float x => x.truncate?.bind inRange
    | _ => none

def map {α β : Type} (f : α → β) (type : ScalarType α) : ScalarType β where
  name := type.name
  accept value source := (type.accept value source).map f

def int : ScalarType Int := integer "int" (-0x8000000000000000) 0x7FFFFFFFFFFFFFFF
def int32 : ScalarType Int32 := (integer "int32" (-0x80000000) 0x7FFFFFFF).map Int32.ofInt
def int64 : ScalarType Int64 :=
  (integer "int64" (-0x8000000000000000) 0x7FFFFFFFFFFFFFFF).map Int64.ofInt
def byte : ScalarType UInt8 := (integer "uint8" 0 255).map fun n => UInt8.ofNat n.toNat
def word : ScalarType UInt32 :=
  (integer "uint32" 0 0xFFFFFFFF).map fun n => UInt32.ofNat n.toNat

def double : ScalarType Number.Binary where
  name := "float64"
  accept value _ := match value with
    | .int n => some (.ofInt .double n)
    | .float x => some x
    | _ => none

/-- Rounded to double width first. -/
def single : ScalarType Number.Binary where
  name := "float32"
  accept value source := (double.accept value source).map (Number.Binary.toWidth .single)

end ScalarType

/-- The items of a sequence; null items are left out. -/
def readList {α : Type} (name : String) (item : Reader α) : Reader (List α) :=
  fun n => Reads.through n fun
  | .sequence _ items _ => do
    let readings ← items.mapM item
    return {
      value := some (readings.filterMap Reading.value)
      mismatches := readings.flatMap Reading.mismatches }
  | other => other.unfit name

def readTexts : Reader (List String) := readList "[]string" ScalarType.text.read

end ScriptListing.Yaml
