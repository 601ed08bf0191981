import ScriptListing.Yaml.Reading

/-! Mappings read into records. A key sets the field of its name once. The mappings
behind a merge key are read after the mapping's own entries and set what these and
earlier ones left open. -/
namespace ScriptListing.Yaml

abbrev FieldReader (α : Type) := Node → α → Reads (α × List Mismatch)

/-- A field that holds what `read` finds and keeps its place at a null. -/
def Reader.into {α β : Type} (read : Reader β) (put : β → α → α) : FieldReader α :=
  fun n record => do
    let reading ← read n
    return (reading.value.elim record (put · record), reading.mismatches)

structure RecordType (α : Type) where
  name : String
  fields : List (String × FieldReader α)
  /-- Whether a key without a field is a mismatch. -/
  strict : Bool := false

/-- A record on the way: the fields its mapping has set, and under a merge the names
that are taken. -/
structure Filling (α : Type) where
  record : α
  taken : Option (List String)
  done : List String := []
  merge : Option Node := none
  mismatches : List Mismatch := []

def mergeSources (d : Document) : Node → Except String (List Node)
  | .sequence _ items _ => if items.all isSource then .ok items else .error refusal
  | n => if isSource n then .ok [n] else .error refusal
where
  isSource (n : Node) : Bool := (d.target n).kind = .mapping
  refusal : String := "map merge requires map or sequence of maps as the value"

/-- The names that the keys of a mapping take, with the mismatches among them. No
collection can be such a name. -/
def takenNames (entries : List (Node × Node)) : Reads (List String × List Mismatch) := do
  let names ← entries.mapM fun (key, _) => Reads.through key name
  return (names.filterMap Reading.value, names.flatMap Reading.mismatches)
where
  name : Node → Reads (Reading String)
  | .scalar tag source _ => do
    match ← scalarOf tag source with
    | .text t => return .found t
    | _ => return {}
  | .mapping _ entries _ =>
    let repeated := repeatedKeys entries
    if repeated.isEmpty then throw "invalid map key" else return .unfit repeated
  | _ => throw "invalid map key"

namespace RecordType

variable {α : Type}

def put (type : RecordType α) (s : Filling α) (line : Nat) (name : String) (value : Node) :
    Reads (Filling α) :=
  match type.fields.lookup name with
  | some field =>
    if s.done.contains name then
      return { s with mismatches := s.mismatches ++ [.repeatedField line name type.name] }
    else do
      let (record, found) ← field value s.record
      return { s with
        record, done := name :: s.done, mismatches := s.mismatches ++ found }
  | none =>
    if type.strict then
      return { s with mismatches := s.mismatches ++ [.unknownField line name type.name] }
    else return s

/-- The record after one entry. A key that is null or no text sets nothing. -/
def entry (type : RecordType α) (s : Filling α) (e : Node × Node) : Reads (Filling α) :=
  let (key, value) := e
  if key.isMerge then return { s with merge := some value }
  else do
    let reading ← ScalarType.text.read key
    let s := { s with mismatches := s.mismatches ++ reading.mismatches }
    match reading.value with
    | none => return s
    | some name =>
      if s.taken.any (·.contains name) then return s
      type.put { s with taken := s.taken.map (name :: ·) } key.line name value

/-- The record under a merge: the names of the outermost mapping are taken. -/
def taking (s : Filling α) (entries : List (Node × Node)) : Reads (Filling α) := do
  if s.taken.isSome then return s
  let (names, found) ← takenNames entries
  return { s with taken := some names, mismatches := s.mismatches ++ found }

/-- The record after a mapping, which is no alias, and what it merges. -/
def fill (type : RecordType α) : (fuel : Nat) → Filling α → Node → Reads (Filling α)
  | 0, _, _ => throw "exceeded max depth"
  | fuel + 1, s, .mapping _ entries _ => do
    let repeated := repeatedKeys entries
    if !repeated.isEmpty then return { s with mismatches := s.mismatches ++ repeated }
    let s ← entries.foldlM type.entry { s with done := [], merge := none }
    match s.merge with
    | none => return s
    | some value =>
      let s ← taking s entries
      let sources ← mergeSources (← read) value
      sources.foldlM (fun s source => Reads.through source (type.fill fuel s)) s
  | _ + 1, s, n => do
    let reading : Reading α ← n.unfit type.name
    return { s with mismatches := s.mismatches ++ reading.mismatches }

def readHere (type : RecordType α) (start : α) : Reader α
  | .mapping tag entries line => do
    let extent := (← ReaderT.read).extent
    let s ← type.fill (extent + 1) { record := start, taken := none } (.mapping tag entries line)
    return { value := some s.record, mismatches := s.mismatches }
  | other => other.unfit type.name

def read (type : RecordType α) (start : α) : Reader α := fun n =>
  Reads.through n (type.readHere start)

/-- The record of a mapping where one may be left out. A collection under the tag of
nulls is neither. -/
def readOptional (type : RecordType α) (start : α) : Reader α := fun n => Reads.through n fun n =>
  if n.isNull && n.kind ≠ .scalar then n.unfit ("*" ++ type.name) else type.readHere start n

end RecordType
end ScriptListing.Yaml
