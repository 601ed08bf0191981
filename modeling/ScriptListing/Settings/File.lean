import ScriptListing.FileTree
import ScriptListing.Path
import ScriptListing.Settings
import ScriptListing.Text.LowerCase
import ScriptListing.Toml.Document
import ScriptListing.Yaml.Document
import ScriptListing.Yaml.Record

/-! Settings files. The ending of the name tells the format; a key without a meaning is
an error in either. -/
namespace ScriptListing.Settings

open Yaml

def recordType : RecordType Settings where
  name := "config.Config"
  strict := true
  fields := [
    ("archive", ScalarType.text.read.into fun v s => { s with archive := v }),
    ("key", ScalarType.text.read.into fun v s => { s with key := v }),
    ("mappings", ScalarType.text.read.into fun v s => { s with mappings := v }),
    ("objects", readTexts.into fun v s => { s with objects := v }),
    ("output", ScalarType.text.read.into fun v s => { s with output := v }),
    ("workers", ScalarType.int.read.into fun v s => { s with workers := v }),
    ("verbose", ScalarType.bool.read.into fun v s => { s with verbose := v })]

/-- Settings from a tree of nodes; a text without content is not enough. -/
def ofYaml (bytes : List UInt8) : Attempt Settings := do
  match ← (readDocument bytes).mapError fun error => .of (.yaml error) with
  | none => fail .endOfInput
  | some d => ((recordType.read {}).runDocument {} d).mapError fun error => .of (.yaml error)

def foldCase (c : Char) : Char :=
  if c == '\u017F' then 's' else if c == '\u212A' then 'k' else c.toLower

def fieldOf? (name : String) : Option String :=
  let folded := String.ofList (name.toList.map foldCase)
  if (recordType.fields.lookup folded).isSome then some folded else none

def textValue (field : String) : Toml.Value → Except Toml.Error String
  | .text t => .ok t
  | _ => .error (.wrongType field "string")

def setField (s : Settings) (field : String) (value : Toml.Value) : Except Toml.Error Settings :=
  match field, value with
  | "archive", v => do return { s with archive := ← textValue field v }
  | "key", v => do return { s with key := ← textValue field v }
  | "mappings", v => do return { s with mappings := ← textValue field v }
  | "output", v => do return { s with output := ← textValue field v }
  | "objects", .array items => do return { s with objects := ← items.mapM (textValue field) }
  | "workers", .integer n => .ok { s with workers := n }
  | "verbose", .bool b => .ok { s with verbose := b }
  | _, _ => .error (.wrongType field "value of its type")

/-- The settings after one entry; a name without a field changes nothing. -/
def setEntry (s : Settings) (e : String × Toml.Value) : Except Toml.Error Settings :=
  match fieldOf? e.1 with
  | some field => setField s field e.2
  | none => .ok s

/-- Whether a key is the name of a field; those below one mean nothing. -/
def isField : Toml.Key → Bool
  | [name] => (fieldOf? name).isSome
  | _ => false

/-- Settings from a table. The first key without a meaning is reported, if all others
have values of their types. -/
def ofToml (bytes : List UInt8) : Attempt Settings := do
  let d ← (Toml.parse bytes).mapError fun error => .of (.toml error)
  let s ← (d.root.foldlM setEntry {}).mapError fun error => .of (.toml error)
  match d.keys.find? (!isField ·) with
  | some key => fail (.unknownKey (Toml.keyText key))
  | none => return s

def format (path : String) : String :=
  String.ofList ((Path.ending path).toList.map Text.toLower)

def ofContent (path : String) (bytes : List UInt8) : Attempt Settings :=
  let ending := format path
  if ending = ".yaml" ∨ ending = ".yml" then ofYaml bytes
  else if ending = ".toml" then ofToml bytes
  else fail (.unsupportedFormat ending)

def load (t : FileTree) (path : String) : Attempt Settings := do
  let bytes ← inside "config" ((t.read path).mapError fun error => .of (.file error))
  inside ("config " ++ path) (ofContent path bytes)

end ScriptListing.Settings
