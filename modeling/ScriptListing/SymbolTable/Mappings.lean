import ScriptListing.Failure
import ScriptListing.FileTree
import ScriptListing.SymbolTable
import ScriptListing.Yaml.Document
import ScriptListing.Yaml.Record

/-! Symbol tables from mapping files. A file lists its types under the key `types`, or it
is one mapping from each name to the parent's name. -/
namespace ScriptListing

open Yaml

namespace TypeMap

def entryType : RecordType TypeEntry where
  name := "symbols.Type"
  fields := [
    ("name", ScalarType.text.read.into fun name t => { t with name }),
    ("super", ScalarType.text.read.into fun super t => { t with super })]

def listType : RecordType (List TypeEntry) where
  name := "symbols.document"
  fields := [
    ("types", (readList "[]symbols.Type" (entryType.read ⟨"", ""⟩)).into fun types _ => types)]

def isList (entries : List (Node × Node)) : Bool :=
  entries.any fun (key, value) => key.value == "types" && value.kind = .sequence

def ofTypes : TypeMap → List TypeEntry → Attempt TypeMap
  | m, [] => .ok m
  | m, t :: rest => if t.name = "" then fail .namelessType else ofTypes (m.add t.name t.super) rest

def ofEntries : TypeMap → List (Node × Node) → Attempt TypeMap
  | m, [] => .ok m
  | m, (key, value) :: rest =>
    if key.kind = .scalar ∧ value.kind = .scalar then
      ofEntries (m.add key.value (if value.isNull then "" else value.value)) rest
    else fail (.mappingsEntry key.line)

def undecodable (error : Yaml.Error) : Failure :=
  Failure.within "decode mappings" (.of (.yaml error))

def ofDocument (d : Document) : Attempt TypeMap :=
  match d.root with
  | .mapping _ entries _ =>
    if isList entries then do
      let types ← ((listType.read []).run [] d d.root).mapError undecodable
      ofTypes .empty types
    else ofEntries .empty entries
  | _ => fail .mappingsShape

/-- The types of a mapping file; a file without content has none. -/
def parse (bytes : List UInt8) : Attempt TypeMap := do
  match ← (readDocument bytes).mapError undecodable with
  | none => return .empty
  | some d => ofDocument d

def load (t : FileTree) (path : String) : Attempt TypeMap := do
  let bytes ← inside "read mappings" ((t.read path).mapError fun error => .of (.file error))
  inside path (parse bytes)

end TypeMap
end ScriptListing
