import ScriptListing.Failure
import ScriptListing.Yaml.Document
import ScriptListing.Yaml.Record

/-! Dumps as they are written: exports with their properties, the functions of a class by
name, and the instructions of a function still as nodes. -/
namespace ScriptListing

open Yaml

namespace Dump

/-- A property as written; its class is a name that may be empty. -/
structure PropertyEntry where
  name : String := ""
  type : String := ""
  flags : String := ""
  enum : String := ""
  struct : String := ""
  inner : Option PropertyEntry := none
  key : Option PropertyEntry := none
  value : Option PropertyEntry := none
  objectClass : String := ""
  interface : String := ""
  metaClass : String := ""
  deriving Inhabited

structure Export where
  type : String := ""
  name : String := ""
  super : String := ""
  outer : String := ""
  properties : List PropertyEntry := []
  functions : Option (List String) := none
  script : List Node := []
  deriving Inhabited

structure ClassEntry where
  name : String := ""
  super : String := ""
  deriving DecidableEq, Repr, Inhabited

end Dump

structure Dump where
  exports : List Dump.Export := []
  classes : List Dump.ClassEntry := []
  /-- Where the nodes of the scripts are from. -/
  document : Yaml.Document := default
  deriving Inhabited

namespace Dump

def text {α : Type} (put : String → α → α) : FieldReader α := ScalarType.text.read.into put

def propertyType (element : Reader PropertyEntry) : RecordType PropertyEntry where
  name := "loader.propertyDoc"
  fields := [
    ("name", text fun s p => { p with name := s }),
    ("type", text fun s p => { p with type := s }),
    ("flags", text fun s p => { p with flags := s }),
    ("enum", text fun s p => { p with enum := s }),
    ("struct", text fun s p => { p with struct := s }),
    ("inner", element.into fun e p => { p with inner := some e }),
    ("key", element.into fun e p => { p with key := some e }),
    ("value", element.into fun e p => { p with value := some e }),
    ("class", text fun s p => { p with objectClass := s }),
    ("interface", text fun s p => { p with interface := s }),
    ("metaClass", text fun s p => { p with metaClass := s })]

def readElement : (fuel : Nat) → Reader PropertyEntry
  | 0 => fun _ => throw "exceeded max depth"
  | fuel + 1 => (propertyType (readElement fuel)).readOptional {}

def readProperty : Reader PropertyEntry := fun n => do
  (propertyType (readElement (← read).extent)).read {} n

def exportType : RecordType Export where
  name := "loader.exportDoc"
  fields := [
    ("type", text fun s e => { e with type := s }),
    ("name", text fun s e => { e with name := s }),
    ("super", text fun s e => { e with super := s }),
    ("outer", text fun s e => { e with outer := s }),
    ("properties", (readList "[]loader.propertyDoc" readProperty).into
      fun list e => { e with properties := list }),
    ("functions", readTexts.into fun list e => { e with functions := some list }),
    ("script", (readList "[]yaml.Node" readNode).into fun list e => { e with script := list })]

def classType : RecordType ClassEntry where
  name := "loader.classStub"
  fields := [
    ("name", text fun s c => { c with name := s }),
    ("super", text fun s c => { c with super := s })]

def documentType : RecordType Dump where
  name := "loader.document"
  fields := [
    ("exports", (readList "[]loader.exportDoc" (exportType.read {})).into
      fun list d => { d with exports := list }),
    ("classes", (readList "[]loader.classStub" (classType.read {})).into
      fun list d => { d with classes := list })]

/-- The dump in a file; a file without content is an empty dump. -/
def parse (bytes : List UInt8) : Except Yaml.Error Dump := do
  match ← readDocument bytes with
  | none => return {}
  | some document =>
    let d ← (documentType.read {}).runDocument {} document
    return { d with document }

end Dump
end ScriptListing
