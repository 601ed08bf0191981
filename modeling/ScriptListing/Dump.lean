import ScriptListing.Class
import ScriptListing.Dump.Document
import ScriptListing.Dump.Instruction

/-! Classes from dumps. The last class export of a name counts, and its parent goes
before one told apart from an export. -/
namespace ScriptListing.Dump

def isClass (e : Export) : Bool := e.type == "Class"
def isFunction (e : Export) : Bool := e.type == "Function"

/-- The last class export of a name. -/
def class? (d : Dump) (name : String) : Option Export :=
  d.exports.reverse.find? fun e => isClass e && e.name == name

def parent? (name : String) : Option String := if name = "" then none else some name

/-- The parents of all classes, those that count first. There is one class for a name. -/
def hierarchy (d : Dump) : Hierarchy where
  links := (d.exports.reverse.filter isClass).map (fun e => (e.name, parent? e.super)) ++
    d.classes.reverse.map fun c => (c.name, parent? c.super)

mutual

/-- A property with its elements. Each one needs a type and flags that can be read. -/
def property : PropertyEntry → Attempt Property
  | ⟨name, type, flags, enum, struct, inner, key, value, objectClass, interface, metaClass⟩ =>
    if type = "" then fail (.untypedProperty name)
    else do
      let flags ← (Flags.parse flags).mapError fun part =>
        Failure.within ("property " ++ name) (.of (.malformedFlag part))
      let inner ← element inner
      let key ← element key
      let value ← element value
      return {
        name, kind := type, flags, enum, struct, inner, key, value
        objectClass := parent? objectClass
        interface, metaClass }

def element : Option PropertyEntry → Attempt (Option Property)
  | none => .ok none
  | some e => do return some (← property e)

end

/-- The function exports that belong to a class by their outer object, or to any class. -/
def isMember (owner : String) (e : Export) : Bool :=
  isFunction e && (e.outer == "" || e.outer == owner)

def listed (d : Dump) (owner name : String) : Attempt Export :=
  match d.exports.reverse.find? fun e => isMember owner e && e.name == name with
  | some e => .ok e
  | none => inside ("function " ++ name) (fail .notFound)

/-- The function exports of a class: those it lists, or else all that lie in it. -/
def functionExports (d : Dump) (c : Export) : Attempt (List Export) :=
  match c.functions with
  | some names => names.mapM (d.listed c.name)
  | none => .ok (d.exports.filter fun e => isFunction e && e.outer == c.name)

def function (d : Dump) (owner : String) (e : Export) : Attempt Function :=
  inside ("function " ++ e.name) do
    let properties ← e.properties.mapM property
    let script ← e.script.mapM (statement d.document)
    return { name := e.name, owner, properties, script }

def classOf (d : Dump) (c : Export) : Attempt Class :=
  inside ("class " ++ c.name) do
    let properties ← c.properties.mapM property
    let exports ← d.functionExports c
    let functions ← exports.mapM (d.function c.name)
    return { name := c.name, properties, functions, hierarchy := d.hierarchy }

def select (d : Dump) (name : String) : Attempt Class :=
  match d.class? name with
  | some c => d.classOf c
  | none => fail .notFound

def decode (bytes : List UInt8) (name : String) : Attempt Class := do
  let d ← (parse bytes).mapError fun error => Failure.within "decode dump" (.of (.yaml error))
  d.select name

end ScriptListing.Dump
