import ScriptListing.Class
import ScriptListing.SymbolTable

/-! Type names of properties in listings. An object type shows the letter `A` for a
descendant of Actor and `U` for any other class; the letter is found by walking from
the class to a mapped ancestor and from there through the symbol table. -/
namespace ScriptListing.TypeName

def unresolved : String := "/* unresolved */"

/-- Both walks stop after this many classes. -/
def maxDepth : Nat := 256

/-- The name of the first class upward that the table knows, within `steps` classes and
none of them twice. -/
def mappedBase (table : SymbolTable) (h : Hierarchy) :
    (steps : Nat) → (seen : List String) → (key : String) → Except Breakdown (Option String)
  | 0, _, _ => return none
  | steps + 1, seen, key =>
    if seen.contains key then return none
    else do
      match ← table.lookup (h.nameOf key) with
      | some _ => return some (h.nameOf key)
      | none =>
        match h.super? key with
        | none => return none
        | some parent => mappedBase table h steps (key :: seen) parent

/-- Whether the table leads from `name` to a type called Actor, within `steps` names
and none of them twice. -/
def reachesActor (table : SymbolTable) :
    (steps : Nat) → (seen : List String) → String → Except Breakdown Bool
  | 0, _, _ => return false
  | steps + 1, seen, name =>
    if seen.contains name then return false
    else do
      match ← table.lookup name with
      | none => return false
      | some entry =>
        if entry.name = "Actor" then return true
        else reachesActor table steps (name :: seen) entry.super

/-- The letter before a class name: `A` for descendants of Actor, `U` otherwise and
wherever there is no table. -/
def letter (table : Option SymbolTable) (h : Hierarchy) (key : Option String) :
    Except Breakdown Char :=
  match table, key with
  | some table, some key => do
    match ← mappedBase table h maxDepth [] key with
    | none => return 'U'
    | some base => return if ← reachesActor table maxDepth [] base then 'A' else 'U'
  | _, _ => return 'U'

def bare (kind : String) : String := kind ++ unresolved

def object (table : Option SymbolTable) (h : Hierarchy) (kind : String) :
    (key : Option String) → Except Breakdown String
  | some key =>
    if h.nameOf key = "" then return bare kind
    else do
      let c ← letter table h (some key)
      return "class " ++ c.toString ++ h.nameOf key ++ "*"
  | none => return bare kind

def resolve (table : Option SymbolTable) (h : Hierarchy) : Property → Except Breakdown String
  | ⟨_, kind, _, enum, struct, inner, _, _, objectClass, interface, _⟩ =>
    match kind with
    | "BoolProperty" => return "bool"
    | "DoubleProperty" => return "double"
    | "FloatProperty" => return "float"
    | "IntProperty" => return "int32"
    | "NameProperty" => return "FName"
    | "StrProperty" => return "FString"
    | "TextProperty" => return "FText"
    | "ByteProperty" => return if enum = "" then "uint8" else "TEnumAsByte<" ++ enum ++ ">"
    | "EnumProperty" => return if enum = "" then bare kind else enum
    | "StructProperty" => return if struct = "" then bare kind else "struct F" ++ struct
    | "ArrayProperty" =>
      match inner with
      | none => return "TArray<" ++ unresolved ++ ">"
      | some element => do
        let name ← resolve table h element
        return "TArray<" ++ name ++ ">"
    | "ClassProperty" => return "class UClass*"
    | "InterfaceProperty" =>
      return if interface = "" then bare kind else "class I" ++ interface ++ "*"
    | "ObjectProperty" => object table h kind objectClass
    | _ => return bare kind

def resolve? (table : Option SymbolTable) (h : Hierarchy) :
    Option Property → Except Breakdown String
  | none => return unresolved
  | some p => resolve table h p

end ScriptListing.TypeName
