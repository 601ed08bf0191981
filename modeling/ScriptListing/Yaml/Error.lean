import ScriptListing.Text.Octet

/-! What can go wrong between a text and the values it should hold: the text is no
document, or its nodes do not have the shape a value asks for. The second kind is
collected over a whole value before it is reported. -/
namespace ScriptListing.Yaml

inductive Mismatch where
  | wrongType (line : Nat) (tag value target : String)
  | repeatedKey (line : Nat) (key : String) (firstLine : Nat)
  | repeatedField (line : Nat) (field target : String)
  | unknownField (line : Nat) (field target : String)
  deriving DecidableEq, Repr

/-- A value as a report shows it, at most ten bytes long. Under the tag of a collection
there is nothing to set apart. -/
def shownValue (tag value : String) : String :=
  if tag = "!!seq" || tag = "!!map" then value
  else if 10 < Text.byteSize value then
    " `" ++ Text.ofBytes ((Text.toBytes value).take 7) ++ "...`"
  else " `" ++ value ++ "`"

namespace Mismatch

def message : Mismatch → String
  | wrongType line tag value target =>
    "line " ++ toString line ++ ": cannot unmarshal " ++ tag ++ shownValue tag value ++
      " into " ++ target
  | repeatedKey line key firstLine =>
    "line " ++ toString line ++ ": mapping key " ++ Text.quoted key ++
      " already defined at line " ++ toString firstLine
  | repeatedField line field target =>
    "line " ++ toString line ++ ": field " ++ field ++ " already set in type " ++ target
  | unknownField line field target =>
    "line " ++ toString line ++ ": field " ++ field ++ " not found in type " ++ target

end Mismatch

inductive Error where
  | malformed (description : String)
  | mismatches (list : List Mismatch)
  deriving DecidableEq, Repr

def Error.message : Error → String
  | malformed description => "yaml: " ++ description
  | mismatches list =>
    "yaml: unmarshal errors:" ++ String.join (list.map fun m => "\n  " ++ m.message)

end ScriptListing.Yaml
