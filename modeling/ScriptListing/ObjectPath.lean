import ScriptListing.Failure
import ScriptListing.Text.Characters
import ScriptListing.Text.Octet

/-! Object paths: a package inside an archive and an export of that package. Without
a dot in its last element a path names the export after the package. -/
namespace ScriptListing

structure ObjectPath where
  package : String
  exportName : String
  deriving DecidableEq, Repr

namespace ObjectPath

def splitLast? (mark : Char) : List Char → Option (List Char × List Char)
  | [] => none
  | c :: rest =>
    match splitLast? mark rest with
    | some (left, right) => some (c :: left, right)
    | none => if c = mark then some ([], rest) else none

def isPlain (element : List Char) : Bool :=
  !element.isEmpty && element != ['.'] && element != ['.', '.']

/-- A single dot, or plain elements with single slashes between them, all of
characters. -/
def isValid (path : List Char) : Bool :=
  Text.isWellFormed (String.ofList path) &&
    (path == ['.'] || (path.splitOnP (· == '/')).all isPlain)

def lastElement (name : List Char) : List Char × List Char :=
  match splitLast? '/' name with
  | some (directory, element) => (directory ++ ['/'], element)
  | none => ([], name)

/-- Package and export of a name; the export follows the last dot of the last element. -/
def parts (name : List Char) : List Char × List Char :=
  let (directory, element) := lastElement name
  match splitLast? '.' element with
  | some (asset, exported) => (directory ++ asset, exported)
  | none => (name, element)

/-- The name without blanks around it and without one leading slash. -/
def normalize (source : List Char) : List Char :=
  let name := Text.trimBlanks source
  (Text.after? ['/'] name).getD name

def split (source : String) : Attempt ObjectPath :=
  let name := normalize source.toList
  if name.isEmpty then fail .emptyObjectName
  else
    let (package, exported) := parts name
    if package.isEmpty || exported.isEmpty || !isValid package then
      fail (.invalidObjectName (String.ofList name))
    else .ok ⟨String.ofList package, String.ofList exported⟩

end ObjectPath
end ScriptListing
