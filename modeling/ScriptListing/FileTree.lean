import ScriptListing.Text.Characters
import ScriptListing.Text.Octet

/-! Files and directories by their place below the root. A path is walked element by
element, and each operation says why it fails as a file system does. -/
namespace ScriptListing

namespace FileTree

inductive Reason where
  | notExist
  | notDirectory
  | isDirectory
  | exists
  | nameTooLong
  | invalid
  deriving DecidableEq, Repr

def Reason.message : Reason → String
  | notExist => "no such file or directory"
  | notDirectory => "not a directory"
  | isDirectory => "is a directory"
  | .exists => "file exists"
  | nameTooLong => "file name too long"
  | invalid => "invalid argument"

structure Error where
  operation : String
  subject : String
  reason : Reason
  deriving DecidableEq, Repr

def Error.message (e : Error) : String :=
  e.operation ++ " " ++ e.subject ++ ": " ++ e.reason.message

inductive Entry where
  | directory
  | file (content : List UInt8)
  deriving DecidableEq, Repr, Inhabited

/-- The names from the root down. -/
abbrev Location := List String

end FileTree

/-- What stands at each place, and the directory that relative paths start from. -/
structure FileTree where
  entries : List (FileTree.Location × FileTree.Entry) := []
  here : FileTree.Location := []
  deriving Inhabited

namespace FileTree

def get? (t : FileTree) (place : Location) : Option Entry :=
  if place = [] then some .directory else t.entries.lookup place

def put (t : FileTree) (place : Location) (entry : Entry) : FileTree :=
  { t with entries := (place, entry) :: t.entries.filter (·.1 ≠ place) }

def erase (t : FileTree) (place : Location) : FileTree :=
  { t with entries := t.entries.filter (·.1 ≠ place) }

def eraseAll (t : FileTree) (place : Location) : FileTree :=
  { t with entries := t.entries.filter fun e => !place.isPrefixOf e.1 }

/-- The longest name of one element and of a whole path, in bytes. -/
def nameLimit : Nat := 255
def pathLimit : Nat := 4096

/-- The elements to walk; a slash at the end asks for a directory. -/
def steps (path : List Char) : List String :=
  ((path.splitOnP (· == '/')).filter (!·.isEmpty)).map String.ofList ++
    (if path.getLast? = some '/' then ["."] else [])

def enter (t : FileTree) (place : Location) (name : String) : Except Reason Location :=
  match t.get? place with
  | none => .error .notExist
  | some (.file _) => .error .notDirectory
  | some .directory =>
    if name = "." then .ok place
    else if name = ".." then .ok place.dropLast
    else if nameLimit < Text.byteSize name then .error .nameTooLong
    else .ok (place ++ [name])

/-- The place a path leads to; all but the last element must be there. -/
def walk (t : FileTree) (path : String) : Except Reason Location :=
  let chars := path.toList
  if chars.contains '\x00' then .error .invalid
  else if chars.isEmpty then .error .notExist
  else if pathLimit ≤ Text.byteSize path then .error .nameTooLong
  else (steps chars).foldlM t.enter (if chars.head? = some '/' then [] else t.here)

def find (t : FileTree) (path : String) : Except Reason (Location × Entry) := do
  let place ← t.walk path
  match t.get? place with
  | some entry => return (place, entry)
  | none => throw .notExist

def during {α : Type} (operation subject : String) (result : Except Reason α) : Except Error α :=
  result.mapError fun reason => ⟨operation, subject, reason⟩

def stat (t : FileTree) (path : String) : Except Error Entry :=
  during "stat" path ((t.find path).map Prod.snd)

def read (t : FileTree) (path : String) : Except Error (List UInt8) := do
  match ← during "open" path (t.find path) with
  | (_, .file content) => return content
  | (_, .directory) => throw ⟨"read", path, .isDirectory⟩

def unslashed (path : List Char) : List Char :=
  let body := Text.dropEnd (· == '/') path
  if body.isEmpty then path.take 1 else body

/-- A new directory at a place where nothing is. Slashes at the end of its path count
towards the length. -/
def makeDirectory (t : FileTree) (path : String) : Except Error FileTree :=
  during "mkdir" path do
    let place ← t.walk (if pathLimit ≤ Text.byteSize path then path
      else String.ofList (unslashed path.toList))
    match t.get? place with
    | some _ => throw .exists
    | none => return t.put place .directory

def isDirectory (t : FileTree) (path : String) : Bool :=
  match t.stat path with
  | .ok .directory => true
  | _ => false

def parent? (path : List Char) : Option (List Char) :=
  let above := ((path.reverse.dropWhile (· == '/')).dropWhile (· != '/')).reverse
  if above.length ≤ 1 then none else some above.dropLast

def ensureDirectory (t : FileTree) (path : String) : Except Error Unit × FileTree :=
  match t.makeDirectory path with
  | .ok made => (.ok (), made)
  | .error e => (if t.isDirectory path then .ok () else .error e, t)

/-- A directory with all that are missing above it, at most `fuel` of them. Those made
before a failure stay. -/
def makeDirectoriesUpTo : (fuel : Nat) → FileTree → List Char → Except Error Unit × FileTree
  | 0, t, path => (.error ⟨"mkdir", String.ofList path, .nameTooLong⟩, t)
  | fuel + 1, t, path =>
    let name := String.ofList path
    match t.stat name with
    | .ok .directory => (.ok (), t)
    | .ok (.file _) => (.error ⟨"mkdir", name, .notDirectory⟩, t)
    | .error _ =>
      let (above, t) := match parent? path with
        | some above => makeDirectoriesUpTo fuel t above
        | none => (.ok (), t)
      match above with
      | .error e => (.error e, t)
      | .ok () => t.ensureDirectory name

def makeDirectories (t : FileTree) (path : String) : Except Error Unit × FileTree :=
  makeDirectoriesUpTo (path.length + 1) t path.toList

def temporaryNumber (k : Nat) : String := toString (1000000000 + k)

def below (directory name : String) : String :=
  if directory.toList.getLast? = some '/' then directory ++ name else directory ++ "/" ++ name

def freeNumber (t : FileTree) (start : String) : Nat :=
  ((List.range (t.entries.length + 1)).find? fun k =>
    match t.find (start ++ temporaryNumber k) with
    | .ok _ => false
    | .error _ => true).getD (t.entries.length + 1)

def createTemporary (t : FileTree) (directory start : String) :
    Except Error (String × Location × FileTree) := do
  let stem := below directory start
  let path := stem ++ temporaryNumber (t.freeNumber stem)
  let place ← during "open" path (t.walk path)
  match t.get? place with
  | some _ => throw ⟨"open", path, .exists⟩
  | none => return (path, place, t.put place (.file []))

/-- Moves the entry at a place to a path that is no directory, over what is there. -/
def rename (t : FileTree) (old : String) (place : Location) (new : String) :
    Except Error FileTree :=
  during "rename" (old ++ " " ++ new) do
    let target ← t.walk new
    match t.get? place, t.get? target with
    | none, _ => throw .notExist
    | some _, some .directory => throw .exists
    | some entry, _ => return (t.erase place).put target entry

def filesBelow (t : FileTree) (place : Location) : List (String × List UInt8) :=
  t.entries.filterMap fun (at', entry) =>
    match entry with
    | .file content =>
      if place.isPrefixOf at' then some ("/".intercalate (at'.drop place.length), content) else none
    | .directory => none

end FileTree
end ScriptListing
