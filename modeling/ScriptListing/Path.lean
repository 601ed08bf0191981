import ScriptListing.ObjectPath

/-! File paths as text, taken apart at slashes without looking at any file. -/
namespace ScriptListing.Path

def isRooted (path : List Char) : Bool := path.head? == some '/'

def elements (path : List Char) : List (List Char) := path.splitOnP (· == '/')

/-- One more element below a normal path, whose last element comes first. -/
def push (rooted : Bool) (stack : List (List Char)) (element : List Char) : List (List Char) :=
  if element = [] ∨ element = ['.'] then stack
  else if element = ['.', '.'] then
    match stack with
    | [] => if rooted then [] else [element]
    | top :: rest => if top = ['.', '.'] then element :: stack else rest
  else element :: stack

def normal (path : List Char) : List (List Char) :=
  ((elements path).foldl (push (isRooted path)) []).reverse

/-- The shortest path with the same meaning as text. -/
def clean (path : String) : String :=
  let chars := path.toList
  let body := ['/'].intercalate (normal chars)
  if isRooted chars then String.ofList ('/' :: body)
  else if body.isEmpty then "."
  else String.ofList body

def join (directory name : String) : String :=
  if directory = "" then (if name = "" then "" else clean name)
  else if name = "" then clean directory
  else clean (directory ++ "/" ++ name)

/-- Everything up to the last slash, in normal form. -/
def directory (path : String) : String :=
  clean (String.ofList (ObjectPath.lastElement path.toList).1)

/-- The last element; slashes at the end do not count. -/
def base (path : String) : String :=
  let chars := path.toList
  if chars.isEmpty then "."
  else
    let body := Text.dropEnd (· == '/') chars
    if body.isEmpty then "/" else String.ofList (ObjectPath.lastElement body).2

def ending (path : String) : String :=
  match ObjectPath.splitLast? '.' (ObjectPath.lastElement path.toList).2 with
  | some (_, after) => String.ofList ('.' :: after)
  | none => ""

end ScriptListing.Path
