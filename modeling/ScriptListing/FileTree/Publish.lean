import ScriptListing.FileTree
import ScriptListing.Path

/-! A file published whole: its content goes to a temporary file beside it, which is
renamed when it is complete. Each step may meet a hazard. -/
namespace ScriptListing.FileTree

/-- What goes wrong, and how many bytes reach the file before writing does. -/
structure Hazards where
  create : Option Reason := none
  write : Option (Nat × Reason) := none
  close : Option Reason := none
  rename : Option Reason := none

/-- The trees before the first and after each step, and the bytes written at the end. -/
structure Publication where
  start : FileTree
  trees : List FileTree
  written : Except Error Nat

def Publication.final (p : Publication) : FileTree := p.trees.getLastD p.start

def hazard (operation subject : String) : Option Reason → Except Error Unit
  | none => .ok ()
  | some reason => .error ⟨operation, subject, reason⟩

def Hazards.kept (h : Hazards) (content : List UInt8) : List UInt8 :=
  match h.write with
  | some (count, _) => content.take count
  | none => content

def Hazards.filling (h : Hazards) (path : String) : Except Error Unit := do
  hazard "write" path (h.write.map Prod.snd)
  hazard "close" path h.close

def replace (h : Hazards) (t : FileTree) (temporary : String) (place : Location)
    (path : String) : Except Error FileTree := do
  hazard "rename" (temporary ++ " " ++ path) h.rename
  t.rename temporary place path

/-- Publishes `content` at `path`. After a failure the temporary file is gone. -/
def publish (h : Hazards) (t : FileTree) (path : String) (content : List UInt8) : Publication :=
  let created : Except Error (String × Location × FileTree) := do
    let file ← t.createTemporary (Path.directory path) ("." ++ Path.base path ++ ".")
    hazard "open" file.1 h.create
    return file
  match created with
  | .error e => ⟨t, [], .error e⟩
  | .ok (temporary, place, empty) =>
    let filled := empty.put place (.file (h.kept content))
    match h.filling temporary with
    | .error e => ⟨t, [empty, filled, filled.erase place], .error e⟩
    | .ok () =>
      match replace h filled temporary place path with
      | .error e => ⟨t, [empty, filled, filled.erase place], .error e⟩
      | .ok done => ⟨t, [empty, filled, done], .ok content.length⟩

end ScriptListing.FileTree
