import ScriptListing.CommandLine

/-! The files a command looks at. A tree that holds what stands at these places answers
the command as the whole file system would. -/
namespace ScriptListing.CommandLine

/-- The place of a path, by its text alone. -/
def placeOf (here : FileTree.Location) (path : String) : FileTree.Location :=
  let chars := path.toList
  let above := if Path.isRooted chars then [] else here.map String.toList
  ((above ++ Path.elements chars).foldl (Path.push true) []).reverse.map String.ofList

def placesTo (place : FileTree.Location) : List FileTree.Location :=
  (List.range (place.length + 1)).map place.take

/-- The files of an object in the archive, and its listing. -/
def objectPaths (s : Settings) (name : String) : List String :=
  match ObjectPath.split name with
  | .error _ => []
  | .ok object =>
    (Archive.candidates s.archive object.package).map Archive.Candidate.path ++
      [Path.join (Batch.directoryOf s.output) (object.exportName ++ ".txt")]

def paths (s : Settings) : List String :=
  [s.mappings, s.archive, Batch.directoryOf s.output] ++ s.objects.flatMap (objectPaths s)

def changes (before after : FileTree) : List (FileTree.Location × FileTree.Entry) :=
  let changed := after.entries.filter fun (place, entry) => before.get? place ≠ some entry
  changed.filter (·.2 = .directory) ++ changed.filter (·.2 ≠ .directory)

/-- A line as it is printed: pairs on a terminal, objects elsewhere. -/
def Line.text (terminal : Bool) : Line → String
  | .plain text => text
  | .entry e => if terminal then e.pairs else e.object

end ScriptListing.CommandLine

/-! The command itself: it looks at the files, runs on what it saw, and makes the
changes. -/
namespace ScriptListing.Main

open CommandLine

def absolute (place : FileTree.Location) : String := "/" ++ "/".intercalate place

/-- What stands at a place now. Reading a directory fails with a code of its own. -/
def probe (place : FileTree.Location) : IO (Option FileTree.Entry) := do
  try
    let content ← IO.FS.readBinFile (absolute place)
    return some (.file content.toList)
  catch
    | .inappropriateType _ 21 _ => return some .directory
    | _ => return none

def observe (t : FileTree) (path : String) : IO FileTree := do
  let mut t := t
  for place in placesTo (placeOf t.here path) do
    if (t.get? place).isNone then
      if let some entry ← probe place then t := t.put place entry
  return t

def observeAll (t : FileTree) (arguments : List String) : IO FileTree := do
  match parse arguments with
  | .error _ => return t
  | .ok request =>
    let t ← if request.file = "" then pure t else observe t request.file
    match settingsOf 1 t request with
    | .error _ => return t
    | .ok s => (paths s).foldlM observe t

/-- Makes one change; a file takes its place when it is complete. -/
def apply (change : FileTree.Location × FileTree.Entry) : IO Unit := do
  let path := absolute change.1
  match change.2 with
  | .directory => IO.FS.createDirAll path
  | .file content =>
    let temporary := path ++ ".new"
    IO.FS.writeBinFile temporary (ByteArray.mk content.toArray)
    IO.FS.rename temporary path

end ScriptListing.Main

open ScriptListing in
def main (arguments : List String) : IO UInt32 := do
  let here := CommandLine.placeOf [] (← IO.currentDir).toString
  let before ← Main.observeAll { here } arguments
  let outcome := CommandLine.run 1 before false arguments
  (CommandLine.changes before outcome.tree).forM Main.apply
  let stderr ← IO.getStderr
  let terminal ← stderr.isTty
  outcome.lines.forM fun line =>
    stderr.write (ByteArray.mk (Text.toBytes (line.text terminal ++ "\n")).toArray)
  return outcome.exit.code.toUInt32
