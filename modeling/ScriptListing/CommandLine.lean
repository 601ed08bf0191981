import ScriptListing.Batch
import ScriptListing.CommandLine.Flag
import ScriptListing.Settings.File
import ScriptListing.SymbolTable.Mappings

/-! The program as a command: arguments and files to an exit code, lines on the error
output and files. -/
namespace ScriptListing.CommandLine

inductive Exit where
  | ok
  | failed
  /-- The process dies of a stack overflow. -/
  | overflow
  | usage
  | software
  deriving DecidableEq, Repr

def Exit.code : Exit → Nat
  | ok => 0
  | failed => 1
  | overflow => 2
  | usage => 64
  | software => 70

inductive Line where
  | plain (text : String)
  | entry (e : Log.Entry)
  deriving DecidableEq, Repr

structure Outcome where
  exit : Exit
  lines : List Line
  tree : FileTree

def plainLines (text : String) : List Line :=
  (text.toList.splitOnP (· == '\n')).map fun line => .plain (String.ofList line)

/-- The settings of a request: the standard ones, those of its file, its own. -/
def settingsOf (processors : Nat) (t : FileTree) (r : Request) : Attempt Settings := do
  let standard := Settings.standard processors
  if r.file = "" then return standard.merge r.settings
  let file ← Settings.load t r.file
  return (standard.merge file).merge r.settings

def failureEntry (message : String) (f : Failure) : Log.Entry :=
  ⟨.error, message, [("error", .text f.message)]⟩

/-- The symbol table that settings name and what is said about it. A file that is not
there is no failure. -/
def tableOf (t : FileTree) (s : Settings) : Attempt (Option TypeMap × List Log.Entry) :=
  if s.mappings = "" then .ok (none, [])
  else match TypeMap.load t s.mappings with
    | .ok m =>
      .ok (some m, [⟨.debug, "symbol mappings loaded",
        [("path", .text s.mappings), ("types", .count m.size)]⟩])
    | .error f =>
      if f.isNotExist then
        .ok (none, [⟨.warn, "symbol mappings not found, object types default to U",
          [("path", .text s.mappings)]⟩])
      else .error f

def concluded (o : Batch.Outcome Archive) : Exit × Log.Entry :=
  match o.failure, o.results with
  | some f, none => (.software, failureEntry "run aborted" f)
  | some f, some _ => (.failed, failureEntry "run aborted" f)
  | none, results =>
    let results := results.getD []
    let failed := Batch.failed results
    (if 0 < failed then .failed else .ok,
      ⟨.info, "done", [("classes", .count results.length), ("failed", .count failed),
        ("truncated", .count (Batch.truncated results))]⟩)

def setupOf (s : Settings) (table : Option TypeMap) : Batch.Setup Archive where
  loader := Batch.archiveLoader
  table := table.map TypeMap.toTable
  directory := s.output

/-- The steps of a run over some objects, in whatever order they come. -/
abbrev Schedule := List String → List Batch.Event

/-- One object after the other; a canceled run is canceled before it starts. -/
def inRequestOrder (canceled : Bool) : Schedule := fun objects =>
  (if canceled then [.cancel] else []) ++ Batch.inOrder none 0 objects

/-- A run over the objects of settings. A load that never ends is the last thing it does. -/
def runObjects (t : FileTree) (schedule : Schedule) (s : Settings) (table : Option TypeMap)
    (archive : Archive) : Exit × List Log.Entry × FileTree :=
  let (steps, stuck) := Batch.lasting (setupOf s table) archive t s.objects (schedule s.objects)
  let o := Batch.run (setupOf s table) archive t s.objects steps
  if stuck then (.overflow, o.log, o.tree)
  else
    let (exit, last) := concluded o
    (exit, o.log ++ [last], o.tree)

/-- What settings ask for, step by step up to the first that cannot be taken. -/
def perform (t : FileTree) (schedule : Schedule) (s : Settings) :
    Exit × List Log.Entry × FileTree :=
  match s.validate with
  | .error f => (.usage, [failureEntry "invalid configuration" f], t)
  | .ok key =>
    match tableOf t s with
    | .error f => (.usage, [failureEntry "symbol mappings" f], t)
    | .ok (table, notes) =>
      match Archive.openAt t s.archive key with
      | .error f => (.usage, notes ++ [failureEntry "archive" f], t)
      | .ok archive =>
        if s.objects.isEmpty then (.ok, notes ++ [⟨.warn, "no objects requested", []⟩], t)
        else
          let (exit, log, tree) := runObjects t schedule s table archive
          (exit, notes ++ log, tree)

def isShown (verbose : Bool) (e : Log.Entry) : Bool := verbose || e.level ≠ .debug

def runAlong (schedule : Schedule) (processors : Nat) (t : FileTree) (arguments : List String) :
    Outcome :=
  match parse arguments with
  | .error .help => ⟨.ok, usage.map .plain, t⟩
  | .error (.wrong message) => ⟨.usage, plainLines message ++ usage.map .plain, t⟩
  | .ok request =>
    match settingsOf processors t request with
    | .error f => ⟨.usage, plainLines f.message, t⟩
    | .ok s =>
      let (exit, log, tree) := perform t schedule s
      ⟨exit, (log.filter (isShown s.verbose)).map .entry, tree⟩

def run (processors : Nat) (t : FileTree) (canceled : Bool) (arguments : List String) : Outcome :=
  runAlong (inRequestOrder canceled) processors t arguments

end ScriptListing.CommandLine
