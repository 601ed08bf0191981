import ScriptListing.Archive
import ScriptListing.FileTree.Publish
import ScriptListing.Listing

/-! Many classes in one run. Each request is loaded, claims the file named for its class,
and is written there; a file belongs to the request that claims it first. Steps of
different requests may follow each other in any order, and a run may be canceled between
any two of them. -/
namespace ScriptListing.Batch

/-- Where classes come from. A loader keeps a state of its own and sees the files. -/
structure Loader (σ : Type) where
  load : σ → FileTree → (canceled : Bool) → String → Attempt Class × σ

def archiveLoader : Loader Archive := ⟨Archive.load⟩

def fixedLoader (classes : String → Attempt Class) : Loader Unit :=
  ⟨fun _ _ canceled name => (if canceled then fail .canceled else classes name, ())⟩

structure Setup (σ : Type) where
  loader : Loader σ
  table : Option SymbolTable
  /-- Where the files go. -/
  directory : String
  /-- What goes wrong in writing a path. -/
  hazards : String → FileTree.Hazards := fun _ => {}

structure Result where
  name : String := ""
  className : String := ""
  path : String := ""
  faults : List Fault := []
  failure : Option Failure := none
  /-- The request that had claimed the path. -/
  duplicateOf : Option String := none
  deriving Inhabited

inductive Phase where
  | load
  | claim (c : Class)
  | write (c : Class)
  | finished
  deriving Inhabited

structure Job where
  result : Result
  phase : Phase
  deriving Inhabited

structure State (σ : Type) where
  loader : σ
  tree : FileTree
  canceled : Bool := false
  /-- Names not started yet. -/
  pending : List String
  /-- Started requests in order. -/
  jobs : List Job := []
  /-- Paths with the request that claimed each. -/
  claims : List (String × String) := []
  log : List Log.Entry := []

inductive Event where
  | start
  | advance (i : Nat)
  | cancel
  deriving DecidableEq, Repr

/-- The entry a finished request leaves. A canceled one leaves none. -/
def closing (r : Result) : List Log.Entry :=
  match r.failure, r.duplicateOf with
  | some f, _ =>
    if f.isCanceled then []
    else [⟨.error, "class failed", [("name", .text r.name), ("error", .text f.message)]⟩]
  | none, some first =>
    [⟨.warn, "class already written by another request",
      [("name", .text r.name), ("path", .text r.path), ("first", .text first)]⟩]
  | none, none =>
    [⟨.info, "class written",
      [("name", .text r.name), ("path", .text r.path), ("faults", .count r.faults.length)]⟩]

def pathOf (directory : String) (c : Class) : String := Path.join directory (c.name ++ ".txt")

variable {σ : Type}

namespace State

def setJob (s : State σ) (i : Nat) (job : Job) : State σ := { s with jobs := s.jobs.set i job }

def finish (s : State σ) (i : Nat) (r : Result) (notes : List Log.Entry) : State σ :=
  { s.setJob i ⟨r, .finished⟩ with log := s.log ++ notes ++ closing r }

/-- A class of its own, or the failure to get one. A failure by cancellation stops the
start of others. -/
def load (setup : Setup σ) (s : State σ) (i : Nat) (r : Result) : State σ :=
  let (loaded, loader) := setup.loader.load s.loader s.tree s.canceled r.name
  let s := { s with loader }
  match loaded with
  | .error f =>
    { s.finish i { r with failure := some f } [] with canceled := s.canceled || f.isCanceled }
  | .ok c =>
    s.setJob i ⟨{ r with className := c.name, path := pathOf setup.directory c }, .claim c⟩

/-- The path goes to the first request that asks for it. -/
def claim (s : State σ) (i : Nat) (r : Result) (c : Class) : State σ :=
  match s.claims.lookup r.path with
  | some owner => s.finish i { r with duplicateOf := some owner } []
  | none => { s.setJob i ⟨r, .write c⟩ with claims := (r.path, r.name) :: s.claims }

def write (setup : Setup σ) (s : State σ) (i : Nat) (r : Result) (c : Class) : State σ :=
  match Listing.render setup.table {} c with
  | .error breakdown =>
    s.finish i { r with failure := some (.of (.lookup breakdown.message)) } []
  | .ok listing =>
    let published := s.tree.publish (setup.hazards r.path) r.path (Text.toBytes listing.text)
    let failure := match published.written with
      | .ok _ => none
      | .error e => some (Failure.within ("write " ++ c.name) (.of (.file e)))
    { s with tree := published.final }.finish i
      { r with faults := listing.faults, failure } listing.log

def advance (setup : Setup σ) (s : State σ) (i : Nat) (job : Job) : State σ :=
  match job.phase with
  | .load => s.load setup i job.result
  | .claim c => s.claim i job.result c
  | .write c => s.write setup i job.result c
  | .finished => s

/-- The next name started, unless the run is canceled. -/
def start (s : State σ) : State σ :=
  match s.pending with
  | name :: rest =>
    if s.canceled then s
    else { s with pending := rest, jobs := s.jobs ++ [⟨{ name }, .load⟩] }
  | [] => s

def step (setup : Setup σ) (s : State σ) : Event → State σ
  | .start => s.start
  | .advance i =>
    match s.jobs[i]? with
    | some job => s.advance setup i job
    | none => s
  | .cancel => { s with canceled := true }

def execute (setup : Setup σ) (s : State σ) (events : List Event) : State σ :=
  events.foldl (step setup) s

/-- The step is a load that never ends. -/
def isStuck (setup : Setup σ) (s : State σ) : Event → Bool
  | .advance i =>
    match s.jobs[i]? with
    | some ⟨r, .load⟩ =>
      match (setup.loader.load s.loader s.tree s.canceled r.name).1 with
      | .error f => f.isEndless
      | .ok _ => false
    | _ => false
  | _ => false

/-- The steps before the first that never ends, and whether there is one. -/
def lasting (setup : Setup σ) : State σ → List Event → List Event × Bool
  | _, [] => ([], false)
  | s, e :: rest =>
    if s.isStuck setup e then ([], true)
    else
      let (steps, stuck) := lasting setup (s.step setup e) rest
      (e :: steps, stuck)

/-- The results in request order, empty ones for names not started. -/
def results (s : State σ) : List Result :=
  s.jobs.map Job.result ++ s.pending.map fun _ => ({} : Result)

/-- Cancellation is what ends a run as a whole. -/
def failure? (s : State σ) : Option Failure :=
  if s.canceled then some (.of .canceled) else none

end State

/-- One request after the other; `cancelAt` is canceled once it has started. -/
def inOrder (cancelAt : Option String) : (i : Nat) → List String → List Event
  | _, [] => []
  | i, name :: rest =>
    .start :: (if cancelAt = some name then [.cancel] else []) ++
      [.advance i, .advance i, .advance i] ++ inOrder cancelAt (i + 1) rest

/-- What a run leaves: the files, the log, and the results unless the directory for them
cannot be used. -/
structure Outcome (σ : Type) where
  loader : σ
  tree : FileTree
  log : List Log.Entry
  results : Option (List Result)
  failure : Option Failure

/-- An empty name is the current directory. -/
def directoryOf (name : String) : String := if name = "" then "." else name

def run (setup : Setup σ) (loader : σ) (tree : FileTree) (names : List String)
    (events : List Event) : Outcome σ :=
  let directory := directoryOf setup.directory
  match tree.makeDirectories directory with
  | (.error e, tree) =>
    ⟨loader, tree, [], none, some (Failure.within "output directory" (.of (.file e)))⟩
  | (.ok (), tree) =>
    let s := State.execute { setup with directory } { loader, tree, pending := names } events
    ⟨s.loader, s.tree, s.log, some s.results, s.failure?⟩

def lasting (setup : Setup σ) (loader : σ) (tree : FileTree) (names : List String)
    (events : List Event) : List Event × Bool :=
  let directory := directoryOf setup.directory
  match tree.makeDirectories directory with
  | (.error _, _) => (events, false)
  | (.ok (), tree) =>
    State.lasting { setup with directory } { loader, tree, pending := names } events

def runArchive (setup : Setup Archive) (archive : Option Archive) (tree : FileTree)
    (names : List String) (events : List Event) : Outcome Archive :=
  match archive with
  | none => ⟨default, tree, [], none, some (.of .noOpenArchive)⟩
  | some a => run setup a tree names events

def failed (results : List Result) : Nat := (results.filter (·.failure.isSome)).length

def truncated (results : List Result) : Nat := (results.flatMap Result.faults).length

end ScriptListing.Batch
