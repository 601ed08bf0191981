import ScriptListing.Archive
import ScriptListing.Proofs.Outcome

/-! An archive over a whole run of loads, while the files below it change. A package is what
its first successful read found, at the moment of that read; a load that gets no content
leaves no trace, so the next one looks at the files again. -/
namespace ScriptListing.Archive

inductive Event where
  | change (tree : FileTree)
  | load (canceled : Bool) (name : String)

structure World where
  archive : Archive
  tree : FileTree

def World.step (s : World) : Event → World
  | .change tree => { s with tree }
  | .load canceled name => { s with archive := (s.archive.load s.tree canceled name).2 }

def World.run (s : World) (events : List Event) : World := events.foldl step s

/-- The package that an event asks for: the one of a load with a proper name, unless it is
canceled. -/
def Event.package? : Event → Option String
  | .load false name => (ObjectPath.split name).toOption.map ObjectPath.package
  | _ => none

/-- The files at each moment when a package was asked for, from `tree` on. -/
def moments (package : String) : FileTree → List Event → List FileTree
  | _, [] => []
  | _, .change tree :: rest => moments package tree rest
  | tree, .load canceled name :: rest =>
    if (Event.load canceled name).package? = some package then tree :: moments package tree rest
    else moments package tree rest

def readNow (a : Archive) (package : String) (t : FileTree) : Attempt (List UInt8) :=
  search t a.key (candidates a.root package)

/-- The content that the first read among some to succeed finds. -/
def firstRead (a : Archive) (package : String) (trees : List FileTree) : Option (List UInt8) :=
  trees.findSome? fun t => (a.readNow package t).toOption

theorem firstRead_cons (a : Archive) (package : String) (t : FileTree) (trees : List FileTree) :
    a.firstRead package (t :: trees) =
      (a.readNow package t).toOption.or (a.firstRead package trees) := by
  unfold firstRead
  rw [List.findSome?_cons]
  cases (a.readNow package t).toOption <;> rfl

theorem firstRead_append (a : Archive) (package : String) (trees later : List FileTree) :
    a.firstRead package (trees ++ later) =
      (a.firstRead package trees).or (a.firstRead package later) := by
  simp [firstRead, List.findSome?_append]

theorem package_eq (a : Archive) (t : FileTree) (package : String) :
    a.package t package = match a.packages.lookup package with
      | some bytes => .ok bytes
      | none => a.readNow package t := rfl

theorem toOption_package (a : Archive) (t : FileTree) (package : String) :
    (a.package t package).toOption =
      (a.packages.lookup package).or (a.readNow package t).toOption := by
  rw [package_eq]
  cases a.packages.lookup package <;> rfl

theorem lookup_keep (a : Archive) (name other : String) (bytes : List UInt8) :
    (a.keep name bytes).packages.lookup other =
      if other = name then (a.packages.lookup name).or (some bytes)
      else a.packages.lookup other := by
  unfold keep
  by_cases same : other = name
  · subst same
    cases kept : a.packages.lookup other <;> simp [kept]
  · have differs : (other == name) = false := by simpa using same
    cases kept : a.packages.lookup name <;> simp [same, List.lookup_cons, differs]

theorem keep_root (a : Archive) (name : String) (bytes : List UInt8) :
    (a.keep name bytes).root = a.root ∧ (a.keep name bytes).key = a.key := by
  unfold keep
  cases a.packages.lookup name <;> exact ⟨rfl, rfl⟩

/-- A load that is not canceled and has a proper name gets the content of its package. -/
theorem load_proper (a : Archive) (t : FileTree) {name : String} {object : ObjectPath}
    (asked : ObjectPath.split name = .ok object) :
    a.load t false name = match a.package t object.package with
      | .error f => (.error (f.within name), a)
      | .ok bytes => (inside name ((Dump.decode bytes object.exportName).map
          fun c => { c with path := name }), a.keep object.package bytes) := by
  unfold load
  simp only [asked]
  rfl

theorem package?_proper {name : String} {object : ObjectPath}
    (asked : ObjectPath.split name = .ok object) :
    (Event.load false name).package? = some object.package := by
  simp [Event.package?, asked, Except.toOption]

/-- A load that asks for no package fails and leaves the archive as it is. -/
theorem load_without_package (a : Archive) (t : FileTree) {canceled : Bool} {name : String}
    (none : (Event.load canceled name).package? = none) : (a.load t canceled name).2 = a := by
  cases canceled with
  | true => rfl
  | false =>
    cases asked : ObjectPath.split name with
    | error f => simp [load, asked]
    | ok object =>
      rw [package?_proper asked] at none
      cases none

theorem exists_proper {canceled : Bool} {name package : String}
    (asks : (Event.load canceled name).package? = some package) :
    canceled = false ∧ ∃ object, ObjectPath.split name = .ok object ∧ object.package = package := by
  cases canceled with
  | true => cases asks
  | false =>
    cases asked : ObjectPath.split name with
    | error f => simp [Event.package?, asked, Except.toOption] at asks
    | ok object =>
      rw [package?_proper asked] at asks
      exact ⟨rfl, object, rfl, Option.some.inj asks⟩

/-- A load changes what is kept of the package it asks for, and only if nothing was. -/
theorem lookup_load (a : Archive) (t : FileTree) (canceled : Bool) (name package : String) :
    (a.load t canceled name).2.packages.lookup package =
      if (Event.load canceled name).package? = some package then
        (a.packages.lookup package).or (a.readNow package t).toOption
      else a.packages.lookup package := by
  cases asks : (Event.load canceled name).package? with
  | none => simp [load_without_package a t asks]
  | some other =>
    obtain ⟨rfl, object, asked, rfl⟩ := exists_proper asks
    rw [load_proper a t asked, package_eq]
    by_cases same : object.package = package
    · subst same
      cases kept : a.packages.lookup object.package with
      | some bytes => simp [lookup_keep, kept]
      | none =>
        cases found : a.readNow object.package t <;> simp [lookup_keep, kept, Except.toOption]
    · have other : ¬ package = object.package := Ne.symm same
      cases kept : a.packages.lookup object.package with
      | some bytes => simp [lookup_keep, same, other]
      | none => cases found : a.readNow object.package t <;> simp [lookup_keep, same, other]

theorem load_settings (a : Archive) (t : FileTree) (canceled : Bool) (name : String) :
    (a.load t canceled name).2.root = a.root ∧ (a.load t canceled name).2.key = a.key := by
  cases asks : (Event.load canceled name).package? with
  | none => simp [load_without_package a t asks]
  | some other =>
    obtain ⟨rfl, object, asked, rfl⟩ := exists_proper asks
    rw [load_proper a t asked]
    cases a.package t object.package with
    | error f => exact ⟨rfl, rfl⟩
    | ok bytes => exact keep_root a object.package bytes

theorem readNow_congr {a b : Archive} (settings : a.root = b.root ∧ a.key = b.key) :
    a.readNow = b.readNow := by
  funext package t
  simp only [readNow, settings.1, settings.2]

theorem run_settings (s : World) (events : List Event) :
    (s.run events).archive.root = s.archive.root ∧ (s.run events).archive.key = s.archive.key := by
  induction events generalizing s with
  | nil => exact ⟨rfl, rfl⟩
  | cons event rest ih =>
    obtain ⟨root, key⟩ := ih (s.step event)
    cases event with
    | change tree => exact ⟨root, key⟩
    | load canceled name =>
      obtain ⟨root', key'⟩ := load_settings s.archive s.tree canceled name
      exact ⟨root.trans root', key.trans key'⟩

/-- After any run a package is kept as it was at the start, or else as the first read to
succeed found it. -/
theorem lookup_run (s : World) (events : List Event) (package : String) :
    (s.run events).archive.packages.lookup package =
      (s.archive.packages.lookup package).or
        (s.archive.firstRead package (moments package s.tree events)) := by
  induction events generalizing s with
  | nil => simp [World.run, moments, firstRead]
  | cons event rest ih =>
    have rest' := ih (s.step event)
    cases event with
    | change tree => exact rest'
    | load canceled name =>
      have same : (s.archive.load s.tree canceled name).2.firstRead = s.archive.firstRead := by
        unfold firstRead
        rw [readNow_congr (load_settings s.archive s.tree canceled name)]
      have kept := lookup_load s.archive s.tree canceled name package
      change (s.run (.load canceled name :: rest)).archive.packages.lookup package =
        ((s.archive.load s.tree canceled name).2.packages.lookup package).or
          ((s.archive.load s.tree canceled name).2.firstRead package
            (moments package s.tree rest)) at rest'
      rw [rest', kept, same]
      by_cases asks : (Event.load canceled name).package? = some package
      · simp only [moments, asks, if_true, firstRead_cons, Option.or_assoc]
      · simp only [moments, asks, if_false]

def Candidate.IsMissing (t : FileTree) (c : Candidate) : Prop :=
  ∃ e, t.read c.path = .error e ∧ e.reason = .notExist

/-- The outcome of a search for a package: the content of the first file that is there,
decrypted if it is encrypted; the failure to read that file or to decrypt it; or that no file
is there. -/
def Resolves (t : FileTree) (key : List UInt8) (cs : List Candidate)
    (outcome : Attempt (List UInt8)) : Prop :=
  ((∀ c ∈ cs, c.IsMissing t) ∧ outcome = fail .notFound) ∨
  ∃ before c after, cs = before ++ c :: after ∧ (∀ b ∈ before, b.IsMissing t) ∧
    ((∃ bytes, t.read c.path = .ok bytes ∧ c.encrypted = false ∧ outcome = .ok bytes) ∨
    (∃ bytes, t.read c.path = .ok bytes ∧ c.encrypted = true ∧
      outcome = inside c.path (Cipher.decrypt key bytes)) ∨
    ∃ e, t.read c.path = .error e ∧ e.reason ≠ .notExist ∧ outcome = fail (.file e))

theorem search_resolves (t : FileTree) (key : List UInt8) (cs : List Candidate) :
    Resolves t key cs (search t key cs) := by
  induction cs with
  | nil => exact .inl ⟨by simp, rfl⟩
  | cons c rest ih =>
    unfold search
    cases found : t.read c.path with
    | ok bytes =>
      refine .inr ⟨[], c, rest, rfl, by simp, ?_⟩
      cases secret : c.encrypted with
      | false => exact .inl ⟨bytes, found, rfl, by simp [content, secret]⟩
      | true => exact .inr (.inl ⟨bytes, found, rfl, by simp [content, secret]⟩)
    | error e =>
      by_cases absent : e.reason = .notExist
      · have missing : c.IsMissing t := ⟨e, found, absent⟩
        simp only [absent, if_true]
        rcases ih with ⟨all, outcome⟩ | ⟨before, d, after, split, earlier, outcome⟩
        · exact .inl ⟨by simpa using ⟨missing, all⟩, outcome⟩
        · refine .inr ⟨c :: before, d, after, by rw [split, List.cons_append], ?_, outcome⟩
          simpa using ⟨missing, earlier⟩
      · simp only [absent, if_false]
        exact .inr ⟨[], c, rest, rfl, by simp, .inr (.inr ⟨e, found, absent, rfl⟩)⟩

/-- A class of an archive as it is answered: decoded from content, under the name it was asked
for. -/
def answer (name : String) (object : ObjectPath) (bytes : List UInt8) : Attempt Class :=
  inside name ((Dump.decode bytes object.exportName).map fun c => { c with path := name })

/-- What a load of a proper name gives and leaves, after reads of its package from `reads`, the
last of them its own. -/
structure Serves (a : Archive) (reads : List FileTree) (s : World) (name : String)
    (object : ObjectPath) (r : Attempt Class × Archive) : Prop where
  /-- The first read to succeed decides, and its content stays, decoded or not. -/
  found : ∀ bytes, a.firstRead object.package reads = some bytes →
    r.1 = answer name object bytes ∧ r.2.packages.lookup object.package = some bytes
  /-- Where none succeeded the failure is that of the present read, and nothing changes. -/
  failed : a.firstRead object.package reads = none →
    ∃ f, a.readNow object.package s.tree = .error f ∧ r = (.error (f.within name), s.archive)
  others : ∀ other ≠ object.package,
    r.2.packages.lookup other = s.archive.packages.lookup other

theorem load_serves (a : Archive) (empty : a.packages = []) (t : FileTree)
    (history : List Event) {name : String} {object : ObjectPath}
    (asked : ObjectPath.split name = .ok object) :
    Serves a (moments object.package t history ++ [(World.run ⟨a, t⟩ history).tree])
      (World.run ⟨a, t⟩ history) name object
      ((World.run ⟨a, t⟩ history).archive.load (World.run ⟨a, t⟩ history).tree false name) := by
  have kept := lookup_run ⟨a, t⟩ history object.package
  have same := readNow_congr (run_settings ⟨a, t⟩ history)
  generalize World.run ⟨a, t⟩ history = s at kept same ⊢
  -- What the archive holds or reads now is what the first successful read found.
  have first : a.firstRead object.package (moments object.package t history ++ [s.tree]) =
      (s.archive.package s.tree object.package).toOption := by
    rw [toOption_package, kept, same, firstRead_append]
    simp [empty, firstRead]
  have whole := load_proper s.archive s.tree asked
  have stays := lookup_load s.archive s.tree false name
  rw [package?_proper asked] at stays
  constructor
  · intro bytes found
    rw [first] at found
    constructor
    · cases content : s.archive.package s.tree object.package with
      | error f => simp [content, Except.toOption] at found
      | ok bytes' =>
        rw [content] at found whole
        obtain rfl := Option.some.inj found
        rw [whole]
        rfl
    · rw [stays object.package, if_pos rfl, ← toOption_package, found]
  · intro none
    rw [first] at none
    cases content : s.archive.package s.tree object.package with
    | ok bytes => simp [content, Except.toOption] at none
    | error f =>
      refine ⟨f, ?_, by rw [whole, content]⟩
      rw [package_eq] at content
      split at content
      · cases content
      · rwa [same] at content
  · intro other differs
    rw [stays other, if_neg]
    intro equal
    exact differs (Option.some.inj equal).symm

/-- An archive over whole runs. After any history of loads and changes to the files, a load
answers from the content that the first successful read of its package found, its own read
included, and keeps it; while no read has succeeded it fails as its own read does. A read goes
through the files of the package in their order. A load that gets no content, because it is
canceled, has no proper name or fails to read, leaves the archive as it was. -/
theorem loads_answer_from_first_read (root : String) (key : List UInt8) (t : FileTree)
    (history : List Event) (name : String) :
    let a : Archive := { root, key }
    let s := World.run ⟨a, t⟩ history
    s.archive.load s.tree true name = (fail .canceled, s.archive) ∧
    (∀ f, ObjectPath.split name = .error f →
      s.archive.load s.tree false name = (.error f, s.archive)) ∧
    (∀ object, ObjectPath.split name = .ok object →
      Serves a (moments object.package t history ++ [s.tree]) s name object
        (s.archive.load s.tree false name)) ∧
    ∀ package tree, Resolves tree key [
      ⟨Path.join root package ++ ".json", false⟩, ⟨Path.join root package ++ ".json" ++ ".aes", true⟩,
      ⟨Path.join root package ++ ".yaml", false⟩, ⟨Path.join root package ++ ".yaml" ++ ".aes", true⟩,
      ⟨Path.join root package ++ ".yml", false⟩, ⟨Path.join root package ++ ".yml" ++ ".aes", true⟩]
      (a.readNow package tree) := by
  refine ⟨rfl, ?_, ?_, ?_⟩
  · intro f improper
    simp [load, improper]
  · intro object asked
    exact load_serves { root, key } rfl t history asked
  · intro package tree
    exact search_resolves tree key (candidates root package)

def withLast : FileTree where
  entries := [(["dumps"], .directory), (["dumps", "Door.yml"], .file [91])]

def withBoth : FileTree := withLast.put ["dumps", "Door.json"] (.file [123])

/-- Loads around the files as they come in: one too early, one that is canceled, and one for a
class that is not there, which all the same keeps what it read. -/
def arriving : List Event := [
  .load false "Door.Door_C", .change withLast, .load true "Door.Door_C", .load false "Door.Key_C",
  .change withBoth]

theorem loads_answer_from_first_read_arriving :
    let s := World.run ⟨{ root := "dumps", key := [] }, {}⟩ arriving
    (s.archive.load s.tree false "Door.Door_C").1 =
      answer "Door.Door_C" ⟨"Door", "Door_C"⟩ [91] ∧
    s.archive.readNow "Door" s.tree = .ok [123] := by
  obtain ⟨_, _, serves, _⟩ :=
    loads_answer_from_first_read "dumps" [] {} arriving "Door.Door_C"
  have served := serves ⟨"Door", "Door_C"⟩ (by decide +kernel)
  constructor
  · exact (served.found [91] (by decide +kernel)).1
  · rw [readNow_congr (run_settings _ arriving)]
    decide +kernel

end ScriptListing.Archive
