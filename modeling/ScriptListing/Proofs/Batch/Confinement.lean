import ScriptListing.Proofs.Batch.Ledger
import ScriptListing.Proofs.Dump.Soundness
import ScriptListing.Proofs.FileTree.Directories
import ScriptListing.Proofs.ObjectPath

/-! Where a run over an archive leaves its marks. Whatever names are asked for and whatever the
dumps hold, it touches files in its directory only, at every moment. -/
namespace ScriptListing.Archive

/-- Whatever a package holds, a class has the name of the export that was asked for. -/
theorem load_named {a : Archive} {t : FileTree} {canceled : Bool} {name : String} {c : Class}
    (read : (a.load t canceled name).1 = .ok c) :
    ∃ object, ObjectPath.split name = .ok object ∧ c.name = object.exportName := by
  unfold load at read
  split at read
  · cases read
  split at read
  · cases read
  next object asked =>
  refine ⟨object, asked, ?_⟩
  split at read
  · cases read
  next bytes found =>
  obtain ⟨c', decoded, equal⟩ := Outcome.bind_eq_ok.mp (Outcome.mapError_eq_ok.mp read)
  cases equal
  obtain ⟨d, _, selected⟩ := Outcome.bind_eq_ok.mp decoded
  exact (Dump.select_holds selected).named

/-- No class of an archive has a slash in its name. -/
theorem load_plain {a : Archive} {t : FileTree} {canceled : Bool} {name : String} {c : Class}
    (read : (a.load t canceled name).1 = .ok c) : '/' ∉ c.name.toList := by
  obtain ⟨object, asked, named⟩ := load_named read
  rw [named]
  exact ObjectPath.slash_notMem_exportName asked

end ScriptListing.Archive

namespace ScriptListing.Batch

variable {σ : Type}

/-- The trees that an event goes through. -/
def State.passes (setup : Setup σ) (s : State σ) : Event → List FileTree
  | .advance i =>
    match s.jobs[i]? with
    | some ⟨r, .write c⟩ =>
      match Listing.render setup.table {} c with
      | .error _ => []
      | .ok listing =>
        (s.tree.publish (setup.hazards r.path) r.path (Text.toBytes listing.text)).trees
    | _ => []
  | _ => []

def State.trees (setup : Setup σ) : State σ → List Event → List FileTree
  | s, [] => [s.tree]
  | s, e :: rest => s.tree :: s.passes setup e ++ trees setup (s.step setup e) rest

section

variable {setup : Setup σ} {s s' : State σ} {e : Event}

theorem publish_start (h : FileTree.Hazards) (t : FileTree) (path : String)
    (content : List UInt8) : (t.publish h path content).start = t := by
  unfold FileTree.publish
  dsimp only
  split
  · rfl
  · split
    · rfl
    · split <;> rfl

/-- An event ends in the last of its trees. -/
theorem turn_tree (turn : Turn setup s e s') : s'.tree = (s.passes setup e).getLastD s.tree := by
  cases turn with
  | idle | started | canceled => rfl
  | absent at' | done at' | failed at' | loaded at' | lost at' | claimed at' =>
    simp [State.passes, at']
  | @wrote i r c log at' =>
    simp only [State.passes, at', treeAfter]
    cases Listing.render setup.table {} c with
    | error breakdown => rfl
    | ok listing =>
      dsimp only
      rw [FileTree.Publication.final, publish_start]

theorem execute_tree (events : List Event) :
    (s.execute setup events).tree ∈ s.trees setup events := by
  induction events generalizing s with
  | nil => simp [State.execute, State.trees]
  | cons e rest ih => exact List.mem_append_right _ ih

variable {place : FileTree.Location} {requests : List String} {past : List Deed}
  {said : List (Nat × Word)} {events : List Event}

/-- An event touches files in the directory only. -/
theorem passes_within (ledger : Ledger setup requests s past said)
    (found : s.tree.folder setup.directory = .ok place) :
    ∀ t ∈ s.passes setup e, FileTree.Within place s.tree t := by
  intro t member
  unfold State.passes at member
  split at member
  · next i =>
    split at member
    · next r c at' =>
      obtain ⟨spelled, heard, _⟩ := (ledger.points i _ at').write
      split at member
      · cases member
      · next listing rendered =>
        rw [spelled] at member
        exact FileTree.publish_within (FileTree.isName_text heard.plain) found _ _ t member
    · cases member
  · cases member

/-- So does every run. -/
theorem trees_within (plain : setup.loader.Plain) (ledger : Ledger setup requests s past said)
    (found : s.tree.folder setup.directory = .ok place) :
    ∀ t ∈ s.trees setup events, FileTree.Within place s.tree t := by
  induction events generalizing s past said with
  | nil =>
    intro t member
    obtain rfl : t = s.tree := by simpa [State.trees] using member
    exact .refl place s.tree
  | cons e rest ih =>
    have turn := step_turn setup s e
    have now := passes_within (e := e) ledger found
    have next : FileTree.Within place s.tree (s.step setup e).tree := by
      rw [turn_tree turn]
      rcases List.eq_nil_or_concat' (s.passes setup e) with none | ⟨before, last, some⟩
      · rw [none]
        exact .refl place s.tree
      · rw [some, List.getLastD_concat]
        exact now last (by simp [some])
    have there : (s.step setup e).tree.folder setup.directory = .ok place :=
      FileTree.folder_ok next.here (fun _ => next.directories) found
    intro t member
    rcases List.mem_append.mp member with early | late
    · rcases List.mem_cons.mp early with rfl | early
      · exact .refl place s.tree
      · exact now t early
    · exact next.trans (ih (ledger.turn plain turn) there t late)

end

theorem archive_plain : archiveLoader.Plain := fun _ _ _ _ _ => Archive.load_plain

/-- The paths of a run over an archive are apart, as no class of an archive has a slash in its
name. -/
theorem pathsApart_of_archive {setup : Setup Archive} {classes : String → Attempt Class}
    {s : State Archive} {tree : FileTree} {requests : List String}
    (archive : setup.loader = archiveLoader) (steady : Steady setup classes s) :
    PathsApart setup classes tree requests := by
  refine pathsApart_of_storable fun name c found => ?_
  have answer := steady.answers [] List.not_mem_nil name
  rw [archive, found] at answer
  exact Archive.load_plain answer

/-- A request answered with a class asks for an export, and its file is named for the export. -/
structure Named (directory name : String) (c : Class) (r : Result) (object : ObjectPath) :
    Prop where
  asked : ObjectPath.split name = .ok object
  className : c.name = object.exportName ∧ r.className = object.exportName
  plain : '/' ∉ object.exportName.toList ∧ '.' ∉ object.exportName.toList
  path : r.path = Path.join directory (object.exportName ++ ".txt")

section

variable (table : Option SymbolTable) (directory : String) (hazards : String → FileTree.Hazards)
  (archive : Archive) (tree : FileTree) (names : List String) (events : List Event)

def archiveSetup : Setup Archive := ⟨archiveLoader, table, directory, hazards⟩

/-- What a run over an archive does to the files, `made` being what came of making its
directory. -/
structure Confined (made : Except FileTree.Error Unit × FileTree) (o : Outcome Archive) :
    Prop where
  /-- The directory and those above it are all that is made before the run. -/
  prepared : FileTree.Prepared (directoryOf directory).toList tree made.2
  aborted : made.1 ≠ .ok () → o.tree = made.2 ∧ o.results = none
  /-- All trees of the run, those between the steps of a publication too, differ in files right
  in the directory. -/
  within : made.1 = .ok () → ∃ place, made.2.walk (directoryOf directory) = .ok place ∧
    made.2.get? place = some .directory ∧
    let trees := (begin archive made.2 names).trees
      (archiveSetup table directory hazards).located events
    o.tree ∈ trees ∧ ∀ t ∈ trees, FileTree.Within place made.2 t
  named : made.1 = .ok () → ∀ i c, (i, .answer (.ok c)) ∈ (begin archive made.2 names).words
      (archiveSetup table directory hazards).located events →
    ∃ name r object, names[i]? = some name ∧ (o.results.getD [])[i]? = some r ∧
      Named (directoryOf directory) name c r object

/-- Runs over an archive stay in their directory. -/
theorem archive_runs_stay_in_directory :
    Confined table directory hazards archive tree names events
      (tree.makeDirectories (directoryOf directory))
      (run (archiveSetup table directory hazards) archive tree names events) := by
  have makes := FileTree.makeDirectories_makes tree (directoryOf directory)
  unfold run
  simp only [archiveSetup]
  generalize tree.makeDirectories (directoryOf directory) = made at makes ⊢
  obtain ⟨⟨e⟩ | ⟨⟨⟩⟩, made⟩ := made
  · exact ⟨makes.prepared, fun _ => ⟨rfl, rfl⟩, nofun, nofun⟩
  refine ⟨makes.prepared, fun failed => absurd rfl failed, fun _ => ?_, fun _ i c heard => ?_⟩
  · obtain ⟨place, walked, there⟩ := makes.ready rfl
    rw [String.ofList_toList] at walked
    exact ⟨place, walked, there, execute_tree events,
      trees_within (s := begin archive made names) archive_plain (.begin archive made)
        (FileTree.folder_of_walk walked)⟩
  · obtain ⟨before, name, _, asked, answered⟩ :=
      answer_origin (begin_roster archive made names) heard
    obtain ⟨object, split, named⟩ := Archive.load_named answered
    have start : Ledger (archiveSetup table directory hazards).located names
        (begin archive made names) [] [] := .begin archive made
    have ledger := execute_ledger archive_plain start events
    rw [List.nil_append, List.nil_append] at ledger
    obtain ⟨job, at'⟩ := ledger.exists_job (mem_heardBy.mpr heard)
    obtain ⟨className, path⟩ := (ledger.points i job at').loaded (mem_heardBy.mpr heard)
    refine ⟨name, job.result, object, asked, ?_, split, ⟨named, className.trans named⟩, ?_, ?_⟩
    · exact results_of_job at'
    · exact ⟨ObjectPath.slash_notMem_exportName split, ObjectPath.dot_notMem_exportName split⟩
    · rw [path, pathOf, named]
      rfl

end

end ScriptListing.Batch
