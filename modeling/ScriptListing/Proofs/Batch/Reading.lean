import ScriptListing.Proofs.Archive.Cache
import ScriptListing.Proofs.Batch.Confinement
import ScriptListing.Proofs.Dump.Endless
import ScriptListing.Proofs.FileTree.Atomic

/-! What a run over an archive reads. Its own texts are no packages, so every package it comes to
stands in a file that was there before; a run over files without an alias that contains itself
meets none. -/
namespace ScriptListing

variable {t t' : FileTree} {key bytes : List UInt8}

/-- A path with another ending never leads to a text. -/
theorem FileTree.Beside.entry (beside : Beside t t') {path : String} {q : Location}
    (filled : path.toList ≠ [])
    (ends : ∀ letter ∈ ['/', '.', 't'], path.toList.getLast? ≠ some letter)
    (walked : t'.walk path = .ok q) : t'.get? q = t.get? q := by
  rcases beside.rest q with same | ⟨⟨place, text, rfl⟩, _⟩
  · exact same
  have filled := ObjectPath.lastElement_filled filled (ends '/' (by simp))
  have plain := ObjectPath.slash_notMem_lastElement path.toList
  have joined := ObjectPath.lastElement_append path.toList
  rcases split : ObjectPath.lastElement path.toList with ⟨directory, element⟩
  rw [split] at filled plain joined
  rw [← joined, List.getLast?_append_of_ne_nil _ filled] at ends
  -- One dot or two would lead to a place with any name.
  have isName : Path.IsName element := by
    refine ⟨⟨⟨plain, filled⟩, ?_⟩, ?_⟩
    · rintro rfl
      exact ends '.' (by simp) rfl
    · rintro rfl
      exact ends '.' (by simp) rfl
  obtain ⟨p, _, entered⟩ := walk_lastElement split filled walked
  have named := enter_name_ok (by rwa [String.toList_ofList]) entered
  have same := congrArg String.toList (List.cons.inj (List.append_inj' named rfl).2).1
  rw [String.toList_ofList] at same
  exact absurd (by simp [← same]) (ends 't' (by simp))

namespace Archive

/-- Some file of the tree holds, plain or decrypted with the key, an alias that contains itself. -/
def HasLoop (key : List UInt8) (t : FileTree) : Prop :=
  ∃ place content c bytes, t.get? place = some (.file content) ∧
    Archive.content key c content = .ok bytes ∧ Dump.Loops bytes

theorem search_file {candidates : List Candidate} (found : search t key candidates = .ok bytes) :
    ∃ c ∈ candidates, ∃ content, t.read c.path = .ok content ∧
      Archive.content key c content = .ok bytes := by
  induction candidates with
  | nil => cases found
  | cons c rest ih =>
    unfold search at found
    split at found
    · next content read => exact ⟨c, List.mem_cons_self, content, read, found⟩
    · split at found
      · obtain ⟨d, member, later⟩ := ih found
        exact ⟨d, List.mem_cons_of_mem _ member, later⟩
      · cases found

/-- No file that may hold a package has the ending of a text. -/
theorem candidates_end {root package : String} {c : Candidate}
    (member : c ∈ candidates root package) : c.path.toList ≠ [] ∧
      ∀ letter ∈ ['/', '.', 't'], c.path.toList.getLast? ≠ some letter := by
  simp only [candidates, endings, List.flatMap_cons, List.flatMap_nil, List.append_nil,
    List.cons_append, List.nil_append, List.mem_cons, List.not_mem_nil, or_false] at member
  rcases member with rfl | rfl | rfl | rfl | rfl | rfl <;> simp

/-- Texts that were written meanwhile add nothing to what is read. -/
theorem search_loops (beside : FileTree.Beside t t') {root package : String}
    (found : search t' key (candidates root package) = .ok bytes) (loops : Dump.Loops bytes) :
    HasLoop key t := by
  obtain ⟨c, member, content, read, held⟩ := search_file found
  obtain ⟨filled, ends⟩ := candidates_end member
  obtain ⟨q, walked, there⟩ := FileTree.walk_of_read read
  rw [beside.entry filled ends walked] at there
  exact ⟨q, content, c, bytes, there, held, loops⟩

end Archive

namespace Batch

/-- Every package that loops and is kept, or can be read now, is one of the files `t`. -/
structure Reading (key : List UInt8) (t : FileTree) (s : State Archive) : Prop where
  beside : FileTree.Beside t s.tree
  opens : s.loader.key = key
  kept : ∀ package bytes, s.loader.packages.lookup package = some bytes → Dump.Loops bytes →
    Archive.HasLoop key t

variable {s s' : State Archive} {e : Event}

theorem Reading.begin (archive : Archive) (fresh : archive.packages = []) (t : FileTree)
    (names : List String) : Reading archive.key t (begin archive t names) where
  beside := .refl t
  opens := rfl
  kept package bytes kept := by simp [Batch.begin, fresh] at kept

theorem Reading.package (reading : Reading key t s) {package : String}
    (found : s.loader.package s.tree package = .ok bytes) (loops : Dump.Loops bytes) :
    Archive.HasLoop key t := by
  unfold Archive.package at found
  split at found
  · next bytes' kept =>
    cases found
    exact reading.kept package _ kept loops
  · rw [reading.opens] at found
    exact Archive.search_loops reading.beside found loops

/-- A load keeps nothing but what it read. -/
theorem Reading.load (reading : Reading key t s) (canceled : Bool) (name : String) :
    Reading key t { s with loader := (s.loader.load s.tree canceled name).2 } where
  beside := reading.beside
  opens := (s.loader.load_settings s.tree canceled name).2.trans reading.opens
  kept package bytes kept loops := by
    dsimp only at kept
    rw [Archive.lookup_load] at kept
    split at kept
    · rw [← Archive.toOption_package] at kept
      cases found : s.loader.package s.tree package with
      | error f => simp [found, Except.toOption] at kept
      | ok bytes' =>
        simp only [found, Except.toOption, Option.some.injEq] at kept
        exact reading.package (kept ▸ found) loops
    · exact reading.kept package bytes kept loops

theorem Reading.turn {setup : Setup Archive} (archive : setup.loader = archiveLoader)
    {requests : List String} {past : List Deed} {said : List (Nat × Word)}
    (ledger : Ledger setup requests s past said) (reading : Reading key t s)
    (turn : Turn setup s e s') : Reading key t s' := by
  cases turn with
  | idle | started | absent | done | lost | claimed | canceled =>
    exact ⟨reading.beside, reading.opens, reading.kept⟩
  | @failed i r f loader at' answer | @loaded i r c loader at' answer =>
    rw [archive] at answer
    have kept := reading.load s.canceled r.name
    rw [show s.loader.load s.tree s.canceled r.name = _ from answer] at kept
    exact ⟨kept.beside, kept.opens, kept.kept⟩
  | @wrote i r c log at' =>
    obtain ⟨spelled, _⟩ := (ledger.points i _ at').write
    refine ⟨?_, reading.opens, reading.kept⟩
    rw [spelled]
    exact treeAfter_beside reading.beside

theorem execute_reading {setup : Setup Archive} (archive : setup.loader = archiveLoader)
    {requests : List String} {past : List Deed} {said : List (Nat × Word)}
    (ledger : Ledger setup requests s past said) (reading : Reading key t s)
    (events : List Event) : Reading key t (s.execute setup events) := by
  induction events generalizing s past said with
  | nil => exact reading
  | cons e rest ih =>
    have turn := step_turn setup s e
    exact ih (ledger.turn (archive ▸ archive_plain) turn) (reading.turn archive ledger turn)

end Batch

end ScriptListing
