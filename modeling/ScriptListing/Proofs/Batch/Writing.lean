import ScriptListing.Proofs.Batch.Board
import ScriptListing.Proofs.FileTree.Publish

/-! Writing a class. Whatever its name, its path is that of a text in some directory; so a write
lands there whole or leaves no trace, and texts written meanwhile change nothing about it as long
as they stay away from where its path ends. -/
namespace ScriptListing.Batch

variable {σ : Type}

/-- The path of a class is that of a text in a directory, be it another one. -/
theorem pathOf_text (directory : String) (c : Class) : ∃ parent text, '/' ∉ text.toList ∧
    pathOf directory c = Path.join parent (text ++ ".txt") := by
  cases split : ObjectPath.splitLast? '/' c.name.toList with
  | none => exact ⟨directory, c.name, ObjectPath.splitLast?_eq_none.mp split, rfl⟩
  | some parts =>
    obtain ⟨above, last⟩ := parts
    obtain ⟨spelled, plain⟩ := ObjectPath.splitLast?_eq_some.mp split
    have plain' : '/' ∉ (String.ofList last).toList := by rwa [String.toList_ofList]
    have name : c.name = String.ofList above ++ "/" ++ String.ofList last := by
      rw [← String.toList_inj, spelled]
      simp
    obtain ⟨parent, joined⟩ := Path.join_slashed directory (String.ofList above)
      (FileTree.isName_text plain')
    refine ⟨parent, String.ofList last, plain', ?_⟩
    rw [pathOf, name, String.append_assoc, joined]

theorem pathOf_ne_empty (directory : String) (c : Class) : pathOf directory c ≠ "" := by
  obtain ⟨parent, text, plain, spelled⟩ := pathOf_text directory c
  have isName := FileTree.isName_text plain
  intro empty
  rw [spelled, Path.join_eq isName] at empty
  have chars := congrArg String.toList empty
  rw [String.toList_ofList] at chars
  exact isName.filled (List.append_eq_nil_iff.mp chars).2

section

variable {setup : Setup σ} {name : String} {c : Class} {t t' : FileTree}

@[simp] theorem written_name (t : FileTree) (r : Result) (c : Class) :
    (written setup t r c).name = r.name := by
  unfold written
  split <;> rfl

@[simp] theorem written_className (t : FileTree) (r : Result) (c : Class) :
    (written setup t r c).className = r.className := by
  unfold written
  split <;> rfl

@[simp] theorem written_path (t : FileTree) (r : Result) (c : Class) :
    (written setup t r c).path = r.path := by
  unfold written
  split <;> rfl

@[simp] theorem written_duplicateOf (t : FileTree) (r : Result) (c : Class) :
    (written setup t r c).duplicateOf = r.duplicateOf := by
  unfold written
  split <;> rfl

/-- What a request comes to depends on its own file, and on no other text. -/
theorem written_beside (beside : FileTree.Beside t t')
    (same : t'.get? (t.stop (pathOf setup.directory c)) =
      t.get? (t.stop (pathOf setup.directory c))) :
    written setup t' (loaded setup name c) c = written setup t (loaded setup name c) c := by
  obtain ⟨parent, text, plain, spelled⟩ := pathOf_text setup.directory c
  have isName := FileTree.isName_text plain
  have way := beside.sameWay isName (spelled ▸ same)
  unfold written
  cases rendered : Listing.render setup.table {} c with
  | error breakdown => rfl
  | ok listing =>
    have outcome : (t'.publish (setup.hazards (loaded setup name c).path) (loaded setup name c).path
        (Text.toBytes listing.text)).written = (t.publish (setup.hazards (loaded setup name c).path)
        (loaded setup name c).path (Text.toBytes listing.text)).written := by
      simp only [loaded, spelled]
      rw [(FileTree.publish_eq _ t' isName _).1, (FileTree.publish_eq _ t isName _).1,
        beside.attempt way isName]
    simp only [outcome]

/-- Writing succeeds where there is a text and a publication of it lands. -/
theorem written_success_iff : (written setup t (loaded setup name c) c).failure = none ↔
    ∃ listing target, Listing.render setup.table {} c = .ok listing ∧
      t.attempt (setup.hazards (pathOf setup.directory c)) (pathOf setup.directory c) =
        .ok target := by
  obtain ⟨parent, text, plain, spelled⟩ := pathOf_text setup.directory c
  unfold written
  cases rendered : Listing.render setup.table {} c with
  | error breakdown => simp
  | ok listing =>
    simp only [loaded, spelled]
    rw [(FileTree.publish_eq _ t (FileTree.isName_text plain) _).1]
    cases t.attempt (setup.hazards (Path.join parent (text ++ ".txt")))
      (Path.join parent (text ++ ".txt")) with
    | error e => simp [Except.map]
    | ok target => simp [Except.map]

/-- Writing leaves the whole text in its place and no failure, or everything as it was. -/
theorem treeAfter_cases (t : FileTree) :
    (∃ listing target, Listing.render setup.table {} c = .ok listing ∧
      t.walk (pathOf setup.directory c) = .ok target ∧ t.get? target ≠ some .directory ∧
      treeAfter setup t (loaded setup name c) c =
        t.put target (.file (Text.toBytes listing.text)) ∧
      (written setup t (loaded setup name c) c).failure = none) ∨
    (treeAfter setup t (loaded setup name c) c = t ∧
      (written setup t (loaded setup name c) c).failure ≠ none) := by
  obtain ⟨parent, text, plain, spelled⟩ := pathOf_text setup.directory c
  unfold treeAfter written
  cases rendered : Listing.render setup.table {} c with
  | error breakdown => exact .inr ⟨rfl, by simp⟩
  | ok listing =>
    simp only [loaded, spelled]
    obtain ⟨outcome, final⟩ := FileTree.publish_eq
      (setup.hazards (Path.join parent (text ++ ".txt"))) t (FileTree.isName_text plain)
      (Text.toBytes listing.text)
    rw [outcome, final]
    cases landed : t.attempt (setup.hazards (Path.join parent (text ++ ".txt")))
        (Path.join parent (text ++ ".txt")) with
    | error e => exact .inr ⟨rfl, by simp [Except.map]⟩
    | ok target =>
      obtain ⟨walked, free⟩ := FileTree.attempt_ok landed
      exact .inl ⟨listing, target, rfl, walked, free, rfl, rfl⟩

theorem treeAfter_beside (beside : FileTree.Beside t t') :
    FileTree.Beside t (treeAfter setup t' (loaded setup name c) c) := by
  obtain ⟨parent, text, plain, spelled⟩ := pathOf_text setup.directory c
  rcases @treeAfter_cases σ setup name c t' with
    ⟨listing, target, _, walked, free, final, _⟩ | ⟨final, _⟩
  · rw [final]
    rw [spelled] at walked
    exact beside.put plain walked free _
  · rw [final]
    exact beside

/-- Writing leaves the other texts of its directory alone. -/
theorem treeAfter_read_other (plain : '/' ∉ c.name.toList) (t : FileTree) {d : Class}
    (plain' : '/' ∉ d.name.toList)
    (differs : pathOf setup.directory d ≠ pathOf setup.directory c) :
    (treeAfter setup t (loaded setup name c) c).read (pathOf setup.directory d) =
      t.read (pathOf setup.directory d) := by
  rcases @treeAfter_cases σ setup name c t with
    ⟨listing, target, _, walked, free, final, _⟩ | ⟨final, _⟩
  · have names : d.name ≠ c.name := by
      intro same
      exact differs (by rw [pathOf, pathOf, same])
    rw [final]
    exact FileTree.read_put_other plain plain' names walked free _
  · rw [final]

end

end ScriptListing.Batch
