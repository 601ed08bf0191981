import ScriptListing.ObjectPath

/-! Texts split at the last mark, and the export that an object path asks for: it is named by
one element of the path. -/
namespace ScriptListing.ObjectPath

theorem splitLast?_eq_none {mark : Char} {text : List Char} :
    splitLast? mark text = none ↔ mark ∉ text := by
  induction text with
  | nil => simp [splitLast?]
  | cons c rest ih =>
    by_cases free : mark ∈ rest
    · obtain ⟨parts, below⟩ := Option.ne_none_iff_exists'.mp (mt ih.mp (not_not_intro free))
      simp [splitLast?, below, free]
    · by_cases same : c = mark
      · simp [splitLast?, ih.mpr free, same]
      · simp [splitLast?, ih.mpr free, same, free, Ne.symm same]

theorem splitLast?_eq_some {mark : Char} {text left right : List Char} :
    splitLast? mark text = some (left, right) ↔ text = left ++ mark :: right ∧ mark ∉ right := by
  induction text generalizing left with
  | nil => simp [splitLast?]
  | cons c rest ih =>
    unfold splitLast?
    constructor
    · intro split
      split at split
      · next left' right' below =>
        cases split
        obtain ⟨whole, free⟩ := ih.mp below
        exact ⟨by rw [whole, List.cons_append], free⟩
      · next none =>
        split at split
        · next same =>
          cases split
          exact ⟨by rw [same, List.nil_append], splitLast?_eq_none.mp none⟩
        · cases split
    · rintro ⟨whole, free⟩
      cases left with
      | nil =>
        obtain ⟨rfl, rfl⟩ := List.cons.inj whole
        rw [splitLast?_eq_none.mpr free]
        simp
      | cons c' left =>
        obtain ⟨rfl, below⟩ := List.cons.inj whole
        rw [ih.mpr ⟨below, free⟩]

theorem lastElement_append (name : List Char) :
    (lastElement name).1 ++ (lastElement name).2 = name := by
  unfold lastElement
  split
  · next directory element found =>
    rw [(splitLast?_eq_some.mp found).1]
    simp
  · rfl

/-- A path that does not end with a slash has a last element. -/
theorem lastElement_filled {name : List Char} (filled : name ≠ [])
    (ends : name.getLast? ≠ some '/') : (lastElement name).2 ≠ [] := by
  unfold lastElement
  split
  · next directory element found =>
    rintro rfl
    rw [(splitLast?_eq_some.mp found).1] at ends
    simp at ends
  · exact filled

theorem slash_notMem_lastElement (name : List Char) : '/' ∉ (lastElement name).2 := by
  unfold lastElement
  split
  · next directory element found => exact (splitLast?_eq_some.mp found).2
  · next none => exact splitLast?_eq_none.mp none

theorem slash_notMem_parts (name : List Char) : '/' ∉ (parts name).2 := by
  have element := slash_notMem_lastElement name
  unfold parts
  dsimp only
  split
  · next asset exported found =>
    intro member
    exact element (by simp [(splitLast?_eq_some.mp found).1, member])
  · exact element

theorem dot_notMem_parts (name : List Char) : '.' ∉ (parts name).2 := by
  unfold parts
  dsimp only
  split
  · next asset exported found => exact (splitLast?_eq_some.mp found).2
  · next none => exact splitLast?_eq_none.mp none

theorem isValid_nil : isValid [] = false := by decide

/-- A path is taken apart where its parts are proper. -/
theorem split_eq_ok {source : String} {object : ObjectPath} :
    split source = .ok object ↔
      parts (normalize source.toList) = (object.package.toList, object.exportName.toList) ∧
        object.exportName ≠ "" ∧ isValid object.package.toList = true := by
  have built (package exported : List Char) :
      (⟨String.ofList package, String.ofList exported⟩ : ObjectPath) = object ↔
        (package, exported) = (object.package.toList, object.exportName.toList) := by
    obtain ⟨package', exported'⟩ := object
    have text (chars : List Char) (s : String) : String.ofList chars = s ↔ chars = s.toList := by
      rw [← String.toList_inj, String.toList_ofList]
    simp only [mk.injEq, Prod.mk.injEq, text]
  unfold split
  dsimp only
  by_cases empty : normalize source.toList = []
  · rw [empty, if_pos List.isEmpty_nil]
    refine ⟨nofun, ?_⟩
    rintro ⟨same, filled, _⟩
    exact absurd (String.toList_eq_nil_iff.mp (Prod.mk.inj same).2.symm) filled
  · rw [if_neg (by simpa using empty)]
    generalize parts (normalize source.toList) = found
    obtain ⟨package, exported⟩ := found
    constructor
    · intro read
      split at read
      · cases read
      · next proper =>
        simp only [Bool.or_eq_true, Bool.not_eq_true', not_or, Bool.not_eq_false,
          List.isEmpty_iff] at proper
        have same := (built package exported).mp (Except.ok.inj read)
        obtain ⟨first, second⟩ := Prod.mk.inj same
        rw [first, second] at proper
        exact ⟨same, mt String.toList_eq_nil_iff.mpr proper.1.2, proper.2⟩
    · rintro ⟨same, filled, valid⟩
      rw [if_neg, (built package exported).mpr same]
      obtain ⟨rfl, rfl⟩ := Prod.mk.inj same
      have inside : object.package.toList ≠ [] := by
        intro void
        rw [void, isValid_nil] at valid
        cases valid
      simp [valid, inside, filled]

theorem exportName_of_split {source : String} {object : ObjectPath}
    (read : split source = .ok object) :
    object.exportName.toList = (parts (normalize source.toList)).2 := by
  rw [(split_eq_ok.mp read).1]

/-- An export has no slash in its name. -/
theorem slash_notMem_exportName {source : String} {object : ObjectPath}
    (read : split source = .ok object) : '/' ∉ object.exportName.toList := by
  rw [exportName_of_split read]
  exact slash_notMem_parts (normalize source.toList)

theorem dot_notMem_exportName {source : String} {object : ObjectPath}
    (read : split source = .ok object) : '.' ∉ object.exportName.toList := by
  rw [exportName_of_split read]
  exact dot_notMem_parts (normalize source.toList)

end ScriptListing.ObjectPath
