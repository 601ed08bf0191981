import ScriptListing.Proofs.Path
import ScriptListing.Proofs.Text.Blank

/-! The written form of object paths. Every path that is read has one, from which the same
package and export are read again, and white space around it does not count. -/
namespace ScriptListing.ObjectPath

/-- The full form of an object path, with the slash in front and the export after a dot. -/
def written (object : ObjectPath) : String := "/" ++ object.package ++ "." ++ object.exportName

/-- An object path that can be written: a path in a package, and an export that no dot, slash or
white space at its end keeps from being read. -/
structure Proper (object : ObjectPath) : Prop where
  package : isValid object.package.toList = true
  named : object.exportName ≠ ""
  undotted : '.' ∉ object.exportName.toList
  unslashed : '/' ∉ object.exportName.toList
  ends : ∀ c, object.exportName.toList.getLast? = some c → Text.isBlank c = false

section

variable {name left right : List Char}

theorem lastElement_plain (plain : '/' ∉ right) :
    lastElement (name ++ right) = ((lastElement name).1, (lastElement name).2 ++ right) := by
  unfold lastElement
  cases found : splitLast? '/' name with
  | none =>
    have free := splitLast?_eq_none.mp found
    rw [splitLast?_eq_none.mpr (by simp [free, plain])]
  | some split =>
    obtain ⟨directory, element⟩ := split
    obtain ⟨rfl, free⟩ := splitLast?_eq_some.mp found
    rw [List.append_assoc, List.cons_append,
      splitLast?_eq_some.mpr ⟨rfl, by simp [free, plain]⟩]

/-- The export after a dot is found whatever the package is. -/
theorem parts_dotted (undotted : '.' ∉ right) (unslashed : '/' ∉ right) :
    parts (left ++ '.' :: right) = (left, right) := by
  have plain : '/' ∉ '.' :: right := by simp [unslashed]
  unfold parts
  rw [lastElement_plain plain]
  simp only [splitLast?_eq_some.mpr ⟨rfl, undotted⟩, lastElement_append]

theorem parts_undotted (undotted : '.' ∉ (lastElement name).2) :
    parts name = (name, (lastElement name).2) := by
  unfold parts
  simp only [splitLast?_eq_none.mpr undotted]

/-- The export stands at the end of the name. -/
theorem parts_suffix (name : List Char) : (parts name).2 <:+ name := by
  have whole : (lastElement name).2 <:+ name := ⟨_, lastElement_append name⟩
  unfold parts
  dsimp only
  split
  · next asset exported found =>
    refine .trans ⟨asset ++ ['.'], ?_⟩ whole
    rw [(splitLast?_eq_some.mp found).1]
    simp
  · exact whole

theorem normalize_suffix (source : List Char) : normalize source <:+ Text.trimBlanks source := by
  unfold normalize Text.after?
  dsimp only
  split
  · exact List.drop_suffix _ _
  · exact List.suffix_refl _

/-- A slash in front of a name and white space around it do not count. -/
theorem normalize_padded {before after : List Char} (left : ∀ c ∈ before, Text.isBlank c)
    (right : ∀ c ∈ after, Text.isBlank c)
    (ends : ∀ c, name.getLast? = some c → Text.isBlank c = false) :
    normalize (before ++ '/' :: name ++ after) = name := by
  have trimmed : Text.Trimmed ('/' :: name) := by
    refine ⟨fun c first => ?_, fun c last => ?_⟩
    · obtain rfl : '/' = c := Option.some.inj first
      decide
    · cases name with
      | nil =>
        obtain rfl : '/' = c := Option.some.inj last
        decide
      | cons d rest => exact ends c (by rwa [List.getLast?_cons_cons] at last)
  rw [normalize, Text.trimBlanks_padded trimmed left right]
  simp [Text.after?]

end

theorem proper_of_split {source : String} {object : ObjectPath}
    (read : split source = .ok object) : Proper object := by
  obtain ⟨same, named, package⟩ := split_eq_ok.mp read
  refine ⟨package, named, dot_notMem_exportName read, slash_notMem_exportName read, ?_⟩
  intro c last
  -- The last character of the export is that of the whole trimmed text.
  obtain ⟨front, whole⟩ := (parts_suffix _).trans (normalize_suffix source.toList)
  rw [same] at whole
  apply (Text.trimmed_trimBlanks source.toList).ends c
  have filled : object.exportName.toList ≠ [] := mt String.toList_eq_nil_iff.mp named
  rw [← whole, List.getLast?_append_of_ne_nil _ filled, last]

theorem split_written {object : ObjectPath} (proper : Proper object) (before after : String)
    (left : ∀ c ∈ before.toList, Text.isBlank c) (right : ∀ c ∈ after.toList, Text.isBlank c) :
    split (before ++ object.written ++ after) = .ok object := by
  have spelled : (before ++ object.written ++ after).toList = before.toList ++
      '/' :: (object.package.toList ++ '.' :: object.exportName.toList) ++ after.toList := by
    simp [written]
  have ends (c : Char)
      (last : (object.package.toList ++ '.' :: object.exportName.toList).getLast? = some c) :
      Text.isBlank c = false := by
    have filled : object.exportName.toList ≠ [] := mt String.toList_eq_nil_iff.mp proper.named
    rw [List.append_cons, List.getLast?_append_of_ne_nil _ filled] at last
    exact proper.ends c last
  rw [split_eq_ok, spelled, normalize_padded left right ends,
    parts_dotted proper.undotted proper.unslashed]
  exact ⟨rfl, proper.named, proper.package⟩

/-- Without an export, a path names one after the last element of its package. -/
theorem split_package {package : String} {items : List (List Char)}
    {element : List Char} (valid : isValid package.toList = true)
    (apart : Path.elements package.toList = items ++ [element]) (undotted : '.' ∉ element)
    (ends : ∀ c, element.getLast? = some c → Text.isBlank c = false) :
    split ("/" ++ package) = .ok ⟨package, String.ofList element⟩ := by
  have plain : '/' ∉ element :=
    @Path.slash_notMem_of_elements package.toList element (apart ▸ by simp)
  have last : (lastElement package.toList).2 = element := by
    rw [← Path.lead_elements apart, Path.lastElement_lead plain]
  have filled : element ≠ [] := by
    rintro rfl
    simp only [isValid, Bool.and_eq_true, Bool.or_eq_true, beq_iff_eq, List.all_eq_true] at valid
    rcases valid.2 with dot | plain
    · rw [dot] at last
      revert last
      decide
    · have void := plain [] (by rw [← Path.elements, apart]; simp)
      exact absurd void (by decide)
  have spelled : ("/" ++ package).toList = [] ++ '/' :: package.toList ++ [] := by simp
  have ends' (c : Char) (at' : package.toList.getLast? = some c) : Text.isBlank c = false := by
    rw [← Path.lead_elements apart, List.getLast?_append_of_ne_nil _ filled] at at'
    exact ends c at'
  rw [split_eq_ok, spelled, normalize_padded (by simp) (by simp) ends',
    parts_undotted (last ▸ undotted), last]
  refine ⟨by simp, ?_, valid⟩
  simpa using filled

/-- Object paths split canonically. What is read from any text can be written and is read from
that again; every proper object is read from its written form, and every package from its own
path where the last element can be an export, whatever white space is around. -/
theorem paths_split_canonically :
    (∀ source object, split source = .ok object →
      object.exportName ≠ "" ∧ '.' ∉ object.exportName.toList ∧
        '/' ∉ object.exportName.toList ∧ isValid object.package.toList = true ∧
        split ("/" ++ object.package ++ "." ++ object.exportName) = .ok object) ∧
    (∀ package exported before after : String, isValid package.toList = true →
      exported ≠ "" → '.' ∉ exported.toList → '/' ∉ exported.toList →
      (∀ c, exported.toList.getLast? = some c → Text.isBlank c = false) →
      (∀ c ∈ before.toList, Text.isBlank c) → (∀ c ∈ after.toList, Text.isBlank c) →
      split (before ++ ("/" ++ package ++ "." ++ exported) ++ after) = .ok ⟨package, exported⟩) ∧
    ∀ (package : String) (items : List (List Char)) (element : List Char),
      isValid package.toList = true → Path.elements package.toList = items ++ [element] →
      '.' ∉ element → (∀ c, element.getLast? = some c → Text.isBlank c = false) →
      split ("/" ++ package) = .ok ⟨package, String.ofList element⟩ := by
  refine ⟨fun source object read => ?_, ?_, fun package items element => split_package⟩
  · have proper := proper_of_split read
    refine ⟨proper.named, proper.undotted, proper.unslashed, proper.package, ?_⟩
    have again := split_written proper "" "" (by simp) (by simp)
    simpa [written] using again
  · intro package exported before after valid named undotted unslashed ends left right
    have proper : Proper ⟨package, exported⟩ := ⟨valid, named, undotted, unslashed, ends⟩
    exact split_written proper before after left right

theorem paths_split_canonically_padded :
    split " /Game/A.B/C.D\n" = .ok ⟨"Game/A.B/C", "D"⟩ ∧
      split "/Game/A.B/C" = .ok ⟨"Game/A.B/C", "C"⟩ := by
  obtain ⟨_, dotted, plain⟩ := paths_split_canonically
  constructor
  · refine dotted "Game/A.B/C" "D" " " "\n" (by decide) (by decide) (by decide) (by decide) ?_
      (by simp [Text.isBlank]) (by simp [Text.isBlank])
    rintro c ⟨⟩
    decide
  · refine plain "Game/A.B/C" ["Game".toList, "A.B".toList] "C".toList (by decide) (by decide)
      (by decide) ?_
    rintro c ⟨⟩
    decide

end ScriptListing.ObjectPath
