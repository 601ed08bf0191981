import ScriptListing.CommandLine.Flag
import ScriptListing.Proofs.Text.Blank

/-! Lists of names with commas between them. Values that are given for a list one after the
other list the same names as all of them in one text, and the text of a list gives the list
again. -/
namespace ScriptListing.CommandLine

structure Listable (name : String) : Prop where
  filled : name ≠ ""
  whole : ',' ∉ name.toList
  trimmed : Text.Trimmed name.toList

/-- The names that a text lists, in order: between two commas there is one with white space
around it, or nothing but white space. -/
inductive Lists : (text : List Char) → (names : List String) → Prop where
  | nothing {text : List Char} (blank : ∀ c ∈ text, Text.isBlank c) : Lists text []
  | name {before after : List Char} {name : String} (left : ∀ c ∈ before, Text.isBlank c)
      (right : ∀ c ∈ after, Text.isBlank c) (listable : Listable name) :
      Lists (before ++ name.toList ++ after) [name]
  | comma {text text' : List Char} {names names' : List String} (lists : Lists text names)
      (lists' : Lists text' names') : Lists (text ++ ',' :: text') (names ++ names')

section Split

variable {text : List Char} {names : List String} {name : String}

theorem comma_notMem (blank : ∀ c ∈ text, Text.isBlank c) : ',' ∉ text := by
  intro member
  exact absurd (blank ',' member) (by decide)

/-- A text without a comma lists at most one name. -/
theorem splitList_whole (whole : ',' ∉ text) :
    splitList (String.ofList text) =
      if (Text.trimBlanks text).isEmpty then [] else [String.ofList (Text.trimBlanks text)] := by
  have uncut : text.splitOnP (· == ',') = [text] := by
    apply List.splitOnP_eq_singleton
    intro c member
    simpa using fun equal : c = ',' => whole (equal ▸ member)
  rw [splitList, String.toList_ofList, uncut, List.map_singleton]
  split_ifs with empty <;> simp [empty]

/-- What stands before a comma and what stands behind it are lists of their own. -/
theorem splitList_comma (source source' : String) :
    splitList (source ++ "," ++ source') = splitList source ++ splitList source' := by
  have chars : (source ++ "," ++ source').toList = source.toList ++ ',' :: source'.toList := by
    simp
  rw [splitList, chars, List.splitOnP_append_cons _ _ rfl, List.map_append, List.filter_append,
    List.map_append, ← splitList, ← splitList]

theorem Lists.splitList_eq (lists : Lists text names) :
    splitList (String.ofList text) = names := by
  induction lists with
  | nothing blank =>
    rw [splitList_whole (comma_notMem blank), Text.trimBlanks_eq_nil_iff.mpr blank]
    rfl
  | @name before after name left right listable =>
    have whole : ',' ∉ before ++ name.toList ++ after := by
      simp only [List.mem_append, not_or]
      exact ⟨⟨comma_notMem left, listable.whole⟩, comma_notMem right⟩
    rw [splitList_whole whole, Text.trimBlanks_padded listable.trimmed left right,
      if_neg (by simpa using listable.filled), String.ofList_toList]
  | @comma text text' names names' _ _ ih ih' =>
    have chars : String.ofList (text ++ ',' :: text') =
        String.ofList text ++ "," ++ String.ofList text' := by
      apply String.toList_inj.mp
      simp
    rw [chars, splitList_comma, ih, ih']

theorem lists_whole (whole : ',' ∉ text) : ∃ names, Lists text names := by
  by_cases empty : Text.trimBlanks text = []
  · exact ⟨[], .nothing (Text.trimBlanks_eq_nil_iff.mp empty)⟩
  · obtain ⟨before, after, left, right, parts⟩ := Text.exists_padding text
    have listable : Listable (String.ofList (Text.trimBlanks text)) := by
      refine ⟨by simpa using empty, ?_, ?_⟩
      · rw [String.toList_ofList]
        intro member
        apply whole
        rw [← parts]
        simp [member]
      · rw [String.toList_ofList]
        exact Text.trimmed_trimBlanks text
    have lists := Lists.name left right listable
    rw [String.toList_ofList, parts] at lists
    exact ⟨_, lists⟩

/-- Every text lists something: it is cut at one of its commas as long as there is one. -/
theorem exists_lists (text : List Char) : ∃ names, Lists text names := by
  by_cases cut : ',' ∈ text
  · obtain ⟨before, after, parted⟩ := List.append_of_mem cut
    have shorter : before.length < text.length ∧ after.length < text.length := by
      rw [parted, List.length_append, List.length_cons]
      omega
    obtain ⟨names, lists⟩ := exists_lists before
    obtain ⟨names', lists'⟩ := exists_lists after
    exact ⟨names ++ names', parted ▸ lists.comma lists'⟩
  · exact lists_whole cut
termination_by text.length
decreasing_by
  · exact shorter.1
  · exact shorter.2

/-- A text lists what splitting it gives, and nothing else. -/
theorem lists_iff {source : String} : Lists source.toList names ↔ splitList source = names := by
  have split (names : List String) (lists : Lists source.toList names) :
      splitList source = names := by
    simpa using lists.splitList_eq
  refine ⟨split names, ?_⟩
  rintro rfl
  obtain ⟨names, lists⟩ := exists_lists source.toList
  rwa [split names lists]

theorem Lists.listable (lists : Lists text names) (member : name ∈ names) : Listable name := by
  induction lists with
  | nothing => cases member
  | name _ _ listable => exact List.mem_singleton.mp member ▸ listable
  | comma _ _ ih ih' => exact (List.mem_append.mp member).elim ih ih'

theorem listable_of_mem_splitList {source : String} (member : name ∈ splitList source) :
    Listable name :=
  (lists_iff.mpr rfl).listable member

theorem Listable.splitList_eq (listable : Listable name) : splitList name = [name] := by
  apply lists_iff.mp
  simpa using @Lists.name [] [] name (by simp) (by simp) listable

end Split

section Values

variable {list : List String}

/-- A list grows by the names of each value that is given for it. -/
theorem foldl_addToList (list values : List String) :
    values.foldl addToList list = list ++ values.flatMap splitList := by
  induction values generalizing list with
  | nil => simp
  | cons value rest ih => rw [List.foldl_cons, ih, addToList, List.flatMap_cons, List.append_assoc]

theorem splitList_intercalate (values : List String) :
    splitList (",".intercalate values) = values.flatMap splitList := by
  induction values with
  | nil => decide
  | cons value rest ih =>
    cases rest with
    | nil => simp
    | cons next rest =>
      rw [String.intercalate_cons_cons, splitList_comma, ih, ← List.flatMap_cons]

/-- All values of a list may be given in one. -/
theorem addToList_intercalate (list values : List String) :
    addToList list (",".intercalate values) = values.foldl addToList list := by
  rw [foldl_addToList, addToList, splitList_intercalate]

/-- The text of a list gives the list again. -/
theorem splitList_listText (listable : ∀ name ∈ list, Listable name) :
    splitList (listText list) = list := by
  rw [listText, splitList_intercalate]
  induction list with
  | nil => rfl
  | cons name rest ih =>
    obtain ⟨first, others⟩ := List.forall_mem_cons.mp listable
    rw [List.flatMap_cons, first.splitList_eq, ih others, List.singleton_append]

end Values

end ScriptListing.CommandLine
