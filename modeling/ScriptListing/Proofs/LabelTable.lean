import Mathlib.Data.List.Sort
import Mathlib.Data.String.Basic
import ScriptListing.Proofs.Label

/-! Label tables as sets. A table keeps its pairs strictly ascending, so two tables that were
given the same pairs are the same table, whatever the order the pairs came in, and the offsets
of each function come out in order and once. No two pairs of a table share a label text. -/
namespace ScriptListing

namespace LabelTable

theorem before_iff {a b : String × UInt32} :
    before a b = true ↔ a.1 < b.1 ∨ a.1 = b.1 ∧ a.2 < b.2 := by
  simp [before]

theorem before_irrefl (a : String × UInt32) : ¬ before a a = true := by
  simp [before_iff]

theorem before_trans {a b c : String × UInt32} (first : before a b = true)
    (second : before b c = true) : before a c = true := by
  rw [before_iff] at first second ⊢
  rcases first with less | ⟨same, less⟩ <;> rcases second with less' | ⟨same', less'⟩
  · exact .inl (String.lt_trans less less')
  · exact .inl (same' ▸ less)
  · exact .inl (same ▸ less')
  · exact .inr ⟨same.trans same', UInt32.lt_trans less less'⟩

/-- Of two different pairs one comes before the other. -/
theorem before_of_not_before {a b : String × UInt32} (differ : a ≠ b)
    (after : ¬ before a b = true) : before b a = true := by
  rw [before_iff, not_or, not_and] at after
  rw [before_iff]
  rcases lt_trichotomy a.1 b.1 with less | same | more
  · exact absurd less after.1
  · refine .inr ⟨same.symm, ?_⟩
    have offsets : a.2 ≠ b.2 := fun equal => differ (Prod.ext same equal)
    have notLess := after.2 same
    rw [UInt32.lt_iff_toNat_lt] at notLess ⊢
    have := mt UInt32.toNat_inj.mp offsets
    omega
  · exact .inl more

def Ascending (entries : List (String × UInt32)) : Prop :=
  entries.Pairwise fun a b => before a b = true

/-- A pair goes to the one place where the order stays. -/
theorem insert_ascending (entry : String × UInt32) {list : List (String × UInt32)}
    (ascending : Ascending list) : Ascending (insert entry list) := by
  induction list with
  | nil => exact List.pairwise_singleton ..
  | cons head rest ih =>
    obtain ⟨above, ordered⟩ := List.pairwise_cons.mp ascending
    unfold insert
    split
    · exact ascending
    · next differ =>
      split
      · next first =>
        refine List.pairwise_cons.mpr ⟨?_, ascending⟩
        intro x member
        rcases List.mem_cons.mp member with rfl | later
        · exact first
        · exact before_trans first (above x later)
      · next notFirst =>
        refine List.pairwise_cons.mpr ⟨?_, ih ordered⟩
        intro x member
        rcases mem_insert.mp member with rfl | old
        · exact before_of_not_before differ notFirst
        · exact above x old

theorem foldl_add_ascending (targets : List (String × UInt32)) {t : LabelTable}
    (ascending : Ascending t.entries) :
    Ascending (targets.foldl (fun t target => t.add target.1 target.2) t).entries := by
  induction targets generalizing t with
  | nil => exact ascending
  | cons target rest ih => exact ih (insert_ascending target ascending)

theorem eq_of_has {t t' : LabelTable} (ascending : Ascending t.entries)
    (ascending' : Ascending t'.entries)
    (same : ∀ function offset, t.has function offset = true ↔ t'.has function offset = true) :
    t = t' := by
  have irreflexive : Std.Irrefl fun a b => before a b = true := ⟨before_irrefl⟩
  have antisymmetric : Std.Antisymm fun a b => before a b = true :=
    ⟨fun a _ first second => absurd (before_trans first second) (before_irrefl a)⟩
  have entries : t.entries = t'.entries := by
    refine List.Pairwise.eq_of_mem_iff ascending ascending' ?_
    rintro ⟨function, offset⟩
    rw [← has_iff, ← has_iff]
    exact same function offset
  cases t
  cases t'
  exact congrArg _ entries

def ofLabels (labels : List (String × UInt32)) : LabelTable :=
  labels.foldl (fun t label => t.add label.1 label.2) .empty

theorem has_ofLabels {labels : List (String × UInt32)} {function : String} {offset : UInt32} :
    (ofLabels labels).has function offset = true ↔ (function, offset) ∈ labels := by
  rw [ofLabels, has_foldl_add]
  simp [empty, has]

theorem ofLabels_ascending (labels : List (String × UInt32)) :
    Ascending (ofLabels labels).entries :=
  foldl_add_ascending labels List.Pairwise.nil

/-- Tables are equal when the same labels were added, in whatever order and however often. -/
theorem ofLabels_eq_iff {labels labels' : List (String × UInt32)} :
    ofLabels labels = ofLabels labels' ↔ ∀ label, label ∈ labels ↔ label ∈ labels' := by
  constructor
  · rintro same ⟨function, offset⟩
    rw [← has_ofLabels, same, has_ofLabels]
  · intro same
    apply eq_of_has (ofLabels_ascending labels) (ofLabels_ascending labels')
    intro function offset
    rw [has_ofLabels, has_ofLabels, same]

section

variable {t : LabelTable} {function other : String} {offset place : UInt32}

theorem mem_offsets : offset ∈ t.offsets function ↔ t.has function offset = true := by
  rw [has_iff, offsets, List.mem_map]
  constructor
  · rintro ⟨⟨name, _⟩, member, rfl⟩
    obtain ⟨inside, same⟩ := List.mem_filter.mp member
    obtain rfl : name = function := by simpa using same
    exact inside
  · intro inside
    exact ⟨(function, offset), List.mem_filter.mpr ⟨inside, by simp⟩, rfl⟩

/-- Among the pairs of one function the order is that of the offsets. -/
theorem offsets_ascending (ascending : Ascending t.entries) (function : String) :
    (t.offsets function).Pairwise (· < ·) := by
  rw [offsets, List.pairwise_map]
  apply (ascending.sublist List.filter_sublist).imp_of_mem
  intro a b member member' first
  have name : a.1 = function := by simpa using (List.mem_filter.mp member).2
  have name' : b.1 = function := by simpa using (List.mem_filter.mp member').2
  rcases before_iff.mp first with less | ⟨_, less⟩
  · rw [name, name'] at less
    exact absurd less (String.lt_irrefl function)
  · exact less

theorem has_add : (t.add function offset).has other place = true ↔
    (other, place) = (function, offset) ∨ t.has other place = true := by
  rw [has_iff, has_iff, add, mem_insert]

theorem filter_insert_other {entry : String × UInt32} (differ : entry.1 ≠ other)
    (list : List (String × UInt32)) :
    (insert entry list).filter (·.1 == other) = list.filter (·.1 == other) := by
  have skipped : (entry.1 == other) = false := by simpa using differ
  induction list with
  | nil => simp [insert, skipped]
  | cons head rest ih =>
    unfold insert
    split
    · rfl
    · split
      · simp [skipped]
      · rw [List.filter_cons, List.filter_cons, ih]

theorem offsets_add_other (differ : function ≠ other) :
    (t.add function offset).offsets other = t.offsets other := by
  rw [offsets, offsets, add, filter_insert_other differ]

end

/-- A table is a set of offsets for each function. It has the labels that were added and no
others; the offsets of a function come out strictly ascending, each once; tables are equal just
when the same labels were added; and a label of one function leaves the others alone. -/
theorem tables_are_families_of_sets (labels : List (String × UInt32)) :
    (∀ function offset,
      (ofLabels labels).has function offset = true ↔ (function, offset) ∈ labels) ∧
    (∀ function, ((ofLabels labels).offsets function).Pairwise (· < ·) ∧
      ((ofLabels labels).offsets function).Nodup ∧
      ∀ offset, offset ∈ (ofLabels labels).offsets function ↔ (function, offset) ∈ labels) ∧
    (∀ labels', ofLabels labels = ofLabels labels' ↔ ∀ label, label ∈ labels ↔ label ∈ labels') ∧
    ∀ function offset other, other ≠ function →
      (∀ place, ((ofLabels labels).add function offset).has other place =
        (ofLabels labels).has other place) ∧
      ((ofLabels labels).add function offset).offsets other = (ofLabels labels).offsets other := by
  refine ⟨fun _ _ => has_ofLabels, ?_, fun _ => ofLabels_eq_iff, ?_⟩
  · intro function
    have ascending := offsets_ascending (ofLabels_ascending labels) function
    refine ⟨ascending, ascending.imp UInt32.ne_of_lt, ?_⟩
    intro offset
    rw [mem_offsets, has_ofLabels]
  · intro function offset other differ
    refine ⟨?_, offsets_add_other differ.symm⟩
    intro place
    rw [Bool.eq_iff_iff, has_add]
    exact or_iff_right fun same => differ (Prod.mk.inj same).1

/-- Labels at both ends of the range, one of them added twice, come out in order, and the table
is the one that they make in another order. -/
theorem tables_are_families_of_sets_ends :
    let labels : List (String × UInt32) :=
      [("F", 0xFFFFFFFF), ("G", 7), ("F", 0), ("F", 0xFFFFFFFF)]
    ((ofLabels labels).offsets "F").Pairwise (· < ·) ∧
    (0xFFFFFFFF ∈ (ofLabels labels).offsets "F" ∧ 0 ∈ (ofLabels labels).offsets "F") ∧
    ofLabels labels = ofLabels [("F", 0), ("F", 0xFFFFFFFF), ("G", 7)] ∧
    ((ofLabels labels).add "F" 7).offsets "G" = (ofLabels labels).offsets "G" := by
  intro labels
  obtain ⟨_, offsets, same, apart⟩ := tables_are_families_of_sets labels
  obtain ⟨ascending, _, member⟩ := offsets "F"
  refine ⟨ascending, ⟨(member _).mpr (by decide), (member _).mpr (by decide)⟩, ?_, ?_⟩
  · apply (same _).mpr
    intro label
    simp only [labels, List.mem_cons]
    tauto
  · exact (apart "F" 7 "G" (by decide)).2

end LabelTable

/-- Classes with the same functions have the same labels, in whatever order and however often
the functions stand. -/
theorem Label.discover_congr {c c' : Class} (same : ∀ f, f ∈ c.functions ↔ f ∈ c'.functions) :
    discover c = discover c' := by
  apply LabelTable.eq_of_has
  · exact LabelTable.foldl_add_ascending _ List.Pairwise.nil
  · exact LabelTable.foldl_add_ascending _ List.Pairwise.nil
  · intro name offset
    simp only [has_discover_iff, same]

namespace Label

theorem toUInt32_injective {value value' : Int32} (same : value.toUInt32 = value'.toUInt32) :
    value = value' := by
  have bits : value.toUInt32.toBitVec = value'.toUInt32.toBitVec := congrArg UInt32.toBitVec same
  exact Int32.toBitVec_inj.mp bits

theorem targets_nodup (c : Class) : (discover c).entries.Nodup := by
  have ascending := LabelTable.ofLabels_ascending (c.functions.flatMap targets)
  apply ascending.imp
  rintro a _ first rfl
  exact LabelTable.before_irrefl a first

/-- A label names one place. Whatever characters function names have, labels have the same text
just for the same function and offset; two calls that enter event graphs at constants jump to
the same label just for the same function and constant; and the targets of a class, of which
the table holds each once, all have labels of their own. -/
theorem labels_name_one_place :
    (∀ f g o p, name f o = name g p ↔ f = g ∧ o = p) ∧
    (∀ value value' : Int32, value.toUInt32 = value'.toUInt32 ↔ value = value') ∧
    (∀ callee callee' value value' rest rest' o o',
      dispatchTarget? callee (.int value :: rest) = some o →
      dispatchTarget? callee' (.int value' :: rest') = some o' →
      (name callee.name o = name callee'.name o' ↔
        callee.name = callee'.name ∧ value = value')) ∧
    ∀ c : Class,
      (∀ t ∈ c.functions.flatMap targets, ∀ t' ∈ c.functions.flatMap targets,
        t ≠ t' → name t.1 t.2 ≠ name t'.1 t'.2) ∧
      (∀ t, t ∈ (discover c).entries ↔ t ∈ c.functions.flatMap targets) ∧
      ((discover c).entries.map fun t => name t.1 t.2).Nodup := by
  have texts (f g : String) (o p : UInt32) : name f o = name g p ↔ f = g ∧ o = p :=
    ⟨name_injective, fun ⟨names, offsets⟩ => by rw [names, offsets]⟩
  have words (value value' : Int32) : value.toUInt32 = value'.toUInt32 ↔ value = value' :=
    ⟨toUInt32_injective, congrArg Int32.toUInt32⟩
  refine ⟨texts, words, ?_, ?_⟩
  · intro callee callee' value value' rest rest' o o' enters enters'
    obtain ⟨_, _, given, _, rfl⟩ := dispatchTarget_eq_some_iff.mp enters
    obtain ⟨_, _, given', _, rfl⟩ := dispatchTarget_eq_some_iff.mp enters'
    cases given
    cases given'
    rw [texts, words]
  · intro c
    refine ⟨?_, ?_, ?_⟩
    · intro t _ t' _ differ same
      obtain ⟨functions, offsets⟩ := name_injective same
      exact differ (Prod.ext functions offsets)
    · rintro ⟨function, offset⟩
      rw [← LabelTable.has_iff]
      exact LabelTable.has_ofLabels
    · apply (targets_nodup c).map
      intro t t' same
      obtain ⟨functions, offsets⟩ := name_injective same
      exact Prod.ext functions offsets

/-- A function name that ends like a label, and a negative constant, lead to no mix-up. -/
theorem labels_name_one_place_underscored :
    name "F_1" 0xA ≠ name "F" 0x1A ∧
    dispatchTarget? ⟨"ExecuteUbergraph", ""⟩ [.int (-1)] = some 0xFFFFFFFF ∧
    dispatchTarget? ⟨"ExecuteUbergraph_F", ""⟩ [.int 15] = some 0xF ∧
    name "ExecuteUbergraph" 0xFFFFFFFF ≠ name "ExecuteUbergraph_F" 0xF := by
  obtain ⟨texts, _, constants, _⟩ := labels_name_one_place
  have enters : dispatchTarget? ⟨"ExecuteUbergraph", ""⟩ [.int (-1)] = some 0xFFFFFFFF := by
    decide
  have enters' : dispatchTarget? ⟨"ExecuteUbergraph_F", ""⟩ [.int 15] = some 0xF := by decide
  refine ⟨?_, enters, enters', ?_⟩
  · rw [ne_eq, texts]
    decide
  · rw [ne_eq, constants _ _ _ _ _ _ _ _ enters enters']
    decide

end Label

end ScriptListing
