import Mathlib.Data.List.DropRight
import ScriptListing.Text.Characters

/-! Texts without white space at their ends. Trimming leaves such a text, and finds it again
whatever white space is put around it. -/
namespace ScriptListing.Text

variable {p : Char → Bool} {text before after : List Char} {c : Char}

theorem dropEnd_eq_rdropWhile (p : Char → Bool) (text : List Char) :
    dropEnd p text = text.rdropWhile p := rfl

/-- What is left ends with a character that stays. -/
theorem getLast?_dropEnd (last : (dropEnd p text).getLast? = some c) : p c = false := by
  have filled : text.rdropWhile p ≠ [] := List.ne_nil_of_mem (List.mem_of_getLast? last)
  have equal : (text.rdropWhile p).getLast filled = c := List.getLast_of_getLast?_eq_some last
  simpa [equal] using List.rdropWhile_last_not p text filled

/-- Above the space, ASCII has no white space. -/
theorem isBlank_ascii (low : 0x20 < c.toNat) (high : c.toNat < 0x80) : isBlank c = false := by
  simp only [isBlank, Bool.or_eq_false_iff, Bool.and_eq_false_iff, decide_eq_false_iff_not,
    beq_eq_false_iff_ne]
  omega

structure Trimmed (text : List Char) : Prop where
  starts : ∀ c, text.head? = some c → isBlank c = false
  ends : ∀ c, text.getLast? = some c → isBlank c = false

theorem trimmed_trimBlanks (text : List Char) : Trimmed (trimBlanks text) := by
  refine ⟨fun c first => ?_, fun c last => getLast?_dropEnd last⟩
  obtain ⟨rest, whole⟩ : trimBlanks text <+: text.dropWhile isBlank :=
    List.rdropWhile_prefix isBlank _
  have kept := List.head?_dropWhile_not isBlank text
  rw [← whole, List.head?_append, first] at kept
  simpa using kept

theorem trimmed_of_visible (visible : ∀ c ∈ text, isBlank c = false) : Trimmed text :=
  ⟨fun c first => visible c (List.mem_of_mem_head? first),
    fun c last => visible c (List.mem_of_getLast? last)⟩

/-- White space around a text is trimmed, and nothing else. -/
theorem trimBlanks_padded (trimmed : Trimmed text) (left : ∀ c ∈ before, isBlank c)
    (right : ∀ c ∈ after, isBlank c) : trimBlanks (before ++ text ++ after) = text := by
  have behind : (text ++ after).rdropWhile isBlank = text.rdropWhile isBlank := by
    rw [List.rdropWhile, List.reverse_append,
      List.dropWhile_append_of_pos (by simpa using right), List.rdropWhile]
  have stays : text.rdropWhile isBlank = text := by
    rw [List.rdropWhile_eq_self_iff]
    intro filled
    simp [trimmed.ends _ (List.getLast?_eq_some_getLast filled)]
  rw [trimBlanks, dropEnd_eq_rdropWhile, List.append_assoc, List.dropWhile_append_of_pos left]
  cases text with
  | nil =>
    rw [List.nil_append, List.dropWhile_eq_nil_iff.mpr right, List.rdropWhile_nil]
  | cons c rest =>
    have kept : isBlank c = false := trimmed.starts c rfl
    rw [List.cons_append, List.dropWhile_cons_of_neg (by simp [kept]), ← List.cons_append,
      behind, stays]

/-- What trimming takes away is white space at the ends. -/
theorem exists_padding (text : List Char) : ∃ before after : List Char,
    (∀ c ∈ before, isBlank c) ∧ (∀ c ∈ after, isBlank c) ∧
      before ++ trimBlanks text ++ after = text := by
  refine ⟨text.takeWhile isBlank, (text.dropWhile isBlank).rtakeWhile isBlank, ?_, ?_, ?_⟩
  · exact fun c member => List.mem_takeWhile_imp member
  · exact fun c member => List.mem_rtakeWhile_imp member
  · rw [trimBlanks, dropEnd_eq_rdropWhile, List.append_assoc, List.rdropWhile_append_rtakeWhile,
      List.takeWhile_append_dropWhile]

theorem trimBlanks_around (text : List Char) (left : ∀ c ∈ before, isBlank c)
    (right : ∀ c ∈ after, isBlank c) : trimBlanks (before ++ text ++ after) = trimBlanks text := by
  obtain ⟨front, back, first, last, whole⟩ := exists_padding text
  have wider : before ++ text ++ after = before ++ front ++ trimBlanks text ++ (back ++ after) := by
    nth_rewrite 1 [← whole]
    simp only [List.append_assoc]
  rw [wider]
  apply trimBlanks_padded (trimmed_trimBlanks text)
  · exact fun c member => (List.mem_append.mp member).elim (left c) (first c)
  · exact fun c member => (List.mem_append.mp member).elim (last c) (right c)

/-- A character that is no white space stays. -/
theorem mem_trimBlanks (member : c ∈ text) (visible : isBlank c = false) : c ∈ trimBlanks text := by
  obtain ⟨front, back, first, last, whole⟩ := exists_padding text
  rw [← whole, List.mem_append, List.mem_append] at member
  rcases member with (early | kept) | late
  · simp [first c early] at visible
  · exact kept
  · simp [last c late] at visible

/-- Nothing is left of white space, and of no other text. -/
theorem trimBlanks_eq_nil_iff : trimBlanks text = [] ↔ ∀ c ∈ text, isBlank c := by
  constructor
  · intro empty c member
    by_contra visible
    have kept := mem_trimBlanks member (by simpa using visible)
    simp [empty] at kept
  · intro blank
    have around := @trimBlanks_around text [] [] blank (by simp)
    rw [List.append_nil, List.append_nil] at around
    exact around

end ScriptListing.Text
