import Mathlib.Algebra.Ring.Nat
import Mathlib.Data.List.Basic
import ScriptListing.Text.Characters

/-! Hexadecimal numbers can be read back: no two numbers share a text, and every character
of one is a digit or a letter up to F. -/
namespace ScriptListing.Text

theorem hexValue_upperDigit : ∀ value < 16, hexValue? (upperDigit value) = some value := by
  decide

theorem upperDigit_injective {a b : Nat} (small : a < 16) (small' : b < 16)
    (same : upperDigit a = upperDigit b) : a = b := by
  have values := congrArg hexValue? same
  rw [hexValue_upperDigit a small, hexValue_upperDigit b small'] at values
  exact Option.some.inj values

theorem length_fixedHex (digit : Nat → Char) (n width : Nat) :
    (fixedHex digit n width).length = width := by
  induction width generalizing n with
  | zero => rfl
  | succ width ih => simp [fixedHex, ih]

theorem mem_fixedHex {digit : Nat → Char} {n width : Nat} {c : Char}
    (member : c ∈ fixedHex digit n width) : ∃ value < 16, c = digit value := by
  induction width generalizing n with
  | zero => simp [fixedHex] at member
  | succ width ih =>
    rcases List.mem_append.mp member with above | last
    · exact ih above
    · exact ⟨n % 16, Nat.mod_lt _ (by decide), List.mem_singleton.mp last⟩

/-- Numbers that fit into the width differ in a digit. -/
theorem fixedHex_upperDigit_injective {n m width : Nat} (fits : n < 16 ^ width)
    (fits' : m < 16 ^ width)
    (same : fixedHex upperDigit n width = fixedHex upperDigit m width) : n = m := by
  induction width generalizing n m with
  | zero =>
    simp only [Nat.pow_zero] at fits fits'
    omega
  | succ width ih =>
    obtain ⟨above, last⟩ := List.append_inj' same rfl
    have high : n / 16 = m / 16 := by
      apply ih _ _ above <;> rw [Nat.pow_succ] at fits fits' <;> omega
    have low : n % 16 = m % 16 :=
      upperDigit_injective (Nat.mod_lt _ (by decide)) (Nat.mod_lt _ (by decide))
        (List.singleton_inj.mp last)
    omega

theorem lt_hexWidth (n : Nat) : n < 16 ^ hexWidth n := by
  have bound : n < 2 ^ (n.log2 + 1) := Nat.lt_log2_self
  have wide : 2 ^ (n.log2 + 1) ≤ 2 ^ (4 * hexWidth n) :=
    Nat.pow_le_pow_right (by decide) (by unfold hexWidth; omega)
  calc n < 2 ^ (n.log2 + 1) := bound
    _ ≤ 2 ^ (4 * hexWidth n) := wide
    _ = 16 ^ hexWidth n := by rw [Nat.pow_mul]

theorem upperHex_injective {n m : Nat} (same : upperHex n = upperHex m) : n = m := by
  have chars := String.ofList_injective same
  have widths : hexWidth n = hexWidth m := by
    simpa only [length_fixedHex] using congrArg List.length chars
  rw [← widths] at chars
  exact fixedHex_upperDigit_injective (lt_hexWidth n) (widths ▸ lt_hexWidth m) chars

theorem hexValue_lowerDigit : ∀ value < 16, hexValue? (lowerDigit value) = some value := by
  decide

theorem lowerDigit_injective {a b : Nat} (small : a < 16) (small' : b < 16)
    (same : lowerDigit a = lowerDigit b) : a = b := by
  have values := congrArg hexValue? same
  rw [hexValue_lowerDigit a small, hexValue_lowerDigit b small'] at values
  exact Option.some.inj values

theorem hexValue?_toLower (c : Char) : hexValue? c.toLower = hexValue? c := by
  by_cases narrow : c.toNat < 128
  · have each : ∀ n < 128, hexValue? (Char.ofNat n).toLower = hexValue? (Char.ofNat n) := by
      decide +kernel
    simpa using each c.toNat narrow
  · have caseless : ¬ (c.val ≥ 'A'.val ∧ c.val ≤ 'Z'.val) := by
      rintro ⟨_, high⟩
      exact narrow (Nat.lt_of_le_of_lt (UInt32.le_iff_toNat_le.mp high) (by decide))
    have same : c.toLower = c := dif_neg caseless
    rw [same]

/-- A digit is told by its lower case. -/
theorem hexValue?_eq_some {c : Char} {value : Nat} :
    hexValue? c = some value ↔ value < 16 ∧ c.toLower = lowerDigit value := by
  constructor
  · intro found
    have narrow : c.toNat < 128 := by
      by_contra wide
      have none : hexValue? c = none := by
        simp only [hexValue?]
        rw [if_neg, if_neg, if_neg] <;> simp <;> omega
      rw [none] at found
      cases found
    have each : ∀ n < 128, (hexValue? (Char.ofNat n)).all fun value =>
        value < 16 ∧ (Char.ofNat n).toLower = lowerDigit value := by
      decide +kernel
    have here := each c.toNat narrow
    rw [Char.ofNat_toNat, found] at here
    simpa using here
  · rintro ⟨small, same⟩
    rw [← hexValue?_toLower, same, hexValue_lowerDigit value small]

theorem underscore_notMem_upperHex (n : Nat) : '_' ∉ (upperHex n).toList := by
  intro member
  rw [upperHex, String.toList_ofList] at member
  obtain ⟨value, small, equal⟩ := mem_fixedHex member
  have digit := hexValue_upperDigit value small
  rw [← equal] at digit
  exact absurd digit (by simp [hexValue?])

end ScriptListing.Text
