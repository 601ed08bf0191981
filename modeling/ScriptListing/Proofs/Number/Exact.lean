import Mathlib.Tactic.Ring
import ScriptListing.Proofs.Number.Numeral

/-! Binary numbers as decimal ones. Every number of a width has a numeral of exactly its
value, and a numeral of exactly the value of a number is read as that number. -/
namespace ScriptListing.Number

/-- The finite numbers of a width: the mantissa has all its bits unless the exponent is the
least. -/
structure Width.Has (width : Width) (mantissa : Nat) (exponent : Int) : Prop where
  fits : mantissa < 2 ^ width.precision
  least : width.least ≤ exponent
  greatest : exponent ≤ width.greatest
  full : 2 ^ (width.precision - 1) ≤ mantissa ∨ exponent = width.least

def Binary.IsOf (width : Width) : Binary → Prop
  | nan | infinite _ => True
  | finite _ mantissa exponent => width.Has mantissa exponent

theorem inUnits_eq (num den : Nat) (exponent : Int) :
    inUnits num den exponent = (num * 2 ^ (-exponent).toNat, den * 2 ^ exponent.toNat) := by
  unfold inUnits
  split
  · have none : (-exponent).toNat = 0 := by omega
    simp [none]
  · have none : exponent.toNat = 0 := by omega
    simp [none]

def IsExactly (num den mantissa : Nat) (exponent : Int) : Prop :=
  num * 2 ^ (-exponent).toNat = mantissa * (den * 2 ^ exponent.toNat)

namespace IsExactly

variable {num den mantissa : Nat} {exponent : Int}

theorem pos (exact : IsExactly num den mantissa exponent) (given : num ≠ 0) : 0 < mantissa := by
  rcases Nat.eq_zero_or_pos mantissa with rfl | found
  · simp [IsExactly, given] at exact
  · exact found

theorem refl (mantissa : Nat) (exponent : Int) :
    IsExactly (mantissa * 2 ^ exponent.toNat) (2 ^ (-exponent).toNat) mantissa exponent := by
  unfold IsExactly
  ring

theorem shift (exact : IsExactly num den mantissa exponent) (steps : Nat) :
    IsExactly num den (mantissa * 2 ^ steps) (exponent - steps) := by
  obtain ⟨t, below, above⟩ : ∃ t, (-(exponent - steps)).toNat + t = (-exponent).toNat + steps ∧
      (exponent - steps).toNat + t = exponent.toNat :=
    ⟨exponent.toNat - (exponent - steps).toNat, by omega, by omega⟩
  unfold IsExactly at exact ⊢
  apply Nat.eq_of_mul_eq_mul_right (Nat.two_pow_pos t)
  calc num * 2 ^ (-(exponent - steps)).toNat * 2 ^ t
      = num * 2 ^ (-exponent).toNat * 2 ^ steps := by
        rw [Nat.mul_assoc, ← Nat.pow_add, below, Nat.pow_add, Nat.mul_assoc]
    _ = mantissa * (den * 2 ^ exponent.toNat) * 2 ^ steps := by rw [exact]
    _ = mantissa * 2 ^ steps * (den * 2 ^ (exponent - steps).toNat) * 2 ^ t := by
        rw [← above, Nat.pow_add]
        ring

theorem scale (exact : IsExactly num den mantissa exponent) (factor : Nat) :
    IsExactly (num * factor) (den * factor) mantissa exponent := by
  unfold IsExactly at exact ⊢
  calc num * factor * 2 ^ (-exponent).toNat
      = num * 2 ^ (-exponent).toNat * factor := by ring
    _ = mantissa * (den * factor * 2 ^ exponent.toNat) := by
        rw [exact]
        ring

theorem quotient (exact : IsExactly num den mantissa exponent) (positive : 0 < den) :
    (inUnits num den exponent).1 / (inUnits num den exponent).2 = mantissa := by
  rw [inUnits_eq]
  dsimp only
  rw [exact]
  exact Nat.mul_div_cancel _ (Nat.mul_pos positive (Nat.two_pow_pos _))

/-- The units of `num / den` by the lengths of both give the exponent or the one below. -/
theorem lengths (exact : IsExactly num den mantissa exponent) {width : Width}
    (has : width.Has mantissa exponent) (positive : 0 < den) (given : num ≠ 0) :
    (Nat.log2 num : Int) - Nat.log2 den - width.precision ≤ exponent ∧
      (exponent ≤ (Nat.log2 num : Int) - Nat.log2 den - width.precision + 1 ∨
        exponent = width.least) := by
  have num_low := Nat.log2_self_le given
  have num_high := @Nat.lt_log2_self num
  have den_low := Nat.log2_self_le (Nat.pos_iff_ne_zero.mp positive)
  have den_high := @Nat.lt_log2_self den
  unfold IsExactly at exact
  constructor
  · have : 2 ^ (num.log2 + (-exponent).toNat) <
        2 ^ (width.precision + (den.log2 + 1) + exponent.toNat) := by
      calc 2 ^ (num.log2 + (-exponent).toNat)
          ≤ num * 2 ^ (-exponent).toNat := by
            rw [Nat.pow_add]
            exact Nat.mul_le_mul_right _ num_low
        _ = mantissa * den * 2 ^ exponent.toNat := by rw [exact, Nat.mul_assoc]
        _ < 2 ^ (width.precision + (den.log2 + 1) + exponent.toNat) := by
            rw [Nat.pow_add, Nat.pow_add _ width.precision]
            exact Nat.mul_lt_mul_of_pos_right
              (Nat.mul_lt_mul'' has.fits den_high) (Nat.two_pow_pos _)
    have := (Nat.pow_lt_pow_iff_right (by decide)).mp this
    omega
  · rcases has.full with full | least
    · left
      have : 2 ^ (width.precision - 1 + den.log2 + exponent.toNat) <
          2 ^ (num.log2 + 1 + (-exponent).toNat) := by
        calc 2 ^ (width.precision - 1 + den.log2 + exponent.toNat)
            ≤ mantissa * den * 2 ^ exponent.toNat := by
              rw [Nat.pow_add, Nat.pow_add]
              exact Nat.mul_le_mul_right _ (Nat.mul_le_mul full den_low)
          _ = num * 2 ^ (-exponent).toNat := by rw [exact, Nat.mul_assoc]
          _ < 2 ^ (num.log2 + 1 + (-exponent).toNat) := by
              rw [Nat.pow_add]
              exact Nat.mul_lt_mul_of_pos_right num_high (Nat.two_pow_pos _)
      have := (Nat.pow_lt_pow_iff_right (by decide)).mp this
      omega
    · exact .inr least

theorem unitOf (exact : IsExactly num den mantissa exponent) {width : Width}
    (has : width.Has mantissa exponent) (positive : 0 < den) (given : num ≠ 0) :
    width.unitOf num den = exponent := by
  obtain ⟨high, low⟩ := exact.lengths has positive given
  have least := has.least
  have guess : max ((Nat.log2 num : Int) - Nat.log2 den - width.precision) width.least = exponent ∨
      max ((Nat.log2 num : Int) - Nat.log2 den - width.precision) width.least = exponent - 1 ∧
        width.least < exponent := by omega
  unfold Width.unitOf
  simp only [Nat.pow_eq]
  rcases guess with same | ⟨below, above⟩
  · rw [same, exact.quotient positive]
    exact if_pos has.fits
  · have full : 2 ^ (width.precision - 1) ≤ mantissa := by
      rcases has.full with full | least
      · exact full
      · omega
    have double : 2 ^ width.precision ≤ mantissa * 2 ^ 1 := by
      cases bits : width.precision with
      | zero => have := exact.pos given; omega
      | succ k =>
        rw [bits, Nat.add_sub_cancel] at full
        rw [Nat.pow_succ]
        omega
    have quotient := (exact.shift 1).quotient positive
    rw [below, show exponent - 1 = exponent - ((1 : Nat) : Int) from rfl, quotient,
      if_neg (Nat.not_lt.mpr double)]
    omega

theorem nearest (exact : IsExactly num den mantissa exponent) {width : Width}
    (has : width.Has mantissa exponent) (positive : 0 < den) (negative : Bool) :
    Binary.nearest width negative num den = .finite negative mantissa exponent := by
  unfold Binary.nearest
  split
  · next zero =>
    subst zero
    have none : mantissa = 0 := by
      unfold IsExactly at exact
      have := Nat.mul_pos positive (Nat.two_pow_pos exponent.toNat)
      simpa [Nat.pos_iff_ne_zero.mp this] using exact.symm
    subst none
    rcases has.full with full | least
    · exact absurd full (Nat.not_le.mpr (Nat.two_pow_pos _))
    · rw [least]
  · next given =>
    have quotient := exact.quotient positive
    have rest : (inUnits num den exponent).1 % (inUnits num den exponent).2 = 0 := by
      rw [inUnits_eq]
      dsimp only
      rw [exact]
      exact Nat.mul_mod_left _ _
    have unit : 0 < (inUnits num den exponent).2 := by
      rw [inUnits_eq]
      exact Nat.mul_pos positive (Nat.two_pow_pos _)
    have rounded : roundDiv (inUnits num den exponent).1 (inUnits num den exponent).2 =
        mantissa := by
      unfold roundDiv
      rw [quotient, rest]
      exact if_neg (by omega)
    dsimp only
    rw [exact.unitOf has positive given, rounded]
    unfold Binary.carry
    rw [Nat.pow_eq, if_neg (Nat.ne_of_lt has.fits)]
    exact if_neg (Int.not_lt.mpr has.greatest)

end IsExactly

theorem toWidth_exact {width : Width} {mantissa mantissa' : Nat} {exponent exponent' : Int}
    (same : IsExactly (mantissa * 2 ^ exponent.toNat) (2 ^ (-exponent).toNat) mantissa' exponent')
    (has : width.Has mantissa' exponent') (negative : Bool) :
    (Binary.finite negative mantissa exponent).toWidth width =
      .finite negative mantissa' exponent' := by
  rw [← same.nearest has (Nat.two_pow_pos _) negative]
  unfold Binary.toWidth
  simp only [Nat.pow_eq]
  split
  · rw [show (-exponent).toNat = 0 by omega, Nat.pow_zero]
  · rw [show exponent.toNat = 0 by omega, Nat.pow_zero, Nat.mul_one]

theorem Width.has_zero {width : Width} (ordered : width.least ≤ width.greatest) :
    width.Has 0 width.least :=
  ⟨Nat.two_pow_pos _, Int.le_refl _, ordered, .inr rfl⟩

/-- Every number of single width has double width, and narrows to itself again. -/
theorem Binary.IsOf.widen {x : Binary} (single : x.IsOf .single) :
    (x.toWidth .double).IsOf .double ∧ (x.toWidth .double).toWidth .single = x := by
  cases x with
  | nan => exact ⟨trivial, rfl⟩
  | infinite negative => exact ⟨trivial, rfl⟩
  | finite negative mantissa exponent =>
    obtain ⟨fits, least, greatest, full⟩ := id single
    dsimp only [Width.single] at fits least greatest full
    rcases Nat.eq_zero_or_pos mantissa with rfl | positive
    · have zero : Width.double.Has 0 Width.double.least := Width.has_zero (by decide)
      rw [toWidth_exact (by simp [IsExactly]) zero]
      exact ⟨zero, toWidth_exact (by simp [IsExactly]) single negative⟩
    · have given : mantissa ≠ 0 := Nat.pos_iff_ne_zero.mp positive
      have bits := Nat.log2_self_le given
      have bits' := @Nat.lt_log2_self mantissa
      have short : mantissa.log2 < 24 := (Nat.log2_lt given).mpr fits
      -- As many zeros as a mantissa of double width has bits more.
      obtain ⟨steps, length⟩ : ∃ steps, mantissa.log2 + steps = 52 :=
        ⟨52 - mantissa.log2, by omega⟩
      have double : Width.double.Has (mantissa * 2 ^ steps) (exponent - steps) := by
        dsimp only [Width.double]
        refine ⟨?_, by dsimp only; omega, by dsimp only; omega, .inl ?_⟩
        · calc mantissa * 2 ^ steps < 2 ^ (mantissa.log2 + 1) * 2 ^ steps :=
                Nat.mul_lt_mul_of_pos_right bits' (Nat.two_pow_pos _)
            _ = 2 ^ 53 := by rw [← Nat.pow_add, show mantissa.log2 + 1 + steps = 53 by omega]
        · calc 2 ^ 52 = 2 ^ mantissa.log2 * 2 ^ steps := by rw [← Nat.pow_add, length]
            _ ≤ mantissa * 2 ^ steps := Nat.mul_le_mul_right _ bits
      have wide := toWidth_exact ((IsExactly.refl mantissa exponent).shift steps) double negative
      rw [wide]
      refine ⟨double, toWidth_exact ?_ single negative⟩
      unfold IsExactly
      have powers : steps + (exponent - steps).toNat + (-exponent).toNat =
          (-(exponent - steps)).toNat + exponent.toNat := by omega
      rw [Nat.mul_assoc, Nat.mul_assoc, ← Nat.pow_add, ← Nat.pow_add, ← Nat.pow_add,
        ← Nat.add_assoc, powers]

namespace Decimal

def exact (negative : Bool) (mantissa : Nat) (exponent : Int) : Decimal :=
  ⟨negative, mantissa * 2 ^ exponent.toNat * 5 ^ (-exponent).toNat, min exponent 0⟩

theorem digitCount_le {mantissa e k n : Nat} (fits : mantissa < 2 ^ 53) (size : 53 + e ≤ 3 * n) :
    digitCount (mantissa * 2 ^ e * 5 ^ k) ≤ n + k := by
  refine (Nat.length_toDigits_le_iff (by decide) (by omega)).mpr ?_
  calc mantissa * 2 ^ e * 5 ^ k < 2 ^ 53 * 2 ^ e * 5 ^ k :=
        Nat.mul_lt_mul_of_pos_right
          (Nat.mul_lt_mul_of_pos_right fits (Nat.two_pow_pos _)) (Nat.pow_pos (by decide))
    _ = 2 ^ (53 + e) * 5 ^ k := by rw [Nat.pow_add]
    _ ≤ 2 ^ (3 * n) * 5 ^ k := Nat.mul_le_mul_right _ (Nat.pow_le_pow_right (by decide) size)
    _ = (2 ^ 3) ^ n * 5 ^ k := by rw [Nat.pow_mul]
    _ ≤ 10 ^ n * 10 ^ k :=
        Nat.mul_le_mul (Nat.pow_le_pow_left (by decide) n) (Nat.pow_le_pow_left (by decide) k)
    _ = 10 ^ (n + k) := (Nat.pow_add _ _ _).symm

theorem le_digitCount {mantissa e k n : Nat} (positive : 0 < mantissa) (size : k ≤ 3 * n) :
    k ≤ digitCount (mantissa * 2 ^ e * 5 ^ k) + n := by
  by_contra far
  have some : 0 < digitCount (mantissa * 2 ^ e * 5 ^ k) := Nat.length_toDigits_pos
  obtain ⟨j, split⟩ : ∃ j, k = n + 1 + j := ⟨k - (n + 1), by omega⟩
  have few : digitCount (mantissa * 2 ^ e * 5 ^ k) ≤ j := by omega
  have below : mantissa * 2 ^ e * 5 ^ k < 10 ^ j :=
    (Nat.length_toDigits_le_iff (by decide) (by omega)).mp few
  have above : 10 ^ j ≤ mantissa * 2 ^ e * 5 ^ k :=
    calc 10 ^ j = 2 ^ j * 5 ^ j := Nat.mul_pow 2 5 j
      _ ≤ 2 ^ (2 * (n + 1)) * 5 ^ j :=
          Nat.mul_le_mul_right _ (Nat.pow_le_pow_right (by decide) (by omega))
      _ = (2 ^ 2) ^ (n + 1) * 5 ^ j := by rw [Nat.pow_mul]
      _ ≤ 5 ^ (n + 1) * 5 ^ j := Nat.mul_le_mul_right _ (Nat.pow_le_pow_left (by decide) _)
      _ = 5 ^ k := by rw [← Nat.pow_add, split]
      _ ≤ mantissa * 2 ^ e * 5 ^ k :=
          Nat.le_mul_of_pos_left _ (Nat.mul_pos positive (Nat.two_pow_pos _))
  omega

/-- The first digit of such a number stands near the point. -/
theorem place_exact {mantissa : Nat} {exponent : Int} (has : Width.double.Has mantissa exponent)
    (positive : 0 < mantissa) (negative : Bool) :
    -400 ≤ (exact negative mantissa exponent).exponent +
        (digitCount (exact negative mantissa exponent).coefficient : Int) ∧
      (exact negative mantissa exponent).exponent +
        (digitCount (exact negative mantissa exponent).coefficient : Int) ≤ 400 := by
  have least : -1074 ≤ exponent := has.least
  have greatest : exponent ≤ 971 := has.greatest
  have upper := @digitCount_le mantissa exponent.toNat (-exponent).toNat 400 has.fits (by omega)
  have lower := @le_digitCount mantissa exponent.toNat (-exponent).toNat 400 positive (by omega)
  dsimp only [exact]
  omega

/-- Near the point a numeral is rounded as the fraction it is. -/
theorem toBinary_near (width : Width) {d : Decimal} (given : d.coefficient ≠ 0)
    (near : -400 ≤ d.exponent + (digitCount d.coefficient : Int) ∧
      d.exponent + (digitCount d.coefficient : Int) ≤ 400) :
    toBinary width d = .nearest width d.negative (d.coefficient * 10 ^ d.exponent.toNat)
      (10 ^ (-d.exponent).toNat) := by
  unfold toBinary
  rw [if_neg given]
  dsimp only
  rw [if_neg (Int.not_lt.mpr near.2), if_neg (Int.not_lt.mpr near.1)]
  split
  · rw [show (-d.exponent).toNat = 0 by omega, Nat.pow_eq, Nat.pow_zero]
  · rw [show d.exponent.toNat = 0 by omega, Nat.pow_eq, Nat.pow_zero, Nat.mul_one]

theorem toBinary_exact {mantissa : Nat} {exponent : Int}
    (has : Width.double.Has mantissa exponent) (negative : Bool) :
    toBinary .double (exact negative mantissa exponent) = .finite negative mantissa exponent := by
  have value : IsExactly (mantissa * 2 ^ exponent.toNat * 5 ^ (-exponent).toNat)
      (10 ^ (-exponent).toNat) mantissa exponent := by
    have scaled := (IsExactly.refl mantissa exponent).scale (5 ^ (-exponent).toNat)
    rwa [← Nat.mul_pow 2 5] at scaled
  rw [← value.nearest has (Nat.pow_pos (by decide)) negative]
  rcases Nat.eq_zero_or_pos mantissa with rfl | positive
  · simp [toBinary, exact, Binary.nearest]
  · have given : (exact negative mantissa exponent).coefficient ≠ 0 :=
      Nat.pos_iff_ne_zero.mp (Nat.mul_pos (Nat.mul_pos positive (Nat.two_pow_pos _))
        (Nat.pow_pos (by decide)))
    have none : (min exponent 0).toNat = 0 := by omega
    have tens : (-min exponent 0).toNat = (-exponent).toNat := by omega
    rw [toBinary_near .double given (place_exact has positive negative)]
    simp only [exact, none, tens, Nat.pow_zero, Nat.mul_one]

example : String.ofList (exact true 3 (-1)).scientific = "-15e-1" := by decide

end Decimal
end ScriptListing.Number
