import Mathlib.Data.List.TakeWhile
import ScriptListing.Number.Decimal

/-! Numerals and the numbers they are read as. An integer in decimal notation is read as
that integer, and a decimal number in scientific notation as that number. -/
namespace ScriptListing.Number

def Digits (text : List Char) : Prop := ∀ c ∈ text, Decimal.isDigit c = true

namespace Digits

theorem bounds {c : Char} (digit : Decimal.isDigit c = true) : 48 ≤ c.toNat ∧ c.toNat ≤ 57 := by
  simpa [Decimal.isDigit] using digit

theorem of_toDigits (n : Nat) : Digits (Nat.toDigits 10 n) := by
  intro c member
  have digit := Nat.isDigit_of_mem_toDigits (by decide) (by decide) member
  rw [Char.isDigit_iff_toNat] at digit
  simpa [Decimal.isDigit] using digit

theorem ne {c other : Char} (digit : Decimal.isDigit c = true)
    (differs : Decimal.isDigit other = false) : c ≠ other := by
  rintro rfl
  simp [digit] at differs

theorem tail {c : Char} {rest : List Char} (digits : Digits (c :: rest)) : Digits rest :=
  fun other member => digits other (List.mem_cons_of_mem c member)

end Digits

theorem digitValue?_digit {c : Char} (digit : Decimal.isDigit c = true) :
    digitValue? c = some (c.toNat - 48) := by
  have := Digits.bounds digit
  simp [digitValue?, this]

theorem digitsValue?_cons {c : Char} (base value : Nat) (rest : List Char) (other : c ≠ '_') :
    digitsValue? base value (c :: rest) =
      match digitValue? c with
      | some d => if d < base then digitsValue? base (value * base + d) rest else none
      | none => none := by
  rw [digitsValue?.eq_def]
  split
  · next equal => cases equal
  · next equal => exact absurd (List.cons.inj equal).1 other
  · next equal =>
    obtain ⟨rfl, rfl⟩ := List.cons.inj equal
    rfl

theorem digitsValue?_digits {text : List Char} (digits : Digits text) (value : Nat) :
    digitsValue? 10 value text = some (Nat.ofDigitChars 10 text value) := by
  induction text generalizing value with
  | nil => rfl
  | cons c rest ih =>
    have digit := digits c List.mem_cons_self
    have bounds := Digits.bounds digit
    have value' : c.toNat - 48 < 10 := by omega
    rw [digitsValue?_cons 10 value rest (Digits.ne digit rfl), digitValue?_digit digit,
      Nat.ofDigitChars_cons, Nat.mul_comm 10 value]
    simpa [value'] using ih digits.tail _

theorem digitsValue?_none {base : Nat} {c : Char} (other : c ≠ '_')
    (foreign : ∀ d, digitValue? c = some d → base ≤ d) (before after : List Char)
    (value : Nat) : digitsValue? base value (before ++ c :: after) = none := by
  induction before generalizing value with
  | nil =>
    rw [List.nil_append, digitsValue?_cons base value after other]
    cases found : digitValue? c with
    | none => rfl
    | some d => exact if_neg (Nat.not_lt.mpr (foreign d found))
  | cons b before ih =>
    rw [List.cons_append]
    by_cases mark : b = '_'
    · subst mark
      exact ih value
    · rw [digitsValue?_cons base value _ mark]
      cases digitValue? b with
      | none => rfl
      | some d => simp [ih]

theorem separatedDigits?_foreign {base : Nat} {c : Char} (other : c ≠ '_')
    (foreign : ∀ d, digitValue? c = some d → base ≤ d) (marked : Bool) {digits : List Char}
    (member : c ∈ digits) : separatedDigits? base marked digits = none := by
  obtain ⟨before, after, rfl⟩ := List.append_of_mem member
  unfold separatedDigits?
  rw [digitsValue?_none other foreign]
  simp

theorem natural?_foreign {c : Char} {text : List Char} (other : c ≠ '_')
    (foreign : digitValue? c = none) (member : c ∈ text) : natural? text = none := by
  have spoils (base : Nat) (marked : Bool) {digits : List Char} (inside : c ∈ digits) :
      separatedDigits? base marked digits = none :=
    separatedDigits?_foreign other (by simp [foreign]) marked inside
  -- The characters of a base mark are digits of some base.
  have digit {mark : Char} (known : (digitValue? mark).isSome) : c ≠ mark := by
    rintro rfl
    simp [foreign] at known
  rw [natural?.eq_def]
  split
  · rfl
  · exact absurd (List.mem_singleton.mp member) (digit rfl)
  · next mark first rest =>
    have behind := (List.mem_cons.mp member).resolve_left (digit rfl)
    have digits {low high : Char} (named : (mark == low || mark == high) = true)
        (known : (digitValue? low).isSome) (known' : (digitValue? high).isSome) :
        c ∈ first :: rest := by
      refine (List.mem_cons.mp behind).resolve_left ?_
      rcases Bool.or_eq_true_iff.mp named with same | same
      · exact eq_of_beq same ▸ digit known
      · exact eq_of_beq same ▸ digit known'
    dsimp only
    split_ifs with hexadecimal octal binary
    · exact spoils 16 true (digits hexadecimal rfl rfl)
    · exact spoils 8 true (digits octal rfl rfl)
    · exact spoils 2 true (digits binary rfl rfl)
    · exact spoils 8 true behind
  · exact spoils 8 true ((List.mem_cons.mp member).resolve_left (digit rfl))
  · exact spoils 10 false member

theorem underscoresSeparate_none {text : List Char} (without : '_' ∉ text)
    (isDigit : Char → Bool) (afterDigit : Bool) :
    underscoresSeparate isDigit afterDigit text = true := by
  induction text generalizing afterDigit with
  | nil => rfl
  | cons c rest ih =>
    have other : '_' ≠ c := fun equal => without (equal ▸ List.mem_cons_self)
    rw [underscoresSeparate.eq_def]
    split
    · rfl
    · next equal => exact absurd (List.cons.inj equal).1.symm other
    · next equal =>
      obtain ⟨rfl, rfl⟩ := List.cons.inj equal
      exact ih (fun member => without (List.mem_cons_of_mem _ member)) _

theorem head_toDigits {n : Nat} (positive : 0 < n) : (Nat.toDigits 10 n).head? ≠ some '0' := by
  induction n using Nat.strongRecOn with
  | ind n ih =>
    by_cases small : n < 10
    · rw [Nat.toDigits_of_lt_base small]
      exact (by decide : ∀ k < 10, 0 < k → [k.digitChar].head? ≠ some '0') n small positive
    · have smaller := ih (n / 10) (by omega) (by omega)
      rw [Nat.toDigits_of_base_le (by decide) (by omega), List.head?_append]
      cases head : (Nat.toDigits 10 (n / 10)).head? with
      | none => exact absurd (List.head?_eq_none_iff.mp head) Nat.toDigits_ne_nil
      | some c => simpa [head] using smaller

theorem natural?_of_head {text : List Char} (given : text ≠ []) (head : text.head? ≠ some '0') :
    natural? text = separatedDigits? 10 false text := by
  cases text with
  | nil => exact absurd rfl given
  | cons c rest =>
    have other : c ≠ '0' := fun equal => head (by rw [equal]; rfl)
    rw [natural?.eq_def]
    split <;> simp_all

theorem natural?_unstarted {c : Char} (other : Decimal.isDigit c = false) (rest : List Char) :
    natural? (c :: rest) = none := by
  have nonzero : c ≠ '0' := by
    rintro rfl
    cases other
  rw [natural?_of_head (by simp) (by simpa using nonzero)]
  by_cases separator : c = '_'
  · subst separator
    have misplaced : underscoresSeparate isDigit false ('_' :: rest) = false := by
      rw [underscoresSeparate.eq_def]
      rfl
    rw [separatedDigits?, misplaced]
    rfl
  · apply separatedDigits?_foreign separator _ _ List.mem_cons_self
    intro d found
    have outside : ¬ (48 ≤ c.toNat ∧ c.toNat ≤ 57) := by simpa [Decimal.isDigit] using other
    simp only [digitValue?, Bool.and_eq_true, decide_eq_true_eq, if_neg outside] at found
    split_ifs at found <;> cases found <;> omega

theorem natural?_toDigits (n : Nat) : natural? (Nat.toDigits 10 n) = some n := by
  rcases Nat.eq_zero_or_pos n with rfl | positive
  · rfl
  · have digits := Digits.of_toDigits n
    rw [natural?_of_head Nat.toDigits_ne_nil (head_toDigits positive), separatedDigits?,
      underscoresSeparate_none Nat.underscore_not_in_toDigits, if_pos rfl,
      digitsValue?_digits digits, Nat.ofDigitChars_ten_toDigits]

def signedText (negative : Bool) (text : List Char) : List Char :=
  if negative then '-' :: text else text

theorem splitSign_signedText (negative : Bool) (n : Nat) (rest : List Char) :
    splitSign (signedText negative (Nat.toDigits 10 n ++ rest)) =
      (negative, Nat.toDigits 10 n ++ rest) := by
  cases negative with
  | true => rfl
  | false =>
    cases text : Nat.toDigits 10 n with
    | nil => exact absurd text Nat.toDigits_ne_nil
    | cons c more =>
      have digit := Digits.of_toDigits n c (by rw [text]; exact List.mem_cons_self)
      rw [signedText, splitSign.eq_def]
      split
      · next equal => exact absurd (List.cons.inj equal).1 (Digits.ne digit rfl)
      · next equal => exact absurd (List.cons.inj equal).1 (Digits.ne digit rfl)
      · rfl

def integerText (n : Int) : List Char := signedText (n < 0) (Nat.toDigits 10 n.natAbs)

theorem splitSign_integerText (n : Int) :
    splitSign (integerText n) = (decide (n < 0), Nat.toDigits 10 n.natAbs) := by
  have split := splitSign_signedText (n < 0) n.natAbs []
  rwa [List.append_nil] at split

theorem integer64?_integerText {n : Int} (low : -0x8000000000000000 ≤ n)
    (high : n ≤ 0x7FFFFFFFFFFFFFFF) : integer64? (integerText n) = some n := by
  unfold integer64?
  rw [splitSign_integerText]
  simp only [natural?_toDigits, Option.bind_some, signed64?, decide_eq_true_eq]
  split
  · rw [if_pos (by omega)]
    congr 1
    omega
  · rw [if_pos (by omega)]
    congr 1
    omega

namespace Decimal

/-- A decimal number in scientific notation: a whole coefficient and a power of ten. -/
def scientific (d : Decimal) : List Char :=
  signedText d.negative (Nat.toDigits 10 d.coefficient ++ 'e' :: integerText d.exponent)

theorem coefficientOf_toDigits (n : Nat) : coefficientOf (Nat.toDigits 10 n) = n := by
  have value := @Nat.ofDigitChars_ten_toDigits n
  rw [Nat.ofDigitChars_eq_foldl] at value
  simp only [Nat.mul_comm 10] at value
  exact value

theorem spanDigits_append {digits : List Char} (all : Digits digits) {c : Char}
    (stop : isDigit c = false) (rest : List Char) :
    spanDigits (digits ++ c :: rest) = (digits, c :: rest) := by
  unfold spanDigits
  rw [List.takeWhile_append_of_pos all, List.dropWhile_append_of_pos all]
  simp [stop]

theorem spanDigits_digits {digits : List Char} (all : Digits digits) :
    spanDigits digits = (digits, []) := by
  unfold spanDigits
  rw [List.takeWhile_eq_self_iff.mpr all, List.dropWhile_eq_nil_iff.mpr all]

theorem power?_integerText (n : Int) : power? ('e' :: integerText n) = some (n, []) := by
  have given : (Nat.toDigits 10 n.natAbs).isEmpty = false := by simp
  simp only [power?, beq_self_eq_true, Bool.true_or, if_true, splitSign_integerText,
    spanDigits_digits (Digits.of_toDigits _), given, Bool.false_eq_true, if_false,
    coefficientOf_toDigits, decide_eq_true_eq]
  congr 2
  omega

theorem read?_scientific (d : Decimal) : read? d.scientific = some d := by
  unfold read? scientific
  rw [splitSign_signedText]
  have given : (Nat.toDigits 10 d.coefficient).isEmpty = false := by simp
  have noPoint : fraction ('e' :: integerText d.exponent) = ([], 'e' :: integerText d.exponent) :=
    rfl
  simp only [spanDigits_append (Digits.of_toDigits _) (show isDigit 'e' = false from rfl),
    noPoint, given, Bool.false_and, Bool.false_eq_true, if_false, power?_integerText,
    List.append_nil, coefficientOf_toDigits, List.length_nil, Int.ofNat_zero, Int.sub_zero]

theorem separatedDigits?_none {base : Nat} (small : base ≤ 14) (marked : Bool)
    (before after : List Char) : separatedDigits? base marked (before ++ 'e' :: after) = none := by
  have foreign : ∀ d, digitValue? 'e' = some d → base ≤ d := by
    intro d found
    have : d = 14 := (Option.some.inj found).symm
    omega
  exact separatedDigits?_foreign (by decide) foreign marked (by simp)

theorem natural?_unsigned (n : Nat) (exponent : Int) :
    natural? (Nat.toDigits 10 n ++ 'e' :: integerText exponent) = none := by
  rcases Nat.eq_zero_or_pos n with rfl | positive
  · cases text : integerText exponent with
    | nil => exact @separatedDigits?_none 8 (by decide) true [] []
    | cons c rest => exact @separatedDigits?_none 8 (by decide) true [] (c :: rest)
  · rw [natural?_of_head (by simp), separatedDigits?_none (by decide)]
    rw [List.head?_append, Option.or_of_isSome (by simp)]
    exact head_toDigits positive

theorem natural?_scientific (d : Decimal) : natural? d.scientific = none := by
  unfold scientific
  cases d.negative with
  | false => exact natural?_unsigned d.coefficient d.exponent
  | true =>
    rw [signedText, if_pos rfl, natural?_of_head (by simp) (by simp)]
    exact separatedDigits?_none (by decide) false ('-' :: _) _

end Decimal
end ScriptListing.Number
