import ScriptListing.Proofs.Number.Exact
import ScriptListing.Yaml.Reading

/-! Scalars and what they stand for. Every integer of 64 bits and every number of double
width has a text that stands for it under its tag. -/
namespace ScriptListing.Yaml

open Number

/-- Text that looks like a number: a digit or minus first, some digit, no underscore. -/
structure Numeral (text : List Char) : Prop where
  head : ∃ c rest, text = c :: rest ∧ (c = '-' ∨ Decimal.isDigit c = true)
  digit : ∃ c ∈ text, Decimal.isDigit c = true
  plain : '_' ∉ text

namespace Numeral

theorem of_signedText (negative : Bool) (n : Nat) {rest : List Char} (plain : '_' ∉ rest) :
    Numeral (signedText negative (Nat.toDigits 10 n ++ rest)) := by
  have digits := Digits.of_toDigits n
  cases text : Nat.toDigits 10 n with
  | nil => exact absurd text Nat.toDigits_ne_nil
  | cons c more =>
    rw [text] at digits
    have first := digits c List.mem_cons_self
    have bare : '_' ∉ (c :: more) := fun member => Digits.ne (digits _ member) rfl rfl
    cases negative with
    | true =>
      refine ⟨⟨'-', _, rfl, .inl rfl⟩, ⟨c, by simp [signedText], first⟩, ?_⟩
      simp_all [signedText]
    | false =>
      refine ⟨⟨c, _, rfl, .inr first⟩, ⟨c, by simp [signedText], first⟩, ?_⟩
      simp_all [signedText]

theorem of_integerText (n : Int) : Numeral (integerText n) := by
  have numeral := @of_signedText (n < 0) n.natAbs [] (by simp)
  rwa [List.append_nil] at numeral

theorem of_scientific (d : Decimal) : Numeral d.scientific :=
  of_signedText d.negative d.coefficient (by simp [(of_integerText d.exponent).plain])

/-- No word with a meaning of its own has a digit. -/
theorem not_word {text : List Char} (numeral : Numeral text) :
    Scalar.words.lookup (String.ofList text) = none := by
  have words : (Scalar.words.all fun word => word.1.toList.all (!Decimal.isDigit ·)) = true := by
    decide
  obtain ⟨c, member, digit⟩ := numeral.digit
  refine List.lookup_eq_none_iff.mpr fun word listed => ?_
  rw [bne_iff_ne]
  intro equal
  have letters := List.all_eq_true.mp words word listed
  rw [← equal, String.toList_ofList] at letters
  have plain := List.all_eq_true.mp letters c member
  simp [digit] at plain

theorem plain_eq {text : List Char} (numeral : Numeral text) {value : Scalar}
    (read : Scalar.number? text = some value) :
    Scalar.plain false (String.ofList text) = value := by
  obtain ⟨c, rest, rfl, first⟩ := numeral.head
  have signed : (c == '+' || c == '-' || Decimal.isDigit c) = true := by
    rcases first with rfl | digit
    · rfl
    · simp [digit]
  have noPoint : (c == '.') = false := by
    rcases first with rfl | digit
    · rfl
    · exact beq_eq_false_iff_ne.mpr (Digits.ne digit rfl)
  unfold Scalar.plain
  rw [String.toList_ofList]
  simp only [signed, numeral.not_word, noPoint, read, Bool.true_or, if_true, Bool.false_eq_true,
    if_false, Bool.false_and, Option.getD_some]

theorem filter_eq {text : List Char} (numeral : Numeral text) :
    text.filter (· != '_') = text := by
  refine List.filter_eq_self.mpr fun c member => ?_
  simp only [bne_iff_ne]
  rintro rfl
  exact numeral.plain member

end Numeral

theorem number?_integerText {n : Int} (low : -0x8000000000000000 ≤ n)
    (high : n ≤ 0x7FFFFFFFFFFFFFFF) : Scalar.number? (integerText n) = some (.int n) := by
  simp only [Scalar.number?, (Numeral.of_integerText n).filter_eq, integer64?_integerText low high]

theorem number?_scientific {d : Decimal} {negative : Bool} {mantissa : Nat} {exponent : Int}
    (rounded : d.toBinary .double = .finite negative mantissa exponent) :
    Scalar.number? d.scientific = some (.float (.finite negative mantissa exponent)) := by
  have notInteger : integer64? d.scientific = none := by
    unfold integer64? Decimal.scientific
    rw [splitSign_signedText]
    simp [Decimal.natural?_unsigned]
  have notUnsigned : unsigned64? d.scientific = none := by
    simp [unsigned64?, Decimal.natural?_scientific]
  unfold Scalar.number?
  simp only [(Numeral.of_scientific d).filter_eq, notInteger, notUnsigned, Scalar.decimal?,
    Decimal.read?_scientific, Option.map_some, rounded]

theorem scalarOf_integer {n : Int} (low : -0x8000000000000000 ≤ n)
    (high : n ≤ 0x7FFFFFFFFFFFFFFF) :
    scalarOf "!!int" (String.ofList (integerText n)) = .ok (.int n) := by
  have plain := (Numeral.of_integerText n).plain_eq (number?_integerText low high)
  simp [scalarOf, Scalar.resolve, Scalar.coreTags, plain, Scalar.tag]

def floatText : Binary → String
  | .nan => ".nan"
  | .infinite negative => if negative then "-.inf" else ".inf"
  | .finite negative mantissa exponent =>
    String.ofList (Decimal.exact negative mantissa exponent).scientific

theorem scalarOf_float {x : Binary} (double : x.IsOf .double) :
    scalarOf "!!float" (floatText x) = .ok (.float x) := by
  have plain : Scalar.plain false (floatText x) = .float x := by
    cases x with
    | nan => decide
    | infinite negative => cases negative <;> decide
    | finite negative mantissa exponent =>
      exact (Numeral.of_scientific _).plain_eq
        (number?_scientific (Decimal.toBinary_exact double negative))
  simp [scalarOf, Scalar.resolve, Scalar.coreTags, plain, Scalar.tag]

end ScriptListing.Yaml
