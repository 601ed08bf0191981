import Mathlib.Algebra.Group.Basic
import Mathlib.Algebra.Group.Nat.Defs
import ScriptListing.Cipher

/-! Bytes as a field. Products distribute over sums on both sides, so a law about bytes holds
as soon as it holds for the eight doubles of one; with squares as sums this gives that the
power 256 is the byte itself, and that substitution can be restored. -/
namespace ScriptListing.Cipher

theorem forall_byte {P : UInt8 → Prop} (each : ∀ n < 256, P (UInt8.ofNat n)) (b : UInt8) :
    P b := by
  simpa using each b.toNat b.toNat_lt

theorem and_xor (a b mask : UInt8) : (a ^^^ b) &&& mask = (a &&& mask) ^^^ (b &&& mask) := by
  apply UInt8.toBitVec_inj.mp
  ext i
  simp [Bool.and_xor_distrib_right]

def Single (bit : UInt8) : Prop := ∀ b, b &&& bit = 0 ∨ b &&& bit = bit

theorem single_low : Single 1 := by
  apply forall_byte
  decide +kernel

theorem single_high : Single 0x80 := by
  apply forall_byte
  decide +kernel

/-- What one bit selects adds up as the bits do. -/
theorem select_xor {bit : UInt8} (single : Single bit) (value a b : UInt8) :
    (if (a ^^^ b) &&& bit = 0 then 0 else value) =
      (if a &&& bit = 0 then 0 else value) ^^^ (if b &&& bit = 0 then 0 else value) := by
  rw [and_xor]
  rcases single a with clear | set <;> rcases single b with clear' | set' <;>
    by_cases none : bit = 0 <;> simp_all

theorem double_xor (a b : UInt8) : double (a ^^^ b) = double a ^^^ double b := by
  unfold double
  rw [select_xor single_high, UInt8.shiftLeft_xor]
  ac_rfl

theorem double_zero : double 0 = 0 := rfl

theorem sumOfDoubles_xor (bits : Nat) (a b c : UInt8) :
    sumOfDoubles bits a (b ^^^ c) = sumOfDoubles bits a b ^^^ sumOfDoubles bits a c := by
  induction bits generalizing a b c with
  | zero => exact UInt8.xor_self.symm
  | succ bits ih =>
    simp only [sumOfDoubles]
    rw [select_xor single_low, UInt8.shiftRight_xor, ih]
    ac_rfl

theorem xor_sumOfDoubles (bits : Nat) (a b c : UInt8) :
    sumOfDoubles bits (a ^^^ b) c = sumOfDoubles bits a c ^^^ sumOfDoubles bits b c := by
  induction bits generalizing a b c with
  | zero => exact UInt8.xor_self.symm
  | succ bits ih =>
    simp only [sumOfDoubles]
    rw [double_xor, ih]
    split
    · simp
    · ac_rfl

theorem double_sumOfDoubles (bits : Nat) (a b : UInt8) :
    sumOfDoubles bits (double a) b = double (sumOfDoubles bits a b) := by
  induction bits generalizing a b with
  | zero => exact double_zero.symm
  | succ bits ih =>
    simp only [sumOfDoubles]
    rw [double_xor, ih]
    split
    · rw [double_zero]
    · rfl

theorem mul_xor (a b c : UInt8) : mul a (b ^^^ c) = mul a b ^^^ mul a c :=
  sumOfDoubles_xor 8 a b c

theorem xor_mul (a b c : UInt8) : mul (a ^^^ b) c = mul a c ^^^ mul b c :=
  xor_sumOfDoubles 8 a b c

theorem double_mul (a b : UInt8) : mul (double a) b = double (mul a b) :=
  double_sumOfDoubles 8 a b

theorem mul_zero (a : UInt8) : mul a 0 = 0 := by
  have same := mul_xor a 0 0
  rw [UInt8.xor_self] at same
  rw [same, UInt8.xor_self]

theorem zero_mul (a : UInt8) : mul 0 a = 0 := by
  have same := xor_mul 0 0 a
  rw [UInt8.xor_self] at same
  rw [same, UInt8.xor_self]

theorem one_mul (b : UInt8) : mul 1 b = b := by
  revert b
  apply forall_byte
  decide +kernel

/-- Every byte is a sum of doubles of one. -/
theorem byte_induction {P : UInt8 → Prop} (zero : P 0) (sum : ∀ a b, P a → P b → P (a ^^^ b))
    (power : ∀ i < 8, P (Nat.repeat double i 1)) (b : UInt8) : P b := by
  have selected (bits i : Nat) (within : i + bits ≤ 8) (c : UInt8) :
      P (sumOfDoubles bits (Nat.repeat double i 1) c) := by
    induction bits generalizing i c with
    | zero => exact zero
    | succ bits ih =>
      apply sum
      · split
        · exact zero
        · exact power i (by omega)
      · exact ih (i + 1) (by omega) (c >>> 1)
  rw [← one_mul b]
  exact selected 8 0 (by omega) b

theorem mul_comm (a b : UInt8) : mul a b = mul b a := by
  induction a using byte_induction with
  | zero => rw [zero_mul, mul_zero]
  | sum a a' first second => rw [xor_mul, mul_xor, first, second]
  | power i small =>
    induction b using byte_induction with
    | zero => rw [zero_mul, mul_zero]
    | sum b b' first second => rw [xor_mul, mul_xor, first, second]
    | power j small' =>
      revert i j
      decide +kernel

theorem repeat_double_mul (i : Nat) (a b : UInt8) :
    mul (Nat.repeat double i a) b = Nat.repeat double i (mul a b) := by
  induction i with
  | zero => rfl
  | succ i ih =>
    simp only [Nat.repeat]
    rw [double_mul, ih]

theorem mul_repeat_double (i : Nat) (a : UInt8) :
    mul a (Nat.repeat double i 1) = Nat.repeat double i a := by
  rw [mul_comm, repeat_double_mul, one_mul]

theorem mul_assoc (a b c : UInt8) : mul (mul a b) c = mul a (mul b c) := by
  induction c using byte_induction with
  | zero => rw [mul_zero, mul_zero, mul_zero]
  | sum c c' first second => rw [mul_xor, mul_xor, mul_xor, first, second]
  | power i small =>
    calc mul (mul a b) (Nat.repeat double i 1)
      _ = Nat.repeat double i (mul b a) := by rw [mul_repeat_double, mul_comm a]
      _ = mul (Nat.repeat double i b) a := (repeat_double_mul i b a).symm
      _ = mul a (mul b (Nat.repeat double i 1)) := by rw [mul_repeat_double, mul_comm]

structure Element where
  byte : UInt8

namespace Element

instance : CommMonoid Element where
  mul x y := ⟨Cipher.mul x.byte y.byte⟩
  one := ⟨1⟩
  mul_assoc x y z := congrArg mk (Cipher.mul_assoc x.byte y.byte z.byte)
  one_mul x := congrArg mk (Cipher.one_mul x.byte)
  mul_one x := congrArg mk ((Cipher.mul_comm x.byte 1).trans (Cipher.one_mul x.byte))
  mul_comm x y := congrArg mk (Cipher.mul_comm x.byte y.byte)

theorem mk_mul (a b : UInt8) : (⟨Cipher.mul a b⟩ : Element) = ⟨a⟩ * ⟨b⟩ := rfl

theorem mk_squares (count : Nat) (b : UInt8) :
    (⟨squares count b⟩ : Element) = ⟨b⟩ ^ (2 ^ (count + 1) - 2) := by
  induction count generalizing b with
  | zero => exact (pow_zero _).symm
  | succ count ih =>
    have exponents : 2 ^ (count + 1 + 1) - 2 = 2 + 2 * (2 ^ (count + 1) - 2) := by
      have positive := Nat.one_le_two_pow (n := count)
      omega
    rw [squares, mk_mul, ih, mk_mul, ← pow_two, ← pow_mul, ← pow_add, exponents]

end Element

def square (b : UInt8) : UInt8 := mul b b

/-- The square of a sum is the sum of the squares. -/
theorem square_xor (a b : UInt8) : square (a ^^^ b) = square a ^^^ square b := by
  have twice : mul a b ^^^ (mul a b ^^^ mul b b) = mul b b := by
    rw [← UInt8.xor_assoc, UInt8.xor_self, UInt8.zero_xor]
  unfold square
  rw [mul_xor, xor_mul, xor_mul, mul_comm b a, UInt8.xor_assoc, twice]

theorem repeat_square_xor (n : Nat) (a b : UInt8) :
    Nat.repeat square n (a ^^^ b) = Nat.repeat square n a ^^^ Nat.repeat square n b := by
  induction n with
  | zero => rfl
  | succ n ih =>
    simp only [Nat.repeat]
    rw [ih, square_xor]

/-- Squaring eight times goes round the field. -/
theorem repeat_square (b : UInt8) : Nat.repeat square 8 b = b := by
  induction b using byte_induction with
  | zero => decide +kernel
  | sum a b first second => rw [repeat_square_xor, first, second]
  | power i small =>
    revert i
    decide +kernel

theorem Element.mk_repeat_square (n : Nat) (b : UInt8) :
    (⟨Nat.repeat square n b⟩ : Element) = ⟨b⟩ ^ 2 ^ n := by
  induction n with
  | zero => exact (pow_one _).symm
  | succ n ih => rw [Nat.repeat, square, mk_mul, ih, ← pow_two, ← pow_mul, ← Nat.pow_succ]

theorem Element.pow_order (x : Element) : x ^ 256 = x := by
  have round := mk_repeat_square 8 x.byte
  rw [repeat_square] at round
  exact round.symm

theorem inverse_inverse (b : UInt8) : inverse (inverse b) = b := by
  have powers (b : UInt8) : (⟨inverse b⟩ : Element) = ⟨b⟩ ^ 254 := Element.mk_squares 7 b
  have back : (⟨inverse (inverse b)⟩ : Element) = ⟨b⟩ :=
    calc (⟨inverse (inverse b)⟩ : Element)
      _ = (⟨b⟩ ^ 254) ^ 254 := by rw [powers, powers]
      _ = (⟨b⟩ ^ 256) ^ 252 * ⟨b⟩ ^ 4 := by rw [← pow_mul, ← pow_mul, ← pow_add]
      _ = ⟨b⟩ ^ 252 * ⟨b⟩ ^ 4 := by rw [Element.pow_order]
      _ = ⟨b⟩ ^ 256 := (pow_add _ 252 4).symm
      _ = ⟨b⟩ := Element.pow_order _
  exact congrArg Element.byte back

/-- The turns of the substitution are undone by those of the restoration. -/
theorem unturned (i : UInt8) :
    let s := i ^^^ rotate i 1 ^^^ rotate i 2 ^^^ rotate i 3 ^^^ rotate i 4 ^^^ 0x63
    rotate s 1 ^^^ rotate s 3 ^^^ rotate s 6 ^^^ 0x05 = i := by
  revert i
  apply forall_byte
  decide +kernel

theorem restore_substitute (b : UInt8) : restore (substitute b) = b := by
  unfold restore substitute
  rw [unturned, inverse_inverse]

end ScriptListing.Cipher
