/-! Binary floating-point numbers of two widths, as exact values. A finite number
is `mantissa * 2 ^ exponent`; arithmetic on it is integer arithmetic, and rounding
goes to the nearest number of the width, a half to the even mantissa. -/
namespace ScriptListing.Number

/-- A width: the bits of a mantissa, and the least and greatest exponent of its
last bit. -/
structure Width where
  precision : Nat
  least : Int
  greatest : Int
  deriving DecidableEq, Repr

def Width.single : Width := ⟨24, -149, 104⟩
def Width.double : Width := ⟨53, -1074, 971⟩

inductive Binary where
  | nan
  | infinite (negative : Bool)
  | finite (negative : Bool) (mantissa : Nat) (exponent : Int)
  deriving DecidableEq, Repr, Inhabited

/-- The quotient nearest to `num / den`, a half going to the even one. -/
def roundDiv (num den : Nat) : Nat :=
  let quotient := num / den
  let rest := num % den
  if den < 2 * rest ∨ (2 * rest = den ∧ quotient % 2 = 1) then quotient + 1 else quotient

def inUnits (num den : Nat) (exponent : Int) : Nat × Nat :=
  if 0 ≤ exponent then (num, den * Nat.pow 2 exponent.toNat)
  else (num * Nat.pow 2 (-exponent).toNat, den)

/-- The exponent whose units give `num / den` a mantissa of full precision, unless
the width ends above it. -/
def Width.unitOf (width : Width) (num den : Nat) : Int :=
  let digits := (Nat.log2 num : Int) - (Nat.log2 den : Int)
  let guess := max (digits - (width.precision : Int)) width.least
  let (scaled, unit) := inUnits num den guess
  if scaled / unit < Nat.pow 2 width.precision then guess else guess + 1

namespace Binary

/-- A mantissa rounded up to one bit too many is halved; one whose exponent passes
the greatest is infinite. -/
def carry (width : Width) (negative : Bool) (mantissa : Nat) (exponent : Int) : Binary :=
  let (mantissa, exponent) :=
    if mantissa = Nat.pow 2 width.precision then (mantissa / 2, exponent + 1)
    else (mantissa, exponent)
  if width.greatest < exponent then .infinite negative else .finite negative mantissa exponent

def nearest (width : Width) (negative : Bool) (num den : Nat) : Binary :=
  if num = 0 then .finite negative 0 width.least
  else
    let exponent := width.unitOf num den
    let (scaled, unit) := inUnits num den exponent
    carry width negative (roundDiv scaled unit) exponent

def ofInt (width : Width) (n : Int) : Binary :=
  nearest width (n < 0) n.natAbs 1

def toWidth (width : Width) : Binary → Binary
  | .nan => .nan
  | .infinite negative => .infinite negative
  | .finite negative mantissa exponent =>
    if 0 ≤ exponent then nearest width negative (mantissa * Nat.pow 2 exponent.toNat) 1
    else nearest width negative mantissa (Nat.pow 2 (-exponent).toNat)

def zero : Binary := .finite false 0 Width.double.least

def truncate? : Binary → Option Int
  | .finite negative mantissa exponent =>
    let magnitude := if 0 ≤ exponent then mantissa * Nat.pow 2 exponent.toNat
      else mantissa / Nat.pow 2 (-exponent).toNat
    some (if negative then -(magnitude : Int) else magnitude)
  | _ => none

end Binary
end ScriptListing.Number
