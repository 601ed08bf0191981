import ScriptListing.Number.Binary
import ScriptListing.Number.Literal

/-! Decimal numerals: reading them to the nearest binary number, and the shortest
numeral that reads back as a given one. -/
namespace ScriptListing.Number

/-- The numeral `coefficient * 10 ^ exponent` with a sign. -/
structure Decimal where
  negative : Bool
  coefficient : Nat
  exponent : Int
  deriving DecidableEq, Repr

namespace Decimal

def isDigit (c : Char) : Bool := 48 ≤ c.toNat && c.toNat ≤ 57

def coefficientOf (digits : List Char) : Nat :=
  digits.foldl (fun value c => value * 10 + (c.toNat - 48)) 0

def spanDigits (text : List Char) : List Char × List Char :=
  (text.takeWhile isDigit, text.dropWhile isDigit)

def fraction : List Char → List Char × List Char
  | '.' :: rest => spanDigits rest
  | text => ([], text)

/-- The power of ten after a mark `e`, which must have digits; no mark is zero. -/
def power? : List Char → Option (Int × List Char)
  | [] => some (0, [])
  | c :: rest =>
    if c == 'e' || c == 'E' then
      let (negative, unsignedText) := splitSign rest
      let (digits, rest) := spanDigits unsignedText
      if digits.isEmpty then none
      else some (if negative then -(coefficientOf digits : Int) else coefficientOf digits, rest)
    else some (0, c :: rest)

/-- A numeral with optional sign, point and power of ten, and at least one digit. -/
def read? (text : List Char) : Option Decimal :=
  let (negative, unsignedText) := splitSign text
  let (whole, rest) := spanDigits unsignedText
  let (part, rest) := fraction rest
  if whole.isEmpty && part.isEmpty then none
  else match power? rest with
    | some (power, []) =>
      some ⟨negative, coefficientOf (whole ++ part), power - (part.length : Int)⟩
    | _ => none

def digitCount (n : Nat) : Nat := (Nat.toDigits 10 n).length

/-- The nearest binary number. Numerals far outside the width are settled by the
place of their first digit alone. -/
def toBinary (width : Width) (d : Decimal) : Binary :=
  if d.coefficient = 0 then .finite d.negative 0 width.least
  else
    let place := d.exponent + (digitCount d.coefficient : Int)
    if 400 < place then .infinite d.negative
    else if place < -400 then .finite d.negative 0 width.least
    else if 0 ≤ d.exponent then
      .nearest width d.negative (d.coefficient * Nat.pow 10 d.exponent.toNat) 1
    else .nearest width d.negative d.coefficient (Nat.pow 10 (-d.exponent).toNat)

end Decimal

/-- A positive fraction together with the ends of the numbers that round to it. -/
structure Interval where
  low : Nat
  value : Nat
  high : Nat
  den : Nat
  closed : Bool

/-- The interval around `mantissa * 2 ^ exponent`. Below a power of two the next
number is only half as far away. -/
def Interval.around (width : Width) (mantissa : Nat) (exponent : Int) : Interval :=
  let narrow := mantissa = Nat.pow 2 (width.precision - 1) ∧ width.least < exponent
  let low := if narrow then 4 * mantissa - 1 else 4 * mantissa - 2
  let unit := exponent - 2
  let scale := if 0 ≤ unit then Nat.pow 2 unit.toNat else 1
  let den := if 0 ≤ unit then 1 else Nat.pow 2 (-unit).toNat
  ⟨low * scale, 4 * mantissa * scale, (4 * mantissa + 2) * scale, den, mantissa % 2 = 0⟩

namespace Interval

def inPlaces (num den : Nat) (place : Int) : Nat × Nat :=
  if 0 ≤ place then (num, den * Nat.pow 10 place.toNat)
  else (num * Nat.pow 10 (-place).toNat, den)

/-- Whether `count * 10 ^ place` reads back as the value. -/
def holds (i : Interval) (place : Int) (count : Nat) : Bool :=
  let (low, unit) := inPlaces i.low i.den place
  let (high, _) := inPlaces i.high i.den place
  if i.closed then low ≤ count * unit && count * unit ≤ high
  else low < count * unit && count * unit < high

/-- The neighbour of the value on the grid of `10 ^ place` that reads back, the
nearer one if both do, and the even one if they are equally near. -/
def onGrid? (i : Interval) (place : Int) : Option Nat :=
  let (value, unit) := inPlaces i.value i.den place
  let below := value / unit
  match i.holds place below, i.holds place (below + 1) with
  | true, true => some (roundDiv value unit)
  | true, false => some below
  | false, true => some (below + 1)
  | false, false => none

def topPlace (i : Interval) : (steps : Nat) → (place : Int) → Int
  | 0, place => place
  | steps + 1, place =>
    let (value, unit) := inPlaces i.value i.den (place + 1)
    if value < unit then place else topPlace i steps (place + 1)

/-- A place at most four below `topPlace`, from the binary logarithms. -/
def lowPlace (i : Interval) : Int :=
  ((Nat.log2 i.value : Int) - (Nat.log2 i.den : Int) - 1) * 30103 / 100000 - 1

def shortest (i : Interval) : (steps : Nat) → (place : Int) → Nat × Int
  | 0, place => (i.value / i.den, place)
  | steps + 1, place =>
    match i.onGrid? place with
    | some count => (count, place)
    | none => shortest i steps (place - 1)

end Interval

namespace Decimal

/-- The numeral with the fewest digits among those that read back as the value, and
of these the nearest to it. -/
def shortest (width : Width) (negative : Bool) (mantissa : Nat) (exponent : Int) : Decimal :=
  let i := Interval.around width mantissa exponent
  let (count, place) := i.shortest 20 (i.topPlace 6 i.lowPlace)
  ⟨negative, count, place⟩

/-- Digits without a power of ten: zeros fill up to the point, and a fraction ends
in no zero. -/
def positional (d : Decimal) : String :=
  let digits := Nat.toDigits 10 d.coefficient
  let text :=
    if 0 ≤ d.exponent then digits ++ List.replicate d.exponent.toNat '0'
    else
      let places := (-d.exponent).toNat
      let padded := List.replicate (places + 1 - digits.length) '0' ++ digits
      let whole := padded.take (padded.length - places)
      let part := ((padded.drop (padded.length - places)).reverse.dropWhile (· == '0')).reverse
      if part.isEmpty then whole else whole ++ '.' :: part
  String.ofList (if d.negative then '-' :: text else text)

end Decimal

namespace Binary

def text (width : Width) : Binary → String
  | .nan => "NaN"
  | .infinite negative => if negative then "-Inf" else "+Inf"
  | .finite negative mantissa exponent =>
    if mantissa = 0 then if negative then "-0" else "0"
    else (Decimal.shortest width negative mantissa exponent).positional

/-- Besides numerals, `NaN`, `+Inf` and `-Inf` are read. -/
def read? (width : Width) (source : String) : Option Binary :=
  if source == "NaN" then some .nan
  else if source == "+Inf" || source == "Inf" then some (.infinite false)
  else if source == "-Inf" then some (.infinite true)
  else (Decimal.read? source.toList).map (Decimal.toBinary width)

end Binary
end ScriptListing.Number
