/-! Integer literals. The base is read off the literal itself: `0x`, `0o` and `0b`
name it, a leading zero means eight, anything else is decimal. Underscores may
separate digits. -/
namespace ScriptListing.Number

/-- The value of a digit, letters counting on from ten in either case. -/
def digitValue? (c : Char) : Option Nat :=
  let n := c.toNat
  if 48 ≤ n && n ≤ 57 then some (n - 48)
  else if 97 ≤ n && n ≤ 122 then some (n - 87)
  else if 65 ≤ n && n ≤ 90 then some (n - 55)
  else none

def digitsValue? (base : Nat) : (value : Nat) → List Char → Option Nat
  | value, [] => some value
  | value, '_' :: rest => digitsValue? base value rest
  | value, c :: rest =>
    match digitValue? c with
    | some d => if d < base then digitsValue? base (value * base + d) rest else none
    | none => none

/-- Every underscore stands directly between two digits; `afterDigit` says whether
a digit came just before. -/
def underscoresSeparate (isDigit : Char → Bool) : (afterDigit : Bool) → List Char → Bool
  | _, [] => true
  | afterDigit, '_' :: rest =>
    afterDigit && (match rest with
      | [] => false
      | next :: _ => isDigit next) && underscoresSeparate isDigit false rest
  | _, c :: rest => underscoresSeparate isDigit (isDigit c) rest

def isDigit (c : Char) : Bool := (digitValue? c).isSome

/-- The value of non-empty digits in `base` with well-placed underscores. `marked`
digits follow a base mark, which counts as a digit before a first underscore. -/
def separatedDigits? (base : Nat) (marked : Bool) (digits : List Char) : Option Nat :=
  if underscoresSeparate isDigit marked digits then digitsValue? base 0 digits else none

def natural? : List Char → Option Nat
  | [] => none
  | ['0'] => some 0
  | '0' :: mark :: digit :: rest =>
    let digits := digit :: rest
    if mark == 'x' || mark == 'X' then separatedDigits? 16 true digits
    else if mark == 'o' || mark == 'O' then separatedDigits? 8 true digits
    else if mark == 'b' || mark == 'B' then separatedDigits? 2 true digits
    else separatedDigits? 8 true (mark :: digits)
  | '0' :: rest => separatedDigits? 8 true rest
  | digits => separatedDigits? 10 false digits

def unsigned64? (text : List Char) : Option UInt64 :=
  (natural? text).bind fun n => if n < 0x10000000000000000 then some (UInt64.ofNat n) else none

/-- A sign and what follows it; `true` is minus. -/
def splitSign : List Char → Bool × List Char
  | '-' :: rest => (true, rest)
  | '+' :: rest => (false, rest)
  | text => (false, text)

def signed64? (negative : Bool) (n : Nat) : Option Int :=
  if negative then if n ≤ 0x8000000000000000 then some (-(n : Int)) else none
  else if n < 0x8000000000000000 then some (n : Int) else none

def integer64? (text : List Char) : Option Int :=
  let (negative, digits) := splitSign text
  (natural? digits).bind (signed64? negative)

def overflows (base : Nat) : (value : Nat) → List Char → Bool
  | _, [] => false
  | value, '_' :: rest => overflows base value rest
  | value, c :: rest =>
    match digitValue? c with
    | some d =>
      let next := value * base + d
      d < base && (0x10000000000000000 ≤ next || overflows base next rest)
    | none => false

def isTooLarge (text : List Char) : Bool :=
  let digits := (splitSign text).2
  (natural? digits).isSome || match digits with
    | '0' :: mark :: rest =>
      if mark == 'x' || mark == 'X' then overflows 16 0 rest
      else if mark == 'o' || mark == 'O' then overflows 8 0 rest
      else if mark == 'b' || mark == 'B' then overflows 2 0 rest
      else overflows 8 0 (mark :: rest)
    | _ => overflows 10 0 digits

/-- Digits of a given base with an optional sign and no underscores. -/
def integerIn? (base : Nat) (text : List Char) : Option Int :=
  let (negative, digits) := splitSign text
  if digits.isEmpty || digits.contains '_' then none
  else (digitsValue? base 0 digits).bind (signed64? negative)

end ScriptListing.Number
