import ScriptListing.Toml.Value

/-! Numbers, moments and words of a settings table. A number is first cut out by its
characters and then checked. -/
namespace ScriptListing.Toml

open Number.Decimal (isDigit)

def isHexDigit (c : Char) : Bool := (Text.hexValue? c).isSome

/-- Underscores stand after a digit, and the last character is one. -/
def underscoresFit : (afterDigit : Bool) → List Char → Bool
  | afterDigit, [] => afterDigit
  | afterDigit, c :: rest => (c != '_' || afterDigit) && underscoresFit (isHexDigit c) rest

def hasLeadingZero : List Char → Bool
  | '0' :: c :: _ => c != 'b' && c != 'o' && c != 'x'
  | sign :: '0' :: _ :: _ => sign == '-' || sign == '+'
  | _ => false

def integer? (source : List Char) : Option Value :=
  if underscoresFit false source && !hasLeadingZero source then
    (Number.integer64? source).map .integer
  else none

def pointsFit : List Char → Bool
  | [] => true
  | ['.'] => false
  | '.' :: c :: rest => isDigit c && pointsFit (c :: rest)
  | _ :: rest => pointsFit rest

def float? (source : List Char) : Option Value :=
  let parts := (source.splitOnP fun c => c == '.' || c == 'e' || c == 'E').filter (!·.isEmpty)
  if parts.all (underscoresFit false) && !(parts.head?.any hasLeadingZero) && pointsFit source then
    let digits := source.filter (· != '_')
    match (Number.Decimal.read? digits).map (Number.Decimal.toBinary .double) with
    | some (.finite negative mantissa exponent) =>
      some (.float (.finite negative mantissa exponent))
    | _ => none
  else none

/-- Exactly `count` digits as a number from `least` to `most`, and the rest. -/
def digits? (count least most : Nat) (source : List Char) : Option (Nat × List Char) :=
  let digits := source.take count
  let n := Number.Decimal.coefficientOf digits
  if digits.length = count && digits.all isDigit && least ≤ n && n ≤ most then
    some (n, source.drop count)
  else none

def mark? (mark : Char) : List Char → Option (List Char)
  | c :: rest => if c = mark then some rest else none
  | [] => none

def daysIn (year month : Nat) : Nat :=
  if month = 2 then
    if year % 4 = 0 && (year % 100 ≠ 0 || year % 400 = 0) then 29 else 28
  else if month = 4 || month = 6 || month = 9 || month = 11 then 30
  else 31

def date? (source : List Char) : Option (List Char) := do
  let (year, rest) ← digits? 4 0 9999 source
  let (month, rest) ← digits? 2 1 12 (← mark? '-' rest)
  let (_, rest) ← digits? 2 1 (daysIn year month) (← mark? '-' rest)
  return rest

def time? (source : List Char) : Option (List Char) := do
  let (_, rest) ← digits? 2 0 23 source
  let (_, rest) ← digits? 2 0 59 (← mark? ':' rest)
  let (_, rest) ← digits? 2 0 59 (← mark? ':' rest)
  match rest with
  | '.' :: c :: more => if isDigit c then return more.dropWhile isDigit else none
  | _ => return rest

/-- Nothing, or an offset from universal time. -/
def isZone : List Char → Bool
  | [] => true
  | ['Z'] => true
  | sign :: rest =>
    (sign == '+' || sign == '-') &&
      (do
        let (_, rest) ← digits? 2 0 24 rest
        let (_, rest) ← digits? 2 0 60 (← mark? ':' rest)
        return rest) == some []

def isMoment (source : List Char) : Bool :=
  match date? source with
  | some [] => true
  | some ('T' :: rest) => (time? rest).any isZone
  | some _ => false
  | none => time? source == some []

/-- Letters in upper case, and one blank between date and time as the letter. -/
def momentForm (source : List Char) : List Char :=
  source.map fun c =>
    if c == 't' || c == ' ' then 'T' else if c == 'z' then 'Z' else c

/-- A moment; blanks at its end do not belong to it. -/
def moment? (source : List Char) : Option Value :=
  let form := momentForm ((source.reverse.dropWhile (· == ' ')).reverse)
  if isMoment form then some (.moment (String.ofList form)) else none

def isMomentChar (c : Char) : Bool := isDigit c || "-:Tt .Zz+".toList.contains c
def isFloatChar (c : Char) : Bool := isDigit c || "_.-+eE".toList.contains c
def isDecimalChar (c : Char) : Bool := isDigit c || c == '_'

def decimal? (start source : List Char) : Option (Value × List Char) :=
  let run := source.takeWhile isDecimalChar
  let rest := source.drop run.length
  if rest.head?.any fun c => c == '.' || c == 'e' || c == 'E' then
    let more := rest.takeWhile isFloatChar
    (float? (start ++ run ++ more)).map fun v => (v, rest.drop more.length)
  else (integer? (start ++ run)).map fun v => (v, rest)

def marked? (mark : Char) (isBaseDigit : Char → Bool) (source : List Char) :
    Option (Value × List Char) :=
  let run := source.takeWhile fun c => isBaseDigit c || c == '_'
  if source.head?.any isBaseDigit then
    (integer? ('0' :: mark :: run)).map fun v => (v, source.drop run.length)
  else none

def isOctal (c : Char) : Bool := '0' ≤ c && c ≤ '7'
def isBinary (c : Char) : Bool := c == '0' || c == '1'

def special? (negative : Bool) : List Char → Option (Value × List Char)
  | 'i' :: 'n' :: 'f' :: rest => some (.float (.infinite negative), rest)
  | 'n' :: 'a' :: 'n' :: rest => some (.float .nan, rest)
  | _ => none

def digitsOrMoment? (source : List Char) : Option (Value × List Char) :=
  match source with
  | '0' :: 'x' :: rest => marked? 'x' isHexDigit rest
  | '0' :: 'o' :: rest => marked? 'o' isOctal rest
  | '0' :: 'b' :: rest => marked? 'b' isBinary rest
  | _ =>
    match (source.dropWhile isDigit).head? with
    | some '-' => whole
    | some ':' => whole
    | _ => decimal? [] source
where
  whole : Option (Value × List Char) :=
    let run := source.takeWhile isMomentChar
    (moment? run).map fun v => (v, source.drop run.length)

def signed? (sign : Char) (source : List Char) : Option (Value × List Char) :=
  match source with
  | '0' :: 'x' :: _ => none
  | '0' :: 'o' :: _ => none
  | '0' :: 'b' :: _ => none
  | c :: _ => if isDigit c then decimal? [sign] source else special? (sign == '-') source
  | [] => none

end ScriptListing.Toml
