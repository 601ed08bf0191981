import ScriptListing.Number.Decimal

/-! The date and time forms a plain scalar may have. Month, day and the parts of a time
have one or two digits, a year has four. -/
namespace ScriptListing.Yaml.Timestamp

def isLeap (year : Nat) : Bool := year % 4 == 0 && (year % 100 != 0 || year % 400 == 0)

def daysIn (year month : Nat) : Nat :=
  if month == 2 then if isLeap year then 29 else 28
  else if month == 4 || month == 6 || month == 9 || month == 11 then 30 else 31

def short? (least most : Nat) (text : List Char) : Option (Nat × List Char) :=
  match text with
  | a :: rest =>
    if Number.Decimal.isDigit a then
      let (n, rest) := match rest with
        | b :: more =>
          if Number.Decimal.isDigit b then ((a.toNat - 48) * 10 + (b.toNat - 48), more)
          else (a.toNat - 48, rest)
        | [] => (a.toNat - 48, rest)
      if least ≤ n && n ≤ most then some (n, rest) else none
    else none
  | [] => none

def pair? (most : Nat) : List Char → Option (List Char)
  | a :: b :: rest =>
    if Number.Decimal.isDigit a && Number.Decimal.isDigit b &&
        (a.toNat - 48) * 10 + (b.toNat - 48) ≤ most then some rest else none
  | _ => none

def mark? (mark : Char) : List Char → Option (List Char)
  | c :: rest => if c = mark then some rest else none
  | [] => none

def date? (text : List Char) : Option (List Char) := do
  let year := text.take 4
  if year.length < 4 || !year.all Number.Decimal.isDigit then none
  let rest ← mark? '-' (text.drop 4)
  let (month, rest) ← short? 1 12 rest
  let rest ← mark? '-' rest
  let (_, rest) ← short? 1 (daysIn (Number.Decimal.coefficientOf year) month) rest
  return rest

def skipFraction : List Char → List Char
  | c :: d :: rest =>
    if (c == '.' || c == ',') && Number.Decimal.isDigit d then
      rest.dropWhile Number.Decimal.isDigit
    else c :: d :: rest
  | text => text

def time? (text : List Char) : Option (List Char) := do
  let (_, rest) ← short? 0 23 text
  let rest ← mark? ':' rest
  let (_, rest) ← short? 0 59 rest
  let rest ← mark? ':' rest
  let (_, rest) ← short? 0 59 rest
  return skipFraction rest

def zone? : List Char → Option (List Char)
  | 'Z' :: rest => some rest
  | sign :: rest =>
    if sign == '+' || sign == '-' then do
      let rest ← pair? 24 rest
      let rest ← mark? ':' rest
      pair? 60 rest
    else none
  | [] => none

/-- Whether nothing is left, a day with time and zone is left, or one with a time after
spaces. -/
def tail? (text : List Char) : Option (List Char) :=
  match text with
  | [] => some []
  | 'T' :: rest => (time? rest).bind zone?
  | 't' :: rest => (time? rest).bind zone?
  | ' ' :: rest => time? (rest.dropWhile (· == ' '))
  | _ => none

def isTimestamp (text : List Char) : Bool :=
  ((date? text).bind tail?) == some []

end ScriptListing.Yaml.Timestamp
