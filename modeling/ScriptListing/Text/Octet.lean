import ScriptListing.Text.Characters

/-! Characters from bytes. UTF-8 is read strictly: no overlong forms, no surrogates,
nothing above the last code point. UTF-16 is read in either byte order. -/
namespace ScriptListing.Text

/-- What bytes start with. Whether enough of them are there is asked before what they
are. -/
inductive Lead where
  | char (c : Char) (rest : List UInt8)
  | incomplete
  | invalid

/-- The number of bytes of the UTF-8 character that starts with a byte; zero for a byte
that starts none. -/
def leadWidth (b : UInt8) : Nat :=
  if b < 0x80 then 1 else if b < 0xC0 then 0 else if b < 0xE0 then 2
  else if b < 0xF0 then 3 else if b < 0xF8 then 4 else 0

def continue? (b : UInt8) : Option Nat :=
  if 0x80 ≤ b.toNat && b.toNat < 0xC0 then some (b.toNat - 0x80) else none

/-- A code point that is at least `least` and a character. -/
def codePoint? (least n : Nat) : Option Char :=
  if least ≤ n ∧ n.isValidChar then some (Char.ofNat n) else none

def utf8Char? : List UInt8 → Option (Char × List UInt8)
  | [] => none
  | a :: rest =>
    let n := a.toNat
    if n < 0x80 then some (Char.ofNat n, rest)
    else if n < 0xE0 then
      match rest with
      | b :: rest => do
        if n < 0xC0 then none
        let c ← codePoint? 0x80 ((n - 0xC0) * 64 + (← continue? b))
        return (c, rest)
      | _ => none
    else if n < 0xF0 then
      match rest with
      | b :: c :: rest => do
        let c ← codePoint? 0x800 (((n - 0xE0) * 64 + (← continue? b)) * 64 + (← continue? c))
        return (c, rest)
      | _ => none
    else
      match rest with
      | b :: c :: d :: rest => do
        if 0xF8 ≤ n then none
        let c ← codePoint? 0x10000
          ((((n - 0xF0) * 64 + (← continue? b)) * 64 + (← continue? c)) * 64 + (← continue? d))
        return (c, rest)
      | _ => none

def utf8Chars : (fuel : Nat) → List UInt8 → Option (List Char)
  | _, [] => some []
  | 0, _ :: _ => none
  | fuel + 1, bytes =>
    match utf8Char? bytes with
    | none => none
    | some (c, rest) => (utf8Chars fuel rest).map (c :: ·)

def ofUtf8? (bytes : List UInt8) : Option (List Char) := utf8Chars bytes.length bytes

def Lead.utf8 : List UInt8 → Lead
  | [] => .incomplete
  | b :: rest =>
    let width := leadWidth b
    if width == 0 then .invalid
    else if (rest.take (width - 1)).length + 1 < width then .incomplete
    else match utf8Char? (b :: rest) with
      | some (c, rest) => .char c rest
      | none => .invalid

/-- The first character of bytes in UTF-16; `swapped` has the low byte first. Of two
surrogates the high one comes first. -/
def Lead.utf16 (swapped : Bool) : List UInt8 → Lead
  | a :: b :: rest =>
    let unit := joined a b
    if 0xDC00 ≤ unit && unit < 0xE000 then .invalid
    else if 0xD800 ≤ unit && unit < 0xDC00 then
      match rest with
      | c :: d :: rest =>
        let low := joined c d
        if 0xDC00 ≤ low && low < 0xE000 then
          .char (Char.ofNat (0x10000 + (unit - 0xD800) * 1024 + (low - 0xDC00))) rest
        else .invalid
      | _ => .incomplete
    else .char (Char.ofNat unit) rest
  | _ => .incomplete
where
  joined (a b : UInt8) : Nat :=
    if swapped then b.toNat * 256 + a.toNat else a.toNat * 256 + b.toNat

end ScriptListing.Text

/-! Texts that may hold bytes which are part of no character. Such a byte is kept as one
of the last 128 code points, which stand for nothing else; a text that comes with one of
them has the bytes of its encoding instead. What a text looks like is decided on
its bytes, so pieces of a character that come together make it whole. -/
namespace ScriptListing.Text

/-- A byte above ASCII as it is kept in a text. -/
def keptByte (b : UInt8) : Char := Char.ofNat (0x10FF00 + b.toNat)

def byteKept? (c : Char) : Option UInt8 :=
  if 0x10FF80 ≤ c.toNat then some (UInt8.ofNat (c.toNat - 0x10FF00)) else none

def encoded (c : Char) : List UInt8 := String.utf8EncodeChar c

def charBytes (c : Char) : List UInt8 :=
  match byteKept? c with
  | some b => [b]
  | none => encoded c

def toBytes (text : String) : List UInt8 := text.toList.flatMap charBytes

def byteSize (text : String) : Nat :=
  text.toList.foldl (fun n c => n + if (byteKept? c).isSome then 1 else c.utf8Size) 0

def ofChars (chars : List Char) : String :=
  String.ofList (chars.flatMap fun c =>
    if (byteKept? c).isSome then (encoded c).map keptByte else [c])

/-- A character, or a byte that is part of none. -/
inductive Piece where
  | char (c : Char)
  | byte (b : UInt8)
  deriving DecidableEq, Repr

def pieces : (fuel : Nat) → List UInt8 → List Piece
  | 0, _ => []
  | _, [] => []
  | fuel + 1, b :: rest =>
    match utf8Char? (b :: rest) with
    | some (c, rest) => .char c :: pieces fuel rest
    | none => .byte b :: pieces fuel rest

def piecesOf (bytes : List UInt8) : List Piece := pieces bytes.length bytes

def ofBytes (bytes : List UInt8) : String :=
  String.ofList ((piecesOf bytes).flatMap fun
    | .char c => if (byteKept? c).isSome then (encoded c).map keptByte else [c]
    | .byte b => [keptByte b])

def keepsBytes (text : String) : Bool := text.toList.any fun c => (byteKept? c).isSome

def toPieces (text : String) : List Piece :=
  if keepsBytes text then piecesOf (toBytes text) else text.toList.map .char

/-- The characters of a text, with a replacement mark for each byte that is part of
none. -/
def shownChars (text : String) : List Char :=
  (toPieces text).map fun
    | .char c => c
    | .byte _ => '\uFFFD'

def shown (text : String) : String := String.ofList (shownChars text)

def places (text : String) : Nat := (toPieces text).length

def isWellFormed (text : String) : Bool :=
  (toPieces text).all fun
    | .char _ => true
    | .byte _ => false

end ScriptListing.Text

/-! Double-quoted texts. Printable characters stand for themselves; the quote and
the backslash take a backslash, seven controls have a letter, and every other
character is written by its code point, a byte that is part of none by its value. -/
namespace ScriptListing.Text

def controlLetter? (c : Char) : Option Char :=
  match c.toNat with
  | 7 => some 'a'
  | 8 => some 'b'
  | 9 => some 't'
  | 10 => some 'n'
  | 11 => some 'v'
  | 12 => some 'f'
  | 13 => some 'r'
  | _ => none

/-- A code point that is not printed: two, four or eight digits as needed. -/
def codePoint (n : Nat) : List Char :=
  if n < 0x20 || n == 0x7F then '\\' :: 'x' :: fixedHex lowerDigit n 2
  else if n < 0x10000 then '\\' :: 'u' :: fixedHex lowerDigit n 4
  else '\\' :: 'U' :: fixedHex lowerDigit n 8

def quotedChar (c : Char) : List Char :=
  if c == '"' || c == '\\' then ['\\', c]
  else if isPrintable c then [c]
  else match controlLetter? c with
    | some letter => ['\\', letter]
    | none => codePoint c.toNat

def quotedPiece : Piece → List Char
  | .char c => quotedChar c
  | .byte b => '\\' :: 'x' :: fixedHex lowerDigit b.toNat 2

def quoted (text : String) : String :=
  String.ofList ('"' :: (toPieces text).flatMap quotedPiece ++ ['"'])

end ScriptListing.Text
