import ScriptListing.Text.Characters
import ScriptListing.Text.Octet
import ScriptListing.Yaml.Cursor

/-! Tokens of a document text, each with the place it starts at. -/
namespace ScriptListing.Yaml

inductive Token.Kind where
  | streamStart
  | versionDirective (major minor : Nat)
  | tagDirective (handle expansion : String)
  | documentStart
  | documentEnd
  | streamEnd
  | blockSequenceStart
  | blockMappingStart
  | blockEnd
  | flowSequenceStart
  | flowSequenceEnd
  | flowMappingStart
  | flowMappingEnd
  | blockEntry
  | flowEntry
  | key
  | value
  | aliased (name : String)
  | anchor (name : String)
  | tag (handle suffix : String)
  | scalar (plain : Bool) (text : String)
  deriving DecidableEq, Repr

structure Token where
  kind : Token.Kind
  start : Mark
  deriving DecidableEq, Repr

def Token.line (t : Token) : Nat := t.start.line

end ScriptListing.Yaml

/-! Anchors, aliases, tags and directives. -/
namespace ScriptListing.Yaml.Names

def endsAnchor (rest : List Char) : Bool :=
  endsWord rest || (match rest with
    | x :: _ => "?:,]\x7d%@`".toList.contains x
    | [] => true)

def wordChars : Lex (List Char) := do
  Lex.need 1
  Lex.takeWhile isWordChar

def anchor : Lex String := do
  Lex.skip 1
  let name ← wordChars
  if name.isEmpty || !endsAnchor (← get).rest then
    throw "did not find expected alphabetic or numeric character"
  return String.ofList name

def isTagChar (x : Char) : Bool :=
  isWordChar x || ";/?:@&=+$,.!~*'()[]".toList.contains x

def escapedByte : Lex UInt8 := do
  Lex.need 3
  match (← get).rest with
  | '%' :: a :: b :: _ =>
    match Text.hexValue? a, Text.hexValue? b with
    | some high, some low =>
      Lex.skip 3
      return UInt8.ofNat (16 * high + low)
    | _, _ => throw "did not find URI escaped octet"
  | _ => throw "did not find URI escaped octet"

/-- `count` more escapes that go on with a character. What character it is does not
matter, only that each byte continues one. -/
def trailingBytes : (count : Nat) → Lex (List UInt8)
  | 0 => return []
  | count + 1 => do
    let b ← escapedByte
    if (Text.continue? b).isNone then throw "found an incorrect trailing UTF-8 octet"
    return b :: (← trailingBytes count)

def escapedBytes : Lex (List UInt8) := do
  let b ← escapedByte
  match Text.leadWidth b with
  | 0 => throw "found an incorrect leading UTF-8 octet"
  | width + 1 => return b :: (← trailingBytes width)

/-- Tag characters and escapes up to anything else, after the bytes `taken`, which have
the last one first. -/
def tagBytes : (fuel : Nat) → (taken : List UInt8) → Lex (List UInt8)
  | 0, taken => return taken.reverse
  | fuel + 1, taken => do
    match (← get).rest with
    | [] => return taken.reverse
    | x :: _ =>
      if x == '%' then
        let bytes ← escapedBytes
        Lex.need 1
        tagBytes fuel (bytes.reverse ++ taken)
      else if isTagChar x then
        Lex.skip 1
        Lex.need 1
        tagBytes fuel (UInt8.ofNat x.toNat :: taken)
      else return taken.reverse

def tagText : Lex String := do
  Lex.need 1
  return Text.ofBytes (← tagBytes (← get).limit [])

def tagTextSome : Lex String := do
  let text ← tagText
  if text.isEmpty then throw "did not find expected tag URI"
  return text

def handle : Lex String := do
  Lex.need 1
  Lex.skip 1
  let word ← wordChars
  if (← get).isAt ['!'] then
    Lex.skip 1
    return String.ofList ('!' :: word ++ ['!'])
  return String.ofList ('!' :: word)

def isClosed (h : String) : Bool := 1 < h.length && h.toList.getLast? == some '!'

/-- Handle and suffix of a tag. A verbatim tag has no handle, and a lone exclamation
mark is a suffix of its own. -/
def tagParts : Lex (String × String) := do
  Lex.need 2
  if (← get).isAt ['!', '<'] then
    Lex.skip 2
    let text ← tagTextSome
    if !(← get).isAt ['>'] then throw "did not find the expected '>'"
    Lex.skip 1
    return ("", text)
  let h ← handle
  if isClosed h then return (h, ← tagTextSome)
  let suffix := String.ofList (h.toList.drop 1) ++ (← tagText)
  if suffix.isEmpty then return ("", "!")
  return ("!", suffix)

def expectSpace : Lex Unit := do
  Lex.need 1
  if !endsWord (← get).rest then throw "did not find expected whitespace or line break"

def tag : Lex Token.Kind := do
  let (h, suffix) ← tagParts
  expectSpace
  return .tag h suffix

def versionNumber : Lex Nat := do
  Lex.need 1
  let digits ← Lex.takeWhile fun x => '0' ≤ x && x ≤ '9'
  if digits.isEmpty then throw "did not find expected version number"
  if 2 < digits.length then throw "found extremely long version number"
  return digits.foldl (fun n x => 10 * n + (x.toNat - 48)) 0

def version : Lex Token.Kind := do
  Lex.skipBlanks
  let major ← versionNumber
  if !(← get).isAt ['.'] then throw "did not find expected digit or '.' character"
  Lex.skip 1
  return .versionDirective major (← versionNumber)

def tagDirective : Lex Token.Kind := do
  Lex.skipBlanks
  if !(← get).isAt ['!'] then throw "did not find expected '!'"
  let h ← handle
  if !isClosed h && h != "!" then throw "did not find expected '!'"
  Lex.need 1
  if !(← get).sees isBlank then throw "did not find expected whitespace"
  Lex.skipBlanks
  let text ← tagTextSome
  expectSpace
  return .tagDirective h text

def directive : Lex Token.Kind := do
  Lex.skip 1
  let name ← wordChars
  if name.isEmpty then throw "could not find expected directive name"
  if !endsWord (← get).rest then throw "found unexpected non-alphabetical character"
  let kind ←
    if name == "YAML".toList then version
    else if name == "TAG".toList then tagDirective
    else throw "found unknown directive name"
  Lex.endLine
  return kind

end ScriptListing.Yaml.Names
