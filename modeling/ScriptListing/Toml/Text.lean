import ScriptListing.Toml.Scalar

/-! Quoted text: on one line or on several, with escapes or without. -/
namespace ScriptListing.Toml

def isLineEnd (c : Char) : Bool := c == '\n' || c == '\r'
def isSpace (c : Char) : Bool := c == ' ' || c == '\t'

def coded? (count : Nat) (source : List Char) : Option (Char × List Char) := do
  let values ← (source.take count).mapM Text.hexValue?
  if values.length ≠ count then none
  let n := values.foldl (fun n d => 16 * n + d) 0
  if n.isValidChar then return (Char.ofNat n, source.drop count) else none

def escape? : List Char → Option (Char × List Char)
  | 'b' :: rest => some (Char.ofNat 8, rest)
  | 't' :: rest => some ('\t', rest)
  | 'n' :: rest => some ('\n', rest)
  | 'f' :: rest => some (Char.ofNat 12, rest)
  | 'r' :: rest => some ('\r', rest)
  | '"' :: rest => some ('"', rest)
  | '\\' :: rest => some ('\\', rest)
  | 'u' :: rest => coded? 4 rest
  | 'U' :: rest => coded? 8 rest
  | _ => none

def basic? : (fuel : Nat) → List Char → Option (List Char × List Char)
  | 0, _ => none
  | _, [] => none
  | fuel + 1, c :: rest =>
    if c == '"' then some ([], rest)
    else if c == '\\' then do
      let (e, rest) ← escape? rest
      let (text, rest) ← basic? fuel rest
      return (e :: text, rest)
    else if isLineEnd c then none
    else do
      let (text, rest) ← basic? fuel rest
      return (c :: text, rest)

def literal? (source : List Char) : Option (List Char × List Char) :=
  let text := source.takeWhile fun c => c != '\'' && !isLineEnd c
  match source.drop text.length with
  | '\'' :: rest => some (text, rest)
  | _ => none

/-- A line break right after the opening quotes does not count. -/
def dropFirstBreak : List Char → List Char
  | '\n' :: rest => rest
  | '\r' :: '\n' :: rest => rest
  | source => source

/-- The end of a long text as it is written so far: a number of quotes, and whether a
backslash stands before them. -/
structure Trail where
  quotes : Nat := 0
  slashed : Bool := false

namespace Trail

def quote (t : Trail) : Trail := { t with quotes := t.quotes + 1 }

def ofEscape : List Char → Trail
  | '"' :: _ => ⟨1, true⟩
  | '\\' :: _ => ⟨0, true⟩
  | _ => {}

/-- Whether four more quotes are too many. Two may stand before the three that close,
and one more where a backslash comes first. -/
def isFull (t : Trail) : Bool := 2 < t.quotes || (t.quotes == 2 && !t.slashed)

end Trail

/-- White space after a backslash with a line break in it goes with it. -/
def continued? (source : List Char) : Option (List Char) :=
  let blank := source.takeWhile fun c => isSpace c || isLineEnd c
  if blank.contains '\n' then some (source.drop blank.length) else none

def longBasic? : (fuel : Nat) → Trail → List Char → Option (List Char × List Char)
  | 0, _, _ => none
  | _, _, [] => none
  | fuel + 1, trail, c :: rest =>
    if c == '"' then
      let closes := rest.take 2 == ['"', '"']
      let more := (rest.drop 2).head? == some '"'
      if closes && !more then some ([], rest.drop 2)
      else if closes && trail.isFull then none
      else do
        let (text, rest) ← longBasic? fuel trail.quote rest
        return ('"' :: text, rest)
    else if c == '\\' then
      match continued? rest with
      | some rest => longBasic? fuel {} rest
      | none => do
        let (e, after) ← escape? rest
        let (text, rest) ← longBasic? fuel (.ofEscape rest) after
        return (e :: text, rest)
    else do
      let (text, rest) ← longBasic? fuel {} rest
      return (c :: text, rest)

/-- The text of several lines without escapes, and the rest. `quotes` stand before. -/
def longLiteral? : (fuel : Nat) → (quotes : Nat) → List Char → Option (List Char × List Char)
  | 0, _, _ => none
  | _, _, [] => none
  | fuel + 1, quotes, c :: rest =>
    if c == '\'' then
      let closes := rest.take 2 == ['\'', '\'']
      let more := (rest.drop 2).head? == some '\''
      if closes && !more then some ([], rest.drop 2)
      else if closes && 1 < quotes then none
      else do
        let (text, rest) ← longLiteral? fuel (quotes + 1) rest
        return ('\'' :: text, rest)
    else do
      let (text, rest) ← longLiteral? fuel 0 rest
      return (c :: text, rest)

def shortText? : List Char → Option (List Char × List Char)
  | '"' :: rest => basic? (rest.length + 1) rest
  | '\'' :: rest => literal? rest
  | _ => none

def text? : List Char → Option (List Char × List Char)
  | '"' :: '"' :: '"' :: rest => longBasic? (rest.length + 1) {} (dropFirstBreak rest)
  | '\'' :: '\'' :: '\'' :: rest => longLiteral? (rest.length + 1) 0 (dropFirstBreak rest)
  | source => shortText? source

end ScriptListing.Toml
