import ScriptListing.Yaml.Source

/-! A place in a document text: what is still to be read, where that is, and how much of
it is loaded. A reader says how far it is about to look with `need`, which loads further
portions and fails if they are spoiled. -/
namespace ScriptListing.Yaml

def isBlank (c : Char) : Bool := c == ' ' || c == '\t'

def isBreak (c : Char) : Bool :=
  c == '\n' || c == '\r' || c == '\x85' || c == '\u2028' || c == '\u2029'

def isWordChar (c : Char) : Bool :=
  ('0' ≤ c && c ≤ '9') || ('A' ≤ c && c ≤ 'Z') || ('a' ≤ c && c ≤ 'z') || c == '_' || c == '-'

def endsWord : List Char → Bool
  | [] => true
  | c :: _ => isBlank c || isBreak c

def endsLine : List Char → Bool
  | [] => true
  | c :: _ => isBreak c

structure Mark where
  index : Nat := 0
  line : Nat := 1
  column : Nat := 0
  deriving DecidableEq, Repr

structure Cursor where
  rest : List Char
  mark : Mark := {}
  /-- Line breaks passed since the last character that is no blank. -/
  breaks : Nat := 0
  /-- How many places from here on are loaded; the end counts as one each time a load
  meets it. -/
  loaded : Nat := 0
  /-- The sizes of the portions that are not loaded. -/
  portions : List Nat
  /-- What follows the portions cannot be read. -/
  spoiled : Bool
  /-- The character at the place of the last load is a byte order mark. -/
  marked : Bool := false
  /-- No more characters than this are left. -/
  limit : Nat

namespace Cursor

def ofSource (s : Source) : Cursor where
  rest := s.chars
  portions := s.portions
  spoiled := s.spoiled
  limit := s.chars.length + 1

def index (c : Cursor) : Nat := c.mark.index
def line (c : Cursor) : Nat := c.mark.line
def column (c : Cursor) : Nat := c.mark.column

/-- Past one character that is no line break, or past the end. -/
def next (c : Cursor) : Cursor :=
  let blank := c.rest.head?.any isBlank
  { c with
    rest := c.rest.drop 1
    mark := { c.mark with index := c.index + 1, column := c.column + 1 }
    breaks := if blank then c.breaks else 0
    loaded := c.loaded - 1 }

def skip (c : Cursor) : Nat → Cursor
  | 0 => c
  | n + 1 => c.next.skip n

/-- The line break at the cursor as it counts in a text, and the cursor after it. A
carriage return with a line feed is one break; all but the Unicode separators count as
a line feed. -/
def takeBreak (c : Cursor) : List Char × Cursor :=
  let after (rest : List Char) (width : Nat) : Cursor :=
    { c with
      rest
      mark := ⟨c.index + width, c.line + 1, 0⟩
      breaks := c.breaks + 1
      loaded := c.loaded - width }
  match c.rest with
  | '\r' :: '\n' :: rest => (['\n'], after rest 2)
  | x :: rest =>
    if x == '\u2028' || x == '\u2029' then ([x], after rest 1)
    else if isBreak x then (['\n'], after rest 1)
    else ([], c)
  | [] => ([], c)

def isAt (c : Cursor) (text : List Char) : Bool := text.isPrefixOf c.rest

def sees (c : Cursor) (p : Char → Bool) : Bool := c.rest.head?.any p

/-- A document mark at the start of a line, with nothing of a word after it. -/
def atMark (c : Cursor) (mark : List Char) : Bool :=
  c.column == 0 && c.isAt mark && endsWord (c.rest.drop mark.length)

def atDocumentStart (c : Cursor) : Bool := c.atMark ['-', '-', '-']
def atDocumentEnd (c : Cursor) : Bool := c.atMark ['.', '.', '.']
def atDocumentMark (c : Cursor) : Bool := c.atDocumentStart || c.atDocumentEnd

/-- Portions loaded until `n` places are there. -/
def load (n : Nat) : (portions : List Nat) → Cursor → Except String Cursor
  | [], c =>
    if c.spoiled then .error "control characters are not allowed"
    else .ok { c with portions := [], loaded := c.loaded + 1 }
  | size :: more, c =>
    let c := { c with portions := more, loaded := c.loaded + size }
    if n ≤ c.loaded then .ok c else load n more c

end Cursor

abbrev Lex := StateT Cursor (Except String)

namespace Lex

/-- At least `n` places are loaded, unless the text ends before. -/
def need (n : Nat) : Lex Unit := do
  let c ← get
  if c.loaded < n then
    set (← Cursor.load n c.portions { c with marked := c.rest.head? == some '\uFEFF' })

def skip (n : Nat) : Lex Unit := modify (·.skip n)

/-- Past a line break, which is loaded with the character after it. -/
def takeBreak : Lex (List Char) := do
  need 2
  modifyGet Cursor.takeBreak

/-- The characters that satisfy `p`, none of them a line break, after those of `taken`,
which has the last one first. Each is passed before the next is loaded. -/
def takeAll (p : Char → Bool) : (fuel : Nat) → (taken : List Char) → Lex (List Char)
  | 0, taken => return taken.reverse
  | fuel + 1, taken => do
    match (← get).rest with
    | [] => return taken.reverse
    | x :: _ =>
      if p x then
        skip 1
        need 1
        takeAll p fuel (x :: taken)
      else return taken.reverse

def takeWhile (p : Char → Bool) : Lex (List Char) := do takeAll p (← get).limit []

def skipWhile (p : Char → Bool) : Lex Unit := discard (takeWhile p)

def skipBlanks : Lex Unit := do
  need 1
  skipWhile isBlank

def skipLine : Lex Unit := skipWhile fun x => !isBreak x

def endLine : Lex Unit := do
  skipBlanks
  if (← get).isAt ['#'] then skipLine
  match (← get).rest with
  | [] => return
  | x :: _ =>
    if isBreak x then discard takeBreak
    else throw "did not find expected comment or line break"

end Lex
end ScriptListing.Yaml
