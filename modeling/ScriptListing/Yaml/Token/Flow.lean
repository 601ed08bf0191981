import ScriptListing.Text.Characters
import ScriptListing.Yaml.Cursor

/-! White space inside a scalar that runs over several lines. A single line break reads
as a space, and of several breaks all but the first are kept. -/
namespace ScriptListing.Yaml

/-- White space between two words of a scalar: blanks on one line, or a first break and
the breaks after it. -/
structure Gap where
  /-- The last one first. -/
  blanks : List Char := []
  first : List Char := []
  /-- The last one first. -/
  others : List Char := []
  /-- A line break was passed. -/
  broken : Bool := false

namespace Gap

def textReversed (g : Gap) : List Char :=
  if !g.broken then g.blanks
  else match g.first with
    | '\n' :: _ => if g.others.isEmpty then [' '] else g.others
    | _ => g.others ++ g.first

def addBreak (g : Gap) (text : List Char) : Gap :=
  if g.broken then { g with others := text ++ g.others }
  else { g with blanks := [], first := text, broken := true }

/-- Blanks and breaks from the cursor on, after what `g` already holds. A tab in the
margin of a later line, left of `margin`, is refused. -/
def read (margin : Nat) : (fuel : Nat) → Gap → Lex Gap
  | 0, g => return g
  | fuel + 1, g => do
    let c ← get
    match c.rest with
    | [] => return g
    | x :: _ =>
      if isBlank x then
        if g.broken && x == '\t' && c.column < margin then
          throw "found a tab character that violates indentation"
        Lex.skip 1
        Lex.need 1
        read margin fuel (if g.broken then g else { g with blanks := x :: g.blanks })
      else if isBreak x then
        let text ← Lex.takeBreak
        Lex.need 1
        read margin fuel (g.addBreak text)
      else return g

end Gap
end ScriptListing.Yaml

/-! Plain scalars: words and the gaps between them, up to an indicator, a comment, a
document mark or a line that is not indented enough. -/
namespace ScriptListing.Yaml.Plain

/-- Whether the character ends a word here: a colon before white space, and inside a
flow collection its indicators. -/
def stops (inFlow : Bool) (x : Char) (rest : List Char) : Bool :=
  (x == ':' && endsWord rest) ||
    (inFlow && (x == ',' || x == '?' || x == '[' || x == ']' || x == '\x7b' || x == '\x7d'))

/-- The characters of a word put before `taken`, the last one first. -/
def word (inFlow : Bool) : (fuel : Nat) → (taken : List Char) → Lex (List Char)
  | 0, taken => return taken
  | fuel + 1, taken => do
    match (← get).rest with
    | [] => return taken
    | x :: rest =>
      if isBlank x || isBreak x || stops inFlow x rest then return taken
      else
        Lex.skip 1
        Lex.need 2
        word inFlow fuel (x :: taken)

/-- Words from the cursor on, with `gap` before the first of them, put before `taken`.
Gives the text and whether a line break was passed after its last word. -/
def words (inFlow : Bool) (margin : Nat) :
    (fuel : Nat) → (gap : Gap) → (taken : List Char) → Lex (List Char × Bool)
  | 0, gap, taken => return (taken.reverse, gap.broken)
  | fuel + 1, gap, taken => do
    Lex.need 4
    let c ← get
    if c.atDocumentMark || c.isAt ['#'] then return (taken.reverse, gap.broken)
    let letters ← word inFlow c.limit []
    let taken := if letters.isEmpty then taken else letters ++ (gap.textReversed ++ taken)
    let gap := if letters.isEmpty then gap else {}
    if (← get).sees fun x => isBlank x || isBreak x then
      Lex.need 1
      let gap ← gap.read margin c.limit
      if !inFlow && (← get).column < margin then return (taken.reverse, gap.broken)
      words inFlow margin fuel gap taken
    else return (taken.reverse, gap.broken)

def read (inFlow : Bool) (margin : Nat) : Lex (List Char × Bool) := do
  words inFlow margin ((← get).limit + 1) {} []

end ScriptListing.Yaml.Plain

/-! Quoted scalars. Between single quotes a doubled quote stands for one; between double
quotes a backslash starts an escape, and before a line break it joins the lines. -/
namespace ScriptListing.Yaml.Quoted

def escape? : Char → Option Char
  | '0' => some '\x00'
  | 'a' => some '\x07'
  | 'b' => some '\x08'
  | 't' => some '\t'
  | '\t' => some '\t'
  | 'n' => some '\n'
  | 'v' => some '\x0b'
  | 'f' => some '\x0c'
  | 'r' => some '\r'
  | 'e' => some '\x1b'
  | ' ' => some ' '
  | '"' => some '"'
  | '\'' => some '\''
  | '\\' => some '\\'
  | 'N' => some '\x85'
  | '_' => some '\xa0'
  | 'L' => some '\u2028'
  | 'P' => some '\u2029'
  | _ => none

def codeWidth? : Char → Option Nat
  | 'x' => some 2
  | 'u' => some 4
  | 'U' => some 8
  | _ => none

def codeValue? : (width : Nat) → (value : Nat) → List Char → Option Nat
  | 0, value, _ => some value
  | width + 1, value, x :: rest =>
    match Text.hexValue? x with
    | some d => codeValue? width (16 * value + d) rest
    | none => none
  | _ + 1, _, [] => none

def escaped (letter : Char) : Lex Char :=
  match escape? letter with
  | some x => do
    Lex.skip 2
    return x
  | none =>
    match codeWidth? letter with
    | none => throw "found unknown escape character"
    | some width => do
      Lex.skip 2
      Lex.need width
      match codeValue? width 0 (← get).rest with
      | none => throw "did not find expected hexdecimal number"
      | some n =>
        if n.isValidChar then
          Lex.skip width
          return Char.ofNat n
        else throw "found invalid Unicode character escape code"

/-- Characters up to white space, the closing quote or a joined line, put before
`taken`. The flag says that a joined line ended them. -/
def word (single : Bool) : (fuel : Nat) → (taken : List Char) → Lex (List Char × Bool)
  | 0, taken => return (taken, false)
  | fuel + 1, taken => do
    match (← get).rest with
    | [] => return (taken, false)
    | x :: rest =>
      if isBlank x || isBreak x then return (taken, false)
      else if single && x == '\'' && rest.head? == some '\'' then
        Lex.skip 2
        Lex.need 2
        word single fuel ('\'' :: taken)
      else if x == (if single then '\'' else '"') then return (taken, false)
      else if !single && x == '\\' then
        match rest with
        | [] => throw "found unknown escape character"
        | letter :: _ =>
          if isBreak letter then
            Lex.need 3
            Lex.skip 1
            modify fun c => c.takeBreak.2
            return (taken, true)
          else
            let char ← escaped letter
            Lex.need 2
            word single fuel (char :: taken)
      else
        Lex.skip 1
        Lex.need 2
        word single fuel (x :: taken)

def words (single : Bool) : (fuel : Nat) → (taken : List Char) → Lex (List Char)
  | 0, _ => throw "found unexpected end of stream"
  | fuel + 1, taken => do
    Lex.need 4
    let c ← get
    if c.atDocumentMark then throw "found unexpected document indicator"
    if c.rest.isEmpty then throw "found unexpected end of stream"
    let (taken, joined) ← word single c.limit taken
    Lex.need 1
    if (← get).isAt [if single then '\'' else '"'] then
      Lex.skip 1
      return taken.reverse
    let gap ← Gap.read 0 c.limit { broken := joined }
    words single fuel (gap.textReversed ++ taken)

def read (single : Bool) : Lex (List Char) := do
  Lex.skip 1
  words single ((← get).limit + 1) []

end ScriptListing.Yaml.Quoted
