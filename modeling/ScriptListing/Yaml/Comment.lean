import ScriptListing.Yaml.Cursor

/-! Comments. They say nothing, but a block collection ends where the comments that
close it start, so each is kept until the token it belongs to is handed on: a head
belongs to the token below, a foot to what stands above, a line comment to the line. -/
namespace ScriptListing.Yaml

inductive Comment.Role where
  | head
  | line
  | foot
  deriving DecidableEq, Repr

structure Comment where
  role : Comment.Role
  /-- The index from which on a token takes the comment up. -/
  token : Nat
  /-- The column of a comment on lines of its own is counted from one. -/
  start : Mark
  /-- The index where the white space before it starts. -/
  scanned : Nat := 0
  /-- The index where it ends. -/
  finish : Nat := 0

namespace Comment

/-- Comments are looked for at most this far ahead. -/
def reach : Nat := 512

/-- To the end of the comment whose mark has the index `seen`, past white space before
it. -/
def pass (seen : Nat) : (fuel : Nat) → Lex Unit
  | 0 => return
  | fuel + 1 => do
    Lex.need 1
    let c ← get
    if endsLine c.rest then
      if seen ≤ c.index then return
      discard Lex.takeBreak
    else Lex.skip 1
    pass seen fuel

def blanksBefore : (steps : Nat) → (peek : Nat) → List Char → Lex (Option Nat)
  | 0, _, _ => return none
  | steps + 1, peek, ahead => do
    Lex.need (peek + 1)
    match ahead with
    | [] => return none
    | x :: ahead =>
      if isBlank x then blanksBefore steps (peek + 1) ahead
      else return if x == '#' then some peek else none

/-- Passes a comment that follows on the same line, and tells where it starts. -/
def onLine : Lex (Option Mark) := do
  let c ← get
  if 0 < c.breaks then return none
  match ← blanksBefore reach 0 c.rest with
  | none => return none
  | some blanks =>
    pass (c.index + blanks) (c.limit + 1)
    return some { c.mark with index := c.index + blanks, column := c.column + blanks }

structure Surroundings where
  /-- The column of the open block collection. -/
  indent : Nat
  inFlow : Bool
  /-- The last token is a colon. -/
  afterColon : Bool
  /-- A comment that starts on this line belongs to what stands above. -/
  footLine : Option Nat

/-- Comments on lines of their own, as far as they are known. `line` and `column` are
those of the character that is looked at. -/
structure Lines where
  /-- The comments before the open one. -/
  found : List Comment := []
  /-- Where the open comment starts. -/
  start : Option Mark := none
  scanned : Nat
  token : Nat
  /-- No empty line was passed. -/
  firstGap : Bool
  /-- The line before is empty. -/
  afterGap : Bool := false
  line : Nat
  column : Nat

namespace Lines

def foot (s : Lines) (start : Mark) (index : Nat) (token : Nat) : Lines :=
  { s with
    found := s.found ++ [⟨.foot, token, start, s.scanned, index⟩]
    start := none, scanned := index, token := index }

/-- At a line break, the end or a closing bracket: the open comment is a foot if it ends
a flow collection, follows its token directly or is indented less than the block. -/
def close (p : Surroundings) (s : Lines) (bracket : Bool) (index : Nat) : Lines :=
  match s.start with
  | none => s
  | some start =>
    let dedented := start.column - 1 < p.indent
    if bracket || (!s.afterGap && s.firstGap &&
        ((some start.line == p.footLine && !p.afterColon) || dedented)) then
      s.foot start index (if dedented then start.index else s.token)
    else s

/-- At a character of a line: a comment that is indented otherwise is complete if the
line is indented less than the block. -/
def dedent (p : Surroundings) (s : Lines) (index : Nat) : Lines :=
  match s.start with
  | some start =>
    if s.column - 1 < p.indent && s.column ≠ start.column then s.foot start index s.token else s
  | none => s

def nextLine (s : Lines) : Lines :=
  { s with firstGap := false, afterGap := true, line := s.line + 1, column := 0 }

end Lines

/-- Whether a line break takes up more than one byte. Such a break is not followed
further. -/
def isWideBreak (x : Char) : Bool := x == '\x85' || x == '\u2028' || x == '\u2029'

def insideBreak (p : Surroundings) (peek : Nat) (s : Lines) : Lex (Lines × Nat × Bool) := do
  Lex.need (peek + 1)
  let index := (← get).index + peek
  return ({ s with column := 1 }.dedent p index, peek, false)

/-- Looks from `peek` characters after the cursor for the next comment. Gives how far it
got and whether a comment is there. -/
def seek (p : Surroundings) :
    (steps : Nat) → (peek : Nat) → (ahead : List Char) → Lines → Lex (Lines × Nat × Bool)
  | 0, peek, _, s => return (s, peek, false)
  | steps + 1, peek, ahead, s => do
    Lex.need (peek + 1)
    let index := (← get).index + peek
    let s := { s with column := s.column + 1 }
    match ahead with
    | [] => return (s.close p false index, peek, false)
    | x :: ahead =>
      if isBlank x then seek p steps (peek + 1) ahead s
      else if p.inFlow && (x == ']' || x == '\x7d') then
        return (s.close p true index, peek, false)
      else if isBreak x then
        let s := (s.close p false index).nextLine
        if isWideBreak x && 0 < steps then insideBreak p (peek + 1) s
        else seek p steps (peek + 1) ahead s
      else return (s.dedent p index, peek, x == '#')

/-- Comments up to something else. After each the search goes on behind the first byte
of its line break. -/
def lines (p : Surroundings) : (fuel : Nat) → (peek : Nat) → Lines → Lex (List Comment)
  | 0, _, s => return s.found
  | fuel + 1, peek, s => do
    let c ← get
    let (s, peek, found) ←
      if 0 < peek && c.sees isWideBreak then insideBreak p peek s
      else seek p (reach - peek) peek (c.rest.drop peek) s
    let index := c.index + peek
    if found then
      pass index (c.limit + 1)
      lines p fuel 1 { s with
        start := s.start.or (some ⟨index, s.line, s.column⟩)
        afterGap := false, line := (← get).line, column := 0 }
    else
      match s.start with
      | some start => return s.found ++ [⟨.head, start.index, start, s.scanned, index - 1⟩]
      | none => return s.found

/-- Passes the comments from the cursor on, which is at the first. The white space before
started at `scanned`, and the last token at the index `token`. -/
def onLines (indent : Int) (inFlow afterColon : Bool) (scanned : Mark) (token : Nat) :
    Lex (List Comment) := do
  let c ← get
  let below := c.line + 1 - c.breaks
  let p : Surroundings := {
    indent := indent.toNat, inFlow, afterColon
    footLine :=
      if scanned.line ≤ 1 then none
      else some (if c.breaks == 0 && 1 < c.column then below + 1 else below) }
  lines p c.limit 0 {
    scanned := scanned.index, token, firstGap := c.breaks ≤ 1, line := c.line, column := c.column }

end Comment
end ScriptListing.Yaml
