import ScriptListing.Yaml.Cursor

/-! Block scalars: lines below an indicator, kept as they are or folded. The header may
say how the end is chomped and how far the lines are indented. -/
namespace ScriptListing.Yaml.Block

inductive Chomping where
  | clip
  | strip
  | keep
  deriving DecidableEq

structure Header where
  chomping : Chomping := .clip
  increment : Nat := 0
  /-- Where a comment on the line of the header starts. -/
  comment : Option Mark := none

def chomping : Lex (Option Chomping) := do
  Lex.need 1
  match (← get).rest with
  | '+' :: _ =>
    Lex.skip 1
    return some .keep
  | '-' :: _ =>
    Lex.skip 1
    return some .strip
  | _ => return none

/-- An indentation digit, which is passed and must not be zero. -/
def increment : Lex (Option Nat) := do
  Lex.need 1
  match (← get).rest with
  | x :: _ =>
    if x == '0' then throw "found an indentation indicator equal to 0"
    else if '1' ≤ x && x ≤ '9' then
      Lex.skip 1
      return some (x.toNat - 48)
    else return none
  | [] => return none

def indicators : Lex Header := do
  match ← chomping with
  | some ends => return { chomping := ends, increment := (← increment).getD 0 }
  | none =>
    match ← increment with
    | some depth => return { chomping := (← chomping).getD .clip, increment := depth }
    | none => return {}

def header : Lex Header := do
  let h ← indicators
  Lex.skipBlanks
  let c ← get
  Lex.endLine
  return { h with comment := if c.isAt ['#'] then some c.mark else none }

/-- Spaces of the indentation; `indent` of zero is still unknown, so all of them. -/
def margin (indent : Nat) : (fuel : Nat) → Lex Unit
  | 0 => return
  | fuel + 1 => do
    let c ← get
    if (indent == 0 || c.column < indent) && c.isAt [' '] then
      Lex.skip 1
      Lex.need 1
      margin indent fuel

/-- Empty lines from the cursor on, put before `taken`, and the deepest column met. -/
def emptyLines (indent : Nat) :
    (fuel : Nat) → (deepest : Nat) → (taken : List Char) → Lex (List Char × Nat)
  | 0, deepest, taken => return (taken, deepest)
  | fuel + 1, deepest, taken => do
    Lex.need 1
    margin indent (← get).limit
    let c ← get
    let deepest := max deepest c.column
    if (indent == 0 || c.column < indent) && c.isAt ['\t'] then
      throw "found a tab character where an indentation space is expected"
    if c.sees isBreak then
      let text ← Lex.takeBreak
      emptyLines indent fuel deepest (text ++ taken)
    else return (taken, deepest)

/-- The indentation of the content: the one asked for, or that of the first line, at
least one more than the parent's. -/
def contentIndent (parent : Int) (increment deepest : Nat) : Nat :=
  if 0 < increment then (max parent 0).toNat + increment
  else max (max deepest (parent + 1).toNat) 1

/-- Content lines on the way: the text so far, the break that ended the last line and the
empty lines after it, all with the last character first. -/
structure Content where
  text : List Char := []
  ending : List Char := []
  empty : List Char
  /-- The last line starts with white space. -/
  deep : Bool := false

def lines (literal : Bool) (indent : Nat) : (fuel : Nat) → Content → Lex Content
  | 0, s => return s
  | fuel + 1, s => do
    let c ← get
    if c.column ≠ indent || c.rest.isEmpty then return s
    let starts := c.sees isBlank
    let joint :=
      if !literal && !s.deep && !starts && s.ending.head? == some '\n' then
        if s.empty.isEmpty then [' '] else []
      else s.ending
    let line ← Lex.takeWhile fun x => !isBreak x
    let ending ← Lex.takeBreak
    let (empty, _) ← emptyLines indent c.limit 0 []
    lines literal indent fuel {
      text := line.reverse ++ (s.empty ++ (joint ++ s.text)), ending, empty, deep := starts }

/-- The scalar that starts with the indicator at the cursor, and where a comment in its
header starts. -/
def read (literal : Bool) (parent : Int) : Lex (List Char × Option Mark) := do
  Lex.skip 1
  let h ← header
  let limit := (← get).limit
  let known := if 0 < h.increment then contentIndent parent h.increment 0 else 0
  let (empty, deepest) ← emptyLines known limit 0 []
  let indent := contentIndent parent h.increment deepest
  Lex.need 1
  let s ← lines literal indent limit { empty }
  let text := match h.chomping with
    | .strip => s.text
    | .clip => s.ending ++ s.text
    | .keep => s.empty ++ (s.ending ++ s.text)
  return (text.reverse, h.comment)

end ScriptListing.Yaml.Block
