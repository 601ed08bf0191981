import ScriptListing.Yaml.Comment
import ScriptListing.Yaml.Token.Block
import ScriptListing.Yaml.Token
import ScriptListing.Yaml.Token.Flow
import Std.Data.TreeMap

/-! The tokens of a text in order. Indentation opens and closes block collections, and a
mapping key is recognised only at the colon after it, so its token is put in front of
those that were taken since. A token is handed on when two more are there and no colon
can put anything in front of it; the text is read just as far as that takes. -/
namespace ScriptListing.Yaml

/-- A place where a mapping key without an indicator may have started. -/
structure PossibleKey where
  /-- A colon can still make it a key. -/
  possible : Bool := false
  /-- At this column only a key can stand. -/
  required : Bool := false
  /-- The number of tokens before it. -/
  number : Nat
  mark : Mark

structure Scan where
  cursor : Cursor
  /-- The tokens that are not handed on. -/
  queue : Array Token := #[⟨.streamStart, {}⟩]
  /-- The number of tokens handed on. -/
  given : Nat := 0
  /-- The number of open flow collections. -/
  flow : Nat := 0
  indent : Int := -1
  indents : List Int := []
  keyAllowed : Bool := true
  /-- The last possible key of each flow level, the block level first. -/
  keys : Array PossibleKey := #[{ number := 0, mark := {} }]
  /-- The tokens by number that wait for the possible key of a flow level. -/
  waiting : Std.TreeMap Nat Nat := {}
  /-- The comments that no token has taken up. -/
  comments : List Comment := []

namespace Scan

def maxDepth : Nat := 10000

def read {α : Type} (s : Scan) (reader : Lex α) : Except String (α × Scan) := do
  let (a, cursor) ← reader.run s.cursor
  return (a, { s with cursor })

def nextNumber (s : Scan) : Nat := s.given + s.queue.size

def push (s : Scan) (kind : Token.Kind) (start : Mark) : Scan :=
  { s with queue := s.queue.push ⟨kind, start⟩ }

/-- A token put in front of the one with a number, or at the end if that one is handed
on. -/
def insertAt (s : Scan) (number : Nat) (kind : Token.Kind) (start : Mark) : Scan :=
  if number < s.given then s.push kind start
  else { s with queue := s.queue.insertIdxIfInBounds (number - s.given) ⟨kind, start⟩ }

def secondLast? (s : Scan) : Option Token :=
  if 2 ≤ s.queue.size then s.queue[s.queue.size - 2]? else none

/-- A line comment above the content of a sequence that has just started belongs to that
content. -/
def adoptComment (s : Scan) : Scan :=
  match s.comments.getLast? with
  | none => s
  | some comment =>
    if comment.role = .line ∧ s.secondLast?.map (·.kind) = some .blockSequenceStart ∧
        s.queue.back?.map (·.kind) = some .blockEntry ∧ !s.cursor.sees isBreak then
      let token :=
        if comment.start.line + 1 = s.cursor.line then s.cursor.index else comment.token
      { s with comments := s.comments.dropLast ++ [{ comment with role := .head, token }] }
    else s

/-- Passes comments on lines of their own. They follow the last token, or the one before
a comma. -/
def readComments (s : Scan) (scanned : Mark) : Except String Scan := do
  let last := s.queue.back?
  let token :=
    if last.map (·.kind) = some .flowEntry then s.secondLast?.or last else last
  let (comments, s) ← s.read (Comment.onLines s.indent (0 < s.flow)
    (token.map (·.kind) = some .value) scanned (token.elim 0 (·.start.index)))
  return { s with comments := s.comments ++ comments }

/-- Spaces, and tabs where they count as such. A byte order mark at the place of the
last load makes a line start one character later. -/
def margin (tabs : Bool) : Lex Unit := do
  Lex.need 1
  let c ← get
  if c.column == 0 && c.marked then Lex.skip 1
  Lex.need 1
  Lex.skipWhile fun x => x == ' ' || (tabs && x == '\t')

/-- To the next character that belongs to a token. Tabs count as white space wherever a
key cannot start. -/
def skipToToken (scanned : Mark) : (fuel : Nat) → Scan → Except String Scan
  | 0, s => .ok s
  | fuel + 1, s => do
    let (_, s) ← s.read (margin (0 < s.flow || !s.keyAllowed))
    let s := s.adoptComment
    let s ← if s.cursor.isAt ['#'] then s.readComments scanned else pure s
    if s.cursor.sees isBreak then
      let (_, s) ← s.read Lex.takeBreak
      skipToToken scanned fuel { s with keyAllowed := s.keyAllowed || s.flow == 0 }
    else return s

/-- Where a block collection at the column `indent` ends: at `mark`, or at the first of
the comments in its column that stand directly before. The comments come with the last
one first. -/
def blockMark (indent : Int) : List Comment → (stop : Nat) → (mark : Mark) → Mark
  | [], _, mark => mark
  | comment :: before, stop, mark =>
    if comment.finish < stop then mark
    else blockMark indent before comment.scanned
      (if (comment.start.column : Int) = indent + 1 then comment.start else mark)

def unroll (column : Int) : (indents : List Int) → Mark → Scan → Scan
  | [], _, s => s
  | parent :: rest, mark, s =>
    if column < s.indent then
      let mark := blockMark s.indent s.comments.reverse mark.index mark
      unroll column rest mark { s.push .blockEnd mark with indent := parent, indents := rest }
    else s

def unrollTo (s : Scan) (column : Int) (scanned : Mark) : Scan :=
  if 0 < s.flow then s
  else unroll column s.indents { scanned with index := scanned.index - 1 } s

/-- Opens a block collection at the column of `start`, unless one is open there already.
Its token has the number given. -/
def roll (s : Scan) (number : Nat) (kind : Token.Kind) (start : Mark) : Except String Scan :=
  if s.flow == 0 && s.indent < start.column then
    if maxDepth ≤ s.indents.length then .error "exceeded max depth"
    else .ok { (s.insertAt number kind start) with
      indent := start.column, indents := s.indent :: s.indents }
  else .ok s

/-- Whether the possible key of a level can still become a key: the colon must be on its
line and near enough. -/
def isLive (s : Scan) (level : Nat) : Except String (Bool × Scan) :=
  match s.keys[level]? with
  | none => .ok (false, s)
  | some key =>
    if !key.possible then .ok (false, s)
    else if key.mark.line < s.cursor.line || key.mark.index + 1024 < s.cursor.index then
      if key.required then .error "could not find expected ':'"
      else .ok (false, { s with keys := s.keys.setIfInBounds level { key with possible := false } })
    else .ok (true, s)

def dropKey (s : Scan) : Except String Scan :=
  match s.keys.back? with
  | none => .ok s
  | some key =>
    if !key.possible then .ok s
    else if key.required then .error "could not find expected ':'"
    else .ok { s with
      keys := s.keys.pop.push { key with possible := false }
      waiting := s.waiting.erase key.number }

def saveKey (s : Scan) : Except String Scan :=
  if s.keyAllowed then do
    let cleared ← s.dropKey
    let required := s.flow == 0 && s.indent == s.cursor.column
    return { cleared with
      keys := cleared.keys.pop.push ⟨true, required, s.nextNumber, s.cursor.mark⟩
      waiting := cleared.waiting.insert s.nextNumber (s.keys.size - 1) }
  else .ok s

def take (s : Scan) (width : Nat) (kind : Token.Kind) : Scan :=
  { s.push kind s.cursor.mark with cursor := s.cursor.skip width }

/-- The end of the text, which counts as a line of its own. -/
def streamEnd (s : Scan) : Except String Scan := do
  let mark := s.cursor.mark
  let mark := if mark.column = 0 then mark else ⟨mark.index, mark.line + 1, 0⟩
  let s := { s with cursor := { s.cursor with mark } }
  let s ← (s.unrollTo (-1) mark).dropKey
  return { s.push .streamEnd mark with keyAllowed := false }

def documentMark (s : Scan) (kind : Token.Kind) : Except String Scan := do
  let s ← (s.unrollTo (-1) s.cursor.mark).dropKey
  return { s.take 3 kind with keyAllowed := false }

def directive (s : Scan) : Except String Scan := do
  let start := s.cursor.mark
  let s ← (s.unrollTo (-1) start).dropKey
  let (kind, s) ← s.read Names.directive
  return { s.push kind start with keyAllowed := false }

def flowStart (s : Scan) (kind : Token.Kind) : Except String Scan := do
  let s ← s.saveKey
  if maxDepth ≤ s.flow then throw "exceeded max depth"
  return { s.take 1 kind with
    flow := s.flow + 1
    keys := s.keys.push { number := s.nextNumber, mark := s.cursor.mark }
    keyAllowed := true }

/-- A closing bracket. What waits for the last possible key inside waits no longer, and
where there was none that is the opening bracket. -/
def flowEnd (s : Scan) (kind : Token.Kind) : Except String Scan := do
  let s ← s.dropKey
  let s := if 0 < s.flow then
      { s with
        flow := s.flow - 1
        keys := s.keys.pop
        waiting := s.keys.back?.elim s.waiting fun key => s.waiting.erase key.number }
    else s
  return { s.take 1 kind with keyAllowed := false }

def flowEntry (s : Scan) : Except String Scan := do
  let s ← s.dropKey
  return { s.take 1 .flowEntry with keyAllowed := true }

def blockEntry (s : Scan) : Except String Scan := do
  if s.flow == 0 && !s.keyAllowed then
    throw "block sequence entries are not allowed in this context"
  let s ← s.roll s.nextNumber .blockSequenceStart s.cursor.mark
  let s ← s.dropKey
  return { s.take 1 .blockEntry with keyAllowed := true }

def explicitKey (s : Scan) : Except String Scan := do
  if s.flow == 0 && !s.keyAllowed then throw "mapping keys are not allowed in this context"
  let s ← s.roll s.nextNumber .blockMappingStart s.cursor.mark
  let s ← s.dropKey
  return { s.take 1 .key with keyAllowed := s.flow == 0 }

def value (s : Scan) : Except String Scan := do
  let (live, s) ← s.isLive (s.keys.size - 1)
  match live, s.keys.back? with
  | true, some key =>
    let s := s.insertAt key.number .key key.mark
    let s ← s.roll key.number .blockMappingStart key.mark
    let s := { s with
      keys := s.keys.pop.push { key with possible := false }
      waiting := s.waiting.erase key.number }
    return { s.take 1 .value with keyAllowed := false }
  | _, _ =>
    if s.flow == 0 && !s.keyAllowed then
      throw "mapping values are not allowed in this context"
    let s ← s.roll s.nextNumber .blockMappingStart s.cursor.mark
    return { s.take 1 .value with keyAllowed := s.flow == 0 }

def anchor (s : Scan) (kind : String → Token.Kind) : Except String Scan := do
  let start := s.cursor.mark
  let (name, s) ← (← s.saveKey).read Names.anchor
  return { s.push (kind name) start with keyAllowed := false }

def tag (s : Scan) : Except String Scan := do
  let start := s.cursor.mark
  let (kind, s) ← (← s.saveKey).read Names.tag
  return { s.push kind start with keyAllowed := false }

def blockScalar (s : Scan) (literal : Bool) : Except String Scan := do
  let start := s.cursor.mark
  let ((text, comment), s) ← (← s.dropKey).read (Block.read literal s.indent)
  let comments := comment.toList.map fun mark => ⟨.line, start.index, mark, 0, 0⟩
  return { s.push (.scalar false (Text.ofChars text)) start with
    keyAllowed := true, comments := s.comments ++ comments }

def quotedScalar (s : Scan) (single : Bool) : Except String Scan := do
  let start := s.cursor.mark
  let (text, s) ← (← s.saveKey).read (Quoted.read single)
  return { s.push (.scalar false (Text.ofChars text)) start with keyAllowed := false }

def plainScalar (s : Scan) : Except String Scan := do
  let start := s.cursor.mark
  let ((text, broken), s) ←
    (← s.saveKey).read (Plain.read (0 < s.flow) (s.indent + 1).toNat)
  return { s.push (.scalar true (Text.ofChars text)) start with keyAllowed := broken }

def isIndicator (x : Char) : Bool := "-?:,[]\x7b\x7d#&*!|>'\"%@`".toList.contains x

def startsPlain (s : Scan) (x : Char) (rest : List Char) : Bool :=
  let blankNext := rest.head?.any isBlank
  !(isBlank x || isBreak x || isIndicator x) || (x == '-' && !blankNext) ||
    (s.flow == 0 && (x == '?' || x == ':') && !endsWord rest)

def dispatch (s : Scan) (x : Char) (rest : List Char) : Except String Scan :=
  let inFlow := 0 < s.flow
  if x == '[' then s.flowStart .flowSequenceStart
  else if x == '\x7b' then s.flowStart .flowMappingStart
  else if x == ']' then s.flowEnd .flowSequenceEnd
  else if x == '\x7d' then s.flowEnd .flowMappingEnd
  else if x == ',' then s.flowEntry
  else if x == '-' && endsWord rest then s.blockEntry
  else if x == '?' && (inFlow || endsWord rest) then s.explicitKey
  else if x == ':' && (inFlow || endsWord rest) then s.value
  else if x == '*' then s.anchor .aliased
  else if x == '&' then s.anchor .anchor
  else if x == '!' then s.tag
  else if x == '|' && !inFlow then s.blockScalar true
  else if x == '>' && !inFlow then s.blockScalar false
  else if x == '\'' then s.quotedScalar true
  else if x == '"' then s.quotedScalar false
  else if s.startsPlain x rest then s.plainScalar
  else .error "found character that cannot start any token"

/-- Passes a comment on the line of the last token; it belongs to the token at the index
`place`. After a dash it is left to what follows. -/
def endToken (place : Nat) (s : Scan) : Except String Scan := do
  if s.queue.back?.map (·.kind) = some .blockEntry then return s
  let (comment, s) ← s.read Comment.onLine
  let comments := comment.toList.map fun mark => ⟨.line, place, mark, 0, 0⟩
  return { s with comments := s.comments ++ comments }

/-- A comment after a colon or a comma belongs to what stands before it. -/
def commentPlace (s : Scan) (x : Char) : Nat :=
  if (s.flow == 0 && x == ':') || (0 < s.flow && x == ',') then
    s.queue.back?.elim s.cursor.index (·.start.index)
  else s.cursor.index

def step (s : Scan) : Except String Scan := do
  let (_, s) ← s.read (Lex.need 1)
  let scanned := s.cursor.mark
  let s ← s.skipToToken scanned s.cursor.limit
  let s := s.unrollTo s.cursor.column scanned
  let (_, s) ← s.read (Lex.need 4)
  match s.cursor.rest with
  | [] => s.streamEnd
  | x :: rest =>
    if s.cursor.column == 0 && x == '%' then s.directive
    else if s.cursor.atDocumentStart then s.documentMark .documentStart
    else if s.cursor.atDocumentEnd then s.documentMark .documentEnd
    else do
      let place := s.commentPlace x
      (← s.dispatch x rest).endToken place

def isReady (s : Scan) : Except String (Bool × Scan) :=
  if s.queue.size < 3 then .ok (false, s)
  else match s.waiting[s.given]? with
    | none => .ok (true, s)
    | some level => do
      let (live, s) ← s.isLive level
      return (!live, s)

/-- The comments that a token leaves to later ones. An end takes up no head. -/
def commentsAfter (t : Token) : List Comment → List Comment
  | [] => []
  | comment :: rest =>
    if t.start.index < comment.token then comment :: rest
    else if comment.role = .head ∧ t.kind = .blockEnd then comment :: rest
    else commentsAfter t rest

def advance (s : Scan) : Except String (Option Token × Scan) := do
  let (ready, s) ← s.isReady
  match ready, s.queue[0]? with
  | true, some t =>
    return (some t, { s with
      queue := s.queue.extract 1 s.queue.size
      given := s.given + 1
      comments := commentsAfter t s.comments })
  | _, _ => return (none, ← s.step)

/-- Tokens up to the end, or to the first that cannot be handed on. -/
def run : (fuel : Nat) → (given : Array Token) → Scan → Array Token × Option String
  | 0, given, _ => (given, none)
  | fuel + 1, given, s =>
    match s.advance with
    | .error problem => (given, some problem)
    | .ok (none, s) => run fuel given s
    | .ok (some t, s) =>
      if t.kind = .streamEnd then (given.push t, none) else run fuel (given.push t) s

end Scan

structure Tokens where
  list : List Token
  problem : Option String

def Tokens.ofSource (source : Source) : Tokens :=
  let (tokens, problem) :=
    Scan.run (8 * source.chars.length + 32) #[] { cursor := .ofSource source }
  ⟨tokens.toList, problem⟩

end ScriptListing.Yaml
