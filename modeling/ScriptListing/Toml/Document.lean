import ScriptListing.Text.Octet
import ScriptListing.Toml.Text

/-! Settings tables from their text. A key may be given once, unless it holds an array; a
table that only came about on the way to another may still be opened by its own
header. -/
namespace ScriptListing.Toml

structure State where
  rest : List Char
  root : Entries := []
  /-- The table that keys are set in. -/
  context : Key := []
  /-- Tables that no header has opened. -/
  implicit : List Key := []
  /-- Keys that count as holding an array. -/
  arrays : List Key := []
  /-- All keys as they came, the last one first. -/
  order : List Key := []

abbrev Step := StateT State (Except String)

def refuse {α : Type} (problem : String) : Step α := fun _ => .error problem

def peek : Step (Option Char) := return (← get).rest.head?

def advance : Step Unit := modify fun s => { s with rest := s.rest.drop 1 }

def skip (p : Char → Bool) : Step Unit := modify fun s => { s with rest := s.rest.dropWhile p }

def skipComment : Step Unit := skip (!isLineEnd ·)

def skipLines : (fuel : Nat) → Step Unit
  | 0 => return
  | fuel + 1 => do
    skip fun c => isSpace c || isLineEnd c
    if (← peek) = some '#' then
      skipComment
      skipLines fuel

def take {α : Type} (problem : String) (read : List Char → Option (α × List Char)) : Step α := do
  let s ← get
  match read s.rest with
  | some (value, rest) =>
    set { s with rest }
    return value
  | none => refuse problem

def name : Step String := do
  skip isSpace
  match ← peek with
  | some '"' => return ScriptListing.Text.ofChars (← take "malformed name" shortText?)
  | some '\'' => return ScriptListing.Text.ofChars (← take "malformed name" shortText?)
  | _ =>
    let bare := (← get).rest.takeWhile isBare
    if bare.isEmpty then refuse "expected a name"
    modify fun s => { s with rest := s.rest.drop bare.length }
    return String.ofList bare

def key (close : Char) : (fuel : Nat) → Step Key
  | 0 => refuse "key too long"
  | fuel + 1 => do
    let first ← name
    skip isSpace
    match ← peek with
    | some '.' =>
      advance
      return first :: (← key close fuel)
    | some c =>
      if c = close then
        advance
        return [first]
      else refuse "expected a dot or the end of a key"
    | none => refuse "unexpected end"

def unmark (k : Key) : Step Unit := modify fun s => { s with implicit := s.implicit.erase k }

def markImplicit (k : Key) : Step Unit := modify fun s =>
  { s with implicit := if s.implicit.contains k then s.implicit else k :: s.implicit }

/-- Sets a name in the current table. A key that holds an array may be set again, and
one that is implicit keeps its value and is implicit no longer. -/
def setValue (name : String) (value : Value) : Step Unit := do
  let s ← get
  let whole := s.context ++ [name]
  let assign : Step Unit :=
    match alter? (setEntry name value) s.context s.root with
    | some root => modify fun s => { s with root }
    | none => refuse "no table to set a key in"
  match entriesAt? s.context s.root with
  | some entries =>
    if (entries.lookup name).isSome then
      if s.arrays.contains whole then
        unmark whole
        assign
      else if s.implicit.contains whole then unmark whole
      else refuse "key already defined"
    else assign
  | none => refuse "key already defined"

/-- Notes whether a key holds an array. An empty name stands for the current table, and at
the top for itself. -/
def setArray (name : String) (isArray : Bool) : Step Unit := modify fun s =>
  let path := if name = "" then s.context else s.context ++ [name]
  let whole := if path = [] then [""] else path
  let others := s.arrays.filter (· ≠ whole)
  { s with arrays := if isArray then whole :: others else others }

/-- Makes each table above a key, implicit where it was missing. -/
def openParents : (done : Key) → Key → Step Unit
  | _, [] => return
  | done, name :: rest => do
    let here := done ++ [name]
    let s ← get
    match find? here s.root with
    | some (.table _) => openParents here rest
    | some (.tables _) => openParents here rest
    | some _ => refuse "key is no table"
    | none =>
      match alter? (setEntry name (.table [])) done s.root with
      | some root =>
        markImplicit here
        modify fun s => { s with root }
        openParents here rest
      | none => refuse "key is no table"

def addTable (name : String) : Step Unit := do
  let s ← get
  let list ← match find? (s.context ++ [name]) s.root with
    | none => pure []
    | some (.tables list) => pure list
    | some _ => refuse "key is no array of tables"
  match alter? (setEntry name (.tables (list ++ [[]]))) s.context s.root with
  | some root => modify fun s => { s with root }
  | none => refuse "key is no table"

def openTable (k : Key) (inArray : Bool) : Step Unit := do
  let parents := k.dropLast
  openParents [] parents
  modify fun s => { s with context := parents }
  let last := k.getLastD ""
  if inArray then addTable last else setValue last (.table [])
  modify fun s => { s with context := parents ++ [last] }

/-- Makes the tables that a dotted key goes through below the current one. -/
def openDotted : Key → Step Unit
  | [] => return
  | name :: rest => do
    let here := (← get).context ++ [name]
    markImplicit here
    openTable here false
    openDotted rest

def setNested : Key → Value → Entries → Option Entries
  | [], _, _ => none
  | [name], value, entries => some (setEntry name value entries)
  | name :: rest, value, entries =>
    match entries.lookup name with
    | none => (setNested rest value []).map fun inner => setEntry name (.table inner) entries
    | some (.table inner) =>
      (setNested rest value inner).map fun inner => setEntry name (.table inner) entries
    | some _ => none

def isArray : Value → Bool
  | .array _ => true
  | _ => false

def simple (c : Char) (source : List Char) : Option (Value × List Char) :=
  if c == '"' || c == '\'' then
    (text? source).map fun (text, rest) => (.text (ScriptListing.Text.ofChars text), rest)
  else if Number.Decimal.isDigit c then digitsOrMoment? source
  else if c == '+' || c == '-' then signed? c (source.drop 1)
  else
    let word := source.takeWhile fun c => isBare c && c != '-' && c != '_'
    let rest := source.drop word.length
    if word == "true".toList then some (.bool true, rest)
    else if word == "false".toList then some (.bool false, rest)
    else special? false source

mutual

def value (name : String) (inArray : Bool) : (fuel : Nat) → Step Value
  | 0 => refuse "value too deep"
  | fuel + 1 => do
    skip isSpace
    match ← peek with
    | none => refuse "unexpected end"
    | some '[' =>
      advance
      setArray name true
      return .array (← items name fuel)
    | some '\x7b' =>
      advance
      let outer := (← get).context
      let whole := outer ++ [name]
      markImplicit whole
      openTable whole inArray
      let entries ← inlineEntries true [] fuel
      modify fun s => { s with context := outer }
      return .table entries
    | some c => take "malformed value" (simple c)

def items (name : String) : (fuel : Nat) → Step (List Value)
  | 0 => refuse "array too long"
  | fuel + 1 => do
    skipLines (← get).rest.length
    if (← peek) = some ']' then
      advance
      return []
    let first ← value name true fuel
    skipLines (← get).rest.length
    match ← peek with
    | some ',' =>
      advance
      return first :: (← items name fuel)
    | some ']' =>
      advance
      return [first]
    | _ => refuse "expected a comma or the end of an array"

def inlineEntries (first : Bool) (entries : Entries) : (fuel : Nat) → Step Entries
  | 0 => refuse "table too long"
  | fuel + 1 => do
    skip isSpace
    if first && (← peek) = some '\x7d' then
      advance
      return entries
    let k ← key '=' (fuel + 1)
    let table := (← get).context
    let v ← entry k fuel
    modify fun s => { s with context := table }
    match setNested k v entries with
    | none => refuse "key is no table"
    | some entries =>
      skip isSpace
      match ← peek with
      | some ',' =>
        advance
        inlineEntries false entries fuel
      | some '\x7d' =>
        advance
        return entries
      | _ => refuse "expected a comma or the end of a table"

def entry (k : Key) : (fuel : Nat) → Step Value
  | 0 => refuse "value too deep"
  | fuel + 1 => do
    openDotted k.dropLast
    let last := k.getLastD ""
    modify fun s => { s with order := (s.context ++ [last]) :: s.order }
    let v ← value last false fuel
    setValue last v
    setArray last (isArray v)
    return v

end

def lineEnd : Step Unit := do
  skip isSpace
  if (← peek) = some '#' then skipComment
  match ← peek with
  | none => return
  | some c => if isLineEnd c then advance else refuse "expected the end of a line"

def header (fuel : Nat) : Step Unit := do
  let inArray := (← peek) = some '['
  if inArray then advance
  let k ← key ']' fuel
  if inArray then
    if (← peek) = some ']' then advance else refuse "expected two brackets"
  openTable k inArray
  setArray "" false
  modify fun s => { s with order := k :: s.order }

def lines (size : Nat) : (fuel : Nat) → Step Unit
  | 0 => return
  | fuel + 1 => do
    skip fun c => isSpace c || isLineEnd c
    match ← peek with
    | none => return
    | some '#' => skipComment
    | some '[' =>
      advance
      header size
      lineEnd
    | some _ =>
      let table := (← get).context
      let k ← key '=' size
      let _ ← entry k size
      modify fun s => { s with context := table }
      lineEnd
    lines size fuel

/-- No control character, and a carriage return only before a line feed. -/
def isPlainText : List Char → Bool
  | [] => true
  | '\r' :: rest => rest.head? == some '\n' && isPlainText rest
  | c :: rest => ((32 ≤ c.toNat && c.toNat ≠ 127) || c == '\t' || c == '\n') && isPlainText rest

def unmarked : List UInt8 → List UInt8
  | 0xFF :: 0xFE :: rest => rest
  | 0xFE :: 0xFF :: rest => rest
  | 0xEF :: 0xBB :: 0xBF :: rest => rest
  | bytes => bytes

structure Document where
  root : Entries
  /-- All keys in the order they came. -/
  keys : List Key

def parse (bytes : List UInt8) : Except Error Document :=
  match ScriptListing.Text.ofUtf8? (unmarked bytes) with
  | none => .error (.malformed "invalid UTF-8")
  | some chars =>
    if !isPlainText chars then .error (.malformed "control characters are not allowed")
    else
      let size := 2 * chars.length + 2
      match lines size size { rest := chars } with
      | .ok (_, s) => .ok ⟨s.root, s.order.reverse⟩
      | .error problem => .error (.malformed problem)

end ScriptListing.Toml
