import ScriptListing.Number.Decimal
import ScriptListing.Text.Characters

/-! Values of a settings table, the keys that lead to them, and what can go wrong in
reading them. -/
namespace ScriptListing.Toml

inductive Error where
  | malformed (description : String)
  | wrongType (key wanted : String)
  deriving DecidableEq, Repr

def Error.message : Error → String
  | malformed description => "toml: " ++ description
  | wrongType key wanted => "toml: " ++ key ++ " is no " ++ wanted

/-- The names from the top down. -/
abbrev Key := List String

inductive Value where
  | text (value : String)
  | integer (value : Int)
  | float (value : Number.Binary)
  | bool (value : Bool)
  | moment (written : String)
  | array (items : List Value)
  | table (entries : List (String × Value))
  | tables (list : List (List (String × Value)))
  deriving Inhabited

abbrev Entries := List (String × Value)

def isBare (c : Char) : Bool :=
  ('a' ≤ c && c ≤ 'z') || ('A' ≤ c && c ≤ 'Z') || ('0' ≤ c && c ≤ '9') || c == '_' || c == '-'

def escaped (c : Char) : String :=
  if c == '"' then "\\\""
  else if c == '\\' then "\\\\"
  else if c == '\t' then "\\t"
  else if c == '\n' then "\\n"
  else if c == '\r' then "\\r"
  else if c.toNat == 8 then "\\b"
  else if c.toNat == 12 then "\\f"
  else if c.toNat < 32 || c.toNat == 127 then "\\u" ++ Text.lowerHex c.toNat 4
  else c.toString

/-- A name as it is written: bare where that is possible. -/
def nameText (name : String) : String :=
  if !name.isEmpty && name.toList.all isBare then name
  else "\"" ++ String.join (name.toList.map escaped) ++ "\""

def keyText (key : Key) : String := ".".intercalate (key.map nameText)

def setEntry (name : String) (value : Value) : Entries → Entries
  | [] => [(name, value)]
  | e :: rest => if e.1 = name then (name, value) :: rest else e :: setEntry name value rest

/-- What a key leads to; the last of several tables counts. -/
def find? : Key → Entries → Option Value
  | [], entries => some (.table entries)
  | name :: rest, entries =>
    match entries.lookup name with
    | some (.table inner) => find? rest inner
    | some (.tables list) =>
      if rest.isEmpty then some (.tables list)
      else match list.getLast? with
        | some inner => find? rest inner
        | none => none
    | some value => if rest.isEmpty then some value else none
    | none => none

def entriesAt? (key : Key) (root : Entries) : Option Entries :=
  match find? key root with
  | some (.table entries) => some entries
  | some (.tables list) => list.getLast?
  | _ => none

def alter? (f : Entries → Entries) : Key → Entries → Option Entries
  | [], entries => some (f entries)
  | name :: rest, entries =>
    match entries.lookup name with
    | some (.table inner) => do
      let changed ← alter? f rest inner
      return setEntry name (.table changed) entries
    | some (.tables list) => do
      let changed ← alter? f rest (← list.getLast?)
      return setEntry name (.tables (list.dropLast ++ [changed])) entries
    | _ => none

end ScriptListing.Toml
