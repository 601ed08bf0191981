import ScriptListing.Text.Characters
import ScriptListing.Text.Octet

/-! Log entries: a level, a message and named values. One line shows an entry as pairs of
name and value, or as an object. -/
namespace ScriptListing.Log

inductive Level where
  | debug
  | info
  | warn
  | error
  deriving DecidableEq, Repr

def Level.name : Level → String
  | debug => "DEBUG"
  | info => "INFO"
  | warn => "WARN"
  | error => "ERROR"

inductive Value where
  | text (value : String)
  | count (value : Nat)
  deriving DecidableEq, Repr

structure Entry where
  level : Level
  message : String
  fields : List (String × Value) := []
  deriving DecidableEq, Repr

def isBare (c : Char) : Bool :=
  if c.toNat < 128 then 32 < c.toNat && c != '=' && c != '"'
  else c != '\uFFFD' && !Text.isBlank c && Text.isPrintable c

def bareOrQuoted (text : String) : String :=
  if !text.isEmpty && (Text.shownChars text).all isBare then text else Text.quoted text

def Value.pair : Value → String
  | text value => bareOrQuoted value
  | count value => toString value

def escaped (c : Char) : String :=
  if c == '"' then "\\\""
  else if c == '\\' then "\\\\"
  else if c == '\n' then "\\n"
  else if c == '\r' then "\\r"
  else if c == '\t' then "\\t"
  else if c.toNat < 32 || c == '\u2028' || c == '\u2029' then "\\u" ++ Text.lowerHex c.toNat 4
  else c.toString

def inQuotes (text : String) : String :=
  "\"" ++ String.join ((Text.shownChars text).map escaped) ++ "\""

def Value.object : Value → String
  | text value => inQuotes value
  | count value => toString value

namespace Entry

def pairs (e : Entry) : String :=
  "level=" ++ e.level.name ++ " msg=" ++ bareOrQuoted e.message ++
    String.join (e.fields.map fun (name, value) => " " ++ name ++ "=" ++ value.pair)

def object (e : Entry) : String :=
  "\x7b\"level\":" ++ inQuotes e.level.name ++ ",\"msg\":" ++ inQuotes e.message ++
    String.join (e.fields.map fun (name, value) => "," ++ inQuotes name ++ ":" ++ value.object) ++
    "\x7d"

end Entry
end ScriptListing.Log
