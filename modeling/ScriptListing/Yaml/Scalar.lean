import ScriptListing.Number.Decimal
import ScriptListing.Text.Octet
import ScriptListing.Yaml.Timestamp

/-! Base 64 with padding. Line ends inside the text do not count. -/
namespace ScriptListing.Text

def base64Value? (c : Char) : Option Nat :=
  let n := c.toNat
  if 'A' ≤ c && c ≤ 'Z' then some (n - 65)
  else if 'a' ≤ c && c ≤ 'z' then some (n - 71)
  else if '0' ≤ c && c ≤ '9' then some (n + 4)
  else if c == '+' then some 62
  else if c == '/' then some 63
  else none

/-- Groups of four characters as up to three bytes each; only the last group may be
padded. -/
def base64Groups? : List Char → Option (List UInt8)
  | [] => some []
  | [a, b, '=', '='] => do
    let n := (← base64Value? a) * 64 + (← base64Value? b)
    return [UInt8.ofNat (n / 16)]
  | [a, b, c, '='] => do
    let n := ((← base64Value? a) * 64 + (← base64Value? b)) * 64 + (← base64Value? c)
    return [UInt8.ofNat (n / 1024), UInt8.ofNat (n / 4)]
  | a :: b :: c :: d :: rest => do
    let n := (((← base64Value? a) * 64 + (← base64Value? b)) * 64 + (← base64Value? c)) * 64 +
      (← base64Value? d)
    let more ← base64Groups? rest
    return UInt8.ofNat (n / 65536) :: UInt8.ofNat (n / 256) :: UInt8.ofNat n :: more
  | _ => none

def ofBase64? (text : List Char) : Option (List UInt8) :=
  base64Groups? (text.filter fun c => c != '\n' && c != '\r')

end ScriptListing.Text

/-! What a scalar stands for. Without a tag the first character says what it may be; a
tag that names one of the core types insists on it. -/
namespace ScriptListing.Yaml

inductive Scalar where
  | null
  | bool (value : Bool)
  | int (value : Int)
  | float (value : Number.Binary)
  | timestamp
  | text (value : String)
  deriving DecidableEq, Repr

namespace Scalar

def tag : Scalar → String
  | null => "!!null"
  | bool _ => "!!bool"
  | int _ => "!!int"
  | float _ => "!!float"
  | timestamp => "!!timestamp"
  | text _ => "!!str"

def words : List (String × Scalar) := [
  ("true", .bool true), ("True", .bool true), ("TRUE", .bool true),
  ("false", .bool false), ("False", .bool false), ("FALSE", .bool false),
  ("", .null), ("~", .null), ("null", .null), ("Null", .null), ("NULL", .null),
  (".nan", .float .nan), (".NaN", .float .nan), (".NAN", .float .nan),
  (".inf", .float (.infinite false)), (".Inf", .float (.infinite false)),
  (".INF", .float (.infinite false)), ("+.inf", .float (.infinite false)),
  ("+.Inf", .float (.infinite false)), ("+.INF", .float (.infinite false)),
  ("-.inf", .float (.infinite true)), ("-.Inf", .float (.infinite true)),
  ("-.INF", .float (.infinite true))]

def decimal? (digits : List Char) : Option Scalar :=
  match (Number.Decimal.read? digits).map (Number.Decimal.toBinary .double) with
  | some (.finite negative mantissa exponent) => some (.float (.finite negative mantissa exponent))
  | _ => none

/-- A numeral that starts with a point; underscores may separate its digits. -/
def pointed? (source : List Char) : Option Scalar :=
  if Number.underscoresSeparate Number.Decimal.isDigit false source then
    decimal? (source.filter (· != '_'))
  else none

/-- An integer behind a base mark where the digits may carry a sign. -/
def marked? : List Char → Option Int
  | '0' :: 'b' :: digits => Number.integerIn? 2 digits
  | '-' :: '0' :: 'b' :: digits => Number.integerIn? 2 ('-' :: digits)
  | '0' :: 'o' :: digits => Number.integerIn? 8 digits
  | '-' :: '0' :: 'o' :: digits => Number.integerIn? 8 ('-' :: digits)
  | _ => none

def number? (source : List Char) : Option Scalar :=
  let digits := source.filter (· != '_')
  match Number.integer64? digits with
  | some n => some (.int n)
  | none =>
    match Number.unsigned64? digits with
    | some n => some (.int n.toNat)
    | none =>
      match decimal? digits with
      | some d => some d
      | none => (marked? digits).map .int

/-- The scalar a text is when no tag decides. Dates count unless a tag other than that
of dates is given. -/
def plain (dates : Bool) (source : String) : Scalar :=
  let chars := source.toList
  match chars with
  | [] => .null
  | c :: _ =>
    let signed := c == '+' || c == '-' || Number.Decimal.isDigit c
    let word := "yYnNtTfFoO~".toList.contains c
    if signed || word || c == '.' then
      match words.lookup source with
      | some value => value
      | none =>
        if c == '.' then (pointed? chars).getD (.text source)
        else if signed then
          if dates && Timestamp.isTimestamp chars then .timestamp
          else (number? chars).getD (.text source)
        else .text source
    else .text source

def coreTags : List String := ["!!bool", "!!int", "!!float", "!!null", "!!timestamp"]

def ofBinary (source : String) : Except String Scalar :=
  match Text.ofBase64? source.toList with
  | some bytes => .ok (.text (Text.ofBytes bytes))
  | none => .error "!!binary value contains invalid base64 data"

/-- The scalar under a tag. A core tag accepts only its own kind, and an integer where a
float is asked for; any other tag accepts the text. -/
def resolve (tag source : String) : Except String Scalar :=
  if tag = "!!binary" then ofBinary source
  else if coreTags.contains tag then
    let value := plain (tag = "!!timestamp") source
    if value.tag = tag then .ok value
    else match value with
      | .int n =>
        if tag = "!!float" && n < 0x8000000000000000 then .ok (.float (.ofInt .double n))
        else .error ("cannot decode !!int `" ++ source ++ "` as a " ++ tag)
      | _ => .error ("cannot decode " ++ value.tag ++ " `" ++ source ++ "` as a " ++ tag)
  else .ok (.text source)

end Scalar
end ScriptListing.Yaml
