import ScriptListing.Cipher
import ScriptListing.Text.Characters
import ScriptListing.Text.Octet

/-! Archive keys: thirty-two bytes, written as `0x` and sixty-four hexadecimal
digits. -/
namespace ScriptListing.Settings

/-- Pairs of digits as bytes; the first byte that is no digit is the error. -/
def hexBytes : List UInt8 → Except UInt8 (List UInt8)
  | high :: low :: rest =>
    match Text.hexValue? (Char.ofNat high.toNat), Text.hexValue? (Char.ofNat low.toNat) with
    | none, _ => .error high
    | _, none => .error low
    | some h, some l => (hexBytes rest).map (UInt8.ofNat (16 * h + l) :: ·)
  | _ => .ok []

def keyDigits? (source : List Char) : Option (List UInt8) :=
  match Text.trimBlanks source with
  | '0' :: mark :: digits =>
    if mark == 'x' || mark == 'X' then some (Text.toBytes (String.ofList digits)) else none
  | _ => none

def parseKey (source : String) : Attempt (List UInt8) :=
  match keyDigits? source.toList with
  | none => fail (.badKey none)
  | some digits =>
    if digits.length = 2 * Cipher.keySize then
      (hexBytes digits).mapError fun b => .of (.badKey (some b))
    else fail (.badKey none)

end ScriptListing.Settings

/-! The settings of a run. Later ones are laid over earlier ones field by field, and a
field without a value leaves the earlier one. -/
namespace ScriptListing

structure Settings where
  archive : String := ""
  key : String := ""
  mappings : String := ""
  objects : List String := []
  output : String := ""
  workers : Int := 0
  verbose : Bool := false
  deriving DecidableEq, Repr, Inhabited

namespace Settings

def standard (workers : Int) : Settings := { output := ".", workers }

def orText (earlier later : String) : String := if later = "" then earlier else later

/-- `later` laid over `earlier`. A number of workers counts if it is positive. -/
def merge (earlier later : Settings) : Settings where
  archive := orText earlier.archive later.archive
  key := orText earlier.key later.key
  mappings := orText earlier.mappings later.mappings
  objects := if later.objects.isEmpty then earlier.objects else later.objects
  output := orText earlier.output later.output
  workers := if 0 < later.workers then later.workers else earlier.workers
  verbose := earlier.verbose || later.verbose

/-- The key of settings that allow a run; the first fault found is reported. -/
def validate (s : Settings) : Attempt (List UInt8) := do
  if s.archive = "" then fail .noArchive
  if s.key = "" then fail .noKey
  let key ← parseKey s.key
  if s.workers < 1 then fail (.workers s.workers)
  return key

end Settings
end ScriptListing
