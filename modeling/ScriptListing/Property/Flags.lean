import ScriptListing.Number.Literal
import ScriptListing.Text.Characters

/-! Property flags: a 64-bit set, written as a number or as a list of names. Names
may carry the mark `CPF_`; a well-formed name without a bit adds nothing. -/
namespace ScriptListing

structure Flags where
  bits : UInt64
  deriving DecidableEq, Repr, Inhabited

namespace Flags

def none : Flags := ⟨0⟩
def parm : Flags := ⟨0x80⟩
def outParm : Flags := ⟨0x100⟩
def returnParm : Flags := ⟨0x400⟩

def named : List (String × Flags) := [
  ("Edit", ⟨0x1⟩),
  ("ConstParm", ⟨0x2⟩),
  ("BlueprintVisible", ⟨0x4⟩),
  ("ExportObject", ⟨0x8⟩),
  ("BlueprintReadOnly", ⟨0x10⟩),
  ("Net", ⟨0x20⟩),
  ("Parm", parm),
  ("OutParm", outParm),
  ("ZeroConstructor", ⟨0x200⟩),
  ("ReturnParm", returnParm),
  ("Transient", ⟨0x2000⟩),
  ("Config", ⟨0x4000⟩),
  ("DisableEditOnInstance", ⟨0x10000⟩),
  ("InstancedReference", ⟨0x80000⟩),
  ("ReferenceParm", ⟨0x8000000⟩),
  ("IsPlainOldData", ⟨0x40000000⟩),
  ("NoDestructor", ⟨0x1000000000⟩),
  ("HasGetValueTypeHash", ⟨0x8000000000⟩),
  ("NativeAccessSpecifierPublic", ⟨0x10000000000000⟩)]

def has (flags mask : Flags) : Bool := flags.bits &&& mask.bits == mask.bits

def union (a b : Flags) : Flags := ⟨a.bits ||| b.bits⟩

/-- The bit of a name, none for a name without one. -/
def ofName (name : List Char) : Flags :=
  (named.lookup (String.ofList name)).getD none

def isNameStart (c : Char) : Bool :=
  c == '_' || ('a' ≤ c && c ≤ 'z') || ('A' ≤ c && c ≤ 'Z')

def isIdentifier : List Char → Bool
  | [] => false
  | c :: rest => isNameStart c && rest.all fun c => isNameStart c || ('0' ≤ c && c ≤ '9')

def isSeparator (c : Char) : Bool := c == '|' || c == ','

/-- A part without its blanks and without one leading `CPF_`. -/
def partName (part : List Char) : List Char :=
  let name := Text.trimBlanks part
  (Text.after? "CPF_".toList name).getD name

/-- The union of the parts; the first part that is no name is returned as the error. -/
def ofParts : (flags : Flags) → List (List Char) → Except (List Char) Flags
  | flags, [] => .ok flags
  | flags, part :: rest =>
    let name := partName part
    if name.isEmpty || name == "None".toList then ofParts flags rest
    else if isIdentifier name then ofParts (flags.union (ofName name)) rest
    else .error name

/-- Flags from their written form. An error holds the part that is no flag name. -/
def parse (source : String) : Except String Flags :=
  let text := Text.trimBlanks source.toList
  if text.isEmpty then .ok none
  else match Number.unsigned64? text with
    | some bits => .ok ⟨bits⟩
    | .none => (ofParts none (text.splitOnP isSeparator)).mapError String.ofList

end Flags
end ScriptListing
