import ScriptListing.Text.Octet

/-! The characters of a file in the portions in which they are loaded. A portion is 512
bytes, of which the start of a character that it cuts in two goes to the next one. A
place that cannot be read spoils its own portion and all that follow, but not those
before. -/
namespace ScriptListing.Yaml

def isAllowed (c : Char) : Bool :=
  let n := c.toNat
  n == 0x09 || n == 0x0A || n == 0x0D || (0x20 ≤ n && n ≤ 0x7E) || n == 0x85 ||
    (0xA0 ≤ n && n ≤ 0xD7FF) || (0xE000 ≤ n && n ≤ 0xFFFD) || 0x10000 ≤ n

def portionSize : Nat := 512

structure Source where
  /-- The characters of all portions that can be read. -/
  chars : List Char
  /-- The number of characters in each portion. -/
  portions : List Nat
  /-- The text goes on with something that cannot be read. -/
  spoiled : Bool

namespace Source

/-- The characters of a portion and the bytes of a cut one; none if a byte is out of
place or a character is not allowed. -/
def portion (lead : List UInt8 → Text.Lead) :
    (fuel : Nat) → List UInt8 → Option (List Char × List UInt8)
  | 0, bytes => some ([], bytes)
  | fuel + 1, bytes =>
    match lead bytes with
    | .incomplete => some ([], bytes)
    | .invalid => none
    | .char c rest =>
      if isAllowed c then (portion lead fuel rest).map fun (more, cut) => (c :: more, cut)
      else none

/-- All portions. `window` is the first of them in bytes, `bytes` what follows. -/
def load (lead : List UInt8 → Text.Lead) :
    (fuel : Nat) → (window bytes : List UInt8) → Source
  | 0, _, _ => ⟨[], [], false⟩
  | fuel + 1, window, bytes =>
    match portion lead portionSize window with
    | none => ⟨[], [], true⟩
    | some (chars, cut) =>
      match bytes with
      | [] => ⟨chars, [chars.length], !cut.isEmpty⟩
      | _ =>
        let room := portionSize - cut.length
        let more := load lead fuel (cut ++ bytes.take room) (bytes.drop room)
        ⟨chars ++ more.chars, chars.length :: more.portions, more.spoiled⟩

/-- The source of a file. A byte order mark selects the encoding and is no character of
the document, but it takes up room in its portion. -/
def ofBytes (bytes : List UInt8) : Source :=
  let fuel := bytes.length + 1
  let window := bytes.take portionSize
  let others := bytes.drop portionSize
  match window with
  | 0xFF :: 0xFE :: window => load (.utf16 true) fuel window others
  | 0xFE :: 0xFF :: window => load (.utf16 false) fuel window others
  | 0xEF :: 0xBB :: 0xBF :: window => load .utf8 fuel window others
  | _ => load .utf8 fuel window others

end Source
end ScriptListing.Yaml
