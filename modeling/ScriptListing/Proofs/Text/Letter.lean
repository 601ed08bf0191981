import Mathlib.Data.List.Forall2
import ScriptListing.Text.Octet

/-! Texts that differ in the letters `A` and `U` at most. Such texts are of one length, fill
the same places, and stay so under everything that a listing does with text. -/
namespace ScriptListing.Text

def SameButLetter (x y : Char) : Prop := x = y ∨ (x = 'A' ∧ y = 'U') ∨ (x = 'U' ∧ y = 'A')

/-- The same text, position by position, but for letters `A` against `U`. -/
def Relettered (a b : String) : Prop := List.Forall₂ SameButLetter a.toList b.toList

namespace Relettered

theorem refl (a : String) : Relettered a a :=
  List.forall₂_same.mpr fun _ _ => .inl rfl

theorem append {a b c d : String} (first : Relettered a b) (second : Relettered c d) :
    Relettered (a ++ c) (b ++ d) := by
  unfold Relettered
  rw [String.toList_append, String.toList_append]
  exact List.rel_append first second

theorem after (a : String) {b c : String} (rest : Relettered b c) :
    Relettered (a ++ b) (a ++ c) :=
  (refl a).append rest

theorem before {a b : String} (start : Relettered a b) (c : String) :
    Relettered (a ++ c) (b ++ c) :=
  start.append (refl c)

theorem intercalate (separator : String) {as bs : List String}
    (each : List.Forall₂ Relettered as bs) :
    Relettered (separator.intercalate as) (separator.intercalate bs) := by
  induction each with
  | nil => exact refl _
  | @cons a b as bs head tail ih =>
    cases tail with
    | nil => simpa using head
    | cons next rest =>
      rw [String.intercalate_cons_cons, String.intercalate_cons_cons]
      exact (head.before separator).append ih

end Relettered

def SameWidth (a b : UInt8) : Prop := a = b ∨ (a.toNat < 0x80 ∧ b.toNat < 0x80)

theorem SameWidth.continue? {a b : UInt8} (same : SameWidth a b) :
    Text.continue? a = Text.continue? b := by
  rcases same with rfl | ⟨low, low'⟩
  · rfl
  · have none : ¬ (0x80 ≤ a.toNat) := by omega
    have none' : ¬ (0x80 ≤ b.toNat) := by omega
    simp [Text.continue?, none, none']

/-- Both find nothing, or what is left behind a character is of one width again. -/
def SameRest (found found' : Option (Char × List UInt8)) : Prop :=
  Option.Rel (fun p q => List.Forall₂ SameWidth p.2 q.2) found found'

theorem SameRest.bind {α : Type} (step : Option α) {next next' : α → Option (Char × List UInt8)}
    (each : ∀ a, SameRest (next a) (next' a)) : SameRest (step >>= next) (step >>= next') := by
  cases step with
  | none => exact .none
  | some a => exact each a

theorem utf8Char?_sameWidth {bytes bytes' : List UInt8}
    (same : List.Forall₂ SameWidth bytes bytes') :
    SameRest (utf8Char? bytes) (utf8Char? bytes') := by
  cases same with
  | nil => exact .none
  | @cons a b rest rest' head tail =>
    rcases head with rfl | ⟨low, low'⟩
    · unfold utf8Char?
      dsimp only
      split
      · exact .some tail
      split
      · cases tail with
        | nil => exact .none
        | cons first more =>
          dsimp only
          rw [first.continue?]
          split
          · exact .none
          · exact .bind _ fun _ => .bind _ fun _ => .some more
      split
      · cases tail with
        | nil => exact .none
        | cons first more =>
        cases more with
        | nil => exact .none
        | cons second more =>
          dsimp only
          rw [first.continue?, second.continue?]
          exact .bind _ fun _ => .bind _ fun _ => .bind _ fun _ => .some more
      · cases tail with
        | nil => exact .none
        | cons first more =>
        cases more with
        | nil => exact .none
        | cons second more =>
        cases more with
        | nil => exact .none
        | cons third more =>
          dsimp only
          rw [first.continue?, second.continue?, third.continue?]
          split
          · exact .none
          · exact .bind _ fun _ => .bind _ fun _ => .bind _ fun _ => .bind _ fun _ => .some more
    · simp only [utf8Char?, low, low', if_true]
      exact .some tail

theorem length_pieces_sameWidth {fuel : Nat} {bytes bytes' : List UInt8}
    (same : List.Forall₂ SameWidth bytes bytes') :
    (pieces fuel bytes).length = (pieces fuel bytes').length := by
  induction fuel generalizing bytes bytes' with
  | zero => rfl
  | succ fuel ih =>
    cases same with
    | nil => rfl
    | @cons a b rest rest' head tail =>
      have found := utf8Char?_sameWidth (.cons head tail)
      unfold pieces
      revert found
      generalize utf8Char? (a :: rest) = x
      generalize utf8Char? (b :: rest') = y
      intro found
      cases found with
      | none => simp [ih tail]
      | some same => simp [ih same]

theorem SameButLetter.byteKept? {x y : Char} (same : SameButLetter x y) :
    (Text.byteKept? x).isSome = (Text.byteKept? y).isSome := by
  rcases same with rfl | ⟨rfl, rfl⟩ | ⟨rfl, rfl⟩ <;> rfl

theorem SameButLetter.charBytes {x y : Char} (same : SameButLetter x y) :
    List.Forall₂ SameWidth (Text.charBytes x) (Text.charBytes y) := by
  rcases same with rfl | ⟨rfl, rfl⟩ | ⟨rfl, rfl⟩
  · exact List.forall₂_same.mpr fun _ _ => .inl rfl
  · exact .cons (.inr (by decide)) .nil
  · exact .cons (.inr (by decide)) .nil

theorem keepsBytes_relettered {a b : String} (same : Relettered a b) :
    keepsBytes a = keepsBytes b := by
  unfold Relettered at same
  unfold keepsBytes
  generalize a.toList = as at same
  generalize b.toList = bs at same
  induction same with
  | nil => rfl
  | cons head _ ih => rw [List.any_cons, List.any_cons, head.byteKept?, ih]

theorem places_relettered {a b : String} (same : Relettered a b) : places a = places b := by
  have kept : keepsBytes a = keepsBytes b := keepsBytes_relettered same
  have bytes : List.Forall₂ SameWidth (toBytes a) (toBytes b) :=
    List.rel_flatMap same fun _ _ head => head.charBytes
  unfold places toPieces
  rw [kept]
  split
  · rw [piecesOf, piecesOf, bytes.length_eq]
    exact length_pieces_sameWidth bytes
  · simpa using same.length_eq

end ScriptListing.Text
