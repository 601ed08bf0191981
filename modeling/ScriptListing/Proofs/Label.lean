import Mathlib.Algebra.Ring.Int.Defs
import ScriptListing.Label
import ScriptListing.Proofs.Text.Hexadecimal

/-! Labels and what they stand for. The table of a class holds exactly the places that some
instruction of the class jumps to, and no two places share a label text. -/
namespace ScriptListing

namespace LabelTable

theorem mem_insert {entry x : String × UInt32} {list : List (String × UInt32)} :
    x ∈ insert entry list ↔ x = entry ∨ x ∈ list := by
  induction list with
  | nil => simp [insert]
  | cons head rest ih =>
    unfold insert
    split
    · next same => subst same; simp
    · split
      · simp
      · simp only [List.mem_cons, ih]
        exact or_left_comm

theorem has_iff {t : LabelTable} {function : String} {offset : UInt32} :
    t.has function offset = true ↔ (function, offset) ∈ t.entries := by
  simp [has]

theorem has_foldl_add (targets : List (String × UInt32)) (t : LabelTable) (function : String)
    (offset : UInt32) :
    (targets.foldl (fun t target => t.add target.1 target.2) t).has function offset = true ↔
      (function, offset) ∈ targets ∨ t.has function offset = true := by
  induction targets generalizing t with
  | nil => simp
  | cons target rest ih =>
    rw [List.foldl_cons, ih, has_iff, has_iff, add, mem_insert, List.mem_cons]
    tauto

end LabelTable

namespace Label

/-- An instruction of `function` jumps to `offset` in the function called `name`: by a jump
inside the function, or by a call of an event graph whose first argument, taken as a word,
is the offset. -/
inductive Targets (name : String) (offset : UInt32) : (function : String) → Expr → Prop where
  | jump : Targets name offset name (.jump offset)
  | jumpIfNot {condition : Expr} : Targets name offset name (.jumpIfNot offset condition)
  | dispatch {function owner : String} {code : Opcode} {value : Int32} {rest : List Expr}
      (starts : "ExecuteUbergraph".toList <+: name.toList)
      (wraps : value.toInt % 2 ^ 32 = offset.toNat) :
      Targets name offset function (.finalCall code ⟨name, owner⟩ (.int value :: rest))

theorem toUInt32_eq_iff {value : Int32} {offset : UInt32} :
    value.toUInt32 = offset ↔ value.toInt % 2 ^ 32 = offset.toNat := by
  have word : value.toInt % 2 ^ 32 = value.toUInt32.toNat := by
    change value.toBitVec.toInt % 2 ^ 32 = value.toBitVec.toNat
    have bound := value.toBitVec.isLt
    rw [BitVec.toInt_eq_toNat_cond]
    split <;> omega
  rw [word, Int.natCast_inj, UInt32.toNat_inj]

theorem isDispatch_iff {function : String} :
    isDispatch function = true ↔ "ExecuteUbergraph".toList <+: function.toList :=
  List.isPrefixOf_iff_prefix

theorem dispatchTarget_eq_some_iff {function : FunctionRef} {arguments : List Expr}
    {offset : UInt32} :
    dispatchTarget? function arguments = some offset ↔
      ∃ value rest, arguments = .int value :: rest ∧ isDispatch function.name = true ∧
        value.toUInt32 = offset := by
  unfold dispatchTarget?
  split
  · next value rest =>
    constructor
    · intro found
      split at found
      · next starts => exact ⟨value, rest, rfl, starts, Option.some.inj found⟩
      · simp at found
    · rintro ⟨_, _, equal, starts, rfl⟩
      obtain ⟨rfl, rfl⟩ := equal
      simp [starts]
  · next other =>
    constructor
    · intro found; simp at found
    · rintro ⟨value, rest, rfl, _, _⟩
      exact absurd rfl (other value rest)

theorem target_eq_some_iff {function name : String} {offset : UInt32} {e : Expr} :
    target? function e = some (name, offset) ↔ Targets name offset function e := by
  constructor
  · intro found
    unfold target? at found
    split at found
    · simp only [Option.some.injEq, Prod.mk.injEq] at found
      obtain ⟨rfl, rfl⟩ := found
      exact .jump
    · simp only [Option.some.injEq, Prod.mk.injEq] at found
      obtain ⟨rfl, rfl⟩ := found
      exact .jumpIfNot
    · next code callee arguments =>
      simp only [Option.map_eq_some_iff, Prod.mk.injEq] at found
      obtain ⟨_, entered, rfl, rfl⟩ := found
      obtain ⟨value, rest, rfl, starts, word⟩ := dispatchTarget_eq_some_iff.mp entered
      exact .dispatch (isDispatch_iff.mp starts) (toUInt32_eq_iff.mp word)
    · simp at found
  · intro targets
    cases targets with
    | jump => rfl
    | jumpIfNot => rfl
    | @dispatch _ owner _ value rest starts wraps =>
      have entered : dispatchTarget? ⟨name, owner⟩ (.int value :: rest) = some offset :=
        dispatchTarget_eq_some_iff.mpr
          ⟨value, rest, rfl, isDispatch_iff.mpr starts, toUInt32_eq_iff.mpr wraps⟩
      simp [target?, entered]

theorem has_discover_iff {c : Class} {name : String} {offset : UInt32} :
    (discover c).has name offset = true ↔
      ∃ g ∈ c.functions, ∃ st ∈ g.script, Targets name offset g.name st.expr := by
  rw [discover, LabelTable.has_foldl_add]
  simp only [LabelTable.empty, LabelTable.has, List.contains_nil, Bool.false_eq_true, or_false,
    List.mem_flatMap, targets, List.mem_filterMap, target_eq_some_iff]

/-- A label tells its function and offset: the hexadecimal number after the last underscore
is the offset. -/
theorem name_injective {f g : String} {o p : UInt32} (same : name f o = name g p) :
    f = g ∧ o = p := by
  have chars : f.toList ++ '_' :: (Text.upperHex o.toNat).toList =
      g.toList ++ '_' :: (Text.upperHex p.toNat).toList := by
    simpa [name] using congrArg String.toList same
  have digits (n : Nat) (before : List Char) :
      (before ++ '_' :: (Text.upperHex n).toList).reverse.takeWhile (· ≠ '_') =
        (Text.upperHex n).toList.reverse := by
    have clean := Text.underscore_notMem_upperHex n
    rw [List.reverse_append, List.reverse_cons, List.append_assoc, List.takeWhile_append_of_pos]
    · simp
    · intro c member
      simp only [List.mem_reverse] at member
      simpa using fun equal : c = '_' => clean (equal ▸ member)
  have hex : (Text.upperHex o.toNat).toList = (Text.upperHex p.toNat).toList := by
    rw [← List.reverse_inj, ← digits o.toNat f.toList, ← digits p.toNat g.toList, chars]
  have offsets : o = p :=
    UInt32.toNat_inj.mp (Text.upperHex_injective (String.toList_inj.mp hex))
  subst offsets
  exact ⟨String.toList_inj.mp (List.append_cancel_right chars), rfl⟩

end Label
end ScriptListing
