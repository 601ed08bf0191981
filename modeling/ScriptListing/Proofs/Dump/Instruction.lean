import ScriptListing.Dump.Instruction
import ScriptListing.Proofs.Listing.Structure

/-! Instructions and the nodes they come from. Every instruction that is read keeps the name
written in its own mapping, and each operand comes from the node under its key, down to the
leaves; so what is read is sound. -/
namespace ScriptListing.Dump

open Yaml

namespace Fields

def items (f : Fields) (key : String) : List Node :=
  match f.get? key with
  | some (.sequence tag items _) => if tag = "!!null" then [] else items
  | _ => []

def under (f : Fields) (keys : List String) : List Node := keys.filterMap f.get?

/-- The nodes that hold the operands of an instruction, in the order of the operands. -/
def sources (f : Fields) : Expr → List Node
  | .assign _ _ _ => f.under ["variable", "expr"]
  | .assignPersistent _ _ => f.under ["expr"]
  | .text .missing => []
  | .text _ => f.under ["source"]
  | .struct _ _ => f.items "properties"
  | .finalCall _ _ _ => f.items "parameters"
  | .virtualCall _ _ _ => f.items "parameters"
  | .jumpIfNot _ _ => f.under ["condition"]
  | .computedJump _ => f.under ["expr"]
  | .popFlowIfNot _ => f.under ["condition"]
  | .ret .missing => []
  | .ret _ => f.under ["expr"]
  | .context _ _ _ => f.under ["object", "member"]
  | .structMember _ _ => f.under ["struct"]
  | .interfaceContext _ => f.under ["expr"]
  | .cast _ _ => f.under ["expr"]
  | .classCast _ _ _ => f.under ["expr"]
  | _ => []

end Fields

/-- An instruction that comes from a mapping: the mapping names it, and its operands come from
the nodes under their keys, one by one. -/
inductive From (d : Document) : Node → Expr → Prop where
  | mk {n : Node} {e : Expr} (f : Fields) (mapping : Fields.of? d n = some f)
      (present : e ≠ .missing) (named : f.text d "inst" = .ok e.opcode.name)
      (aligned : (f.sources e).length = e.operands.length)
      (below : ∀ (i : Nat) (m : Node) (x : Expr), (f.sources e)[i]? = some m →
        e.operands[i]? = some x → From d m x) : From d n e

theorem From.sound {d : Document} {n : Node} {e : Expr} (origin : From d n e) : e.Sound := by
  induction origin with
  | mk f mapping present named aligned _ ih =>
    refine ⟨present, fun x member => ?_⟩
    obtain ⟨i, bound, at'⟩ := List.getElem_of_mem member
    have inside : i < (f.sources _).length := aligned ▸ bound
    exact ih i _ x (List.getElem?_eq_getElem inside) (by rw [List.getElem?_eq_getElem bound, at'])

/-- What each layout makes of its operands. Layouts that several instructions share keep the
name; each of the others belongs to one instruction. -/
def Form.Gives (code : Opcode) : Form → Prop
  | assign | finalCall | virtualCall | context | classCast => True
  | string => code.name ≠ ""
  | reference make => ∀ ref, (make ref).opcode = code ∧ make ref ≠ .missing ∧
      (make ref).operands = [] ∧ ∀ f : Fields, f.sources (make ref) = []
  | bare e => e.opcode = code ∧ e ≠ .missing ∧ e.operands = [] ∧ ∀ f : Fields, f.sources e = []
  | assignPersistent => code = .letValueOnPersistentFrame
  | int => code = .intConst
  | int64 => code = .int64Const
  | byte => code = .byteConst
  | float => code = .floatConst
  | double => code = .doubleConst
  | name => code = .nameConst
  | object => code = .objectConst
  | text => code = .textConst
  | vector => code = .vectorConst
  | rotation => code = .rotationConst
  | struct => code = .structConst
  | jump => code = .jump
  | jumpIfNot => code = .jumpIfNot
  | computedJump => code = .computedJump
  | pushFlow => code = .pushExecutionFlow
  | popFlowIfNot => code = .popExecutionFlowIfNot
  | ret => code = .return
  | structMember => code = .structMemberContext
  | interfaceContext => code = .interfaceContext
  | cast => code = .cast

theorem forms_give : ∀ entry ∈ forms, entry.2.Gives entry.1 := by
  refine List.forall_iff_forall_mem.mp ?_
  repeat' apply And.intro
  all_goals first
    | trivial
    | exact fun _ => rfl
    | exact fun _ => ⟨rfl, nofun, rfl, fun _ => rfl⟩
    | exact (by decide : Opcode.stringConst.name ≠ "")
    | exact (by decide : Opcode.unicodeStringConst.name ≠ "")
    | nofun

theorem gives_of_form {code : Opcode} {form : Form} (found : form? code = some form) :
    form.Gives code := by
  obtain ⟨before, after, split, _⟩ := List.lookup_eq_some_iff.mp found
  exact forms_give (code, form) (by rw [split]; simp)

section

variable {d : Document} {sub : Node → Attempt Expr} {f : Fields} {key : String}

theorem operand_ok {x : Expr} (read : f.operand sub key = .ok x) :
    ∃ n, f.get? key = some n ∧ sub n = .ok x := by
  obtain ⟨n, found, below⟩ := Outcome.bind_eq_ok.mp read
  unfold Fields.get at found
  split at found
  · next m at' =>
    cases found
    exact ⟨n, at', below⟩
  · cases found

theorem operand?_ok {x : Expr} (read : f.operand? sub key = .ok x) :
    x = .missing ∨ ∃ n, f.get? key = some n ∧ sub n = .ok x := by
  unfold Fields.operand? at read
  split at read
  · cases read
    exact .inl rfl
  · next n at' =>
    split at read
    · cases read
      exact .inl rfl
    · exact .inr ⟨n, at', read⟩

theorem operands_ok {xs : List Expr} (read : f.operands sub key = .ok xs) :
    List.Forall₂ (fun m x => sub m = .ok x) (f.items key) xs := by
  unfold Fields.operands at read
  unfold Fields.items
  split at read
  · next absent =>
    cases read
    rw [absent]
    exact .nil
  · next tag items line at' =>
    rw [at']
    dsimp only
    split at read
    · next null =>
      cases read
      rw [if_pos null]
      exact .nil
    · next list =>
      rw [if_neg list]
      exact Outcome.mapM_eq_ok.mp read
  · next n other at' =>
    split at read
    · cases read
      rw [at']
      split
      · next same => exact absurd (Option.some.inj same) (other _ _ _)
      · exact .nil
    · cases read

/-- One operand under its key. -/
theorem under_one {x : Expr} (read : f.operand sub key = .ok x) :
    List.Forall₂ (fun m x => sub m = .ok x) (f.under [key]) [x] := by
  obtain ⟨n, at', below⟩ := operand_ok read
  simp [Fields.under, at', below]

theorem under_two {key' : String} {x y : Expr} (first : f.operand sub key = .ok x)
    (second : f.operand sub key' = .ok y) :
    List.Forall₂ (fun m x => sub m = .ok x) (f.under [key, key']) [x, y] := by
  obtain ⟨n, at', below⟩ := operand_ok first
  obtain ⟨n', at'', below'⟩ := operand_ok second
  simp [Fields.under, at', at'', below, below']

structure Form.Reads (sub : Node → Attempt Expr) (code : Opcode) (f : Fields) (e : Expr) :
    Prop where
  present : e ≠ .missing
  named : e.opcode = code
  operands : List.Forall₂ (fun m x => sub m = .ok x) (f.sources e) e.operands

theorem Form.reads {code : Opcode} {form : Form} {e : Expr} (gives : form.Gives code)
    (presents : ∀ m x, sub m = .ok x → x ≠ .missing) (read : form.read d sub code f = .ok e) :
    Form.Reads sub code f e := by
  cases form
  case assign =>
    obtain ⟨target, first, rest⟩ := Outcome.bind_eq_ok.mp read
    obtain ⟨value, second, equal⟩ := Outcome.bind_eq_ok.mp rest
    cases equal
    exact ⟨by simp, rfl, under_two first second⟩
  case assignPersistent =>
    obtain ⟨destination, _, rest⟩ := Outcome.bind_eq_ok.mp read
    obtain ⟨value, second, equal⟩ := Outcome.bind_eq_ok.mp rest
    cases equal
    exact ⟨by simp, gives.symm, under_one second⟩
  case reference make =>
    obtain ⟨ref, _, equal⟩ := Outcome.bind_eq_ok.mp read
    cases equal
    obtain ⟨named, present, operands, sources⟩ := gives ref
    exact ⟨present, named, by rw [operands, sources]; exact .nil⟩
  case bare e' =>
    cases read
    obtain ⟨named, present, operands, sources⟩ := gives
    exact ⟨present, named, by rw [operands, sources]; exact .nil⟩
  case string =>
    obtain ⟨value, _, equal⟩ := Outcome.bind_eq_ok.mp read
    cases equal
    exact ⟨by simp, by simp [Expr.opcode, show code.name ≠ "" from gives], .nil⟩
  case text =>
    obtain ⟨source, first, equal⟩ := Outcome.bind_eq_ok.mp read
    cases equal
    refine ⟨by simp, gives.symm, ?_⟩
    rcases operand?_ok first with rfl | ⟨n, at', below⟩
    · exact .nil
    · have given := presents n source below
      cases source with
      | missing => exact absurd rfl given
      | _ => simp [Fields.sources, Fields.under, Expr.operands, Expr.given, at', below]
  case ret =>
    obtain ⟨value, first, equal⟩ := Outcome.bind_eq_ok.mp read
    cases equal
    refine ⟨by simp, gives.symm, ?_⟩
    rcases operand?_ok first with rfl | ⟨n, at', below⟩
    · exact .nil
    · have given := presents n value below
      cases value with
      | missing => exact absurd rfl given
      | _ => simp [Fields.sources, Fields.under, Expr.operands, Expr.given, at', below]
  case struct =>
    obtain ⟨name, _, rest⟩ := Outcome.bind_eq_ok.mp read
    obtain ⟨members, second, equal⟩ := Outcome.bind_eq_ok.mp rest
    cases equal
    exact ⟨by simp, gives.symm, operands_ok second⟩
  case finalCall =>
    obtain ⟨function, _, rest⟩ := Outcome.bind_eq_ok.mp read
    obtain ⟨owner, _, rest⟩ := Outcome.bind_eq_ok.mp rest
    obtain ⟨arguments, third, equal⟩ := Outcome.bind_eq_ok.mp rest
    cases equal
    exact ⟨by simp, rfl, operands_ok third⟩
  case virtualCall =>
    obtain ⟨name, _, rest⟩ := Outcome.bind_eq_ok.mp read
    obtain ⟨arguments, second, equal⟩ := Outcome.bind_eq_ok.mp rest
    cases equal
    exact ⟨by simp, rfl, operands_ok second⟩
  case context =>
    obtain ⟨base, first, rest⟩ := Outcome.bind_eq_ok.mp read
    obtain ⟨part, second, equal⟩ := Outcome.bind_eq_ok.mp rest
    cases equal
    exact ⟨by simp, rfl, under_two first second⟩
  case structMember =>
    obtain ⟨base, first, rest⟩ := Outcome.bind_eq_ok.mp read
    obtain ⟨property, _, equal⟩ := Outcome.bind_eq_ok.mp rest
    cases equal
    exact ⟨by simp, gives.symm, under_one first⟩
  case jumpIfNot =>
    obtain ⟨_, _, rest⟩ := Outcome.bind_eq_ok.mp read
    obtain ⟨x, second, equal⟩ := Outcome.bind_eq_ok.mp rest
    cases equal
    exact ⟨by simp, gives.symm, under_one second⟩
  case cast =>
    obtain ⟨_, _, rest⟩ := Outcome.bind_eq_ok.mp read
    obtain ⟨x, second, equal⟩ := Outcome.bind_eq_ok.mp rest
    cases equal
    exact ⟨by simp, gives.symm, under_one second⟩
  case classCast =>
    obtain ⟨_, _, rest⟩ := Outcome.bind_eq_ok.mp read
    obtain ⟨x, second, equal⟩ := Outcome.bind_eq_ok.mp rest
    cases equal
    exact ⟨by simp, rfl, under_one second⟩
  case computedJump | popFlowIfNot | interfaceContext =>
    obtain ⟨x, only, equal⟩ := Outcome.bind_eq_ok.mp read
    cases equal
    exact ⟨by simp, gives.symm, under_one only⟩
  -- The others read plain values.
  all_goals
    obtain ⟨value, _, equal⟩ := Outcome.bind_eq_ok.mp read
    cases equal
    exact ⟨by simp, gives.symm, .nil⟩

end

theorem fieldsOf_ok {d : Document} {n : Node} {f : Fields} (found : fieldsOf d n = .ok f) :
    Fields.of? d n = some f := by
  unfold fieldsOf at found
  split at found
  · next f' at' =>
    cases found
    exact at'
  · cases found

theorem readInstruction_from {d : Document} {fuel : Nat} {n : Node} {e : Expr}
    (read : readInstruction d fuel n = .ok e) : From d n e := by
  induction fuel generalizing n e with
  | zero => cases read
  | succ fuel ih =>
    obtain ⟨f, mapping, rest⟩ := Outcome.bind_eq_ok.mp read
    have mapping := fieldsOf_ok mapping
    obtain ⟨name, named, rest⟩ := Outcome.bind_eq_ok.mp rest
    have named := Outcome.mapError_eq_ok.mp named
    cases form : form? ⟨name⟩ with
    | none =>
      simp only [form] at rest
      cases rest
      exact .mk f mapping (by simp) named rfl (by simp [Fields.sources])
    | some form' =>
      simp only [form] at rest
      have reads := Form.reads (gives_of_form form) (fun m x below => (ih below).sound.present)
        (Outcome.mapError_eq_ok.mp (Outcome.mapError_eq_ok.mp rest))
      refine .mk f mapping reads.present (by rw [reads.named]; exact named)
        reads.operands.length_eq ?_
      intro i m x atSource atOperand
      obtain ⟨x', same, below⟩ := Outcome.forall₂_getElem reads.operands atSource
      rw [atOperand] at same
      cases same
      exact ih below

theorem statement_from {d : Document} {n : Node} {st : Statement}
    (read : statement d n = .ok st) : From d n st.expr := by
  obtain ⟨f, _, rest⟩ := Outcome.bind_eq_ok.mp read
  obtain ⟨offset, _, rest⟩ := Outcome.bind_eq_ok.mp rest
  obtain ⟨e, below, equal⟩ := Outcome.bind_eq_ok.mp rest
  cases equal
  exact readInstruction_from below

end ScriptListing.Dump
