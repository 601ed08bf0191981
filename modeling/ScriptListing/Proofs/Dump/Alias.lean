import ScriptListing.Dump.Instruction
import ScriptListing.Proofs.Yaml.Extent

/-! Instructions with aliases. An alias of an instruction or of a scalar is seen through; one of
a list of operands, of a property or of a null is not. -/
namespace ScriptListing.Dump

open Yaml

variable {α β : Type}

/-- How a step over nodes with aliases can end beside the same step with the aliases followed:
it is taken for little but aliases, or both fail, or both give the same. -/
inductive Alike : Attempt α → Attempt α → Prop where
  | overrun {f : Failure} (cause : f.cause = .yaml (.malformed overrun)) (other : Attempt α) :
      Alike (.error f) other
  | error (f g : Failure) : Alike (.error f) (.error g)
  | ok (a : α) : Alike (.ok a) (.ok a)

namespace Alike

theorem bind_of_ok {step step' : Attempt α} {next next' : α → Attempt β}
    (first : Alike step step') (second : ∀ a, step = .ok a → Alike (next a) (next' a)) :
    Alike (step >>= next) (step' >>= next') := by
  cases first with
  | overrun cause => exact .overrun cause _
  | error f g => exact .error f g
  | ok a => exact second a rfl

theorem bind {step step' : Attempt α} {next next' : α → Attempt β} (first : Alike step step')
    (second : ∀ a, Alike (next a) (next' a)) : Alike (step >>= next) (step' >>= next') :=
  first.bind_of_ok fun a _ => second a

theorem inside {step step' : Attempt α} (place place' : String) (alike : Alike step step') :
    Alike (ScriptListing.inside place step) (ScriptListing.inside place' step') := by
  cases alike with
  | @overrun f cause => exact .overrun (f := f.within place) cause _
  | error f g => exact .error _ _
  | ok a => exact .ok a

theorem mapM {read read' : Node → Attempt α} {items : List Node}
    (each : ∀ n ∈ items, Alike (read n) (read' n.resolved)) :
    Alike (items.mapM read) ((items.map Node.resolved).mapM read') := by
  induction items with
  | nil => exact .ok []
  | cons n rest ih =>
    rw [List.map_cons, List.mapM_cons, List.mapM_cons]
    refine (each n (by simp)).bind fun a => ?_
    exact (ih fun m member => each m (by simp [member])).bind fun as => .ok (a :: as)

end Alike

inductive Slot where
  | operand
  | optional
  | list
  | property

/-- The keys under which an instruction has operands and properties. -/
def Form.slots : Form → List (String × Slot)
  | assign => [("variable", .operand), ("expr", .operand)]
  | assignPersistent => [("destination", .property), ("expr", .operand)]
  | reference _ => [("variable", .property)]
  | text => [("source", .optional)]
  | struct => [("properties", .list)]
  | finalCall => [("parameters", .list)]
  | virtualCall => [("parameters", .list)]
  | jumpIfNot => [("condition", .operand)]
  | computedJump => [("expr", .operand)]
  | popFlowIfNot => [("condition", .operand)]
  | ret => [("expr", .optional)]
  | context => [("object", .operand), ("member", .operand)]
  | structMember => [("struct", .operand), ("property", .property)]
  | interfaceContext => [("expr", .operand)]
  | cast => [("expr", .operand)]
  | classCast => [("expr", .operand)]
  | _ => []

/-- Whether an alias at a node, or at the path of a property, is seen through; `sub` tells it of
instructions. -/
def Slot.isClear (sub : Node → Bool) (n : Node) : Slot → Bool
  | operand => sub n
  | optional => !(n.kind = .aliased && n.resolved.isNull) && sub n
  | list =>
    match n with
    | .sequence tag items _ => tag = "!!null" || items.all sub
    | n => !(n.kind = .aliased && (n.resolved.isNull || n.resolved.kind = .sequence))
  | property =>
    match n with
    | .mapping _ entries _ => ((Fields.ofEntries entries).get? "path").all fun path =>
      !(path.kind = .aliased && path.resolved.kind = .scalar)
    | n => n.kind ≠ .aliased

/-- Whether all aliases in an instruction nested at most `fuel` deep are seen through. -/
def isClear (d : Document) : (fuel : Nat) → Node → Bool
  | 0, _ => true
  | fuel + 1, n =>
    match Fields.of? d n with
    | none => true
    | some f =>
      match f.text d "inst" with
      | .error _ => true
      | .ok name => (form? ⟨name⟩).all fun form => form.slots.all fun (key, slot) =>
        (f.get? key).all fun m => slot.isClear (isClear d fuel) m

namespace Fields

def resolved (f : Fields) : Fields := ⟨f.entries.map fun e => (e.1, e.2.resolved)⟩

theorem get?_resolved (f : Fields) (key : String) :
    f.resolved.get? key = (f.get? key).map Node.resolved := by
  obtain ⟨entries⟩ := f
  unfold get? resolved
  induction entries with
  | nil => rfl
  | cons e rest ih =>
    obtain ⟨name, value⟩ := e
    simp only [List.map_cons, List.lookup_cons]
    split
    · rfl
    · exact ih

/-- Values whose aliases can be followed and that are less deep than `bound`. -/
def Tidy (bound : Nat) (f : Fields) : Prop :=
  ∀ key n, f.get? key = some n → Node.Tidy [] n ∧ n.depth < bound

theorem mem_of_get? {entries : List (Node × Node)} {key : String} {n : Node}
    (found : (ofEntries entries).get? key = some n) : ∃ k, (k, n) ∈ entries := by
  obtain ⟨before, after, split, _⟩ := List.lookup_eq_some_iff.mp found
  have member : (key, n) ∈ (ofEntries entries).entries := by
    rw [split]
    simp
  obtain ⟨e, inside, equal⟩ := List.mem_map.mp (List.mem_reverse.mp member)
  cases equal
  exact ⟨e.1, inside⟩

section

variable {path : List Nat} {tag : String} {entries : List (Node × Node)} {line : Nat}
  (tidy : Node.Tidy path (.mapping tag entries line))
include tidy

theorem ofEntries_resolved :
    ofEntries (Node.resolvedEntries entries) = (ofEntries entries).resolved := by
  rw [Node.resolvedEntries_eq, ofEntries, ofEntries, resolved, List.map_map, List.map_reverse,
    List.map_map]
  congr 2
  refine List.map_congr_left fun e member => ?_
  obtain ⟨_, _, value, _⟩ := Node.resolved_direct (tidy.entry member).1
  simp only [Function.comp_apply, value]

theorem tidy_ofEntries : (ofEntries entries).Tidy (Node.mapping tag entries line).depth := by
  intro key n found
  obtain ⟨k, member⟩ := mem_of_get? found
  exact ⟨(tidy.entry member).2.2.2.start, Node.depth_entry member⟩

end

/-- The fields of a node are those of the node with its aliases followed. -/
theorem of?_resolved (d d' : Document) {path : List Nat} {n : Node} (tidy : Node.Tidy path n) :
    of? d' n.resolved = (of? d n).map resolved ∧ ∀ f ∈ of? d n, f.Tidy n.depth := by
  have direct {path : List Nat} {m : Node} (same : m.kind ≠ .aliased) (tidy : Node.Tidy path m) :
      of? d' m.resolved = (of? d m).map resolved ∧ ∀ f ∈ of? d m, f.Tidy m.depth := by
    cases m with
    | scalar | sequence => exact ⟨rfl, nofun⟩
    | mapping tag entries line =>
      refine ⟨congrArg some (ofEntries_resolved tidy), fun f found => ?_⟩
      cases found
      exact tidy_ofEntries tidy
    | aliased | cycle => exact absurd rfl same
  cases n with
  | scalar | sequence | mapping => exact direct nofun tidy
  | cycle => exact absurd tidy Node.Tidy.not_cycle
  | aliased anchor number target line =>
    obtain ⟨same, _, below⟩ := tidy.target
    have found := direct same below
    have stands : of? d (.aliased anchor number target line) = of? d target := by
      unfold of?
      rw [Node.target_direct same]
      rfl
    rw [stands]
    exact found

end Fields

/-- Records of doubles see through aliases. -/
theorem transparent_of_doubles {d d' : Document} {type : RecordType α}
    (each : ∀ entry ∈ type.fields, ∃ put, entry.2 = ScalarType.double.read.into put) :
    type.Transparent d d' := by
  intro name field known path n record tidy
  obtain ⟨before, after, split, _⟩ := List.lookup_eq_some_iff.mp known
  have member : (name, field) ∈ type.fields := by
    rw [split]
    simp
  obtain ⟨put, rfl⟩ := each (name, field) member
  exact into_mirrors (scalar_mirrors ScalarType.double tidy) record

theorem vectorType_transparent {d d' : Document} : vectorType.Transparent d d' := by
  refine transparent_of_doubles fun entry member => ?_
  simp only [vectorType, List.mem_cons, List.not_mem_nil, or_false] at member
  rcases member with rfl | rfl | rfl <;> exact ⟨_, rfl⟩

theorem rotationType_transparent {d d' : Document} : rotationType.Transparent d d' := by
  refine transparent_of_doubles fun entry member => ?_
  simp only [rotationType, List.mem_cons, List.not_mem_nil, or_false] at member
  rcases member with rfl | rfl | rfl <;> exact ⟨_, rfl⟩

section

variable {d d' : Document} {f : Fields} {bound : Nat} (tidy : f.Tidy bound)

theorem valueOf_alike {read : Reader α} {n : Node}
    (mirrors : Mirrors d d' Eq [] (read n) (read n.resolved)) (key : String) (start : α) :
    Alike (valueOf d key read start n) (valueOf d' key read start n.resolved) := by
  refine .inside key key ?_
  rcases mirrors.run start with overran | same
  · rw [overran]
    exact .overrun rfl _
  · rw [same]
    cases read.run start d' n.resolved with
    | error e => exact .error _ _
    | ok a => exact .ok a

theorem texts_alike {n : Node} (below : Node.Tidy [] n) (key : String) :
    Alike (valueOf d key readTexts [] n) (valueOf d' key readTexts [] n.resolved) := by
  have texts : Mirrors d d' Eq [] (readList "[]string" ScalarType.text.read n)
      (readList "[]string" ScalarType.text.read n.resolved) :=
    list_mirrors "[]string" below fun _ _ tidy => scalar_mirrors ScalarType.text tidy
  exact valueOf_alike texts key []

/-- An alias of a list of segments is seen through, one of a single segment is not. -/
theorem path_alike {n : Node} (below : Node.Tidy [] n)
    (seen : n.kind = .aliased → n.resolved.kind ≠ .scalar) (key : String) :
    Alike (Fields.path d key n) (Fields.path d' key n.resolved) := by
  have several {m : Node} (other : m.kind ≠ .scalar) :
      Fields.path d' key m = valueOf d' key readTexts [] m := by
    cases m with
    | scalar => exact absurd rfl other
    | _ => rfl
  cases n with
  | scalar tag name line => exact .ok [name]
  | cycle => exact absurd below Node.Tidy.not_cycle
  | sequence | mapping => exact texts_alike below key
  | aliased =>
    rw [several (seen rfl)]
    exact texts_alike below key

theorem null_alike (key : String) (isNull : Bool) :
    Alike (if isNull then .ok [] else inside key (fail .notList) : Attempt (List Expr))
      (if isNull then .ok [] else inside key (fail .notList)) := by
  cases isNull
  · exact .error _ _
  · exact .ok []

include tidy

theorem get_alike (key : String) {next next' : Node → Attempt α}
    (each : ∀ n, f.get? key = some n → Node.Tidy [] n → n.depth < bound →
      Alike (next n) (next' n.resolved)) :
    Alike (f.get key >>= next) (f.resolved.get key >>= next') := by
  unfold Fields.get
  rw [Fields.get?_resolved]
  cases found : f.get? key with
  | none => exact .error _ _
  | some n => exact each n found (tidy key n found).1 (tidy key n found).2

theorem value_alike {type : ScalarType α} (key : String) (start : α) :
    Alike (f.value d key type.read start) (f.resolved.value d' key type.read start) :=
  get_alike tidy key fun _ _ below _ => valueOf_alike (scalar_mirrors type below) key start

theorem text?_alike (key : String) : Alike (f.text? d key) (f.resolved.text? d' key) := by
  unfold Fields.text?
  rw [Fields.get?_resolved]
  cases found : f.get? key with
  | none => exact .ok ""
  | some n => exact valueOf_alike (scalar_mirrors _ (tidy key n found).1) key ""

theorem record_alike {type : RecordType α} (transparent : type.Transparent d d')
    (room : bound ≤ d.extent) (room' : bound ≤ d'.extent) (key : String) (start : α) :
    Alike (f.value d key (type.read start) start)
      (f.resolved.value d' key (type.read start) start) :=
  get_alike tidy key fun n _ below depth => valueOf_alike
    (RecordType.read_mirrors transparent (by omega) (by omega) below start) key start

theorem property_alike {clear : Node → Bool} {key : String}
    (seen : ∀ m, f.get? key = some m → Slot.property.isClear clear m = true) :
    Alike (f.property d key) (f.resolved.property d' key) := by
  refine get_alike tidy key fun n found below _ => ?_
  have seen := seen n found
  cases n with
  | scalar tag name line => exact .ok _
  | sequence tag items line => exact (texts_alike below key).bind fun segments => .ok _
  | aliased | cycle => cases seen
  | mapping tag entries line =>
    have parts := Fields.tidy_ofEntries below
    simp only [Node.resolved, Fields.ofEntries_resolved below, Fields.get?_resolved]
    cases at' : (Fields.ofEntries entries).get? "path" with
    | none => exact .error _ _
    | some path =>
      refine (path_alike (parts "path" path at').1 (fun isAlias isScalar => ?_) key).bind
        fun segments => (text?_alike parts "owner").inside key key |>.bind fun owner => .ok _
      simp [Slot.isClear, at', isAlias, isScalar] at seen

variable {sub sub' : Node → Attempt Expr} {clear : Node → Bool}
  (below : ∀ n, Node.Tidy [] n → n.depth < bound → clear n = true → Alike (sub n) (sub' n.resolved))
include below

theorem operand_alike {key : String}
    (seen : ∀ m, f.get? key = some m → Slot.operand.isClear clear m = true) :
    Alike (f.operand sub key) (f.resolved.operand sub' key) :=
  get_alike tidy key fun n found tidy depth => below n tidy depth (seen n found)

theorem operand?_alike {key : String}
    (seen : ∀ m, f.get? key = some m → Slot.optional.isClear clear m = true) :
    Alike (f.operand? sub key) (f.resolved.operand? sub' key) := by
  unfold Fields.operand?
  rw [Fields.get?_resolved]
  cases found : f.get? key with
  | none => exact .ok Expr.missing
  | some n =>
    have seen := seen n found
    simp only [Slot.isClear, Bool.and_eq_true, Bool.not_eq_true', Bool.and_eq_false_iff,
      decide_eq_false_iff_not] at seen
    obtain ⟨tidy, depth⟩ := tidy key n found
    have same : n.resolved.isNull = n.isNull := by
      by_cases direct : n.kind = .aliased
      · rw [seen.1.resolve_left (not_not_intro direct)]
        cases n with
        | aliased | cycle => rfl
        | _ => cases direct
      · rw [Node.isNull, (Node.resolved_direct direct).2.1, Node.isNull]
    simp only [Option.map_some, same]
    split
    · exact .ok Expr.missing
    · exact below n tidy depth seen.2

theorem operands_alike {key : String}
    (seen : ∀ m, f.get? key = some m → Slot.list.isClear clear m = true) :
    Alike (f.operands sub key) (f.resolved.operands sub' key) := by
  unfold Fields.operands
  rw [Fields.get?_resolved]
  cases found : f.get? key with
  | none => exact .ok []
  | some n =>
    have seen := seen n found
    obtain ⟨tidy, depth⟩ := tidy key n found
    cases n with
    | sequence tag items line =>
      simp only [Option.map_some, Node.resolved, Node.resolvedItems_eq]
      by_cases null : tag = "!!null"
      · rw [if_pos null, if_pos null]
        exact .ok []
      · rw [if_neg null, if_neg null]
        simp only [Slot.isClear, null, decide_false, Bool.false_or, List.all_eq_true] at seen
        refine .mapM fun m member => below m (tidy.item member) ?_ (seen m member)
        have shallow : m.depth < (Node.sequence tag items line).depth := Node.depth_item member
        omega
    | scalar tag value line => exact null_alike key _
    | mapping tag entries line => exact null_alike key _
    | cycle => exact absurd tidy Node.Tidy.not_cycle
    | aliased anchor number target line =>
      -- What the alias refers to is no list either, so both are refused.
      have other : target.resolved.isNull = false ∧ target.resolved.kind ≠ .sequence := by
        have seen : (!(target.resolved.isNull || target.resolved.kind = .sequence)) = true := seen
        simpa using seen
      have refused (m : Node) (noNull : m.isNull = false) :
          Alike (inside key (fail .notList) : Attempt (List Expr))
            (if m.isNull then .ok [] else inside key (fail .notList)) := by
        rw [noNull]
        exact .error _ _
      cases target with
      | scalar | mapping => exact refused _ other.1
      | sequence => exact absurd rfl other.2
      | aliased | cycle => exact absurd rfl tidy.target.1

variable (room : bound ≤ d.extent) (room' : bound ≤ d'.extent)
include room room'

/-- An instruction is read alike where the aliases under its keys are seen through. -/
theorem Form.read_alike (form : Form) (code : Opcode)
    (seen : ∀ slot ∈ form.slots, ∀ m, f.get? slot.1 = some m → slot.2.isClear clear m = true) :
    Alike (form.read d sub code f) (form.read d' sub' code f.resolved) := by
  have operand (key : String) (slot : (key, .operand) ∈ form.slots) :=
    operand_alike tidy below (seen _ slot)
  have operand? (key : String) (slot : (key, .optional) ∈ form.slots) :=
    operand?_alike tidy below (seen _ slot)
  have operands (key : String) (slot : (key, .list) ∈ form.slots) :=
    operands_alike tidy below (seen _ slot)
  have property (key : String) (slot : (key, .property) ∈ form.slots) :
      Alike (f.property d key) (f.resolved.property d' key) :=
    property_alike tidy (seen _ slot)
  have text (key : String) : Alike (f.text d key) (f.resolved.text d' key) :=
    value_alike tidy key ""
  have word (key : String) : Alike (f.word d key) (f.resolved.word d' key) :=
    value_alike tidy key 0
  cases form with
  | bare e => exact .ok e
  | int | int64 | byte | float | double =>
    exact (value_alike tidy "value" _).bind fun value => .ok _
  | name | string | object => exact (text "value").bind fun value => .ok _
  | vector =>
    exact (record_alike tidy vectorType_transparent room room' "value" {}).bind fun v => .ok _
  | rotation =>
    exact (record_alike tidy rotationType_transparent room room' "value" {}).bind fun r => .ok _
  | jump => exact (word "target").bind fun target => .ok _
  | pushFlow => exact (word "address").bind fun address => .ok _
  | reference make => exact (property "variable" (by simp [slots])).bind fun ref => .ok _
  | text => exact (operand? "source" (by simp [slots])).bind fun source => .ok _
  | ret => exact (operand? "expr" (by simp [slots])).bind fun value => .ok _
  | computedJump | interfaceContext =>
    exact (operand "expr" (by simp [slots])).bind fun e => .ok _
  | popFlowIfNot => exact (operand "condition" (by simp [slots])).bind fun condition => .ok _
  | assign =>
    exact (operand "variable" (by simp [slots])).bind fun target =>
      (operand "expr" (by simp [slots])).bind fun value => .ok _
  | assignPersistent =>
    exact (property "destination" (by simp [slots])).bind fun target =>
      (operand "expr" (by simp [slots])).bind fun value => .ok _
  | struct =>
    exact (text "struct").bind fun name =>
      (operands "properties" (by simp [slots])).bind fun values => .ok _
  | finalCall =>
    exact (text "function").bind fun function => (text?_alike tidy "owner").bind fun owner =>
      (operands "parameters" (by simp [slots])).bind fun arguments => .ok _
  | virtualCall =>
    exact (text "function").bind fun function =>
      (operands "parameters" (by simp [slots])).bind fun arguments => .ok _
  | jumpIfNot =>
    exact (word "target").bind fun target =>
      (operand "condition" (by simp [slots])).bind fun condition => .ok _
  | context =>
    exact (operand "object" (by simp [slots])).bind fun object =>
      (operand "member" (by simp [slots])).bind fun member => .ok _
  | structMember =>
    exact (operand "struct" (by simp [slots])).bind fun value =>
      (property "property" (by simp [slots])).bind fun ref => .ok _
  | cast =>
    exact (text "conversion").bind fun conversion =>
      (operand "expr" (by simp [slots])).bind fun e => .ok _
  | classCast =>
    exact (text "class").bind fun name => (operand "expr" (by simp [slots])).bind fun e => .ok _

end

section

variable {d d' : Document} {n : Node}

/-- An instruction whose aliases are all seen through is read as with its aliases followed,
however much fuel there is beyond its depth. -/
theorem readInstruction_alike (fuel fuel' : Nat) (tidy : Node.Tidy [] n)
    (enough : n.depth < fuel) (enough' : n.depth < fuel') (room : n.depth ≤ d.extent)
    (room' : n.depth ≤ d'.extent) (clear : isClear d fuel n = true) :
    Alike (readInstruction d fuel n) (readInstruction d' fuel' n.resolved) := by
  induction fuel generalizing fuel' n with
  | zero => omega
  | succ fuel ih =>
    obtain ⟨fuel', rfl⟩ := Nat.exists_eq_succ_of_ne_zero (show fuel' ≠ 0 by omega)
    obtain ⟨same, fields⟩ := Fields.of?_resolved d d' tidy
    rw [isClear] at clear
    rw [readInstruction, readInstruction, fieldsOf, fieldsOf, same]
    cases found : Fields.of? d n with
    | none => exact .error _ _
    | some f =>
      have parts := fields f found
      have name : Alike (f.text d "inst") (f.resolved.text d' "inst") :=
        value_alike parts "inst" ""
      refine (name.inside _ _).bind_of_ok fun name named => ?_
      rw [found] at clear
      dsimp only at clear ⊢
      rw [Outcome.mapError_eq_ok.mp named] at clear
      cases known : form? ⟨name⟩ with
      | none => exact .ok _
      | some form =>
        refine .inside _ _ (.inside _ _ ?_)
        simp only [known, Option.all_some, List.all_eq_true] at clear
        refine Form.read_alike parts (fun m tidy shallow (clear : isClear d fuel m = true) => ?_)
          room room' form ⟨name⟩ fun slot member m at' => ?_
        · exact ih fuel' tidy (by omega) (by omega) (by omega) (by omega) clear
        · have all := clear slot member
          rw [at'] at all
          exact all

end

/-- Aliases that are seen through are transparent. An instruction that is not taken for little
but aliases is read just when it is read with its aliases followed, and then it is the same. -/
theorem clear_aliases_are_transparent {d : Document} {n : Node} (holds : d.Holds n)
    (acyclic : n.Acyclic) (plain : n.PlainKeys) (clear : isClear d (d.extent + 1) n = true) :
    (∃ f : Failure, instruction d n = .error f ∧ f.cause = .yaml (.malformed overrun)) ∨
      ∀ e, instruction d n = .ok e ↔ instruction (.ofNode n.resolved) n.resolved = .ok e := by
  have room := holds.room
  have room' := (Document.Holds.own n.resolved).room
  rw [n.depth_resolved] at room'
  have alike : Alike (instruction d n) (instruction (.ofNode n.resolved) n.resolved) :=
    readInstruction_alike _ _ ⟨acyclic, plain, by simp⟩ (Nat.lt_succ_of_le room)
      (Nat.lt_succ_of_le room') room room' clear
  generalize instruction d n = left at alike ⊢
  generalize instruction (.ofNode n.resolved) n.resolved = right at alike ⊢
  cases alike with
  | @overrun f cause => exact .inl ⟨f, rfl, cause⟩
  | error f g => exact .inr fun e => ⟨nofun, nofun⟩
  | ok a => exact .inr fun e => .rfl

/-- A member of an object is reached by the instruction that also gives the object, and a part
of its path is shared. -/
def sharing : Node :=
  let object := .mapping "!!map" [
    (.scalar "!!str" "inst" 3, .scalar "!!str" "EX_LocalVariable" 3),
    (.scalar "!!str" "variable" 4, .sequence "!!seq" [
      .scalar "!!str" "Door" 4, .aliased "name" 1 (.scalar "!!str" "Owner" 1) 4] 4)] 3
  .mapping "!!map" [
    (.scalar "!!str" "inst" 2, .scalar "!!str" "EX_Context" 2),
    (.scalar "!!str" "object" 3, object),
    (.scalar "!!str" "member" 5, .aliased "object" 2 object 5)] 2

theorem clear_aliases_are_transparent_sharing :
    sharing.Acyclic ∧ sharing.PlainKeys ∧
      instruction (.ofNode sharing.resolved) sharing.resolved =
        .ok (.context .context (.localVariable ⟨["Door", "Owner"], ""⟩)
          (.localVariable ⟨["Door", "Owner"], ""⟩)) := by
  have acyclic : sharing.Acyclic := by decide +kernel
  have plain : sharing.PlainKeys := by decide +kernel
  have read : instruction (.ofNode sharing) sharing =
      .ok (.context .context (.localVariable ⟨["Door", "Owner"], ""⟩)
        (.localVariable ⟨["Door", "Owner"], ""⟩)) := by rfl
  refine ⟨acyclic, plain, ?_⟩
  rcases clear_aliases_are_transparent (.own sharing) acyclic plain (by decide +kernel) with
    ⟨f, failed, _⟩ | same
  · rw [read] at failed
    cases failed
  · exact (same _).mp read

/-- A call whose parameters are those of another one. -/
def repeatedCall : Node :=
  .mapping "!!map" [
    (.scalar "!!str" "inst" 3, .scalar "!!str" "EX_FinalFunction" 3),
    (.scalar "!!str" "function" 4, .scalar "!!str" "Open" 4),
    (.scalar "!!str" "parameters" 5, .aliased "given" 0 (.sequence "!!seq" [
      .mapping "!!map" [(.scalar "!!str" "inst" 2, .scalar "!!str" "EX_Self" 2)] 2] 2) 5)] 3

/-- The alias of a list of operands is not followed. -/
theorem aliased_parameters_are_refused :
    repeatedCall.Acyclic ∧ repeatedCall.PlainKeys ∧
      (∀ e, instruction (.ofNode repeatedCall) repeatedCall ≠ .ok e) ∧
      instruction (.ofNode repeatedCall.resolved) repeatedCall.resolved =
        .ok (.finalCall .finalFunction ⟨"Open", ""⟩ [.self]) := by
  refine ⟨by decide +kernel, by decide +kernel, fun e read => ?_, by rfl⟩
  have refused : (instruction (.ofNode repeatedCall) repeatedCall).toOption.isNone = true := by rfl
  rw [read] at refused
  cases refused

end ScriptListing.Dump
