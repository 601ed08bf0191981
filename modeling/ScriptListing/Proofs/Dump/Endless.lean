import ScriptListing.Archive
import ScriptListing.Proofs.Dump.Instruction
import ScriptListing.Proofs.Yaml.Part

/-! Loads that never end. An instruction is read forever only where an alias stands inside the
node that it refers to; in every other document each operand lies deeper than its instruction. -/
namespace ScriptListing

/-- The step comes to an end, well or not. -/
def Ends {α : Type} (step : Attempt α) : Prop := ∀ f, step = .error f → f.isEndless = false

namespace Ends

variable {α β : Type}

theorem ok (a : α) : Ends (.ok a : Attempt α) := nofun

theorem pure (a : α) : Ends (pure a : Attempt α) := nofun

theorem fail {cause : Cause} (other : cause ≠ .endless) :
    Ends (ScriptListing.fail cause : Attempt α) := by
  rintro f ⟨⟩
  exact decide_eq_false other

theorem bind {step : Attempt α} {next : α → Attempt β} (first : Ends step)
    (second : ∀ a, step = .ok a → Ends (next a)) : Ends (step >>= next) := by
  cases step with
  | error f =>
    rintro f' ⟨⟩
    exact first f rfl
  | ok a => exact second a rfl

theorem inside {step : Attempt α} (place : String) (ends : Ends step) :
    Ends (inside place step) := by
  cases step with
  | error f =>
    rintro f' ⟨⟩
    exact ends f rfl
  | ok a => exact .ok a

theorem mapError {ε : Type} {step : Except ε α} {name : ε → Failure}
    (other : ∀ e, (name e).isEndless = false) : Ends (step.mapError name) := by
  cases step with
  | error e =>
    rintro f ⟨⟩
    exact other e
  | ok a => exact .ok a

theorem mapM {f : α → Attempt β} {items : List α} (each : ∀ a ∈ items, Ends (f a)) :
    Ends (items.mapM f) := by
  intro e failed
  obtain ⟨before, a, after, rfl, _, here⟩ := Outcome.mapM_eq_error.mp failed
  exact each a (by simp) e here

end Ends

namespace Dump

open Yaml

def Fields.Below (d : Document) (bound : Nat) (f : Fields) : Prop :=
  ∀ key n, f.get? key = some n → d.Has n ∧ n.depth < bound

section

variable {d : Document} {bound : Nat} {sub : Node → Attempt Expr} {f : Fields} {α : Type}

theorem valueOf_ends (key : String) (read : Reader α) (start : α) (n : Node) :
    Ends (valueOf d key read start n) :=
  .inside key (.mapError fun _ => rfl)

theorem get_ends (key : String) : Ends (f.get key) := by
  unfold Fields.get
  split
  · exact .ok _
  · exact .fail (by simp)

theorem value_ends (key : String) (read : Reader α) (start : α) :
    Ends (f.value d key read start) :=
  .bind (get_ends key) fun n _ => valueOf_ends key read start n

theorem text?_ends (key : String) : Ends (f.text? d key) := by
  unfold Fields.text?
  split
  · exact .ok _
  · exact valueOf_ends _ _ _ _

theorem path_ends (key : String) (n : Node) : Ends (Fields.path d key n) := by
  unfold Fields.path
  split
  · exact .ok _
  · exact valueOf_ends _ _ _ _

theorem property_ends (key : String) : Ends (f.property d key) := by
  refine .bind (get_ends key) fun n _ => ?_
  split
  · exact .pure _
  · exact .bind (valueOf_ends _ _ _ _) fun _ _ => .pure _
  · have owner (f : Fields) (segments : List String) :
        Ends (inside key (f.text? d "owner") >>= fun owner =>
          (pure ⟨segments, owner⟩ : Attempt PropertyRef)) :=
      .bind (.inside key (text?_ends "owner")) fun _ _ => .pure _
    dsimp only
    split
    · exact .bind (path_ends _ _) fun segments _ => owner _ segments
    · exact .bind (.inside key (.fail (by simp))) fun segments _ => owner _ segments
  · exact .inside key (.fail (by simp))

section

variable (below : f.Below d bound) (ends : ∀ n, d.Has n → n.depth < bound → Ends (sub n))
include below ends

theorem operand_ends (key : String) : Ends (f.operand sub key) := by
  refine .bind (get_ends key) fun n found => ?_
  unfold Fields.get at found
  split at found
  · next m at' =>
    cases found
    obtain ⟨has, depth⟩ := below key n at'
    exact ends n has depth
  · cases found

theorem operand?_ends (key : String) : Ends (f.operand? sub key) := by
  unfold Fields.operand?
  split
  · exact .ok _
  · next n at' =>
    obtain ⟨has, depth⟩ := below key n at'
    split
    · exact .ok _
    · exact ends n has depth

theorem operands_ends (key : String) : Ends (f.operands sub key) := by
  unfold Fields.operands
  split
  · exact .ok _
  · next tag items line at' =>
    obtain ⟨has, depth⟩ := below key _ at'
    split
    · exact .ok _
    · exact .mapM fun n member =>
        ends n (has.item member) (Nat.lt_trans (Node.depth_item member) depth)
  · split
    · exact .ok _
    · exact .inside key (.fail (by simp))

/-- Reading an instruction ends where reading its operands does. -/
theorem Form.read_ends (code : Opcode) (form : Form) : Ends (form.read d sub code f) := by
  have one := operand_ends below ends
  have some := operand?_ends below ends
  have many := operands_ends below ends
  cases form
  case bare e => exact .ok e
  case reference make => exact .bind (property_ends _) fun _ _ => .pure _
  case assign | context => exact .bind (one _) fun _ _ => .bind (one _) fun _ _ => .pure _
  case assignPersistent =>
    exact .bind (property_ends _) fun _ _ => .bind (one _) fun _ _ => .pure _
  case structMember =>
    exact .bind (one _) fun _ _ => .bind (property_ends _) fun _ _ => .pure _
  case computedJump | popFlowIfNot | interfaceContext =>
    exact .bind (one _) fun _ _ => .pure _
  case text | ret => exact .bind (some _) fun _ _ => .pure _
  case struct | virtualCall =>
    exact .bind (value_ends _ _ _) fun _ _ => .bind (many _) fun _ _ => .pure _
  case finalCall =>
    refine .bind (value_ends _ _ _) fun _ _ => .bind (text?_ends _) fun _ _ => ?_
    exact .bind (many _) fun _ _ => .pure _
  case jumpIfNot | cast | classCast =>
    exact .bind (value_ends _ _ _) fun _ _ => .bind (one _) fun _ _ => .pure _
  -- The others read one plain value.
  all_goals exact .bind (value_ends _ _ _) fun _ _ => .pure _

end

theorem fieldsOf_ends (n : Node) : Ends (fieldsOf d n) := by
  unfold fieldsOf
  split
  · exact .ok _
  · exact .inside _ (.fail (by simp))

/-- In a straight document operands are less deep than their instruction. -/
theorem fieldsOf_below (straight : d.Straight) {n : Node} (has : d.Has n)
    (found : fieldsOf d n = .ok f) : f.Below d n.depth := by
  have mapping := fieldsOf_ok found
  have depth : (d.target n).depth = n.depth := by
    cases n with
    | cycle => exact absurd (has (Node.mem_all_self _)) (straight _ _ _)
    | _ => rfl
  have inside := has.target straight
  unfold Fields.of? at mapping
  split at mapping
  · next tag entries line at' =>
    cases mapping
    intro key value found
    rw [at'] at depth inside
    obtain ⟨before, after, split, _⟩ := List.lookup_eq_some_iff.mp found
    have listed : (key, value) ∈ (Fields.ofEntries entries).entries := by simp [split]
    simp only [Fields.ofEntries, List.mem_reverse, List.mem_map] at listed
    obtain ⟨⟨name, value'⟩, member, same⟩ := listed
    cases same
    exact ⟨inside.entry member, depth ▸ Node.depth_entry member⟩
  · cases mapping

theorem readInstruction_ends (straight : d.Straight) {fuel : Nat} {n : Node} (has : d.Has n)
    (deep : n.depth < fuel) : Ends (readInstruction d fuel n) := by
  induction fuel generalizing n with
  | zero => omega
  | succ fuel ih =>
    refine .bind (fieldsOf_ends n) fun f found => ?_
    refine .bind (.inside _ (value_ends _ _ _)) fun name _ => ?_
    dsimp only
    split
    · exact .pure _
    · refine .inside _ (.inside _ (Form.read_ends (fieldsOf_below straight has found) ?_ _ _))
      exact fun m has' below => ih has' (by omega)

end

/-- A dump in which an alias stands inside the node that it refers to. -/
def Loops (bytes : List UInt8) : Prop :=
  ∃ d anchor number line, readDocument bytes = .ok (some d) ∧ .cycle anchor number line ∈ d.root.all

def ScriptOf (d : Document) (e : Export) : Prop := ∀ n ∈ e.script, d.Has n

theorem exportType_keeps {d : Document} (straight : d.Straight) :
    exportType.Keeps d (ScriptOf d) := by
  have other {β : Type} {read : Reader β} {put : β → Export → Export}
      (same : ∀ b e, (put b e).script = e.script) (n : Node) (e : Export) (_ : d.Has n)
      (holds : ScriptOf d e) : Gives d (fun result => ScriptOf d result.1) (read.into put n e) :=
    into_any (fun b => by simpa [ScriptOf, same] using holds) holds
  simp only [RecordType.Keeps, exportType, List.forall_mem_cons]
  refine ⟨other fun _ _ => rfl, other fun _ _ => rfl, other fun _ _ => rfl, other fun _ _ => rfl,
    other fun _ _ => rfl, other fun _ _ => rfl, fun n e has holds => ?_, nofun⟩
  refine into_gives (R := fun list => ∀ n ∈ list, d.Has n) ?_ (fun list nodes => nodes) holds
  exact readList_gives straight (fun m has => readNode_gives has) has

theorem documentType_keeps {d : Document} (straight : d.Straight) :
    documentType.Keeps d fun dump => ∀ e ∈ dump.exports, ScriptOf d e := by
  simp only [RecordType.Keeps, documentType, List.forall_mem_cons]
  refine ⟨fun n dump has holds => ?_, fun n dump has holds => ?_, nofun⟩
  · have read : Gives d (fun r => ∀ list ∈ r.value, ∀ e ∈ list, ScriptOf d e)
        (readList "[]loader.exportDoc" (exportType.read {}) n) :=
      readList_gives straight (fun m has =>
        RecordType.read_gives straight (exportType_keeps straight) (by simp [ScriptOf]) has) has
    exact into_gives (P := fun dump : Dump => ∀ e ∈ dump.exports, ScriptOf d e) read
      (fun list sound => sound) holds
  · exact into_any (P := fun dump : Dump => ∀ e ∈ dump.exports, ScriptOf d e) (fun _ => holds) holds

/-- The scripts of a dump are of its document, which is straight unless it loops. -/
theorem parse_scripts {bytes : List UInt8} {dump : Dump} (parsed : parse bytes = .ok dump)
    (direct : ¬ Loops bytes) : ∀ e ∈ dump.exports, readDocument bytes = .ok (some dump.document) ∧
      dump.document.Straight ∧ ScriptOf dump.document e := by
  obtain ⟨found, read, rest⟩ := Outcome.bind_eq_ok.mp parsed
  cases found with
  | none =>
    cases rest
    simp
  | some d =>
    have straight : d.Straight := fun anchor number line inside =>
      direct ⟨d, anchor, number, line, read, inside⟩
    obtain ⟨dump', filled, same⟩ := Outcome.bind_eq_ok.mp rest
    cases same
    have scripts : ∀ e ∈ dump'.exports, ScriptOf d e := by
      unfold Reader.runDocument Reader.runAfter at filled
      split at filled
      · cases filled
      · next reading t' read =>
        have sound := RecordType.read_gives straight (documentType_keeps straight) (by simp)
          (List.Subset.refl _) _ _ _ read
        split at filled
        · cases filled
          cases value : reading.value with
          | none => simp
          | some dump => exact sound dump value
        · cases filled
    exact fun e member => ⟨read, straight, scripts e member⟩

theorem statement_ends {bytes : List UInt8} {dump : Dump} (parsed : parse bytes = .ok dump)
    (direct : ¬ Loops bytes) {e : Export} (member : e ∈ dump.exports) {n : Node}
    (part : n ∈ e.script) : Ends (statement dump.document n) := by
  obtain ⟨read, straight, script⟩ := parse_scripts parsed direct e member
  have has := script n part
  have room := readDocument_extent read (has (Node.mem_all_self _))
  refine .bind (fieldsOf_ends n) fun f _ => .bind (.inside _ (value_ends _ _ _)) fun offset _ => ?_
  exact .bind (readInstruction_ends straight has (Nat.lt_succ_of_le room)) fun _ _ => .pure _

mutual

theorem property_reads_end : ∀ e : PropertyEntry, Ends (property e)
  | ⟨name, type, flags, enum, struct, inner, key, value, objectClass, interface, metaClass⟩ => by
    rw [property]
    split
    · exact .fail (by simp)
    · refine .bind (.mapError fun _ => rfl) fun flags _ => ?_
      refine .bind (element_ends inner) fun _ _ => .bind (element_ends key) fun _ _ => ?_
      exact .bind (element_ends value) fun _ _ => .pure _

theorem element_ends : ∀ e : Option PropertyEntry, Ends (element e)
  | none => .ok _
  | some e => .bind (property_reads_end e) fun _ _ => .pure _

end

theorem listed_ends (dump : Dump) (owner name : String) : Ends (dump.listed owner name) := by
  unfold listed
  split
  · exact .ok _
  · exact .inside _ (.fail (by simp))

/-- The functions of a class are exports. -/
theorem functionExports_ends (dump : Dump) (c : Export) :
    Ends (dump.functionExports c) ∧
      ∀ found, dump.functionExports c = .ok found → ∀ e ∈ found, e ∈ dump.exports := by
  unfold functionExports
  split
  · refine ⟨.mapM fun name _ => listed_ends dump c.name name, fun found all e member => ?_⟩
    obtain ⟨name, _, here⟩ := Outcome.forall₂_mem (Outcome.mapM_eq_ok.mp all) member
    unfold listed at here
    split at here
    · next found =>
      cases here
      exact List.mem_reverse.mp (List.mem_of_find?_eq_some found)
    · cases here
  · refine ⟨.ok _, ?_⟩
    rintro _ ⟨⟩ e member
    exact List.mem_of_mem_filter member

/-- A dump that does not loop is read to its end. -/
theorem decode_ends {bytes : List UInt8} (direct : ¬ Loops bytes) (name : String) :
    Ends (decode bytes name) := by
  refine .bind (.mapError fun _ => rfl) fun dump parsed => ?_
  have parsed := Outcome.mapError_eq_ok.mp parsed
  unfold select
  split
  · next c _ =>
    obtain ⟨listing, listed⟩ := functionExports_ends dump c
    refine .inside _ (.bind (.mapM fun e _ => property_reads_end e) fun properties _ => ?_)
    refine .bind listing fun found there => ?_
    refine .bind (.mapM fun e member => ?_) fun _ _ => .pure _
    refine .inside _ (.bind (.mapM fun e _ => property_reads_end e) fun _ _ => ?_)
    refine .bind (.mapM fun n part => ?_) fun _ _ => .pure _
    exact statement_ends parsed direct (listed found there e member) part
  · exact .fail (by simp)

end Dump

namespace Archive

theorem search_ends {t : FileTree} {key : List UInt8} (candidates : List Candidate) :
    Ends (search t key candidates) := by
  induction candidates with
  | nil => exact .fail (by simp)
  | cons c rest ih =>
    unfold search
    split
    · unfold content
      split
      · refine .inside _ ?_
        unfold Cipher.decrypt
        split
        · exact .fail (by simp)
        · exact .ok _
      · exact .ok _
    · split
      · exact ih
      · exact .fail (by simp)

theorem split_ends (source : String) : Ends (ObjectPath.split source) := by
  unfold ObjectPath.split
  dsimp only
  split
  · exact .fail (by simp)
  · split
    · exact .fail (by simp)
    · exact .ok _

theorem package_ends (a : Archive) (t : FileTree) (name : String) : Ends (a.package t name) := by
  unfold package
  split
  · exact .ok _
  · exact search_ends _

/-- A load that never ends is of a package that loops. -/
theorem load_ends {a : Archive} {t : FileTree} {canceled : Bool} {name : String}
    (direct : ∀ package bytes, a.package t package = .ok bytes → ¬ Dump.Loops bytes) :
    Ends (a.load t canceled name).1 := by
  unfold load
  split
  · exact .fail (by simp)
  · have object := split_ends name
    split
    · next f refused =>
      rintro _ ⟨⟩
      exact object f refused
    · next object _ =>
      have package := package_ends a t object.package
      split
      · next f failed =>
        rintro _ ⟨⟩
        exact package f failed
      · next bytes found =>
        exact .inside name (.bind (Dump.decode_ends (direct _ _ found) _) fun _ _ => .pure _)

end Archive

end ScriptListing
