import ScriptListing.Proofs.Dump.Completeness

/-! A node for every instruction. Together with the reading of whatever writes an instruction
this is the round trip: a valid tree is written, and read back as it was. -/
namespace ScriptListing.Dump

open Yaml Number

def textNode (text : String) : Node := .scalar "!!str" text 1

def integerNode (i : Int) : Node := .scalar "!!int" (String.ofList (integerText i)) 1

def doubleNode (x : Binary) : Node := .scalar "!!float" (floatText x) 1

def Content.node : Content → List Node → Node
  | text value, _ | owner value, _ => textNode value
  | integer value, _ => integerNode value
  | single value, _ => doubleNode (value.toWidth .double)
  | double value, _ => doubleNode value
  | point parts, _ =>
    .mapping "!!map" (parts.map fun part => (textNode part.1, doubleNode part.2)) 1
  | property ref, _ =>
    .mapping "!!map" [(textNode "path", .sequence "!!seq" (ref.path.map textNode) 1),
      (textNode "owner", textNode ref.owner)] 1
  | operand _, below | choice _, below => below.headD (.scalar "!!null" "null" 1)
  | list _, below => .sequence "!!seq" below 1

theorem sizeOf_cells {e x : Expr} {cell : String × Content} (member : cell ∈ cells e)
    (inside : x ∈ cell.2.operands) : sizeOf x < sizeOf e := by
  rcases List.mem_cons.mp member with rfl | listed
  · cases inside
  · exact Expr.sizeOf_operands (mem_operands listed inside)

def encode (e : Expr) : Node :=
  .mapping "!!map" ((cells e).attach.map fun cell => (textNode cell.1.1,
    cell.1.2.node (cell.1.2.operands.attach.map fun x => encode x.1))) 1
termination_by e
decreasing_by exact sizeOf_cells cell.2 x.2

def entryOf (cell : String × Content) : Node × Node :=
  (textNode cell.1, cell.2.node (cell.2.operands.map encode))

def entriesOf (e : Expr) : List (Node × Node) := (cells e).map entryOf

theorem encode_eq (e : Expr) : encode e = .mapping "!!map" (entriesOf e) 1 := by
  rw [encode]
  simp only [List.attach_map_val]
  exact congrArg (Node.mapping "!!map" · 1) (@List.attach_map_val _ _ (cells e) entryOf)

def encodeAt (offset : UInt32) (e : Expr) : Node :=
  .mapping "!!map" ((textNode "offset", integerNode offset.toNat) :: entriesOf e) 1

/-- What a node can be written for: integers of 64 bits, and numbers of their width. -/
def Content.Fits : Content → Prop
  | integer i => -0x8000000000000000 ≤ i ∧ i ≤ 0x7FFFFFFFFFFFFFFF
  | single x => x.IsOf .single
  | double x => x.IsOf .double
  | point parts => ∀ part ∈ parts, part.2.IsOf .double
  | _ => True

theorem word_fits (v : UInt32) : (Content.integer v.toNat).Fits := by
  have := v.toNat_lt
  dsimp only [Content.Fits]
  omega

theorem row_fits {e : Expr} (own : Own e) : ∀ cell ∈ row e, cell.2.Fits := by
  cases e <;> simp only [row, List.forall_mem_cons, List.not_mem_nil, false_implies,
    implies_true, and_true]
  case int v =>
    have low := Int32.le_toInt v
    have high := Int32.toInt_lt v
    dsimp only [Content.Fits]
    omega
  case int64 v => exact ⟨Int64.le_toInt v, Int64.toInt_le v⟩
  case byte v =>
    have := v.toNat_lt
    dsimp only [Content.Fits]
    omega
  case jump v | pushFlow v => exact word_fits v
  case jumpIfNot v _ => exact ⟨word_fits v, trivial⟩
  case float | double => exact own
  case vector | rotation => simpa [Content.Fits, Own] using own
  all_goals simp [Content.Fits]

theorem denotes_text (text : String) : Denotes (.text text) (textNode text) := .mk rfl 1

theorem denotes_integer {i : Int} (fits : (Content.integer i).Fits) :
    Denotes (.int i) (integerNode i) := .mk (scalarOf_integer fits.1 fits.2) 1

theorem denotes_double {x : Binary} (double : x.IsOf .double) :
    DenotesDouble x (doubleNode x) := .float (.mk (scalarOf_float double) 1)

theorem refers_node (ref : PropertyRef) (below : List Node) :
    Refers ref ((Content.property ref).node below) := by
  have path : List.Forall₂ (fun t => Denotes (.text t)) ref.path (ref.path.map textNode) := by
    rw [List.forall₂_map_right_iff, List.forall₂_same]
    exact fun text _ => denotes_text text
  have distinct : Distinct [(textNode "path", .sequence "!!seq" (ref.path.map textNode) 1),
      (textNode "owner", textNode ref.owner)] := (by decide : ["path", "owner"].Nodup)
  exact .full distinct rfl (.mk path "!!seq" 1) (.given (denotes_text ref.owner)) "!!map" 1

theorem stands_node {W : Expr → Node → Prop} {write : Expr → Node} {content : Content}
    (fits : content.Fits)
    (below : ∀ x ∈ content.operands, x ≠ .missing ∧ W x (write x) ∧ (write x).isNull = false) :
    Stands W content (some (content.node (content.operands.map write))) := by
  cases content with
  | text value => exact .text (denotes_text value)
  | owner value => exact .owner (.given (denotes_text value))
  | integer i => exact .integer (denotes_integer fits)
  | single x => exact .single (denotes_double (Binary.IsOf.widen fits).1) (Binary.IsOf.widen fits).2
  | double x => exact .double (denotes_double fits)
  | point parts =>
    refine .point (List.Perm.refl parts) ?_ "!!map" 1
    rw [List.forall₂_map_right_iff, List.forall₂_same]
    exact fun part member => ⟨⟨1, rfl⟩, denotes_double (fits part member)⟩
  | property ref => exact .property (refers_node ref _)
  | operand e => exact .operand (below e List.mem_cons_self).2.1
  | choice e =>
    by_cases absent : e = .missing
    · subst absent
      exact .nullChoice rfl
    · have given := Expr.given_of_present absent
      obtain ⟨present, written, direct⟩ := below e (by simp [Content.operands, given])
      have node : (Content.choice e).node ((Content.choice e).operands.map write) = write e := by
        simp [Content.operands, Content.node, given]
      rw [node]
      exact .choice present direct written
  | list es =>
    refine .list ?_ 1
    rw [List.forall₂_map_right_iff]
    exact List.forall₂_same.mpr fun x member => (below x member).2.1

/-- The keys of an instruction differ from each other and from that of an offset. -/
theorem names_nodup (e : Expr) : ("offset" :: (cells e).map Prod.fst).Nodup := by
  cases e <;> simp [cells, row]

theorem byName_entriesOf (e : Expr) :
    (byName (entriesOf e)).map Prod.fst = (cells e).map Prod.fst := by
  simp [byName, entriesOf, entryOf, textNode, Node.value, Function.comp_def]

/-- Any mapping with the entries of an instruction writes it. -/
theorem writes_of_entries {e : Expr} (own : Own e)
    (below : ∀ x ∈ e.operands, x ≠ .missing ∧ Writes x (encode x)) {entries : List (Node × Node)}
    (distinct : Distinct entries) (has : entriesOf e ⊆ entries) :
    Writes e (.mapping "!!map" entries 1) := by
  refine .mk distinct (fun cell member => ?_) 1
  have found : under entries cell.1 = some (entryOf cell).2 :=
    (lookup_eq_some distinct).mpr
      (List.mem_map_of_mem (has (List.mem_map_of_mem member)))
  have fits : cell.2.Fits := by
    rcases List.mem_cons.mp member with rfl | listed
    · trivial
    · exact row_fits own cell listed
  rw [found]
  refine stands_node fits fun x inside => ?_
  obtain ⟨present, written⟩ := below x (by
    rcases List.mem_cons.mp member with rfl | listed
    · cases inside
    · exact mem_operands listed inside)
  refine ⟨present, written, ?_⟩
  rw [encode_eq]
  rfl

theorem Valid.present {e : Expr} (valid : Valid e) : e ≠ .missing := by
  obtain ⟨present, _, _⟩ := valid
  exact present

theorem encode_writes {e : Expr} (valid : Valid e) : Writes e (encode e) := by
  induction valid with
  | @mk e present own below ih =>
    rw [encode_eq]
    refine writes_of_entries own (fun x inside => ⟨(below x inside).present, ih x inside⟩) ?_
      (List.Subset.refl _)
    unfold Distinct
    rw [byName_entriesOf]
    exact (List.nodup_cons.mp (names_nodup e)).2

theorem encodeAt_writes {e : Expr} (valid : Valid e) (offset : UInt32) :
    WritesAt offset e (encodeAt offset e) := by
  obtain ⟨present, own, below⟩ := valid
  have distinct : Distinct ((textNode "offset", integerNode offset.toNat) :: entriesOf e) := by
    have names := names_nodup e
    rw [← byName_entriesOf] at names
    exact names
  have written := writes_of_entries own
    (fun x inside => ⟨(below x inside).present, encode_writes (below x inside)⟩) distinct
    (List.subset_cons_self _ _)
  exact .mk written rfl (denotes_integer (word_fits offset))

/-- The documented format is read completely. Every valid tree has a node that writes it,
alone or with an offset, and is read back from each such node of a document. -/
theorem documented_format_is_read (e : Expr) (valid : Valid e) (offset : UInt32) :
    Writes e (encode e) ∧ WritesAt offset e (encodeAt offset e) ∧
      ∀ (d : Document) (n : Node), n.size ≤ d.extent →
        (Writes e n → instruction d n = .ok e) ∧
        (WritesAt offset e n → statement d n = .ok ⟨offset, e⟩) := by
  refine ⟨encode_writes valid, encodeAt_writes valid offset, fun d n room => ⟨?_, ?_⟩⟩
  · exact fun written => instruction_writes valid written room
  · exact fun written => statement_writes valid written room

def assignment : Expr :=
  .assign .let (.localVariable ⟨["Health"], "Tick"⟩)
    (.finalCall .callMath ⟨"Blend", "Library"⟩
      [.float (.finite true 12582912 (-23)), .int (-7), .text .missing])

theorem assignment_valid : Valid assignment := by
  have number : Own (.float (.finite true 12582912 (-23))) :=
    ⟨by decide, by decide, by decide, .inl (by decide)⟩
  refine .mk (by simp [assignment]) (by simp [assignment, Own]) fun x inside => ?_
  simp only [assignment, Expr.operands, List.mem_cons, List.not_mem_nil, or_false] at inside
  rcases inside with rfl | rfl
  · exact .mk (by simp) trivial (by simp [Expr.operands])
  · refine .mk (by simp) (by simp [Own]) fun x inside => ?_
    simp only [Expr.operands, List.mem_cons, List.not_mem_nil, or_false] at inside
    rcases inside with rfl | rfl | rfl
    · exact .mk (by simp) number (by simp [Expr.operands])
    · exact .mk (by simp) trivial (by simp [Expr.operands])
    · exact .mk (by simp) trivial (by simp [Expr.operands, Expr.given])

theorem documented_format_is_read_assignment :
    Valid assignment ∧
      instruction (.ofNode (encode assignment)) (encode assignment) = .ok assignment ∧
      statement (.ofNode (encodeAt 16 assignment)) (encodeAt 16 assignment) =
        .ok ⟨16, assignment⟩ := by
  obtain ⟨written, writtenAt, reads⟩ := documented_format_is_read assignment assignment_valid 16
  exact ⟨assignment_valid, (reads _ _ (Nat.le_refl _)).1 written,
    (reads _ _ (Nat.le_refl _)).2 writtenAt⟩

end ScriptListing.Dump
