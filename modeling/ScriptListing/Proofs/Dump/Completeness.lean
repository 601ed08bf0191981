import ScriptListing.Proofs.Dump.Format

/-! Every instruction is read back from each node that writes it. -/
namespace ScriptListing.Dump

open Yaml Number

theorem lookup_eq_some {pairs : List (String × Node)} (distinct : (pairs.map Prod.fst).Nodup)
    {key : String} {n : Node} : pairs.lookup key = some n ↔ (key, n) ∈ pairs := by
  induction pairs with
  | nil => simp
  | cons head rest ih =>
    obtain ⟨name, m⟩ := head
    obtain ⟨fresh, distinct⟩ := List.nodup_cons.mp distinct
    rw [List.lookup_cons, List.mem_cons, Prod.mk.injEq]
    by_cases same : key = name
    · subst same
      have other : (key, n) ∉ rest := fun member => fresh (List.mem_map.mpr ⟨_, member, rfl⟩)
      simp [other, eq_comm]
    · rw [beq_false_of_ne same]
      simpa [same] using ih distinct

/-- Without repeated keys it does not matter which entry of a key counts. -/
theorem get?_ofEntries {entries : List (Node × Node)} (distinct : Distinct entries)
    (key : String) : (Fields.ofEntries entries).get? key = under entries key := by
  have reversed : ((byName entries).reverse.map Prod.fst).Nodup := by
    rw [List.map_reverse]
    exact (List.reverse_perm _).nodup_iff.mpr distinct
  refine Option.ext fun n => ?_
  change (byName entries).reverse.lookup key = some n ↔ (byName entries).lookup key = some n
  rw [lookup_eq_some reversed, lookup_eq_some distinct, List.mem_reverse]

section Parts

variable {d : Document} {f : Fields} {key : String} {W : Expr → Node → Prop}

theorem get_ok {n : Node} (found : f.get? key = some n) : f.get key = .ok n := by
  simp [Fields.get, found]

theorem valueOf_ok {α : Type} {read : Reader α} {start a : α} {n : Node}
    (reads : Yields d (read n) (.found a)) : valueOf d key read start n = .ok a :=
  Outcome.mapError_eq_ok.mpr (Outcome.mapError_eq_ok.mpr (reads.run start))

theorem value_ok {α : Type} {read : Reader α} {start a : α} {n : Node}
    (found : f.get? key = some n) (reads : Yields d (read n) (.found a)) :
    f.value d key read start = .ok a :=
  Outcome.bind_ok (get_ok found) (valueOf_ok reads)

theorem readDouble_yields {x : Binary} {n : Node} (written : DenotesDouble x n) :
    Yields d (ScalarType.double.read n) (.found x) := by
  cases written with
  | float written => exact ScalarType.read_yields written (by simp) fun _ => rfl
  | integer written same =>
    exact ScalarType.read_yields written (by simp) fun _ => congrArg some same

theorem readSingle_yields {x : Binary} {n : Node} (written : DenotesDouble x n) :
    Yields d (ScalarType.single.read n) (.found (x.toWidth .single)) := by
  cases written with
  | float written => exact ScalarType.read_yields written (by simp) fun _ => rfl
  | integer written same =>
    subst same
    exact ScalarType.read_yields written (by simp) fun _ => rfl

variable {place : Option Node} (found : f.get? key = place)

include found

theorem text_read {value : String} (stands : Stands W (.text value) place) :
    f.text d key = .ok value := by
  obtain ⟨written⟩ := stands
  exact value_ok found (readText_yields written)

theorem text?_ok {value : String} (owned : DenotesOwner value place) :
    f.text? d key = .ok value := by
  unfold Fields.text?
  rw [found]
  cases owned with
  | given written => exact valueOf_ok (readText_yields written)
  | absent => rfl

theorem owner_read {value : String} (stands : Stands W (.owner value) place) :
    f.text? d key = .ok value := by
  cases stands with
  | owner written => exact text?_ok found written

theorem integer_read {α : Type} {name : String} {least greatest i : Int} {cast : Int → α}
    {start a : α} (range : least ≤ i ∧ i ≤ greatest) (same : cast i = a)
    (stands : Stands W (.integer i) place) :
    f.value d key ((ScalarType.integer name least greatest).map cast).read start = .ok a := by
  cases stands with
  | integer written =>
    refine value_ok found (ScalarType.read_yields written (by simp) fun source => ?_)
    simp [ScalarType.map, ScalarType.integer, range, same]

theorem operand_read {sub : Node → Attempt Expr} {e : Expr}
    (stands : Stands (fun x m => sub m = .ok x) (.operand e) place) :
    f.operand sub key = .ok e := by
  cases stands with
  | operand written => exact Outcome.bind_ok (get_ok found) written

theorem choice_read {sub : Node → Attempt Expr} {e : Expr}
    (stands : Stands (fun x m => sub m = .ok x) (.choice e) place) :
    f.operand? sub key = .ok e := by
  unfold Fields.operand?
  rw [found]
  cases stands with
  | choice _ direct written => simpa [direct] using written
  | noChoice => rfl
  | nullChoice null => simp [null]

theorem list_read {sub : Node → Attempt Expr} {es : List Expr}
    (stands : Stands (fun x m => sub m = .ok x) (.list es) place) :
    f.operands sub key = .ok es := by
  unfold Fields.operands
  rw [found]
  cases stands with
  | list written line => exact Outcome.mapM_eq_ok.mpr written.flip
  | noList => rfl
  | @nullList n null =>
    cases n with
    | sequence tag items line =>
      have null : tag = "!!null" := by simpa [Node.isNull, Node.tag] using null
      simp [null]
    | _ => simp [null]

theorem property_read {ref : PropertyRef} (stands : Stands W (.property ref) place) :
    f.property d key = .ok ref := by
  cases stands with
  | property written =>
    refine Outcome.bind_ok (get_ok found) ?_
    cases written with
    | name given line => simp [given, pure, Except.pure]
    | path written =>
      obtain ⟨written, tag, line⟩ := written
      exact Outcome.bind_ok (valueOf_ok (readTexts_yields written)) rfl
    | full distinct path written owned tag line =>
      obtain ⟨written, tag', line'⟩ := written
      rw [← get?_ofEntries distinct] at path
      have owner := text?_ok (d := d) (get?_ofEntries distinct "owner") owned
      dsimp only
      rw [path]
      refine Outcome.bind_ok (valueOf_ok (readTexts_yields written)) ?_
      exact Outcome.bind_ok (Outcome.mapError_eq_ok.mpr owner) rfl

/-- The fields of a record may come in any order. -/
theorem point_read {α : Type} {type : RecordType α} (step : α → String × Binary → α)
    {parts : List (String × Binary)} (stands : Stands W (.point parts) place)
    (distinct : (parts.map Prod.fst).Nodup)
    (fields : ∀ part ∈ parts, ∃ put, type.fields.lookup part.1 =
      some (ScalarType.double.read.into put) ∧ ∀ record, put part.2 record = step record part)
    (commute : ∀ p ∈ parts, ∀ q ∈ parts, ∀ record, step (step record p) q = step (step record q) p)
    (start : α) : f.value d key (type.read start) start = .ok (parts.foldl step start) := by
  cases stands with
  | @point _ parts' entries order written tag line =>
    have known : ∀ part ∈ parts', ∃ field, type.fields.lookup part.1 = some field ∧
        ∀ n record, DenotesDouble part.2 n → Yields d (field n record) (step record part, []) := by
      intro part member
      obtain ⟨put, field, puts⟩ := fields part (order.mem_iff.mp member)
      refine ⟨_, field, fun n record given => ?_⟩
      rw [← puts record]
      exact Yields.bind (readDouble_yields given) (Yields.pure _)
    have names : (parts'.map Prod.fst).Nodup := (order.map Prod.fst).nodup_iff.mpr distinct
    have same : parts'.foldl step start = parts.foldl step start := by
      refine order.foldl_eq' (fun p inP q inQ => ?_) start
      exact commute p (order.mem_iff.mp inP) q (order.mem_iff.mp inQ)
    rw [← same]
    exact value_ok found (RecordType.read_yields written known names start tag line)

end Parts

def Vector.set (v : Vector) : String × Binary → Vector
  | ("x", x) => { v with x }
  | ("y", y) => { v with y }
  | ("z", z) => { v with z }
  | _ => v

def Rotation.set (r : Rotation) : String × Binary → Rotation
  | ("pitch", pitch) => { r with pitch }
  | ("yaw", yaw) => { r with yaw }
  | ("roll", roll) => { r with roll }
  | _ => r

section Forms

variable {d : Document} {f : Fields} {key : String} {W : Expr → Node → Prop}

theorem int32_read {v : Int32} (stands : Stands W (.integer v.toInt) (f.get? key)) :
    f.value d key ScalarType.int32.read 0 = .ok v :=
  integer_read rfl ⟨Int32.le_toInt v, Int32.toInt_le v⟩ (Int32.ofInt_toInt v) stands

theorem int64_read {v : Int64} (stands : Stands W (.integer v.toInt) (f.get? key)) :
    f.value d key ScalarType.int64.read 0 = .ok v :=
  integer_read rfl ⟨Int64.le_toInt v, Int64.toInt_le v⟩ (Int64.ofInt_toInt v) stands

theorem byte_read {v : UInt8} (stands : Stands W (.integer v.toNat) (f.get? key)) :
    f.value d key ScalarType.byte.read 0 = .ok v := by
  have high := v.toNat_lt
  exact integer_read rfl (by omega) (by simp) stands

theorem word_read {v : UInt32} (stands : Stands W (.integer v.toNat) (f.get? key)) :
    f.word d key = .ok v := by
  have high := v.toNat_lt
  exact integer_read rfl (by omega) (by simp) stands

theorem single_read {v start : Binary} (stands : Stands W (.single v) (f.get? key)) :
    f.value d key ScalarType.single.read start = .ok v := by
  generalize found : f.get? key = place at stands
  cases stands with
  | single written narrow => exact narrow ▸ value_ok found (readSingle_yields written)

theorem double_read {v start : Binary} (stands : Stands W (.double v) (f.get? key)) :
    f.value d key ScalarType.double.read start = .ok v := by
  generalize found : f.get? key = place at stands
  cases stands with
  | double written => exact value_ok found (readDouble_yields written)

theorem vector_read {x y z : Binary}
    (stands : Stands W (.point [("x", x), ("y", y), ("z", z)]) (f.get? key)) :
    f.value d key (vectorType.read {}) {} = .ok ⟨x, y, z⟩ := by
  refine point_read rfl Vector.set stands (by decide : ["x", "y", "z"].Nodup) ?_ ?_ {}
  · simp only [List.forall_mem_cons]
    exact ⟨⟨_, rfl, fun _ => rfl⟩, ⟨_, rfl, fun _ => rfl⟩, ⟨_, rfl, fun _ => rfl⟩, by simp⟩
  · simp [Vector.set]

theorem rotation_read {pitch yaw roll : Binary}
    (stands : Stands W (.point [("pitch", pitch), ("yaw", yaw), ("roll", roll)]) (f.get? key)) :
    f.value d key (rotationType.read {}) {} = .ok ⟨pitch, yaw, roll⟩ := by
  refine point_read rfl Rotation.set stands (by decide : ["pitch", "yaw", "roll"].Nodup) ?_ ?_ {}
  · simp only [List.forall_mem_cons]
    exact ⟨⟨_, rfl, fun _ => rfl⟩, ⟨_, rfl, fun _ => rfl⟩, ⟨_, rfl, fun _ => rfl⟩, by simp⟩
  · simp [Rotation.set]

theorem form?_unknown {code : Opcode} (unknown : code ∉ Opcode.known) : form? code = none := by
  have listed : ∀ entry ∈ forms, entry.1 ∈ Opcode.known := by
    have names : forms.map Prod.fst ⊆ Opcode.known := by decide +kernel
    exact fun entry member => names (List.mem_map_of_mem member)
  refine List.lookup_eq_none_iff.mpr fun entry member => ?_
  rw [bne_iff_ne]
  rintro rfl
  exact unknown (listed entry member)

def layout : Expr → Form
  | .assign _ _ _ => .assign
  | .assignPersistent _ _ => .assignPersistent
  | .localVariable _ => .reference .localVariable
  | .instanceVariable _ => .reference .instanceVariable
  | .defaultVariable _ => .reference .defaultVariable
  | .localOutVariable _ => .reference .localOutVariable
  | .int _ => .int
  | .int64 _ => .int64
  | .byte _ => .byte
  | .float _ => .float
  | .double _ => .double
  | .name _ => .name
  | .string _ _ => .string
  | .text _ => .text
  | .vector _ _ _ => .vector
  | .rotation _ _ _ => .rotation
  | .object _ => .object
  | .struct _ _ => .struct
  | .finalCall _ _ _ => .finalCall
  | .virtualCall _ _ _ => .virtualCall
  | .jump _ => .jump
  | .jumpIfNot _ _ => .jumpIfNot
  | .computedJump _ => .computedJump
  | .pushFlow _ => .pushFlow
  | .popFlowIfNot _ => .popFlowIfNot
  | .ret _ => .ret
  | .context _ _ _ => .context
  | .structMember _ _ => .structMember
  | .interfaceContext _ => .interfaceContext
  | .cast _ _ => .cast
  | .classCast _ _ _ => .classCast
  | e => .bare e

theorem form?_own {e : Expr} (present : e ≠ .missing) (own : Own e)
    (known : ∀ code, e ≠ .unknown code) : form? e.opcode = some (layout e) := by
  cases e with
  | missing => exact absurd rfl present
  | unknown code => exact absurd rfl (known code)
  | truth value => cases value <;> rfl
  | assign | string | finalCall | virtualCall | context | classCast =>
    simp only [Own, List.mem_cons, List.not_mem_nil, or_false] at own
    rcases own with rfl | rfl | rfl | rfl | rfl | rfl <;> rfl
  | _ => rfl

theorem layout_read {sub : Node → Attempt Expr} {e : Expr} (present : e ≠ .missing) (own : Own e)
    (known : ∀ code, e ≠ .unknown code)
    (fields : ∀ cell ∈ row e, Stands (fun x m => sub m = .ok x) cell.2 (f.get? cell.1)) :
    (layout e).read d sub e.opcode f = .ok e := by
  cases e <;> simp only [row, List.forall_mem_cons, List.not_mem_nil, false_implies,
    implies_true, and_true] at fields
  case missing => exact absurd rfl present
  case unknown code => exact absurd rfl (known code)
  case self | nothing | noObject | truth | popFlow | endOfScript => rfl
  case assign | context =>
    refine Outcome.bind_ok (operand_read rfl fields.1) ?_
    exact Outcome.bind_ok (operand_read rfl fields.2) rfl
  case assignPersistent =>
    refine Outcome.bind_ok (property_read rfl fields.1) ?_
    exact Outcome.bind_ok (operand_read rfl fields.2) rfl
  case structMember =>
    refine Outcome.bind_ok (operand_read rfl fields.1) ?_
    exact Outcome.bind_ok (property_read rfl fields.2) rfl
  case localVariable | instanceVariable | defaultVariable | localOutVariable =>
    exact Outcome.bind_ok (property_read rfl fields) rfl
  case int => exact Outcome.bind_ok (int32_read fields) rfl
  case int64 => exact Outcome.bind_ok (int64_read fields) rfl
  case byte => exact Outcome.bind_ok (byte_read fields) rfl
  case float => exact Outcome.bind_ok (single_read fields) rfl
  case double => exact Outcome.bind_ok (double_read fields) rfl
  case name | object => exact Outcome.bind_ok (text_read rfl fields) rfl
  case string =>
    simp only [Own, List.mem_cons, List.not_mem_nil, or_false] at own
    rcases own with rfl | rfl <;> exact Outcome.bind_ok (text_read rfl fields) rfl
  case text | ret => exact Outcome.bind_ok (choice_read rfl fields) rfl
  case vector => exact Outcome.bind_ok (vector_read fields) rfl
  case rotation => exact Outcome.bind_ok (rotation_read fields) rfl
  case struct | virtualCall =>
    refine Outcome.bind_ok (text_read rfl fields.1) ?_
    exact Outcome.bind_ok (list_read rfl fields.2) rfl
  case finalCall =>
    refine Outcome.bind_ok (text_read rfl fields.1) ?_
    refine Outcome.bind_ok (owner_read rfl fields.2.1) ?_
    exact Outcome.bind_ok (list_read rfl fields.2.2) rfl
  case jump | pushFlow => exact Outcome.bind_ok (word_read fields) rfl
  case jumpIfNot =>
    refine Outcome.bind_ok (word_read fields.1) ?_
    exact Outcome.bind_ok (operand_read rfl fields.2) rfl
  case computedJump | popFlowIfNot | interfaceContext =>
    exact Outcome.bind_ok (operand_read rfl fields) rfl
  case cast | classCast =>
    refine Outcome.bind_ok (text_read rfl fields.1) ?_
    exact Outcome.bind_ok (operand_read rfl fields.2) rfl

end Forms

def Content.operands : Content → List Expr
  | operand e => [e]
  | choice e => e.given
  | list es => es
  | _ => []

theorem row_operands (e : Expr) : (row e).flatMap (·.2.operands) = e.operands := by
  cases e <;> simp [row, Content.operands, Expr.operands]

theorem mem_operands {e x : Expr} {cell : String × Content} (member : cell ∈ row e)
    (inside : x ∈ cell.2.operands) : x ∈ e.operands := by
  rw [← row_operands]
  exact List.mem_flatMap.mpr ⟨cell, member, inside⟩

theorem size_of_mem_items {items : List Node} {n : Node} (member : n ∈ items) :
    n.size ≤ Node.sizeItems items := by
  induction items with
  | nil => cases member
  | cons head rest ih =>
    rw [Node.sizeItems]
    rcases List.mem_cons.mp member with rfl | later
    · omega
    · have := ih later
      omega

theorem size_of_under {entries : List (Node × Node)} {key : String} {n : Node}
    (found : under entries key = some n) : n.size ≤ Node.sizeEntries entries := by
  unfold under at found
  induction entries with
  | nil => cases found
  | cons head rest ih =>
    obtain ⟨k, value⟩ := head
    rw [byName, List.map_cons, List.lookup_cons] at found
    rw [Node.sizeEntries]
    split at found
    · obtain rfl : value = n := Option.some.inj found
      omega
    · have := ih found
      omega

/-- What a key holds, by another account of the instructions in it. -/
theorem Stands.imp {W W' : Expr → Node → Prop} {content : Content} {place : Option Node}
    (stands : Stands W content place)
    (below : ∀ n ∈ place, ∀ x ∈ content.operands, ∀ m : Node, m.size ≤ n.size → W x m → W' x m) :
    Stands W' content place := by
  cases stands with
  | text written => exact .text written
  | owner written => exact .owner written
  | integer written => exact .integer written
  | single written narrow => exact .single written narrow
  | double written => exact .double written
  | point order written tag line => exact .point order written tag line
  | property written => exact .property written
  | operand written =>
    exact .operand (below _ rfl _ List.mem_cons_self _ (Nat.le_refl _) written)
  | @choice e n present direct written =>
    have given : e ∈ e.given := by simp [Expr.given_of_present present]
    exact .choice present direct (below n rfl e given n (Nat.le_refl _) written)
  | noChoice => exact .noChoice
  | nullChoice null => exact .nullChoice null
  | @list es items written line =>
    refine .list ?_ line
    have below : ∀ x ∈ es, ∀ m ∈ items, W x m → W' x m := by
      intro x inside m member
      refine below _ rfl x inside m ?_
      have := size_of_mem_items member
      rw [Node.size]
      omega
    rw [List.forall₂_iff_zip] at written ⊢
    refine ⟨written.1, fun pair => ?_⟩
    obtain ⟨inside, member⟩ := List.of_mem_zip pair
    exact below _ inside _ member (written.2 pair)
  | noList => exact .noList
  | nullList null => exact .nullList null

theorem readInstruction_writes {d : Document} {fuel : Nat} {n : Node} {e : Expr} (valid : Valid e)
    (written : Writes e n) (room : n.size ≤ fuel) : readInstruction d fuel n = .ok e := by
  induction fuel generalizing n e with
  | zero =>
    obtain ⟨distinct, fields, line⟩ := written
    rw [Node.size] at room
    omega
  | succ fuel ih =>
    cases written with
    | @mk _ entries distinct fields line =>
    obtain ⟨present, own, below⟩ := valid
    have get := get?_ofEntries distinct
    have named := text_read (d := d) (get "inst") (fields _ List.mem_cons_self)
    -- What stands under a key is smaller than the mapping, so the fuel left is enough for it.
    have parts : ∀ cell ∈ row e, Stands (fun x m => readInstruction d fuel m = .ok x) cell.2
        ((Fields.ofEntries entries).get? cell.1) := by
      intro cell member
      rw [get]
      refine (fields cell (List.mem_cons_of_mem _ member)).imp ?_
      intro n found x inside m small written
      have := size_of_under found
      rw [Node.size] at room
      exact ih (below x (mem_operands member inside)) written (by omega)
    refine Outcome.bind_ok rfl (Outcome.bind_ok (Outcome.mapError_eq_ok.mpr named) ?_)
    dsimp only
    by_cases known : ∀ code, e ≠ .unknown code
    · rw [form?_own present own known]
      exact Outcome.mapError_eq_ok.mpr
        (Outcome.mapError_eq_ok.mpr (layout_read present own known parts))
    · obtain ⟨code, rfl⟩ := not_forall_not.mp known
      rw [show form? (Expr.unknown code).opcode = none from form?_unknown own]
      rfl

theorem instruction_writes {d : Document} {n : Node} {e : Expr} (valid : Valid e)
    (written : Writes e n) (room : n.size ≤ d.extent) : instruction d n = .ok e :=
  readInstruction_writes valid written (by omega)

theorem statement_writes {d : Document} {n : Node} {e : Expr} {offset : UInt32} (valid : Valid e)
    (written : WritesAt offset e n) (room : n.size ≤ d.extent) :
    statement d n = .ok ⟨offset, e⟩ := by
  cases written with
  | @mk tag entries line written m found placed =>
  have expr := instruction_writes valid written room
  obtain ⟨distinct, fields, _⟩ := written
  have stands : Stands Writes (.integer offset.toNat)
      ((Fields.ofEntries entries).get? "offset") := by
    rw [get?_ofEntries distinct, found]
    exact .integer placed
  refine Outcome.bind_ok rfl ?_
  refine Outcome.bind_ok (Outcome.mapError_eq_ok.mpr (word_read stands)) ?_
  exact Outcome.bind_ok expr rfl

end ScriptListing.Dump
