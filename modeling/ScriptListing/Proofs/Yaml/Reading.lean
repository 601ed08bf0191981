import ScriptListing.Proofs.Outcome
import ScriptListing.Yaml.Record

/-! Readings that succeed. A tree without aliases is never little but aliases, so reading it
fails only where a node does not fit. -/
namespace ScriptListing.Yaml

variable {α β : Type} {d : Document}

structure Tally.Direct (t : Tally) : Prop where
  path : t.path = []
  aliased : t.aliased = 0

theorem Tally.Direct.visit {t : Tally} (direct : t.Direct) : t.visit.Direct := by
  obtain ⟨path, aliased⟩ := direct
  exact ⟨path, by simp [Tally.visit, path, aliased]⟩

theorem Tally.Direct.not_excessive {t : Tally} (direct : t.Direct) : t.isExcessive = false := by
  simp [Tally.isExcessive, direct.aliased]

/-- A part of a reading that gives `a` and follows no alias. -/
def Yields (d : Document) (part : Reads α) (a : α) : Prop :=
  ∀ t : Tally, t.Direct → ∃ t' : Tally, t'.Direct ∧ (part.run d).run t = .ok (a, t')

namespace Yields

theorem pure (a : α) : Yields d (pure a) a := fun t direct => ⟨t, direct, rfl⟩

theorem bind {part : Reads α} {next : α → Reads β} {a : α} {b : β} (first : Yields d part a)
    (second : Yields d (next a) b) : Yields d (part >>= next) b := by
  intro t direct
  obtain ⟨t', direct', step⟩ := first t direct
  obtain ⟨t'', direct'', step'⟩ := second t' direct'
  refine ⟨t'', direct'', ?_⟩
  rw [ReaderT.run_bind, StateT.run_bind, step]
  exact step'

theorem lift {step : Except String α} {a : α} (found : step = .ok a) :
    Yields d (liftM step) a := by
  subst found
  exact fun t direct => ⟨t, direct, rfl⟩

theorem visit : Yields d Reads.visit () := by
  intro t direct
  refine ⟨t.visit, direct.visit, ?_⟩
  unfold Reads.visit
  rw [ReaderT.run_bind, StateT.run_bind]
  refine Outcome.bind_eq_ok.mpr ⟨(t, t), rfl, ?_⟩
  dsimp only
  rw [direct.visit.not_excessive]
  rfl

theorem mapM {read : α → Reads β} {items : List α} {found : List β}
    (each : List.Forall₂ (fun x y => Yields d (read x) y) items found) :
    Yields d (items.mapM read) found := by
  induction each with
  | nil => exact pure []
  | cons head _ ih =>
    rw [List.mapM_cons]
    exact bind head (bind ih (pure _))

theorem through {n : Node} {read : Node → Reads α} {a : α} (direct : n.kind ≠ .aliased)
    (found : Yields d (read n) a) : Yields d (Reads.through n read) a := by
  cases n with
  | scalar | sequence | mapping => exact bind visit found
  | aliased | cycle => exact absurd rfl direct

theorem run {read : Reader α} {n : Node} {a : α} (found : Yields d (read n) (.found a))
    (start : α) : read.run start d n = .ok a := by
  obtain ⟨t, _, step⟩ := found {} ⟨rfl, rfl⟩
  simp [Reader.run, Reader.runAfter, step, Reading.found]

end Yields

inductive Denotes (value : Scalar) : Node → Prop where
  | mk {tag source : String} (resolved : scalarOf tag source = .ok value) (line : Nat) :
      Denotes value (.scalar tag source line)

theorem ScalarType.read_scalar {type : ScalarType α} {value : Scalar} {tag source : String}
    {a : α} (resolved : scalarOf tag source = .ok value) (given : value ≠ .null)
    (accepted : type.accept value source = some a) (line : Nat) :
    Yields d (type.read (.scalar tag source line)) (.found a) := by
  apply Yields.through (by simp [Node.kind])
  apply Yields.bind (Yields.lift resolved)
  cases value with
  | null => exact absurd rfl given
  | _ =>
    simp only [accepted]
    exact Yields.pure _

theorem ScalarType.read_null {type : ScalarType α} {tag source : String}
    (resolved : scalarOf tag source = .ok .null) (line : Nat) :
    Yields d (type.read (.scalar tag source line)) {} := by
  apply Yields.through (by simp [Node.kind])
  exact Yields.bind (Yields.lift resolved) (Yields.pure _)

theorem ScalarType.read_yields {type : ScalarType α} {value : Scalar} {n : Node} {a : α}
    (written : Denotes value n) (given : value ≠ .null)
    (accepted : ∀ source, type.accept value source = some a) :
    Yields d (type.read n) (.found a) := by
  obtain ⟨resolved, line⟩ := written
  exact read_scalar resolved given (accepted _) line

theorem readText_yields {text : String} {n : Node} (written : Denotes (.text text) n) :
    Yields d (ScalarType.text.read n) (.found text) :=
  ScalarType.read_yields written (by simp) fun _ => rfl

/-- A sequence of items that each give a value. -/
theorem readList_yields {name : String} {item : Reader α} {found : List α} {tag : String}
    {items : List Node} {line : Nat}
    (each : List.Forall₂ (fun n a => Yields d (item n) (.found a)) items found) :
    Yields d (readList name item (.sequence tag items line)) (.found found) := by
  unfold readList
  apply Yields.through (by simp [Node.kind])
  have readings : List.Forall₂ (fun n reading => Yields d (item n) reading) items
      (found.map Reading.found) :=
    List.forall₂_map_right_iff.mpr each
  have values : (found.map Reading.found).filterMap Reading.value = found := by
    simp [List.filterMap_map, Function.comp_def, Reading.found]
  have fits : (found.map Reading.found).flatMap Reading.mismatches = [] := by
    simp [List.flatMap_map, Reading.found]
  apply Yields.bind (Yields.mapM readings)
  rw [values, fits]
  exact Yields.pure _

theorem readTexts_yields {texts : List String} {tag : String} {items : List Node} {line : Nat}
    (written : List.Forall₂ (fun text => Denotes (.text text)) texts items) :
    Yields d (readTexts (.sequence tag items line)) (.found texts) :=
  readList_yields (written.imp fun _ _ => readText_yields).flip

def IsKey (name : String) (n : Node) : Prop := ∃ line, n = .scalar "!!str" name line

instance (name : String) : DecidablePred (IsKey name)
  | .scalar tag source _ => decidable_of_iff (tag = "!!str" ∧ source = name) <| by simp [IsKey]
  | .sequence .. | .mapping .. | .aliased .. | .cycle .. => isFalse fun ⟨_, same⟩ => by cases same

theorem repeatedKeys_nil {names : List String} {entries : List (Node × Node)}
    (keys : List.Forall₂ (fun name entry => IsKey name entry.1) names entries)
    (distinct : names.Nodup) : repeatedKeys entries = [] := by
  induction keys with
  | nil => rfl
  | @cons name entry names entries head tail ih =>
    obtain ⟨key, value⟩ := entry
    obtain ⟨line, rfl⟩ := head
    obtain ⟨fresh, distinct⟩ := List.nodup_cons.mp distinct
    have others : ∀ later ∈ entries, later.1.value ≠ name := by
      intro later member equal
      obtain ⟨other, listed, line', key⟩ := Outcome.forall₂_mem tail member
      rw [key] at equal
      exact fresh (equal ▸ listed)
    rw [repeatedKeys, ih distinct, List.append_nil, List.filterMap_eq_nil_iff]
    intro later member
    exact if_neg fun same => others later member same.2

namespace RecordType

variable {type : RecordType α}

theorem entry_yields {s : Filling α} {name : String} {entry : Node × Node}
    {field : FieldReader α} {record : α} (key : IsKey name entry.1) (untaken : s.taken = none)
    (unset : name ∉ s.done) (known : type.fields.lookup name = some field)
    (found : Yields d (field entry.2 s.record) (record, [])) :
    Yields d (type.entry s entry) { s with record, done := name :: s.done } := by
  obtain ⟨key', value⟩ := entry
  obtain ⟨line, rfl⟩ := key
  have noMerge : (Node.scalar "!!str" name line).isMerge = false := by simp [Node.isMerge]
  obtain ⟨current, taken, done, merge, mismatches⟩ := s
  subst untaken
  simp only [RecordType.entry, noMerge, Bool.false_eq_true, if_false]
  apply Yields.bind (readText_yields (.mk rfl line))
  simp only [Reading.found, Option.any_none, Bool.false_eq_true, if_false, RecordType.put, known,
    List.contains_eq_mem, unset, decide_false, Option.map_none, List.append_nil]
  apply Yields.bind found
  simp only [List.append_nil]
  exact Yields.pure _

variable {parts : List (String × β)} {entries : List (Node × Node)} {Written : β → Node → Prop}
  {step : α → String × β → α}
  (written : List.Forall₂ (fun part entry => IsKey part.1 entry.1 ∧ Written part.2 entry.2)
    parts entries)
  (fields : ∀ part ∈ parts, ∃ field, type.fields.lookup part.1 = some field ∧
    ∀ n record, Written part.2 n → Yields d (field n record) (step record part, []))
  (distinct : (parts.map Prod.fst).Nodup)

include written fields distinct

theorem fold_yields (s : Filling α) (untaken : s.taken = none)
    (unset : ∀ part ∈ parts, part.1 ∉ s.done) :
    ∃ done, Yields d (entries.foldlM type.entry s)
      { s with record := parts.foldl step s.record, done } := by
  induction written generalizing s with
  | nil => exact ⟨s.done, Yields.pure s⟩
  | @cons part entry parts entries head _ ih =>
    obtain ⟨key, value⟩ := head
    obtain ⟨fresh, distinct⟩ := List.nodup_cons.mp distinct
    obtain ⟨field, known, reads⟩ := fields part List.mem_cons_self
    have first := entry_yields key untaken (unset part List.mem_cons_self) known
      (reads entry.2 s.record value)
    have later : ∀ other ∈ parts, other.1 ∉ part.1 :: s.done := by
      intro other member
      have earlier := unset other (List.mem_cons_of_mem _ member)
      have differs : other.1 ≠ part.1 := by
        intro equal
        exact fresh (equal ▸ List.mem_map_of_mem member)
      simp [differs, earlier]
    obtain ⟨done, rest⟩ := ih (fun other member => fields other (List.mem_cons_of_mem _ member))
      distinct { s with record := step s.record part, done := part.1 :: s.done } untaken later
    refine ⟨done, ?_⟩
    rw [List.foldlM_cons]
    exact Yields.bind first rest

/-- A mapping whose entries are fields of a record, each once, fills the record. -/
theorem read_yields (start : α) (tag : String) (line : Nat) :
    Yields d (type.read start (.mapping tag entries line)) (.found (parts.foldl step start)) := by
  have keys : List.Forall₂ (fun name entry => IsKey name entry.1) (parts.map Prod.fst) entries :=
    List.forall₂_map_left_iff.mpr (written.imp fun _ _ both => both.1)
  obtain ⟨done, filled⟩ := fold_yields written fields distinct
    { record := start, taken := none } rfl (by simp)
  have fill : Yields d (type.fill (d.extent + 1) { record := start, taken := none }
      (.mapping tag entries line))
      { record := parts.foldl step start, taken := none, done } := by
    simp only [RecordType.fill, repeatedKeys_nil keys distinct, List.isEmpty_nil, Bool.not_true,
      Bool.false_eq_true, if_false]
    exact Yields.bind filled (Yields.pure _)
  have context : Yields d (ReaderT.read : Reads Document) d := fun t direct => ⟨t, direct, rfl⟩
  unfold RecordType.read
  apply Yields.through (by simp [Node.kind])
  apply Yields.bind context
  exact Yields.bind fill (Yields.pure _)

end RecordType

end ScriptListing.Yaml
