import ScriptListing.Proofs.Yaml.Extent

/-! What is read of a document is part of it. Where no alias stands inside the node that it refers
to, following one leads to a part of the document again. -/
namespace ScriptListing.Yaml

variable {α β : Type} {d : Document}

def Node.isCycle : Node → Bool
  | .cycle _ _ _ => true
  | _ => false

/-- No alias of the document stands inside the node that it refers to. -/
def Document.Straight (d : Document) : Prop :=
  ∀ anchor number line, Node.cycle anchor number line ∉ d.root.all

def Document.Has (d : Document) (n : Node) : Prop := n.all ⊆ d.root.all

namespace Document.Has

variable {n m : Node} {tag : String} {line : Nat}

theorem item {items : List Node} (has : d.Has (.sequence tag items line)) (member : m ∈ items) :
    d.Has m :=
  List.Subset.trans (Node.all_item member) has

theorem entry {entries : List (Node × Node)} {key value : Node}
    (has : d.Has (.mapping tag entries line)) (member : (key, value) ∈ entries) : d.Has value :=
  List.Subset.trans (Node.all_entry member).2 has

theorem aliased {anchor : String} {number : Nat} (has : d.Has (.aliased anchor number m line)) :
    d.Has m :=
  List.Subset.trans (List.subset_cons_self _ _) has

theorem target (straight : d.Straight) (has : d.Has n) : d.Has (d.target n) := by
  cases n with
  | scalar | sequence | mapping => exact has
  | aliased => exact has.aliased
  | cycle => exact absurd (has (Node.mem_all_self _)) (straight _ _ _)

end Document.Has

def Gives (d : Document) (P : α → Prop) (part : Reads α) : Prop :=
  ∀ (t t' : Tally) (a : α), (part.run d).run t = .ok (a, t') → P a

namespace Gives

variable {P : α → Prop} {Q : β → Prop}

theorem pure {a : α} (holds : P a) : Gives d P (pure a) := by
  rintro t t' _ ⟨⟩
  exact holds

theorem any (part : Reads α) : Gives d (fun _ => True) part := fun _ _ _ _ => trivial

theorem context : Gives d (· = d) (ReaderT.read : Reads Document) := by
  rintro t t' _ ⟨⟩
  rfl

theorem lift {step : Except String α} (found : ∀ a, step = .ok a → P a) :
    Gives d P (liftM step) := by
  cases step with
  | error e => exact nofun
  | ok a =>
    rintro t t' _ ⟨⟩
    exact found a rfl

theorem throw (problem : String) : Gives d P (throw problem) := nofun

theorem bind {part : Reads α} {next : α → Reads β} (first : Gives d P part)
    (second : ∀ a, P a → Gives d Q (next a)) : Gives d Q (part >>= next) := by
  intro t t' b found
  rw [ReaderT.run_bind, StateT.run_bind] at found
  obtain ⟨⟨a, middle⟩, step, rest⟩ := Outcome.bind_eq_ok.mp found
  exact second a (first _ _ _ step) _ _ _ rest

theorem mapM {read : α → Reads β} {items : List α} (each : ∀ a ∈ items, Gives d Q (read a)) :
    Gives d (fun found => ∀ b ∈ found, Q b) (items.mapM read) := by
  induction items with
  | nil => exact pure (by simp)
  | cons a rest ih =>
    rw [List.mapM_cons]
    refine bind (each a List.mem_cons_self) fun b head => ?_
    refine bind (ih fun x member => each x (List.mem_cons_of_mem a member)) fun bs tail => ?_
    exact pure (List.forall_mem_cons.mpr ⟨head, tail⟩)

theorem foldlM {step : β → α → Reads β} {items : List α} {b : β} (start : Q b)
    (each : ∀ b, Q b → ∀ a ∈ items, Gives d Q (step b a)) : Gives d Q (items.foldlM step b) := by
  induction items generalizing b with
  | nil => exact pure start
  | cons a rest ih =>
    rw [List.foldlM_cons]
    refine bind (each b start a List.mem_cons_self) fun b' next => ?_
    exact ih next fun b holds x member => each b holds x (List.mem_cons_of_mem a member)

/-- Reading a part of a straight document reads a part of it, behind an alias too. -/
theorem through (straight : d.Straight) {n : Node} (has : d.Has n) {read : Node → Reads α}
    (each : ∀ m, d.Has m → Gives d P (read m)) : Gives d P (Reads.through n read) := by
  cases n with
  | scalar | sequence | mapping => exact bind (any _) fun _ _ => each _ has
  | aliased anchor number target line =>
    unfold Reads.through Reads.follow
    refine bind (any _) fun _ _ => bind (any _) fun t _ => ?_
    have behind : Gives d P (modify (fun t' : Tally => { t' with path := number :: t.path }) >>=
        fun _ => Reads.visit >>= fun _ => read target >>= fun a =>
          modify (fun t' : Tally => { t' with path := t.path }) >>= fun _ =>
            (Pure.pure a : Reads α)) :=
      bind (any _) fun _ _ => bind (any _) fun _ _ => bind (each target has.aliased)
        fun a holds => bind (any _) fun _ _ => pure holds
    dsimp only
    split
    · exact bind (throw (P := fun _ => False) _) fun _ none => none.elim
    · exact behind
  | cycle => exact absurd (has (Node.mem_all_self _)) (straight _ _ _)

end Gives

theorem readNode_gives {n : Node} (has : d.Has n) :
    Gives d (fun r => ∀ m ∈ r.value, d.Has m) (readNode n) :=
  .bind (.any _) fun _ _ => .pure (by simpa [Reading.found] using has)

theorem unfit_gives {P : α → Prop} (type : String) (n : Node) :
    Gives d (fun r : Reading α => ∀ a ∈ r.value, P a) (n.unfit type) := by
  unfold Node.unfit
  split
  · refine .bind (.any _) fun value _ => ?_
    split <;> exact .pure nofun
  · exact .pure nofun
  · exact .pure nofun

theorem readList_gives {P : α → Prop} (straight : d.Straight) {name : String} {item : Reader α}
    (each : ∀ m, d.Has m → Gives d (fun r => ∀ a ∈ r.value, P a) (item m)) {n : Node}
    (has : d.Has n) :
    Gives d (fun r => ∀ list ∈ r.value, ∀ a ∈ list, P a) (readList name item n) := by
  refine .through straight has fun m has => ?_
  split
  · next items _ =>
    refine .bind (.mapM fun k member => each k (has.item member)) fun readings found => .pure ?_
    rintro list ⟨⟩ a member
    obtain ⟨r, listed, value⟩ := List.mem_filterMap.mp member
    exact found r listed a value
  · exact unfit_gives name m

theorem into_gives {R : β → Prop} {P : α → Prop} {read : Reader β} {put : β → α → α} {n : Node}
    {record : α} (found : Gives d (fun r => ∀ b ∈ r.value, R b) (read n))
    (keeps : ∀ b, R b → P (put b record)) (holds : P record) :
    Gives d (fun result => P result.1) (read.into put n record) := by
  refine .bind found fun r values => .pure ?_
  cases value : r.value with
  | none => exact holds
  | some b => exact keeps b (values b value)

theorem into_any {P : α → Prop} {read : Reader β} {put : β → α → α} {n : Node} {record : α}
    (keeps : ∀ b, P (put b record)) (holds : P record) :
    Gives d (fun result => P result.1) (read.into put n record) :=
  into_gives (R := fun _ => True) (fun _ _ _ _ _ _ => trivial) (fun b _ => keeps b) holds

namespace RecordType

variable {type : RecordType α} {P : α → Prop}

def Keeps (d : Document) (P : α → Prop) (type : RecordType α) : Prop :=
  ∀ field ∈ type.fields, ∀ n record, d.Has n → P record →
    Gives d (fun result => P result.1) (field.2 n record)

/-- A record with the property, and what is still to be merged into it is of the document. -/
structure Sound (d : Document) (P : α → Prop) (s : Filling α) : Prop where
  record : P s.record
  merge : ∀ m ∈ s.merge, d.Has m

theorem put_gives (keeps : type.Keeps d P) {s : Filling α} (sound : Sound d P s) (line : Nat)
    (name : String) {value : Node} (has : d.Has value) :
    Gives d (Sound d P) (type.put s line name value) := by
  unfold RecordType.put
  split
  · next field known =>
    split
    · exact .pure ⟨sound.record, sound.merge⟩
    · obtain ⟨before, after, split, _⟩ := List.lookup_eq_some_iff.mp known
      have listed : (name, field) ∈ type.fields := by simp [split]
      refine .bind (keeps _ listed value s.record has sound.record) fun result holds => ?_
      exact .pure ⟨holds, sound.merge⟩
  · split <;> exact .pure ⟨sound.record, sound.merge⟩

theorem entry_gives (keeps : type.Keeps d P) {s : Filling α} (sound : Sound d P s)
    {key value : Node} (has : d.Has value) :
    Gives d (Sound d P) (type.entry s (key, value)) := by
  unfold RecordType.entry
  dsimp only
  split
  · refine .pure ⟨sound.record, ?_⟩
    rintro m ⟨⟩
    exact has
  · refine .bind (.any _) fun reading _ => ?_
    split
    · exact .pure ⟨sound.record, sound.merge⟩
    · split
      · exact .pure ⟨sound.record, sound.merge⟩
      · refine put_gives keeps ?_ _ _ has
        exact ⟨sound.record, sound.merge⟩

theorem taking_gives {s : Filling α} (sound : Sound d P s) (entries : List (Node × Node)) :
    Gives d (Sound d P) (taking s entries) := by
  unfold taking
  split
  · exact .pure sound
  · exact .bind (.any _) fun _ _ => .pure ⟨sound.record, sound.merge⟩

theorem mergeSources_has {n : Node} (has : d.Has n) {sources : List Node}
    (found : mergeSources d n = .ok sources) : ∀ m ∈ sources, d.Has m := by
  unfold mergeSources at found
  split at found
  · split at found
    · cases found
      exact fun m member => has.item member
    · cases found
  · split at found
    · cases found
      simpa using has
    · cases found

theorem fill_gives (straight : d.Straight) (keeps : type.Keeps d P) (fuel : Nat)
    {s : Filling α} (holds : P s.record) {n : Node} (has : d.Has n) :
    Gives d (fun s => P s.record) (type.fill fuel s n) := by
  induction fuel generalizing s n with
  | zero => exact .throw _
  | succ fuel ih =>
    cases n with
    | mapping tag entries line =>
      have filled : Gives d (Sound d P)
          (entries.foldlM type.entry { s with done := [], merge := none }) := by
        refine .foldlM ⟨holds, nofun⟩ fun s sound e member => ?_
        exact entry_gives keeps sound (has.entry member)
      rw [fill]
      split
      · exact .pure holds
      · refine .bind filled fun s sound => ?_
        split
        · exact .pure sound.record
        · next value merged =>
          refine .bind (taking_gives sound entries) fun s' sound' => ?_
          refine .bind .context fun d' same => ?_
          subst same
          refine .bind (.lift fun _ => mergeSources_has (sound.merge value merged)) ?_
          intro found inside
          refine .foldlM sound'.record fun s holds m member => ?_
          exact .through straight (inside m member) fun k has => ih holds has
    | _ => exact .bind (.any _) fun _ _ => .pure holds

theorem read_gives (straight : d.Straight) (keeps : type.Keeps d P) {start : α} (holds : P start)
    {n : Node} (has : d.Has n) :
    Gives d (fun r => ∀ a ∈ r.value, P a) (type.read start n) := by
  refine .through straight has fun m has => ?_
  unfold readHere
  split
  · refine .bind (.any _) fun _ _ => .bind (fill_gives straight keeps _ holds has) ?_
    rintro s found
    refine .pure ?_
    rintro a ⟨⟩
    exact found
  · exact unfit_gives _ _

end RecordType

end ScriptListing.Yaml
