import Mathlib.Data.List.Nodup
import ScriptListing.Proofs.Label
import ScriptListing.Proofs.Listing.Transcript

/-! Jumps and label lines. A statement has a label line exactly when some instruction of the
class jumps to it, and in a listing without faults every jump to a statement finds its label:
one, where names and offsets are not shared. -/
namespace ScriptListing.Listing

def Listed (s : Scope) (e : Expr) : Prop := ∃ w next, s.statement w e = .ok next

theorem listed_iff {s : Scope} {e : Expr} : Listed s e ↔ ∃ lines, s.lines e = .ok lines := by
  constructor
  · rintro ⟨w, next, written⟩
    rw [Scope.statement_eq_lines] at written
    obtain ⟨lines, found, _⟩ := Outcome.map_eq_ok.mp written
    exact ⟨lines, found⟩
  · rintro ⟨lines, found⟩
    exact ⟨{}, _, by rw [Scope.statement_eq_lines, found]; rfl⟩

/-- A statement that is reached has an entry at its own place. -/
theorem entries_getElem {s : Scope} {labels : LabelTable} {script : List Statement} {i : Nat}
    {st : Statement} (at' : script[i]? = some st)
    (reached : ∀ earlier ∈ script.take i, Listed s earlier.expr) :
    (entries s labels script)[i]? = some (entry s labels st) := by
  induction script generalizing i with
  | nil => simp at at'
  | cons head rest ih =>
    cases i with
    | zero =>
      obtain rfl : head = st := by simpa using at'
      unfold entries
      split <;> rfl
    | succ i =>
      obtain ⟨lines, found⟩ := listed_iff.mp (reached head (by simp))
      simp only [entries, found, List.getElem?_cons_succ]
      apply ih (by simpa using at')
      intro earlier member
      exact reached earlier (by simp [member])

/-- Without a stop every statement of the script is listed. -/
theorem entries_eq_map {s : Scope} {labels : LabelTable} {script : List Statement}
    (whole : (entries s labels script).findSome? Entry.stop? = none) :
    entries s labels script = script.map (entry s labels) ∧
      ∀ st ∈ script, Listed s st.expr := by
  induction script with
  | nil => simp [entries]
  | cons st rest ih =>
    unfold entries at whole ⊢
    cases found : s.lines st.expr with
    | error obstacle => simp [found, Entry.stop?, entry] at whole
    | ok lines =>
      simp only [found, List.findSome?_cons, entry, Entry.stop?] at whole
      obtain ⟨others, listed⟩ := ih whole
      refine ⟨by simp [others], ?_⟩
      intro x member
      rcases List.mem_cons.mp member with rfl | later
      · exact listed_iff.mpr ⟨lines, found⟩
      · exact listed x later

/-- The entry has a line that jumps to a place by the name of its label. -/
def Entry.JumpsTo (e : Entry) (name : String) (offset : UInt32) : Prop :=
  ∃ lines l, e.outcome = .ok lines ∧ l ∈ lines ∧
    ∀ depth, l.text depth =
      Writer.lineText (depth + l.inset) ("goto " ++ Label.name name offset ++ ";")

theorem jumpsTo_of_gotos {e : Entry} {name : String} {offset : UInt32}
    (jumps : (name, offset) ∈ e.gotos) : e.JumpsTo name offset := by
  unfold Entry.gotos at jumps
  split at jumps
  · next lines listed =>
    obtain ⟨l, member, told⟩ := List.mem_filterMap.mp jumps
    refine ⟨lines, l, listed, member, fun depth => ?_⟩
    split at told
    · next function offset' spelled =>
      cases told
      rw [Line.text, spelled, Phrase.text]
    · cases told
  · cases jumps

/-- The jumps among the lines of an instruction are what the label search finds in it. -/
theorem entry_gotos {s : Scope} {labels : LabelTable} {st : Statement}
    (listed : Listed s st.expr) :
    (entry s labels st).gotos = (Label.target? s.function.name st.expr).toList := by
  obtain ⟨lines, found⟩ := listed_iff.mp listed
  simp only [Entry.gotos, entry, found]
  cases e : st.expr
  case missing => simp [e, Scope.lines] at found
  case ret value =>
    simp only [e, Scope.lines] at found
    split at found
    · cases found; rfl
    · obtain ⟨result, _, rfl⟩ := Outcome.map_eq_ok.mp found
      rfl
  case finalCall code function arguments =>
    simp only [e, Scope.lines] at found
    cases entered : Label.dispatchTarget? function arguments with
    | some offset =>
      simp only [entered, Except.ok.injEq] at found
      subst found
      simp [Label.target?, entered]
    | none =>
      simp only [entered] at found
      obtain ⟨content, _, rfl⟩ := Outcome.map_eq_ok.mp found
      simp [Label.target?, entered]
  case jump | popFlow | pushFlow | endOfScript | unknown =>
    simp only [e, Scope.lines, Except.ok.injEq] at found
    subst found
    rfl
  all_goals
    simp only [e, Scope.lines, Scope.singleLine, Scope.guardedLines] at found
    obtain ⟨content, _, rfl⟩ := Outcome.map_eq_ok.mp found
    rfl

theorem block_eq_ok {table : Option SymbolTable} {c : Class} {labels : LabelTable}
    {f : Function} {b : Block} (told : block table c labels f = .ok b) :
    b.function = f ∧ b.entries = entries ⟨table, c, f⟩ labels f.script := by
  obtain ⟨head, _, rfl⟩ := Outcome.map_eq_ok.mp told
  exact ⟨rfl, rfl⟩

/-- The label lines of a function that is listed whole. -/
def labelTexts (labels : LabelTable) (f : Function) : List String :=
  (f.script.filter fun st => labels.has f.name st.offset).map fun st => Label.name f.name st.offset

theorem block_labels {table : Option SymbolTable} {c : Class} {labels : LabelTable}
    {f : Function} {b : Block} (told : block table c labels f = .ok b)
    (whole : b.fault? c = none) : b.labels = labelTexts labels f := by
  obtain ⟨function, found⟩ := block_eq_ok told
  simp only [Block.fault?, Option.map_eq_none_iff] at whole
  rw [found] at whole
  rw [Block.labels, labelTexts, function, found, (entries_eq_map whole).1, List.filter_map,
    List.map_map]
  rfl

theorem block_gotos {table : Option SymbolTable} {c : Class} {labels : LabelTable}
    {f : Function} {b : Block} (told : block table c labels f = .ok b)
    (whole : b.fault? c = none) : b.entries.flatMap Entry.gotos = Label.targets f := by
  obtain ⟨_, found⟩ := block_eq_ok told
  simp only [Block.fault?, Option.map_eq_none_iff] at whole
  rw [found] at whole ⊢
  obtain ⟨all, listed⟩ := entries_eq_map whole
  rw [all, List.flatMap_map, Label.targets, List.filterMap_eq_flatMap_toList]
  exact List.flatMap_congr fun st member => entry_gotos (listed st member)

/-- Items that stand for others one by one give the same list, if each gives the same part
of it. -/
theorem flatMap_of_forall₂ {α β γ : Type} {R : β → γ → Prop} {part : γ → List α}
    {part' : β → List α} {items : List β} {found : List γ} (related : List.Forall₂ R items found)
    (same : ∀ b c, c ∈ found → R b c → part c = part' b) :
    found.flatMap part = items.flatMap part' := by
  induction related with
  | nil => rfl
  | @cons b c items found first _ ih =>
    rw [List.flatMap_cons, List.flatMap_cons, same b c (by simp) first,
      ih fun b c member => same b c (by simp [member])]

theorem transcript_labels {table : Option SymbolTable} {c : Class} {t : Transcript}
    (told : transcript table c = .ok t) (whole : t.faults c = []) :
    t.labels = c.functions.flatMap (labelTexts (Label.discover c)) :=
  flatMap_of_forall₂ (blocks_of_transcript told) fun _ b member told =>
    block_labels told (List.filterMap_eq_nil_iff.mp whole b member)

theorem transcript_gotos {table : Option SymbolTable} {c : Class} {t : Transcript}
    (told : transcript table c = .ok t) (whole : t.faults c = []) :
    t.gotos = c.functions.flatMap Label.targets :=
  flatMap_of_forall₂ (blocks_of_transcript told) fun _ b member told =>
    block_gotos told (List.filterMap_eq_nil_iff.mp whole b member)

def HasStatement (c : Class) (name : String) (offset : UInt32) : Prop :=
  ∃ g ∈ c.functions, g.name = name ∧ ∃ st ∈ g.script, st.offset = offset

/-- A place that is jumped to has its label line where there is a statement at all. -/
theorem mem_labelTexts_iff {c : Class} {name : String} {offset : UInt32}
    (targeted : (Label.discover c).has name offset = true) :
    Label.name name offset ∈ c.functions.flatMap (labelTexts (Label.discover c)) ↔
      HasStatement c name offset := by
  simp only [List.mem_flatMap, labelTexts, List.mem_map, List.mem_filter]
  constructor
  · rintro ⟨g, member, st, ⟨inside, _⟩, same⟩
    obtain ⟨names, offsets⟩ := Label.name_injective same
    exact ⟨g, member, names, st, inside, offsets⟩
  · rintro ⟨g, member, rfl, st, inside, rfl⟩
    exact ⟨g, member, st, ⟨inside, targeted⟩, rfl⟩

/-- No label line comes twice where neither names nor offsets do. -/
theorem labelTexts_nodup {c : Class} {labels : LabelTable}
    (names : (c.functions.map Function.name).Nodup)
    (offsets : ∀ g ∈ c.functions, (g.script.map Statement.offset).Nodup) :
    (c.functions.flatMap (labelTexts labels)).Nodup := by
  refine List.nodup_flatMap.mpr ⟨fun g member => ?_, ?_⟩
  · -- Inside a function labels differ in their offsets.
    have distinct := (offsets g member).sublist
      ((List.filter_sublist (p := fun st => labels.has g.name st.offset)).map Statement.offset)
    have texts : labelTexts labels g =
        ((g.script.filter fun st => labels.has g.name st.offset).map Statement.offset).map
          (Label.name g.name) := by
      simp [labelTexts]
    rw [texts]
    exact distinct.map fun _ _ same => (Label.name_injective same).2
  · -- Labels of two functions differ in their names.
    have apart := List.pairwise_map.mp names
    refine apart.imp fun {f g} differ => ?_
    intro text inF inG
    obtain ⟨st, _, rfl⟩ := List.mem_map.mp inF
    obtain ⟨st', _, same⟩ := List.mem_map.mp inG
    exact differ (Label.name_injective same).1.symm

/-- Label lines and jumps agree over a whole class. A statement that is reached is labelled
exactly when an instruction of the class jumps to it, and where it jumps itself it says so by the
name of the label; and in a listing without faults the label a jump names is there when there is a
statement at its target, just once when neither function names nor the offsets of a function are
shared. -/
theorem labels_agree_with_jumps (table : Option SymbolTable) (w : Writer) (c : Class)
    (r : Result) (rendered : render table w c = .ok r) :
    ∃ t, transcript table c = .ok t ∧ r.text = w.text ++ t.text w.depth ∧
      r.faults = t.faults c ∧
      (∀ (k : Nat) (f : Function) (i : Nat) (st : Statement), c.functions[k]? = some f →
        f.script[i]? = some st →
        (∀ earlier ∈ f.script.take i, Listed ⟨table, c, f⟩ earlier.expr) →
        ∃ (b : Block) (e : Entry), t.blocks[k]? = some b ∧ b.function = f ∧ b.entries[i]? = some e ∧
          e.statement = st ∧
          (e.labelled = true ↔ ∃ g ∈ c.functions, ∃ other ∈ g.script,
            Label.Targets f.name st.offset g.name other.expr) ∧
          (Listed ⟨table, c, f⟩ st.expr → ∀ name offset,
            ((name, offset) ∈ e.gotos ↔ Label.Targets name offset f.name st.expr))) ∧
      (∀ b ∈ t.blocks, ∀ e ∈ b.entries, ∀ name offset, (name, offset) ∈ e.gotos →
        e.JumpsTo name offset) ∧
      (r.faults = [] → ∀ name offset, (name, offset) ∈ t.gotos →
        (0 < t.labels.count (Label.name name offset) ↔ HasStatement c name offset) ∧
        ((c.functions.map Function.name).Nodup →
          (∀ g ∈ c.functions, (g.script.map Statement.offset).Nodup) →
          (t.labels.count (Label.name name offset) = 1 ↔ HasStatement c name offset))) := by
  obtain ⟨t, told, text, faults⟩ := transcript_of_render rendered
  refine ⟨t, told, text, faults, ?_, fun _ _ e _ name offset jumps => jumpsTo_of_gotos jumps, ?_⟩
  · intro k f i st atK atI reached
    obtain ⟨b, found, one⟩ := Outcome.forall₂_getElem (blocks_of_transcript told) atK
    obtain ⟨function, inside⟩ := block_eq_ok one
    refine ⟨b, entry ⟨table, c, f⟩ (Label.discover c) st, found, function, ?_, rfl,
      Label.has_discover_iff, fun listed name offset => ?_⟩
    · rw [inside]
      exact entries_getElem atI reached
    · rw [entry_gotos listed, Option.mem_toList]
      exact Label.target_eq_some_iff
  · intro none name offset jumps
    rw [faults] at none
    have targeted : (Label.discover c).has name offset = true := by
      rw [transcript_gotos told none] at jumps
      exact (LabelTable.has_foldl_add _ _ _ _).mpr (.inl jumps)
    rw [transcript_labels told none]
    refine ⟨?_, fun names offsets => ?_⟩
    · rw [List.count_pos_iff]
      exact mem_labelTexts_iff targeted
    · rw [← mem_labelTexts_iff targeted]
      exact ⟨fun one => List.count_pos_iff.mp (by omega),
        List.count_eq_one_of_mem (labelTexts_nodup names offsets)⟩

/-- An event that enters the event graph of its class at an offset. -/
def dispatching : Class where
  name := "Door_C"
  functions := [
    ⟨"Open", "Door_C", [], [
      ⟨0, .finalCall .localFinalFunction ⟨"ExecuteUbergraph_Door", "Door_C"⟩ [.int 16]⟩]⟩,
    ⟨"ExecuteUbergraph_Door", "Door_C", [], [⟨16, .ret .nothing⟩]⟩]

theorem dispatching_rendered : ∃ r, render none {} dispatching = .ok r ∧ r.faults = [] :=
  ⟨_, rfl, rfl⟩

/-- The event jumps to the one label, which stands in the other function, and names it. -/
theorem labels_agree_with_jumps_dispatching :
    Label.name "ExecuteUbergraph_Door" 16 = "ExecuteUbergraph_Door_10" ∧
    ∃ (r : Result) (t : Transcript) (b : Block) (e : Entry),
      render none {} dispatching = .ok r ∧ transcript none dispatching = .ok t ∧
      t.blocks[1]? = some b ∧ b.entries[0]? = some e ∧ e.labelled = true ∧
      ("ExecuteUbergraph_Door", 16) ∈ t.gotos ∧
      (∃ b ∈ t.blocks, ∃ e ∈ b.entries, e.JumpsTo "ExecuteUbergraph_Door" 16) ∧
      t.labels.count (Label.name "ExecuteUbergraph_Door" 16) = 1 := by
  refine ⟨by decide +kernel, ?_⟩
  obtain ⟨r, rendered, whole⟩ := dispatching_rendered
  obtain ⟨t, told, _, faults, reached, spelled, agree⟩ :=
    labels_agree_with_jumps none {} dispatching r rendered
  obtain ⟨b, e, atK, _, atI, _, labelled, _⟩ := reached 1 _ 0 _ rfl rfl (by simp)
  have jumps : ("ExecuteUbergraph_Door", 16) ∈ t.gotos := by
    rw [transcript_gotos told (faults ▸ whole)]
    decide +kernel
  have statement : HasStatement dispatching "ExecuteUbergraph_Door" 16 :=
    ⟨_, List.mem_of_getElem? (i := 1) rfl, rfl, _, List.mem_of_getElem? (i := 0) rfl, rfl⟩
  refine ⟨r, t, b, e, rendered, told, atK, atI, ?_, jumps, ?_, ?_⟩
  · refine labelled.mpr ⟨_, List.mem_of_getElem? (i := 0) rfl, _,
      List.mem_of_getElem? (i := 0) rfl, ?_⟩
    exact .dispatch (by decide +kernel) (by decide)
  · obtain ⟨b, inside, within⟩ := List.mem_flatMap.mp jumps
    obtain ⟨e, member, here⟩ := List.mem_flatMap.mp within
    exact ⟨b, inside, e, member, spelled b inside e member _ _ here⟩
  · exact ((agree whole _ _ jumps).2 (by decide) (by decide)).mpr statement

end ScriptListing.Listing
