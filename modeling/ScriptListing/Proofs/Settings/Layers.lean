import ScriptListing.Proofs.Settings.Key

/-! Settings laid over each other, any number of them. Each field is the one that was given
last. A number of workers counts as given if it is positive, so one below zero is passed over
where any other field would stand. -/
namespace ScriptListing.Settings

/-- The last of the values that count, and the earlier one where none does. -/
def latest {α : Type} (counts : α → Bool) (earlier : α) (values : List α) : α :=
  (values.filter counts).getLastD earlier

/-- Every field is the last one given by the layers; `counts` tells which numbers of workers
count as given. -/
structure Overlaid (counts : Int → Bool) (start : Settings) (layers : List Settings)
    (s : Settings) : Prop where
  archive : s.archive = latest (· ≠ "") start.archive (layers.map (·.archive))
  key : s.key = latest (· ≠ "") start.key (layers.map (·.key))
  mappings : s.mappings = latest (· ≠ "") start.mappings (layers.map (·.mappings))
  objects : s.objects = latest (· ≠ []) start.objects (layers.map (·.objects))
  output : s.output = latest (· ≠ "") start.output (layers.map (·.output))
  workers : s.workers = latest counts start.workers (layers.map (·.workers))
  verbose : s.verbose = latest (· = true) start.verbose (layers.map (·.verbose))

section Latest

variable {α : Type} {counts : α → Bool} {earlier value : α} {values : List α}

theorem latest_concat (counts : α → Bool) (earlier value : α) (values : List α) :
    latest counts earlier (values ++ [value]) =
      if counts value then value else latest counts earlier values := by
  unfold latest
  rw [List.filter_append, List.filter_singleton]
  by_cases given : counts value = true
  · simp [given]
  · simp [given]

theorem latest_none (none : ∀ value ∈ values, counts value = false) :
    latest counts earlier values = earlier := by
  have empty : values.filter counts = [] := by simpa using none
  rw [latest, empty, List.getLastD_nil]

theorem latest_some (member : value ∈ values) (given : counts value = true) :
    counts (latest counts earlier values) = true := by
  induction values using List.reverseRecOn with
  | nil => cases member
  | append_singleton rest last ih =>
    rw [latest_concat]
    split_ifs with given'
    · exact given'
    · rcases List.mem_append.mp member with inside | here
      · exact ih inside
      · exact absurd (List.mem_singleton.mp here ▸ given) given'

/-- Unless the last number given is negative, the last positive one is the last one given. -/
theorem latest_positive {earlier : Int} {values : List Int}
    (given : 0 ≤ latest (· ≠ 0) 0 values) :
    latest (0 < ·) earlier values = latest (· ≠ 0) earlier values := by
  -- From the end: zeros count on neither side, and the first other number decides both.
  induction values using List.reverseRecOn with
  | nil => rfl
  | append_singleton rest last ih =>
    rw [latest_concat] at given
    rw [latest_concat, latest_concat]
    by_cases zero : last = 0
    · subst zero
      exact ih given
    · have nonzero : decide (last ≠ 0) = true := decide_eq_true zero
      rw [if_pos nonzero] at given
      rw [if_pos nonzero, if_pos (decide_eq_true (by omega))]

/-- A field that one layer overlays where it counts is overlaid by all of them. -/
theorem foldl_latest (counts : α → Bool) (field : Settings → α)
    (step : ∀ a b : Settings, field (a.merge b) = if counts (field b) then field b else field a)
    (start : Settings) (layers : List Settings) :
    field (layers.foldl merge start) = latest counts (field start) (layers.map field) := by
  induction layers using List.reverseRecOn with
  | nil => rfl
  | append_singleton rest last ih =>
    rw [List.foldl_concat, step, List.map_append, List.map_singleton, latest_concat, ih]

end Latest

theorem foldl_text (field : Settings → String)
    (step : ∀ a b : Settings, field (a.merge b) = orText (field a) (field b))
    (start : Settings) (layers : List Settings) :
    field (layers.foldl merge start) = latest (· ≠ "") (field start) (layers.map field) := by
  refine foldl_latest _ field (fun a b => ?_) start layers
  rw [step, orText]
  by_cases empty : field b = "" <;> simp [empty]

theorem orText_assoc (a b c : String) : orText (orText a b) c = orText a (orText b c) := by
  by_cases empty : c = "" <;> simp [orText, empty]

theorem merge_assoc (a b c : Settings) : (a.merge b).merge c = a.merge (b.merge c) := by
  simp only [merge, orText_assoc, Bool.or_assoc, mk.injEq, true_and, and_true]
  constructor
  · by_cases empty : c.objects = [] <;> simp [empty]
  · by_cases positive : 0 < c.workers <;> simp [positive]

/-- Settings without a value change nothing. -/
theorem merge_empty (s : Settings) : s.merge {} = s := by
  simp [merge, orText]

theorem foldl_overlaid (start : Settings) (layers : List Settings) :
    Overlaid (0 < ·) start layers (layers.foldl merge start) := by
  constructor
  · exact foldl_text (·.archive) (fun _ _ => rfl) start layers
  · exact foldl_text (·.key) (fun _ _ => rfl) start layers
  · exact foldl_text (·.mappings) (fun _ _ => rfl) start layers
  · refine foldl_latest _ (·.objects) (fun a b => ?_) start layers
    cases given : b.objects <;> simp [merge, given]
  · exact foldl_text (·.output) (fun _ _ => rfl) start layers
  · refine foldl_latest _ (·.workers) (fun a b => ?_) start layers
    simp [merge]
  · refine foldl_latest _ (·.verbose) (fun a b => ?_) start layers
    cases given : b.verbose <;> simp [merge, given]

/-- The number of workers stays the first one until a layer has a positive one. -/
theorem workers_foldl (start : Settings) (layers : List Settings) :
    ((∀ layer ∈ layers, layer.workers ≤ 0) ∧
      (layers.foldl merge start).workers = start.workers) ∨
    ((∃ layer ∈ layers, 0 < layer.workers) ∧ 0 < (layers.foldl merge start).workers) := by
  rw [(foldl_overlaid start layers).workers]
  by_cases idle : ∀ layer ∈ layers, layer.workers ≤ 0
  · refine .inl ⟨idle, latest_none ?_⟩
    simpa using idle
  · obtain ⟨layer, member, positive⟩ : ∃ layer ∈ layers, 0 < layer.workers := by
      simpa using idle
    have listed : layer.workers ∈ layers.map (·.workers) := List.mem_map_of_mem member
    have last := @latest_some Int (0 < ·) start.workers _ _ listed (decide_eq_true positive)
    exact .inr ⟨⟨layer, member, positive⟩, of_decide_eq_true last⟩

/-- What is refused for the number of workers is the first number, where no layer has a
positive one. -/
theorem validate_foldl {start : Settings} {layers : List Settings} {key : List UInt8}
    (placed : (layers.foldl merge start).archive ≠ "")
    (read : parseKey (layers.foldl merge start).key = .ok key) :
    (layers.foldl merge start).validate =
      if start.workers < 1 ∧ ∀ layer ∈ layers, layer.workers ≤ 0 then
        fail (.workers start.workers)
      else .ok key := by
  rw [validate_of_key placed read]
  rcases workers_foldl start layers with ⟨idle, first⟩ | ⟨⟨layer, member, positive⟩, running⟩
  · rw [first]
    by_cases few : start.workers < 1
    · rw [if_pos few, if_pos ⟨few, idle⟩]
    · rw [if_neg few, if_neg fun both => few both.1]
  · rw [if_neg (by omega), if_neg]
    rintro ⟨_, idle⟩
    have := idle layer member
    omega

/-- Laid over each other, settings hold the last value given of every field; for the number of
workers that is so unless the last one given is negative, and always the last positive one is
held. Laying over is associative, settings without a value change nothing, and the number of
workers is refused only where the first one is not positive and no layer has a positive one. -/
theorem layers_hold_last_values (start : Settings) (layers : List Settings) :
    Overlaid (0 < ·) start layers (layers.foldl merge start) ∧
    (0 ≤ latest (· ≠ 0) 0 (layers.map (·.workers)) →
      Overlaid (· ≠ 0) start layers (layers.foldl merge start)) ∧
    (∀ next last : Settings, (start.merge next).merge last = start.merge (next.merge last)) ∧
    start.merge {} = start ∧
    ∀ key : List UInt8, (layers.foldl merge start).archive ≠ "" →
      parseKey (layers.foldl merge start).key = .ok key →
      (layers.foldl merge start).validate =
        if start.workers < 1 ∧ ∀ layer ∈ layers, layer.workers ≤ 0 then
          fail (.workers start.workers)
        else .ok key := by
  have overlaid := foldl_overlaid start layers
  refine ⟨overlaid, ?_, merge_assoc start, merge_empty start, fun key => validate_foldl⟩
  intro given
  exact { overlaid with workers := overlaid.workers.trans (latest_positive given) }

def fourWorkers : Settings where
  archive := "game"
  key := "0x0123456789abcdef0123456789ABCDEF0123456789abcdef0123456789abcdef"
  output := "."
  workers := 4

def fourWorkersKey : List UInt8 :=
  (List.replicate 4 [0x01, 0x23, 0x45, 0x67, 0x89, 0xAB, 0xCD, 0xEF]).flatten

theorem parseKey_fourWorkers : parseKey fourWorkers.key = .ok fourWorkersKey := by
  decide +kernel

theorem layers_hold_last_values_back_to_two :
    let layers : List Settings := [{ workers := -3, verbose := true }, { workers := 2 }, {}]
    Overlaid (· ≠ 0) fourWorkers layers (layers.foldl merge fourWorkers) ∧
      (layers.foldl merge fourWorkers).validate = .ok fourWorkersKey := by
  intro layers
  obtain ⟨_, last, _, _, checked⟩ := layers_hold_last_values fourWorkers layers
  refine ⟨last (by decide), ?_⟩
  exact (checked fourWorkersKey (by decide) parseKey_fourWorkers).trans rfl

/-- A negative number of workers, the last one given, is not held and not refused. -/
theorem negative_workers_are_passed_over :
    let layers : List Settings := [{ workers := -3 }]
    latest (· ≠ 0) fourWorkers.workers (layers.map (·.workers)) = -3 ∧
      ¬ Overlaid (· ≠ 0) fourWorkers layers (layers.foldl merge fourWorkers) ∧
      (layers.foldl merge fourWorkers).workers = 4 ∧
      (layers.foldl merge fourWorkers).validate = .ok fourWorkersKey := by
  intro layers
  refine ⟨rfl, fun overlaid => ?_, rfl, ?_⟩
  · have held : (4 : Int) = -3 := overlaid.workers
    cases held
  · exact (@validate_foldl fourWorkers layers _ (by decide) parseKey_fourWorkers).trans rfl

end ScriptListing.Settings
