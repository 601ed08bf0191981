import ScriptListing.Proofs.Batch.Board

/-! What a step of a run can do, whatever the loader answers and whether or not the run is
canceled. Every law of whole runs is read off these ten turns. -/
namespace ScriptListing.Batch

variable {σ : Type}

inductive Turn (setup : Setup σ) (s : State σ) : Event → State σ → Prop where
  | idle (stopped : s.pending = [] ∨ s.canceled = true) : Turn setup s .start s
  | started {name : String} {rest : List String} (left : s.pending = name :: rest)
      (running : s.canceled = false) :
      Turn setup s .start { s with pending := rest, jobs := s.jobs ++ [⟨{ name }, .load⟩] }
  | absent {i : Nat} (none : s.jobs[i]? = none) : Turn setup s (.advance i) s
  | done {i : Nat} {r : Result} (at' : s.jobs[i]? = some ⟨r, .finished⟩) :
      Turn setup s (.advance i) s
  /-- A failure by cancellation cancels the run. -/
  | failed {i : Nat} {r : Result} {f : Failure} {loader : σ}
      (at' : s.jobs[i]? = some ⟨r, .load⟩)
      (answer : setup.loader.load s.loader s.tree s.canceled r.name = (.error f, loader)) :
      Turn setup s (.advance i)
        { s with
          loader
          canceled := s.canceled || f.isCanceled
          jobs := s.jobs.set i ⟨{ r with failure := some f }, .finished⟩
          log := s.log ++ [] ++ closing { r with failure := some f } }
  | loaded {i : Nat} {r : Result} {c : Class} {loader : σ}
      (at' : s.jobs[i]? = some ⟨r, .load⟩)
      (answer : setup.loader.load s.loader s.tree s.canceled r.name = (.ok c, loader)) :
      Turn setup s (.advance i)
        { s with
          loader
          jobs := s.jobs.set i
            ⟨{ r with className := c.name, path := pathOf setup.directory c }, .claim c⟩ }
  | lost {i : Nat} {r : Result} {c : Class} {owner : String}
      (at' : s.jobs[i]? = some ⟨r, .claim c⟩) (taken : s.claims.lookup r.path = some owner) :
      Turn setup s (.advance i)
        { s with
          jobs := s.jobs.set i ⟨{ r with duplicateOf := some owner }, .finished⟩
          log := s.log ++ [] ++ closing { r with duplicateOf := some owner } }
  | claimed {i : Nat} {r : Result} {c : Class} (at' : s.jobs[i]? = some ⟨r, .claim c⟩)
      (free : s.claims.lookup r.path = none) :
      Turn setup s (.advance i)
        { s with
          jobs := s.jobs.set i ⟨r, .write c⟩
          claims := (r.path, r.name) :: s.claims }
  | wrote {i : Nat} {r : Result} {c : Class} {log : List Log.Entry}
      (at' : s.jobs[i]? = some ⟨r, .write c⟩) :
      Turn setup s (.advance i)
        { s with
          tree := treeAfter setup s.tree r c
          jobs := s.jobs.set i ⟨written setup s.tree r c, .finished⟩
          log }
  | canceled : Turn setup s .cancel { s with canceled := true }

section

variable {setup : Setup σ} {s : State σ}

theorem turn_load {i : Nat} {r : Result} (at' : s.jobs[i]? = some ⟨r, .load⟩) :
    Turn setup s (.advance i) (s.load setup i r) := by
  unfold State.load
  rcases answer : setup.loader.load s.loader s.tree s.canceled r.name with ⟨outcome, loader⟩
  cases outcome with
  | error f => exact .failed at' answer
  | ok c => exact .loaded at' answer

theorem turn_claim {i : Nat} {r : Result} {c : Class} (at' : s.jobs[i]? = some ⟨r, .claim c⟩) :
    Turn setup s (.advance i) (s.claim i r c) := by
  unfold State.claim
  cases taken : s.claims.lookup r.path with
  | some owner => exact .lost at' taken
  | none => exact .claimed at' taken

theorem turn_write {i : Nat} {r : Result} {c : Class} (at' : s.jobs[i]? = some ⟨r, .write c⟩) :
    Turn setup s (.advance i) (s.write setup i r c) := by
  have turn (log : List Log.Entry) := @Turn.wrote σ setup s i r c log at'
  unfold State.write
  cases rendered : Listing.render setup.table {} c with
  | error breakdown =>
    simp only [treeAfter, written, rendered] at turn
    exact turn _
  | ok listing =>
    simp only [treeAfter, written, rendered] at turn
    dsimp only
    generalize s.tree.publish (setup.hazards r.path) r.path (Text.toBytes listing.text) =
      published at turn ⊢
    exact turn _

theorem step_turn (setup : Setup σ) (s : State σ) (e : Event) :
    Turn setup s e (s.step setup e) := by
  cases e with
  | cancel => exact .canceled
  | start =>
    simp only [State.step, State.start]
    split
    · next name rest left =>
      split
      · next stopped => exact .idle (.inr stopped)
      · next running => exact .started left (by simpa using running)
    · next left => exact .idle (.inl left)
  | advance i =>
    cases at' : s.jobs[i]? with
    | none =>
      simp only [State.step, at']
      exact .absent at'
    | some job =>
      obtain ⟨r, phase⟩ := job
      simp only [State.step, at']
      cases phase with
      | load => exact turn_load at'
      | claim c => exact turn_claim at'
      | write c => exact turn_write at'
      | finished => exact .done at'

/-- What every turn keeps holds along every run. -/
theorem execute_keeps {P : State σ → Prop}
    (keeps : ∀ {s s' : State σ} {e : Event}, P s → Turn setup s e s' → P s')
    (holds : P s) (events : List Event) : P (s.execute setup events) := by
  induction events generalizing s with
  | nil => exact holds
  | cons e rest ih => exact ih (keeps holds (step_turn setup s e))

end

end ScriptListing.Batch
