import ScriptListing.Proofs.Batch.Invariant

/-! Requests with different paths. A step changes one job, the claim on its path and a text; so
the steps of one request can be left out, and a request for another path still gets as far as it
did. -/
namespace ScriptListing.Batch

variable {σ : Type}

/-- How far a request got, apart from what writing it came to. -/
def Job.bare (job : Job) : Job := ⟨{ job.result with faults := [], failure := none }, job.phase⟩

/-- Jobs that got as far differ in what writing came to. -/
theorem eq_of_bare {job job' : Job} (alike : job'.bare = job.bare) : ∃ faults failure,
    job' = ⟨{ job.result with faults, failure }, job.phase⟩ := by
  obtain ⟨⟨name, className, path, faults, failure, duplicateOf⟩, phase⟩ := job
  obtain ⟨⟨name', className', path', faults', failure', duplicateOf'⟩, phase'⟩ := job'
  obtain ⟨results, phases⟩ := Job.mk.inj alike
  obtain ⟨rfl, rfl, rfl, -, -, rfl⟩ := Result.mk.inj results
  exact ⟨faults', failure', by rw [show phase' = phase from phases]⟩

theorem bare_written (setup : Setup σ) (t : FileTree) (r : Result) (c : Class) :
    (⟨written setup t r c, .finished⟩ : Job).bare = (⟨r, .finished⟩ : Job).bare := by
  unfold written
  split <;> rfl

/-- Two boards that differ at most in some jobs, at some paths and in what was written. -/
structure Agree (touched : Nat → Prop) (paths : String → Prop) (b b' : Board) : Prop where
  pending : b'.pending = b.pending
  length : b'.jobs.length = b.jobs.length
  jobs : ∀ k : Nat, ¬ touched k → b'.jobs[k]?.map Job.bare = b.jobs[k]?.map Job.bare
  claims : ∀ q, ¬ paths q → b'.claims.lookup q = b.claims.lookup q

namespace Agree

variable {setup : Setup σ} {touched : Nat → Prop} {paths : String → Prop} {b b' b'' : Board}

theorem refl (b : Board) : Agree touched paths b b := ⟨rfl, rfl, fun _ _ => rfl, fun _ _ => rfl⟩

theorem symm (agree : Agree touched paths b b') : Agree touched paths b' b where
  pending := agree.pending.symm
  length := agree.length.symm
  jobs k away := (agree.jobs k away).symm
  claims q away := (agree.claims q away).symm

theorem trans (agree : Agree touched paths b b') (agree' : Agree touched paths b' b'') :
    Agree touched paths b b'' where
  pending := agree'.pending.trans agree.pending
  length := agree'.length.trans agree.length
  jobs k away := (agree'.jobs k away).trans (agree.jobs k away)
  claims q away := (agree'.claims q away).trans (agree.claims q away)

variable {classes : String → Attempt Class} {tree : FileTree} {requests : List String}
  {past past' : List Deed}

/-- A step stays within its own job and path. -/
theorem of_advance (invariant : Invariant setup classes tree requests b past) {i : Nat} {job : Job}
    (at' : b.jobs[i]? = some job) (mine : touched i)
    (within : ∀ c, classes job.result.name = .ok c → paths (pathOf setup.directory c)) :
    Agree touched paths b (b.advance setup classes i job) := by
  have others (new : Job) (k : Nat) (away : ¬ touched k) :
      (b.jobs.set i new)[k]?.map Job.bare = b.jobs[k]?.map Job.bare := by
    rw [List.getElem?_set_ne]
    rintro rfl
    exact away mine
  have quiet (new : Job) : Agree touched paths b (b.setJob i new) :=
    ⟨rfl, List.length_set, others new, fun _ _ => rfl⟩
  obtain ⟨r, phase⟩ := job
  unfold Board.advance
  cases phase with
  | load =>
    dsimp only
    split
    · exact quiet _
    · exact quiet _
  | finished => exact .refl b
  | claim c =>
    dsimp only
    split
    · exact quiet _
    · obtain ⟨found, spelled⟩ := (invariant.fates i _ at').claim
      have path : r.path = pathOf setup.directory c := by rw [spelled]; rfl
      refine ⟨rfl, List.length_set, others _, fun q away => ?_⟩
      have differs : (q == r.path) = false := by
        rw [beq_eq_false_iff_ne]
        rintro rfl
        exact away (path ▸ within c found)
      simp [List.lookup_cons, differs]
  | write c => exact ⟨rfl, List.length_set, others _, fun _ _ => rfl⟩

/-- Boards that agree on a job and on its path still do after its next step. -/
theorem advance (invariant : Invariant setup classes tree requests b past)
    (agree : Agree touched paths b b') {i : Nat} {job job' : Job} (at' : b.jobs[i]? = some job)
    (at'' : b'.jobs[i]? = some job') (alike : job'.bare = job.bare)
    (away : ∀ c, classes job.result.name = .ok c → ¬ paths (pathOf setup.directory c)) :
    Agree touched paths (b.advance setup classes i job) (b'.advance setup classes i job') := by
  have bound := (List.getElem?_eq_some_iff.mp at').1
  have bound' := (List.getElem?_eq_some_iff.mp at'').1
  have same {new new' : Job} (equal : new'.bare = new.bare) (k : Nat) (free : ¬ touched k) :
      (b'.jobs.set i new')[k]?.map Job.bare = (b.jobs.set i new)[k]?.map Job.bare := by
    by_cases here : k = i
    · subst here
      rw [List.getElem?_set_self bound, List.getElem?_set_self bound']
      exact congrArg some equal
    · rw [List.getElem?_set_ne (Ne.symm here), List.getElem?_set_ne (Ne.symm here)]
      exact agree.jobs k free
  have lengths (new new' : Job) : (b'.jobs.set i new').length = (b.jobs.set i new).length := by
    rw [List.length_set, List.length_set, agree.length]
  have both {new new' : Job} (equal : new'.bare = new.bare) :
      Agree touched paths (b.setJob i new) (b'.setJob i new') :=
    ⟨agree.pending, lengths new new', same equal, agree.claims⟩
  obtain ⟨r, phase⟩ := job
  obtain ⟨faults, failure, rfl⟩ := eq_of_bare alike
  unfold Board.advance
  cases phase with
  | load =>
    dsimp only
    split
    · exact both rfl
    · exact both rfl
  | finished => exact agree
  | claim c =>
    obtain ⟨found, spelled⟩ := (invariant.fates i _ at').claim
    have path : r.path = pathOf setup.directory c := by rw [spelled]; rfl
    dsimp only
    rw [agree.claims r.path (path ▸ away c found)]
    split
    · exact both rfl
    · refine ⟨agree.pending, lengths _ _, same rfl, fun q free => ?_⟩
      by_cases here : q = r.path
      · simp [here]
      · have differs : (q == r.path) = false := by simpa using here
        simpa [List.lookup_cons, differs] using agree.claims q free
  | write c =>
    refine ⟨agree.pending, lengths _ _, same ?_, agree.claims⟩
    rw [bare_written, bare_written]
    rfl

end Agree

section

variable {setup : Setup σ} {classes : String → Attempt Class} {tree : FileTree}
  {requests : List String} {b b' : Board} {past past' : List Deed}

def IsPathOf (setup : Setup σ) (classes : String → Attempt Class) (requests : List String)
    (i : Nat) (path : String) : Prop :=
  ∃ name c, requests[i]? = some name ∧ classes name = .ok c ∧ pathOf setup.directory c = path

theorem IsPathOf.unique {i : Nat} {path path' : String}
    (first : IsPathOf setup classes requests i path)
    (second : IsPathOf setup classes requests i path') : path = path' := by
  obtain ⟨name, c, asked, found, rfl⟩ := first
  obtain ⟨other, d, asked', found', rfl⟩ := second
  rw [asked] at asked'
  cases asked'
  rw [found] at found'
  cases found'
  rfl

/-- A request that shares its path with another, which it may be itself. -/
def Shares (setup : Setup σ) (classes : String → Attempt Class) (requests : List String)
    (i k : Nat) : Prop :=
  k = i ∨ ∃ path, IsPathOf setup classes requests i path ∧ IsPathOf setup classes requests k path

/-- What request `i` can change of a run. -/
abbrev Apart (setup : Setup σ) (classes : String → Attempt Class) (requests : List String)
    (i : Nat) : Board → Board → Prop :=
  Agree (Shares setup classes requests i) (IsPathOf setup classes requests i)

theorem within_of_shares (invariant : Invariant setup classes tree requests b past) {i k : Nat}
    {job : Job} (at' : b.jobs[k]? = some job) (shares : Shares setup classes requests i k) (c : Class)
    (found : classes job.result.name = .ok c) :
    IsPathOf setup classes requests i (pathOf setup.directory c) := by
  have own : IsPathOf setup classes requests k (pathOf setup.directory c) :=
    ⟨_, c, invariant.name_at at', found, rfl⟩
  rcases shares with rfl | ⟨path, first, second⟩
  · exact own
  · rwa [own.unique second]

theorem away_of_not_shares (invariant : Invariant setup classes tree requests b past) {i k : Nat}
    {job : Job} (at' : b.jobs[k]? = some job) (apart : ¬ Shares setup classes requests i k)
    (c : Class) (found : classes job.result.name = .ok c) :
    ¬ IsPathOf setup classes requests i (pathOf setup.directory c) := by
  intro same
  exact apart (.inr ⟨_, same, _, c, invariant.name_at at', found, rfl⟩)

/-- A step of a request that shares the path is not noticed by the others. -/
theorem apart_of_step (invariant : Invariant setup classes tree requests b past) {i k : Nat}
    (shares : Shares setup classes requests i k) :
    Apart setup classes requests i b (b.step setup classes (.advance k)) := by
  cases at' : b.jobs[k]? with
  | none =>
    simp only [Board.step, at']
    exact .refl b
  | some job =>
    simp only [Board.step, at']
    exact .of_advance invariant at' shares (within_of_shares invariant at' shares)

theorem apart_step (invariant : Invariant setup classes tree requests b past)
    (invariant' : Invariant setup classes tree requests b' past') {i : Nat}
    (apart : Apart setup classes requests i b b') (e : Event) :
    Apart setup classes requests i (b.step setup classes e) (b'.step setup classes e) := by
  cases e with
  | cancel => exact apart
  | start =>
    simp only [Board.step, apart.pending]
    split
    · refine ⟨rfl, by simp [apart.length], fun k away => ?_, apart.claims⟩
      simp only [List.getElem?_append, apart.length]
      split
      · exact apart.jobs k away
      · rfl
    · exact apart
  | advance k =>
    by_cases shares : Shares setup classes requests i k
    · exact ((apart_of_step invariant shares).symm.trans apart).trans
        (apart_of_step invariant' shares)
    · have same := apart.jobs k shares
      cases at' : b.jobs[k]? with
      | none =>
        have at'' : b'.jobs[k]? = none := by simpa [at'] using same
        simp only [Board.step, at', at'']
        exact apart
      | some job =>
        rw [at', Option.map_some] at same
        obtain ⟨job', at'', alike⟩ := Option.map_eq_some_iff.mp same
        simp only [Board.step, at', at'']
        exact apart.advance invariant at' at'' alike (away_of_not_shares invariant at' shares)

/-- Leaving out the steps of a request changes nothing for requests with another path. -/
theorem execute_without {s s' : State σ} {events : List Event}
    (steady : Steady setup classes s) (steady' : Steady setup classes s')
    (running : s.canceled = false) (running' : s'.canceled = false)
    (invariant : Invariant setup classes tree requests s.board past)
    (invariant' : Invariant setup classes tree requests s'.board past') {i : Nat}
    (uncanceled : .cancel ∉ events) (apart : Apart setup classes requests i s.board s'.board) :
    Apart setup classes requests i (s.execute setup events).board
      (s'.execute setup (events.filter (· ≠ .advance i))).board := by
  -- The runs go side by side; a step of request `i` is taken by the first one alone.
  induction events generalizing s s' past past' with
  | nil => exact apart
  | cons e rest ih =>
    have notCancel : e ≠ .cancel := by
      rintro rfl
      exact uncanceled (by simp)
    have others : .cancel ∉ rest := fun member => uncanceled (by simp [member])
    obtain ⟨same, still⟩ := board_step steady running notCancel
    have next := invariant.step e
    rw [← same] at next
    by_cases mine : e = .advance i
    · subst mine
      have left := (apart_of_step invariant (.inl rfl)).symm.trans apart
      rw [← same] at left
      simpa [State.execute] using
        ih (steady.step notCancel) steady' still running' next invariant' others left
    · obtain ⟨same', still'⟩ := board_step steady' running' notCancel
      have next' := invariant'.step e
      rw [← same'] at next'
      have both := apart_step invariant invariant' apart e
      rw [← same, ← same'] at both
      simpa [State.execute, mine] using
        ih (steady.step notCancel) (steady'.step notCancel) still still' next next' others both

theorem step_finished {i : Nat} {job : Job} (at' : b.jobs[i]? = some job)
    (finished : job.phase = .finished) (e : Event) :
    (b.step setup classes e).jobs[i]? = some job := by
  have bound := (List.getElem?_eq_some_iff.mp at').1
  cases e with
  | cancel => exact at'
  | start =>
    simp only [Board.step]
    split
    · rw [List.getElem?_append_left bound, at']
    · exact at'
  | advance k =>
    simp only [Board.step]
    split
    · next other found =>
      by_cases same : k = i
      · subst same
        rw [at'] at found
        cases found
        simp only [Board.advance, finished]
        exact at'
      · have kept (new : Job) : (b.jobs.set k new)[i]? = some job := by
          rw [List.getElem?_set_ne same, at']
        unfold Board.advance
        split
        · split
          · exact kept _
          · exact kept _
        · split
          · exact kept _
          · exact kept _
        · exact kept _
        · exact at'
    · exact at'

theorem execute_finished {s : State σ} {events : List Event}
    (steady : Steady setup classes s) (running : s.canceled = false) (uncanceled : .cancel ∉ events) {i : Nat} {job : Job}
    (at' : s.jobs[i]? = some job) (finished : job.phase = .finished) :
    (s.execute setup events).jobs[i]? = some job := by
  induction events generalizing s with
  | nil => exact at'
  | cons e rest ih =>
    have notCancel : e ≠ .cancel := by
      rintro rfl
      exact uncanceled (by simp)
    obtain ⟨same, still⟩ := board_step steady running notCancel
    have kept := @step_finished σ setup classes s.board i job at' finished e
    rw [← same] at kept
    exact ih (steady.step notCancel) still (fun member => uncanceled (by simp [member])) kept

/-- A step that changes a file is the write of a request that succeeds. -/
theorem tree_of_unsuccessful (invariant : Invariant setup classes tree requests b past) {i : Nat}
    (unsuccessful : ∀ job, (b.step setup classes (.advance i)).jobs[i]? = some job →
      job.phase = .finished → job.result.failure ≠ none ∨ job.result.duplicateOf ≠ none) :
    (b.step setup classes (.advance i)).tree = b.tree := by
  cases at' : b.jobs[i]? with
  | none => simp only [Board.step, at']
  | some job =>
    obtain ⟨r, phase⟩ := job
    simp only [Board.step, at'] at unsuccessful ⊢
    cases phase with
    | finished => rfl
    | load =>
      simp only [Board.advance]
      split
      · rfl
      · rfl
    | claim c =>
      simp only [Board.advance]
      split
      · rfl
      · rfl
    | write c =>
      obtain ⟨found, spelled, _⟩ := (invariant.fates i _ at').write
      simp only [Board.advance] at unsuccessful ⊢
      have outcome := @treeAfter_cases σ setup r.name c b.tree
      rw [← spelled] at outcome
      rcases outcome with ⟨_, _, _, _, _, _, success⟩ | ⟨final, _⟩
      · rcases unsuccessful _ ((getElem?_set_iff at').mpr (.inl ⟨rfl, rfl⟩)) rfl with failed | lost
        · exact absurd success failed
        · refine absurd ?_ lost
          rw [written_duplicateOf, spelled]
          rfl
      · exact final

end

end ScriptListing.Batch
