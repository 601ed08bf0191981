import ScriptListing.Proofs.Batch.Safety
import ScriptListing.Proofs.Batch.Step

/-! Runs that may be canceled between any two steps. Requests are started in the order of the
names, and only cancellation keeps one from being started; so a run that says nothing of a
cancellation has gone through all names. -/
namespace ScriptListing.Batch

variable {σ : Type}

/-- The started requests are done, and no other will be started. -/
def State.IsOver (s : State σ) : Prop :=
  (s.pending = [] ∨ s.canceled = true) ∧ ∀ job ∈ s.jobs, job.phase = .finished

instance (s : State σ) : Decidable s.IsOver :=
  inferInstanceAs (Decidable ((s.pending = [] ∨ s.canceled = true) ∧
    ∀ job ∈ s.jobs, job.phase = .finished))

/-- A loader that tells of a cancellation only where there is one. -/
def Loader.Honest (loader : Loader σ) : Prop :=
  ∀ own t name f, (loader.load own t false name).1 = .error f → f.isCanceled = false

def startsBefore (events : List Event) : Nat := (events.takeWhile (· ≠ .cancel)).count .start

def Setup.located (setup : Setup σ) : Setup σ :=
  { setup with directory := directoryOf setup.directory }

/-- Who was started, and that a request does not fail by cancellation alone. -/
structure Roster (names : List String) (s : State σ) : Prop where
  names : s.jobs.map (·.result.name) ++ s.pending = names
  canceled : ∀ job ∈ s.jobs, ∀ f, job.result.failure = some f → f.isCanceled = true →
    s.canceled = true

section

variable {setup : Setup σ} {s s' : State σ} {e : Event} {names : List String}

theorem begin_roster (loader : σ) (tree : FileTree) (names : List String) :
    Roster names (begin loader tree names) := ⟨rfl, by simp [begin]⟩

theorem Roster.set (roster : Roster names s) {i : Nat} {old new : Job}
    (at' : s.jobs[i]? = some old) (jobs : s'.jobs = s.jobs.set i new)
    (pending : s'.pending = s.pending) (name : new.result.name = old.result.name)
    (kept : s.canceled = true → s'.canceled = true)
    (told : ∀ f, new.result.failure = some f → f.isCanceled = true → s'.canceled = true) :
    Roster names s' := by
  refine ⟨by rw [jobs, pending, map_name_set at' name, roster.names], ?_⟩
  intro job member f failed canceled
  rw [jobs] at member
  rcases List.mem_or_eq_of_mem_set member with before | rfl
  · exact kept (roster.canceled job before f failed canceled)
  · exact told f failed canceled

theorem written_not_canceled {t : FileTree} {r : Result} {c : Class} {f : Failure}
    (failed : (written setup t r c).failure = some f) : f.isCanceled = false := by
  unfold written at failed
  split at failed
  · cases failed
    rfl
  · dsimp only at failed
    split at failed
    · cases failed
    · cases failed
      rfl

theorem Roster.turn (roster : Roster names s) (turn : Turn setup s e s') : Roster names s' := by
  have same {i : Nat} {r : Result} {phase : Phase} (at' : s.jobs[i]? = some ⟨r, phase⟩)
      (f : Failure) (failed : r.failure = some f) (canceled : f.isCanceled = true) :
      s.canceled = true :=
    roster.canceled _ (List.mem_of_getElem? at') f failed canceled
  cases turn with
  | idle | absent | done => exact roster
  | started left running =>
    refine ⟨by simpa [left] using roster.names, ?_⟩
    intro job member f failed canceled
    rcases List.mem_append.mp member with before | new
    · exact roster.canceled job before f failed canceled
    · rw [List.mem_singleton.mp new] at failed
      cases failed
  | failed at' answer =>
    refine roster.set at' rfl rfl rfl (by simp +contextual) fun f failed canceled => ?_
    cases failed
    simp [canceled]
  | loaded at' answer => exact roster.set at' rfl rfl rfl id fun f failed => same at' f failed
  | lost at' taken => exact roster.set at' rfl rfl rfl id fun f failed => same at' f failed
  | claimed at' free => exact roster.set at' rfl rfl rfl id fun f failed => same at' f failed
  | @wrote i r c log at' =>
    refine roster.set at' rfl rfl (written_name s.tree r c) id fun f failed canceled => ?_
    have other : f.isCanceled = false := written_not_canceled (t := s.tree) (r := r) (c := c) failed
    rw [other] at canceled
    cases canceled
  | canceled => exact ⟨roster.names, fun _ _ _ _ _ => rfl⟩

theorem advance_length {i : Nat} (turn : Turn setup s (.advance i) s') :
    s'.jobs.length = s.jobs.length ∧ s'.pending = s.pending := by
  cases turn with
  | absent | done => exact ⟨rfl, rfl⟩
  | failed | loaded | lost | claimed | wrote => exact ⟨List.length_set, rfl⟩

/-- Cancellation is for good. -/
theorem turn_still_canceled (turn : Turn setup s e s') (stopped : s.canceled = true) :
    s'.canceled = true := by
  cases turn with
  | canceled => rfl
  | failed => simp [stopped]
  | _ => exact stopped

/-- A run that is canceled starts nothing more. -/
theorem execute_canceled_length (canceled : s.canceled = true) (events : List Event) :
    (s.execute setup events).jobs.length = s.jobs.length := by
  refine (execute_keeps (P := fun s' => s'.canceled = true ∧ s'.jobs.length = s.jobs.length)
    ?_ ⟨canceled, rfl⟩ events).2
  rintro s₁ s₂ e ⟨stopped, length⟩ turn
  refine ⟨turn_still_canceled turn stopped, ?_⟩
  cases e with
  | advance i => exact (advance_length turn).1.trans length
  | cancel =>
    cases turn
    exact length
  | start =>
    cases turn with
    | idle => exact length
    | started left running =>
      rw [stopped] at running
      cases running

variable (honest : setup.loader.Honest)
include honest

/-- Only a cancellation cancels, whatever else goes wrong. -/
theorem turn_canceled (turn : Turn setup s e s') :
    s'.canceled = true ↔ s.canceled = true ∨ e = .cancel := by
  cases turn with
  | canceled => simp
  | @failed i r f loader at' answer =>
    cases running : s.canceled with
    | true => simp
    | false =>
      rw [running] at answer
      simp [honest s.loader s.tree r.name f (by rw [answer])]
  | _ => simp

theorem execute_canceled (events : List Event) :
    (s.execute setup events).canceled = true ↔ s.canceled = true ∨ .cancel ∈ events := by
  induction events generalizing s with
  | nil => simp [State.execute]
  | cons e rest ih =>
    have next := ih (s := s.step setup e)
    rw [turn_canceled honest (step_turn setup s e)] at next
    rw [List.mem_cons, eq_comm (a := Event.cancel), ← or_assoc]
    exact next

/-- Each start before the cancellation starts the next name, if one is left. -/
theorem execute_length (running : s.canceled = false) (events : List Event) :
    (s.execute setup events).jobs.length =
      s.jobs.length + min s.pending.length (startsBefore events) := by
  induction events generalizing s with
  | nil => simp [State.execute, startsBefore]
  | cons e rest ih =>
    have turn := step_turn setup s e
    have still := turn_canceled honest turn
    change ((s.step setup e).execute setup rest).jobs.length = _
    generalize s.step setup e = next at turn still ⊢
    cases e with
    | cancel =>
      cases turn
      simpa [startsBefore] using execute_canceled_length rfl rest
    | advance i =>
      obtain ⟨length, pending⟩ := advance_length turn
      have later := ih (s := next) (by simpa [running] using still)
      rw [length, pending] at later
      simpa [startsBefore] using later
    | start =>
      cases turn with
      | idle stopped =>
        have left : s.pending = [] := by simpa [running] using stopped
        have later := ih running
        rw [left] at later ⊢
        simpa using later
      | @started name names left _ =>
        have later := ih (s := { s with
          pending := names, jobs := s.jobs ++ [⟨{ name }, .load⟩] }) running
        refine later.trans ?_
        simp only [left, startsBefore, ne_eq, reduceCtorEq, not_false_eq_true, decide_true,
          List.takeWhile_cons_of_pos, List.count_cons_self, List.length_append, List.length_cons,
          List.length_nil]
        omega

end

/-- What a run over some names, in the state `s` at its end, says in its outcome. -/
structure Accounted (names : List String) (events : List Event) (s : State σ) (o : Outcome σ) :
    Prop where
  /-- There is a result for each name. -/
  complete : o.results = some s.results ∧ s.results.length = names.length
  /-- The names started are the first ones, and their results tell them. -/
  started : s.jobs.map (·.result.name) <+: names ∧
    ∀ i < s.jobs.length, s.results[i]?.map (·.name) = names[i]?
  unstarted : ∀ i, s.jobs.length ≤ i → i < names.length → s.results[i]? = some {}
  /-- Success means that all were started and none broken off. -/
  success : o.failure = none → s.jobs.length = names.length ∧
    ∀ r ∈ s.results, ∀ f, r.failure = some f → f.isCanceled = false
  interrupted : s.jobs.length < names.length → ∃ f, o.failure = some f ∧ f.isCanceled = true
  /-- How many were started and whether the run fails is told by the steps alone, whatever
  failures there are on the way. -/
  unhindered : s.jobs.length = min names.length (startsBefore events) ∧
    (o.failure ≠ none ↔ .cancel ∈ events)

section

variable {names : List String} {s : State σ} (roster : Roster names s)
include roster

theorem Roster.length : s.jobs.length + s.pending.length = names.length := by
  have lengths := congrArg List.length roster.names
  simpa using lengths

theorem Roster.name_at {i : Nat} (started : i < s.jobs.length) :
    s.results[i]?.map (·.name) = names[i]? := by
  rw [← roster.names, List.getElem?_append_left (by simpa using started), State.results,
    List.getElem?_append_left (by simpa using started)]
  simp [Function.comp_def]

theorem Roster.unstarted {i : Nat} (after : s.jobs.length ≤ i) (inside : i < names.length) :
    s.results[i]? = some {} := by
  have lengths := roster.length
  have left : i - s.jobs.length < s.pending.length := by omega
  rw [State.results, List.getElem?_append_right (by simpa using after)]
  simp [left]

end

/-- A run that is over and says nothing of a cancellation has started every name. -/
theorem State.IsOver.all_started {s : State σ} (ended : s.IsOver) (success : s.failure? = none) :
    s.canceled = false ∧ s.pending = [] := by
  have running : s.canceled = false := by simpa [State.failure?] using success
  exact ⟨running, by simpa [running] using ended.1⟩

def Phase.rank : Phase → Nat
  | .load => 3
  | .claim _ => 2
  | .write _ => 1
  | .finished => 0

theorem Phase.finished_of_rank {phase : Phase} (none : phase.rank ≤ 0) : phase = .finished := by
  cases phase with
  | finished => rfl
  | _ => cases none

/-- All requests are done but one, which has at most `n` steps before it. -/
def Nearly (i n : Nat) (s : State σ) : Prop :=
  ∀ j job, s.jobs[j]? = some job → job.phase.rank ≤ if j = i then n else 0

section

variable {setup : Setup σ} {s s' : State σ} {i n : Nat}

theorem Nearly.set (near : Nearly i (n + 1) s) {old new : Job} (at' : s.jobs[i]? = some old)
    (jobs : s'.jobs = s.jobs.set i new) (less : new.phase.rank < old.phase.rank) :
    Nearly i n s' := by
  intro j job at''
  rw [jobs] at at''
  rcases (getElem?_set_iff at').mp at'' with ⟨rfl, rfl⟩ | ⟨other, before⟩
  · have bound := near j old at'
    rw [if_pos rfl] at bound ⊢
    omega
  · have bound := near j job before
    rwa [if_neg other] at bound ⊢

/-- A step of the last request takes it one further. -/
theorem Nearly.turn (near : Nearly i (n + 1) s) (turn : Turn setup s (.advance i) s') :
    Nearly i n s' := by
  have same (already : ∀ job, s.jobs[i]? = some job → job.phase.rank = 0) : Nearly i n s := by
    intro j job at'
    have bound := near j job at'
    split at bound
    next equal => simp [equal, already job (equal ▸ at')]
    next other => rwa [if_neg other]
  cases turn with
  | absent none => exact same (by simp [none])
  | done at' => exact same (by simp [at', Phase.rank])
  | failed at' | loaded at' | lost at' | claimed at' | wrote at' =>
    exact near.set at' rfl (by simp [Phase.rank])

theorem Nearly.execute (setup : Setup σ) (near : Nearly i n s) :
    Nearly i 0 (s.execute setup (List.replicate n (.advance i))) ∧
      (s.execute setup (List.replicate n (.advance i))).jobs.length = s.jobs.length ∧
      (s.execute setup (List.replicate n (.advance i))).pending = s.pending := by
  induction n generalizing s with
  | zero => exact ⟨near, rfl, rfl⟩
  | succ n ih =>
    have turn := step_turn setup s (.advance i)
    obtain ⟨length, pending⟩ := advance_length turn
    obtain ⟨ended, length', pending'⟩ := ih (near.turn turn)
    exact ⟨ended, length'.trans length, pending'.trans pending⟩

/-- A canceled run in which all requests are done stays as it is. -/
theorem execute_over (canceled : s.canceled = true) (done : ∀ job ∈ s.jobs, job.phase = .finished)
    (events : List Event) : (s.execute setup events).IsOver := by
  have kept : (s.execute setup events).canceled = true ∧
      ∀ job ∈ (s.execute setup events).jobs, job.phase = .finished := by
    refine execute_keeps (P := fun s => s.canceled = true ∧ ∀ job ∈ s.jobs, job.phase = .finished)
      ?_ ⟨canceled, done⟩ events
    rintro s₁ s₂ e ⟨stopped, finished⟩ turn
    have ended {i : Nat} {r : Result} {phase : Phase} (at' : s₁.jobs[i]? = some ⟨r, phase⟩) :
        phase = .finished := finished _ (List.mem_of_getElem? at')
    cases turn with
    | idle | absent | done => exact ⟨stopped, finished⟩
    | canceled => exact ⟨rfl, finished⟩
    | started left running =>
      rw [stopped] at running
      cases running
    | failed at' | loaded at' | lost at' | claimed at' | wrote at' => cases ended at'
  exact ⟨.inr kept.1, kept.2⟩

/-- One request after the other, a run comes to its end. -/
theorem inOrder_over {names : List String} (left : s.pending = names)
    (done : ∀ job ∈ s.jobs, job.phase = .finished)
    (next : s.canceled = false → s.jobs.length = i) :
    (s.execute setup (inOrder none i names)).IsOver := by
  induction names generalizing s i with
  | nil => exact ⟨.inl left, done⟩
  | cons name rest ih =>
    cases canceled : s.canceled with
    | true => exact execute_over canceled done _
    | false =>
      obtain rfl := next canceled
      have started : s.step setup .start =
          { s with pending := rest, jobs := s.jobs ++ [⟨{ name }, .load⟩] } := by
        simp [State.step, State.start, left, canceled]
      have near : Nearly s.jobs.length 3 (s.step setup .start) := by
        intro j job at'
        rw [started] at at'
        by_cases before : j < s.jobs.length
        · rw [List.getElem?_append_left before] at at'
          simp [done job (List.mem_of_getElem? at'), Phase.rank]
        · have inside := (List.getElem?_eq_some_iff.mp at').1
          rw [List.length_append, List.length_singleton] at inside
          rw [List.getElem?_append_right (by omega)] at at'
          have new : job = ⟨{ name }, .load⟩ := by simpa using List.mem_of_getElem? at'
          rw [new, if_pos (by omega)]
          exact Nat.le_refl 3
      obtain ⟨ended, length, pending⟩ := near.execute setup
      have later := ih (i := s.jobs.length + 1) (pending.trans (by rw [started]))
        (fun job member => by
          obtain ⟨j, at'⟩ := List.mem_iff_getElem?.mp member
          exact Phase.finished_of_rank (by simpa using ended j job at'))
        (fun _ => length.trans (by rw [started]; simp))
      simpa [inOrder, State.execute] using later

end

section

variable (setup : Setup σ) {loader : σ} {tree made : FileTree} {names : List String}
  {events : List Event}

theorem run_aborted {e : FileTree.Error}
    (unusable : tree.makeDirectories (directoryOf setup.directory) = (.error e, made)) :
    run setup loader tree names events =
      ⟨loader, made, [], none, some (Failure.within "output directory" (.of (.file e)))⟩ := by
  unfold run
  dsimp only
  rw [unusable]

theorem run_ended
    (usable : tree.makeDirectories (directoryOf setup.directory) = (.ok (), made)) :
    run setup loader tree names events =
      let s := after setup.located loader made names events
      ⟨s.loader, s.tree, s.log, some s.results, s.failure?⟩ := by
  unfold run
  dsimp only
  rw [usable]
  rfl

theorem lasting_aborted {e : FileTree.Error}
    (unusable : tree.makeDirectories (directoryOf setup.directory) = (.error e, made)) :
    lasting setup loader tree names events = (events, false) := by
  unfold lasting
  dsimp only
  rw [unusable]

theorem lasting_ended
    (usable : tree.makeDirectories (directoryOf setup.directory) = (.ok (), made)) :
    lasting setup loader tree names events =
      (begin loader made names).lasting setup.located events := by
  unfold lasting
  dsimp only
  rw [usable]
  rfl

end

/-- No name is lost without a word. Wherever a run is canceled, its outcome tells which names
were started, and it fails unless all of them were and none was broken off. -/
theorem canceled_runs_account_for_names {setup : Setup σ} {loader : σ} {tree made : FileTree}
    {names : List String} {events : List Event} (honest : setup.loader.Honest)
    (usable : tree.makeDirectories (directoryOf setup.directory) = (.ok (), made))
    (ended : (after setup.located loader made names events).IsOver) :
    Accounted names events (after setup.located loader made names events)
      (run setup loader tree names events) := by
  have honest' : setup.located.loader.Honest := honest
  have roster : Roster names (after setup.located loader made names events) :=
    execute_keeps (fun holds turn => holds.turn turn) (begin_roster loader made names) events
  have started := execute_length honest' (s := begin loader made names) rfl events
  have canceled := execute_canceled honest' (s := begin loader made names) events
  rw [run_ended setup usable]
  change (after setup.located loader made names events).jobs.length = _ at started
  change (after setup.located loader made names events).canceled = true ↔ _ at canceled
  generalize after setup.located loader made names events = s at *
  constructor
  case complete => exact ⟨rfl, by simpa [State.results] using roster.length⟩
  case started => exact ⟨⟨s.pending, roster.names⟩, fun i inside => roster.name_at inside⟩
  case unstarted => exact fun i after inside => roster.unstarted after inside
  case success =>
    intro success
    obtain ⟨running, left⟩ := ended.all_started success
    refine ⟨by simpa [left] using roster.length, fun r member f failed => ?_⟩
    obtain ⟨job, inside, rfl⟩ := List.mem_map.mp (by simpa [State.results, left] using member)
    rw [Bool.eq_false_iff]
    intro broken
    rw [roster.canceled job inside f failed broken] at running
    cases running
  case interrupted =>
    intro less
    have left : s.pending ≠ [] := by
      rintro none
      simpa [none, Nat.ne_of_lt less] using roster.length
    have stopped : s.canceled = true := ended.1.resolve_left left
    exact ⟨.of .canceled, by simp [State.failure?, stopped], rfl⟩
  case unhindered =>
    refine ⟨by simpa [begin] using started, ?_⟩
    rw [← show s.canceled = true ↔ .cancel ∈ events by simpa [begin] using canceled]
    simp [State.failure?]

/-- One request is loaded before the cancellation and one after it; a third cannot be loaded,
and the last is never started. -/
def brokenEvents : List Event :=
  [.start, .start, .advance 0, .start, .advance 1, .cancel, .advance 0, .advance 2, .start,
    .advance 0]

theorem mixed_honest : mixedSetup.loader.Honest := by
  intro own t name f failed
  exact (mixed_steady ⟨own, t, false, [], [], [], []⟩).uncanceled name f failed

theorem canceled_runs_account_for_names_broken :
    (run mixedSetup () ⟨[(["out"], .directory)], []⟩ ["a", "d", "c", "b"] brokenEvents).results.map
      (·.map fun r => (r.name, r.path, r.failure.map (·.message))) =
      some [("a", "out/A.txt", none), ("d", "", some "object not found"),
        ("c", "", some "context canceled"), ("", "", none)] ∧
    Accounted ["a", "d", "c", "b"] brokenEvents
      (after mixedSetup.located () ⟨[(["out"], .directory)], []⟩ ["a", "d", "c", "b"] brokenEvents)
      (run mixedSetup () ⟨[(["out"], .directory)], []⟩ ["a", "d", "c", "b"] brokenEvents) := by
  refine ⟨by decide +kernel, canceled_runs_account_for_names mixed_honest (by rfl) ?_⟩
  decide +kernel

end ScriptListing.Batch
