import ScriptListing.Batch

/-! A run without cancellation, on what its requests share. A loader that answers by the name
alone leaves the names, the jobs, the claims and the files; each step is a function of these. -/
namespace ScriptListing.Batch

variable {σ : Type}

/-- From a state on, the loader answers by the name alone, whatever steps come between, and
without a cancellation of its own. -/
structure Steady (setup : Setup σ) (classes : String → Attempt Class) (s : State σ) : Prop where
  answers : ∀ (events : List Event), .cancel ∉ events → ∀ name,
    (setup.loader.load (s.execute setup events).loader (s.execute setup events).tree false name).1 =
      classes name
  uncanceled : ∀ name f, classes name = .error f → f.isCanceled = false

def loaded (setup : Setup σ) (name : String) (c : Class) : Result :=
  { name, className := c.name, path := pathOf setup.directory c }

def written (setup : Setup σ) (t : FileTree) (r : Result) (c : Class) : Result :=
  match Listing.render setup.table {} c with
  | .error breakdown => { r with failure := some (.of (.lookup breakdown.message)) }
  | .ok listing =>
    { r with
      faults := listing.faults
      failure := match (t.publish (setup.hazards r.path) r.path
          (Text.toBytes listing.text)).written with
        | .ok _ => none
        | .error e => some (Failure.within ("write " ++ c.name) (.of (.file e))) }

def treeAfter (setup : Setup σ) (t : FileTree) (r : Result) (c : Class) : FileTree :=
  match Listing.render setup.table {} c with
  | .error _ => t
  | .ok listing => (t.publish (setup.hazards r.path) r.path (Text.toBytes listing.text)).final

structure Board where
  pending : List String
  jobs : List Job
  claims : List (String × String)
  tree : FileTree

def State.board (s : State σ) : Board := ⟨s.pending, s.jobs, s.claims, s.tree⟩

namespace Board

def setJob (b : Board) (i : Nat) (job : Job) : Board := { b with jobs := b.jobs.set i job }

def advance (setup : Setup σ) (classes : String → Attempt Class) (b : Board) (i : Nat)
    (job : Job) : Board :=
  match job.phase with
  | .load =>
    match classes job.result.name with
    | .error f => b.setJob i ⟨{ job.result with failure := some f }, .finished⟩
    | .ok c =>
      b.setJob i ⟨{ job.result with className := c.name, path := pathOf setup.directory c },
        .claim c⟩
  | .claim c =>
    match b.claims.lookup job.result.path with
    | some owner => b.setJob i ⟨{ job.result with duplicateOf := some owner }, .finished⟩
    | none => { b.setJob i ⟨job.result, .write c⟩ with
        claims := (job.result.path, job.result.name) :: b.claims }
  | .write c =>
    { b.setJob i ⟨written setup b.tree job.result c, .finished⟩ with
      tree := treeAfter setup b.tree job.result c }
  | .finished => b

def step (setup : Setup σ) (classes : String → Attempt Class) (b : Board) : Event → Board
  | .start =>
    match b.pending with
    | name :: rest => { b with pending := rest, jobs := b.jobs ++ [⟨{ name }, .load⟩] }
    | [] => b
  | .advance i =>
    match b.jobs[i]? with
    | some job => b.advance setup classes i job
    | none => b
  | .cancel => b

end Board

section

variable {setup : Setup σ} {classes : String → Attempt Class} {s : State σ}

theorem Steady.execute (steady : Steady setup classes s) {events : List Event}
    (uncanceled : .cancel ∉ events) : Steady setup classes (s.execute setup events) where
  answers later others name := by
    have joined : (s.execute setup events).execute setup later =
        s.execute setup (events ++ later) := by
      simp only [State.execute, List.foldl_append]
    rw [joined]
    refine steady.answers (events ++ later) ?_ name
    simp [uncanceled, others]
  uncanceled := steady.uncanceled

theorem Steady.step (steady : Steady setup classes s) {e : Event} (uncanceled : e ≠ .cancel) :
    Steady setup classes (s.step setup e) := by
  have alone : .cancel ∉ [e] := by simpa using uncanceled.symm
  exact steady.execute alone

theorem board_load (steady : Steady setup classes s) (running : s.canceled = false) (i : Nat)
    (r : Result) : (s.load setup i r).board = s.board.advance setup classes i ⟨r, .load⟩ ∧
      (s.load setup i r).canceled = false := by
  have answer : (setup.loader.load s.loader s.tree false r.name).1 = classes r.name :=
    steady.answers [] List.not_mem_nil r.name
  unfold State.load
  rw [running]
  cases answered : setup.loader.load s.loader s.tree false r.name with
  | mk outcome after =>
    rw [answered] at answer
    simp only at answer
    subst answer
    cases found : classes r.name with
    | error f =>
      simp only [Board.advance, found]
      exact ⟨rfl, by simp [steady.uncanceled r.name f found]⟩
    | ok c =>
      simp only [Board.advance, found]
      exact ⟨rfl, rfl⟩

theorem board_claim (i : Nat) (r : Result) (c : Class) :
    (s.claim i r c).board = s.board.advance setup classes i ⟨r, .claim c⟩ ∧
      (s.claim i r c).canceled = s.canceled := by
  cases found : s.claims.lookup r.path with
  | none =>
    simp only [State.claim, Board.advance, State.board, found]
    exact ⟨rfl, rfl⟩
  | some owner =>
    simp only [State.claim, Board.advance, State.board, found]
    exact ⟨rfl, rfl⟩

theorem board_write (i : Nat) (r : Result) (c : Class) :
    (s.write setup i r c).board = s.board.advance setup classes i ⟨r, .write c⟩ ∧
      (s.write setup i r c).canceled = s.canceled := by
  cases rendered : Listing.render setup.table {} c with
  | error breakdown =>
    simp only [State.write, Board.advance, State.board, written, treeAfter, rendered]
    exact ⟨rfl, rfl⟩
  | ok listing =>
    simp only [State.write, Board.advance, State.board, written, treeAfter, rendered]
    generalize s.tree.publish (setup.hazards r.path) r.path (Text.toBytes listing.text) = published
    exact ⟨rfl, rfl⟩

theorem board_step (steady : Steady setup classes s) (running : s.canceled = false) {e : Event}
    (uncanceled : e ≠ .cancel) :
    (s.step setup e).board = s.board.step setup classes e ∧
      (s.step setup e).canceled = false := by
  cases e with
  | start =>
    cases left : s.pending with
    | nil =>
      simp only [State.step, State.start, Board.step, State.board, left]
      exact ⟨trivial, running⟩
    | cons name rest =>
      simp only [State.step, State.start, Board.step, State.board, left, running]
      exact ⟨rfl, rfl⟩
  | advance i =>
    have jobs : s.board.jobs = s.jobs := rfl
    cases at' : s.jobs[i]? with
    | none =>
      simp only [State.step, Board.step, jobs, at']
      exact ⟨trivial, running⟩
    | some job =>
      simp only [State.step, Board.step, jobs, at']
      obtain ⟨r, phase⟩ := job
      cases phase with
      | load => exact board_load steady running i r
      | claim c =>
        obtain ⟨same, kept⟩ := @board_claim σ setup classes s i r c
        exact ⟨same, kept.trans running⟩
      | write c =>
        obtain ⟨same, kept⟩ := @board_write σ setup classes s i r c
        exact ⟨same, kept.trans running⟩
      | finished => exact ⟨rfl, running⟩
  | cancel => exact absurd rfl uncanceled

end

end ScriptListing.Batch
