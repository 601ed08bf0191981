import ScriptListing.Proofs.Batch.Writing

/-! What holds along every run. Each request is at one of six points, each path belongs to the
one request that claimed it, and a file is as it was before the run until the owner of a path that
leads there writes it. -/
namespace ScriptListing.Batch

variable {σ : Type}

/-- What a request does to a path: taking it, or writing the text there. -/
inductive Deed where
  | claimed (i : Nat) (path : String)
  | wrote (i : Nat) (path : String)

def Board.deed? (setup : Setup σ) (b : Board) : Event → Option Deed
  | .advance i =>
    match b.jobs[i]? with
    | some ⟨r, .claim _⟩ =>
      if (b.claims.lookup r.path).isNone then some (.claimed i r.path) else none
    | some ⟨r, .write c⟩ =>
      if (Listing.render setup.table {} c).isOk then some (.wrote i r.path) else none
    | _ => none
  | _ => none

def State.deeds (setup : Setup σ) : State σ → List Event → List Deed
  | _, [] => []
  | s, e :: rest => (s.board.deed? setup e).toList ++ deeds setup (s.step setup e) rest

def claimants (path : String) (past : List Deed) : List Nat :=
  past.filterMap fun
    | .claimed i p => if p = path then some i else none
    | .wrote _ _ => none

def writers (path : String) (past : List Deed) : List Nat :=
  past.filterMap fun
    | .claimed _ _ => none
    | .wrote i p => if p = path then some i else none

section

variable {past : List Deed} {path p : String} {i : Nat}

@[simp] theorem claimants_claimed : claimants path (past ++ [.claimed i p]) =
    claimants path past ++ if p = path then [i] else [] := by
  by_cases same : p = path <;> simp [claimants, List.filterMap_append, same]

@[simp] theorem claimants_wrote :
    claimants path (past ++ [.wrote i p]) = claimants path past := by
  simp [claimants, List.filterMap_append]

@[simp] theorem writers_claimed :
    writers path (past ++ [.claimed i p]) = writers path past := by
  simp [writers, List.filterMap_append]

@[simp] theorem writers_wrote : writers path (past ++ [.wrote i p]) =
    writers path past ++ if p = path then [i] else [] := by
  by_cases same : p = path <;> simp [writers, List.filterMap_append, same]

end

section

variable (setup : Setup σ) (classes : String → Attempt Class) (tree : FileTree)
  (requests : List String)

/-- No other path of the run leads to where this one ends, unless there is a directory. -/
def Clear (path : String) : Prop :=
  tree.get? (tree.stop path) ≠ some .directory → ∀ name ∈ requests, ∀ c, classes name = .ok c →
    pathOf setup.directory c ≠ path → tree.walk (pathOf setup.directory c) ≠ .ok (tree.stop path)

/-- A job that holds a path: about to write there, or done with it. The tree it wrote in differs
in texts from the one at the start of the run, and not at the end of a clear path. -/
inductive Holds (path : String) : Job → Prop where
  | writing {name : String} {c : Class} (found : classes name = .ok c)
      (at' : pathOf setup.directory c = path) : Holds path ⟨loaded setup name c, .write c⟩
  | done {name : String} {c : Class} {then' : FileTree} (found : classes name = .ok c)
      (at' : pathOf setup.directory c = path) (beside : FileTree.Beside tree then')
      (calm : Clear setup classes tree requests path →
        then'.get? (tree.stop path) = tree.get? (tree.stop path)) :
      Holds path ⟨written setup then' (loaded setup name c) c, .finished⟩

inductive Fate (claims : List (String × String)) : Job → Prop where
  | new (name : String) : Fate claims ⟨{ name }, .load⟩
  | failed {name : String} {f : Failure} (found : classes name = .error f) :
      Fate claims ⟨{ name, failure := some f }, .finished⟩
  | asking {name : String} {c : Class} (found : classes name = .ok c) :
      Fate claims ⟨loaded setup name c, .claim c⟩
  | lost {name owner : String} {c : Class} (found : classes name = .ok c)
      (taken : claims.lookup (pathOf setup.directory c) = some owner) :
      Fate claims ⟨{ loaded setup name c with duplicateOf := some owner }, .finished⟩
  | held {path : String} {job : Job} (holds : Holds setup classes tree requests path job)
      (own : claims.lookup path = some job.result.name) : Fate claims job

structure Stands (path : String) (content : List UInt8) (job : Job) : Prop where
  holds : Holds setup classes tree requests path job
  finished : job.phase = .finished
  success : job.result.failure = none
  text : ∃ c listing, classes job.result.name = .ok c ∧
    Listing.render setup.table {} c = .ok listing ∧ Text.toBytes listing.text = content

/-- What a file is in the tree `t`: as it was before, or a text that stands at a path that leads
there. -/
def Filed (jobs : List Job) (t : FileTree) (q : FileTree.Location) : Prop :=
  (t.get? q = tree.get? q ∧
    ∀ (k : Nat) (job : Job) (path : String) (content : List UInt8), jobs[k]? = some job →
      Stands setup classes tree requests path content job → tree.walk path ≠ .ok q) ∨
  ∃ (k : Nat) (job : Job) (path : String) (content : List UInt8), jobs[k]? = some job ∧
    Stands setup classes tree requests path content job ∧ tree.walk path = .ok q ∧
    t.get? q = some (.file content)

end

section

variable {setup : Setup σ} {classes : String → Attempt Class} {tree : FileTree}
  {requests : List String} {path : String} {job : Job} {content : List UInt8}

theorem Holds.result_path (holds : Holds setup classes tree requests path job) : job.result.path = path := by
  cases holds with
  | writing found at' => exact at'
  | done found at' => simpa [loaded] using at'

theorem Holds.origin (holds : Holds setup classes tree requests path job) :
    ∃ c, classes job.result.name = .ok c ∧ pathOf setup.directory c = path := by
  cases holds with
  | writing found at' => exact ⟨_, found, at'⟩
  | done found at' => exact ⟨_, by simpa [loaded] using found, at'⟩

theorem Holds.duplicateOf (holds : Holds setup classes tree requests path job) :
    job.result.duplicateOf = none := by
  cases holds with
  | writing found at' => rfl
  | done found at' => simp [loaded]

theorem Holds.phase (holds : Holds setup classes tree requests path job) :
    job.phase = .finished ∨ ∃ c, job.phase = .write c := by
  cases holds with
  | writing found at' => exact .inr ⟨_, rfl⟩
  | done found at' => exact .inl rfl

theorem not_holds_load {r : Result} : ¬ Holds setup classes tree requests path ⟨r, .load⟩ := by
  intro holds
  rcases holds.phase with finished | ⟨c, writing⟩
  · cases finished
  · cases writing

theorem not_holds_claim {r : Result} {c : Class} :
    ¬ Holds setup classes tree requests path ⟨r, .claim c⟩ := by
  intro holds
  rcases holds.phase with finished | ⟨c, writing⟩
  · cases finished
  · cases writing

theorem not_holds_lost {r : Result} {owner : String} :
    ¬ Holds setup classes tree requests path ⟨{ r with duplicateOf := some owner }, .finished⟩ := by
  intro holds
  have none := holds.duplicateOf
  cases none

theorem not_holds_failed {name : String} {f : Failure} :
    ¬ Holds setup classes tree requests path ⟨{ name, failure := some f }, .finished⟩ := by
  intro holds
  obtain ⟨c, found, at'⟩ := holds.origin
  have empty : "" = path := holds.result_path
  exact pathOf_ne_empty setup.directory c (at'.trans empty.symm)

theorem Stands.content_eq {c : Class} {listing : Listing.Result}
    (stands : Stands setup classes tree requests path content job)
    (found : classes job.result.name = .ok c)
    (rendered : Listing.render setup.table {} c = .ok listing) :
    content = Text.toBytes listing.text := by
  obtain ⟨d, listing', found', rendered', rfl⟩ := stands.text
  rw [found'] at found
  cases found
  rw [rendered] at rendered'
  cases rendered'
  rfl

/-- The path of a text that stands leads somewhere, in the tree at the start too. -/
theorem Stands.walk (stands : Stands setup classes tree requests path content job) :
    ∃ q, tree.walk path = .ok q ∧ tree.get? q ≠ some .directory := by
  obtain ⟨holds, finished, success, _⟩ := stands
  cases holds with
  | writing => cases finished
  | @done name c then' found at' beside calm =>
    have success : (written setup then' (loaded setup name c) c).failure = none := success
    obtain ⟨_, q, _, landed⟩ := written_success_iff.mp success
    obtain ⟨walked, free⟩ := FileTree.attempt_ok landed
    rw [at'] at walked
    exact ⟨q, beside.walk_ok_iff.mp walked, fun there => free (beside.directories.mpr there)⟩

/-- A file that is not touched stays what it was as long as the same texts stand. -/
theorem Filed.carry {jobs jobs' : List Job} {t t' : FileTree} {q : FileTree.Location}
    (filed : Filed setup classes tree requests jobs t q) (same : t'.get? q = t.get? q)
    (kept : ∀ {k : Nat} {job : Job} {path : String} {content : List UInt8}, jobs[k]? = some job →
      Stands setup classes tree requests path content job → jobs'[k]? = some job)
    (known : ∀ {k : Nat} {job : Job} {path : String} {content : List UInt8},
      jobs'[k]? = some job → Stands setup classes tree requests path content job →
      tree.walk path = .ok q → jobs[k]? = some job) :
    Filed setup classes tree requests jobs' t' q := by
  rcases filed with ⟨before, none⟩ | ⟨k, job, path, content, at', stands, leads, there⟩
  · exact .inl ⟨same.trans before, fun k job path content at' stands leads =>
      none k job path content (known at' stands leads) stands leads⟩
  · exact .inr ⟨k, job, path, content, kept at' stands, stands, leads, same.trans there⟩

/-- A request that is about to ask for its path has been loaded. -/
theorem Fate.claim {claims : List (String × String)} {r : Result} {c : Class}
    (fate : Fate setup classes tree requests claims ⟨r, .claim c⟩) :
    classes r.name = .ok c ∧ r = loaded setup r.name c := by
  cases fate with
  | asking found => exact ⟨found, rfl⟩
  | held holds => exact absurd holds not_holds_claim

/-- A request that is about to write owns its path. -/
theorem Fate.write {claims : List (String × String)} {r : Result} {c : Class}
    (fate : Fate setup classes tree requests claims ⟨r, .write c⟩) :
    classes r.name = .ok c ∧ r = loaded setup r.name c ∧
      claims.lookup (pathOf setup.directory c) = some r.name := by
  cases fate with
  | held holds own =>
    cases holds with
    | writing found at' => exact ⟨found, rfl, at' ▸ own⟩

theorem Fate.load {claims : List (String × String)} {r : Result}
    (fate : Fate setup classes tree requests claims ⟨r, .load⟩) : r = { name := r.name } := by
  cases fate with
  | new name => rfl
  | held holds => exact absurd holds not_holds_load

/-- Claims that are added do not take a path away. -/
theorem Fate.claimed {claims : List (String × String)} {p name : String}
    (free : claims.lookup p = none) (fate : Fate setup classes tree requests claims job) :
    Fate setup classes tree requests ((p, name) :: claims) job := by
  have kept {q owner : String} (taken : claims.lookup q = some owner) :
      ((p, name) :: claims).lookup q = some owner := by
    have differs : (q == p) = false := by
      rw [beq_eq_false_iff_ne]
      rintro rfl
      rw [free] at taken
      cases taken
    rw [List.lookup_cons, differs]
    exact taken
  cases fate with
  | new name => exact .new name
  | failed found => exact .failed found
  | asking found => exact .asking found
  | lost found taken => exact .lost found (kept taken)
  | held holds own => exact .held holds (kept own)

theorem getElem?_set_iff {jobs : List Job} {i j : Nat} {old new job : Job}
    (at' : jobs[i]? = some old) :
    (jobs.set i new)[j]? = some job ↔ (j = i ∧ job = new) ∨ (j ≠ i ∧ jobs[j]? = some job) := by
  have bound : i < jobs.length := (List.getElem?_eq_some_iff.mp at').1
  by_cases same : j = i
  · subst same
    simp [bound, eq_comm]
  · rw [List.getElem?_set_ne (Ne.symm same)]
    simp [same]

/-- Replacing a job that does not hold a path leaves the one that does. -/
theorem getElem?_set_holder {jobs : List Job} {i k : Nat} {old new : Job}
    (at' : jobs[i]? = some old) (idle : ¬ Holds setup classes tree requests path old)
    (at'' : jobs[k]? = some job) (holds : Holds setup classes tree requests path job) :
    (jobs.set i new)[k]? = some job := by
  refine (getElem?_set_iff at').mpr (.inr ⟨?_, at''⟩)
  rintro rfl
  rw [at'] at at''
  cases at''
  exact idle holds

theorem getElem?_set_other {jobs : List Job} {i k : Nat} {old new : Job}
    (at' : jobs[i]? = some old) (differs : path ≠ old.result.path)
    (at'' : jobs[k]? = some job) (holds : Holds setup classes tree requests path job) :
    (jobs.set i new)[k]? = some job :=
  getElem?_set_holder at' (fun same => differs same.result_path.symm) at'' holds

theorem map_name_set {jobs : List Job} {i : Nat} {old new : Job} (at' : jobs[i]? = some old)
    (name : new.result.name = old.result.name) :
    (jobs.set i new).map (·.result.name) = jobs.map (·.result.name) := by
  refine List.ext_getElem? fun j => ?_
  by_cases same : j = i
  · subst same
    have bound : j < jobs.length := (List.getElem?_eq_some_iff.mp at').1
    rw [List.getElem?_map, List.getElem?_map, List.getElem?_set_self bound, at']
    simp [name]
  · simp [List.getElem?_set_ne (Ne.symm same)]

end

structure Invariant (setup : Setup σ) (classes : String → Attempt Class) (tree : FileTree)
    (requests : List String) (b : Board) (past : List Deed) : Prop where
  names : b.jobs.map (·.result.name) ++ b.pending = requests
  fates : ∀ (i : Nat) (job : Job), b.jobs[i]? = some job → Fate setup classes tree requests b.claims job
  beside : FileTree.Beside tree b.tree
  /-- A path is free or belongs to one request. -/
  owned : ∀ p, (claimants p past = [] ∧ b.claims.lookup p = none) ∨
    ∃ (k : Nat) (job : Job), claimants p past = [k] ∧ b.jobs[k]? = some job ∧
      Holds setup classes tree requests p job ∧ b.claims.lookup p = some job.result.name
  held : ∀ (i : Nat) (job : Job) p, b.jobs[i]? = some job → Holds setup classes tree requests p job →
    claimants p past = [i]
  /-- A path is written by its owner when it finishes, if at all. -/
  wrote : ∀ p, writers p past = [] ∨ ∃ (k : Nat) (job : Job), claimants p past = [k] ∧
    writers p past = [k] ∧ b.jobs[k]? = some job ∧ job.phase = .finished
  files : ∀ q, Filed setup classes tree requests b.jobs b.tree q

namespace Invariant

variable {setup : Setup σ} {classes : String → Attempt Class} {tree : FileTree}
  {requests : List String} {b : Board} {past : List Deed}

theorem start (invariant : Invariant setup classes tree requests b past) {name : String}
    {rest : List String} (left : b.pending = name :: rest) :
    Invariant setup classes tree requests
      { b with pending := rest, jobs := b.jobs ++ [⟨{ name }, .load⟩] } past := by
  have grown {i : Nat} {job : Job} (at' : b.jobs[i]? = some job) :
      (b.jobs ++ [⟨{ name }, .load⟩])[i]? = some job := by
    rw [List.getElem?_append_left (List.getElem?_eq_some_iff.mp at').1, at']
  have split {i : Nat} {job : Job} (at' : (b.jobs ++ [⟨{ name }, .load⟩])[i]? = some job) :
      b.jobs[i]? = some job ∨ job = ⟨{ name }, .load⟩ := by
    by_cases before : i < b.jobs.length
    · rw [List.getElem?_append_left before] at at'
      exact .inl at'
    · rw [List.getElem?_append_right (by omega)] at at'
      exact .inr (by simpa using List.mem_of_getElem? at')
  constructor
  case names => simpa [left] using invariant.names
  case fates =>
    intro i job at'
    rcases split at' with before | rfl
    · exact invariant.fates i job before
    · exact .new name
  case beside => exact invariant.beside
  case owned =>
    intro p
    rcases invariant.owned p with free | ⟨k, job, one, at', holds, own⟩
    · exact .inl free
    · exact .inr ⟨k, job, one, grown at', holds, own⟩
  case held =>
    intro i job p at' holds
    rcases split at' with before | rfl
    · exact invariant.held i job p before holds
    · exact absurd holds not_holds_load
  case wrote =>
    intro p
    rcases invariant.wrote p with none | ⟨k, job, one, wrote, at', finished⟩
    · exact .inl none
    · exact .inr ⟨k, job, one, wrote, grown at', finished⟩
  case files =>
    refine fun q => (invariant.files q).carry rfl (fun at' _ => grown at') fun at' stands _ => ?_
    rcases split at' with before | rfl
    · exact before
    · exact absurd stands.holds not_holds_load

theorem claimant_holds (invariant : Invariant setup classes tree requests b past) {p : String}
    {k : Nat} {job : Job} (one : claimants p past = [k]) (at' : b.jobs[k]? = some job) :
    Holds setup classes tree requests p job := by
  rcases invariant.owned p with ⟨none, _⟩ | ⟨k', job', one', at'', holds, _⟩
  · rw [none] at one
    cases one
  · rw [one] at one'
    cases one'
    rw [at'] at at''
    cases at''
    exact holds

/-- A job that holds nothing goes on to a point where it holds nothing. -/
theorem setJob (invariant : Invariant setup classes tree requests b past) {i : Nat}
    {old new : Job} (at' : b.jobs[i]? = some old) (fate : Fate setup classes tree requests b.claims new)
    (name : new.result.name = old.result.name) (idle : ∀ p, ¬ Holds setup classes tree requests p old)
    (idle' : ∀ p, ¬ Holds setup classes tree requests p new) :
    Invariant setup classes tree requests (b.setJob i new) past := by
  have others {k : Nat} {job : Job} {p : String} (at'' : b.jobs[k]? = some job)
      (holds : Holds setup classes tree requests p job) : (b.jobs.set i new)[k]? = some job :=
    getElem?_set_holder at' (idle p) at'' holds
  constructor
  case names =>
    rw [Board.setJob, map_name_set at' name]
    exact invariant.names
  case fates =>
    intro j job at''
    rcases (getElem?_set_iff at').mp at'' with ⟨rfl, rfl⟩ | ⟨_, before⟩
    · exact fate
    · exact invariant.fates j job before
  case beside => exact invariant.beside
  case owned =>
    intro p
    rcases invariant.owned p with free | ⟨k, job, one, at'', holds, own⟩
    · exact .inl free
    · exact .inr ⟨k, job, one, others at'' holds, holds, own⟩
  case held =>
    intro j job p at'' holds
    rcases (getElem?_set_iff at').mp at'' with ⟨rfl, rfl⟩ | ⟨_, before⟩
    · exact absurd holds (idle' p)
    · exact invariant.held j job p before holds
  case wrote =>
    intro p
    rcases invariant.wrote p with none | ⟨k, job, one, wrote, at'', finished⟩
    · exact .inl none
    · exact .inr ⟨k, job, one, wrote, others at'' (invariant.claimant_holds one at''), finished⟩
  case files =>
    refine fun q => (invariant.files q).carry rfl (fun at'' stands => others at'' stands.holds)
      fun at'' stands _ => ?_
    rcases (getElem?_set_iff at').mp at'' with ⟨rfl, rfl⟩ | ⟨_, before⟩
    · exact absurd stands.holds (idle' _)
    · exact before

/-- A free path goes to the request that asks for it. -/
theorem claim (invariant : Invariant setup classes tree requests b past) {i : Nat} {r : Result}
    {c : Class} (at' : b.jobs[i]? = some ⟨r, .claim c⟩) (free : b.claims.lookup r.path = none) :
    Invariant setup classes tree requests
      { b.setJob i ⟨r, .write c⟩ with claims := (r.path, r.name) :: b.claims }
      (past ++ [.claimed i r.path]) := by
  obtain ⟨found, spelled⟩ := (invariant.fates i _ at').claim
  have path : r.path = pathOf setup.directory c := by rw [spelled]; rfl
  have holds : Holds setup classes tree requests r.path ⟨r, .write c⟩ := by
    rw [path, spelled]
    exact .writing found rfl
  have unclaimed : claimants r.path past = [] := by
    rcases invariant.owned r.path with ⟨none, _⟩ | ⟨_, _, _, _, _, own⟩
    · exact none
    · rw [free] at own
      cases own
  have others {k : Nat} {job : Job} {p : String} (at'' : b.jobs[k]? = some job)
      (held : Holds setup classes tree requests p job) :
      (b.jobs.set i ⟨r, .write c⟩)[k]? = some job :=
    getElem?_set_holder at' not_holds_claim at'' held
  constructor
  case names =>
    have same := @map_name_set b.jobs i _ ⟨r, .write c⟩ at' rfl
    exact (congrArg (· ++ b.pending) same).trans invariant.names
  case fates =>
    intro j job at''
    rcases (getElem?_set_iff at').mp at'' with ⟨rfl, rfl⟩ | ⟨_, before⟩
    · exact .held holds (by simp)
    · exact (invariant.fates j job before).claimed free
  case beside => exact invariant.beside
  case owned =>
    intro p
    by_cases same : r.path = p
    · subst same
      refine .inr ⟨i, ⟨r, .write c⟩, by simp [unclaimed], ?_, holds, by simp⟩
      exact (getElem?_set_iff at').mpr (.inl ⟨rfl, rfl⟩)
    · have differs : (p == r.path) = false := by simpa using Ne.symm same
      rcases invariant.owned p with ⟨none, unowned⟩ | ⟨k, job, one, at'', held, own⟩
      · exact .inl ⟨by simpa [same] using none, by simpa [List.lookup_cons, differs] using unowned⟩
      · exact .inr ⟨k, job, by simpa [same] using one, others at'' held, held,
          by simpa [List.lookup_cons, differs] using own⟩
  case held =>
    intro j job p at'' held
    rcases (getElem?_set_iff at').mp at'' with ⟨rfl, rfl⟩ | ⟨_, before⟩
    · have same : r.path = p := held.result_path
      simp [← same, unclaimed]
    · have one := invariant.held j job p before held
      have differs : r.path ≠ p := by
        rintro rfl
        rw [unclaimed] at one
        cases one
      simpa [differs] using one
  case wrote =>
    intro p
    rcases invariant.wrote p with none | ⟨k, job, one, wrote, at'', finished⟩
    · exact .inl (by simpa using none)
    · have differs : r.path ≠ p := by
        rintro rfl
        rw [unclaimed] at one
        cases one
      exact .inr ⟨k, job, by simpa [differs] using one, by simpa using wrote,
        others at'' (invariant.claimant_holds one at''), finished⟩
  case files =>
    refine fun q => (invariant.files q).carry rfl (fun at'' stands => others at'' stands.holds)
      fun at'' stands _ => ?_
    rcases (getElem?_set_iff at').mp at'' with ⟨rfl, rfl⟩ | ⟨_, before⟩
    · exact absurd stands.finished (by simp)
    · exact before

theorem name_at (invariant : Invariant setup classes tree requests b past) {k : Nat} {job : Job}
    (at' : b.jobs[k]? = some job) : requests[k]? = some job.result.name := by
  have bound := (List.getElem?_eq_some_iff.mp at').1
  rw [← invariant.names, List.getElem?_append_left (by simpa using bound), List.getElem?_map, at']
  rfl

/-- A text where a clear path ends stands at that path. -/
theorem path_of_clear (invariant : Invariant setup classes tree requests b past) {path p : String}
    (clear : Clear setup classes tree requests path) {k : Nat} {job : Job} {content : List UInt8}
    (at' : b.jobs[k]? = some job) (stands : Stands setup classes tree requests p content job)
    (leads : tree.walk p = .ok (tree.stop path)) : p = path := by
  obtain ⟨c, found, rfl⟩ := stands.holds.origin
  obtain ⟨q, walked, free⟩ := stands.walk
  rw [leads] at walked
  cases walked
  by_contra differs
  exact clear free _ (List.mem_of_getElem? (invariant.name_at at')) c found differs leads

/-- Where a clear path ends all is as before until its own text stands there. -/
theorem calm (invariant : Invariant setup classes tree requests b past) {path : String}
    (clear : Clear setup classes tree requests path)
    (unstood : ∀ (k : Nat) (job : Job) (content : List UInt8), b.jobs[k]? = some job →
      ¬ Stands setup classes tree requests path content job) :
    b.tree.get? (tree.stop path) = tree.get? (tree.stop path) := by
  rcases invariant.files (tree.stop path) with
    ⟨same, _⟩ | ⟨k, job, p, content, at', stands, leads, _⟩
  · exact same
  · obtain rfl := invariant.path_of_clear clear at' stands leads
    exact absurd stands (unstood k job content at')

section

variable (invariant : Invariant setup classes tree requests b past) {i : Nat} {r : Result} {c : Class}
  (at' : b.jobs[i]? = some ⟨r, .write c⟩)
include invariant at'

theorem writer_path : r.path = pathOf setup.directory c := by
  obtain ⟨_, spelled, _⟩ := (invariant.fates i _ at').write
  rw [spelled]
  rfl

theorem claimants_of_writer : claimants r.path past = [i] := by
  obtain ⟨found, spelled, _⟩ := (invariant.fates i _ at').write
  refine invariant.held i _ _ at' ?_
  rw [invariant.writer_path at', spelled]
  exact .writing found rfl

/-- A path is not written before its owner does. -/
theorem unwritten_of_writer {k : Nat} {job : Job} (at'' : b.jobs[k]? = some job)
    (held : Holds setup classes tree requests r.path job) : job.phase ≠ .finished := by
  have one := invariant.held k job _ at'' held
  rw [invariant.claimants_of_writer at'] at one
  cases one
  rw [at'] at at''
  cases at''
  simp

theorem writers_of_writer : writers r.path past = [] := by
  rcases invariant.wrote r.path with none | ⟨k, job, one, _, at'', finished⟩
  · exact none
  · exact absurd finished (invariant.unwritten_of_writer at' at'' (invariant.claimant_holds one at''))

theorem written_holds :
    Holds setup classes tree requests r.path ⟨written setup b.tree r c, .finished⟩ := by
  obtain ⟨found, spelled, _⟩ := (invariant.fates i _ at').write
  have calm (clear : Clear setup classes tree requests r.path) :=
    invariant.calm clear fun k job content at'' stands =>
      invariant.unwritten_of_writer at' at'' stands.holds stands.finished
  rw [invariant.writer_path at'] at calm ⊢
  rw [spelled]
  exact .done found rfl invariant.beside calm

/-- A write puts a text where its path leads, or leaves all files as they are. -/
theorem write_files (q : FileTree.Location) : Filed setup classes tree requests
    (b.jobs.set i ⟨written setup b.tree r c, .finished⟩) (treeAfter setup b.tree r c) q := by
  obtain ⟨found, spelled, _⟩ := (invariant.fates i _ at').write
  have here : (b.jobs.set i ⟨written setup b.tree r c, .finished⟩)[i]? =
      some ⟨written setup b.tree r c, .finished⟩ :=
    (getElem?_set_iff at').mpr (.inl ⟨rfl, rfl⟩)
  -- A text that stands still does, as the job that writes is another one.
  have stays {k : Nat} {job : Job} {p : String} {content : List UInt8}
      (at'' : b.jobs[k]? = some job)
      (stands : Stands setup classes tree requests p content job) :
      (b.jobs.set i ⟨written setup b.tree r c, .finished⟩)[k]? = some job := by
    refine getElem?_set_other at' ?_ at'' stands.holds
    rintro rfl
    exact invariant.unwritten_of_writer at' at'' stands.holds stands.finished
  have outcome := @treeAfter_cases σ setup r.name c b.tree
  rw [← spelled] at outcome
  rcases outcome with ⟨listing, target, rendered, walked, free, final, success⟩ | ⟨final, failed⟩
  · have walked : tree.walk r.path = .ok target := by
      rw [invariant.writer_path at']
      exact invariant.beside.walk_ok_iff.mp walked
    have inside : target ≠ [] := by
      rintro rfl
      exact free rfl
    by_cases same : q = target
    · subst same
      refine .inr ⟨i, _, r.path, _, here, ⟨invariant.written_holds at', rfl, success, c, listing,
        by simpa using found, rendered, rfl⟩, walked, ?_⟩
      rw [final, FileTree.get?_put inside, if_pos rfl]
    · refine (invariant.files q).carry ?_ stays fun at'' stands leads => ?_
      · rw [final, FileTree.get?_put inside, if_neg same]
      · rcases (getElem?_set_iff at').mp at'' with ⟨rfl, rfl⟩ | ⟨_, before⟩
        · have own := stands.holds.result_path
          rw [← own, written_path, walked] at leads
          exact absurd (Except.ok.inj leads).symm same
        · exact before
  · refine (invariant.files q).carry (by rw [final]) stays fun at'' stands _ => ?_
    rcases (getElem?_set_iff at').mp at'' with ⟨rfl, rfl⟩ | ⟨_, before⟩
    · exact absurd stands.success failed
    · exact before

/-- The owner of a path writes its text there, or fails and leaves the file. -/
theorem write {deed : List Deed} (only : deed = [] ∨ deed = [.wrote i r.path]) :
    Invariant setup classes tree requests
      { b.setJob i ⟨written setup b.tree r c, .finished⟩ with
        tree := treeAfter setup b.tree r c } (past ++ deed) := by
  obtain ⟨found, spelled, own⟩ := (invariant.fates i _ at').write
  have mine := invariant.claimants_of_writer at'
  have holds := invariant.written_holds at'
  have owner : b.claims.lookup r.path = some (written setup b.tree r c).name := by
    rw [invariant.writer_path at', written_name]
    exact own
  have sameClaims (p : String) : claimants p (past ++ deed) = claimants p past := by
    rcases only with rfl | rfl <;> simp
  have here : (b.jobs.set i ⟨written setup b.tree r c, .finished⟩)[i]? =
      some ⟨written setup b.tree r c, .finished⟩ :=
    (getElem?_set_iff at').mpr (.inl ⟨rfl, rfl⟩)
  constructor
  case names =>
    have same := @map_name_set b.jobs i _ ⟨written setup b.tree r c, .finished⟩ at' (by simp)
    exact (congrArg (· ++ b.pending) same).trans invariant.names
  case fates =>
    intro j job at''
    rcases (getElem?_set_iff at').mp at'' with ⟨rfl, rfl⟩ | ⟨_, before⟩
    · exact .held holds owner
    · exact invariant.fates j job before
  case beside =>
    rw [spelled]
    exact treeAfter_beside invariant.beside
  case owned =>
    intro p
    rw [sameClaims]
    rcases invariant.owned p with free | ⟨k, job, one, at'', held, own'⟩
    · exact .inl free
    · by_cases same : p = r.path
      · subst same
        exact .inr ⟨i, _, mine, here, holds, owner⟩
      · exact .inr ⟨k, job, one, getElem?_set_other at' same at'' held, held, own'⟩
  case held =>
    intro j job p at'' held
    rw [sameClaims]
    rcases (getElem?_set_iff at').mp at'' with ⟨rfl, rfl⟩ | ⟨_, before⟩
    · have same : r.path = p := by simpa using held.result_path
      rw [← same]
      exact mine
    · exact invariant.held j job p before held
  case wrote =>
    intro p
    rw [sameClaims]
    by_cases same : p = r.path
    · subst same
      have unwritten := invariant.writers_of_writer at'
      rcases only with rfl | rfl
      · exact .inl (by simpa using unwritten)
      · exact .inr ⟨i, _, mine, by simp [unwritten], here, rfl⟩
    · have sameWriters : writers p (past ++ deed) = writers p past := by
        rcases only with rfl | rfl <;> simp [Ne.symm same]
      rw [sameWriters]
      rcases invariant.wrote p with none | ⟨k, job, one, wrote, at'', finished⟩
      · exact .inl none
      · exact .inr ⟨k, job, one, wrote, getElem?_set_other at' same at''
          (invariant.claimant_holds one at''), finished⟩
  case files => exact invariant.write_files at'

end

theorem load (invariant : Invariant setup classes tree requests b past) {i : Nat} {r : Result}
    (at' : b.jobs[i]? = some ⟨r, .load⟩) :
    Invariant setup classes tree requests (b.advance setup classes i ⟨r, .load⟩) past := by
  have spelled := (invariant.fates i _ at').load
  unfold Board.advance
  cases found : classes r.name with
  | error f =>
    refine invariant.setJob at' ?_ rfl (fun _ => not_holds_load) (fun p => ?_)
    · rw [spelled]
      exact .failed found
    · rw [spelled]
      exact not_holds_failed
  | ok c =>
    refine invariant.setJob at' ?_ rfl (fun _ => not_holds_load) (fun _ => not_holds_claim)
    rw [spelled]
    exact .asking found

/-- A step of the board keeps the invariant, with what the step did. -/
theorem step (invariant : Invariant setup classes tree requests b past) (e : Event) :
    Invariant setup classes tree requests (b.step setup classes e)
      (past ++ (b.deed? setup e).toList) := by
  cases e with
  | cancel => simpa [Board.step, Board.deed?] using invariant
  | start =>
    cases left : b.pending with
    | nil => simpa [Board.step, Board.deed?, left] using invariant
    | cons name rest => simpa [Board.step, Board.deed?, left] using invariant.start left
  | advance i =>
    cases at' : b.jobs[i]? with
    | none => simpa [Board.step, Board.deed?, at'] using invariant
    | some job =>
      obtain ⟨r, phase⟩ := job
      cases phase with
      | load => simpa [Board.step, Board.deed?, at'] using invariant.load at'
      | finished => simpa [Board.step, Board.deed?, at', Board.advance] using invariant
      | claim c =>
        cases taken : b.claims.lookup r.path with
        | none =>
          simpa [Board.step, Board.deed?, at', Board.advance, taken] using invariant.claim at' taken
        | some owner =>
          obtain ⟨found, spelled⟩ := (invariant.fates i _ at').claim
          have path : r.path = pathOf setup.directory c := by rw [spelled]; rfl
          have fate : Fate setup classes tree requests b.claims
              ⟨{ r with duplicateOf := some owner }, .finished⟩ := by
            rw [path] at taken
            rw [spelled]
            exact .lost found taken
          simpa [Board.step, Board.deed?, at', Board.advance, taken] using
            invariant.setJob at' fate rfl (fun _ => not_holds_claim) (fun _ => not_holds_lost)
      | write c =>
        have only : (b.deed? setup (.advance i)).toList = [] ∨
            (b.deed? setup (.advance i)).toList = [.wrote i r.path] := by
          simp only [Board.deed?, at']
          split
          · exact .inr rfl
          · exact .inl rfl
        have next := invariant.write at' only
        simpa only [Board.step, at', Board.advance] using next

end Invariant

section

variable {setup : Setup σ} {classes : String → Attempt Class} {tree : FileTree}
  {requests : List String} {s : State σ} {past : List Deed} {events : List Event}

/-- Every run without cancellation keeps the invariant, with what it did. -/
theorem execute_invariant (steady : Steady setup classes s) (running : s.canceled = false)
    (invariant : Invariant setup classes tree requests s.board past)
    (uncanceled : .cancel ∉ events) :
    Invariant setup classes tree requests (s.execute setup events).board
        (past ++ s.deeds setup events) ∧
      (s.execute setup events).canceled = false := by
  induction events generalizing s past with
  | nil => simpa [State.deeds, State.execute] using ⟨invariant, running⟩
  | cons e rest ih =>
    have notCancel : e ≠ .cancel := by
      rintro rfl
      exact uncanceled (by simp)
    obtain ⟨same, still⟩ := board_step steady running notCancel
    have next := invariant.step e
    rw [← same] at next
    have later := ih (steady.step notCancel) still next fun member => uncanceled (by simp [member])
    simpa only [State.deeds, State.execute, List.foldl_cons, List.append_assoc] using later

def begin (loader : σ) (tree : FileTree) (names : List String) : State σ :=
  { loader, tree, pending := names }

theorem begin_invariant (loader : σ) (names : List String) :
    Invariant setup classes tree names (begin loader tree names).board [] := by
  have none {i : Nat} {job : Job} : (begin loader tree names).board.jobs[i]? ≠ some job := by
    simp [begin, State.board]
  constructor
  case names => rfl
  case fates => exact fun i job at' => absurd at' none
  case beside => exact .refl tree
  case owned => exact fun p => .inl ⟨rfl, rfl⟩
  case held => exact fun i job p at' => absurd at' none
  case wrote => exact fun p => .inl rfl
  case files => exact fun q => .inl ⟨rfl, fun k job path content at' => absurd at' none⟩

end

end ScriptListing.Batch
