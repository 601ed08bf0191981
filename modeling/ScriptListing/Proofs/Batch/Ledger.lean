import ScriptListing.Proofs.Batch.Cancellation

/-! The books of a run. Whatever the loader answers and wherever the run is canceled, the state
of each request is told by what it heard and by who claimed which path. -/
namespace ScriptListing.Batch

variable {σ : Type}

/-- What a request hears: the answer of the loader, then how writing its text went. -/
inductive Word where
  | answer (loaded : Attempt Class)
  | outcome (written : Except FileTree.Error Nat)

inductive Word.IsFailure : Word → Prop where
  | answer (f : Failure) : IsFailure (.answer (.error f))
  | outcome (e : FileTree.Error) : IsFailure (.outcome (.error e))

/-- How writing a class in a tree goes, if there is a text to write. -/
def outcomes (setup : Setup σ) (t : FileTree) (r : Result) (c : Class) : List Word :=
  match Listing.render setup.table {} c with
  | .error _ => []
  | .ok listing =>
    [.outcome (t.publish (setup.hazards r.path) r.path (Text.toBytes listing.text)).written]

def State.hears (setup : Setup σ) (s : State σ) : Event → List (Nat × Word)
  | .advance i =>
    match s.jobs[i]? with
    | some ⟨r, .load⟩ =>
      [(i, .answer (setup.loader.load s.loader s.tree s.canceled r.name).1)]
    | some ⟨r, .write c⟩ => (outcomes setup s.tree r c).map (i, ·)
    | _ => []
  | _ => []

def State.words (setup : Setup σ) : State σ → List Event → List (Nat × Word)
  | _, [] => []
  | s, e :: rest => s.hears setup e ++ words setup (s.step setup e) rest

def heardBy (i : Nat) (said : List (Nat × Word)) : List Word :=
  said.filterMap fun (k, w) => if k = i then some w else none

section

variable {i j : Nat} {said : List (Nat × Word)} {w : Word}

theorem mem_heardBy : w ∈ heardBy i said ↔ (i, w) ∈ said := by
  simp [heardBy, List.mem_filterMap]

@[simp] theorem heardBy_own (ws : List Word) :
    heardBy i (said ++ ws.map (i, ·)) = heardBy i said ++ ws := by
  simp [heardBy, List.filterMap_append, List.filterMap_map]

theorem heardBy_other (other : j ≠ i) (ws : List Word) :
    heardBy j (said ++ ws.map (i, ·)) = heardBy j said := by
  simp [heardBy, List.filterMap_append, List.filterMap_map, other.symm]

end

/-- A request has heard of a class that a file can be named for, and then `later`. -/
structure Heard (said : List (Nat × Word)) (i : Nat) (c : Class) (later : List Word) : Prop where
  words : heardBy i said = .answer (.ok c) :: later
  plain : '/' ∉ c.name.toList

/-- Where a request can be, by what was claimed and said. -/
inductive Point (setup : Setup σ) (past : List Deed) (said : List (Nat × Word))
    (claims : List (String × String)) (tree : FileTree) (i : Nat) : Job → Prop where
  | new {name : String} (silence : heardBy i said = []) :
      Point setup past said claims tree i ⟨{ name }, .load⟩
  | failed {name : String} {f : Failure} (heard : heardBy i said = [.answer (.error f)]) :
      Point setup past said claims tree i ⟨{ name, failure := some f }, .finished⟩
  | asking {name : String} {c : Class} (heard : Heard said i c [])
      (unowned : i ∉ claimants (pathOf setup.directory c) past) :
      Point setup past said claims tree i ⟨loaded setup name c, .claim c⟩
  | lost {name owner : String} {c : Class} (heard : Heard said i c [])
      (unowned : i ∉ claimants (pathOf setup.directory c) past)
      (taken : claims.lookup (pathOf setup.directory c) = some owner) :
      Point setup past said claims tree i
        ⟨{ loaded setup name c with duplicateOf := some owner }, .finished⟩
  | writing {name : String} {c : Class} (heard : Heard said i c [])
      (owned : claimants (pathOf setup.directory c) past = [i]) :
      Point setup past said claims tree i ⟨loaded setup name c, .write c⟩
  /-- What was written stands, whatever was done to the tree since. -/
  | done {name : String} {c : Class} {then' : FileTree}
      (heard : Heard said i c (outcomes setup then' (loaded setup name c) c))
      (owned : claimants (pathOf setup.directory c) past = [i])
      (stands : (written setup then' (loaded setup name c) c).failure = none →
        ∃ listing, Listing.render setup.table {} c = .ok listing ∧
          tree.read (pathOf setup.directory c) = .ok (Text.toBytes listing.text)) :
      Point setup past said claims tree i ⟨written setup then' (loaded setup name c) c, .finished⟩

structure Ledger (setup : Setup σ) (requests : List String) (s : State σ) (past : List Deed)
    (said : List (Nat × Word)) : Prop where
  names : s.jobs.map (·.result.name) ++ s.pending = requests
  points : ∀ (i : Nat) (job : Job), s.jobs[i]? = some job →
    Point setup past said s.claims s.tree i job
  unheard : ∀ i, s.jobs.length ≤ i → heardBy i said = []
  /-- A path is free or has one owner. -/
  owned : ∀ p, (claimants p past = [] ∧ s.claims.lookup p = none) ∨
    ∃ (k : Nat) (first : String), claimants p past = [k] ∧ requests[k]? = some first ∧
      s.claims.lookup p = some first
  /-- A path is claimed for a class that the request has heard of. -/
  origin : ∀ p, ∀ k ∈ claimants p past, ∃ c later, Heard said k c later ∧
    pathOf setup.directory c = p

/-- Request `i` was answered with `c`; the file named for it was claimed by `k` alone, for the
class `d`, and holds the whole text of `d`. -/
structure Stored (setup : Setup σ) (past : List Deed) (said : List (Nat × Word)) (tree : FileTree)
    (i : Nat) (c : Class) (k : Nat) (d : Class) : Prop where
  answered : (i, .answer (.ok c)) ∈ said
  claimed : claimants (pathOf setup.directory c) past = [k]
  owner : (k, .answer (.ok d)) ∈ said
  same : d.name = c.name
  whole : ∃ listing, Listing.render setup.table {} d = .ok listing ∧
    tree.read (pathOf setup.directory c) = .ok (Text.toBytes listing.text)

/-- A loader of classes that files can be named for. -/
def Loader.Plain (loader : Loader σ) : Prop :=
  ∀ own t canceled name c, (loader.load own t canceled name).1 = .ok c → '/' ∉ c.name.toList

section

variable {setup : Setup σ} {past past' : List Deed} {said said' : List (Nat × Word)}
  {claims claims' : List (String × String)} {tree tree' : FileTree} {i : Nat} {job : Job}

/-- What others do leaves a request where it is. -/
theorem Point.beside (point : Point setup past said claims tree i job)
    (words : heardBy i said' = heardBy i said)
    (owned : ∀ p, claimants p past = [i] → claimants p past' = [i])
    (unowned : ∀ p, i ∉ claimants p past → i ∉ claimants p past')
    (taken : ∀ p owner, claims.lookup p = some owner → claims'.lookup p = some owner)
    (reads : ∀ c : Class, '/' ∉ c.name.toList → claimants (pathOf setup.directory c) past = [i] →
      tree'.read (pathOf setup.directory c) = tree.read (pathOf setup.directory c)) :
    Point setup past' said' claims' tree' i job := by
  have still {c : Class} {later : List Word} (heard : Heard said i c later) :
      Heard said' i c later := ⟨words.trans heard.words, heard.plain⟩
  cases point with
  | new silence => exact .new (words.trans silence)
  | failed heard => exact .failed (words.trans heard)
  | asking heard away => exact .asking (still heard) (unowned _ away)
  | lost heard away other => exact .lost (still heard) (unowned _ away) (taken _ _ other)
  | writing heard mine => exact .writing (still heard) (owned _ mine)
  | done heard mine stands =>
    refine .done (still heard) (owned _ mine) fun success => ?_
    obtain ⟨listing, rendered, read⟩ := stands success
    exact ⟨listing, rendered, (reads _ heard.plain mine).trans read⟩

theorem Point.load {r : Result} (point : Point setup past said claims tree i ⟨r, .load⟩) :
    r = { name := r.name } ∧ heardBy i said = [] := by
  cases point with
  | new silence => exact ⟨rfl, silence⟩

theorem Point.claim {r : Result} {c : Class}
    (point : Point setup past said claims tree i ⟨r, .claim c⟩) :
    r = loaded setup r.name c ∧ Heard said i c [] ∧
      i ∉ claimants (pathOf setup.directory c) past := by
  cases point with
  | asking heard unowned => exact ⟨rfl, heard, unowned⟩

theorem Point.write {r : Result} {c : Class}
    (point : Point setup past said claims tree i ⟨r, .write c⟩) :
    r = loaded setup r.name c ∧ Heard said i c [] ∧
      claimants (pathOf setup.directory c) past = [i] := by
  cases point with
  | writing heard owned => exact ⟨rfl, heard, owned⟩

theorem answer_notMem_outcomes {t : FileTree} {r : Result} {c : Class} {loaded : Attempt Class} :
    Word.answer loaded ∉ outcomes setup t r c := by
  unfold outcomes
  split <;> simp

/-- A request that has heard of a class is for the file named for it. -/
theorem Point.loaded {c : Class} (point : Point setup past said claims tree i job)
    (heard : .answer (.ok c) ∈ heardBy i said) :
    job.result.className = c.name ∧ job.result.path = pathOf setup.directory c := by
  have same {d : Class} {later : List Word} (known : Heard said i d later)
      (silent : .answer (.ok c) ∉ later) : d = c := by
    rw [known.words, List.mem_cons] at heard
    exact (Except.ok.inj (Word.answer.inj (heard.resolve_right silent))).symm
  cases point with
  | new silence =>
    rw [silence] at heard
    cases heard
  | failed known => simp [known] at heard
  | asking known | lost known | writing known =>
    obtain rfl := same known (by simp)
    exact ⟨rfl, rfl⟩
  | done known =>
    obtain rfl := same known answer_notMem_outcomes
    exact ⟨by simp [Batch.loaded], by simp [Batch.loaded]⟩

end

namespace Ledger

variable {setup : Setup σ} {requests : List String} {s s' : State σ} {past : List Deed}
  {said : List (Nat × Word)} {i : Nat}

theorem begin (loader : σ) (tree : FileTree) :
    Ledger setup requests (begin loader tree requests) [] [] where
  names := rfl
  points i job at' := by simp [Batch.begin] at at'
  unheard _ _ := rfl
  owned _ := .inl ⟨rfl, rfl⟩
  origin _ _ member := by simp [claimants] at member

section

variable (ledger : Ledger setup requests s past said)
include ledger

theorem name_at {job : Job} (at' : s.jobs[i]? = some job) :
    requests[i]? = some job.result.name := by
  have bound := (List.getElem?_eq_some_iff.mp at').1
  rw [← ledger.names, List.getElem?_append_left (by simpa using bound), List.getElem?_map, at']
  rfl

/-- Whoever has heard something was started. -/
theorem exists_job {w : Word} (heard : w ∈ heardBy i said) : ∃ job, s.jobs[i]? = some job := by
  have inside : i < s.jobs.length := by
    by_contra out
    rw [ledger.unheard i (by omega)] at heard
    cases heard
  exact ⟨_, List.getElem?_eq_getElem inside⟩

theorem unowned_of_silence (silence : heardBy i said = []) (p : String) :
    i ∉ claimants p past := by
  intro member
  obtain ⟨c, later, heard, _⟩ := ledger.origin p i member
  have words := heard.words
  rw [silence] at words
  cases words

/-- A request that hears something new and claims nothing. -/
theorem hear {old new : Job} {ws : List Word} {past' : List Deed}
    (at' : s.jobs[i]? = some old) (jobs : s'.jobs = s.jobs.set i new)
    (pending : s'.pending = s.pending) (claims : s'.claims = s.claims)
    (name : new.result.name = old.result.name)
    (deeds : ∀ p, claimants p past' = claimants p past)
    (reads : ∀ j ≠ i, ∀ c : Class, '/' ∉ c.name.toList →
      claimants (pathOf setup.directory c) past = [j] →
      s'.tree.read (pathOf setup.directory c) = s.tree.read (pathOf setup.directory c))
    (point : Point setup past' (said ++ ws.map (i, ·)) s'.claims s'.tree i new) :
    Ledger setup requests s' past' (said ++ ws.map (i, ·)) := by
  have others {j : Nat} (other : j ≠ i) :
      heardBy j (said ++ ws.map (i, ·)) = heardBy j said := heardBy_other other ws
  constructor
  case names => rw [jobs, pending, map_name_set at' name, ledger.names]
  case points =>
    intro j job at''
    rw [jobs] at at''
    rcases (getElem?_set_iff at').mp at'' with ⟨rfl, rfl⟩ | ⟨other, before⟩
    · exact point
    · refine (ledger.points j job before).beside (others other) ?_ ?_ ?_ (reads j other)
      · exact fun p mine => (deeds p).trans mine
      · exact fun p away => by rwa [deeds p]
      · exact fun p owner taken => by rwa [claims]
  case unheard =>
    intro j out
    rw [jobs, List.length_set] at out
    have bound := (List.getElem?_eq_some_iff.mp at').1
    rw [others (by omega), ledger.unheard j out]
  case owned =>
    intro p
    rw [deeds, claims]
    exact ledger.owned p
  case origin =>
    intro p k member
    rw [deeds] at member
    obtain ⟨c, later, heard, spelled⟩ := ledger.origin p k member
    by_cases same : k = i
    · subst same
      refine ⟨c, later ++ ws, ⟨?_, heard.plain⟩, spelled⟩
      rw [heardBy_own, heard.words, List.cons_append]
    · exact ⟨c, later, ⟨(others same).trans heard.words, heard.plain⟩, spelled⟩

theorem start {name : String} {rest : List String} (left : s.pending = name :: rest) :
    Ledger setup requests { s with pending := rest, jobs := s.jobs ++ [⟨{ name }, .load⟩] } past
      said where
  names := by simpa [left] using ledger.names
  points j job at' := by
    by_cases before : j < s.jobs.length
    · rw [List.getElem?_append_left before] at at'
      exact ledger.points j job at'
    · have new : job = ⟨{ name }, .load⟩ := by
        rw [List.getElem?_append_right (by omega)] at at'
        simpa using List.mem_of_getElem? at'
      rw [new]
      exact .new (ledger.unheard j (by omega))
  unheard j out := by
    simp only [List.length_append, List.length_cons, List.length_nil] at out
    exact ledger.unheard j (by omega)
  owned := ledger.owned
  origin := ledger.origin

/-- A free path goes to the request that asks for it. -/
theorem claim {r : Result} {c : Class} (at' : s.jobs[i]? = some ⟨r, .claim c⟩)
    (free : s.claims.lookup r.path = none) :
    Ledger setup requests
      { s with jobs := s.jobs.set i ⟨r, .write c⟩, claims := (r.path, r.name) :: s.claims }
      (past ++ [.claimed i r.path]) said := by
  obtain ⟨spelled, heard, _⟩ := (ledger.points i _ at').claim
  have path : r.path = pathOf setup.directory c := by rw [spelled]; rfl
  have unclaimed : claimants r.path past = [] := by
    rcases ledger.owned r.path with ⟨none, _⟩ | ⟨_, _, _, _, taken⟩
    · exact none
    · rw [free] at taken
      cases taken
  have lookup (p : String) (differs : r.path ≠ p) :
      ((r.path, r.name) :: s.claims).lookup p = s.claims.lookup p := by
    have other : (p == r.path) = false := by simpa using differs.symm
    simp [List.lookup_cons, other]
  constructor
  case names =>
    have same := @map_name_set s.jobs i _ ⟨r, .write c⟩ at' rfl
    exact (congrArg (· ++ s.pending) same).trans ledger.names
  case points =>
    intro j job at''
    rcases (getElem?_set_iff at').mp at'' with ⟨rfl, rfl⟩ | ⟨other, before⟩
    · rw [spelled]
      exact .writing heard (by simpa [loaded, path] using path ▸ unclaimed)
    · refine (ledger.points j job before).beside rfl ?_ ?_ ?_ fun _ _ _ => rfl
      · intro p mine
        have differs : r.path ≠ p := by
          rintro rfl
          rw [unclaimed] at mine
          cases mine
        simpa [differs] using mine
      · intro p away
        rw [claimants_claimed, List.mem_append]
        rintro (mine | mine)
        · exact away mine
        · split at mine
          · exact other (List.mem_singleton.mp mine)
          · cases mine
      · intro p owner taken
        rw [lookup p, taken]
        rintro rfl
        rw [free] at taken
        cases taken
  case unheard =>
    intro j out
    exact ledger.unheard j (by simpa using out)
  case owned =>
    intro p
    by_cases same : r.path = p
    · subst same
      exact .inr ⟨i, r.name, by simp [unclaimed], ledger.name_at at', by simp⟩
    · simpa [same, lookup p same] using ledger.owned p
  case origin =>
    intro p k member
    by_cases same : r.path = p
    · subst same
      obtain rfl : k = i := by simpa [unclaimed] using member
      exact ⟨c, [], heard, path.symm⟩
    · exact ledger.origin p k (by simpa [same] using member)

theorem turn {e : Event} (plain : setup.loader.Plain) (turn : Turn setup s e s') :
    Ledger setup requests s' (past ++ (s.board.deed? setup e).toList)
      (said ++ s.hears setup e) := by
  cases turn with
  | idle => simpa [Board.deed?, State.hears] using ledger
  | canceled =>
    exact ⟨by simpa using ledger.names, by simpa [Board.deed?, State.hears] using ledger.points,
      by simpa [Board.deed?, State.hears] using ledger.unheard,
      by simpa [Board.deed?, State.hears] using ledger.owned,
      by simpa [Board.deed?, State.hears] using ledger.origin⟩
  | started left => simpa [Board.deed?, State.hears] using ledger.start left
  | absent none => simpa [Board.deed?, State.hears, State.board, none] using ledger
  | done at' => simpa [Board.deed?, State.hears, State.board, at'] using ledger
  | @failed i r f loader at' answer =>
    obtain ⟨spelled, silence⟩ := (ledger.points i _ at').load
    have next : Ledger setup requests { s with
        loader
        canceled := s.canceled || f.isCanceled
        jobs := s.jobs.set i ⟨{ r with failure := some f }, .finished⟩
        log := s.log ++ [] ++ closing { r with failure := some f } } past
        (said ++ [Word.answer (.error f)].map (i, ·)) := by
      refine ledger.hear at' rfl rfl rfl rfl (fun _ => rfl) (fun _ _ _ _ _ => rfl) ?_
      rw [spelled]
      exact .failed (by rw [heardBy_own, silence, List.nil_append])
    simpa [Board.deed?, State.hears, State.board, at', answer] using next
  | @loaded i r c loader at' answer =>
    obtain ⟨spelled, silence⟩ := (ledger.points i _ at').load
    have slash : '/' ∉ c.name.toList :=
      plain s.loader s.tree s.canceled r.name c (by rw [answer])
    have next : Ledger setup requests { s with
        loader
        jobs := s.jobs.set i
          ⟨{ r with className := c.name, path := pathOf setup.directory c }, .claim c⟩ } past
        (said ++ [Word.answer (.ok c)].map (i, ·)) := by
      refine ledger.hear at' rfl rfl rfl rfl (fun _ => rfl) (fun _ _ _ _ _ => rfl) ?_
      rw [spelled]
      exact .asking ⟨by rw [heardBy_own, silence, List.nil_append], slash⟩
        (ledger.unowned_of_silence silence _)
    simpa [Board.deed?, State.hears, State.board, at', answer] using next
  | @lost i r c owner at' taken =>
    obtain ⟨spelled, heard, unowned⟩ := (ledger.points i _ at').claim
    have next : Ledger setup requests { s with
        jobs := s.jobs.set i ⟨{ r with duplicateOf := some owner }, .finished⟩
        log := s.log ++ [] ++ closing { r with duplicateOf := some owner } } past
        (said ++ ([] : List Word).map (i, ·)) := by
      refine ledger.hear at' rfl rfl rfl rfl (fun _ => rfl) (fun _ _ _ _ _ => rfl) ?_
      rw [spelled] at taken ⊢
      exact .lost (by simpa using heard) unowned taken
    simpa [Board.deed?, State.hears, State.board, at', taken] using next
  | @claimed i r c at' free =>
    simpa [Board.deed?, State.hears, State.board, at', free] using ledger.claim at' free
  | @wrote i r c log at' =>
    obtain ⟨spelled, heard, owned⟩ := (ledger.points i _ at').write
    have deeds (p : String) :
        claimants p (past ++ (s.board.deed? setup (.advance i)).toList) = claimants p past := by
      simp only [Board.deed?, State.board, at']
      split <;> simp
    simp only [State.hears, at']
    refine ledger.hear at' rfl rfl rfl (written_name s.tree r c) deeds ?_ ?_
    · intro j other d plain' mine
      rw [spelled]
      refine treeAfter_read_other heard.plain s.tree plain' fun same => other ?_
      rw [same, owned] at mine
      exact (List.cons.inj mine).1.symm
    · rw [spelled]
      refine .done ⟨?_, heard.plain⟩ ((deeds _).trans owned) fun success => ?_
      · rw [heardBy_own, heard.words, List.singleton_append]
      · rcases @treeAfter_cases σ setup r.name c s.tree with
          ⟨listing, target, rendered, walked, free, final, _⟩ | ⟨_, failed⟩
        · refine ⟨listing, rendered, ?_⟩
          change (treeAfter setup s.tree (loaded setup r.name c) c).read _ = _
          rw [final]
          exact FileTree.read_put heard.plain walked free _
        · exact absurd success failed

end

end Ledger

section

variable {setup : Setup σ} {requests : List String} {s s' : State σ} {past : List Deed}
  {said : List (Nat × Word)} {i : Nat} {job : Job}

theorem execute_ledger (plain : setup.loader.Plain) (ledger : Ledger setup requests s past said)
    (events : List Event) :
    Ledger setup requests (s.execute setup events) (past ++ s.deeds setup events)
      (said ++ s.words setup events) := by
  induction events generalizing s past said with
  | nil => simpa [State.deeds, State.words, State.execute] using ledger
  | cons e rest ih =>
    have later := ih (ledger.turn plain (step_turn setup s e))
    simpa only [State.deeds, State.words, State.execute, List.foldl_cons, List.append_assoc]
      using later

/-- A text that is there fails to be written as the file system says. -/
theorem written_failure {c : Class} {listing : Listing.Result}
    (rendered : Listing.render setup.table {} c = .ok listing) (t : FileTree) (r : Result) :
    (written setup t r c).failure ≠ none ↔ ∃ w ∈ outcomes setup t r c, w.IsFailure := by
  simp only [written, outcomes, rendered, List.mem_singleton, exists_eq_left]
  cases (t.publish (setup.hazards r.path) r.path (Text.toBytes listing.text)).written with
  | ok count =>
    refine iff_of_false (by simp) fun bad => ?_
    cases bad
  | error e => exact iff_of_true (by simp) (.outcome e)

/-- Where every class has a text, a request fails exactly if it heard of a failure. -/
theorem Point.failure_iff {claims : List (String × String)} {tree : FileTree}
    (renders : ∀ c, ∃ listing, Listing.render setup.table {} c = .ok listing)
    (point : Point setup past said claims tree i job) :
    job.result.failure ≠ none ↔ ∃ w ∈ heardBy i said, w.IsFailure := by
  have fine (c : Class) : ¬ (Word.answer (.ok c)).IsFailure := nofun
  cases point with
  | new silence => simp [silence]
  | @failed name f heard =>
    exact iff_of_true (by simp) ⟨.answer (.error f), by simp [heard], .answer f⟩
  | asking heard | lost heard | writing heard => simp [heard.words, fine, Batch.loaded]
  | @done name c then' heard =>
    obtain ⟨listing, rendered⟩ := renders c
    rw [heard.words, written_failure rendered]
    simp [fine]

/-- Where every class has a text, some request fails exactly if a failure was heard of. -/
theorem Ledger.failed_iff (ledger : Ledger setup requests s past said)
    (renders : ∀ c, ∃ listing, Listing.render setup.table {} c = .ok listing) :
    0 < failed s.results ↔ ∃ i w, (i, w) ∈ said ∧ w.IsFailure := by
  have unstarted : ((s.pending.map fun _ => ({} : Result)).filter (·.failure.isSome)) = [] := by
    simp
  rw [failed, State.results, List.filter_append, unstarted, List.append_nil,
    List.length_pos_iff_exists_mem]
  constructor
  · rintro ⟨r, member⟩
    obtain ⟨listed, failure⟩ := List.mem_filter.mp member
    obtain ⟨job, inside, rfl⟩ := List.mem_map.mp listed
    obtain ⟨i, at'⟩ := List.mem_iff_getElem?.mp inside
    obtain ⟨w, heard, bad⟩ := ((ledger.points i job at').failure_iff renders).mp
      (by simpa [Option.isSome_iff_ne_none] using failure)
    exact ⟨i, w, mem_heardBy.mp heard, bad⟩
  · rintro ⟨i, w, heard, bad⟩
    obtain ⟨job, at'⟩ := ledger.exists_job (mem_heardBy.mpr heard)
    have failure := ((ledger.points i job at').failure_iff renders).mpr
      ⟨w, mem_heardBy.mpr heard, bad⟩
    exact ⟨job.result, List.mem_filter.mpr ⟨List.mem_map_of_mem (List.mem_of_getElem? at'),
      by simpa [Option.isSome_iff_ne_none] using failure⟩⟩

section

variable (ledger : Ledger setup requests s past said)
  (finished : ∀ job ∈ s.jobs, job.phase = .finished)
include ledger finished

/-- Whoever claimed a path has the file there hold its text, unless it failed. -/
theorem Ledger.owner {p : String} {k : Nat} (member : k ∈ claimants p past) :
    ∃ d job, claimants p past = [k] ∧ (k, .answer (.ok d)) ∈ said ∧ '/' ∉ d.name.toList ∧
      pathOf setup.directory d = p ∧ s.jobs[k]? = some job ∧
      (job.result.failure = none → ∃ listing, Listing.render setup.table {} d = .ok listing ∧
        s.tree.read p = .ok (Text.toBytes listing.text)) := by
  have one : claimants p past = [k] := by
    rcases ledger.owned p with ⟨none, _⟩ | ⟨k', _, one, _⟩
    · rw [none] at member
      cases member
    · rw [one] at member ⊢
      rw [List.mem_singleton.mp member]
  obtain ⟨d, later, heard, spelled⟩ := ledger.origin p k member
  have answered : Word.answer (.ok d) ∈ heardBy k said := by simp [heard.words]
  obtain ⟨job, at'⟩ := ledger.exists_job answered
  refine ⟨d, job, one, mem_heardBy.mp answered, heard.plain, spelled, at', fun success => ?_⟩
  have same {c : Class} {after : List Word} (known : Heard said k c after) : c = d := by
    have words := known.words
    rw [heard.words] at words
    exact (Except.ok.inj (Word.answer.inj (List.cons.inj words).1)).symm
  have ended := finished job (List.mem_of_getElem? at')
  cases ledger.points k job at' with
  | new | asking | writing => cases ended
  | failed known =>
    rw [heard.words] at known
    cases known
  | lost known unowned =>
    rw [same known, spelled] at unowned
    exact absurd member unowned
  | done known _ stands =>
    have text := stands success
    rwa [same known, spelled] at text

/-- At the end of a run without failures each request is stored. -/
theorem Ledger.stored (successful : ∀ job ∈ s.jobs, job.result.failure = none)
    (at' : s.jobs[i]? = some job) :
    ∃ c k d, Stored setup past said s.tree i c k d := by
  have claimed {c : Class} {later : List Word} (heard : Heard said i c later)
      (taken : claimants (pathOf setup.directory c) past ≠ []) :
      ∃ c k d, Stored setup past said s.tree i c k d := by
    obtain ⟨k, member⟩ := List.exists_mem_of_ne_nil _ taken
    obtain ⟨d, owner, one, answered, plain, spelled, at'', text⟩ := ledger.owner finished member
    exact ⟨c, k, d, mem_heardBy.mp (by simp [heard.words]), one, answered,
      pathOf_injective heard.plain plain spelled,
      text (successful owner (List.mem_of_getElem? at''))⟩
  have ended := finished job (List.mem_of_getElem? at')
  have success := successful job (List.mem_of_getElem? at')
  cases ledger.points i job at' with
  | new | asking | writing => cases ended
  | failed => cases success
  | @lost name owner c heard _ taken =>
    refine claimed heard fun none => ?_
    rcases ledger.owned (pathOf setup.directory c) with ⟨_, free⟩ | ⟨k, _, one, _⟩
    · rw [free] at taken
      cases taken
    · rw [one] at none
      cases none
  | done heard owned => exact claimed heard (by simp [owned])

end

/-- A run is canceled from outside, or by a request that heard of a failure. -/
theorem canceled_of_execute {events : List Event}
    (stopped : (s.execute setup events).canceled = true) :
    s.canceled = true ∨ .cancel ∈ events ∨ ∃ i w, (i, w) ∈ s.words setup events ∧ w.IsFailure := by
  induction events generalizing s with
  | nil => exact .inl stopped
  | cons e rest ih =>
    rcases ih stopped with before | later | ⟨i, w, member, failure⟩
    · have turn := step_turn setup s e
      generalize s.step setup e = next at turn before
      cases turn with
      | canceled => exact .inr (.inl (by simp))
      | @failed i r f loader at' answer =>
        refine .inr (.inr ⟨i, .answer (.error f), ?_, .answer f⟩)
        simp [State.words, State.hears, at', answer]
      | _ => exact .inl before
    · exact .inr (.inl (List.mem_cons_of_mem e later))
    · exact .inr (.inr ⟨i, w, List.mem_append_right _ member, failure⟩)

theorem results_of_job (at' : s.jobs[i]? = some job) : s.results[i]? = some job.result := by
  have inside := (List.getElem?_eq_some_iff.mp at').1
  rw [State.results, List.getElem?_append_left (by simpa using inside), List.getElem?_map, at']
  rfl

/-- An answer comes from the loader as it was along the way, asked for the name of the request. -/
theorem answer_origin {events : List Event} {answer : Attempt Class} (roster : Roster requests s)
    (member : (i, .answer answer) ∈ s.words setup events) :
    ∃ before name, before <+: events ∧ requests[i]? = some name ∧
      (setup.loader.load (s.execute setup before).loader (s.execute setup before).tree
        (s.execute setup before).canceled name).1 = answer := by
  induction events generalizing s with
  | nil => cases member
  | cons e rest ih =>
    rcases List.mem_append.mp member with now | later
    · unfold State.hears at now
      split at now
      · next k =>
        split at now
        · next r at' =>
          simp only [List.mem_singleton, Prod.mk.injEq, Word.answer.injEq] at now
          obtain ⟨rfl, rfl⟩ := now
          have named := roster.name_at (List.getElem?_eq_some_iff.mp at').1
          rw [results_of_job at'] at named
          exact ⟨[], r.name, List.nil_prefix, named.symm, rfl⟩
        · obtain ⟨w, outcome, equal⟩ := List.mem_map.mp now
          cases equal
          exact absurd outcome answer_notMem_outcomes
        · cases now
      · cases now
    · obtain ⟨before, name, first, named, answered⟩ := ih (roster.turn (step_turn setup s e)) later
      exact ⟨e :: before, name, List.cons_prefix_cons.mpr ⟨rfl, first⟩, named, answered⟩

theorem isStuck_iff {e : Event} : s.isStuck setup e = true ↔
    ∃ i f, (i, .answer (.error f)) ∈ s.hears setup e ∧ f.isEndless = true := by
  cases e with
  | start | cancel => simp [State.isStuck, State.hears]
  | advance i =>
    cases at' : s.jobs[i]? with
    | none => simp [State.isStuck, State.hears, at']
    | some job =>
      obtain ⟨r, phase⟩ := job
      cases phase with
      | load =>
        simp only [State.isStuck, State.hears, at', List.mem_singleton, Prod.mk.injEq,
          Word.answer.injEq]
        cases (setup.loader.load s.loader s.tree s.canceled r.name).1 <;> simp
      | claim c | finished => simp [State.isStuck, State.hears, at']
      | write c =>
        have silent (f : Failure) : Word.answer (.error f) ∉ outcomes setup s.tree r c :=
          answer_notMem_outcomes
        simp [State.isStuck, State.hears, at', silent]

/-- All steps of a run last, unless some request is answered by a load that never ends. -/
theorem lasting_eq (setup : Setup σ) (s : State σ) (events : List Event) :
    (∃ steps, s.lasting setup events = (steps, true) ∧
      ∃ i f, (i, .answer (.error f)) ∈ s.words setup events ∧ f.isEndless = true) ∨
    s.lasting setup events = (events, false) ∧
      ¬ ∃ i f, (i, .answer (.error f)) ∈ s.words setup events ∧ f.isEndless = true := by
  induction events generalizing s with
  | nil => exact .inr ⟨rfl, by simp [State.words]⟩
  | cons e rest ih =>
    by_cases stuck : s.isStuck setup e = true
    · obtain ⟨i, f, heard, endless⟩ := isStuck_iff.mp stuck
      exact .inl ⟨[], by rw [State.lasting, if_pos stuck], i, f,
        List.mem_append_left _ heard, endless⟩
    · rcases ih (s.step setup e) with ⟨steps, found, i, f, heard, endless⟩ | ⟨found, none⟩
      · refine .inl ⟨e :: steps, ?_, i, f, List.mem_append_right _ heard, endless⟩
        rw [State.lasting, if_neg stuck, found]
      · refine .inr ⟨by rw [State.lasting, if_neg stuck, found], ?_⟩
        rintro ⟨i, f, heard, endless⟩
        rcases List.mem_append.mp heard with now | later
        · exact stuck (isStuck_iff.mpr ⟨i, f, now, endless⟩)
        · exact none ⟨i, f, later, endless⟩

theorem execute_of_canceled {events : List Event} (canceled : .cancel ∈ events) :
    (s.execute setup events).canceled = true := by
  obtain ⟨before, later, rfl⟩ := List.append_of_mem canceled
  rw [State.execute, List.foldl_append, List.foldl_cons]
  exact execute_keeps (P := fun s => s.canceled = true)
    (fun holds turn => turn_still_canceled turn holds) rfl later

end

end ScriptListing.Batch
