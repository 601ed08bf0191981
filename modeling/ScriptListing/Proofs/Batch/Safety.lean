import ScriptListing.Proofs.Batch.Isolation

/-! Complete runs. In whatever order the steps came, each path has one owner, the others are
told who it is, and what a request for a path of its own comes to is the same. -/
namespace ScriptListing.Batch

variable {σ : Type}

def Board.IsComplete (b : Board) : Prop := b.pending = [] ∧ ∀ job ∈ b.jobs, job.phase = .finished

instance (phase : Phase) : Decidable (phase = .finished) :=
  match phase with
  | .finished => isTrue rfl
  | .load => isFalse nofun
  | .claim _ => isFalse nofun
  | .write _ => isFalse nofun

instance (b : Board) : Decidable b.IsComplete :=
  inferInstanceAs (Decidable (b.pending = [] ∧ ∀ job ∈ b.jobs, job.phase = .finished))

section

variable {setup : Setup σ} {classes : String → Attempt Class} {tree : FileTree}
  {requests : List String} {b b' : Board} {past past' : List Deed} {path : String} {job : Job}
  {content : List UInt8}

/-- Classes named without a slash share a path only if they have one name. -/
theorem pathOf_injective {c d : Class} (plain : '/' ∉ c.name.toList) (plain' : '/' ∉ d.name.toList)
    (same : pathOf setup.directory d = pathOf setup.directory c) : d.name = c.name := by
  have names := Path.join_injective (FileTree.isName_text plain') (FileTree.isName_text plain) same
  have chars := congrArg String.toList names
  simp only [String.toList_append, List.append_cancel_right_eq] at chars
  exact String.toList_inj.mp chars

example : pathOf "out" { name := "./A" } = pathOf "out" { name := "A" } := by decide +kernel

def Storable (classes : String → Attempt Class) : Prop :=
  ∀ name c, classes name = .ok c → '/' ∉ c.name.toList

/-- The paths of classes without a slash are in one directory, out of each other's way. -/
theorem clear_of_storable (storable : Storable classes) {name : String} {c : Class}
    (found : classes name = .ok c) :
    Clear setup classes tree requests (pathOf setup.directory c) := by
  intro _ other _ d found' differs leads
  have isName := FileTree.isName_text (storable name c found)
  have isName' := FileTree.isName_text (storable other d found')
  obtain ⟨place, folder, _, goal⟩ :=
    FileTree.walk_leads_ok isName' (FileTree.leads_join isName') leads
  rcases FileTree.stop_of_folder isName folder with stopped | reached
  · exact absurd (stopped.symm.trans goal) (by simp)
  · have texts : c.name ++ ".txt" = d.name ++ ".txt" := by simpa using reached.symm.trans goal
    exact differs (by rw [pathOf, pathOf, texts])

/-- Each path belongs to classes of one name, and no path is in the way of another. -/
structure PathsApart (setup : Setup σ) (classes : String → Attempt Class) (tree : FileTree)
    (requests : List String) : Prop where
  named : ∀ name other c d, classes name = .ok c → classes other = .ok d →
    (pathOf setup.directory d = pathOf setup.directory c ↔ d.name = c.name)
  clear : ∀ name c, classes name = .ok c →
    Clear setup classes tree requests (pathOf setup.directory c)

theorem pathsApart_of_storable (storable : Storable classes) :
    PathsApart setup classes tree requests where
  named name other c d found found' := by
    refine ⟨pathOf_injective (storable name c found) (storable other d found'), fun same => ?_⟩
    rw [pathOf, pathOf, same]
  clear _ _ found := clear_of_storable storable found

/-- A request that is done could not be loaded, came too late or holds its path. -/
theorem Fate.finished {claims : List (String × String)}
    (fate : Fate setup classes tree requests claims job) (finished : job.phase = .finished) :
    (∃ f, classes job.result.name = .error f ∧
      job = ⟨{ name := job.result.name, failure := some f }, .finished⟩) ∨
    (∃ c owner, classes job.result.name = .ok c ∧
      job = ⟨{ loaded setup job.result.name c with duplicateOf := some owner }, .finished⟩) ∨
    ∃ path, Holds setup classes tree requests path job := by
  cases fate with
  | new name => cases finished
  | asking found => cases finished
  | failed found => exact .inl ⟨_, found, rfl⟩
  | lost found taken => exact .inr (.inl ⟨_, _, found, rfl⟩)
  | held holds own => exact .inr (.inr ⟨_, holds⟩)

/-- What the holder of a clear path came to is told by the tree at the start. -/
theorem Holds.settled (holds : Holds setup classes tree requests path job)
    (finished : job.phase = .finished) (clear : Clear setup classes tree requests path) {c : Class}
    (found : classes job.result.name = .ok c) :
    job = ⟨written setup tree (loaded setup job.result.name c) c, .finished⟩ := by
  cases holds with
  | writing => cases finished
  | @done name d then' found' at' beside calm =>
    have named : (written setup then' (loaded setup name d) d).name = name := by simp [loaded]
    dsimp only at found ⊢
    rw [named] at found ⊢
    rw [found'] at found
    cases found
    subst at'
    rw [written_beside beside (calm clear)]

theorem Holds.stands (holds : Holds setup classes tree requests path job)
    (finished : job.phase = .finished) (success : job.result.failure = none) :
    ∃ content, Stands setup classes tree requests path content job := by
  cases holds with
  | writing => cases finished
  | @done name c then' found at' beside calm =>
    have success : (written setup then' (loaded setup name c) c).failure = none := success
    obtain ⟨listing, _, rendered, _⟩ := written_success_iff.mp success
    exact ⟨_, .done found at' beside calm, rfl, success, c, listing,
      by simpa [loaded] using found, rendered, rfl⟩

/-- Jobs that got as far came to the same, unless another path is in the way. -/
theorem Fate.eq_of_bare {claims claims' : List (String × String)} {job' : Job}
    (fate : Fate setup classes tree requests claims job)
    (fate' : Fate setup classes tree requests claims' job') (alike : job'.bare = job.bare)
    (finished : job.phase = .finished)
    (clear : ∀ path, Holds setup classes tree requests path job →
      Clear setup classes tree requests path) : job' = job := by
  obtain ⟨faults, failure, spelled⟩ := Batch.eq_of_bare alike
  have named : job'.result.name = job.result.name := by rw [spelled]
  have sameOwner : job'.result.duplicateOf = job.result.duplicateOf := by rw [spelled]
  have finished' : job'.phase = .finished := by rw [spelled]; exact finished
  rcases fate'.finished finished' with ⟨f', found', whole'⟩ | ⟨d, owner', found', whole'⟩ |
    ⟨path', holds'⟩
  · rw [named] at found' whole'
    rcases fate.finished finished with ⟨f, found, whole⟩ | ⟨c, owner, found, _⟩ | ⟨path, holds⟩
    · rw [found] at found'
      cases found'
      exact whole'.trans whole.symm
    · rw [found] at found'
      cases found'
    · obtain ⟨c, found, _⟩ := holds.origin
      rw [found] at found'
      cases found'
  · rw [named] at found' whole'
    rcases fate.finished finished with ⟨f, found, whole⟩ | ⟨c, owner, found, whole⟩ | ⟨path, holds⟩
    · rw [found] at found'
      cases found'
    · rw [found] at found'
      cases found'
      rw [whole, whole'] at sameOwner
      cases sameOwner
      exact whole'.trans whole.symm
    · rw [whole', holds.duplicateOf] at sameOwner
      cases sameOwner
  · obtain ⟨c, found', _⟩ := holds'.origin
    have found : classes job.result.name = .ok c := named ▸ found'
    rcases fate.finished finished with ⟨f, failed, _⟩ | ⟨_, owner, _, whole⟩ | ⟨path, holds⟩
    · rw [found] at failed
      cases failed
    · rw [whole, holds'.duplicateOf] at sameOwner
      cases sameOwner
    · have samePath : path' = path := by
        rw [← holds'.result_path, ← holds.result_path, spelled]
      subst samePath
      rw [holds'.settled finished' (clear _ holds) found', named,
        ← holds.settled finished (clear _ holds) found]

namespace Invariant

variable (invariant : Invariant setup classes tree requests b past)
include invariant

/-- A path at which a text stands has the whole text of a request, if not of this one then of
one whose path leads to the same file. -/
theorem read_stands (stands : Stands setup classes tree requests path content job) {k : Nat}
    (at' : b.jobs[k]? = some job) :
    ∃ (j : Nat) (other : Job) (path' : String) (content' : List UInt8),
      b.jobs[j]? = some other ∧ Stands setup classes tree requests path' content' other ∧
      tree.walk path' = tree.walk path ∧ b.tree.read path = .ok content' := by
  obtain ⟨q, walked, _⟩ := stands.walk
  rcases invariant.files q with ⟨_, none⟩ | ⟨j, other, path', content', at'', stands', leads, there⟩
  · exact absurd walked (none k job path content at' stands)
  · exact ⟨j, other, path', content', at'', stands', leads.trans walked.symm,
      FileTree.read_of_walk (invariant.beside.walk_ok walked) there⟩

/-- The text of another request does not stand where a clear path leads. -/
theorem only_stands (stands : Stands setup classes tree requests path content job) {j k : Nat}
    (at' : b.jobs[k]? = some job) (clear : Clear setup classes tree requests path) {other : Job}
    {path' : String} {content' : List UInt8} (at'' : b.jobs[j]? = some other)
    (stands' : Stands setup classes tree requests path' content' other)
    (leads : tree.walk path' = tree.walk path) : j = k ∧ other = job := by
  obtain ⟨q, walked, _⟩ := stands.walk
  have goal := FileTree.stop_of_walk walked
  obtain rfl : path' = path :=
    invariant.path_of_clear clear at'' stands' (by rw [leads, walked, goal])
  have one := invariant.held k job _ at' stands.holds
  rw [invariant.held j other _ at'' stands'.holds] at one
  obtain rfl := (List.cons.inj one).1
  rw [at'] at at''
  exact ⟨rfl, (Option.some.inj at'').symm⟩

/-- What `read_stands` finds, told by the request. -/
theorem read_whole (stands : Stands setup classes tree requests path content job) {k : Nat}
    (at' : b.jobs[k]? = some job) :
    ∃ (j : Nat) (other : String) (d : Class) (listing : Listing.Result),
      requests[j]? = some other ∧ classes other = .ok d ∧
      claimants (pathOf setup.directory d) past = [j] ∧
      tree.walk (pathOf setup.directory d) = tree.walk path ∧
      Listing.render setup.table {} d = .ok listing ∧
      b.tree.read path = .ok (Text.toBytes listing.text) ∧
      (Clear setup classes tree requests path → j = k) := by
  obtain ⟨j, other, path', content', at'', stands', leads, read⟩ := invariant.read_stands stands at'
  obtain ⟨d, listing, found, rendered, rfl⟩ := stands'.text
  obtain ⟨d', found', rfl⟩ := stands'.holds.origin
  rw [found] at found'
  cases found'
  exact ⟨j, other.result.name, d, listing, invariant.name_at at'', found,
    invariant.held j other _ at'' stands'.holds, leads, rendered, read,
    fun clear => (invariant.only_stands stands at' clear at'' stands' leads).1⟩

/-- A clear path has the text that stands there. -/
theorem read_success (stands : Stands setup classes tree requests path content job) {k : Nat}
    (at' : b.jobs[k]? = some job) (clear : Clear setup classes tree requests path) :
    b.tree.read path = .ok content := by
  obtain ⟨j, other, path', content', at'', stands', leads, read⟩ := invariant.read_stands stands at'
  obtain ⟨rfl, rfl⟩ := invariant.only_stands stands at' clear at'' stands' leads
  obtain ⟨c, listing, found, rendered, rfl⟩ := stands.text
  rw [read, stands'.content_eq found rendered]

/-- A clear path whose holder failed is as before. -/
theorem read_failure (holds : Holds setup classes tree requests path job) {k : Nat}
    (at' : b.jobs[k]? = some job) (failed : job.result.failure ≠ none)
    (clear : Clear setup classes tree requests path) : b.tree.read path = tree.read path := by
  have same := invariant.calm clear fun j other content at'' stands => by
    have one := invariant.held k job _ at' holds
    rw [invariant.held j other _ at'' stands.holds] at one
    obtain rfl := (List.cons.inj one).1
    rw [at'] at at''
    cases at''
    exact failed stands.success
  refine FileTree.read_congr (invariant.beside.walk same) fun q walked => ?_
  rw [← FileTree.stop_of_walk walked]
  exact same

/-- Where a clear path has the same holder, done in the same way, its file is the same. -/
theorem read_same (invariant' : Invariant setup classes tree requests b' past')
    (holds : Holds setup classes tree requests path job) (finished : job.phase = .finished)
    {k : Nat} (at' : b.jobs[k]? = some job) (at'' : b'.jobs[k]? = some job)
    (clear : Clear setup classes tree requests path) : b'.tree.read path = b.tree.read path := by
  by_cases success : job.result.failure = none
  · obtain ⟨content, stands⟩ := holds.stands finished success
    rw [invariant.read_success stands at' clear, invariant'.read_success stands at'' clear]
  · rw [invariant.read_failure holds at' success clear,
      invariant'.read_failure holds at'' success clear]

theorem isPathOf_of_holds {k : Nat} (at' : b.jobs[k]? = some job)
    (holds : Holds setup classes tree requests path job) :
    IsPathOf setup classes requests k path := by
  obtain ⟨c, found, spelled⟩ := holds.origin
  exact ⟨_, c, invariant.name_at at', found, spelled⟩

variable (complete : b.IsComplete)
include complete

/-- A request comes to the same where it got as far, unless another path is in its way. -/
theorem job_eq_of_agree {touched : Nat → Prop} {paths : String → Prop}
    (invariant' : Invariant setup classes tree requests b' past')
    (agree : Agree touched paths b b') {j : Nat} (away : ¬ touched j)
    (clear : ∀ path, IsPathOf setup classes requests j path →
      Clear setup classes tree requests path) : b'.jobs[j]? = b.jobs[j]? := by
  have alike := agree.jobs j away
  cases at' : b.jobs[j]? with
  | none => simpa [at'] using alike
  | some job =>
    rw [at', Option.map_some] at alike
    obtain ⟨job', at'', bare⟩ := Option.map_eq_some_iff.mp alike
    have same := (invariant.fates j job at').eq_of_bare (invariant'.fates j job' at'') bare
      (complete.2 job (List.mem_of_getElem? at'))
      fun path holds => clear path (invariant.isPathOf_of_holds at' holds)
    rw [at'', same]

theorem job_at {i : Nat} {name : String} (asked : requests[i]? = some name) :
    ∃ job, b.jobs[i]? = some job ∧ job.result.name = name ∧ job.phase = .finished := by
  have names := invariant.names
  rw [complete.1, List.append_nil] at names
  rw [← names, List.getElem?_map] at asked
  obtain ⟨job, at', named⟩ := Option.map_eq_some_iff.mp asked
  exact ⟨job, at', named, complete.2 job (List.mem_of_getElem? at')⟩

/-- The owner of a path has written it, or failed to. -/
theorem owner_at {k : Nat} (one : claimants path past = [k]) :
    ∃ job, b.jobs[k]? = some job ∧ Holds setup classes tree requests path job ∧
      job.phase = .finished ∧ requests[k]? = some job.result.name ∧
      b.claims.lookup path = some job.result.name := by
  rcases invariant.owned path with ⟨none, _⟩ | ⟨k', job, one', at', holds, own⟩
  · rw [none] at one
    cases one
  · rw [one] at one'
    cases one'
    exact ⟨job, at', holds, complete.2 job (List.mem_of_getElem? at'), invariant.name_at at', own⟩

/-- Every loaded request has its path or was told who has it. -/
theorem claimed_or_lost {i : Nat} {name : String} {c : Class} (asked : requests[i]? = some name)
    (found : classes name = .ok c) :
    ∃ k, claimants (pathOf setup.directory c) past = [k] ∧
      (k ≠ i → ∃ first, requests[k]? = some first ∧
        b.jobs[i]? = some ⟨{ loaded setup name c with duplicateOf := some first }, .finished⟩) := by
  obtain ⟨job, at', rfl, finished⟩ := invariant.job_at complete asked
  have fate := invariant.fates i job at'
  cases fate with
  | new name => cases finished
  | asking _ => cases finished
  | failed failed =>
    rw [failed] at found
    cases found
  | @lost name owner d found' taken =>
    obtain rfl : d = c := by
      rw [show classes name = .ok c from found] at found'
      exact (Except.ok.inj found').symm
    rcases invariant.owned (pathOf setup.directory d) with ⟨_, free⟩ | ⟨k, _, one, _, _, _⟩
    · rw [taken] at free
      cases free
    · obtain ⟨first, _, _, _, asked', own⟩ := invariant.owner_at complete one
      rw [taken] at own
      cases own
      exact ⟨k, one, fun _ => ⟨_, asked', at'⟩⟩
  | held holds _ =>
    obtain ⟨d, found', spelled⟩ := holds.origin
    rw [found] at found'
    cases found'
    exact ⟨i, spelled ▸ invariant.held i _ _ at' holds, fun differs => absurd rfl differs⟩

/-- Without the steps of a request, a file of another request is the same. -/
theorem read_of_apart (invariant' : Invariant setup classes tree requests b' past') {i j : Nat}
    (apart : Apart setup classes requests i b b') (asked : IsPathOf setup classes requests j path)
    (away : ¬ IsPathOf setup classes requests i path)
    (clear : Clear setup classes tree requests path) : b'.tree.read path = b.tree.read path := by
  obtain ⟨name, c, asked, found, rfl⟩ := asked
  obtain ⟨k, one, _⟩ := invariant.claimed_or_lost complete asked found
  obtain ⟨owner, at', holds, finished, _⟩ := invariant.owner_at complete one
  have own := invariant.isPathOf_of_holds at' holds
  have only {path : String} (other : IsPathOf setup classes requests k path) :
      path = pathOf setup.directory c := other.unique own
  have apartFrom : ¬ Shares setup classes requests i k := by
    rintro (rfl | ⟨path, mine, other⟩)
    · exact away own
    · exact away (only other ▸ mine)
  have same := invariant.job_eq_of_agree complete invariant' apart apartFrom
    fun path other => only other ▸ clear
  exact invariant.read_same invariant' holds finished at' (same.trans at') clear

end Invariant

end

section

variable (setup : Setup σ) (classes : String → Attempt Class) (loader : σ) (tree : FileTree)
  (names : List String) (events : List Event)

def after : State σ := (begin loader tree names).execute setup events

def history : List Deed := (begin loader tree names).deeds setup events

structure Safe : Prop where
  /-- The path of a loaded request is claimed once, by a request for a class with that path, and
  written at most once, by the same one. -/
  claimed : ∀ (i : Nat) (name : String) (c : Class), names[i]? = some name →
    classes name = .ok c → ∃ (k : Nat) (first : String) (d : Class),
      claimants (pathOf setup.directory c) (history setup loader tree names events) = [k] ∧
      (writers (pathOf setup.directory c) (history setup loader tree names events)).Sublist [k] ∧
      names[k]? = some first ∧ classes first = .ok d ∧
      pathOf setup.directory d = pathOf setup.directory c
  /-- A request that came too late names the claimant and changes no file. -/
  lost : ∀ (i k : Nat) (name first : String) (c : Class), names[i]? = some name →
    classes name = .ok c → names[k]? = some first → k ≠ i →
    claimants (pathOf setup.directory c) (history setup loader tree names events) = [k] →
    (after setup loader tree names events).results[i]? =
        some { name, className := c.name, path := pathOf setup.directory c,
               faults := [], failure := none, duplicateOf := some first } ∧
      ∀ earlier later, events = earlier ++ .advance i :: later →
        (after setup loader tree names (earlier ++ [.advance i])).tree =
          (after setup loader tree names earlier).tree
  /-- The path of a claimant that wrote has a whole text: its own, unless the path of another
  claimant leads to the same file. -/
  published : ∀ (k : Nat) (name : String) (c : Class) (r : Result), names[k]? = some name →
    classes name = .ok c →
    claimants (pathOf setup.directory c) (history setup loader tree names events) = [k] →
    (after setup loader tree names events).results[k]? = some r → r.failure = none →
    ∃ (j : Nat) (other : String) (d : Class) (listing : Listing.Result),
      names[j]? = some other ∧ classes other = .ok d ∧
      claimants (pathOf setup.directory d) (history setup loader tree names events) = [j] ∧
      tree.walk (pathOf setup.directory d) = tree.walk (pathOf setup.directory c) ∧
      Listing.render setup.table {} d = .ok listing ∧
      (after setup loader tree names events).tree.read (pathOf setup.directory c) =
        .ok (Text.toBytes listing.text) ∧
      (Clear setup classes tree names (pathOf setup.directory c) → j = k ∧ d = c)
  /-- The results stand in the order of the names. -/
  named : (after setup loader tree names events).results.map (·.name) = names
  /-- A request that fails changes no file; and without its steps, the requests for other paths
  come to the same results and files, if no path is in the way of theirs. -/
  isolated : ∀ (i : Nat) (r : Result),
    (after setup loader tree names events).results[i]? = some r → r.failure ≠ none →
    (∀ earlier later, events = earlier ++ .advance i :: later →
      (after setup loader tree names (earlier ++ [.advance i])).tree =
        (after setup loader tree names earlier).tree) ∧
    (∀ j, ¬ Shares setup classes names i j →
      (∀ path, IsPathOf setup classes names j path → Clear setup classes tree names path) →
      (after setup loader tree names (events.filter (· ≠ .advance i))).results[j]? =
        (after setup loader tree names events).results[j]?) ∧
    ∀ (j : Nat) (path : String), IsPathOf setup classes names j path →
      ¬ IsPathOf setup classes names i path → Clear setup classes tree names path →
      (after setup loader tree names (events.filter (· ≠ .advance i))).tree.read path =
        (after setup loader tree names events).tree.read path
  /-- A request with a path of its own comes to the same result and file in any other order. -/
  settled : ∀ (others : List Event), .cancel ∉ others →
    (after setup loader tree names others).board.IsComplete →
    ∀ (i : Nat) (name : String) (c : Class), names[i]? = some name → classes name = .ok c →
    (∀ (j : Nat) (other : String) (d : Class), names[j]? = some other → classes other = .ok d →
      pathOf setup.directory d = pathOf setup.directory c → j = i) →
    Clear setup classes tree names (pathOf setup.directory c) →
    (after setup loader tree names others).results[i]? =
        (after setup loader tree names events).results[i]? ∧
      (after setup loader tree names others).tree.read (pathOf setup.directory c) =
        (after setup loader tree names events).tree.read (pathOf setup.directory c)

end

section

variable {setup : Setup σ} {classes : String → Attempt Class} {loader : σ} {tree : FileTree}
  {names : List String} (steady : Steady setup classes (begin loader tree names))
  {events : List Event} (uncanceled : .cancel ∉ events)
include steady uncanceled

theorem after_invariant : Invariant setup classes tree names
      (after setup loader tree names events).board (history setup loader tree names events) ∧
    (after setup loader tree names events).canceled = false :=
  execute_invariant steady rfl (begin_invariant loader names) uncanceled

theorem unsuccessful_tree {i : Nat} {job : Job}
    (at' : (after setup loader tree names events).jobs[i]? = some job)
    (unsuccessful : job.result.failure ≠ none ∨ job.result.duplicateOf ≠ none)
    (earlier later : List Event) (split : events = earlier ++ .advance i :: later) :
    (after setup loader tree names (earlier ++ [.advance i])).tree =
      (after setup loader tree names earlier).tree := by
  have before : .cancel ∉ earlier := fun member => uncanceled (by simp [split, member])
  have behind : .cancel ∉ later := fun member => uncanceled (by simp [split, member])
  obtain ⟨invariant, running⟩ := after_invariant steady before
  have reached : Steady setup classes (after setup loader tree names earlier) :=
    steady.execute before
  have step : (.advance i : Event) ≠ .cancel := by simp
  obtain ⟨same, still⟩ := board_step reached running step
  have snoc : after setup loader tree names (earlier ++ [.advance i]) =
      (after setup loader tree names earlier).step setup (.advance i) := by
    simp [after, State.execute]
  have whole : after setup loader tree names events =
      ((after setup loader tree names earlier).step setup (.advance i)).execute setup later := by
    simp [after, State.execute, split]
  rw [snoc]
  -- A job that this step finishes is in the end as the step leaves it.
  have kept := tree_of_unsuccessful invariant (i := i) ?_
  · rw [← same] at kept
    exact kept
  · intro job' at'' finished
    rw [← same] at at''
    have last := execute_finished (reached.step step) still behind at'' finished
    rw [← whole, at'] at last
    cases last
    exact unsuccessful

end

theorem Invariant.written_once {setup : Setup σ} {classes : String → Attempt Class}
    {tree : FileTree} {requests : List String} {b : Board} {past : List Deed}
    (invariant : Invariant setup classes tree requests b past) {path : String} {k : Nat}
    (one : claimants path past = [k]) :
    (writers path past).Sublist [k] := by
  rcases invariant.wrote path with none | ⟨k', _, one', wrote, _⟩
  · simp [none]
  · rw [one] at one'
    cases one'
    rw [wrote]

theorem results_at {s : State σ} (left : s.pending = []) (i : Nat) :
    s.results[i]? = s.jobs[i]?.map Job.result := by
  simp [State.results, left]

section

variable {setup : Setup σ} {classes : String → Attempt Class} {tree : FileTree}
  {names : List String} {s : State σ} {past : List Deed}
  (invariant : Invariant setup classes tree names s.board past) (complete : s.board.IsComplete)
include invariant complete

theorem lost_result {i k : Nat} {name first : String} {c : Class} (asked : names[i]? = some name)
    (found : classes name = .ok c) (askedFirst : names[k]? = some first) (differs : k ≠ i)
    (one : claimants (pathOf setup.directory c) past = [k]) :
    s.jobs[i]? = some ⟨{ loaded setup name c with duplicateOf := some first }, .finished⟩ := by
  obtain ⟨k', one', lost⟩ := invariant.claimed_or_lost complete asked found
  rw [one] at one'
  cases one'
  obtain ⟨first', asked', at'⟩ := lost differs
  rw [askedFirst] at asked'
  cases asked'
  exact at'

/-- What a request with a path of its own comes to is told by the tree at the start. -/
theorem settled_result {i : Nat} {name : String} {c : Class} (asked : names[i]? = some name)
    (found : classes name = .ok c)
    (unique : ∀ (j : Nat) (other : String) (d : Class), names[j]? = some other →
      classes other = .ok d → pathOf setup.directory d = pathOf setup.directory c → j = i)
    (clear : Clear setup classes tree names (pathOf setup.directory c)) :
    s.jobs[i]? = some ⟨written setup tree (loaded setup name c) c, .finished⟩ ∧
      Holds setup classes tree names (pathOf setup.directory c)
        ⟨written setup tree (loaded setup name c) c, .finished⟩ := by
  obtain ⟨k, one, _⟩ := invariant.claimed_or_lost complete asked found
  obtain ⟨job, at', holds, finished, askedFirst, _⟩ := invariant.owner_at complete one
  obtain ⟨d, foundFirst, same⟩ := holds.origin
  obtain rfl := unique k _ d askedFirst foundFirst same
  rw [askedFirst] at asked
  cases asked
  rw [← holds.settled finished clear found]
  exact ⟨at', holds⟩

end

/-- Two requests for the class `A`, one for `B`, and one that cannot be loaded. -/
def mixedClasses (name : String) : Attempt Class :=
  if name = "a" ∨ name = "b" then .ok { name := "A" }
  else if name = "c" then .ok { name := "B" }
  else fail .notFound

def mixedSetup : Setup Unit where
  loader := fixedLoader mixedClasses
  table := none
  directory := "out"

theorem mixed_steady (s : State Unit) : Steady mixedSetup mixedClasses s where
  answers _ _ _ := rfl
  uncanceled name f failed := by
    unfold mixedClasses at failed
    split at failed
    · cases failed
    · split at failed
      · cases failed
      · cases failed
        rfl

theorem mixed_storable : Storable mixedClasses := by
  intro name c found
  unfold mixedClasses at found
  split at found
  · cases found
    decide
  · split at found
    · cases found
      decide
    · cases found

/-- The second request claims first, and the others come in between. -/
def mixedEvents : List Event :=
  [.start, .start, .advance 1, .start, .advance 0, .advance 1, .start, .advance 0, .advance 3,
    .advance 2, .advance 2, .advance 1, .advance 2]

end ScriptListing.Batch
