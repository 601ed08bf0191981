import ScriptListing.CommandLine
import ScriptListing.Proofs.Batch.Reading
import ScriptListing.Proofs.Listing.Structure

/-! What the exit code of the command says about the files and about each object that was asked
for, in whatever order the steps of the run come and wherever it is canceled. -/
namespace ScriptListing.CommandLine

open Batch

section

variable (processors : Nat) (t : FileTree) (arguments : List String)

/-- The settings allow a run with this table and this archive. -/
structure Opened (s : Settings) (table : Option TypeMap) (archive : Archive) : Prop where
  sound : ∃ key notes, s.validate = .ok key ∧ tableOf t s = .ok (table, notes) ∧
    Archive.openAt t s.archive key = .ok archive
  asked : s.objects ≠ []

/-- The arguments lead to a run with these settings, this table and this archive. -/
structure Reached (s : Settings) (table : Option TypeMap) (archive : Archive) : Prop extends
    Opened t s table archive where
  settings : ∃ request, parse arguments = .ok request ∧ settingsOf processors t request = .ok s

/-- The run that the arguments lead to, with its directory in `made`, at its end. -/
def atEnd (schedule : Schedule) (s : Settings) (table : Option TypeMap) (archive : Archive)
    (made : FileTree) : State Archive :=
  after (setupOf s table).located archive made s.objects (schedule s.objects)

def said (schedule : Schedule) (s : Settings) (table : Option TypeMap) (archive : Archive)
    (made : FileTree) : List (Nat × Word) :=
  (begin archive made s.objects).words (setupOf s table).located (schedule s.objects)

/-- A request of the run is answered by a load that never ends. -/
def Overflows (schedule : Schedule) (s : Settings) (table : Option TypeMap) (archive : Archive)
    (made : FileTree) : Prop :=
  ∃ i f, (i, .answer (.error f)) ∈ said schedule s table archive made ∧ f.isEndless = true

/-- No file holds, plain or decrypted with the key of the archive, an alias that contains itself. -/
def Straight : Prop :=
  ∀ s table archive, Reached processors t arguments s table archive →
    ¬ Archive.HasLoop archive.key t

/-- The run has a directory, and is canceled or hears of a failure. -/
def Fails (schedule : Schedule) : Prop :=
  ∃ s table archive made, Reached processors t arguments s table archive ∧
    t.makeDirectories (directoryOf s.output) = (.ok (), made) ∧
    (.cancel ∈ schedule s.objects ∨
      ∃ i w, (i, w) ∈ said schedule s table archive made ∧ w.IsFailure)

/-- A schedule that takes the run to its end. -/
def Schedule.Completes (schedule : Schedule) : Prop :=
  ∀ s table archive made, Reached processors t arguments s table archive →
    t.makeDirectories (directoryOf s.output) = (.ok (), made) →
    (atEnd schedule s table archive made).IsOver

/-- What the exit code of an outcome says. -/
structure Truthful (schedule : Schedule) (o : Outcome) : Prop where
  usage : o.exit.code = 64 → o.tree = t
  software : o.exit.code = 70 ↔ ∃ s table archive e,
    Reached processors t arguments s table archive ∧
    (t.makeDirectories (directoryOf s.output)).1 = .error e
  /-- What is left then are directories on the way of the one that could not be made. -/
  unwritten : o.exit.code = 70 → ∃ s table archive, Reached processors t arguments s table archive ∧
    FileTree.Prepared (directoryOf s.output).toList t o.tree
  failed : o.exit.code = 1 ↔ ∃ s table archive made,
    Reached processors t arguments s table archive ∧
    t.makeDirectories (directoryOf s.output) = (.ok (), made) ∧
    (.cancel ∈ schedule s.objects ∨
      ∃ i w, (i, w) ∈ said schedule s table archive made ∧ w.IsFailure) ∧
    ¬ Overflows schedule s table archive made
  overflow : o.exit.code = 2 ↔ ∃ s table archive made,
    Reached processors t arguments s table archive ∧
    t.makeDirectories (directoryOf s.output) = (.ok (), made) ∧
    Overflows schedule s table archive made
  /-- The stack overflows over nothing but an alias that contains itself. -/
  looping : o.exit.code = 2 → ∃ s table archive,
    Reached processors t arguments s table archive ∧ Archive.HasLoop archive.key t
  success : o.exit.code = 0 → parse arguments ≠ .error .help → ∃ request s,
    parse arguments = .ok request ∧ settingsOf processors t request = .ok s ∧
    (s.objects ≠ [] → ∃ table archive made, Reached processors t arguments s table archive ∧
      t.makeDirectories (directoryOf s.output) = (.ok (), made) ∧
      ∀ i < s.objects.length, ∃ c k d, Stored (setupOf s table).located
        (history (setupOf s table).located archive made s.objects (schedule s.objects))
        (said schedule s table archive made) o.tree i c k d)
  /-- Functions cut short count for nothing. -/
  faults : ∀ (b : Batch.Outcome Archive) (cut : Batch.Result → List Fault),
    (concluded { b with results := b.results.map (·.map fun r => { r with faults := cut r }) }).1 =
      (concluded b).1

end

section

variable {processors : Nat} {t made : FileTree} {arguments : List String} {schedule : Schedule}
  {s : Settings} {table : Option TypeMap} {archive : Archive}

/-- What settings come to: a run, a usage error, or nothing to do. -/
theorem perform_cases (t : FileTree) (schedule : Schedule) (s : Settings) :
    (∃ table archive, Opened t s table archive ∧
      (perform t schedule s).1 = (runObjects t schedule s table archive).1 ∧
      (perform t schedule s).2.2 = (runObjects t schedule s table archive).2.2) ∨
    (perform t schedule s).2.2 = t ∧ (∀ table archive, ¬ Opened t s table archive) ∧
      ((perform t schedule s).1 = .usage ∨ (perform t schedule s).1 = .ok ∧ s.objects = []) := by
  unfold perform
  cases valid : s.validate with
  | error f =>
    refine .inr ⟨rfl, ?_, .inl rfl⟩
    rintro table archive ⟨⟨_, _, valid', _⟩, _⟩
    rw [valid] at valid'
    cases valid'
  | ok key =>
    dsimp only
    cases mapped : tableOf t s with
    | error f =>
      refine .inr ⟨rfl, ?_, .inl rfl⟩
      rintro table archive ⟨⟨_, _, _, mapped', _⟩, _⟩
      rw [mapped] at mapped'
      cases mapped'
    | ok found =>
      obtain ⟨table, notes⟩ := found
      dsimp only
      cases opened : Archive.openAt t s.archive key with
      | error f =>
        refine .inr ⟨rfl, ?_, .inl rfl⟩
        rintro table archive ⟨⟨_, _, valid', _, opened'⟩, _⟩
        rw [valid] at valid'
        cases valid'
        rw [opened] at opened'
        cases opened'
      | ok archive =>
        dsimp only
        by_cases none : s.objects = []
        · rw [if_pos (by simp [none])]
          exact .inr ⟨rfl, fun _ _ opened => opened.asked none, .inr ⟨rfl, none⟩⟩
        · rw [if_neg (by simpa using none)]
          refine .inl ⟨table, archive, ⟨⟨key, notes, valid, mapped, opened⟩, none⟩, ?_⟩
          generalize runObjects t schedule s table archive = result
          exact ⟨rfl, rfl⟩

theorem Opened.unique {table' : Option TypeMap} {archive' : Archive}
    (opened : Opened t s table archive) (opened' : Opened t s table' archive') :
    table' = table ∧ archive' = archive := by
  obtain ⟨key, notes, valid, mapped, found⟩ := opened.sound
  obtain ⟨key', notes', valid', mapped', found'⟩ := opened'.sound
  rw [valid] at valid'
  cases valid'
  rw [mapped] at mapped'
  cases mapped'
  rw [found] at found'
  cases found'
  exact ⟨rfl, rfl⟩

/-- A table from a mapping file always answers, so every class can be listed. -/
theorem render_mapped (table : Option TypeMap) (c : Class) :
    ∃ listing, Listing.render (table.map TypeMap.toTable) {} c = .ok listing := by
  have answers : TypeName.Answers (table.map TypeMap.toTable) := by
    intro mapped member name
    obtain ⟨m, _, rfl⟩ := Option.map_eq_some_iff.mp member
    exact ⟨m.find? name, rfl⟩
  obtain ⟨transcript, told⟩ := (Listing.declares_of_answers answers c).transcript
  exact ⟨_, by rw [Listing.render_eq_transcript, told]; rfl⟩

theorem atEnd_ledger : Ledger (setupOf s table).located s.objects
    (atEnd schedule s table archive made)
    (history (setupOf s table).located archive made s.objects (schedule s.objects))
    (said schedule s table archive made) := by
  have start : Ledger (setupOf s table).located s.objects (begin archive made s.objects) [] [] :=
    .begin archive made
  have ledger := execute_ledger archive_plain start (schedule s.objects)
  rwa [List.nil_append, List.nil_append] at ledger

/-- A run fails if it was canceled or something failed in it. -/
theorem atEnd_failed : ((atEnd schedule s table archive made).canceled = true ∨
      0 < failed (atEnd schedule s table archive made).results) ↔
    .cancel ∈ schedule s.objects ∨
      ∃ i w, (i, w) ∈ said schedule s table archive made ∧ w.IsFailure := by
  rw [atEnd_ledger.failed_iff (render_mapped table)]
  constructor
  · rintro (canceled | heard)
    · exact (canceled_of_execute canceled).resolve_left nofun
    · exact .inr heard
  · rintro (canceled | heard)
    · exact .inl (execute_of_canceled canceled)
    · exact .inr heard

/-- An archive that was just opened has read nothing. -/
theorem Opened.fresh (opened : Opened t s table archive) : archive.packages = [] := by
  obtain ⟨key, notes, _, _, found⟩ := opened.sound
  have found := Outcome.mapError_eq_ok.mp found
  split at found
  · cases found
  · cases found
  · split at found
    · cases found
    · cases found
      rfl

/-- Without an alias that contains itself every load ends. -/
theorem Overflows.loop (overflows : Overflows schedule s table archive made)
    (opened : Opened t s table archive)
    (usable : t.makeDirectories (directoryOf s.output) = (.ok (), made)) :
    Archive.HasLoop archive.key t := by
  obtain ⟨i, f, heard, endless⟩ := overflows
  obtain ⟨steps, name, _, _, answered⟩ :=
    answer_origin (begin_roster archive made s.objects) heard
  have start : Ledger (setupOf s table).located s.objects (begin archive made s.objects) [] [] :=
    .begin archive made
  have reading := execute_reading rfl start (.begin archive opened.fresh made s.objects) steps
  have makes := FileTree.makeDirectories_makes t (directoryOf s.output)
  rw [usable] at makes
  by_contra none
  have ends : f.isEndless = false := by
    refine Archive.load_ends (fun package bytes found loops => none ?_) f answered
    obtain ⟨place, content, c, bytes, there, held⟩ := reading.package found loops
    exact ⟨place, content, c, bytes, makes.prepared.files.mp there, held⟩
  rw [endless] at ends
  cases ends

theorem concluded_faults (b : Batch.Outcome Archive) (cut : Batch.Result → List Fault) :
    (concluded { b with results := b.results.map (·.map fun r => { r with faults := cut r }) }).1 =
      (concluded b).1 := by
  have same (results : List Batch.Result) :
      failed (results.map fun r => { r with faults := cut r }) = failed results := by
    simp [failed, List.filter_map, Function.comp_def]
  unfold concluded
  cases b.failure with
  | some f => cases b.results <;> rfl
  | none => cases results : b.results <;> simp [same]

theorem inRequestOrder_completes (canceled : Bool) :
    (inRequestOrder canceled).Completes processors t arguments := by
  intro s table archive made _ _
  cases canceled with
  | true =>
    have stopped : (State.execute (setupOf s table).located
        { loader := archive, tree := made, canceled := true, pending := s.objects }
        (inOrder none 0 s.objects)).IsOver := execute_over rfl (by simp) _
    exact stopped
  | false =>
    have ends : ((begin archive made s.objects).execute (setupOf s table).located
        (inOrder none 0 s.objects)).IsOver := inOrder_over rfl (by simp [begin]) fun _ => rfl
    exact ends

/-- A run that ends without failure leaves every object stored. -/
theorem atEnd_stored (ended : (atEnd schedule s table archive made).IsOver)
    (fine : ¬ ((atEnd schedule s table archive made).canceled = true ∨
      0 < failed (atEnd schedule s table archive made).results))
    {i : Nat} (inside : i < s.objects.length) :
    ∃ c k d, Stored (setupOf s table).located
      (history (setupOf s table).located archive made s.objects (schedule s.objects))
      (said schedule s table archive made) (atEnd schedule s table archive made).tree i c k d := by
  obtain ⟨running, none⟩ := not_or.mp fine
  have ledger := @atEnd_ledger made schedule s table archive
  have left := (ended.all_started (by simpa [State.failure?] using running)).2
  have lengths := congrArg List.length ledger.names
  rw [left, List.append_nil, List.length_map] at lengths
  refine ledger.stored ended.2 (fun job member => ?_)
    (List.getElem?_eq_getElem (lengths.symm ▸ inside))
  by_contra failure
  refine none (List.length_pos_of_mem (a := job.result) (List.mem_filter.mpr ⟨?_, ?_⟩))
  · exact List.mem_append_left _ (List.mem_map_of_mem member)
  · simpa [Option.isSome_iff_ne_none] using failure

structure Left (processors : Nat) (t : FileTree) (arguments : List String) (o : Outcome) :
    Prop where
  tree : o.tree = t
  exit : o.exit = .usage ∨ o.exit = .ok ∧ (parse arguments = .error .help ∨
    ∃ request s, parse arguments = .ok request ∧ settingsOf processors t request = .ok s ∧
      s.objects = [])

inductive Ran (t : FileTree) (schedule : Schedule) (s : Settings) (table : Option TypeMap)
    (archive : Archive) (o : Outcome) : Prop where
  | aborted {e : FileTree.Error} {made : FileTree}
      (unusable : t.makeDirectories (directoryOf s.output) = (.error e, made))
      (exit : o.exit = .software) (tree : o.tree = made)
  | stuck {made : FileTree} (usable : t.makeDirectories (directoryOf s.output) = (.ok (), made))
      (overflows : Overflows schedule s table archive made) (exit : o.exit = .overflow)
  | ended {made : FileTree} (usable : t.makeDirectories (directoryOf s.output) = (.ok (), made))
      (lasts : ¬ Overflows schedule s table archive made)
      (tree : o.tree = (atEnd schedule s table archive made).tree)
      (exit : o.exit = if (atEnd schedule s table archive made).canceled = true ∨
        0 < failed (atEnd schedule s table archive made).results then .failed else .ok)

theorem runObjects_ran {o : Outcome} (exit : o.exit = (runObjects t schedule s table archive).1)
    (tree : o.tree = (runObjects t schedule s table archive).2.2) :
    Ran t schedule s table archive o := by
  unfold runObjects at exit tree
  cases prepared : t.makeDirectories (directoryOf s.output) with
  | mk outcome made =>
    cases outcome with
    | error e =>
      rw [lasting_aborted (setupOf s table) prepared] at exit tree
      dsimp only at exit tree
      rw [run_aborted (setupOf s table) prepared] at exit tree
      exact .aborted prepared exit tree
    | ok done =>
      rw [lasting_ended (setupOf s table) prepared] at exit tree
      rcases lasting_eq (setupOf s table).located (begin archive made s.objects)
        (schedule s.objects) with ⟨steps, lasting, overflows⟩ | ⟨lasting, lasts⟩
      · rw [lasting] at exit
        exact .stuck prepared overflows exit
      · rw [lasting] at exit tree
        dsimp only at exit tree
        rw [run_ended (setupOf s table) prepared] at exit tree
        refine .ended prepared lasts tree (exit.trans ?_)
        change (concluded ⟨_, _, _, some (atEnd schedule s table archive made).results,
          (atEnd schedule s table archive made).failure?⟩).1 = _
        generalize atEnd schedule s table archive made = last
        cases canceled : last.canceled with
        | true => simp [concluded, State.failure?, canceled]
        | false => simp [concluded, State.failure?, canceled]

theorem runAlong_cases (schedule : Schedule) (processors : Nat) (t : FileTree)
    (arguments : List String) :
    (∃ s table archive, Reached processors t arguments s table archive ∧
      Ran t schedule s table archive (runAlong schedule processors t arguments)) ∨
    (∀ s table archive, ¬ Reached processors t arguments s table archive) ∧
      Left processors t arguments (runAlong schedule processors t arguments) := by
  unfold runAlong
  cases parsed : parse arguments with
  | error refusal =>
    refine .inr ⟨?_, ?_⟩
    · rintro s table archive ⟨_, request, parsed', _⟩
      rw [parsed] at parsed'
      cases parsed'
    · cases refusal with
      | help => exact ⟨rfl, .inr ⟨rfl, .inl parsed⟩⟩
      | wrong message => exact ⟨rfl, .inl rfl⟩
  | ok request =>
    dsimp only
    cases merged : settingsOf processors t request with
    | error f =>
      refine .inr ⟨?_, rfl, .inl rfl⟩
      rintro s table archive ⟨_, request', parsed', merged'⟩
      rw [parsed] at parsed'
      cases parsed'
      rw [merged] at merged'
      cases merged'
    | ok s =>
      dsimp only
      rcases perform_cases t schedule s with
        ⟨table, archive, opened, exit, tree⟩ | ⟨tree, none, exit⟩
      · exact .inl ⟨s, table, archive, ⟨opened, request, parsed, merged⟩,
          runObjects_ran exit tree⟩
      · refine .inr ⟨?_, tree, ?_⟩
        · rintro s' table archive ⟨opened, request', parsed', merged'⟩
          rw [parsed] at parsed'
          cases parsed'
          rw [merged] at merged'
          cases merged'
          exact none table archive opened
        · rcases exit with wrong | ⟨fine, empty⟩
          · exact .inl wrong
          · exact .inr ⟨fine, .inr ⟨request, s, parsed, merged, empty⟩⟩

theorem Reached.unique {s' : Settings} {table' : Option TypeMap} {archive' : Archive}
    (reached : Reached processors t arguments s table archive)
    (reached' : Reached processors t arguments s' table' archive') :
    s' = s ∧ table' = table ∧ archive' = archive := by
  obtain ⟨request, parsed, merged⟩ := reached.settings
  obtain ⟨request', parsed', merged'⟩ := reached'.settings
  rw [parsed] at parsed'
  cases parsed'
  rw [merged] at merged'
  cases merged'
  exact ⟨rfl, reached.toOpened.unique reached'.toOpened⟩

theorem Left.code {o : Outcome} (left : Left processors t arguments o) :
    o.exit.code = 64 ∨ o.exit.code = 0 := by
  rcases left.exit with wrong | ⟨fine, _⟩
  · simp [Exit.code, wrong]
  · simp [Exit.code, fine]

/-- Without a run there is nothing to tell but that nothing was done. -/
theorem Left.truthful {o : Outcome} (left : Left processors t arguments o)
    (missed : ∀ s table archive, ¬ Reached processors t arguments s table archive) :
    Truthful processors t arguments schedule o where
  usage _ := left.tree
  software := by
    refine iff_of_false (fun code => ?_) fun ⟨s, table, archive, _, reached, _⟩ =>
      missed s table archive reached
    have := left.code
    omega
  unwritten code := by
    have := left.code
    omega
  failed := by
    refine iff_of_false (fun code => ?_) fun ⟨s, table, archive, _, reached, _⟩ =>
      missed s table archive reached
    have := left.code
    omega
  overflow := by
    refine iff_of_false (fun code => ?_) fun ⟨s, table, archive, _, reached, _⟩ =>
      missed s table archive reached
    have := left.code
    omega
  looping code := by
    have := left.code
    omega
  success code plain := by
    rcases left.exit with wrong | ⟨_, help | ⟨request, s, parsed, merged, empty⟩⟩
    · simp [Exit.code, wrong] at code
    · exact absurd help plain
    · exact ⟨request, s, parsed, merged, fun asked => absurd empty asked⟩
  faults := concluded_faults

/-- What is said of some settings, a table and an archive that are reached is said of these. -/
theorem Reached.exists_iff {P : Settings → Option TypeMap → Archive → Prop}
    (reached : Reached processors t arguments s table archive) :
    (∃ s table archive, Reached processors t arguments s table archive ∧ P s table archive) ↔
      P s table archive := by
  constructor
  · rintro ⟨s', table', archive', reached', holds⟩
    obtain ⟨rfl, rfl, rfl⟩ := reached.unique reached'
    exact holds
  · exact fun holds => ⟨s, table, archive, reached, holds⟩

/-- A run tells how it went. -/
theorem Ran.truthful {o : Outcome} (ran : Ran t schedule s table archive o)
    (reached : Reached processors t arguments s table archive)
    (complete : schedule.Completes processors t arguments) :
    Truthful processors t arguments schedule o := by
  cases ran with
  | @aborted e made unusable exit tree =>
    have makes := FileTree.makeDirectories_makes t (directoryOf s.output)
    rw [unusable] at makes
    constructor
    case faults => exact concluded_faults
    case unwritten => exact fun _ => ⟨s, table, archive, reached, tree ▸ makes.prepared⟩
    case usage | looping | success => simp [exit, Exit.code]
    case software | failed | overflow =>
      simp only [exists_and_left, reached.exists_iff, unusable]
      simp [exit, Exit.code]
  | stuck usable overflows exit =>
    constructor
    case faults => exact concluded_faults
    case looping =>
      exact fun _ => ⟨s, table, archive, reached, overflows.loop reached.toOpened usable⟩
    case usage | unwritten | success => simp [exit, Exit.code]
    case software | failed | overflow =>
      simp only [exists_and_left, reached.exists_iff, usable]
      simp [exit, Exit.code, overflows]
  | @ended made usable lasts tree exit =>
    have failing := @atEnd_failed made schedule s table archive
    by_cases bad : (atEnd schedule s table archive made).canceled = true ∨
      0 < failed (atEnd schedule s table archive made).results
    · rw [if_pos bad] at exit
      have bad := failing.mp bad
      constructor
      case faults => exact concluded_faults
      case usage | unwritten | looping | success => simp [exit, Exit.code]
      case software | failed | overflow =>
        simp only [exists_and_left, reached.exists_iff, usable]
        simp [exit, Exit.code, lasts, bad]
    · rw [if_neg bad] at exit
      have fine := mt failing.mpr bad
      constructor
      case faults => exact concluded_faults
      case usage | unwritten | looping => simp [exit, Exit.code]
      case software | failed | overflow =>
        simp only [exists_and_left, reached.exists_iff, usable]
        simp [exit, Exit.code, lasts, fine]
      case success =>
        intro _ _
        obtain ⟨request, parsed, merged⟩ := reached.settings
        refine ⟨request, s, parsed, merged, fun _ => ⟨table, archive, made, reached, usable, ?_⟩⟩
        intro i inside
        rw [tree]
        exact atEnd_stored (complete s table archive made reached usable) bad inside

theorem runAlong_truthful (complete : schedule.Completes processors t arguments) :
    Truthful processors t arguments schedule (runAlong schedule processors t arguments) := by
  rcases runAlong_cases schedule processors t arguments with
    ⟨s, table, archive, reached, ran⟩ | ⟨missed, left⟩
  · exact ran.truthful reached complete
  · exact left.truthful missed

theorem Truthful.lasting {o : Outcome} (truthful : Truthful processors t arguments schedule o)
    (straight : Straight processors t arguments) : o.exit.code ≠ 2 := by
  intro overflow
  obtain ⟨s, table, archive, reached, loop⟩ := truthful.looping overflow
  exact straight s table archive reached loop

theorem Truthful.failed_iff {o : Outcome} (truthful : Truthful processors t arguments schedule o)
    (straight : Straight processors t arguments) :
    o.exit.code = 1 ↔ Fails processors t arguments schedule := by
  rw [truthful.failed]
  constructor
  · rintro ⟨s, table, archive, made, reached, usable, failed, _⟩
    exact ⟨s, table, archive, made, reached, usable, failed⟩
  · rintro ⟨s, table, archive, made, reached, usable, failed⟩
    refine ⟨s, table, archive, made, reached, usable, failed, fun overflows => ?_⟩
    exact straight s table archive reached (overflows.loop reached.toOpened usable)

end

def doorDump : List UInt8 := Text.toBytes "exports: [\x7btype: Class, name: Door_C\x7d]"

/-- A package with one class, which is asked for twice. -/
def doorTree : FileTree where
  entries := [(["dumps"], .directory), (["dumps", "Door.json"], .file doorDump)]

def doorArguments : List String := ["-i", "dumps", "-aes",
  "0x000102030405060708090a0b0c0d0e0f101112131415161718191a1b1c1d1e1f", "-o", "out/listings",
  "Door.Door_C", "/Door.Door_C"]

theorem door_straight : Straight 2 doorTree doorArguments := by
  rintro s table archive _ ⟨place, content, c, bytes, there, held, d, anchor, number, line, read,
    inside⟩
  obtain rfl : content = doorDump := by
    unfold FileTree.get? at there
    split at there
    · cases there
    · simp only [doorTree, List.lookup_cons, List.lookup_nil] at there
      split at there
      · cases there
      · split at there
        · cases there
          rfl
        · cases there
  obtain rfl : bytes = doorDump := by
    unfold Archive.content at held
    split at held
    · have odd : doorDump.length % Cipher.blockSize ≠ 0 := by decide +kernel
      rw [Cipher.decrypt, if_pos odd] at held
      cases held
    · cases held
      rfl
  have straight : ((Yaml.readDocument doorDump).toOption.getD none).all fun d =>
      d.root.all.all fun n => !n.isCycle := by
    decide +kernel
  rw [read] at straight
  simpa [Yaml.Node.isCycle] using List.all_eq_true.mp straight _ inside

/-- A script with an instruction that is its own operand. -/
def loopTree : FileTree where
  entries := [(["dumps"], .directory), (["dumps", "Loop.yaml"], .file (Text.toBytes
    ("exports: [\x7btype: Class, name: Loop_C\x7d, \x7btype: Function, name: F, outer: Loop_C, " ++
      "script: [&x \x7boffset: 0, inst: EX_Return, expr: *x\x7d]\x7d]")))]

example : (run 2 loopTree false ["-i", "dumps", "-aes",
    "0x000102030405060708090a0b0c0d0e0f101112131415161718191a1b1c1d1e1f", "-o", "out",
    "-obj", "Missing.X,Loop.Loop_C"]).exit = .overflow := by
  decide +kernel

end ScriptListing.CommandLine
