import ScriptListing.Proofs.FileTree.Publish

/-! Directories made on the way of a path, and files published in one of them. Nothing is touched
but what the path passes and the entries right below its end. -/
namespace ScriptListing.FileTree

variable {t t' : FileTree} {place q : Location}

def elementNames (path : List Char) : List String :=
  ((Path.elements path).filter (!·.isEmpty)).map String.ofList

theorem steps_eq (path : List Char) :
    steps path = elementNames path ++ if path.getLast? = some '/' then ["."] else [] := rfl

def descend (t : FileTree) (path : List Char) : Except Reason Location :=
  (elementNames path).foldlM t.enter (t.origin (Path.isRooted path))

theorem descend_of_walk {path : String} (walked : t.walk path = .ok q) :
    accept path = .ok () ∧ t.descend path.toList = .ok q := by
  rw [walk_eq] at walked
  obtain ⟨_, accepted, rest⟩ := Outcome.bind_eq_ok.mp walked
  refine ⟨accepted, ?_⟩
  rw [steps_eq, List.foldlM_append] at rest
  obtain ⟨p, descended, last⟩ := Outcome.bind_eq_ok.mp rest
  split at last
  · rw [List.foldlM_cons] at last
    obtain ⟨p', stayed, equal⟩ := Outcome.bind_eq_ok.mp last
    obtain ⟨_, rfl⟩ := enter_here.mp stayed
    cases equal
    exact descended
  · cases last
    exact descended

theorem walk_of_descend {path : String} (accepted : accept path = .ok ())
    (descended : t.descend path.toList = .ok q) (there : t.get? q = some .directory) :
    t.walk path = .ok q := by
  rw [walk_eq, accepted]
  change (steps path.toList).foldlM t.enter _ = _
  rw [steps_eq, List.foldlM_append]
  refine Outcome.bind_ok descended ?_
  split
  · exact Outcome.bind_ok (enter_here.mpr ⟨there, rfl⟩) rfl
  · rfl

section

variable {rooted : Bool} {stack items : List (List Char)} {element : List Char}

/-- A step down and one back up stay in place, so the normal form of the elements passed so far
leads to the same place. -/
theorem foldlM_push (settled : Path.Settled rooted stack) (filled : element ≠ [])
    (reached : (stack.reverse.map String.ofList).foldlM t.enter (t.origin rooted) = .ok place)
    (entered : t.enter place (String.ofList element) = .ok q) :
    ((Path.push rooted stack element).reverse.map String.ofList).foldlM t.enter
      (t.origin rooted) = .ok q := by
  have further : ((element :: stack).reverse.map String.ofList).foldlM t.enter
      (t.origin rooted) = .ok q := by
    rw [List.reverse_cons, List.map_append, List.foldlM_append]
    exact Outcome.bind_ok reached (Outcome.bind_ok entered rfl)
  have there := enter_directory entered
  unfold Path.push
  by_cases here : element = ['.']
  · subst here
    rw [if_pos (.inr rfl)]
    obtain ⟨_, rfl⟩ := enter_here.mp entered
    exact reached
  rw [if_neg (by simp [filled, here])]
  by_cases above : element = ['.', '.']
  · subst above
    rw [if_pos rfl]
    have up : q = place.dropLast := by
      simp only [enter, there] at entered
      exact (Except.ok.inj entered).symm
    cases stack with
    | nil =>
      cases rooted with
      | false => exact further
      | true =>
        cases reached
        rw [up]
        rfl
    | cons top rest =>
      dsimp only
      by_cases double : top = ['.', '.']
      · rw [if_pos double]
        exact further
      · rw [if_neg double]
        rw [List.reverse_cons, List.map_append, List.foldlM_append] at reached
        obtain ⟨before, earlier, last⟩ := Outcome.bind_eq_ok.mp reached
        obtain ⟨_, down, equal⟩ := Outcome.bind_eq_ok.mp last
        cases equal
        have isName : Path.IsName (String.ofList top).toList := by
          rw [String.toList_ofList]
          exact ⟨settled.elements top (by simp), double⟩
        rw [enter_name isName] at down
        obtain ⟨p, stayed, named⟩ := Outcome.bind_eq_ok.mp down
        obtain ⟨_, rfl⟩ := enter_here.mp stayed
        split at named
        · cases named
        · cases named
          rw [up, List.dropLast_concat]
          exact earlier
  · rw [if_neg above]
    exact further

theorem foldlM_normal (settled : Path.Settled rooted stack) (plain : ∀ e ∈ items, '/' ∉ e)
    (reached : (stack.reverse.map String.ofList).foldlM t.enter (t.origin rooted) = .ok place)
    (passed : ((items.filter (!·.isEmpty)).map String.ofList).foldlM t.enter place = .ok q) :
    ((items.foldl (Path.push rooted) stack).reverse.map String.ofList).foldlM t.enter
      (t.origin rooted) = .ok q := by
  induction items generalizing stack place with
  | nil =>
    cases passed
    exact reached
  | cons e rest ih =>
    have later := fun e' member => plain e' (List.mem_cons_of_mem e member)
    rw [List.foldl_cons]
    by_cases empty : e = []
    · subst empty
      have same : Path.push rooted stack [] = stack := by simp [Path.push]
      rw [same]
      exact ih settled later reached passed
    · rw [List.filter_cons_of_pos (by simpa using empty), List.map_cons, List.foldlM_cons] at passed
      obtain ⟨next, entered, onward⟩ := Outcome.bind_eq_ok.mp passed
      exact ih (settled.push (plain e (by simp))) later
        (foldlM_push settled empty reached entered) onward

end

/-- A directory is where its path as written leads. -/
theorem folder_of_descend {path : List Char} (descended : t.descend path = .ok place) :
    t.folder (String.ofList path) = .ok place := by
  have empty : Path.Settled (Path.isRooted path) [] := ⟨by simp, rfl⟩
  have passed := foldlM_normal empty (fun e member => Path.slash_notMem_of_elements member) rfl
    descended
  simpa only [folder, Path.trail, Path.rooted, Path.normal, String.toList_ofList] using passed

theorem folder_of_walk {directory : String} (walked : t.walk directory = .ok place) :
    t.folder directory = .ok place := by
  have found := folder_of_descend (descend_of_walk walked).2
  rwa [String.ofList_toList] at found

section

variable {path above rest : List Char}

theorem elementNames_append (above rest : List Char) :
    elementNames (above ++ '/' :: rest) = elementNames above ++ elementNames rest := by
  rw [elementNames, Path.elements, List.splitOnP_append_cons above rest (by decide),
    List.filter_append, List.map_append]
  rfl

theorem elementNames_slashes {slashes : List Char} (only : ∀ c ∈ slashes, c = '/')
    (path : List Char) : elementNames (path ++ slashes) = elementNames path := by
  induction slashes generalizing path with
  | nil => rw [List.append_nil]
  | cons c rest ih =>
    have others (c' : Char) (member : c' ∈ rest) : c' = '/' := only c' (by simp [member])
    rw [only c (by simp), elementNames_append, ← List.nil_append rest, ih others]
    exact List.append_nil _

/-- The slashes at the end of a path, apart from the rest. -/
theorem dropEnd_slashes (path : List Char) :
    ∃ slashes, path = Text.dropEnd (· == '/') path ++ slashes ∧ ∀ c ∈ slashes, c = '/' := by
  refine ⟨(path.reverse.takeWhile (· == '/')).reverse, ?_, ?_⟩
  · rw [Text.dropEnd, ← List.reverse_append, List.takeWhile_append_dropWhile, List.reverse_reverse]
  · intro c member
    have slash := List.all_eq_true.mp List.all_takeWhile c (List.mem_reverse.mp member)
    simpa using slash

/-- Slashes at the end of a path do not change where its elements lead, and are no reason to
refuse it but by its length. -/
theorem unslashed_spec (path : List Char) :
    elementNames (unslashed path) = elementNames path ∧
      Path.isRooted (unslashed path) = Path.isRooted path ∧
      ('\x00' ∈ path → '\x00' ∈ unslashed path) ∧ (path = [] → unslashed path = []) := by
  obtain ⟨slashes, split, only⟩ := dropEnd_slashes path
  unfold unslashed
  generalize Text.dropEnd (· == '/') path = body at split
  subst split
  cases body with
  | nil =>
    cases slashes with
    | nil => simp
    | cons c rest =>
      obtain rfl := only c (by simp)
      have others (c' : Char) (member : c' ∈ rest) : c' = '/' := only c' (by simp [member])
      refine ⟨?_, rfl, ?_, by simp⟩
      · have one : elementNames ([] ++ ['/']) = elementNames [] :=
          elementNames_slashes (by simp) []
        have all : elementNames ([] ++ '/' :: rest) = elementNames [] :=
          elementNames_slashes only []
        exact one.trans all.symm
      · intro null
        exact absurd (only _ null) (by decide)
  | cons c rest =>
    refine ⟨(elementNames_slashes only (c :: rest)).symm, rfl, ?_, by simp⟩
    intro null
    rcases List.mem_append.mp null with inside | outside
    · exact inside
    · exact absurd (only _ outside) (by decide)

theorem accept_of_unslashed {path : String} (short : ¬ pathLimit ≤ Text.byteSize path)
    (accepted : accept (String.ofList (unslashed path.toList)) = .ok ()) :
    accept path = .ok () := by
  obtain ⟨_, _, null, empty⟩ := unslashed_spec path.toList
  unfold accept at accepted ⊢
  rw [String.toList_ofList] at accepted
  split at accepted
  · cases accepted
  next valid =>
  split at accepted
  · cases accepted
  next filled =>
  rw [if_neg, if_neg, if_neg short]
  · exact fun none => filled (by simpa using empty (by simpa using none))
  · exact fun held => valid (by simpa using null (by simpa using held))

/-- The path above is the start of the path, up to a slash. -/
theorem parent?_spec (found : parent? path = some above) :
    above ≠ [] ∧ ∃ rest, path = above ++ '/' :: rest := by
  unfold parent? at found
  generalize taken : (path.reverse.dropWhile (· == '/')).dropWhile (· != '/') = back at found
  dsimp only at found
  split at found
  · cases found
  next long =>
  cases found
  obtain ⟨front, whole⟩ : back <:+ path.reverse := by
    rw [← taken]
    exact (List.dropWhile_suffix _).trans (List.dropWhile_suffix _)
  cases back with
  | nil => simp at long
  | cons c rest =>
    have slash : c = '/' := by
      have head := List.head_dropWhile_not (· != '/') (l := path.reverse.dropWhile (· == '/'))
        (by simp [taken])
      simpa [taken] using head
    subst slash
    rw [List.reverse_cons, List.dropLast_concat]
    refine ⟨?_, front.reverse, ?_⟩
    · rintro none
      simp [none] at long
    · rw [← List.reverse_reverse path, ← whole]
      simp

end

def Passes (t : FileTree) (path : List Char) (q : Location) : Prop :=
  ∃ passed, passed <+: elementNames path ∧
    passed.foldlM t.enter (t.origin (Path.isRooted path)) = .ok q

/-- A tree with the directories that were missing on the way of a path, or some of them, and
nothing else new. -/
structure Prepared (path : List Char) (t t' : FileTree) : Prop where
  here : t'.here = t.here
  rest : ∀ q, t'.get? q = t.get? q ∨
    t.get? q = none ∧ t'.get? q = some .directory ∧ t'.Passes path q

namespace Prepared

variable {path above : List Char}

theorem refl (path : List Char) (t : FileTree) : Prepared path t t := ⟨rfl, fun _ => .inl rfl⟩

theorem directories (prepared : Prepared path t t') (there : t.get? q = some .directory) :
    t'.get? q = some .directory := by
  rcases prepared.rest q with same | ⟨_, made, _⟩
  · rw [same, there]
  · exact made

/-- What is missing after is missing before. -/
theorem absent (prepared : Prepared path t t') (missing : t'.get? q = none) : t.get? q = none := by
  rcases prepared.rest q with same | ⟨before, _⟩
  · rw [← same, missing]
  · exact before

theorem files {content : List UInt8} (prepared : Prepared path t t') :
    t'.get? q = some (.file content) ↔ t.get? q = some (.file content) := by
  rcases prepared.rest q with same | ⟨before, after, _⟩
  · rw [same]
  · simp [before, after]

theorem below (prepared : Prepared above t t') (found : parent? path = some above) :
    Prepared path t t' := by
  obtain ⟨filled, rest, rfl⟩ := parent?_spec found
  refine ⟨prepared.here, fun q => ?_⟩
  rcases prepared.rest q with same | ⟨before, after, passed, start, walked⟩
  · exact .inl same
  · refine .inr ⟨before, after, passed, ?_, ?_⟩
    · rw [elementNames_append]
      exact start.trans (List.prefix_append _ _)
    · obtain ⟨c, others, rfl⟩ := List.exists_cons_of_ne_nil filled
      exact walked

theorem make (prepared : Prepared path t t') {name : String} {made : FileTree}
    (spelled : name.toList = path) (done : t'.makeDirectory name = .ok made) :
    Prepared path t made ∧
      ∃ place, made.walk name = .ok place ∧ made.get? place = some .directory := by
  obtain ⟨place, walked, put⟩ := Outcome.bind_eq_ok.mp (Outcome.mapError_eq_ok.mp done)
  split at put
  · cases put
  next missing =>
  cases put
  obtain ⟨inside, _⟩ := notMem_of_get?_none missing
  have after (q : Location) : (t'.put place .directory).get? q =
      if q = place then some .directory else t'.get? q := get?_put inside
  have kept (p : Location) (there : t'.get? p = some .directory) :
      (t'.put place .directory).get? p = some .directory := by
    rw [after]
    split
    · rfl
    · exact there
  -- The new directory is walked to with or without slashes at the end.
  obtain ⟨accepted, descended⟩ : accept name = .ok () ∧ t'.descend path = .ok place := by
    split at walked
    · obtain ⟨accepted, descended⟩ := descend_of_walk walked
      exact ⟨accepted, spelled ▸ descended⟩
    next short =>
    obtain ⟨accepted, descended⟩ := descend_of_walk walked
    obtain ⟨names, root, _⟩ := unslashed_spec path
    rw [String.toList_ofList, descend, spelled, names, root] at descended
    exact ⟨accept_of_unslashed short accepted, descended⟩
  have reached : (t'.put place .directory).descend path = .ok place :=
    foldlM_enter_ok kept descended
  refine ⟨⟨prepared.here, fun q => ?_⟩, place, ?_⟩
  · rw [after]
    split
    next same =>
      subst same
      exact .inr ⟨prepared.absent missing, rfl, _, List.prefix_rfl, reached⟩
    next other =>
      rcases prepared.rest q with same | ⟨before, there, passed, start, walked'⟩
      · exact .inl same
      · exact .inr ⟨before, there, passed, start, foldlM_enter_ok kept walked'⟩
  · have there : (t'.put place .directory).get? place = some .directory := by
      rw [after, if_pos rfl]
    exact ⟨walk_of_descend accepted (spelled ▸ reached) there, there⟩

end Prepared

theorem walk_of_stat {path : String} (found : t.stat path = .ok .directory) :
    ∃ place, t.walk path = .ok place ∧ t.get? place = some .directory := by
  obtain ⟨entry, looked, directory⟩ := Outcome.map_eq_ok.mp (Outcome.mapError_eq_ok.mp found)
  obtain ⟨place, walked, rest⟩ := Outcome.bind_eq_ok.mp looked
  split at rest
  next entry' there =>
    cases rest
    cases directory
    exact ⟨place, walked, there⟩
  next => cases rest

theorem stat_of_isDirectory {path : String} (found : t.isDirectory path = true) :
    t.stat path = .ok .directory := by
  unfold isDirectory at found
  split at found
  · assumption
  · cases found

/-- An outcome with the way prepared, also where it is a failure; if it is none, the directory
is there. -/
structure Makes (path : List Char) (t : FileTree) (made : Except Error Unit × FileTree) : Prop where
  prepared : Prepared path t made.2
  ready : made.1 = .ok () → ∃ place, made.2.walk (String.ofList path) = .ok place ∧
    made.2.get? place = some .directory

/-- The last directory, when those above it are there. -/
theorem Prepared.last {path : List Char} (way : Prepared path t t') :
    Makes path t (t'.ensureDirectory (String.ofList path)) := by
  unfold ensureDirectory
  cases succeeded : t'.makeDirectory (String.ofList path) with
  | ok made =>
    obtain ⟨prepared, there⟩ := way.make String.toList_ofList succeeded
    exact ⟨prepared, fun _ => there⟩
  | error e =>
    refine ⟨way, fun success => ?_⟩
    dsimp only at success
    split at success
    next already => exact walk_of_stat (stat_of_isDirectory already)
    next => cases success

theorem makeDirectoriesUpTo_makes (fuel : Nat) (t : FileTree) (path : List Char) :
    Makes path t (makeDirectoriesUpTo fuel t path) := by
  induction fuel generalizing t path with
  | zero => exact ⟨.refl path t, nofun⟩
  | succ fuel ih =>
    cases found : t.stat (String.ofList path) with
    | ok entry =>
      simp only [makeDirectoriesUpTo, found]
      cases entry with
      | directory => exact ⟨.refl path t, fun _ => walk_of_stat found⟩
      | file content => exact ⟨.refl path t, nofun⟩
    | error e =>
      cases up : parent? path with
      | none =>
        simp only [makeDirectoriesUpTo, found, up]
        exact (Prepared.refl path t).last
      | some above =>
        have way := (ih t above).prepared.below up
        simp only [makeDirectoriesUpTo, found, up]
        generalize makeDirectoriesUpTo fuel t above = before at way ⊢
        obtain ⟨⟨e⟩ | ⟨⟨⟩⟩, t'⟩ := before
        · exact ⟨way, nofun⟩
        · exact way.last

theorem makeDirectories_makes (t : FileTree) (path : String) :
    Makes path.toList t (t.makeDirectories path) :=
  makeDirectoriesUpTo_makes (path.length + 1) t path.toList

/-- A tree that differs in files right below a place, if at all. -/
structure Within (place : Location) (t t' : FileTree) : Prop where
  here : t'.here = t.here
  rest : ∀ q, t'.get? q = t.get? q ∨ (∃ name, q = place ++ [name]) ∧
    t.get? q ≠ some .directory ∧ t'.get? q ≠ some .directory

namespace Within

variable {t'' : FileTree}

theorem refl (place : Location) (t : FileTree) : Within place t t := ⟨rfl, fun _ => .inl rfl⟩

theorem trans (first : Within place t t') (second : Within place t' t'') :
    Within place t t'' := by
  refine ⟨second.here.trans first.here, fun q => ?_⟩
  rcases second.rest q with same | ⟨inside, before, after⟩
  · rw [same]
    exact first.rest q
  · rcases first.rest q with same | ⟨_, start, _⟩
    · exact .inr ⟨inside, same ▸ before, after⟩
    · exact .inr ⟨inside, start, after⟩

theorem directories (within : Within place t t') (there : t.get? q = some .directory) :
    t'.get? q = some .directory := by
  rcases within.rest q with same | ⟨_, before, _⟩
  · rw [same, there]
  · exact absurd there before

theorem put (place : Location) {name : String} (free : t.get? (place ++ [name]) ≠ some .directory)
    (content : List UInt8) : Within place t (t.put (place ++ [name]) (.file content)) := by
  refine ⟨rfl, fun q => ?_⟩
  rw [get?_put (by simp)]
  split
  next same => exact .inr ⟨⟨name, same⟩, same ▸ free, by simp⟩
  next => exact .inl rfl

end Within

/-- A publication touches files in its directory only, at each of its steps. -/
theorem publish_within {directory name : String} (isName : Path.IsName name.toList)
    (found : t.folder directory = .ok place) (h : Hazards) (content : List UInt8) :
    ∀ t' ∈ (t.publish h (Path.join directory name) content).trees, Within place t t' := by
  unfold publish
  cases created : t.createTemporary (Path.directory (Path.join directory name))
      ("." ++ Path.base (Path.join directory name) ++ ".") with
  | error e => simp [bind, Except.bind]
  | ok file =>
    obtain ⟨temporary, spot, empty⟩ := file
    obtain ⟨_, absent, rfl⟩ := createTemporary_ok created
    have opened : t.slot (Path.join directory name) = .ok (temporary, spot) := by
      rw [slot, created]
      rfl
    obtain ⟨folder, k, folded, _, rfl⟩ := slot_ok isName opened
    obtain rfl : folder = place := by
      rw [found] at folded
      exact (Except.ok.inj folded).symm
    have temporaries (bytes : List UInt8) :
        Within folder t (t.put (folder ++ [temporaryName name k]) (.file bytes)) :=
      .put folder (by simp [absent]) bytes
    have undone (bytes : List UInt8) : ∀ t' ∈ [t.put (folder ++ [temporaryName name k]) (.file []),
        t.put (folder ++ [temporaryName name k]) (.file bytes), t], Within folder t t' := by
      simp only [List.mem_cons, List.not_mem_nil, or_false]
      rintro t' (rfl | rfl | rfl)
      · exact temporaries []
      · exact temporaries bytes
      · exact .refl folder t'
    simp only [bind, Except.bind]
    cases hazard "open" temporary h.create with
    | error e => simp
    | ok _ =>
      simp only [pure, Except.pure, put_put, erase_put absent]
      cases filled : h.filling temporary with
      | error e => exact undone _
      | ok _ =>
        simp only [replace, kept_of_filling content filled, rename_filled isName opened absent]
        cases hazard "rename" (temporary ++ " " ++ Path.join directory name) h.rename with
        | error e => exact undone _
        | ok _ =>
          cases landed : t.landing temporary (Path.join directory name) with
          | error e => exact undone _
          | ok target =>
            obtain ⟨q, walked, free⟩ :=
              Outcome.bind_eq_ok.mp (Outcome.mapError_eq_ok.mp landed)
            split at free
            · cases free
            next notDirectory =>
            cases free
            obtain ⟨folder', folded', _, rfl⟩ := walk_leads_ok isName (leads_join isName) walked
            rw [found] at folded'
            cases folded'
            intro t' member
            simp only [bind, Except.bind, Except.map, List.mem_cons, List.not_mem_nil, or_false]
              at member
            rcases member with rfl | rfl | rfl
            · exact temporaries []
            · exact temporaries content
            · exact Within.put folder notDirectory content

end ScriptListing.FileTree
