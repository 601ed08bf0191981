import ScriptListing.Proofs.FileTree.Directories

/-! Publications are all or nothing. Until the temporary file is renamed, whoever looks at the
path of the target finds what was there before; after that the new content is there, and after a
failure the tree is the one that the publication started from. -/
namespace ScriptListing.FileTree

variable {t : FileTree} {place q : Location} {path : String} {content : List UInt8}

/-- What stands at a path for everyone who looks: a file with its content, a directory, or
nothing. -/
def holds (t : FileTree) (path : String) : Option Entry := (t.stat path).toOption

theorem holds_eq_some {entry : Entry} :
    t.holds path = some entry ↔ ∃ q, t.walk path = .ok q ∧ t.get? q = some entry := by
  unfold holds stat find
  cases walked : t.walk path with
  | error reason =>
    simp [during, bind, Except.bind, Except.map, Except.mapError, Except.toOption]
  | ok q =>
    cases found : t.get? q with
    | none => simp [during, bind, Except.bind, Except.map, Except.mapError, Except.toOption, found,
        throw, throwThe, MonadExceptOf.throw]
    | some entry => simp [during, bind, Except.bind, Except.map, Except.mapError, Except.toOption,
        found, pure, Except.pure]

section

variable (inside : place ≠ []) (free : t.get? place ≠ some .directory)
include inside free

/-- A file put where no directory was leaves the directories as they are. -/
theorem put_directories {p : Location} :
    (t.put place (.file content)).get? p = some .directory ↔ t.get? p = some .directory := by
  rw [get?_put inside]
  split
  · next same => simp [same, free]
  · rfl

theorem walk_put : (t.put place (.file content)).walk path = .ok q ↔ t.walk path = .ok q := by
  have origin : (t.put place (.file content)).origin = t.origin := rfl
  rw [walk_eq, walk_eq, origin, Outcome.bind_eq_ok, Outcome.bind_eq_ok]
  refine exists_congr fun _ => and_congr_right fun _ => ?_
  constructor
  · exact foldlM_enter_ok fun p there => (put_directories inside free).mp there
  · exact foldlM_enter_ok fun p there => (put_directories inside free).mpr there

/-- A file changes what stands at a path only if the path leads to it. -/
theorem holds_put (apart : t.walk path ≠ .ok place) :
    (t.put place (.file content)).holds path = t.holds path := by
  refine Option.ext fun entry => ?_
  simp only [holds_eq_some, walk_put inside free]
  refine exists_congr fun q => and_congr_right fun walked => ?_
  rw [get?_put inside, if_neg]
  rintro rfl
  exact apart walked

theorem holds_put_self (walked : t.walk path = .ok place) :
    (t.put place (.file content)).holds path = some (.file content) := by
  refine holds_eq_some.mpr ⟨place, (walk_put inside free).mpr walked, ?_⟩
  rw [get?_put inside, if_pos rfl]

end

/-- A step from a directory never ends at another name below it. -/
theorem enter_ne {name other : String} (differs : name ≠ other)
    (entered : t.enter place name = .ok q) : q ≠ place ++ [other] := by
  rintro rfl
  unfold enter at entered
  split at entered
  · cases entered
  · cases entered
  split at entered
  · have sizes := congrArg List.length (Except.ok.inj entered)
    simp at sizes
  split at entered
  · have sizes := congrArg List.length (Except.ok.inj entered)
    simp only [List.length_dropLast, List.length_append, List.length_singleton] at sizes
    omega
  split at entered
  · cases entered
  · exact differs (by simpa using Except.ok.inj entered)

/-- A path is walked to its last element, and then by that. -/
theorem walk_lastElement {directory element : List Char}
    (split : ObjectPath.lastElement path.toList = (directory, element)) (filled : element ≠ [])
    (walked : t.walk path = .ok q) :
    ∃ p, t.folder (String.ofList directory) = .ok p ∧
      t.enter p (String.ofList element) = .ok q := by
  have plain : '/' ∉ element := by
    have free := ObjectPath.slash_notMem_lastElement path.toList
    rwa [split] at free
  have single : elementNames element = [String.ofList element] := by
    have one : Path.elements element = [] ++ [element] :=
      @Path.elements_lead false [] element (by simp) plain
    simp [elementNames, one, filled]
  obtain ⟨_, descended⟩ := descend_of_walk walked
  unfold ObjectPath.lastElement at split
  split at split
  · next above below found =>
    obtain ⟨rfl, rfl⟩ := Prod.mk.inj split
    have whole := (ObjectPath.splitLast?_eq_some.mp found).1
    have names : elementNames path.toList =
        elementNames (above ++ ['/']) ++ [String.ofList below] := by
      rw [whole, elementNames_append, elementNames_append, single]
      simp [elementNames, Path.elements]
    have sameRoot : Path.isRooted path.toList = Path.isRooted (above ++ ['/']) := by
      rw [whole]
      cases above <;> rfl
    unfold descend at descended
    rw [names, sameRoot, List.foldlM_append] at descended
    obtain ⟨p, passed, entered⟩ := Outcome.bind_eq_ok.mp descended
    simp only [List.foldlM_cons, List.foldlM_nil, bind_pure] at entered
    exact ⟨p, folder_of_descend passed, entered⟩
  · obtain ⟨rfl, rfl⟩ := Prod.mk.inj split
    have start : Path.isRooted path.toList = false :=
      @Path.isRooted_lead false [] path.toList (by simp) plain
    unfold descend at descended
    rw [single, start] at descended
    simp only [List.foldlM_cons, List.foldlM_nil, bind_pure] at descended
    exact ⟨_, rfl, descended⟩

/-- A path that ends with a slash leads to a directory. -/
theorem walk_slash (ends : path.toList.getLast? = some '/') (walked : t.walk path = .ok q) :
    t.get? q = some .directory := by
  rw [walk_eq] at walked
  obtain ⟨_, _, rest⟩ := Outcome.bind_eq_ok.mp walked
  rw [steps_eq, if_pos ends, List.foldlM_append] at rest
  obtain ⟨p, _, last⟩ := Outcome.bind_eq_ok.mp rest
  simp only [List.foldlM_cons, List.foldlM_nil, bind_pure] at last
  obtain ⟨there, rfl⟩ := enter_here.mp last
  exact there

/-- The path of a temporary file is its directory's, with a name of its own. -/
theorem createTemporary_path {directory start temporary : String} {t' : FileTree}
    (created : t.createTemporary directory start = .ok (temporary, place, t')) :
    ∃ k, temporary = below directory start ++ temporaryNumber k := by
  obtain ⟨q, _, rest⟩ := Outcome.bind_eq_ok.mp created
  split at rest
  · cases rest
  · cases rest
    exact ⟨_, rfl⟩

/-- The temporary file of a publication is never the target, whatever its path looks like. -/
theorem temporary_ne_target {temporary : String} {t' : FileTree}
    (created : t.createTemporary (Path.directory path) ("." ++ Path.base path ++ ".") =
      .ok (temporary, place, t')) : t.walk path ≠ .ok place := by
  intro walked
  obtain ⟨opened, absent, _⟩ := createTemporary_ok created
  obtain ⟨k, rfl⟩ := createTemporary_path created
  by_cases ends : path.toList.getLast? = some '/'
  · rw [walk_slash ends walked] at absent
    cases absent
  have written : path.toList ≠ [] := by
    intro empty
    obtain ⟨accepted, _⟩ := descend_of_walk walked
    simp [accept, empty] at accepted
  have filled := ObjectPath.lastElement_filled written ends
  rcases split : ObjectPath.lastElement path.toList with ⟨directory, element⟩
  rw [split] at filled
  have isStep : Path.IsStep (String.ofList element).toList := by
    have free := ObjectPath.slash_notMem_lastElement path.toList
    rw [split] at free
    rw [String.toList_ofList]
    exact ⟨free, filled⟩
  have isName := isName_temporaryName isStep k
  have above : Path.directory path = Path.clean (String.ofList directory) := by
    rw [Path.directory, split]
  rw [above, Path.base_of_lastElement split filled, ← below_append, ← temporaryName] at opened
  -- Both paths go through the directory, and then by different names.
  obtain ⟨p, found, entered⟩ := walk_lastElement split filled walked
  obtain ⟨p', found', _, rfl⟩ := walk_leads_ok isName (leads_below isName) opened
  rw [found] at found'
  cases found'
  exact enter_ne (temporaryName_ne_self _ k) entered rfl

/-- The ways a publication goes. Nothing happens at all; or the temporary file is made, filled and
taken away again; or it is renamed and so put in the place of the target. -/
inductive Course (t : FileTree) (path : String) (content : List UInt8) : Publication → Prop where
  | refused (e : Error) : Course t path content ⟨t, [], .error e⟩
  | undone (place : Location) (absent : t.get? place = none) (apart : t.walk path ≠ .ok place)
      (part : List UInt8) (e : Error) : Course t path content
        ⟨t, [t.put place (.file []), t.put place (.file part), t], .error e⟩
  | done (temporary : String) (place : Location) (absent : t.get? place = none)
      (apart : t.walk path ≠ .ok place) (target : Location) (walked : t.walk path = .ok target)
      (free : t.get? target ≠ some .directory)
      (renamed : (t.put place (.file content)).rename temporary place path =
        .ok (t.put target (.file content))) : Course t path content
        ⟨t, [t.put place (.file []), t.put place (.file content), t.put target (.file content)],
          .ok content.length⟩

/-- A filled temporary file that is renamed goes to where the path leads. -/
theorem rename_temporary {temporary : String} {t' : FileTree} (absent : t.get? place = none)
    (apart : t.walk path ≠ .ok place)
    (renamed : (t.put place (.file content)).rename temporary place path = .ok t') :
    ∃ target, t.walk path = .ok target ∧ t.get? target ≠ some .directory ∧
      t' = t.put target (.file content) := by
  obtain ⟨inside, _⟩ := notMem_of_get?_none absent
  obtain ⟨target, walked, rest⟩ := Outcome.bind_eq_ok.mp (Outcome.mapError_eq_ok.mp renamed)
  have led : t.walk path = .ok target := (walk_put inside (by simp [absent])).mp walked
  have other : target ≠ place := by
    rintro rfl
    exact apart led
  rw [get?_put inside, get?_put inside, if_pos rfl, if_neg other] at rest
  refine ⟨target, led, ?_⟩
  cases found : t.get? target with
  | none =>
    rw [found] at rest
    cases rest
    exact ⟨by simp, by rw [erase_put absent]⟩
  | some entry =>
    rw [found] at rest
    cases entry with
    | directory => cases rest
    | file old =>
      cases rest
      exact ⟨by simp, by rw [erase_put absent]⟩

theorem publish_course (h : Hazards) (t : FileTree) (path : String) (content : List UInt8) :
    Course t path content (t.publish h path content) := by
  unfold publish
  cases created : t.createTemporary (Path.directory path) ("." ++ Path.base path ++ ".") with
  | error e => exact .refused e
  | ok file =>
    obtain ⟨temporary, place, empty⟩ := file
    have apart := temporary_ne_target created
    obtain ⟨_, absent, rfl⟩ := createTemporary_ok created
    simp only [bind, Except.bind, pure, Except.pure]
    cases hazard "open" temporary h.create with
    | error e => exact .refused e
    | ok _ =>
      simp only [put_put, erase_put absent]
      cases filled : h.filling temporary with
      | error e => exact .undone place absent apart _ e
      | ok _ =>
        rw [kept_of_filling content filled]
        cases replaced : replace h (t.put place (.file content)) temporary place path with
        | error e => exact .undone place absent apart content e
        | ok t' =>
          obtain ⟨_, _, renamed⟩ := Outcome.bind_eq_ok.mp replaced
          obtain ⟨target, walked, free, rfl⟩ := rename_temporary absent apart renamed
          exact .done temporary place absent apart target walked free renamed

/-- Publishing is all or nothing, whatever the path and whichever steps fail. After every step the
target is as before, or it holds the whole content and the step was the rename of the temporary
file. A publication that fails leaves the tree that it began with; one that succeeds tells the
length of the content and changes nothing but the target. -/
theorem publications_are_all_or_nothing (h : Hazards) (t : FileTree) (path : String)
    (content : List UInt8) :
    (∀ k x, (t.publish h path content).trees[k]? = some x →
      x.holds path = t.holds path ∨
        x.holds path = some (.file content) ∧
          (t.publish h path content).written = .ok content.length ∧
          ∃ j y temporary place, k = j + 1 ∧ (t.publish h path content).trees[j]? = some y ∧
            y.rename temporary place path = .ok x) ∧
    (∀ e, (t.publish h path content).written = .error e → (t.publish h path content).final = t) ∧
    ∀ n, (t.publish h path content).written = .ok n →
      n = content.length ∧
      (t.publish h path content).final.holds path = some (.file content) ∧
      ∃ target, t.walk path = .ok target ∧
        ∀ q, q ≠ target → (t.publish h path content).final.get? q = t.get? q := by
  have passing {place : Location} (absent : t.get? place = none) (apart : t.walk path ≠ .ok place)
      (bytes : List UInt8) : (t.put place (.file bytes)).holds path = t.holds path :=
    holds_put (notMem_of_get?_none absent).1 (by simp [absent]) apart
  have course := publish_course h t path content
  generalize t.publish h path content = publication at course ⊢
  cases course with
  | refused e => exact ⟨by simp, fun _ _ => rfl, nofun⟩
  | undone place absent apart part e =>
    refine ⟨fun k x step => .inl ?_, fun _ _ => rfl, nofun⟩
    have member := List.mem_of_getElem? step
    simp only [List.mem_cons, List.not_mem_nil, or_false] at member
    rcases member with rfl | rfl | rfl
    · exact passing absent apart []
    · exact passing absent apart part
    · rfl
  | done temporary place absent apart target walked free renamed =>
    have inside : target ≠ [] := by
      rintro rfl
      exact free rfl
    have arrived : (t.put target (.file content)).holds path = some (.file content) :=
      holds_put_self inside free walked
    refine ⟨fun k x step => ?_, nofun, ?_⟩
    · match k, step with
      | 0, step =>
        cases step
        exact .inl (passing absent apart [])
      | 1, step =>
        cases step
        exact .inl (passing absent apart content)
      | 2, step =>
        cases step
        exact .inr ⟨arrived, rfl, 1, _, temporary, place, rfl, rfl, renamed⟩
    · rintro n ⟨⟩
      refine ⟨rfl, arrived, target, walked, fun q other => ?_⟩
      change (t.put target (.file content)).get? q = _
      rw [get?_put inside, if_neg other]

def single : FileTree := { entries := [(["a"], .file [1])] }

theorem publications_are_all_or_nothing_single :
    (single.publish {} "/a" [2, 3]).final.holds "/a" = some (.file [2, 3]) ∧
      (single.publish { rename := some .invalid } "/a" [2, 3]).final = single := by
  constructor
  · obtain ⟨_, _, whole⟩ := publications_are_all_or_nothing {} single "/a" [2, 3]
    exact (whole 2 (by decide +kernel)).2.1
  · obtain ⟨_, nothing, _⟩ :=
      publications_are_all_or_nothing { rename := some .invalid } single "/a" [2, 3]
    exact nothing ⟨"rename", "/.a.1000000000 /a", .invalid⟩ (by decide +kernel)

end ScriptListing.FileTree
