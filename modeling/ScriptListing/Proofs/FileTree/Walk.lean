import ScriptListing.FileTree
import ScriptListing.Proofs.Outcome
import ScriptListing.Proofs.Path

/-! Walks through a tree. A path below a directory is walked to the directory and then by one
name. Texts that are written meanwhile take no way away, and do not change at all where a path
leads as long as they stay away from where its walk ends. -/
namespace ScriptListing.FileTree

variable {t t' : FileTree} {place q : Location} {entry : Entry}

theorem lookup_filter_ne {entries : List (Location × Entry)} (other : q ≠ place) :
    (entries.filter (·.1 ≠ place)).lookup q = entries.lookup q := by
  induction entries with
  | nil => rfl
  | cons e rest ih =>
    obtain ⟨p, entry⟩ := e
    by_cases same : p = place
    · have differs : (q == p) = false := by simpa [same] using other
      rw [List.filter_cons_of_neg (by simpa using same), List.lookup_cons, differs]
      exact ih
    · simp only [ne_eq, same, not_false_eq_true, decide_true, List.filter_cons_of_pos,
        List.lookup_cons]
      split
      · rfl
      · exact ih

theorem get?_put (inside : place ≠ []) :
    (t.put place entry).get? q = if q = place then some entry else t.get? q := by
  unfold get? put
  by_cases same : q = place
  · simp [same, inside]
  · have differs : (q == place) = false := by simpa using same
    simp only [same, if_false, List.lookup_cons, differs]
    rw [lookup_filter_ne same]

def accept (path : String) : Except Reason Unit :=
  if path.toList.contains '\x00' then .error .invalid
  else if path.toList.isEmpty then .error .notExist
  else if pathLimit ≤ Text.byteSize path then .error .nameTooLong
  else .ok ()

def origin (t : FileTree) (rooted : Bool) : Location := if rooted then [] else t.here

theorem walk_eq (t : FileTree) (path : String) :
    t.walk path = accept path >>= fun _ =>
      (steps path.toList).foldlM t.enter (t.origin (Path.isRooted path.toList)) := by
  unfold walk accept
  by_cases invalid : path.toList.contains '\x00'
  · simp only [invalid, if_true]
    rfl
  by_cases empty : path.toList.isEmpty
  · simp only [invalid, empty, if_true]
    rfl
  by_cases long : pathLimit ≤ Text.byteSize path
  · simp only [invalid, empty, long, if_true]
    rfl
  · simp only [invalid, empty, long, if_false, bind, Except.bind, origin, Path.isRooted,
      beq_iff_eq, Bool.false_eq_true]

/-- A name below a directory that is there. -/
theorem enter_name {name : String} (isName : Path.IsName name.toList) :
    t.enter place name = t.enter place "." >>= fun p =>
      if nameLimit < Text.byteSize name then .error .nameTooLong else .ok (p ++ [name]) := by
  have notHere : name ≠ "." := by
    rintro rfl
    exact isName.notHere rfl
  have notAbove : name ≠ ".." := by
    rintro rfl
    exact isName.notAbove rfl
  unfold enter
  cases t.get? place with
  | none => rfl
  | some entry =>
    cases entry with
    | file _ => rfl
    | directory => simp [notHere, notAbove, bind, Except.bind]

theorem enter_here : t.enter place "." = .ok q ↔ t.get? place = some .directory ∧ q = place := by
  unfold enter
  cases t.get? place with
  | none => simp
  | some entry =>
    cases entry with
    | file _ => simp
    | directory => simp [eq_comm]

/-- A dot before a name asks for nothing that the name does not. -/
theorem enter_here_name {name : String} :
    (t.enter place "." >>= fun p => t.enter p name) = t.enter place name := by
  unfold enter
  cases found : t.get? place with
  | none => rfl
  | some entry =>
    cases entry with
    | file _ => rfl
    | directory => simp [bind, Except.bind, found]

theorem enter_directory {name : String} (entered : t.enter place name = .ok q) :
    t.get? place = some .directory := by
  unfold enter at entered
  split at entered
  · cases entered
  · cases entered
  · assumption

/-- A step goes the same way in every tree with the same entry at its start. -/
theorem enter_congr {name : String} (same : t'.get? place = t.get? place) :
    t'.enter place name = t.enter place name := by
  unfold enter
  rw [same]

/-- A walk that succeeds meets directories only. -/
theorem foldlM_enter_ok {names : List String}
    (kept : ∀ p, t.get? p = some .directory → t'.get? p = some .directory)
    (walked : names.foldlM t.enter place = .ok q) : names.foldlM t'.enter place = .ok q := by
  induction names generalizing place with
  | nil => exact walked
  | cons name rest ih =>
    rw [List.foldlM_cons] at walked ⊢
    obtain ⟨next, first, later⟩ := Outcome.bind_eq_ok.mp walked
    have there := enter_directory first
    refine Outcome.bind_eq_ok.mpr ⟨next, ?_, ih later⟩
    rw [enter_congr ((kept place there).trans there.symm), first]

def folder (t : FileTree) (directory : String) : Except Reason Location :=
  ((Path.trail directory).map String.ofList).foldlM t.enter (t.origin (Path.rooted directory))

theorem folder_ok {directory : String} (here : t'.here = t.here)
    (kept : ∀ p, t.get? p = some .directory → t'.get? p = some .directory)
    (found : t.folder directory = .ok place) : t'.folder directory = .ok place := by
  unfold folder origin at found ⊢
  rw [here]
  exact foldlM_enter_ok kept found

/-- The path leads to the directory and from there to the name, in every tree. -/
def Leads (directory name path : String) : Prop :=
  ∀ t : FileTree, t.walk path = accept path >>= fun _ =>
    t.folder directory >>= fun place => t.enter place name

theorem steps_lead {rooted : Bool} {items : List (List Char)} {name : List Char}
    (sound : ∀ e ∈ items, Path.IsStep e) (isName : Path.IsName name) :
    steps (Path.lead rooted items ++ name) = items.map String.ofList ++ [String.ofList name] := by
  have apart := @Path.elements_lead rooted items name (fun e member => (sound e member).plain)
    isName.plain
  have filled : items.filter (!·.isEmpty) = items := by
    refine List.filter_eq_self.mpr fun e member => ?_
    simpa using (sound e member).filled
  unfold Path.elements at apart
  rw [steps, apart, if_neg (isName.toIsStep.getLast?_ne _)]
  cases rooted with
  | true => simp [filled, isName.filled]
  | false => simp [filled, isName.filled]

theorem walk_lead {rooted : Bool} {items : List (List Char)} {name : List Char} {path : String}
    (sound : ∀ e ∈ items, Path.IsStep e) (isName : Path.IsName name)
    (spelled : path.toList = Path.lead rooted items ++ name) (t : FileTree) :
    t.walk path = accept path >>= fun _ =>
      (items.map String.ofList).foldlM t.enter (t.origin rooted) >>= fun place =>
        t.enter place (String.ofList name) := by
  rw [walk_eq, spelled, Path.isRooted_lead sound isName.plain, steps_lead sound isName]
  simp only [List.foldlM_append, List.foldlM_cons, List.foldlM_nil, bind_pure]

theorem leads_of_trail {directory name path : String} (isName : Path.IsName name.toList)
    (spelled : path.toList =
      Path.lead (Path.rooted directory) (Path.trail directory) ++ name.toList) :
    Leads directory name path := by
  intro t
  have walked := walk_lead (fun e member => Path.isStep_of_trail member) isName spelled t
  rwa [String.ofList_toList] at walked

theorem leads_join {directory name : String} (isName : Path.IsName name.toList) :
    Leads directory name (Path.join directory name) :=
  leads_of_trail isName (by rw [Path.join_eq isName, String.toList_ofList])

theorem below_step {before last : List Char} {name : String} (isStep : Path.IsStep last) :
    (below (String.ofList (before ++ last)) name).toList = before ++ last ++ '/' :: name.toList := by
  rw [below, String.toList_ofList, if_neg (isStep.getLast?_ne before)]
  simp

/-- A path below the normal form of a directory leads below the directory. -/
theorem leads_below {directory other : String} (isOther : Path.IsName other.toList) :
    Leads directory other (below (Path.clean directory) other) := by
  have spelled : Path.clean directory =
      if Path.rooted directory then String.ofList ('/' :: ['/'].intercalate (Path.trail directory))
      else if (['/'].intercalate (Path.trail directory)).isEmpty then "."
      else String.ofList (['/'].intercalate (Path.trail directory)) := rfl
  rw [spelled]
  rcases List.eq_nil_or_concat' (Path.trail directory) with none | ⟨before, last, some⟩
  · cases root : Path.rooted directory with
    | true =>
      refine leads_of_trail isOther ?_
      simp [below, none, root, Path.lead]
    | false =>
      -- The path is written with a dot, which stays where it is.
      intro t
      have walked := @walk_lead false [['.']] other.toList (below "." other)
        (by simpa using ⟨by decide, by decide⟩) isOther (by simp [below, Path.lead]) t
      simp only [none, List.intercalate_nil, List.isEmpty_nil, if_true, if_false,
        Bool.false_eq_true, folder, root, List.map_nil, List.foldlM_nil, pure_bind]
      rw [walked]
      simp only [List.map_cons, List.map_nil, List.foldlM_cons, List.foldlM_nil, bind_pure,
        String.ofList_toList]
      exact congrArg _ (funext fun _ => enter_here_name)
  · have isLast : Path.IsStep last := @Path.isStep_of_trail directory last (some ▸ by simp)
    have filled : ¬(before.flatMap (· ++ ['/']) ++ last).isEmpty := by simp [isLast.filled]
    refine leads_of_trail isOther ?_
    rw [some, Path.intercalate_snoc]
    cases root : Path.rooted directory with
    | true =>
      rw [if_pos rfl, ← List.cons_append, below_step isLast]
      simp [Path.lead]
    | false =>
      rw [if_neg (by decide), if_neg filled, below_step isLast]
      simp [Path.lead]

theorem enter_name_ok {name : String} (isName : Path.IsName name.toList)
    (entered : t.enter place name = .ok q) : q = place ++ [name] := by
  rw [enter_name isName] at entered
  obtain ⟨p, here, named⟩ := Outcome.bind_eq_ok.mp entered
  obtain ⟨_, rfl⟩ := enter_here.mp here
  split at named
  · cases named
  · cases named
    rfl

theorem walk_leads_ok {directory name path : String} (isName : Path.IsName name.toList)
    (leads : Leads directory name path) (walked : t.walk path = .ok q) :
    ∃ place, t.folder directory = .ok place ∧ t.get? place = some .directory ∧
      q = place ++ [name] := by
  rw [leads t] at walked
  obtain ⟨_, _, rest⟩ := Outcome.bind_eq_ok.mp walked
  obtain ⟨place, found, last⟩ := Outcome.bind_eq_ok.mp rest
  exact ⟨place, found, enter_directory last, enter_name_ok isName last⟩

/-- As long as its directory is there, a path leads to one place. -/
theorem walk_of_folder {directory name path : String} (leads : Leads directory name path)
    (found : t.folder directory = .ok place) (found' : t'.folder directory = .ok place)
    (same : t'.get? place = t.get? place) : t'.walk path = t.walk path := by
  have entered : t'.enter place name = t.enter place name := enter_congr same
  rw [leads t', leads t, found, found']
  simp only [bind, Except.bind, entered]

/-- Where a walk ends: at its goal, or where it cannot go on. -/
def halt (t : FileTree) : Location → List String → Location
  | place, [] => place
  | place, name :: rest =>
    match t.enter place name with
    | .ok next => t.halt next rest
    | .error _ => place

def stop (t : FileTree) (path : String) : Location :=
  t.halt (t.origin (Path.isRooted path.toList)) (steps path.toList)

theorem halt_of_ok {names : List String} (walked : names.foldlM t.enter place = .ok q) :
    t.halt place names = q := by
  induction names generalizing place with
  | nil => exact Except.ok.inj walked
  | cons name rest ih =>
    rw [List.foldlM_cons] at walked
    obtain ⟨next, first, later⟩ := Outcome.bind_eq_ok.mp walked
    rw [halt, first]
    exact ih later

theorem stop_of_walk {path : String} (walked : t.walk path = .ok q) : t.stop path = q := by
  rw [walk_eq] at walked
  obtain ⟨_, _, walked⟩ := Outcome.bind_eq_ok.mp walked
  exact halt_of_ok walked

theorem halt_append {names later : List String} (walked : names.foldlM t.enter place = .ok q) :
    t.halt place (names ++ later) = t.halt q later := by
  induction names generalizing place with
  | nil => rw [Except.ok.inj walked, List.nil_append]
  | cons name rest ih =>
    rw [List.foldlM_cons] at walked
    obtain ⟨next, first, walked⟩ := Outcome.bind_eq_ok.mp walked
    rw [List.cons_append, halt, first]
    exact ih walked

/-- A walk that is stopped does not get to what comes after. -/
theorem halt_append_error {names later : List String} {reason : Reason}
    (stopped : names.foldlM t.enter place = .error reason) :
    t.halt place (names ++ later) = t.halt place names := by
  induction names generalizing place with
  | nil => cases stopped
  | cons name rest ih =>
    rw [List.foldlM_cons] at stopped
    rw [List.cons_append, halt, halt]
    cases first : t.enter place name with
    | error _ => rfl
    | ok next =>
      rw [first] at stopped
      exact ih stopped

theorem stop_join {directory name : String} (isName : Path.IsName name.toList) :
    t.stop (Path.join directory name) = t.halt (t.origin (Path.rooted directory))
      ((Path.trail directory).map String.ofList ++ [name]) := by
  have sound (e : List Char) (member : e ∈ Path.trail directory) := Path.isStep_of_trail member
  rw [stop, Path.join_eq isName, String.toList_ofList, Path.isRooted_lead sound isName.plain,
    steps_lead sound isName, String.ofList_toList]

/-- The walk to a name ends in its directory or goes on to the name. -/
theorem stop_of_folder {directory name : String} (isName : Path.IsName name.toList)
    (found : t.folder directory = .ok place) :
    t.stop (Path.join directory name) = place ∨
      t.stop (Path.join directory name) = place ++ [name] := by
  rw [stop_join isName, halt_append found, halt]
  cases last : t.enter place name with
  | error reason => exact .inl rfl
  | ok q => exact .inr (enter_name_ok isName last)

/-- Another tree with the same entries but for some texts: files with the ending of listings,
none of which stands in the place of a directory. -/
structure Beside (t t' : FileTree) : Prop where
  here : t'.here = t.here
  rest : ∀ q, t'.get? q = t.get? q ∨
    (∃ place text, q = place ++ [text ++ ".txt"]) ∧
      t.get? q ≠ some .directory ∧ t'.get? q ≠ some .directory

/-- The directory is found in both trees or in none, for the same reason, and is the same. -/
structure SameWay (directory : String) (t t' : FileTree) : Prop where
  folder : t'.folder directory = t.folder directory
  entry : ∀ place, t.folder directory = .ok place → t'.get? place = t.get? place

/-- Where the directory is found in the same way, a path below it leads to the same place. -/
theorem SameWay.walk {directory name path : String} (way : SameWay directory t t')
    (leads : Leads directory name path) : t'.walk path = t.walk path := by
  cases found : t.folder directory with
  | error reason => rw [leads t', leads t, way.folder, found]; rfl
  | ok place => exact walk_of_folder leads found (way.folder.trans found) (way.entry place found)

namespace Beside

theorem refl (t : FileTree) : Beside t t := ⟨rfl, fun _ => .inl rfl⟩

theorem symm (beside : Beside t t') : Beside t' t where
  here := beside.here.symm
  rest q := (beside.rest q).imp Eq.symm fun ⟨text, before, after⟩ => ⟨text, after, before⟩

theorem directories (beside : Beside t t') :
    t'.get? q = some .directory ↔ t.get? q = some .directory := by
  rcases beside.rest q with same | ⟨_, before, after⟩
  · rw [same]
  · simp [before, after]

theorem origin (beside : Beside t t') (rooted : Bool) : t'.origin rooted = t.origin rooted := by
  unfold FileTree.origin
  rw [beside.here]

theorem walk_ok (beside : Beside t t') {path : String} (walked : t.walk path = .ok q) :
    t'.walk path = .ok q := by
  rw [walk_eq] at walked ⊢
  obtain ⟨_, accepted, walked⟩ := Outcome.bind_eq_ok.mp walked
  refine Outcome.bind_eq_ok.mpr ⟨_, accepted, ?_⟩
  rw [beside.origin]
  exact foldlM_enter_ok (fun p there => beside.directories.mpr there) walked

theorem walk_ok_iff (beside : Beside t t') {path : String} :
    t'.walk path = .ok q ↔ t.walk path = .ok q :=
  ⟨beside.symm.walk_ok, beside.walk_ok⟩

/-- A walk that ends at an entry that is the same goes the same way. -/
theorem foldlM_enter (beside : Beside t t') {names : List String}
    (same : t'.get? (t.halt place names) = t.get? (t.halt place names)) :
    names.foldlM t'.enter place = names.foldlM t.enter place := by
  induction names generalizing place with
  | nil => rfl
  | cons name rest ih =>
    rw [List.foldlM_cons, List.foldlM_cons]
    cases first : t.enter place name with
    | error reason =>
      rw [halt, first] at same
      rw [enter_congr same, first]
      rfl
    | ok next =>
      rw [halt, first] at same
      have there := enter_directory first
      rw [enter_congr ((beside.directories.mpr there).trans there.symm), first]
      exact ih same

theorem walk (beside : Beside t t') {path : String}
    (same : t'.get? (t.stop path) = t.get? (t.stop path)) : t'.walk path = t.walk path := by
  rw [walk_eq, walk_eq, beside.origin, beside.foldlM_enter same]

theorem sameWay (beside : Beside t t') {directory name : String}
    (isName : Path.IsName name.toList)
    (same : t'.get? (t.stop (Path.join directory name)) =
      t.get? (t.stop (Path.join directory name))) : SameWay directory t t' := by
  rw [stop_join isName] at same
  cases found : t.folder directory with
  | error reason =>
    rw [halt_append_error found] at same
    refine ⟨?_, fun place other => ?_⟩
    · rw [folder, beside.origin, beside.foldlM_enter same, folder]
    · rw [found] at other
      cases other
  | ok place =>
    rw [halt_append found, halt] at same
    have found' := folder_ok beside.here (fun p there => beside.directories.mpr there) found
    refine ⟨found'.trans found.symm, fun other known => ?_⟩
    rw [found] at known
    cases known
    cases last : t.enter place name with
    | error reason => simpa [last] using same
    | ok next =>
      have there := enter_directory last
      rw [there, beside.directories.mpr there]

/-- A path that leads somewhere shows the way to its directory. -/
theorem sameWay_of_walk (beside : Beside t t') {directory name path : String}
    (isName : Path.IsName name.toList) (leads : Leads directory name path)
    (walked : t.walk path = .ok q) : SameWay directory t t' := by
  obtain ⟨place, found, there, _⟩ := walk_leads_ok isName leads walked
  refine ⟨?_, fun p found' => ?_⟩
  · rw [found]
    exact folder_ok beside.here (fun p there => beside.directories.mpr there) found
  · rw [found] at found'
    cases found'
    rw [there, beside.directories.mpr there]

end Beside

/-- A path is read by the place it leads to and the entry there. -/
theorem find_congr {path : String} (walks : t'.walk path = t.walk path)
    (entries : ∀ q, t.walk path = .ok q → t'.get? q = t.get? q) : t'.find path = t.find path := by
  unfold find
  rw [walks]
  cases walked : t.walk path with
  | error reason => rfl
  | ok q => simp only [bind, Except.bind, entries q walked]

theorem read_congr {path : String} (walks : t'.walk path = t.walk path)
    (entries : ∀ q, t.walk path = .ok q → t'.get? q = t.get? q) : t'.read path = t.read path := by
  unfold read
  rw [find_congr walks entries]

theorem read_of_walk {path : String} {content : List UInt8} (walked : t.walk path = .ok q)
    (found : t.get? q = some (.file content)) : t.read path = .ok content := by
  unfold read find
  simp [walked, found, during, bind, Except.bind, Except.mapError, pure, Except.pure]

theorem walk_of_read {path : String} {content : List UInt8} (read : t.read path = .ok content) :
    ∃ q, t.walk path = .ok q ∧ t.get? q = some (.file content) := by
  obtain ⟨⟨q, entry⟩, opened, found⟩ := Outcome.bind_eq_ok.mp read
  obtain ⟨q', walked, there⟩ := Outcome.bind_eq_ok.mp (Outcome.mapError_eq_ok.mp opened)
  refine ⟨q', walked, ?_⟩
  split at there
  · next entry' here =>
    cases there
    cases entry with
    | directory => cases found
    | file content' =>
      cases found
      exact here
  · cases there

end ScriptListing.FileTree
