import Mathlib.Data.List.Nodup
import Mathlib.Data.List.Perm.Subperm
import ScriptListing.FileTree.Publish
import ScriptListing.Proofs.FileTree.Walk

/-! Published files. A publication leaves the new content at its path or nothing at all, and
the texts beside it change neither its outcome nor the name of the temporary file. -/
namespace ScriptListing.FileTree

variable {t t' : FileTree} {directory name : String}

def temporaryName (name : String) (k : Nat) : String := "." ++ name ++ "." ++ temporaryNumber k

def stem (directory name : String) : String :=
  below (Path.directory (Path.join directory name)) ("." ++ name ++ ".")

theorem below_append (directory start rest : String) :
    below directory (start ++ rest) = below directory start ++ rest := by
  unfold below
  split
  · simp only [String.append_assoc]
  · simp only [String.append_assoc]

theorem stem_number (directory name : String) (k : Nat) :
    stem directory name ++ temporaryNumber k =
      below (Path.directory (Path.join directory name)) (temporaryName name k) :=
  (below_append _ _ _).symm

theorem temporaryNumber_toList (k : Nat) :
    (temporaryNumber k).toList = Nat.toDigits 10 (1000000000 + k) := by
  rw [temporaryNumber, Nat.toString_eq_ofList_toDigits, String.toList_ofList]

theorem temporaryNumber_injective {k l : Nat} (same : temporaryNumber k = temporaryNumber l) :
    k = l := by
  have digits := congrArg String.toList same
  rw [temporaryNumber_toList, temporaryNumber_toList] at digits
  have numbers := congrArg (Nat.ofDigitChars 10 · 0) digits
  simp only [Nat.ofDigitChars_ten_toDigits] at numbers
  omega

theorem isDigit_of_temporaryNumber {k : Nat} {c : Char} (member : c ∈ (temporaryNumber k).toList) :
    c.isDigit := by
  rw [temporaryNumber_toList] at member
  exact Nat.isDigit_of_mem_toDigits (by decide) (by decide) member

theorem isName_temporaryName (isStep : Path.IsStep name.toList) (k : Nat) :
    Path.IsName (temporaryName name k).toList := by
  have spelled : (temporaryName name k).toList =
      '.' :: (name.toList ++ '.' :: (temporaryNumber k).toList) := by
    simp [temporaryName]
  have number : '/' ∉ (temporaryNumber k).toList := by
    intro member
    exact absurd (isDigit_of_temporaryNumber member) (by decide)
  obtain ⟨c, rest, chars⟩ := List.exists_cons_of_ne_nil isStep.filled
  have plain := isStep.plain
  rw [chars] at plain
  rw [spelled, chars]
  refine ⟨⟨⟨?_, by simp⟩, by simp⟩, ?_⟩
  · simp only [List.cons_append, List.mem_cons, List.mem_append, not_or] at plain ⊢
    exact ⟨by decide, plain.1, plain.2, by decide, number⟩
  · simp

theorem temporaryName_ne {k : Nat} {text : String} : temporaryName name k ≠ text ++ ".txt" := by
  intro same
  have chars := congrArg String.toList same
  have filled : (temporaryNumber k).toList ≠ [] := by
    rw [temporaryNumber_toList]
    exact Nat.toDigits_ne_nil
  have last := congrArg List.getLast? chars
  simp only [temporaryName, String.toList_append] at last
  rw [List.getLast?_append_of_ne_nil _ filled, List.getLast?_append_of_ne_nil _ (by decide)] at last
  have digit := isDigit_of_temporaryNumber (List.mem_of_getLast? last)
  exact absurd digit (by decide)

theorem leads_stem (isName : Path.IsName name.toList) (k : Nat) :
    Leads directory (temporaryName name k) (stem directory name ++ temporaryNumber k) := by
  rw [stem_number, Path.directory_join isName]
  exact leads_below (isName_temporaryName isName.toIsStep k)

def isFree (t : FileTree) (start : String) (k : Nat) : Bool :=
  match t.find (start ++ temporaryNumber k) with
  | .ok _ => false
  | .error _ => true

theorem freeNumber_eq (t : FileTree) (start : String) :
    t.freeNumber start = ((List.range (t.entries.length + 1)).find? (t.isFree start)).getD
      (t.entries.length + 1) := rfl

theorem entry_of_taken (isName : Path.IsName name.toList) {k : Nat}
    (taken : t.isFree (stem directory name) k = false) :
    ∃ place, t.folder directory = .ok place ∧
      place ++ [temporaryName name k] ∈ t.entries.map Prod.fst := by
  unfold isFree at taken
  split at taken
  · next entry found =>
    obtain ⟨q, walked, rest⟩ := Outcome.bind_eq_ok.mp found
    obtain ⟨place, folded, _, rfl⟩ :=
      walk_leads_ok (isName_temporaryName isName.toIsStep k) (leads_stem isName k) walked
    refine ⟨place, folded, ?_⟩
    have inside : place ++ [temporaryName name k] ≠ [] := by simp
    split at rest
    · next e there =>
      rw [get?, if_neg inside] at there
      obtain ⟨before, after, split, _⟩ := List.lookup_eq_some_iff.mp there
      simp [split]
    · cases rest
  · cases taken

/-- Of more numbers than there are entries, one is free. -/
theorem exists_free (isName : Path.IsName name.toList) :
    ∃ k ∈ List.range (t.entries.length + 1), t.isFree (stem directory name) k := by
  by_contra none
  have taken (k : Nat) (small : k < t.entries.length + 1) :
      t.isFree (stem directory name) k = false := by
    simpa using fun free => none ⟨k, List.mem_range.mpr small, free⟩
  obtain ⟨place, folded, _⟩ := entry_of_taken isName (taken 0 (by omega))
  have distinct : ((List.range (t.entries.length + 1)).map fun k =>
      place ++ [temporaryName name k]).Nodup := by
    refine List.Nodup.map ?_ List.nodup_range
    intro k l same
    have names : temporaryName name k = temporaryName name l := by simpa using same
    have numbers := congrArg String.toList names
    simp only [temporaryName, String.toList_append, List.append_cancel_left_eq] at numbers
    exact temporaryNumber_injective (String.toList_inj.mp numbers)
  have covered : ((List.range (t.entries.length + 1)).map fun k =>
      place ++ [temporaryName name k]) ⊆ t.entries.map Prod.fst := by
    intro q member
    obtain ⟨k, small, rfl⟩ := List.mem_map.mp member
    obtain ⟨place', folded', inside⟩ := entry_of_taken isName (taken k (List.mem_range.mp small))
    rw [folded] at folded'
    cases folded'
    exact inside
  have bound := (distinct.subperm covered).length_le
  simp only [List.length_map, List.length_range] at bound
  omega

theorem freeNumber_spec (t : FileTree) (isName : Path.IsName name.toList) :
    t.isFree (stem directory name) (t.freeNumber (stem directory name)) ∧
      ∀ j < t.freeNumber (stem directory name), t.isFree (stem directory name) j = false := by
  obtain ⟨k, small, free⟩ := @exists_free t directory name isName
  cases found : (List.range (t.entries.length + 1)).find? (t.isFree (stem directory name)) with
  | none => exact absurd free (by simpa using List.find?_eq_none.mp found k small)
  | some least =>
    rw [freeNumber_eq, found, Option.getD_some]
    obtain ⟨first, _, earlier⟩ := List.find?_range_eq_some.mp found
    exact ⟨first, fun j below => by simpa using earlier j below⟩

/-- The number depends on nothing but which numbers are free. -/
theorem freeNumber_congr (isName : Path.IsName name.toList)
    (same : ∀ k, t'.isFree (stem directory name) k = t.isFree (stem directory name) k) :
    t'.freeNumber (stem directory name) = t.freeNumber (stem directory name) := by
  obtain ⟨free, least⟩ := @freeNumber_spec directory name t isName
  obtain ⟨free', least'⟩ := @freeNumber_spec directory name t' isName
  rcases Nat.lt_trichotomy (t'.freeNumber (stem directory name))
    (t.freeNumber (stem directory name)) with less | equal | greater
  · rw [same, least _ less] at free'
    cases free'
  · exact equal
  · rw [← same, least' _ greater] at free
    cases free

/-- Texts beside a temporary file leave its number as it is. -/
theorem Beside.isFree (beside : Beside t t') (way : SameWay directory t t')
    (isName : Path.IsName name.toList) (k : Nat) :
    t'.isFree (stem directory name) k = t.isFree (stem directory name) k := by
  have found : t'.find (stem directory name ++ temporaryNumber k) =
      t.find (stem directory name ++ temporaryNumber k) := by
    refine find_congr (way.walk (leads_stem isName k)) fun q walked => ?_
    obtain ⟨place, folded, _, rfl⟩ :=
      walk_leads_ok (isName_temporaryName isName.toIsStep k) (leads_stem isName k) walked
    rcases beside.rest (place ++ [temporaryName name k]) with same | ⟨⟨_, text, equal⟩, _⟩
    · exact same
    · have names := (List.append_inj' equal rfl).2
      exact absurd (List.cons.inj names).1 temporaryName_ne
  unfold FileTree.isFree
  rw [found]

theorem createTemporary_ok {start path : String} {place : Location}
    (created : t.createTemporary directory start = .ok (path, place, t')) :
    t.walk path = .ok place ∧ t.get? place = none ∧ t' = t.put place (.file []) := by
  obtain ⟨q, walked, rest⟩ := Outcome.bind_eq_ok.mp created
  split at rest
  · cases rest
  · next absent =>
    cases rest
    exact ⟨Outcome.mapError_eq_ok.mp walked, absent, rfl⟩

/-- Where a new file goes, apart from the tree with it. -/
def slot (t : FileTree) (path : String) : Except Error (String × Location) :=
  (t.createTemporary (Path.directory path) ("." ++ Path.base path ++ ".")).map
    fun file => (file.1, file.2.1)

def temporaryPath (t : FileTree) (directory name : String) : String :=
  stem directory name ++ temporaryNumber (t.freeNumber (stem directory name))

/-- Nothing but the walk can fail, as the number is free. -/
theorem slot_eq (t : FileTree) (isName : Path.IsName name.toList) :
    t.slot (Path.join directory name) =
      (during "open" (t.temporaryPath directory name)
        (t.walk (t.temporaryPath directory name))).map
          fun place => (t.temporaryPath directory name, place) := by
  obtain ⟨free, _⟩ := @freeNumber_spec directory name t isName
  unfold slot createTemporary
  rw [Path.base_join isName]
  change Except.map _ (during "open" (t.temporaryPath directory name)
    (t.walk (t.temporaryPath directory name)) >>= _) = _
  cases walked : t.walk (t.temporaryPath directory name) with
  | error reason => rfl
  | ok place =>
    cases found : t.get? place with
    | none => simp [during, Except.mapError, bind, Except.bind, Except.map, found, pure,
        Except.pure, temporaryPath, stem]
    | some entry =>
      have taken : t.isFree (stem directory name) (t.freeNumber (stem directory name)) = false := by
        unfold isFree find
        rw [temporaryPath] at walked
        simp [walked, found, bind, Except.bind, pure, Except.pure]
      rw [taken] at free
      cases free

theorem leads_temporaryPath (t : FileTree) (isName : Path.IsName name.toList) :
    Leads directory (temporaryName name (t.freeNumber (stem directory name)))
      (t.temporaryPath directory name) :=
  leads_stem isName _

theorem Beside.slot (beside : Beside t t') (way : SameWay directory t t')
    (isName : Path.IsName name.toList) :
    t'.slot (Path.join directory name) = t.slot (Path.join directory name) := by
  have number : t'.temporaryPath directory name = t.temporaryPath directory name := by
    rw [temporaryPath, freeNumber_congr isName (beside.isFree way isName), temporaryPath]
  rw [slot_eq t' isName, slot_eq t isName, number, way.walk (leads_temporaryPath t isName)]

def landing (t : FileTree) (temporary path : String) : Except Error Location :=
  during "rename" (temporary ++ " " ++ path) do
    let target ← t.walk path
    if t.get? target = some .directory then throw .exists else return target

theorem Beside.landing (beside : Beside t t') (way : SameWay directory t t')
    (isName : Path.IsName name.toList) (temporary : String) :
    t'.landing temporary (Path.join directory name) =
      t.landing temporary (Path.join directory name) := by
  unfold FileTree.landing
  simp only [way.walk (leads_join isName), beside.directories]

section

variable {place : Location} {entry other : Entry}

theorem notMem_of_get?_none (absent : t.get? place = none) :
    place ≠ [] ∧ t.entries.filter (·.1 ≠ place) = t.entries := by
  unfold get? at absent
  split at absent
  · cases absent
  · next inside =>
    refine ⟨inside, List.filter_eq_self.mpr fun e member => ?_⟩
    have differs := List.lookup_eq_none_iff.mp absent e member
    simp only [bne_iff_ne] at differs
    simpa using differs.symm

theorem put_put : (t.put place entry).put place other = t.put place other := by
  simp [put]

theorem erase_put (absent : t.get? place = none) : (t.put place entry).erase place = t := by
  obtain ⟨_, kept⟩ := notMem_of_get?_none absent
  unfold erase put
  simp only [ne_eq, not_true_eq_false, decide_false, Bool.false_eq_true, not_false_eq_true,
    List.filter_cons_of_neg, List.filter_filter, Bool.and_self]
  simp only [ne_eq] at kept
  rw [kept]

end

theorem slot_ok (isName : Path.IsName name.toList) {temporary : String} {place : Location}
    (opened : t.slot (Path.join directory name) = .ok (temporary, place)) :
    ∃ folder k, t.folder directory = .ok folder ∧ t.get? folder = some .directory ∧
      place = folder ++ [temporaryName name k] := by
  rw [slot_eq t isName] at opened
  obtain ⟨q, walked, equal⟩ := Outcome.map_eq_ok.mp opened
  obtain ⟨_, rfl⟩ := Prod.mk.inj equal
  obtain ⟨folder, folded, there, spelled⟩ := walk_leads_ok
    (isName_temporaryName isName.toIsStep _)
    (leads_temporaryPath t isName) (Outcome.mapError_eq_ok.mp walked)
  exact ⟨folder, _, folded, there, spelled⟩

theorem temporaryName_ne_self (name : String) (k : Nat) : name ≠ temporaryName name k := by
  intro same
  have lengths := congrArg (fun text => text.toList.length) same
  simp only [temporaryName, String.toList_append, List.length_append] at lengths
  have dot : ".".toList.length = 1 := rfl
  omega

/-- The last step of a publication, with the temporary file filled. -/
theorem rename_filled (isName : Path.IsName name.toList) {temporary : String} {place : Location}
    {content : List UInt8} (opened : t.slot (Path.join directory name) = .ok (temporary, place))
    (absent : t.get? place = none) :
    (t.put place (.file content)).rename temporary place (Path.join directory name) =
      (t.landing temporary (Path.join directory name)).map fun target =>
        t.put target (.file content) := by
  obtain ⟨folder, k, folded, there, spelled⟩ := slot_ok isName opened
  obtain ⟨inside, _⟩ := notMem_of_get?_none absent
  -- The temporary file is in nobody's way.
  have others {q : Location} (apart : q ≠ place) :
      (t.put place (.file content)).get? q = t.get? q := by
    rw [get?_put inside, if_neg apart]
  have kept (p : Location) (held : t.get? p = some .directory) :
      (t.put place (.file content)).get? p = some .directory := by
    rw [others]
    · exact held
    · rintro rfl
      rw [absent] at held
      cases held
  have here : (t.put place (.file content)).here = t.here := rfl
  have stillFolded := folder_ok here kept folded
  have walks := walk_of_folder (leads_join isName) folded stillFolded
    ((kept folder there).trans there.symm)
  unfold rename landing
  rw [walks]
  cases target : t.walk (Path.join directory name) with
  | error reason => rfl
  | ok q =>
    obtain ⟨folder', folded', _, rfl⟩ := walk_leads_ok isName (leads_join isName) target
    obtain rfl : folder = folder' := by
      rw [folded] at folded'
      exact Except.ok.inj folded'
    have apart : folder ++ [name] ≠ place := by
      rw [spelled]
      simpa using temporaryName_ne_self name k
    have filled : (t.put place (.file content)).get? place = some (.file content) := by
      rw [get?_put inside, if_pos rfl]
    simp only [bind, Except.bind, filled, others apart, erase_put absent]
    cases t.get? (folder ++ [name]) with
    | none => rfl
    | some entry =>
      cases entry with
      | directory => rfl
      | file _ => rfl

/-- What a publication comes to: the place it lands at, or the first thing that fails. -/
def attempt (h : Hazards) (t : FileTree) (path : String) : Except Error Location := do
  let file ← t.slot path
  hazard "open" file.1 h.create
  h.filling file.1
  hazard "rename" (file.1 ++ " " ++ path) h.rename
  t.landing file.1 path

theorem kept_of_filling {h : Hazards} {path : String} (content : List UInt8)
    (filled : h.filling path = .ok ()) : h.kept content = content := by
  unfold Hazards.filling at filled
  unfold Hazards.kept
  cases hazards : h.write with
  | none => rfl
  | some write =>
    rw [hazards] at filled
    cases filled

/-- A publication that lands leaves its content there; any other leaves nothing. -/
theorem publish_eq (h : Hazards) (t : FileTree) (isName : Path.IsName name.toList)
    (content : List UInt8) :
    (t.publish h (Path.join directory name) content).written =
        (t.attempt h (Path.join directory name)).map (fun _ => content.length) ∧
      (t.publish h (Path.join directory name) content).final =
        match t.attempt h (Path.join directory name) with
        | .ok target => t.put target (.file content)
        | .error _ => t := by
  unfold publish attempt
  cases created : t.createTemporary (Path.directory (Path.join directory name))
      ("." ++ Path.base (Path.join directory name) ++ ".") with
  | error e =>
    have opened : t.slot (Path.join directory name) = .error e := by
      rw [slot, created]
      rfl
    rw [opened]
    exact ⟨rfl, rfl⟩
  | ok file =>
    obtain ⟨temporary, place, empty⟩ := file
    obtain ⟨_, absent, rfl⟩ := createTemporary_ok created
    have opened : t.slot (Path.join directory name) = .ok (temporary, place) := by
      rw [slot, created]
      rfl
    rw [opened]
    simp only [bind, Except.bind]
    cases hazard "open" temporary h.create with
    | error e => exact ⟨rfl, rfl⟩
    | ok _ =>
      simp only [pure, Except.pure, put_put]
      cases filled : h.filling temporary with
      | error e => exact ⟨rfl, erase_put absent⟩
      | ok _ =>
        simp only [replace, kept_of_filling content filled, rename_filled isName opened absent]
        cases hazard "rename" (temporary ++ " " ++ Path.join directory name) h.rename with
        | error e => exact ⟨rfl, erase_put absent⟩
        | ok _ =>
          cases t.landing temporary (Path.join directory name) with
          | error e => exact ⟨rfl, erase_put absent⟩
          | ok target => exact ⟨rfl, rfl⟩

theorem attempt_ok {h : Hazards} {path : String} {target : Location}
    (landed : t.attempt h path = .ok target) :
    t.walk path = .ok target ∧ t.get? target ≠ some .directory := by
  obtain ⟨file, _, rest⟩ := Outcome.bind_eq_ok.mp landed
  obtain ⟨_, _, rest⟩ := Outcome.bind_eq_ok.mp rest
  obtain ⟨_, _, rest⟩ := Outcome.bind_eq_ok.mp rest
  obtain ⟨_, _, rest⟩ := Outcome.bind_eq_ok.mp rest
  obtain ⟨q, walked, free⟩ := Outcome.bind_eq_ok.mp (Outcome.mapError_eq_ok.mp rest)
  split at free
  · cases free
  · next notDirectory =>
    cases free
    exact ⟨walked, notDirectory⟩

/-- Texts beside a publication do not change what it comes to. -/
theorem Beside.attempt (beside : Beside t t') (way : SameWay directory t t')
    (isName : Path.IsName name.toList) (h : Hazards) :
    t'.attempt h (Path.join directory name) = t.attempt h (Path.join directory name) := by
  unfold FileTree.attempt
  simp only [beside.slot way isName, beside.landing way isName]

theorem isName_text {text : String} (plain : '/' ∉ text.toList) :
    Path.IsName (text ++ ".txt").toList := by
  have long : 3 < (text ++ ".txt").toList.length := by simp
  refine ⟨⟨⟨by simpa using plain, ?_⟩, ?_⟩, ?_⟩
  all_goals
    intro equal
    rw [equal] at long
    revert long
    decide

section

variable {text : String} (plain : '/' ∉ text.toList) {target : Location}
include plain

theorem Beside.put (beside : Beside t t')
    (walked : t'.walk (Path.join directory (text ++ ".txt")) = .ok target)
    (free : t'.get? target ≠ some .directory) (content : List UInt8) :
    Beside t (t'.put target (.file content)) := by
  obtain ⟨place, _, _, rfl⟩ :=
    walk_leads_ok (isName_text plain) (leads_join (isName_text plain)) walked
  refine ⟨beside.here, fun q => ?_⟩
  rw [get?_put (by simp)]
  by_cases same : q = place ++ [text ++ ".txt"]
  · exact .inr ⟨⟨place, text, same⟩,
      fun held => free (same ▸ beside.directories.mpr held), by simp [same]⟩
  · rw [if_neg same]
    exact beside.rest q

theorem read_put (walked : t.walk (Path.join directory (text ++ ".txt")) = .ok target)
    (free : t.get? target ≠ some .directory) (content : List UInt8) :
    (t.put target (.file content)).read (Path.join directory (text ++ ".txt")) = .ok content := by
  have beside := (Beside.refl t).put plain walked free content
  have inside : target ≠ [] := by
    rintro rfl
    exact free rfl
  refine read_of_walk (beside.walk_ok walked) ?_
  rw [get?_put inside, if_pos rfl]

theorem read_put_other {other : String} (plain' : '/' ∉ other.toList) (differs : other ≠ text)
    (walked : t.walk (Path.join directory (text ++ ".txt")) = .ok target)
    (free : t.get? target ≠ some .directory) (content : List UInt8) :
    (t.put target (.file content)).read (Path.join directory (other ++ ".txt")) =
      t.read (Path.join directory (other ++ ".txt")) := by
  have beside := (Beside.refl t).put plain walked free content
  have way := beside.sameWay_of_walk (isName_text plain) (leads_join (isName_text plain)) walked
  obtain ⟨place, folded, _, rfl⟩ :=
    walk_leads_ok (isName_text plain) (leads_join (isName_text plain)) walked
  refine read_congr (way.walk (leads_join (isName_text plain'))) fun q walked' => ?_
  obtain ⟨place', folded', _, rfl⟩ :=
    walk_leads_ok (isName_text plain') (leads_join (isName_text plain')) walked'
  rw [folded] at folded'
  cases folded'
  rw [get?_put (by simp), if_neg]
  intro same
  have names : other ++ ".txt" = text ++ ".txt" := by simpa using same
  have chars := congrArg String.toList names
  simp only [String.toList_append, List.append_cancel_right_eq] at chars
  exact differs (String.toList_inj.mp chars)

end

end ScriptListing.FileTree
