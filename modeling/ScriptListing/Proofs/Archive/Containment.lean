import ScriptListing.Archive
import ScriptListing.Proofs.Outcome
import ScriptListing.Proofs.Path

/-! Where an archive reads. The files of a package lie below the root of the archive, each
under the name of the package with an ending; only the package `.`, which names no entry of a
directory, is looked for beside the root. -/
namespace ScriptListing

namespace Path

/-- The path leads where the directory does and from there through elements downward. -/
def IsBelow (directory path : String) : Prop :=
  rooted path = rooted directory ∧
    ∃ below, below ≠ [] ∧ ['.', '.'] ∉ below ∧ trail path = trail directory ++ below

/-- A path of names, each of an entry in the directory that the names before lead to. -/
def IsNames (name : String) : Prop := ∀ e ∈ elements name.toList, IsName e

theorem exists_last (name : List Char) : ∃ items last, elements name = items ++ [last] := by
  rcases List.eq_nil_or_concat' (elements name) with none | ⟨items, last, split⟩
  · exact absurd none (List.splitOnP_ne_nil _ name)
  · exact ⟨items, last, split⟩

theorem elements_append {name ending last : List Char} {items : List (List Char)}
    (split : elements name = items ++ [last]) (plain : '/' ∉ ending) :
    elements (name ++ ending) = items ++ [last ++ ending] := by
  have steps : ∀ e ∈ items, '/' ∉ e := by
    intro e member
    exact slash_notMem_of_elements (split ▸ List.mem_append_left [last] member)
  have free : '/' ∉ last ++ ending := by
    have head : '/' ∉ last := @slash_notMem_of_elements name last (split ▸ by simp)
    simp [head, plain]
  rw [← lead_elements split, List.append_assoc]
  simpa using @elements_lead false items (last ++ ending) steps free

theorem IsName.append {name ending : List Char} (isName : IsName name) (plain : '/' ∉ ending)
    (long : 2 ≤ ending.length) : IsName (name ++ ending) := by
  have filled : 0 < name.length := List.length_pos_iff.mpr isName.filled
  refine ⟨⟨⟨?_, ?_⟩, ?_⟩, ?_⟩
  · simp [isName.plain, plain]
  · simp [isName.filled]
  · intro equal
    have size := congrArg List.length equal
    simp at size
    omega
  · intro equal
    have size := congrArg List.length equal
    simp at size
    omega

/-- An ending changes the last name of a path only. -/
theorem IsNames.append {name ending : String} (names : IsNames name) (plain : '/' ∉ ending.toList)
    (long : 2 ≤ ending.toList.length) :
    IsNames (name ++ ending) ∧
      ∀ directory, join directory (name ++ ending) = join directory name ++ ending := by
  obtain ⟨items, last, split⟩ := exists_last name.toList
  have each : ∀ e ∈ items ++ [last], IsName e := fun e member => names e (split ▸ member)
  have split' : elements (name ++ ending).toList = items ++ [last ++ ending.toList] := by
    rw [String.toList_append]
    exact elements_append split plain
  have each' : ∀ e ∈ items ++ [last ++ ending.toList], IsName e := by
    intro e member
    rcases List.mem_append.mp member with inner | end'
    · exact each e (by simp [inner])
    · obtain rfl := List.mem_singleton.mp end'
      exact (each last (by simp)).append plain long
  refine ⟨fun e member => each' e (split' ▸ member), fun directory => ?_⟩
  rw [join_names split' each', join_names split each]
  apply String.toList_injective
  simp

theorem IsNames.isBelow {name : String} (names : IsNames name) (directory : String) :
    IsBelow directory (join directory name) := by
  obtain ⟨items, last, split⟩ := exists_last name.toList
  have each : ∀ e ∈ items ++ [last], IsName e := fun e member => names e (split ▸ member)
  have isLast : IsName last := each last (by simp)
  have steps : ∀ e ∈ trail directory ++ items, IsStep e := by
    intro e member
    rcases List.mem_append.mp member with above | below
    · exact isStep_of_trail above
    · exact (each e (by simp [below])).toIsStep
  have sameRoot := @isRooted_lead (rooted directory) (trail directory ++ items) last steps
    isLast.plain
  have apart := @elements_lead (rooted directory) (trail directory ++ items) last
    (fun e member => (steps e member).plain) isLast.plain
  have again : (trail directory).foldl (push (rooted directory)) [] =
      (trail directory).reverse := by
    have settled := (settled_normal directory.toList).again
    rwa [List.reverse_reverse] at settled
  have void (stack : List (List Char)) : push (rooted directory) stack [] = stack := by simp [push]
  have whole : normal (lead (rooted directory) (trail directory ++ items) ++ last) =
      trail directory ++ (items ++ [last]) := by
    rw [normal, apart, sameRoot, List.append_assoc, List.append_assoc, List.foldl_append,
      List.foldl_append]
    have start : (if rooted directory then [[]] else []).foldl (push (rooted directory)) [] =
        [] := by
      split <;> simp [void]
    rw [start, again, foldl_push_names each]
    simp
  rw [join_names split each]
  refine ⟨?_, items ++ [last], by simp, ?_, ?_⟩
  · simpa only [rooted, String.toList_ofList] using sameRoot
  · intro member
    exact (each _ member).notAbove rfl
  · simpa only [trail, String.toList_ofList] using whole

end Path

namespace ObjectPath

theorem isValid_package {source : String} {object : ObjectPath}
    (read : split source = .ok object) : isValid object.package.toList = true :=
  (split_eq_ok.mp read).2.2

/-- A package other than the single dot is a path of names. -/
theorem isNames_package {source : String} {object : ObjectPath}
    (read : split source = .ok object) (inner : object.package ≠ ".") :
    Path.IsNames object.package := by
  have valid := isValid_package read
  simp only [isValid, Bool.and_eq_true, Bool.or_eq_true, beq_iff_eq, List.all_eq_true] at valid
  rcases valid.2 with dot | plain
  · exact absurd (String.toList_injective dot) inner
  · intro e member
    have isPlain := plain e member
    simp only [ObjectPath.isPlain, Bool.and_eq_true, Bool.not_eq_true', List.isEmpty_eq_false_iff,
      bne_iff_ne] at isPlain
    exact ⟨⟨⟨Path.slash_notMem_of_elements member, isPlain.1.1⟩, isPlain.1.2⟩, isPlain.2⟩

end ObjectPath

namespace Archive

/-- The paths that a search opens: one after the other, as long as nothing is there. -/
def tried (t : FileTree) : List Candidate → List String
  | [] => []
  | c :: rest =>
    c.path :: match t.read c.path with
      | .ok _ => []
      | .error e => if e.reason = .notExist then tried t rest else []

def opened (a : Archive) (t : FileTree) (name : String) : List String :=
  match a.packages.lookup name with
  | some _ => []
  | none => tried t (candidates a.root name)

theorem tried_subset (t : FileTree) (cs : List Candidate) :
    ∀ path ∈ tried t cs, path ∈ cs.map Candidate.path := by
  induction cs with
  | nil => simp [tried]
  | cons c rest ih =>
    intro path member
    rcases List.mem_cons.mp member with rfl | later
    · simp
    · split at later
      · simp at later
      · split at later
        · exact List.mem_cons_of_mem _ (ih path later)
        · simp at later

/-- What a search finds depends on the paths it opens and on nothing else. -/
theorem search_congr {t t' : FileTree} {key : List UInt8} {cs : List Candidate}
    (same : ∀ path ∈ tried t cs, t'.read path = t.read path) :
    search t' key cs = search t key cs := by
  induction cs with
  | nil => rfl
  | cons c rest ih =>
    have here : t'.read c.path = t.read c.path := same c.path (by simp [tried])
    unfold search
    rw [here]
    cases found : t.read c.path with
    | ok bytes => rfl
    | error e =>
      by_cases missing : e.reason = .notExist
      · simp only [missing, if_true]
        apply ih
        intro path member
        exact same path (by simp [tried, found, missing, member])
      · simp only [missing, if_false]

theorem package_congr {a : Archive} {t t' : FileTree} {name : String}
    (same : ∀ path ∈ a.opened t name, t'.read path = t.read path) :
    a.package t' name = a.package t name := by
  unfold package
  unfold opened at same
  cases kept : a.packages.lookup name with
  | some bytes => rfl
  | none =>
    rw [kept] at same
    exact search_congr same

/-- The files of a package of names lie below the root under its name with an ending. -/
theorem candidates_below {root name : String} (names : Path.IsNames name) :
    ∀ path ∈ (candidates root name).map Candidate.path,
      (∃ ending ∈ endings, path = Path.join root (name ++ ending) ∨
        path = Path.join root (name ++ ending ++ ".aes")) ∧ Path.IsBelow root path := by
  intro path member
  have suitable : ∀ ending ∈ endings, '/' ∉ ending.toList ∧ 2 ≤ ending.toList.length := by decide
  obtain ⟨c, inside, rfl⟩ := List.mem_map.mp member
  obtain ⟨ending, known, one⟩ := List.mem_flatMap.mp inside
  obtain ⟨named, joined⟩ := names.append (suitable ending known).1 (suitable ending known).2
  obtain ⟨named', joined'⟩ := named.append (show '/' ∉ ".aes".toList by decide) (by decide)
  simp only [List.mem_cons, List.not_mem_nil, or_false] at one
  rcases one with rfl | rfl
  · simp only [← joined root]
    exact ⟨⟨ending, known, .inl rfl⟩, named.isBelow root⟩
  · simp only [← joined root, ← joined' root]
    exact ⟨⟨ending, known, .inr rfl⟩, named'.isBelow root⟩

/-- Reads stay inside the archive. Every path that is opened for a package other than the
single dot is the package with an ending, joined to the root, and lies below the root; and no
other file has a say in what the package holds. -/
theorem reads_stay_below_root (a : Archive) (t : FileTree) (name : String) (object : ObjectPath)
    (asked : ObjectPath.split name = .ok object) (inner : object.package ≠ ".") :
    (∀ path ∈ a.opened t object.package,
      (∃ ending ∈ endings, path = Path.join a.root (object.package ++ ending) ∨
        path = Path.join a.root (object.package ++ ending ++ ".aes")) ∧
      Path.IsBelow a.root path) ∧
    ∀ t', (∀ path ∈ a.opened t object.package, t'.read path = t.read path) →
      a.package t' object.package = a.package t object.package := by
  have names := ObjectPath.isNames_package asked inner
  refine ⟨fun path member => ?_, fun t' same => package_congr same⟩
  unfold opened at member
  split at member
  · simp at member
  · exact candidates_below names path (tried_subset t _ path member)

/-- An archive beside the present directory, and a tree in which a package has one plain file
with the second ending. -/
def besideHere : Archive := { root := "../dumps", key := [] }

def oneDump : FileTree where
  entries := [
    (["work"], .directory), (["dumps"], .directory), (["dumps", "Game.v2"], .directory),
    (["dumps", "Game.v2", "Door.yaml"], .file [123, 125])]
  here := ["work"]

theorem reads_stay_below_root_besideHere :
    besideHere.opened oneDump "Game.v2/Door" = ["../dumps/Game.v2/Door.json",
      "../dumps/Game.v2/Door.json.aes", "../dumps/Game.v2/Door.yaml"] ∧
    Path.IsBelow "../dumps" "../dumps/Game.v2/Door.yaml" := by
  have asked : ObjectPath.split " /Game.v2/Door.Door_C" = .ok ⟨"Game.v2/Door", "Door_C"⟩ := by
    decide +kernel
  have paths : besideHere.opened oneDump "Game.v2/Door" = ["../dumps/Game.v2/Door.json",
      "../dumps/Game.v2/Door.json.aes", "../dumps/Game.v2/Door.yaml"] := by
    decide +kernel
  have safe := (reads_stay_below_root besideHere oneDump _ _ asked (by decide)).1
  exact ⟨paths, (safe "../dumps/Game.v2/Door.yaml" (by rw [paths]; simp)).2⟩

/-- An archive and a file beside it that is named like it. -/
def dumps : Archive := { root := "dumps", key := [] }

def siblingDump : FileTree where
  entries := [(["dumps"], .directory), (["dumps.json"], .file [123, 125])]

/-- The package `.` is not safe: its content is read from a file beside the root. -/
theorem dot_package_reads_beside_root :
    ObjectPath.split "..Door_C" = .ok ⟨".", "Door_C"⟩ ∧
    dumps.opened siblingDump "." = ["dumps.json"] ∧ dumps.package siblingDump "." = .ok [123, 125] ∧
    ¬ Path.IsBelow "dumps" "dumps.json" ∧
    ¬ ∃ ending ∈ endings, "dumps.json" = Path.join "dumps" ("." ++ ending) ∨
      "dumps.json" = Path.join "dumps" ("." ++ ending ++ ".aes") := by
  have trails : Path.trail "dumps" = ["dumps".toList] ∧
      Path.trail "dumps.json" = ["dumps.json".toList] := by decide +kernel
  refine ⟨by decide +kernel, by decide +kernel, by decide +kernel, ?_, by decide +kernel⟩
  rintro ⟨_, below, filled, _, same⟩
  rw [trails.1, trails.2] at same
  simp at same

end Archive

end ScriptListing
