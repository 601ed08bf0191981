import Mathlib.Data.List.Basic
import ScriptListing.Path
import ScriptListing.Proofs.ObjectPath

/-! Paths in normal form. A name below a directory adds one element to those of the
directory, and taking the directory of that path gives them back. -/
namespace ScriptListing.Path

/-- What can stand between two slashes. -/
structure IsStep (step : List Char) : Prop where
  plain : '/' ∉ step
  filled : step ≠ []

/-- What can stand between two slashes of a normal path. -/
structure IsElement (element : List Char) : Prop extends IsStep element where
  notHere : element ≠ ['.']

/-- A text that names one entry of a directory. -/
structure IsName (name : List Char) : Prop extends IsElement name where
  notAbove : name ≠ ['.', '.']

theorem IsStep.getLast?_ne {step : List Char} (isStep : IsStep step) (before : List Char) :
    (before ++ step).getLast? ≠ some '/' := by
  rw [List.getLast?_append_of_ne_nil _ isStep.filled]
  intro slash
  exact isStep.plain (List.mem_of_getLast? slash)

theorem slash_notMem_of_elements {path element : List Char} (member : element ∈ elements path) :
    '/' ∉ element := by
  induction path generalizing element with
  | nil =>
    simp only [elements, List.splitOnP_nil, List.mem_singleton] at member
    simp [member]
  | cons c rest ih =>
    unfold elements at member ih
    rw [List.splitOnP_cons_eq_if_modifyHead] at member
    split at member
    · rcases List.mem_cons.mp member with rfl | later
      · simp
      · exact ih later
    · next other =>
      obtain ⟨head, tail, split⟩ := List.exists_cons_of_ne_nil (List.splitOnP_ne_nil (· == '/') rest)
      rw [split] at member ih
      rcases List.mem_cons.mp member with rfl | later
      · have below : '/' ∉ head := ih (by simp)
        have differs : c ≠ '/' := by simpa using other
        simp [below, differs.symm]
      · exact ih (by simp [later])

theorem push_name {rooted : Bool} {stack : List (List Char)} {name : List Char}
    (isName : IsName name) : push rooted stack name = name :: stack := by
  simp [push, isName.filled, isName.notHere, isName.notAbove]

/-- Elements that stay as they are when pushed again, the last one first. -/
structure Settled (rooted : Bool) (stack : List (List Char)) : Prop where
  elements : ∀ e ∈ stack, IsElement e
  again : stack.reverse.foldl (push rooted) [] = stack

theorem Settled.push {rooted : Bool} {stack : List (List Char)} {element : List Char}
    (settled : Settled rooted stack) (plain : '/' ∉ element) :
    Settled rooted (push rooted stack element) := by
  -- A new top is settled if pushing it is what put it there.
  have onTop (isElement : IsElement element)
      (pushed : Path.push rooted stack element = element :: stack) :
      Settled rooted (element :: stack) := by
    constructor
    · simpa using ⟨isElement, settled.elements⟩
    · simp only [List.reverse_cons, List.foldl_append, List.foldl_cons, List.foldl_nil]
      rw [settled.again, pushed]
  by_cases void : element = [] ∨ element = ['.']
  · simpa only [Path.push, if_pos void] using settled
  have isElement : IsElement element := ⟨⟨plain, fun h => void (.inl h)⟩, fun h => void (.inr h)⟩
  by_cases above : element = ['.', '.']
  · cases stack with
    | nil =>
      cases rooted with
      | true => simpa [Path.push, above] using settled
      | false =>
        have pushed : Path.push false [] element = [element] := by simp [Path.push, above]
        rw [pushed]
        exact onTop isElement pushed
    | cons top rest =>
      by_cases higher : top = ['.', '.']
      · have pushed : Path.push rooted (top :: rest) element = element :: top :: rest := by
          simp [Path.push, above, higher]
        rw [pushed]
        exact onTop isElement pushed
      · have popped : Path.push rooted (top :: rest) element = rest := by
          simp [Path.push, above, higher]
        rw [popped]
        have isTop := settled.elements top (by simp)
        have again := settled.again
        simp only [List.reverse_cons, List.foldl_append, List.foldl_cons, List.foldl_nil] at again
        rw [push_name ⟨isTop, higher⟩] at again
        exact ⟨fun e member => settled.elements e (by simp [member]), (List.cons.inj again).2⟩
  · have pushed : Path.push rooted stack element = element :: stack :=
      push_name ⟨isElement, above⟩
    rw [pushed]
    exact onTop isElement pushed

theorem settled_foldl {rooted : Bool} {stack items : List (List Char)}
    (settled : Settled rooted stack) (plain : ∀ e ∈ items, '/' ∉ e) :
    Settled rooted (items.foldl (push rooted) stack) := by
  induction items generalizing stack with
  | nil => exact settled
  | cons e rest ih =>
    exact ih (settled.push (plain e (by simp))) fun e' member => plain e' (by simp [member])

theorem settled_normal (path : List Char) : Settled (isRooted path) (normal path).reverse := by
  rw [normal, List.reverse_reverse]
  exact settled_foldl ⟨by simp, rfl⟩ fun _ member => slash_notMem_of_elements member

theorem isElement_of_normal {path e : List Char} (member : e ∈ normal path) : IsElement e :=
  (settled_normal path).elements e (by simpa using member)

/-- What stands before the last name of a path: a slash if it starts at the root, and each
element with a slash after it. -/
def lead (rooted : Bool) (items : List (List Char)) : List Char :=
  (if rooted then ['/'] else []) ++ items.flatMap (· ++ ['/'])

theorem intercalate_snoc (items : List (List Char)) (name : List Char) :
    ['/'].intercalate (items ++ [name]) = items.flatMap (· ++ ['/']) ++ name := by
  induction items with
  | nil => simp
  | cons e rest ih =>
    rw [List.cons_append, List.intercalate_cons_of_ne_nil (by simp), ih]
    simp

theorem elements_lead {rooted : Bool} {items : List (List Char)} {name : List Char}
    (plain : ∀ e ∈ items, '/' ∉ e) (last : '/' ∉ name) :
    elements (lead rooted items ++ name) = (if rooted then [[]] else []) ++ items ++ [name] := by
  have apart (e rest : List Char) (free : '/' ∉ e) :
      elements (e ++ '/' :: rest) = e :: elements rest := by
    refine List.splitOnP_append_cons_of_forall_mem ?_ '/' (by decide) rest
    intro c member
    simp only [beq_eq_false_iff_ne]
    rintro rfl
    exact free member
  have below : elements (items.flatMap (· ++ ['/']) ++ name) = items ++ [name] := by
    induction items with
    | nil =>
      refine List.splitOnP_eq_singleton ?_
      intro c member
      simp only [beq_eq_false_iff_ne]
      rintro rfl
      exact last member
    | cons e rest ih =>
      have tail := ih fun e' member => plain e' (by simp [member])
      simpa [List.append_assoc, tail] using
        apart e (rest.flatMap (· ++ ['/']) ++ name) (plain e (by simp))
  cases rooted with
  | true => simpa [lead, below] using apart [] (items.flatMap (· ++ ['/']) ++ name) (by simp)
  | false => simpa [lead] using below

/-- A path is its elements with slashes between them. -/
theorem lead_elements {path last : List Char} {items : List (List Char)}
    (split : elements path = items ++ [last]) : lead false items ++ last = path := by
  have whole : ['/'].intercalate (elements path) = path := List.intercalate_splitOn '/'
  rw [split, intercalate_snoc] at whole
  simpa [lead] using whole

theorem isRooted_lead {rooted : Bool} {items : List (List Char)} {name : List Char}
    (sound : ∀ e ∈ items, IsStep e) (last : '/' ∉ name) :
    isRooted (lead rooted items ++ name) = rooted := by
  have notSlash (e rest : List Char) (filled : e ≠ []) (free : '/' ∉ e) :
      isRooted (e ++ rest) = false := by
    obtain ⟨c, tail, rfl⟩ := List.exists_cons_of_ne_nil filled
    have differs : c ≠ '/' := by
      rintro rfl
      exact free (by simp)
    simpa [isRooted] using differs
  cases rooted with
  | true => simp [lead, isRooted]
  | false =>
    cases items with
    | nil =>
      by_cases empty : name = []
      · simp [lead, empty, isRooted]
      · simpa [lead] using notSlash name [] empty last
    | cons e rest =>
      have isStep := sound e (by simp)
      simpa [lead] using
        notSlash e ('/' :: (rest.flatMap (· ++ ['/']) ++ name)) isStep.filled isStep.plain

/-- Where paths below a directory lead: from the root or not, and through which elements. -/
def rooted (directory : String) : Bool := isRooted directory.toList

def trail (directory : String) : List (List Char) := normal directory.toList

theorem isStep_of_trail {directory : String} {e : List Char} (member : e ∈ trail directory) :
    IsStep e :=
  (isElement_of_normal member).toIsStep

theorem clean_snoc {path : String} {items : List (List Char)} {name : List Char}
    (split : normal path.toList = items ++ [name]) (filled : name ≠ []) :
    clean path = String.ofList (lead (isRooted path.toList) items ++ name) := by
  unfold clean
  simp only [split, intercalate_snoc]
  cases rooted : isRooted path.toList with
  | true => simp [lead]
  | false => simp [lead, filled]

theorem foldl_push_names {rooted : Bool} {stack items : List (List Char)}
    (names : ∀ e ∈ items, IsName e) : items.foldl (push rooted) stack = items.reverse ++ stack := by
  induction items generalizing stack with
  | nil => rfl
  | cons e rest ih =>
    rw [List.foldl_cons, push_name (names e (by simp)),
      ih fun e' member => names e' (by simp [member])]
    simp

/-- A path of names below a directory adds them to the elements of the directory. -/
theorem join_names {directory name : String} {items : List (List Char)} {last : List Char}
    (split : elements name.toList = items ++ [last]) (names : ∀ e ∈ items ++ [last], IsName e) :
    join directory name =
      String.ofList (lead (rooted directory) (trail directory ++ items) ++ last) := by
  have filled : last ≠ [] := (names last (by simp)).filled
  have named : name ≠ "" := by
    rintro rfl
    have single : items ++ [last] = [[]] := split.symm
    exact (names [] (by rw [single]; simp)).filled rfl
  have unrooted : isRooted name.toList = false := by
    have sound : ∀ e ∈ items, IsStep e := fun e member => (names e (by simp [member])).toIsStep
    rw [← lead_elements split]
    exact isRooted_lead sound (names last (by simp)).plain
  by_cases void : directory = ""
  · subst void
    have whole : normal name.toList = items ++ [last] := by
      rw [normal, split, foldl_push_names names]
      simp
    rw [join, if_pos rfl, if_neg named, clean_snoc whole filled, unrooted]
    rfl
  · have chars : (directory ++ "/" ++ name).toList = directory.toList ++ '/' :: name.toList := by
      simp
    have sameRoot : isRooted (directory.toList ++ '/' :: name.toList) = rooted directory := by
      cases equal : directory.toList with
      | nil => exact absurd (by simpa using equal) void
      | cons c rest => simp [rooted, isRooted, equal]
    have apart : elements (directory.toList ++ '/' :: name.toList) =
        elements directory.toList ++ (items ++ [last]) := by
      rw [elements, List.splitOnP_append_cons _ _ (by decide)]
      exact congrArg _ split
    have whole : normal (directory ++ "/" ++ name).toList =
        (trail directory ++ items) ++ [last] := by
      rw [chars, normal, sameRoot, apart, List.foldl_append, foldl_push_names names]
      simp [trail, normal, rooted]
    rw [join, if_neg void, if_neg named, clean_snoc whole filled, chars, sameRoot]

theorem elements_name {name : List Char} (isName : IsName name) : elements name = [] ++ [name] :=
  @elements_lead false [] name (by simp) isName.plain

/-- A name below a directory is one more element. -/
theorem join_eq {directory name : String} (isName : IsName name.toList) :
    join directory name =
      String.ofList (lead (rooted directory) (trail directory) ++ name.toList) := by
  rw [join_names (elements_name isName) (by simpa using isName), List.append_nil]

theorem lead_ends (rooted : Bool) (items : List (List Char)) :
    lead rooted items = [] ∨ ∃ before, lead rooted items = before ++ ['/'] := by
  rcases List.eq_nil_or_concat' items with rfl | ⟨before, last, rfl⟩
  · cases rooted with
    | true => exact .inr ⟨[], rfl⟩
    | false => exact .inl rfl
  · exact .inr ⟨lead rooted before ++ last, by simp [lead]⟩

/-- The elements before the name are the directory of a path. -/
theorem lastElement_lead {rooted : Bool} {items : List (List Char)} {name : List Char}
    (plain : '/' ∉ name) :
    ObjectPath.lastElement (lead rooted items ++ name) = (lead rooted items, name) := by
  unfold ObjectPath.lastElement
  rcases lead_ends rooted items with none | ⟨before, slash⟩
  · rw [none, List.nil_append, ObjectPath.splitLast?_eq_none.mpr plain]
  · rw [slash, List.append_assoc, List.singleton_append,
      ObjectPath.splitLast?_eq_some.mpr ⟨rfl, plain⟩]

/-- The last element of a path that does not end with a slash is its base. -/
theorem base_of_lastElement {path : String} {directory element : List Char}
    (split : ObjectPath.lastElement path.toList = (directory, element)) (filled : element ≠ []) :
    base path = String.ofList element := by
  have plain : '/' ∉ element := by
    have free := ObjectPath.slash_notMem_lastElement path.toList
    rwa [split] at free
  have whole : directory ++ element = path.toList := by
    have joined := ObjectPath.lastElement_append path.toList
    rwa [split] at joined
  have ends : Text.dropEnd (· == '/') path.toList = path.toList := by
    rcases List.eq_nil_or_concat' element with rfl | ⟨init, last, rfl⟩
    · exact absurd rfl filled
    · have differs : last ≠ '/' := by
        rintro rfl
        exact plain (by simp)
      simp [← whole, Text.dropEnd, differs]
  have written : path.toList ≠ [] := by simp [← whole, filled]
  unfold base
  simp only [ends, List.isEmpty_iff, written, if_false, split]

theorem base_join {directory name : String} (isName : IsName name.toList) :
    base (join directory name) = name := by
  have split : ObjectPath.lastElement (join directory name).toList =
      (lead (rooted directory) (trail directory), name.toList) := by
    rw [join_eq isName, String.toList_ofList, lastElement_lead isName.plain]
  rw [base_of_lastElement split isName.filled, String.ofList_toList]

theorem clean_root {name : String} (isName : IsName name.toList) :
    clean ("/" ++ name) = join "/" name := by
  have apart := @elements_lead true [] name.toList (by simp) isName.plain
  have rooted : isRooted ("/" ++ name).toList = true := by simp [isRooted]
  have whole : normal ("/" ++ name).toList = [] ++ [name.toList] := by
    rw [normal, rooted, show ("/" ++ name).toList = lead true [] ++ name.toList by simp [lead],
      apart]
    simp [push, isName.filled, isName.notHere, isName.notAbove]
  rw [clean_snoc whole isName.filled, rooted, join_eq isName]
  rfl

/-- A name with slashes in it leads to the directory before the last of them. -/
theorem join_slashed (directory above : String) {name : String} (isName : IsName name.toList) :
    ∃ parent, join directory (above ++ "/" ++ name) = join parent name := by
  have filled : name ≠ "" := by
    rintro rfl
    exact isName.filled rfl
  have named : above ++ "/" ++ name ≠ "" := by simp [filled]
  by_cases void : directory = ""
  · by_cases root : above = ""
    · exact ⟨"/", by simpa [join, void, root, filled] using clean_root isName⟩
    · exact ⟨above, by simp [join, void, root, filled]⟩
  · refine ⟨directory ++ "/" ++ above, ?_⟩
    simp [join, void, filled, String.append_assoc]

theorem join_injective {directory name other : String} (isName : IsName name.toList)
    (isOther : IsName other.toList) (same : join directory name = join directory other) :
    name = other := by
  rw [← @base_join directory name isName, same, base_join isOther]

/-- What stands before the last name of a directory's path leads where the directory does. -/
theorem normal_lead (directory : String) :
    normal (lead (rooted directory) (trail directory)) = trail directory := by
  have sound (e : List Char) (member : e ∈ trail directory) := isStep_of_trail member
  have apart := @elements_lead (rooted directory) (trail directory) []
    (fun e member => (sound e member).plain) (by simp)
  have sameRoot := @isRooted_lead (rooted directory) (trail directory) [] sound (by simp)
  have again : ((trail directory).foldl (push (rooted directory)) []).reverse =
      trail directory := by
    have stack := (settled_normal directory.toList).again
    rw [List.reverse_reverse] at stack
    rw [trail, rooted, stack, List.reverse_reverse]
  have void (r : Bool) (stack : List (List Char)) : push r stack [] = stack := by simp [push]
  rw [List.append_nil] at apart sameRoot
  rw [normal, apart, sameRoot]
  cases equal : rooted directory with
  | true => simpa [void, equal] using again
  | false => simpa [void, equal] using again

theorem directory_join {directory name : String} (isName : IsName name.toList) :
    Path.directory (join directory name) = clean directory := by
  have sameRoot := @isRooted_lead (rooted directory) (trail directory) []
    (fun e member => isStep_of_trail member) (by simp)
  rw [List.append_nil] at sameRoot
  rw [join_eq isName, Path.directory, String.toList_ofList, lastElement_lead isName.plain]
  unfold clean
  simp only [String.toList_ofList, normal_lead, sameRoot]
  rfl

end ScriptListing.Path
