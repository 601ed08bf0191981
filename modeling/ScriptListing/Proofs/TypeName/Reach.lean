import ScriptListing.Proofs.Chain
import ScriptListing.Proofs.SymbolTable
import ScriptListing.TypeName

/-! The letter of a class as reachability. The letter is `A` when the nearest mapped class
leads to a type called Actor, each within 256 steps. That the walks go to no class twice
changes no letter, and on small tables and short chains the limits change none either. -/
namespace ScriptListing.TypeName

open Chain Outcome

abbrev Answer := String → Option TypeEntry

def parentIn (answer : Answer) (name : String) : Option String :=
  (answer name).map TypeEntry.super

def isKnown (answer : Answer) (name : String) : Bool := (answer name).isSome

def isActor (answer : Answer) (name : String) : Bool := (answer name).any (·.name = "Actor")

/-- The nearest class upward whose name the table knows, at place `i` of the chain. -/
abbrev Nearest (answer : Answer) (h : Hierarchy) (key : String) (i : Nat) (base : String) :
    Prop :=
  First h.super? (fun c => isKnown answer (h.nameOf c)) key i base

/-- The type `k` steps along the table from `base`, through names that are all known. -/
def typeAt? (answer : Answer) (base : String) (k : Nat) : Option TypeEntry :=
  (at? (parentIn answer) k base).bind answer

def ActorAt (answer : Answer) (base : String) (k : Nat) : Prop :=
  ∃ entry, typeAt? answer base k = some entry ∧ entry.name = "Actor"

theorem isActor_iff {answer : Answer} {name : String} :
    isActor answer name = true ↔ ∃ entry, answer name = some entry ∧ entry.name = "Actor" := by
  simp [isActor, Option.any_eq_true]

theorem actorAt_iff {answer : Answer} {base : String} {k : Nat} :
    ActorAt answer base k ↔
      ∃ name, at? (parentIn answer) k base = some name ∧ isActor answer name = true := by
  simp only [ActorAt, typeAt?, Option.bind_eq_some_iff, isActor_iff]
  constructor
  · rintro ⟨entry, ⟨name, at', known⟩, actor⟩
    exact ⟨name, at', entry, known, actor⟩
  · rintro ⟨name, at', entry, known, actor⟩
    exact ⟨entry, ⟨name, at', known⟩, actor⟩

section

variable {t : SymbolTable} {answer : Answer} (answers : ∀ name, t.lookup name = .ok (answer name))
include answers

theorem mappedBase_eq_search (h : Hierarchy) (steps : Nat) (seen : List String)
    (key : String) : mappedBase t h steps seen key =
      .ok ((search h.super? (fun c => isKnown answer (h.nameOf c)) steps seen key).map
        h.nameOf) := by
  induction steps generalizing seen key with
  | zero => rfl
  | succ steps ih =>
    unfold mappedBase search
    split
    · rfl
    · rw [answers]
      cases known : answer (h.nameOf key) with
      | some entry =>
        simp [isKnown, known, bind, Except.bind, pure, Except.pure]
      | none =>
        simp only [isKnown, known, bind, Except.bind]
        cases h.super? key with
        | none => rfl
        | some parent => simpa [isKnown] using ih (key :: seen) parent

theorem reachesActor_eq_search (steps : Nat) (seen : List String) (name : String) :
    reachesActor t steps seen name =
      .ok (search (parentIn answer) (isActor answer) steps seen name).isSome := by
  induction steps generalizing seen name with
  | zero => rfl
  | succ steps ih =>
    unfold reachesActor search
    split
    · rfl
    · rw [answers]
      cases known : answer name with
      | none => simp [isActor, parentIn, known, bind, Except.bind, pure, Except.pure]
      | some entry =>
        by_cases actor : entry.name = "Actor"
        · simp [isActor, known, actor, bind, Except.bind, pure, Except.pure]
        · simpa [isActor, parentIn, known, actor, bind, Except.bind] using
            ih (name :: seen) entry.super

/-- The letter as two searches, one after the other. -/
theorem letter_eq_search (h : Hierarchy) (key : String) :
    letter (some t) h (some key) =
      .ok (if ((search h.super? (fun c => isKnown answer (h.nameOf c)) maxDepth [] key).bind
        fun base => search (parentIn answer) (isActor answer) maxDepth [] (h.nameOf base)).isSome
          then 'A' else 'U') := by
  unfold letter
  simp only [mappedBase_eq_search answers, bind, Except.bind]
  cases search h.super? (fun c => isKnown answer (h.nameOf c)) maxDepth [] key with
  | none => rfl
  | some base =>
    simp only [Option.map_some, reachesActor_eq_search answers, Option.bind_some]
    rfl

end

theorem search_actor_iff {answer : Answer} {base : String} {steps : Nat} :
    (search (parentIn answer) (isActor answer) steps [] base).isSome = true ↔
      ∃ k < steps, ActorAt answer base k := by
  rw [Option.isSome_iff_exists]
  constructor
  · rintro ⟨name, found⟩
    obtain ⟨k, within, first⟩ := search_eq_some_iff.mp found
    exact ⟨k, within, actorAt_iff.mpr ⟨name, first.found, first.hits⟩⟩
  · rintro ⟨k, within, actor⟩
    obtain ⟨name, found, hits⟩ := actorAt_iff.mp actor
    obtain ⟨j, early, first, earliest⟩ := exists_first found hits
    exact ⟨first, search_eq_some_iff.mpr ⟨j, by omega, earliest⟩⟩

/-- The nearest mapped class leads to an actor, each within some steps. -/
def Reaches (answer : Answer) (h : Hierarchy) (key : String) (steps : Nat) : Prop :=
  ∃ i < steps, ∃ base, Nearest answer h key i base ∧
    ∃ k < steps, ActorAt answer (h.nameOf base) k

theorem search_reaches_iff {answer : Answer} {h : Hierarchy} {key : String} {steps : Nat} :
    ((search h.super? (fun c => isKnown answer (h.nameOf c)) steps [] key).bind fun base =>
      search (parentIn answer) (isActor answer) steps [] (h.nameOf base)).isSome = true ↔
      Reaches answer h key steps := by
  simp only [Option.isSome_bind, Option.any_eq_true, search_actor_iff, search_eq_some_iff]
  constructor
  · rintro ⟨base, ⟨i, within, nearest⟩, actor⟩
    exact ⟨i, within, base, nearest, actor⟩
  · rintro ⟨i, within, base, nearest, actor⟩
    exact ⟨base, ⟨i, within, nearest⟩, actor⟩

/-- On the way to the first actor every name is known. -/
theorem known_to_actor {answer : Answer} {base x : String} {k j : Nat} {name : String}
    (first : First (parentIn answer) (isActor answer) base k x) (within : j ≤ k)
    (at' : at? (parentIn answer) j base = some name) : isKnown answer name = true := by
  rcases Nat.lt_or_eq_of_le within with before | rfl
  · have goes : ∃ following, at? (parentIn answer) (j + 1) base = some following :=
      first.item before
    obtain ⟨following, link⟩ := goes
    rw [at?_add, at', Option.bind_some] at link
    obtain ⟨parent, linked, _⟩ := Option.bind_eq_some_iff.mp link
    obtain ⟨entry, known, _⟩ := Option.map_eq_some_iff.mp linked
    exact Option.isSome_of_eq_some known
  · obtain rfl := Option.some.inj (at'.symm.trans first.found)
    obtain ⟨entry, known, _⟩ := isActor_iff.mp first.hits
    exact Option.isSome_of_eq_some known

section

variable {m : TypeMap}

/-- In a map whose types are called as their keys, the actor is the key Actor. -/
theorem actorAt_iff_key (named : m.Named) {base : String} {k : Nat} :
    ActorAt m.find? base k ↔
      at? (parentIn m.find?) k base = some "Actor" ∧ isKnown m.find? "Actor" = true := by
  simp only [actorAt_iff, isActor_iff]
  constructor
  · rintro ⟨name, at', entry, known, actor⟩
    obtain rfl : name = "Actor" := (named _ (TypeMap.mem_of_find? known)).symm.trans actor
    exact ⟨at', Option.isSome_of_eq_some known⟩
  · rintro ⟨at', known⟩
    obtain ⟨entry, known⟩ := Option.isSome_iff_exists.mp known
    exact ⟨"Actor", at', entry, known, named _ (TypeMap.mem_of_find? known)⟩

/-- The first actor stands within as many steps as the map has entries. -/
theorem actorAt_within {base : String} {k : Nat} (actor : ActorAt m.find? base k) :
    ∃ j < m.size, ActorAt m.find? base j := by
  obtain ⟨name, found, hits⟩ := actorAt_iff.mp actor
  obtain ⟨j, _, x, first⟩ := exists_first found hits
  refine ⟨j, ?_, actorAt_iff.mpr ⟨x, first.found, first.hits⟩⟩
  have inside : j < (m.entries.map Prod.fst).length := by
    apply first.lt_length
    intro i within y at'
    obtain ⟨entry, known⟩ := Option.isSome_iff_exists.mp (known_to_actor first within at')
    exact List.mem_map_of_mem (TypeMap.mem_of_find? known)
  simpa [TypeMap.size] using inside

/-- On a small map and a short chain of classes the limits cut nothing off. -/
theorem reaches_iff_unlimited (named : m.Named) {h : Hierarchy} {key : String} {steps : Nat}
    {classes : List String} (small : m.size ≤ steps) (short : classes.length ≤ steps)
    (inside : ∀ i c, at? h.super? i key = some c → c ∈ classes) :
    Reaches m.find? h key steps ↔
      ∃ i base, Nearest m.find? h key i base ∧ ∃ k,
        at? (parentIn m.find?) k (h.nameOf base) = some "Actor" ∧
          isKnown m.find? "Actor" = true := by
  constructor
  · rintro ⟨i, _, base, nearest, k, _, actor⟩
    exact ⟨i, base, nearest, k, (actorAt_iff_key named).mp actor⟩
  · rintro ⟨i, base, nearest, k, actor⟩
    have near := nearest.lt_length fun j _ => inside j
    obtain ⟨j, within, found⟩ := actorAt_within ((actorAt_iff_key named).mpr actor)
    exact ⟨i, by omega, base, nearest, j, by omega, found⟩

end

/-- The letter of a class tells bounded reachability, and that the walks turn back at a second
visit changes no letter. Under a table that answers, the letter is `A` when the first class of
a known name among 256 of the chain leads to a type called Actor within 256 names, and `U` in
every other case, also without a table or a class. For a map read from a file or put together
type by type, with at most 256 entries, and a chain of at most 256 classes there is no limit:
the letter is `A` when the chain of the map from the nearest mapped class comes to the key
Actor. Classes of one name are apart. -/
theorem letters_tell_bounded_reach (h : Hierarchy) (key : String) :
    (∀ (t : SymbolTable) (answer : Answer), (∀ n, t.lookup n = .ok (answer n)) →
      (letter (some t) h (some key) = .ok 'A' ↔ Reaches answer h key 256) ∧
      (letter (some t) h (some key) = .ok 'U' ↔ ¬ Reaches answer h key 256)) ∧
    letter none h (some key) = .ok 'U' ∧ (∀ table, letter table h none = .ok 'U') ∧
    ∀ (m : TypeMap) (classes : List String), m.Built → m.size ≤ 256 → classes.length ≤ 256 →
      (∀ i c, at? h.super? i key = some c → c ∈ classes) →
      (letter (some m.toTable) h (some key) = .ok 'A' ↔
        ∃ i base, Nearest m.find? h key i base ∧ ∃ k,
          at? (parentIn m.find?) k (h.nameOf base) = some "Actor" ∧
            isKnown m.find? "Actor" = true) := by
  have bounded (t : SymbolTable) (answer : Answer) (answers : ∀ n, t.lookup n = .ok (answer n)) :
      (letter (some t) h (some key) = .ok 'A' ↔ Reaches answer h key 256) ∧
      (letter (some t) h (some key) = .ok 'U' ↔ ¬ Reaches answer h key 256) := by
    rw [letter_eq_search answers, ← search_reaches_iff, maxDepth]
    split
    · next found => simp [found]
    · next missed => simp [missed]
  refine ⟨bounded, rfl, fun table => ?_, fun m classes built small short inside => ?_⟩
  · cases table with
    | none => rfl
    | some t => rfl
  · rw [(bounded m.toTable m.find? fun _ => rfl).1]
    exact reaches_iff_unlimited built.named small short inside

/-- Two classes that are each other's parent. -/
def ring : Hierarchy where
  links := [("Gate", some "Door"), ("Door", some "Gate")]

/-- A class whose parent is another one of its name. -/
def renamed : Hierarchy where
  links := [("Gate", some "old Gate"), ("old Gate", some "Pawn")]
  names := [("old Gate", "Gate")]

def circling (above : String) : TypeMap :=
  TypeMap.empty.add "Door" "Pawn" |>.add "Pawn" above |>.add above "Pawn"

theorem ring_closed (i : Nat) (start c : String) (member : start ∈ ["Gate", "Door"])
    (found : at? ring.super? i start = some c) : c ∈ ["Gate", "Door"] := by
  induction i generalizing start with
  | zero =>
    obtain rfl := Option.some.inj found
    exact member
  | succ i ih =>
    obtain ⟨parent, link, rest⟩ := Option.bind_eq_some_iff.mp found
    refine ih parent ?_ rest
    simp only [List.mem_cons, List.not_mem_nil, or_false] at member
    rcases member with rfl | rfl
    · obtain rfl := Option.some.inj link
      decide
    · obtain rfl := Option.some.inj link
      decide

/-- Circles in the classes and in the table do not hide an actor, and bring none about; nor does
a parent of the same name hide one. -/
theorem letters_tell_bounded_reach_circling :
    letter (some (circling "Actor").toTable) ring (some "Gate") = .ok 'A' ∧
    (¬ ∃ i base, Nearest (circling "Thing").find? ring "Gate" i base ∧ ∃ k,
      at? (parentIn (circling "Thing").find?) k (ring.nameOf base) = some "Actor" ∧
        isKnown (circling "Thing").find? "Actor" = true) ∧
    Reaches (circling "Actor").find? renamed "Gate" 256 := by
  have built (above : String) : (circling above).Built :=
    .added _ _ (.added _ _ (.added _ _ .empty))
  obtain ⟨_, _, _, unlimited⟩ := letters_tell_bounded_reach ring "Gate"
  have chain (i : Nat) (c : String) := ring_closed i "Gate" c (by decide)
  refine ⟨?_, ?_, ?_⟩
  · refine (unlimited (circling "Actor") ["Gate", "Door"] (built _) (by decide) (by decide)
      chain).mpr ⟨1, "Door", ⟨rfl, rfl, ?_⟩, 2, rfl, rfl⟩
    intro j before y at'
    obtain rfl : j = 0 := by omega
    obtain rfl := Option.some.inj at'
    rfl
  · rw [← unlimited (circling "Thing") ["Gate", "Door"] (built _) (by decide) (by decide) chain]
    decide +kernel
  · obtain ⟨bounded, _⟩ := letters_tell_bounded_reach renamed "Gate"
    refine (bounded (circling "Actor").toTable (circling "Actor").find? fun _ => rfl).1.mp ?_
    decide +kernel

end ScriptListing.TypeName
