import Mathlib.Data.List.Perm.Subperm
import Mathlib.Data.Nat.Find

/-! Chains of links, which may run in circles. A walk that looks for a hit may remember where
it has been and turn back at the second visit: an item that comes again closes a circle without
a hit, so the walk finds what plain following finds within the same number of steps. -/
namespace ScriptListing.Chain

variable {α : Type} (next : α → Option α)

/-- The item some links after another, if the chain is that long. -/
def at? : (steps : Nat) → (start : α) → Option α
  | 0, start => some start
  | steps + 1, start => (next start).bind (at? steps)

theorem at?_add (j k : Nat) (start : α) :
    at? next (j + k) start = (at? next j start).bind (at? next k) := by
  induction j generalizing start with
  | zero => simp [at?]
  | succ j ih =>
    rw [Nat.succ_add, at?, at?]
    cases next start with
    | none => rfl
    | some following => exact ih following

variable (hit : α → Bool)

structure First (start : α) (i : Nat) (x : α) : Prop where
  found : at? next i start = some x
  hits : hit x = true
  earliest : ∀ j < i, ∀ y, at? next j start = some y → hit y = false

/-- A walk along the chain to a hit, within some steps and to no item twice. -/
def search [DecidableEq α] : (steps : Nat) → (seen : List α) → α → Option α
  | 0, _, _ => none
  | steps + 1, seen, start =>
    if seen.contains start then none
    else if hit start then some start
    else (next start).bind (search steps (start :: seen))

variable {next hit} {start x : α} {i steps : Nat}

theorem at?_succ {following : α} (link : next start = some following) (steps : Nat) :
    at? next (steps + 1) start = at? next steps following := by
  rw [at?, link, Option.bind_some]

/-- Where there is a hit there is a first one, not after it. -/
theorem exists_first (found : at? next i start = some x) (hits : hit x = true) :
    ∃ j ≤ i, ∃ y, First next hit start j y := by
  have some' : ∃ j y, at? next j start = some y ∧ hit y = true := ⟨i, x, found, hits⟩
  classical
  obtain ⟨y, first, also⟩ := Nat.find_spec some'
  refine ⟨_, Nat.find_min' some' ⟨x, found, hits⟩, y, first, also, fun j before z at' => ?_⟩
  rw [Bool.eq_false_iff]
  exact fun also => Nat.find_min some' before ⟨z, at', also⟩

namespace First

/-- The first hit of the rest of a chain. -/
theorem tail {following : α} (first : First next hit start (i + 1) x)
    (link : next start = some following) : First next hit following i x where
  found := (at?_succ link i).symm.trans first.found
  hits := first.hits
  earliest j before y at' := first.earliest (j + 1) (by omega) y ((at?_succ link j).trans at')

/-- Before a first hit no item comes twice: what follows the second time followed the first
time, the hit included. -/
theorem distinct (first : First next hit start i x) {j k : Nat} (before : j < k)
    (within : k ≤ i) : at? next j start ≠ at? next k start := by
  intro same
  have earlier : at? next (j + (i - k)) start = some x := by
    rw [at?_add, same, ← at?_add, Nat.add_sub_cancel' within, first.found]
  have missed := first.earliest (j + (i - k)) (by omega) x earlier
  rw [first.hits] at missed
  cases missed

/-- All items before a first hit are there. -/
theorem item (first : First next hit start i x) {j : Nat} (within : j ≤ i) :
    ∃ y, at? next j start = some y := by
  have whole := first.found
  rw [← Nat.add_sub_cancel' within, at?_add] at whole
  obtain ⟨y, found, _⟩ := Option.bind_eq_some_iff.mp whole
  exact ⟨y, found⟩

/-- A chain inside a list has its first hit within as many steps as the list is long. -/
theorem lt_length (first : First next hit start i x) {list : List α}
    (inside : ∀ j ≤ i, ∀ y, at? next j start = some y → y ∈ list) : i < list.length := by
  let items := (List.range (i + 1)).map fun j => at? next j start
  have distinct : items.Nodup := by
    refine List.pairwise_map.mpr (List.pairwise_lt_range.imp_of_mem ?_)
    intro j k _ within before
    exact first.distinct before (Nat.lt_succ_iff.mp (List.mem_range.mp within))
  have among : items ⊆ list.map some := by
    intro item member
    obtain ⟨j, within, rfl⟩ := List.mem_map.mp member
    have within := Nat.lt_succ_iff.mp (List.mem_range.mp within)
    obtain ⟨y, found⟩ := first.item within
    rw [found]
    exact List.mem_map_of_mem (inside j within y found)
  have lengths := (distinct.subperm among).length_le
  simp only [items, List.length_map, List.length_range] at lengths
  exact lengths

end First

section

variable [DecidableEq α] {seen : List α}

theorem first_of_search (found : search next hit steps seen start = some x) :
    ∃ i < steps, First next hit start i x := by
  induction steps generalizing seen start with
  | zero => cases found
  | succ steps ih =>
    unfold search at found
    split at found
    · cases found
    · split at found
      · next hits =>
        obtain rfl := Option.some.inj found
        exact ⟨0, Nat.succ_pos steps, rfl, hits, nofun⟩
      · next misses =>
        obtain ⟨following, link, found⟩ := Option.bind_eq_some_iff.mp found
        obtain ⟨i, within, first⟩ := ih found
        refine ⟨i + 1, by omega, (at?_succ link i).trans first.found, first.hits, ?_⟩
        intro j before y at'
        cases j with
        | zero =>
          obtain rfl := Option.some.inj at'
          simpa using misses
        | succ j => exact first.earliest j (by omega) y ((at?_succ link j).symm.trans at')

/-- The walk reaches a first hit before it could meet an item again. -/
theorem search_of_first (first : First next hit start i x) (within : i < steps)
    (fresh : ∀ j ≤ i, ∀ y, at? next j start = some y → y ∉ seen) :
    search next hit steps seen start = some x := by
  induction steps generalizing seen start i with
  | zero => omega
  | succ steps ih =>
    have new : start ∉ seen := fresh 0 (Nat.zero_le i) start rfl
    unfold search
    rw [if_neg (by simpa using new)]
    cases i with
    | zero =>
      obtain rfl := Option.some.inj first.found
      rw [if_pos first.hits]
    | succ i =>
      have misses := first.earliest 0 (Nat.succ_pos i) start rfl
      obtain ⟨following, link, _⟩ := Option.bind_eq_some_iff.mp first.found
      rw [if_neg (by simp [misses]), link, Option.bind_some]
      refine ih (first.tail link) (by omega) fun j early y at' => ?_
      have later : at? next (j + 1) start = some y := (at?_succ link j).trans at'
      rw [List.mem_cons, not_or]
      constructor
      · rintro rfl
        exact first.distinct (Nat.succ_pos j) (by omega) later.symm
      · exact fresh (j + 1) (by omega) y later

/-- Remembering the way changes no answer. -/
theorem search_eq_some_iff :
    search next hit steps [] start = some x ↔ ∃ i < steps, First next hit start i x := by
  constructor
  · exact first_of_search
  · rintro ⟨i, within, first⟩
    exact search_of_first first within fun _ _ _ _ => List.not_mem_nil

end

end ScriptListing.Chain
