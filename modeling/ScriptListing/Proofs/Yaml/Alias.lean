import ScriptListing.Proofs.Yaml.Reading

/-! Trees with their aliases followed. Reading a tree finds what reading it finds with every
alias replaced by what it refers to, as long as it is not taken for little but aliases. -/
namespace ScriptListing.Yaml

namespace Node

mutual

def resolved : Node → Node
  | scalar tag value line => scalar tag value line
  | sequence tag items line => sequence tag (resolvedItems items) line
  | mapping tag entries line => mapping tag (resolvedEntries entries) line
  | aliased _ _ target _ => target.resolved
  | cycle anchor number line => cycle anchor number line

def resolvedItems : List Node → List Node
  | [] => []
  | n :: rest => n.resolved :: resolvedItems rest

def resolvedEntries : List (Node × Node) → List (Node × Node)
  | [] => []
  | (key, value) :: rest => (key.resolved, value.resolved) :: resolvedEntries rest

end

mutual

/-- How deep the tree goes; following an alias goes no deeper. -/
def depth : Node → Nat
  | scalar _ _ _ => 0
  | sequence _ items _ => depthItems items + 1
  | mapping _ entries _ => depthEntries entries + 1
  | aliased _ _ target _ => target.depth
  | cycle _ _ _ => 0

def depthItems : List Node → Nat
  | [] => 0
  | n :: rest => max n.depth (depthItems rest)

def depthEntries : List (Node × Node) → Nat
  | [] => 0
  | (key, value) :: rest => max (max key.depth value.depth) (depthEntries rest)

end

mutual

/-- All nodes of the tree, those behind its aliases too. -/
def all : Node → List Node
  | scalar tag value line => [scalar tag value line]
  | sequence tag items line => sequence tag items line :: allItems items
  | mapping tag entries line => mapping tag entries line :: allEntries entries
  | aliased anchor number target line => aliased anchor number target line :: target.all
  | cycle anchor number line => [cycle anchor number line]

def allItems : List Node → List Node
  | [] => []
  | n :: rest => n.all ++ allItems rest

def allEntries : List (Node × Node) → List Node
  | [] => []
  | (key, value) :: rest => key.all ++ value.all ++ allEntries rest

end

def number? : Node → Option Nat
  | aliased _ number _ _ => some number
  | cycle _ number _ => some number
  | _ => none

def numbers (n : Node) : List Nat := n.all.filterMap number?

/-- An alias refers to a node that is none and does not hold it. -/
def isProper : Node → Bool
  | aliased _ number target _ => target.kind ≠ .aliased && !target.numbers.contains number
  | cycle _ _ _ => false
  | _ => true

def Acyclic (n : Node) : Prop := ∀ m ∈ n.all, m.isProper = true

instance (n : Node) : Decidable n.Acyclic :=
  inferInstanceAs (Decidable (∀ m ∈ n.all, m.isProper = true))

/-- No key is an alias, and what is to be merged is no alias of a list. -/
def hasPlainKeys : Node → Bool
  | mapping _ entries _ => entries.all fun (key, value) => key.kind ≠ .aliased &&
    !(key.isMerge && value.kind = .aliased && value.resolved.kind = .sequence)
  | _ => true

def PlainKeys (n : Node) : Prop := ∀ m ∈ n.all, m.hasPlainKeys = true

instance (n : Node) : Decidable n.PlainKeys :=
  inferInstanceAs (Decidable (∀ m ∈ n.all, m.hasPlainKeys = true))

theorem resolvedItems_eq (items : List Node) : resolvedItems items = items.map resolved := by
  induction items with
  | nil => rfl
  | cons n rest ih => rw [resolvedItems, ih, List.map_cons]

theorem resolvedEntries_eq (entries : List (Node × Node)) :
    resolvedEntries entries = entries.map fun e => (e.1.resolved, e.2.resolved) := by
  induction entries with
  | nil => rfl
  | cons e rest ih => rw [resolvedEntries, ih, List.map_cons]

section

variable {n m key value : Node} {tag : String} {items : List Node} {entries : List (Node × Node)}
  {line : Nat}

theorem mem_all_self (n : Node) : n ∈ n.all := by
  cases n <;> simp [all]

theorem all_item (member : n ∈ items) : n.all ⊆ (sequence tag items line).all := by
  have inside : n.all ⊆ allItems items := by
    induction items with
    | nil => cases member
    | cons first rest ih =>
      rw [allItems]
      rcases List.mem_cons.mp member with rfl | later
      · exact List.subset_append_left _ _
      · exact List.Subset.trans (ih later) (List.subset_append_right _ _)
  exact List.Subset.trans inside (List.subset_cons_self _ _)

theorem all_entry (member : (key, value) ∈ entries) :
    key.all ⊆ (mapping tag entries line).all ∧ value.all ⊆ (mapping tag entries line).all := by
  have inside : key.all ⊆ allEntries entries ∧ value.all ⊆ allEntries entries := by
    induction entries with
    | nil => cases member
    | cons first rest ih =>
      rw [allEntries]
      rcases List.mem_cons.mp member with rfl | later
      · exact ⟨List.Subset.trans (List.subset_append_left _ _) (List.subset_append_left _ _),
          List.Subset.trans (List.subset_append_right _ _) (List.subset_append_left _ _)⟩
      · obtain ⟨keys, values⟩ := ih later
        exact ⟨List.Subset.trans keys (List.subset_append_right _ _),
          List.Subset.trans values (List.subset_append_right _ _)⟩
  exact ⟨List.Subset.trans inside.1 (List.subset_cons_self _ _),
    List.Subset.trans inside.2 (List.subset_cons_self _ _)⟩

theorem depth_item (member : n ∈ items) : n.depth < (sequence tag items line).depth := by
  have bound : n.depth ≤ depthItems items := by
    induction items with
    | nil => cases member
    | cons first rest ih =>
      rw [depthItems]
      rcases List.mem_cons.mp member with rfl | later
      · omega
      · have := ih later
        omega
  rw [depth]
  omega

theorem depth_entry (member : (key, value) ∈ entries) :
    value.depth < (mapping tag entries line).depth := by
  have bound : value.depth ≤ depthEntries entries := by
    induction entries with
    | nil => cases member
    | cons first rest ih =>
      obtain ⟨key', value'⟩ := first
      rw [depthEntries]
      rcases List.mem_cons.mp member with same | later
      · cases same
        omega
      · have := ih later
        omega
  rw [depth]
  omega

end

mutual

theorem depth_part : ∀ n m : Node, m ∈ n.all → m.depth ≤ n.depth
  | scalar _ _ _, m, part | cycle _ _ _, m, part =>
    Nat.le_of_eq (congrArg depth (List.mem_singleton.mp part))
  | sequence tag items line, m, part => by
    rcases List.mem_cons.mp part with rfl | inside
    · exact Nat.le_refl _
    · have := depth_partItems items m inside
      rw [depth]
      omega
  | mapping tag entries line, m, part => by
    rcases List.mem_cons.mp part with rfl | inside
    · exact Nat.le_refl _
    · have := depth_partEntries entries m inside
      rw [depth]
      omega
  | aliased anchor number target line, m, part => by
    rcases List.mem_cons.mp part with rfl | inside
    · exact Nat.le_refl _
    · rw [depth]
      exact depth_part target m inside

theorem depth_partItems : ∀ (items : List Node) (m : Node), m ∈ allItems items →
    m.depth ≤ depthItems items
  | [], m, part => nomatch part
  | n :: rest, m, part => by
    rw [depthItems]
    rcases List.mem_append.mp part with first | later
    · have := depth_part n m first
      omega
    · have := depth_partItems rest m later
      omega

theorem depth_partEntries : ∀ (entries : List (Node × Node)) (m : Node), m ∈ allEntries entries →
    m.depth ≤ depthEntries entries
  | [], m, part => nomatch part
  | (key, value) :: rest, m, part => by
    rw [depthEntries]
    rcases List.mem_append.mp part with first | later
    · rcases List.mem_append.mp first with first | second
      · have := depth_part key m first
        omega
      · have := depth_part value m second
        omega
    · have := depth_partEntries rest m later
      omega

end

mutual

theorem depth_resolved : ∀ n : Node, n.resolved.depth = n.depth
  | scalar _ _ _ | cycle _ _ _ => rfl
  | sequence tag items line => by rw [resolved, depth, depth, depth_resolvedItems items]
  | mapping tag entries line => by rw [resolved, depth, depth, depth_resolvedEntries entries]
  | aliased anchor number target line => by rw [resolved, depth, depth_resolved target]

theorem depth_resolvedItems : ∀ items : List Node,
    depthItems (resolvedItems items) = depthItems items
  | [] => rfl
  | n :: rest => by
    rw [resolvedItems, depthItems, depthItems, depth_resolved n, depth_resolvedItems rest]

theorem depth_resolvedEntries : ∀ entries : List (Node × Node),
    depthEntries (resolvedEntries entries) = depthEntries entries
  | [] => rfl
  | (key, value) :: rest => by
    rw [resolvedEntries, depthEntries, depthEntries, depth_resolved key, depth_resolved value,
      depth_resolvedEntries rest]

end

mutual

theorem depth_le_size : ∀ n : Node, n.depth ≤ n.size
  | scalar _ _ _ | cycle _ _ _ => Nat.zero_le _
  | sequence tag items line => by
    have := depthItems_le_size items
    rw [depth, size]
    omega
  | mapping tag entries line => by
    have := depthEntries_le_size entries
    rw [depth, size]
    omega
  | aliased anchor number target line => by
    have := depth_le_size target
    rw [depth, size]
    omega

theorem depthItems_le_size : ∀ items : List Node, depthItems items ≤ sizeItems items
  | [] => Nat.le_refl _
  | n :: rest => by
    have := depth_le_size n
    have := depthItems_le_size rest
    rw [depthItems, sizeItems]
    omega

theorem depthEntries_le_size : ∀ entries : List (Node × Node),
    depthEntries entries ≤ sizeEntries entries
  | [] => Nat.le_refl _
  | (key, value) :: rest => by
    have := depth_le_size key
    have := depth_le_size value
    have := depthEntries_le_size rest
    rw [depthEntries, sizeEntries]
    omega

end

section

variable {n : Node} (direct : n.kind ≠ .aliased)
include direct

/-- Following aliases leaves a node that is none as it looks from outside. -/
theorem resolved_direct : n.resolved.kind = n.kind ∧ n.resolved.tag = n.tag ∧
    n.resolved.value = n.value ∧ n.resolved.line = n.line ∧ n.resolved.isMerge = n.isMerge := by
  cases n with
  | scalar | sequence | mapping => exact ⟨rfl, rfl, rfl, rfl, rfl⟩
  | aliased | cycle => exact absurd rfl direct

theorem target_direct (d : Document) : d.target n = n := by
  cases n with
  | scalar | sequence | mapping => rfl
  | aliased | cycle => exact absurd rfl direct

end

/-- A tree whose aliases can be followed, as far as reading it goes: none of them is on `path`. -/
structure Tidy (path : List Nat) (n : Node) : Prop where
  acyclic : n.Acyclic
  plain : n.PlainKeys
  apart : ∀ k ∈ path, k ∉ n.numbers

namespace Tidy

variable {path : List Nat} {n m : Node}

theorem part (tidy : Tidy path n) (inside : m.all ⊆ n.all) : Tidy path m where
  acyclic k member := tidy.acyclic k (inside member)
  plain k member := tidy.plain k (inside member)
  apart k on member := tidy.apart k on (List.filterMap_subset number? inside member)

theorem start (tidy : Tidy path n) : Tidy [] n := ⟨tidy.acyclic, tidy.plain, by simp⟩

/-- What an alias refers to is no alias, and it is tidy with the alias on the path. -/
theorem target {anchor : String} {number : Nat} {line : Nat}
    (tidy : Tidy path (.aliased anchor number m line)) :
    m.kind ≠ .aliased ∧ number ∉ path ∧ Tidy (number :: path) m := by
  have proper := tidy.acyclic _ (mem_all_self _)
  simp only [isProper, ne_eq, Bool.and_eq_true, decide_eq_true_eq, Bool.not_eq_true',
    List.contains_eq_mem, decide_eq_false_iff_not] at proper
  have inside : m.all ⊆ (aliased anchor number m line).all := List.subset_cons_self _ _
  have below := tidy.part inside
  refine ⟨proper.1, fun on => ?_, below.acyclic, below.plain, ?_⟩
  · exact tidy.apart number on (by simp [numbers, all, number?])
  · simp only [List.mem_cons]
    rintro k (rfl | on)
    · exact proper.2
    · exact below.apart k on

theorem not_cycle {anchor : String} {number line : Nat} :
    ¬ Tidy path (.cycle anchor number line) := by
  intro tidy
  have proper := tidy.acyclic _ (mem_all_self _)
  cases proper

theorem entry {tag : String} {entries : List (Node × Node)} {line : Nat} {key value : Node}
    (tidy : Tidy path (.mapping tag entries line)) (member : (key, value) ∈ entries) :
    key.kind ≠ .aliased ∧ (key.isMerge = true → value.kind = .aliased →
      value.resolved.kind ≠ .sequence) ∧ Tidy path key ∧ Tidy path value := by
  have keys := tidy.plain _ (mem_all_self _)
  rw [hasPlainKeys, List.all_eq_true] at keys
  have own := keys (key, value) member
  obtain ⟨first, second⟩ : key.all ⊆ (mapping tag entries line).all ∧
      value.all ⊆ (mapping tag entries line).all := all_entry member
  simp only [ne_eq, Bool.and_eq_true, decide_eq_true_eq, Bool.not_eq_true', Bool.and_eq_false_iff,
    decide_eq_false_iff_not] at own
  refine ⟨own.1, fun merge isAlias => ?_, tidy.part first, tidy.part second⟩
  rcases own.2 with (other | other) | other
  · rw [merge] at other
    cases other
  · exact absurd isAlias other
  · exact other

theorem item {tag : String} {items : List Node} {line : Nat}
    (tidy : Tidy path (.sequence tag items line)) (member : m ∈ items) : Tidy path m :=
  tidy.part (all_item member)

end Tidy

end Node

open Node (Tidy)

def overrun : String := "document contains excessive aliasing"

variable {α β γ δ : Type} {d d' : Document}

/-- How reading a tree can end beside reading it with its aliases followed. -/
inductive Mirror (R : α → β → Prop) (path : List Nat) :
    Except String (α × Tally) → Except String (β × Tally) → Prop where
  | overrun (other : Except String (β × Tally)) : Mirror R path (.error overrun) other
  | error (problem : String) : Mirror R path (.error problem) (.error problem)
  | ok {a : α} {b : β} {t t' : Tally} (related : R a b) (same : t.path = path)
      (direct : t'.Direct) : Mirror R path (.ok (a, t)) (.ok (b, t'))

def Mirrors (d d' : Document) (R : α → β → Prop) (path : List Nat) (part : Reads α)
    (part' : Reads β) : Prop :=
  ∀ t t' : Tally, t.path = path → t'.Direct →
    Mirror R path ((part.run d).run t) ((part'.run d').run t')

theorem visit_run (d : Document) (t : Tally) : (Reads.visit.run d).run t =
    if t.visit.isExcessive then .error overrun else .ok ((), t.visit) := by
  unfold Reads.visit
  simp only [ReaderT.run_bind, StateT.run_bind]
  change Except.bind (.ok (t, t)) _ = _
  simp only [Except.bind]
  cases t.visit.isExcessive <;> rfl

/-- An alias is counted, and so is its node, with the alias on the path until it is read. -/
theorem follow_run (d : Document) (anchor : String) {number : Nat} (read : Reads α) {t : Tally}
    (fresh : number ∉ t.path) : ((Reads.follow anchor number read).run d).run t =
      if t.visit.isExcessive then .error overrun
      else
        let inner : Tally := { t.visit with path := number :: t.path }
        if inner.visit.isExcessive then .error overrun
        else (read.run d).run inner.visit >>= fun (a, after) =>
          .ok (a, { after with path := t.path }) := by
  have unseen : t.visit.path.contains number = false := by simpa [Tally.visit] using fresh
  unfold Reads.follow
  rw [ReaderT.run_bind, StateT.run_bind, visit_run]
  by_cases excessive : t.visit.isExcessive
  · rw [if_pos excessive, if_pos excessive]
    rfl
  · rw [if_neg excessive, if_neg excessive]
    change ((if t.visit.path.contains number then _ else _ : Reads α).run d).run t.visit = _
    rw [if_neg (by simpa using unseen)]
    change ((Reads.visit >>= fun _ => _ : Reads α).run d).run
      { t.visit with path := number :: t.path } = _
    rw [ReaderT.run_bind, StateT.run_bind, visit_run]
    dsimp only
    by_cases excessive' : ({ t.visit with path := number :: t.path } : Tally).visit.isExcessive
    · rw [if_pos excessive', if_pos excessive']
      rfl
    · rw [if_neg excessive', if_neg excessive']
      rfl

namespace Mirrors

variable {R : α → β → Prop} {S : γ → δ → Prop} {path : List Nat}

theorem pure {a : α} {b : β} (related : R a b) :
    Mirrors d d' R path (pure a) (pure b) := fun _ _ same direct => .ok related same direct

theorem bind {part : Reads α} {part' : Reads β} {next : α → Reads γ} {next' : β → Reads δ}
    (first : Mirrors d d' R path part part')
    (second : ∀ a b, R a b → Mirrors d d' S path (next a) (next' b)) :
    Mirrors d d' S path (part >>= next) (part' >>= next') := by
  intro t t' same direct
  have step := first t t' same direct
  rw [ReaderT.run_bind, StateT.run_bind, ReaderT.run_bind, StateT.run_bind]
  generalize (part.run d).run t = left at step ⊢
  generalize (part'.run d').run t' = right at step ⊢
  cases step with
  | overrun => exact .overrun _
  | error problem => exact .error problem
  | ok related same direct => exact second _ _ related _ _ same direct

theorem ite {c c' : Prop} [Decidable c] [Decidable c'] {yes no : Reads α} {yes' no' : Reads β}
    (same : c' ↔ c) (first : Mirrors d d' R path yes yes') (second : Mirrors d d' R path no no') :
    Mirrors d d' R path (if c then yes else no) (if c' then yes' else no') := by
  by_cases holds : c
  · rwa [if_pos holds, if_pos (same.mpr holds)]
  · rwa [if_neg holds, if_neg (mt same.mp holds)]

theorem lift (step : Except String α) : Mirrors d d' Eq path (liftM step) (liftM step) := by
  intro t t' same direct
  cases step with
  | error problem => exact .error problem
  | ok a => exact .ok rfl same direct

/-- A step outside the reading, and the same step with its result followed. -/
theorem lift_map (step : Except String α) (g : α → β) :
    Mirrors d d' (fun a b => step = .ok a ∧ b = g a) path (liftM step) (liftM (step.map g)) := by
  intro t t' same direct
  cases step with
  | error problem => exact .error problem
  | ok a => exact .ok ⟨rfl, rfl⟩ same direct

theorem context : Mirrors d d' (fun a b => d = a ∧ d' = b) path ReaderT.read ReaderT.read :=
  fun _ _ same direct => .ok ⟨rfl, rfl⟩ same direct

theorem visit : Mirrors d d' Eq path Reads.visit Reads.visit := by
  intro t t' same direct
  rw [visit_run, visit_run, direct.visit.not_excessive]
  split
  · exact .overrun _
  · exact .ok rfl same direct.visit

/-- Following an alias beside reading its node at once. -/
theorem follow {anchor : String} {number : Nat} {read : Reads α} {read' : Reads β}
    (fresh : number ∉ path) (below : Mirrors d d' R (number :: path) read read') :
    Mirrors d d' R path (Reads.follow anchor number read) (Reads.visit >>= fun _ => read') := by
  intro t t' same direct
  rw [follow_run d anchor read (same ▸ fresh), ReaderT.run_bind, StateT.run_bind, visit_run,
    direct.visit.not_excessive]
  dsimp only
  split
  · exact .overrun _
  split
  · exact .overrun _
  have step := below ({ t.visit with path := number :: t.path } : Tally).visit t'.visit
    (by rw [← same]; rfl) direct.visit
  change Mirror R path _ ((read'.run d').run t'.visit)
  generalize (read.run d).run _ = left at step ⊢
  generalize (read'.run d').run _ = right at step ⊢
  cases step with
  | overrun => exact .overrun _
  | error problem => exact .error problem
  | ok related _ direct' => exact .ok related same direct'

/-- The node that another stands for, which is no alias. -/
theorem through {n : Node} {read : Node → Reads α} {read' : Node → Reads β} (tidy : Tidy path n)
    (each : ∀ m path, m.kind ≠ .aliased → m.depth = n.depth → Tidy path m →
      Mirrors d d' R path (read m) (read' m.resolved)) :
    Mirrors d d' R path (Reads.through n read) (Reads.through n.resolved read') := by
  have here (direct : n.kind ≠ .aliased) := each n path direct rfl tidy
  cases n with
  | scalar | sequence | mapping => exact visit.bind fun _ _ _ => here nofun
  | cycle => exact absurd tidy Tidy.not_cycle
  | aliased anchor number target line =>
    obtain ⟨direct, fresh, below⟩ := tidy.target
    have entered : Mirrors d d' R path (Reads.follow anchor number (read target))
        (Reads.visit >>= fun _ => read' target.resolved) :=
      follow fresh (each target _ direct rfl below)
    cases target with
    | scalar | sequence | mapping => exact entered
    | aliased | cycle => exact absurd rfl direct

theorem mapM {f : γ → Reads α} {f' : δ → Reads α} {g : γ → δ} {items : List γ}
    (each : ∀ n ∈ items, Mirrors d d' Eq path (f n) (f' (g n))) :
    Mirrors d d' Eq path (items.mapM f) ((items.map g).mapM f') := by
  induction items with
  | nil => exact pure rfl
  | cons n rest ih =>
    rw [List.map_cons, List.mapM_cons, List.mapM_cons]
    refine (each n (by simp)).bind fun a b same => ?_
    refine (ih fun m member => each m (by simp [member])).bind fun as bs sames => ?_
    exact pure (by rw [same, sames])

theorem foldlM {f : α → γ → Reads α} {f' : β → δ → Reads β} {g : γ → δ} {items : List γ}
    (each : ∀ n ∈ items, ∀ a b, R a b → Mirrors d d' R path (f a n) (f' b (g n))) {a : α} {b : β}
    (start : R a b) :
    Mirrors d d' R path (items.foldlM f a) ((items.map g).foldlM f' b) := by
  induction items generalizing a b with
  | nil => exact pure start
  | cons n rest ih =>
    rw [List.map_cons, List.foldlM_cons, List.foldlM_cons]
    refine (each n (by simp) a b start).bind fun a' b' related => ?_
    exact ih (fun m member => each m (by simp [member])) related

end Mirrors

section

variable {path : List Nat} {n : Node}

theorem repeatedKeys_resolved {entries : List (Node × Node)}
    (direct : ∀ e ∈ entries, e.1.kind ≠ .aliased) :
    repeatedKeys (entries.map fun e => (e.1.resolved, e.2.resolved)) = repeatedKeys entries := by
  induction entries with
  | nil => rfl
  | cons e rest ih =>
    obtain ⟨kind, _, value, line, _⟩ := Node.resolved_direct (direct e (by simp))
    have others := ih fun e' member => direct e' (by simp [member])
    have later : (rest.map fun e => (e.1.resolved, e.2.resolved)).filterMap (fun l =>
          if l.1.kind = e.1.kind ∧ l.1.value = e.1.value then
            some (Mismatch.repeatedKey l.1.line l.1.value e.1.line) else none) =
        rest.filterMap fun l => if l.1.kind = e.1.kind ∧ l.1.value = e.1.value then
            some (Mismatch.repeatedKey l.1.line l.1.value e.1.line) else none := by
      rw [List.filterMap_map]
      refine List.filterMap_congr fun l member => ?_
      obtain ⟨kind', _, value', line', _⟩ := Node.resolved_direct (direct l (by simp [member]))
      simp only [Function.comp_apply, kind', value', line']
    simp only [List.map_cons, repeatedKeys, kind, value, line, others]
    exact congrArg (· ++ repeatedKeys rest) later

theorem unfit_mirrors (direct : n.kind ≠ .aliased) (tidy : Tidy path n) (type : String) :
    Mirrors d d' Eq path (n.unfit type : Reads (Reading α)) (n.resolved.unfit type) := by
  cases n with
  | scalar tag source line =>
    refine (Mirrors.lift _).bind fun a b same => ?_
    subst same
    cases a <;> exact .pure rfl
  | sequence tag items line => exact .pure rfl
  | mapping tag entries line =>
    refine .pure ?_
    have keys := repeatedKeys_resolved fun e member => (tidy.entry member).1
    rw [Node.resolvedEntries_eq, keys]
    rfl
  | aliased | cycle => exact absurd rfl direct

theorem scalar_mirrors (type : ScalarType α) (tidy : Tidy path n) :
    Mirrors d d' Eq path (type.read n) (type.read n.resolved) := by
  refine Mirrors.through tidy fun m path direct _ below => ?_
  cases m with
  | scalar tag source line =>
    refine (Mirrors.lift _).bind fun a b same => ?_
    subst same
    cases a with
    | null => exact .pure rfl
    | _ =>
      dsimp only [Node.resolved]
      cases type.accept _ source <;> exact .pure rfl
  | sequence | mapping => exact unfit_mirrors direct below type.name
  | aliased | cycle => exact absurd rfl direct

theorem list_mirrors {item : Reader α} (name : String) (tidy : Tidy path n)
    (each : ∀ m path, Tidy path m → Mirrors d d' Eq path (item m) (item m.resolved)) :
    Mirrors d d' Eq path (readList name item n) (readList name item n.resolved) := by
  refine Mirrors.through tidy fun m path direct _ below => ?_
  cases m with
  | sequence tag items line =>
    simp only [Node.resolved, Node.resolvedItems_eq]
    refine (Mirrors.mapM fun m member => each m path (below.item member)).bind fun a b same => ?_
    exact .pure (by rw [same])
  | scalar | mapping => exact unfit_mirrors direct below name
  | aliased | cycle => exact absurd rfl direct

end

def Filling.resolved (s : Filling α) : Filling α := { s with merge := s.merge.map Node.resolved }

/-- A record on the way that is to merge only what `P` holds of, and the same with aliases
followed. -/
structure Filling.Mirrored (P : Node → Prop) (s s' : Filling α) : Prop where
  same : s' = s.resolved
  merges : ∀ n ∈ s.merge, P n

def RecordType.Transparent (d d' : Document) (type : RecordType α) : Prop :=
  ∀ name field, type.fields.lookup name = some field → ∀ path n record, Tidy path n →
    Mirrors d d' Eq path (field n record) (field n.resolved record)

theorem into_mirrors {read : Reader β} {put : β → α → α} {path : List Nat} {n : Node}
    (below : Mirrors d d' Eq path (read n) (read n.resolved)) (record : α) :
    Mirrors d d' Eq path (read.into put n record) (read.into put n.resolved record) := by
  refine below.bind fun a b same => ?_
  exact .pure (by rw [same])

namespace RecordType

variable {type : RecordType α} {path : List Nat} {P : Node → Prop} {s : Filling α}

theorem put_mirrors (transparent : type.Transparent d d') {value : Node} (tidy : Tidy path value)
    (merges : ∀ n ∈ s.merge, P n) (line : Nat) (name : String) :
    Mirrors d d' (Filling.Mirrored P) path (type.put s line name value)
      (type.put s.resolved line name value.resolved) := by
  unfold RecordType.put
  cases known : type.fields.lookup name with
  | none => exact .ite .rfl (.pure ⟨rfl, merges⟩) (.pure ⟨rfl, merges⟩)
  | some field =>
    refine .ite .rfl (.pure ⟨rfl, merges⟩) ?_
    refine (transparent name field known path value s.record tidy).bind fun a b same => ?_
    subst same
    exact .pure ⟨rfl, merges⟩

theorem entry_mirrors (transparent : type.Transparent d d') {key value : Node}
    (direct : key.kind ≠ .aliased) (tidyKey : Tidy path key) (tidy : Tidy path value)
    (merges : ∀ n ∈ s.merge, P n) (own : key.isMerge = true → P value) :
    Mirrors d d' (Filling.Mirrored P) path (type.entry s (key, value))
      (type.entry s.resolved (key.resolved, value.resolved)) := by
  obtain ⟨_, _, _, line, merge⟩ := Node.resolved_direct direct
  unfold RecordType.entry
  simp only [merge, line]
  split
  · next isMerge => exact .pure ⟨rfl, by simpa using own isMerge⟩
  · refine (scalar_mirrors ScalarType.text tidyKey).bind fun a b same => ?_
    subst same
    cases a.value with
    | none => exact .pure ⟨rfl, merges⟩
    | some name =>
      refine .ite .rfl (.pure ⟨rfl, merges⟩) ?_
      exact put_mirrors (s := { s with
        mismatches := s.mismatches ++ a.mismatches, taken := s.taken.map (name :: ·) })
        transparent tidy merges key.line name

variable {tag : String} {entries : List (Node × Node)} {line : Nat}
  (tidy : Tidy path (.mapping tag entries line))
include tidy

theorem takenNames_mirrors : Mirrors d d' Eq path (takenNames entries)
    (takenNames (entries.map fun e => (e.1.resolved, e.2.resolved))) := by
  unfold takenNames
  refine (Mirrors.mapM fun e member => ?_).bind fun a b same => .pure (by rw [same])
  refine Mirrors.through (tidy.entry member).2.2.1 fun m path direct _ below => ?_
  cases m with
  | scalar tag source line =>
    refine (Mirrors.lift _).bind fun a b same => ?_
    subst same
    cases a <;> exact .pure rfl
  | sequence tag items line => exact fun _ _ _ _ => .error _
  | mapping tag entries line =>
    have keys := repeatedKeys_resolved fun e member => (below.entry member).1
    simp only [Node.resolved, Node.resolvedEntries_eq, takenNames.name, keys]
    split
    · exact fun _ _ _ _ => .error _
    · exact .pure rfl
  | aliased | cycle => exact absurd rfl direct

theorem taking_mirrors (merges : ∀ n ∈ s.merge, P n) :
    Mirrors d d' (Filling.Mirrored P) path (taking s entries)
      (taking s.resolved (entries.map fun e => (e.1.resolved, e.2.resolved))) := by
  unfold taking
  refine .ite .rfl (.pure ⟨rfl, merges⟩) ?_
  refine (takenNames_mirrors tidy).bind fun a b same => ?_
  subst same
  exact .pure ⟨rfl, merges⟩

end RecordType

section

variable {path : List Nat} {n : Node}

/-- What a node stands for is of the same kind with its aliases followed. -/
theorem target_kind (tidy : Tidy path n) : (d'.target n.resolved).kind = (d.target n).kind := by
  have direct {m : Node} (same : m.kind ≠ .aliased) :
      (d'.target m.resolved).kind = m.kind := by
    obtain ⟨kind, _⟩ := Node.resolved_direct same
    rw [Node.target_direct (kind ▸ same), kind]
  cases n with
  | scalar | sequence | mapping => exact direct nofun
  | cycle => exact absurd tidy Tidy.not_cycle
  | aliased anchor number target line => exact direct tidy.target.1

theorem mergeSources_resolved (tidy : Tidy path n)
    (single : n.kind = .aliased → n.resolved.kind ≠ .sequence) :
    mergeSources d' n.resolved = (mergeSources d n).map (List.map Node.resolved) := by
  have alone {m : Node} (other : ∀ tag items line, m ≠ .sequence tag items line) (d : Document) :
      mergeSources d m = if mergeSources.isSource d m then .ok [m]
        else .error mergeSources.refusal := by
    unfold mergeSources
    split
    · exact absurd rfl (other _ _ _)
    · rfl
  have single' (others : ∀ tag items line, n ≠ .sequence tag items line)
      (others' : ∀ tag items line, n.resolved ≠ .sequence tag items line) :
      mergeSources d' n.resolved = (mergeSources d n).map (List.map Node.resolved) := by
    rw [alone others d, alone others' d', mergeSources.isSource, mergeSources.isSource,
      target_kind (d := d) tidy]
    split <;> rfl
  cases n with
  | sequence tag items line =>
    have sources : (items.map Node.resolved).all (mergeSources.isSource d') =
        items.all (mergeSources.isSource d) := by
      rw [Bool.eq_iff_iff, List.all_map, List.all_eq_true, List.all_eq_true]
      refine forall₂_congr fun m member => ?_
      rw [Function.comp_apply, mergeSources.isSource, mergeSources.isSource,
        target_kind (d := d) (tidy.item member)]
    simp only [Node.resolved, Node.resolvedItems_eq, mergeSources, sources]
    split <;> rfl
  | scalar | mapping => exact single' nofun nofun
  | cycle => exact absurd tidy Tidy.not_cycle
  | aliased anchor number target line =>
    refine single' nofun fun tag items line spelled => single rfl ?_
    rw [spelled]
    rfl

end

namespace RecordType

variable {type : RecordType α}

/-- What a merge leads to is less deep than the mapping that merges it. -/
theorem source_depth {value source : Node} {sources : List Node}
    (found : mergeSources d value = .ok sources) (member : source ∈ sources) :
    source.depth ≤ value.depth ∧ source.all ⊆ value.all := by
  unfold mergeSources at found
  split at found
  · split at found
    · cases found
      exact ⟨Nat.le_of_lt (Node.depth_item member), Node.all_item member⟩
    · cases found
  · split at found
    · cases found
      rw [List.mem_singleton.mp member]
      exact ⟨Nat.le_refl _, List.Subset.refl _⟩
    · cases found

/-- A record is filled alike, however much fuel there is beyond the depth of the mapping. -/
theorem fill_mirrors (transparent : type.Transparent d d') (fuel fuel' : Nat) {path : List Nat}
    {n : Node} {s s' : Filling α} (direct : n.kind ≠ .aliased) (enough : n.depth < fuel)
    (enough' : n.depth < fuel') (tidy : Tidy path n) (same : s.Mirrored (fun _ => True) s') :
    Mirrors d d' (Filling.Mirrored fun _ => True) path (type.fill fuel s n)
      (type.fill fuel' s' n.resolved) := by
  induction fuel generalizing fuel' path n s s' with
  | zero => omega
  | succ fuel ih =>
    obtain ⟨fuel', rfl⟩ := Nat.exists_eq_succ_of_ne_zero (show fuel' ≠ 0 by omega)
    obtain ⟨rfl, merges⟩ := same
    cases n with
    | aliased | cycle => exact absurd rfl direct
    | scalar | sequence =>
      refine (unfit_mirrors direct tidy type.name).bind fun a b same => ?_
      subst same
      exact .pure ⟨rfl, merges⟩
    | mapping tag entries line =>
      have keys := repeatedKeys_resolved fun e member => (tidy.entry member).1
      simp only [Node.resolved, Node.resolvedEntries_eq, RecordType.fill, keys]
      refine .ite .rfl (.pure ⟨rfl, merges⟩) ?_
      -- What is to be merged stands in the mapping under a merge key.
      have each : Mirrors d d' (Filling.Mirrored fun n => Tidy path n ∧
            n.depth < (Node.mapping tag entries line).depth ∧
            (n.kind = .aliased → n.resolved.kind ≠ .sequence)) path
          (entries.foldlM type.entry { s with done := [], merge := none })
          ((entries.map fun e => (e.1.resolved, e.2.resolved)).foldlM type.entry
            { s with done := [], merge := none }) := by
        refine Mirrors.foldlM (fun e member s s' related => ?_) ⟨rfl, by simp⟩
        obtain ⟨rfl, merges⟩ := related
        obtain ⟨directKey, single, tidyKey, tidyValue⟩ := tidy.entry member
        exact entry_mirrors transparent directKey tidyKey tidyValue merges fun merge =>
          ⟨tidyValue, Node.depth_entry member, single merge⟩
      refine each.bind fun s₁ s₂ related => ?_
      obtain ⟨rfl, merges⟩ := related
      cases merge : s₁.merge with
      | none =>
        have merge' : s₁.resolved.merge = none := by simp [Filling.resolved, merge]
        simp only [merge']
        exact .pure ⟨rfl, by simp⟩
      | some value =>
        obtain ⟨tidyValue, shallow, single⟩ := merges value merge
        have merge' : s₁.resolved.merge = some value.resolved := by simp [Filling.resolved, merge]
        simp only [merge']
        refine (taking_mirrors (P := fun _ => True) tidy (by simp)).bind fun s₃ s₄ related => ?_
        refine Mirrors.context.bind fun _ _ both => ?_
        obtain ⟨rfl, rfl⟩ := both
        rw [mergeSources_resolved tidyValue single]
        refine (Mirrors.lift_map _ _).bind fun sources _ both => ?_
        obtain ⟨found, rfl⟩ := both
        refine Mirrors.foldlM (fun source member a b related => ?_) related
        obtain ⟨bound, inside⟩ := source_depth found member
        refine Mirrors.through (tidyValue.part inside) fun m path direct depth below => ?_
        exact ih fuel' direct (by omega) (by omega) below related

/-- A record is read alike from a mapping that the documents have room for. -/
theorem read_mirrors (transparent : type.Transparent d d') {path : List Nat} {n : Node}
    (room : n.depth ≤ d.extent) (room' : n.depth ≤ d'.extent) (tidy : Tidy path n) (start : α) :
    Mirrors d d' Eq path (type.read start n) (type.read start n.resolved) := by
  refine Mirrors.through tidy fun m path direct depth below => ?_
  cases m with
  | mapping tag entries line =>
    refine Mirrors.context.bind fun _ _ both => ?_
    obtain ⟨rfl, rfl⟩ := both
    have fresh : Filling.Mirrored (fun _ => True) { record := start, taken := none }
        { record := start, taken := none } := ⟨rfl, by simp⟩
    refine (fill_mirrors transparent (d.extent + 1) (d'.extent + 1) direct (by omega) (by omega)
      below fresh).bind fun s s' related => ?_
    obtain ⟨rfl, _⟩ := related
    exact .pure rfl
  | scalar | sequence => exact unfit_mirrors direct below type.name
  | aliased | cycle => exact absurd rfl direct

end RecordType

/-- A value is read alike, unless the document is taken for little but aliases. -/
theorem Mirrors.run {read : Reader α} {n n' : Node}
    (mirrors : Mirrors d d' Eq [] (read n) (read n')) (start : α) :
    read.run start d n = .error (.malformed overrun) ∨
      read.run start d n = read.run start d' n' := by
  have step := mirrors {} {} rfl ⟨rfl, rfl⟩
  unfold Reader.run Reader.runAfter
  generalize ((read n).run d).run {} = left at step ⊢
  generalize ((read n').run d').run {} = right at step ⊢
  cases step with
  | overrun => exact .inl rfl
  | error problem => exact .inr rfl
  | ok related _ _ =>
    subst related
    exact .inr rfl

end ScriptListing.Yaml
