import Mathlib.Data.List.Dedup
import ScriptListing.Proofs.Dump.Selection

/-! The classes of a dump as objects that refer to each other. An object is made when its name is
first met, and its parent is set as often as the name is told of; the class exports come last and
in any order. Whichever it is, the objects show the class that is read, its hierarchy and nothing
else. -/
namespace ScriptListing

/-- A class as an object, which others refer to by its place. -/
structure ClassObject where
  name : String
  super : Option Nat := none
  properties : List Property := []
  functions : List Function := []
  /-- The classes that the properties name, in and below them, in their order. -/
  references : List Nat := []

/-- The objects in the order in which they were made, and the place noted for each name. -/
structure ClassGraph where
  objects : List ClassObject := []
  places : List (String × Nat) := []

/-- What an object shows to one who knows it by its name. -/
structure ClassView where
  parent : Option String := none
  properties : List Property := []
  functions : List Function := []
  references : List String := []

/-- What the classes of a hierarchy show before any of them is read. -/
def Hierarchy.view (h : Hierarchy) (name : String) : ClassView := { parent := h.super? name }

/-- What the classes show that a class comes with: their parents, and only the class itself more
than that. -/
def Class.view (c : Class) (name : String) : ClassView :=
  if name = c.name then
    { c with parent := c.super?, references := c.allProperties.flatMap Property.classes }
  else c.hierarchy.view name

theorem lookup_cons_ite {α : Type} {entries : List (String × α)} {name n : String} {a : α} :
    ((name, a) :: entries).lookup n = if n = name then some a else entries.lookup n := by
  by_cases same : n = name
  · simp [same]
  · have differs : (n == name) = false := by simpa using same
    simp [List.lookup_cons, differs, same]

theorem lookup_map {α β : Type} {items : List α} {key : α → String} {value : α → β} {n : String} :
    (items.map fun a => (key a, value a)).lookup n =
      (items.find? fun a => key a == n).map value := by
  induction items with
  | nil => rfl
  | cons a rest ih =>
    rw [List.map_cons, lookup_cons_ite]
    by_cases same : key a = n
    · simp [same]
    · simp [same, Ne.symm same, ih]

theorem Hierarchy.super?_link {h : Hierarchy} {name n : String} {super : Option String} :
    (h.link name super).super? n = if n = name then super else h.super? n := by
  unfold link super?
  rw [lookup_cons_ite]
  split <;> rfl

namespace ClassGraph

def place? (g : ClassGraph) (name : String) : Option Nat := g.places.lookup name

def nameAt (g : ClassGraph) (i : Nat) : Option String := g.objects[i]?.map (·.name)

def make (g : ClassGraph) (name : String) : ClassGraph where
  objects := g.objects ++ [{ name }]
  places := (name, g.objects.length) :: g.places

/-- The place of the object of a name, made if there is none. -/
def refer (g : ClassGraph) (name : String) : Nat × ClassGraph :=
  match g.place? name with
  | some i => (i, g)
  | none => (g.objects.length, g.make name)

def referAll (g : ClassGraph) : List String → List Nat × ClassGraph
  | [] => ([], g)
  | name :: rest =>
    let (i, g) := g.refer name
    let (others, g) := g.referAll rest
    (i :: others, g)

def modify (g : ClassGraph) (i : Nat) (change : ClassObject → ClassObject) : ClassGraph :=
  { g with objects := g.objects.modify i change }

/-- The object of a name gets a parent, or loses it if that has no name. -/
def link (g : ClassGraph) (name super : String) : ClassGraph :=
  let (i, g) := g.refer name
  let (parents, g) := g.referAll (Dump.parent? super).toList
  g.modify i fun o => { o with super := parents.head? }

def linkAll (g : ClassGraph) (links : List (String × String)) : ClassGraph :=
  links.foldl (fun g l => g.link l.1 l.2) g

def view? (g : ClassGraph) (name : String) : Option ClassView :=
  ((g.place? name).bind (g.objects[·]?)).map fun o =>
    { o with parent := o.super.bind g.nameAt, references := o.references.filterMap g.nameAt }

variable {g g' : ClassGraph} {name n : String} {i j : Nat} {o : ClassObject} {v : ClassView}

theorem nameAt_lt (named : g.nameAt i = some name) : i < g.objects.length := by
  obtain ⟨o, here, _⟩ := Option.map_eq_some_iff.mp named
  exact (List.getElem?_eq_some_iff.mp here).1

theorem nameAt_make :
    (g.make name).nameAt i = if i = g.objects.length then some name else g.nameAt i := by
  unfold nameAt make
  by_cases last : i = g.objects.length
  · simp [last]
  · rw [if_neg last]
    by_cases inside : i < g.objects.length
    · rw [List.getElem?_append_left inside]
    · have outside : g.objects.length + 1 ≤ i := by omega
      rw [List.getElem?_eq_none (by simpa using outside), List.getElem?_eq_none (by omega)]

theorem place?_make :
    (g.make name).place? n = if n = name then some g.objects.length else g.place? n :=
  lookup_cons_ite

theorem nameAt_modify {change : ClassObject → ClassObject} (kept : ∀ o, (change o).name = o.name) :
    (g.modify i change).nameAt j = g.nameAt j := by
  unfold nameAt modify
  rw [List.getElem?_modify]
  cases g.objects[j]? with
  | none => rfl
  | some o => by_cases same : i = j <;> simp [same, kept]

/-! Names that have an object. -/

def Knows (g : ClassGraph) (name : String) : Prop := ∃ i, g.place? name = some i

theorem view?_unknown (unknown : ¬ g.Knows n) : g.view? n = none := by
  have absent : g.place? n = none := by
    cases found : g.place? n with
    | none => rfl
    | some i => exact absurd ⟨i, found⟩ unknown
  rw [view?, absent]
  rfl

theorem knows_refer : (g.refer name).2.Knows n ↔ n = name ∨ g.Knows n := by
  unfold refer
  split
  · next i found =>
    refine ⟨.inr, fun known => known.elim ?_ id⟩
    rintro rfl
    exact ⟨i, found⟩
  · unfold Knows
    by_cases same : n = name <;> simp [place?_make, same]

theorem knows_referAll {names : List String} :
    (g.referAll names).2.Knows n ↔ n ∈ names ∨ g.Knows n := by
  induction names generalizing g with
  | nil => simp [referAll]
  | cons name rest ih =>
    change ((g.refer name).2.referAll rest).2.Knows n ↔ _
    rw [ih, knows_refer, List.mem_cons, or_left_comm, or_assoc]

theorem knows_modify {change : ClassObject → ClassObject} :
    (g.modify i change).Knows n ↔ g.Knows n :=
  Iff.rfl

theorem knows_link {super : String} :
    (g.link name super).Knows n ↔ (n = name ∨ Dump.parent? super = some n) ∨ g.Knows n := by
  unfold link
  rw [knows_modify, knows_referAll, knows_refer, Option.mem_toList, or_left_comm, or_assoc]

theorem knows_linkAll {links : List (String × String)} : (g.linkAll links).Knows n ↔
    (∃ l ∈ links, n = l.1 ∨ Dump.parent? l.2 = some n) ∨ g.Knows n := by
  induction links generalizing g with
  | nil => simp [linkAll]
  | cons l rest ih =>
    change ((g.link l.1 l.2).linkAll rest).Knows n ↔ _
    rw [ih, knows_link, or_left_comm, ← or_assoc]
    simp

/-! References. -/

def Grows (g g' : ClassGraph) : Prop := ∀ i name, g.nameAt i = some name → g'.nameAt i = some name

theorem grows_make (g : ClassGraph) (name : String) : Grows g (g.make name) := by
  intro i n named
  have inside := nameAt_lt named
  rw [nameAt_make, if_neg (by omega), named]

/-- An object and what it shows: each reference leads to the object of the name. -/
structure Draws (g : ClassGraph) (o : ClassObject) (v : ClassView) : Prop where
  parent : Option.Rel (fun i name => g.nameAt i = some name) o.super v.parent
  properties : o.properties = v.properties
  functions : o.functions = v.functions
  references : List.Forall₂ (fun i name => g.nameAt i = some name) o.references v.references

theorem bind_nameAt {reference : Option Nat} {target : Option String}
    (leads : Option.Rel (fun i name => g.nameAt i = some name) reference target) :
    reference.bind g.nameAt = target := by
  cases leads with
  | none => rfl
  | some named => exact named

theorem filterMap_nameAt {references : List Nat} {targets : List String}
    (lead : List.Forall₂ (fun i name => g.nameAt i = some name) references targets) :
    references.filterMap g.nameAt = targets := by
  induction lead with
  | nil => rfl
  | cons named _ ih => rw [List.filterMap_cons_some named, ih]

theorem rel_head? {leads : Nat → String → Prop} {places : List Nat} {target : Option String}
    (lead : List.Forall₂ leads places target.toList) : Option.Rel leads places.head? target := by
  cases target with
  | none =>
    cases lead
    exact .none
  | some n =>
    cases lead with
    | cons here _ => exact .some here

/-- References that are good stay so while the graph grows. -/
theorem Grows.draws (grows : Grows g g') (draws : Draws g o v) : Draws g' o v := by
  obtain ⟨parent, properties, functions, references⟩ := draws
  refine ⟨?_, properties, functions, references.imp grows⟩
  generalize o.super = super, v.parent = target at parent
  cases parent with
  | none => exact .none
  | some named => exact .some (grows _ _ named)

/-- One object for each name, at the place noted for it, with what the class of the name shows.
A class without an object shows nothing. -/
structure Shows (g : ClassGraph) (view : String → ClassView) : Prop where
  placed : ∀ name i, g.place? name = some i ↔ g.nameAt i = some name
  drawn : ∀ o ∈ g.objects, Draws g o (view o.name)
  unmet : ∀ name, ¬ g.Knows name → view name = {}

namespace Shows

variable {view view' : String → ClassView}

theorem empty : Shows {} (Hierarchy.mk [] []).view := by
  refine ⟨fun name i => ?_, by simp, fun _ _ => rfl⟩
  simp [place?, nameAt]

theorem unique (shows : Shows g view) (first : g.nameAt i = some name)
    (second : g.nameAt j = some name) : i = j := by
  have place := (shows.placed name i).mpr first
  rw [(shows.placed name j).mpr second] at place
  exact (Option.some.inj place).symm

theorem distinct (shows : Shows g view) : (g.objects.map (·.name)).Nodup := by
  rw [List.nodup_iff_getElem?_ne_getElem?]
  intro i j less inside same
  rw [List.length_map] at inside
  have second : g.nameAt j = some g.objects[j].name := by simp [nameAt, inside]
  have first : g.nameAt i = some g.objects[j].name := by
    rw [List.getElem?_map, List.getElem?_map] at same
    exact same.trans second
  exact Nat.ne_of_lt less (shows.unique first second)

/-- What can be seen of an object is what the class of its name shows. -/
theorem view?_known (shows : Shows g view) (known : g.Knows n) : g.view? n = some (view n) := by
  obtain ⟨i, found⟩ := known
  obtain ⟨o, here, rfl⟩ := Option.map_eq_some_iff.mp ((shows.placed n i).mp found)
  have drawn := shows.drawn o (List.mem_of_getElem? here)
  simp [view?, found, here, bind_nameAt drawn.parent, filterMap_nameAt drawn.references,
    drawn.properties, drawn.functions]

theorem make (shows : Shows g view) (absent : ¬ g.Knows name) : Shows (g.make name) view := by
  refine ⟨fun n i => ?_, fun o member => ?_, fun n unknown => ?_⟩
  · -- The name is at no place yet, and the place beyond all others has no name yet.
    rw [place?_make, nameAt_make]
    by_cases same : n = name
    · have unnamed : ¬ g.nameAt i = some name := fun named =>
        absent ⟨i, (shows.placed name i).mpr named⟩
      by_cases last : i = g.objects.length
      · simp [same, last]
      · simp [same, last, unnamed, Ne.symm last]
    · have beyond : g.nameAt g.objects.length = none := by simp [nameAt]
      by_cases last : i = g.objects.length
      · simp [same, last, shows.placed, beyond, Ne.symm same]
      · simp [same, last, shows.placed]
  · rcases List.mem_append.mp member with old | new
    · exact (grows_make g name).draws (shows.drawn o old)
    · obtain rfl := List.mem_singleton.mp new
      rw [shows.unmet name absent]
      exact ⟨.none, rfl, rfl, .nil⟩
  · apply shows.unmet n
    rintro ⟨i, found⟩
    by_cases same : n = name
    · exact absent ⟨i, same ▸ found⟩
    · exact unknown ⟨i, by rw [place?_make, if_neg same, found]⟩

theorem refer (shows : Shows g view) (name : String) :
    Shows (g.refer name).2 view ∧ Grows g (g.refer name).2 ∧
      (g.refer name).2.nameAt (g.refer name).1 = some name := by
  unfold ClassGraph.refer
  split
  · next i found => exact ⟨shows, fun _ _ named => named, (shows.placed name i).mp found⟩
  · next absent =>
    have unknown : ¬ g.Knows name := by simp [Knows, absent]
    exact ⟨shows.make unknown, grows_make g name, by simp [nameAt_make]⟩

/-- Whatever is asked for is there in the end, each name at the place that was given for it. -/
theorem referAll (shows : Shows g view) (names : List String) :
    Shows (g.referAll names).2 view ∧ Grows g (g.referAll names).2 ∧
      List.Forall₂ (fun i name => (g.referAll names).2.nameAt i = some name)
        (g.referAll names).1 names := by
  induction names generalizing g with
  | nil => exact ⟨shows, fun _ _ named => named, .nil⟩
  | cons name rest ih =>
    obtain ⟨first, grows, here⟩ := shows.refer name
    obtain ⟨later, grows', others⟩ := ih first
    exact ⟨later, fun i n named => grows' i n (grows i n named), .cons (grows' _ _ here) others⟩

/-- A change of the one object of a name changes what the class of that name shows. -/
theorem modify (shows : Shows g view) (here : g.nameAt i = some name)
    {change : ClassObject → ClassObject} (kept : ∀ o, (change o).name = o.name)
    (changed : ∀ o, Draws g o (view name) → Draws g (change o) (view' name))
    (others : ∀ n, n ≠ name → view' n = view n) : Shows (g.modify i change) view' := by
  have grows : Grows g (g.modify i change) := fun j n named => by rw [nameAt_modify kept, named]
  refine ⟨fun n j => ?_, fun o member => ?_, fun n unknown => ?_⟩
  · rw [nameAt_modify kept]
    exact shows.placed n j
  · apply grows.draws
    obtain ⟨j, found⟩ := List.getElem?_of_mem member
    obtain ⟨o', old, rfl⟩ := Option.map_eq_some_iff.mp ((List.getElem?_modify ..).symm.trans found)
    have drawn := shows.drawn o' (List.mem_of_getElem? old)
    have named : g.nameAt j = some o'.name := by simp [nameAt, old]
    by_cases same : i = j
    · subst same
      obtain rfl : name = o'.name := Option.some.inj (here.symm.trans named)
      simpa [kept] using changed o' drawn
    · -- No other object has the name, so all others show what they did.
      have differs : o'.name ≠ name := by
        rintro rfl
        exact same (shows.unique here named)
      simpa [same, others _ differs] using drawn
  · have differs : n ≠ name := by
      rintro rfl
      exact unknown ⟨i, (shows.placed n i).mpr here⟩
    rw [others n differs]
    exact shows.unmet n unknown

/-- Only parents are told. -/
theorem link {h : Hierarchy} (shows : Shows g h.view) (name super : String) :
    Shows (g.link name super) (h.link name (Dump.parent? super)).view := by
  unfold ClassGraph.link
  obtain ⟨first, _, here⟩ := shows.refer name
  obtain ⟨second, grows, lead⟩ := first.referAll (Dump.parent? super).toList
  refine second.modify (grows _ _ here) (fun _ => rfl) (fun o draws => ?_) fun n differs => ?_
  · refine ⟨?_, draws.properties, draws.functions, draws.references⟩
    change Option.Rel _ _ ((h.link name _).super? name)
    rw [Hierarchy.super?_link, if_pos rfl]
    exact rel_head? lead
  · rw [Hierarchy.view, Hierarchy.super?_link, if_neg differs, Hierarchy.view]

theorem linkAll {h : Hierarchy} (shows : Shows g h.view) (links : List (String × String)) :
    Shows (g.linkAll links)
      (Hierarchy.mk ((links.map fun l => (l.1, Dump.parent? l.2)).reverse ++ h.links)
        h.names).view := by
  induction links generalizing g h with
  | nil => exact shows
  | cons l rest ih =>
    change Shows ((g.link l.1 l.2).linkAll rest) _
    simpa [Hierarchy.link] using ih (shows.link l.1 l.2)

end Shows

end ClassGraph

namespace Dump

/-- The parent of a class: by its last class export, or where it has none by the last entry that
tells of it. -/
inductive Parent (d : Dump) (name : String) : Option String → Prop where
  | exported {e : Export} (last : IsLast (IsClass name) d.exports e) :
      Parent d name (parent? e.super)
  | told {t : ClassEntry} (unexported : ∀ e ∈ d.exports, ¬ IsClass name e)
      (last : IsLast (fun t => t.name = name) d.classes t) : Parent d name (parent? t.super)
  | untold (unexported : ∀ e ∈ d.exports, ¬ IsClass name e)
      (absent : ∀ t ∈ d.classes, t.name ≠ name) : Parent d name none

/-- The class exports that count, each once, in some order. -/
structure Iterates (d : Dump) (order : List Export) : Prop where
  distinct : (order.map (·.name)).Nodup
  counting : ∀ e, e ∈ order ↔ d.class? e.name = some e

def told (d : Dump) (order : List Export) : List (String × String) :=
  d.classes.map (fun t => (t.name, t.super)) ++ order.map fun e => (e.name, e.super)

/-- The objects as they are made for a class: those that parents are told of, the class itself, and
those that its properties name. -/
def graph (d : Dump) (order : List Export) (c : Class) : ClassGraph :=
  let (i, g) := (ClassGraph.linkAll {} (d.told order)).refer c.name
  let (references, g) := g.referAll (c.allProperties.flatMap Property.classes)
  g.modify i fun o => { o with properties := c.properties, functions := c.functions, references }

variable {d : Dump} {name n : String} {order : List Export}

theorem class?_eq_none : d.class? n = none ↔ ∀ e ∈ d.exports, ¬ IsClass n e := by
  simp [class?, isClass, IsClass]

/-- Whatever the order, the exports that count are found by their names. -/
theorem Iterates.find? (iterates : Iterates d order) :
    (order.reverse.find? fun e => e.name == n) = d.class? n := by
  cases found : order.reverse.find? fun e => e.name == n with
  | some e =>
    obtain rfl : e.name = n := by simpa using List.find?_some found
    have member := List.mem_reverse.mp (List.mem_of_find?_eq_some found)
    exact ((iterates.counting e).mp member).symm
  | none =>
    cases counts : d.class? n with
    | none => rfl
    | some e =>
      obtain rfl := class?_name counts
      have member := List.mem_reverse.mpr ((iterates.counting e).mpr counts)
      simpa using List.find?_eq_none.mp found e member

theorem exists_iterates (d : Dump) : ∃ order, Iterates d order := by
  have counting (e : Export) :
      e ∈ (d.exports.map (·.name)).dedup.filterMap d.class? ↔ d.class? e.name = some e := by
    simp only [List.mem_filterMap, List.mem_dedup]
    constructor
    · rintro ⟨n, _, found⟩
      rw [class?_name found, found]
    · intro found
      exact ⟨e.name, List.mem_map_of_mem (class?_eq_some.mp found).mem, found⟩
  refine ⟨(d.exports.map (·.name)).dedup.filterMap d.class?, ?_, counting⟩
  refine List.Nodup.map_on ?_ ((List.nodup_dedup _).filterMap ?_)
  · intro e first e' second same
    have found := (counting e).mp first
    rw [same, (counting e').mp second] at found
    exact (Option.some.inj found).symm
  · intro a b e first second
    exact (class?_name first).symm.trans (class?_name second)

theorem super?_hierarchy : d.hierarchy.super? n =
    (((d.class? n).map fun e => parent? e.super).or
      ((d.classes.reverse.find? fun t => t.name == n).map fun t => parent? t.super)).join := by
  have counts : (d.exports.reverse.filter isClass).find? (fun e => e.name == n) = d.class? n := by
    rw [class?, List.find?_filter]
    simp only [Bool.decide_and, Bool.decide_eq_true]
  unfold hierarchy Hierarchy.super?
  rw [List.lookup_append, lookup_map, lookup_map, counts]

/-- Whatever the order, the parents told last are those of the hierarchy. -/
theorem Iterates.super?_told (iterates : Iterates d order) :
    Hierarchy.super? { links := ((d.told order).map fun l => (l.1, parent? l.2)).reverse } n =
      d.hierarchy.super? n := by
  rw [super?_hierarchy, ← iterates.find?, ← lookup_map, ← lookup_map]
  simp [told, Hierarchy.super?, List.lookup_append, Function.comp_def]

theorem parent_hierarchy : Parent d n (d.hierarchy.super? n) := by
  rw [super?_hierarchy]
  cases exported : d.class? n with
  | some e => exact .exported (class?_eq_some.mp exported)
  | none =>
    have unexported := class?_eq_none.mp exported
    cases told : d.classes.reverse.find? fun t => t.name == n with
    | some t =>
      have last := find?_reverse_eq_some.mp told
      simp only [beq_iff_eq] at last
      exact .told unexported last
    | none => exact .untold unexported (by simpa using told)

/-- Whatever the order, the objects show the class and its hierarchy. -/
theorem Iterates.shows (iterates : Iterates d order) {c : Class}
    (same : c.hierarchy = d.hierarchy) : (d.graph order c).Shows c.view := by
  have told := ClassGraph.Shows.empty.linkAll (d.told order)
  have parents : (Hierarchy.mk (((d.told order).map fun l => (l.1, parent? l.2)).reverse ++
      []) []).view = c.hierarchy.view := by
    funext n
    rw [Hierarchy.view, List.append_nil, iterates.super?_told, ← same, Hierarchy.view]
  rw [parents] at told
  obtain ⟨first, _, here⟩ := told.refer c.name
  obtain ⟨second, grows, lead⟩ := first.referAll (c.allProperties.flatMap Property.classes)
  refine second.modify (grows _ _ here) (fun _ => rfl) (fun o draws => ?_) fun n differs => ?_
  · rw [Class.view, if_pos rfl]
    exact ⟨draws.parent, rfl, rfl, lead⟩
  · rw [Class.view, if_neg differs]

theorem knows_graph {c : Class} : (d.graph order c).Knows n ↔
    n ∈ c.allProperties.flatMap Property.classes ∨ n = c.name ∨
      ∃ l ∈ d.told order, n = l.1 ∨ parent? l.2 = some n := by
  unfold graph
  rw [ClassGraph.knows_modify, ClassGraph.knows_referAll, ClassGraph.knows_refer,
    ClassGraph.knows_linkAll]
  simp [ClassGraph.Knows, ClassGraph.place?]

/-- Two orders differ in the places of the objects only. -/
theorem Iterates.view?_eq {order' : List Export} (first : Iterates d order)
    (second : Iterates d order') {c : Class} (same : c.hierarchy = d.hierarchy) :
    (d.graph order c).view? n = (d.graph order' c).view? n := by
  have members (e : Export) : e ∈ order ↔ e ∈ order' := by rw [first.counting, second.counting]
  have known : (d.graph order c).Knows n ↔ (d.graph order' c).Knows n := by
    simp only [knows_graph, told, List.mem_append, List.mem_map, members]
  by_cases here : (d.graph order c).Knows n
  · rw [(first.shows same).view?_known here, (second.shows same).view?_known (known.mp here)]
  · rw [ClassGraph.view?_unknown here, ClassGraph.view?_unknown (mt known.mpr here)]

/-- Two classes, each of which is told to be the parent of the other. -/
def crossing : List UInt8 :=
  ("classes: [\x7bname: B, super: A\x7d]\nexports: [\x7btype: Class, name: B\x7d, " ++
    "\x7btype: Class, name: A, super: B, properties: [\x7btype: T, class: C\x7d]\x7d]").toList.map
    fun c => c.toNat.toUInt8

theorem crossing_read : ((decode crossing "A").map fun c =>
    (c.super?, c.hierarchy.super? "B", c.allProperties.flatMap Property.classes)).toOption =
      some (some "B", none, ["C"]) := by
  decide +kernel

end Dump

end ScriptListing
