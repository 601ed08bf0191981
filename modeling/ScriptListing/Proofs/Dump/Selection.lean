import ScriptListing.Dump
import ScriptListing.Proofs.Outcome

/-! Which functions a class gets. A class that lists functions gets the last export of each listed
name, and any other class the exports that lie in it; what is selected is read entry by entry, and
nothing is lost, added or moved. -/
namespace ScriptListing.Dump

section

variable {α : Type}

structure IsLast (P : α → Prop) (items : List α) (item : α) : Prop where
  suits : P item
  last : ∃ before after, items = before ++ item :: after ∧ ∀ other ∈ after, ¬ P other

theorem IsLast.mem {P : α → Prop} {items : List α} {item : α} (isLast : IsLast P items item) :
    item ∈ items := by
  obtain ⟨before, after, rfl, _⟩ := isLast.last
  simp

theorem find?_reverse_eq_some {p : α → Bool} {items : List α} {item : α} :
    items.reverse.find? p = some item ↔ IsLast (fun a => p a = true) items item := by
  rw [List.find?_eq_some_iff_append]
  constructor
  · rintro ⟨suits, after, before, reversed, none⟩
    refine ⟨suits, before.reverse, after.reverse, ?_, ?_⟩
    · rw [← List.reverse_reverse items, reversed]
      simp
    · intro other member
      simpa using none other (List.mem_reverse.mp member)
  · rintro ⟨suits, before, after, rfl, none⟩
    refine ⟨suits, after.reverse, before.reverse, by simp, ?_⟩
    intro other member
    simpa using none other (List.mem_reverse.mp member)

end

variable {d : Dump} {c e : Export}

def IsClass (name : String) (e : Export) : Prop := e.type = "Class" ∧ e.name = name

/-- A function export that a class may list: it lies in the class, or in none. -/
def Offers (owner name : String) (e : Export) : Prop :=
  e.type = "Function" ∧ (e.outer = "" ∨ e.outer = owner) ∧ e.name = name

theorem class?_eq_some {name : String} :
    d.class? name = some c ↔ IsLast (IsClass name) d.exports c := by
  unfold class?
  rw [find?_reverse_eq_some]
  simp only [isClass, Bool.and_eq_true, beq_iff_eq]
  rfl

theorem class?_name {name : String} (found : d.class? name = some c) : c.name = name :=
  (class?_eq_some.mp found).suits.2

theorem offers_iff {owner name : String} :
    (isMember owner e && e.name == name) = true ↔ Offers owner name e := by
  simp [isMember, isFunction, Offers, and_assoc]

theorem listed_eq_ok {owner name : String} :
    d.listed owner name = .ok e ↔ IsLast (Offers owner name) d.exports e := by
  have same : (fun e => (isMember owner e && e.name == name) = true) = Offers owner name :=
    funext fun _ => propext offers_iff
  unfold listed
  rw [← same, ← find?_reverse_eq_some]
  split
  · next found => rw [found, Except.ok.injEq, Option.some.injEq]
  · next absent => simp [absent, inside, fail, Except.mapError]

/-- A listed name is not found where no export offers it. -/
theorem listed_eq_error {owner name : String} {failure : Failure} :
    d.listed owner name = .error failure ↔
      (∀ e ∈ d.exports, ¬ Offers owner name e) ∧
        failure = ⟨["function " ++ name], .notFound⟩ := by
  have absent_iff : (d.exports.reverse.find? fun e => isMember owner e && e.name == name) = none ↔
      ∀ e ∈ d.exports, ¬ Offers owner name e := by
    simp only [List.find?_eq_none, List.mem_reverse, offers_iff]
  unfold listed
  rw [← absent_iff]
  split
  · next found => simp [found]
  · next absent =>
    rw [absent]
    simp [inside, fail, Except.mapError, Failure.within, Failure.of, eq_comm]

/-- The exports of a class's functions: for each listed name the last one that offers it, or,
where the class has no list, those that lie in the class in the order of the dump. -/
inductive Selected (d : Dump) (c : Export) : List Export → Prop where
  | listed {names : List String} {exports : List Export} (given : c.functions = some names)
      (each : List.Forall₂ (fun name e => IsLast (Offers c.name name) d.exports e) names exports) :
      Selected d c exports
  | owned (absent : c.functions = none) :
      Selected d c (d.exports.filter fun e => e.type = "Function" ∧ e.outer = c.name)

theorem functionExports_eq_ok {exports : List Export} :
    d.functionExports c = .ok exports ↔ Selected d c exports := by
  have owns : (fun e : Export => decide (e.type = "Function" ∧ e.outer = c.name)) =
      fun e => isFunction e && e.outer == c.name := by
    funext e
    simp [isFunction, Bool.decide_and, beq_eq_decide]
  unfold functionExports
  cases given : c.functions with
  | some names =>
    simp only [Outcome.mapM_eq_ok, listed_eq_ok]
    refine ⟨.listed given, fun selected => ?_⟩
    cases selected with
    | listed given' each =>
      rw [given] at given'
      cases given'
      exact each
    | owned absent => simp [given] at absent
  | none =>
    simp only [Except.ok.injEq, ← owns]
    constructor
    · rintro rfl
      exact .owned given
    · rintro (⟨given', _⟩ | _)
      · simp [given] at given'
      · rfl

/-- Whatever is selected is a function that lies in the class, or in none. -/
theorem Selected.offered {exports : List Export} (selected : Selected d c exports) :
    ∀ e ∈ exports, e ∈ d.exports ∧ e.type = "Function" ∧ (e.outer = "" ∨ e.outer = c.name) := by
  intro e member
  cases selected with
  | listed given each =>
    obtain ⟨name, _, isLast⟩ := Outcome.forall₂_mem each member
    exact ⟨isLast.mem, isLast.suits.1, isLast.suits.2.1⟩
  | owned absent =>
    obtain ⟨inside, suits⟩ := List.mem_filter.mp member
    have both : e.type = "Function" ∧ e.outer = c.name := by simpa using suits
    exact ⟨inside, both.1, .inr both.2⟩

/-- What a function keeps of its export: the name, one property for each entry and one statement
for each node of the script, in the same order. -/
structure Keeps (d : Dump) (owner : String) (e : Export) (f : Function) : Prop where
  named : f.name = e.name
  owned : f.owner = owner
  properties : List.Forall₂ (fun entry p => property entry = .ok p) e.properties f.properties
  script : List.Forall₂ (fun n st => statement d.document n = .ok st) e.script f.script

theorem function_eq_ok {owner : String} {f : Function} :
    d.function owner e = .ok f ↔ Keeps d owner e f := by
  unfold function inside
  simp only [Outcome.mapError_eq_ok, Outcome.bind_eq_ok, Outcome.mapM_eq_ok, Outcome.pure_eq_ok]
  constructor
  · rintro ⟨properties, first, script, second, rfl⟩
    exact ⟨rfl, rfl, first, second⟩
  · rintro ⟨named, rfl, first, second⟩
    exact ⟨_, first, _, second, by rw [← named]⟩

/-- A class that could be read is put together from an export, its properties and functions. -/
theorem select_eq_ok {name : String} {k : Class} : d.select name = .ok k ↔
    ∃ c properties exports functions, IsLast (IsClass name) d.exports c ∧
      c.properties.mapM property = .ok properties ∧ Selected d c exports ∧
      List.Forall₂ (Keeps d name) exports functions ∧
      k = { name, properties, functions, hierarchy := d.hierarchy } := by
  unfold select
  simp only [← class?_eq_some]
  cases found : d.class? name with
  | none => simp [fail]
  | some c =>
    obtain rfl := class?_name found
    unfold classOf inside
    simp only [Outcome.mapError_eq_ok, Outcome.bind_eq_ok, Outcome.mapM_eq_ok, Outcome.pure_eq_ok,
      functionExports_eq_ok, function_eq_ok, Option.some.injEq]
    constructor
    · rintro ⟨properties, fields, exports, selected, functions, kept, rfl⟩
      exact ⟨c, properties, exports, functions, rfl, fields, selected, kept, rfl⟩
    · rintro ⟨_, properties, exports, functions, rfl, fields, selected, kept, rfl⟩
      exact ⟨properties, fields, exports, selected, functions, kept, rfl⟩

theorem decode_eq_select {bytes : List UInt8} {name : String} (written : parse bytes = .ok d) :
    decode bytes name = d.select name := by
  rw [decode, written]
  rfl

section

variable {bytes : List UInt8} {name : String} {properties : List Property}
variable (written : parse bytes = .ok d) (found : IsLast (IsClass name) d.exports c)
  (fields : c.properties.mapM property = .ok properties)
include written found fields

/-- Once the properties of the class are read, what is left is to select and read functions. -/
theorem decode_eq_functions : decode bytes name = inside ("class " ++ name) do
    let exports ← d.functionExports c
    let functions ← exports.mapM (d.function name)
    return { name, properties, functions, hierarchy := d.hierarchy } := by
  obtain rfl : c.name = name := found.suits.2
  rw [decode_eq_select written, select, class?_eq_some.mpr found]
  change d.classOf c = _
  unfold classOf
  rw [fields]
  rfl

theorem decode_eq_ok {k : Class} : decode bytes name = .ok k ↔
    ∃ exports functions, Selected d c exports ∧ List.Forall₂ (Keeps d name) exports functions ∧
      k = { name, properties, functions, hierarchy := d.hierarchy } := by
  rw [decode_eq_select written, select_eq_ok]
  constructor
  · rintro ⟨c', properties', exports, functions, found', fields', selected, kept, rfl⟩
    obtain rfl : c = c' := Option.some.inj
      ((class?_eq_some.mpr found).symm.trans (class?_eq_some.mpr found'))
    obtain rfl : properties = properties' := Except.ok.inj (fields.symm.trans fields')
    exact ⟨exports, functions, selected, kept, rfl⟩
  · rintro ⟨exports, functions, selected, kept, rfl⟩
    exact ⟨c, properties, exports, functions, found, fields, selected, kept, rfl⟩

/-- The first listed name that no export offers ends the decoding. -/
theorem decode_unlisted {names : List String} (given : c.functions = some names)
    (missing : ∃ n ∈ names, ∀ e ∈ d.exports, ¬ Offers name n e) :
    ∃ n ∈ names, (∀ e ∈ d.exports, ¬ Offers name n e) ∧
      decode bytes name = .error ⟨["class " ++ name, "function " ++ n], .notFound⟩ := by
  obtain ⟨n, listed, unoffered⟩ := missing
  obtain rfl : c.name = name := found.suits.2
  rw [decode_eq_functions written found fields]
  have selection : d.functionExports c = names.mapM (d.listed c.name) := by
    unfold functionExports
    rw [given]
  rw [selection]
  cases outcome : names.mapM (d.listed c.name) with
  | ok exports =>
    obtain ⟨k, here⟩ := List.getElem?_of_mem listed
    obtain ⟨e, _, isOk⟩ := Outcome.forall₂_getElem (Outcome.mapM_eq_ok.mp outcome) here
    have isLast := listed_eq_ok.mp isOk
    exact absurd isLast.suits (unoffered e isLast.mem)
  | error failure =>
    obtain ⟨before, n', after, rfl, _, fails⟩ := Outcome.mapM_eq_error.mp outcome
    obtain ⟨unoffered', rfl⟩ := listed_eq_error.mp fails
    exact ⟨n', by simp, unoffered', rfl⟩

end

/-- Selecting functions loses, adds and moves nothing. Once the properties of the last class export
of a name are read, a listed function that no export offers is not found; otherwise the functions
of the class are the selected exports, each read entry by entry, and reading fails only where one
of those cannot be read. No function of another class is among them. -/
theorem functions_are_selected {bytes : List UInt8} {name : String} {d : Dump} {c : Export}
    {properties : List Property} (written : parse bytes = .ok d)
    (found : IsLast (IsClass name) d.exports c)
    (fields : c.properties.mapM property = .ok properties) :
    (∀ names, c.functions = some names → (∃ n ∈ names, ∀ e ∈ d.exports, ¬ Offers name n e) →
      ∃ n ∈ names, (∀ e ∈ d.exports, ¬ Offers name n e) ∧
        decode bytes name = .error ⟨["class " ++ name, "function " ++ n], .notFound⟩) ∧
    (∀ k, decode bytes name = .ok k ↔ ∃ exports functions, Selected d c exports ∧
      List.Forall₂ (Keeps d name) exports functions ∧
      k = { name, properties, functions, hierarchy := d.hierarchy }) ∧
    ∀ exports, Selected d c exports → ∀ e ∈ exports,
      e ∈ d.exports ∧ e.type = "Function" ∧ (e.outer = "" ∨ e.outer = name) := by
  refine ⟨fun names => decode_unlisted written found fields,
    fun k => decode_eq_ok written found fields, fun exports selected => ?_⟩
  obtain rfl : c.name = name := found.suits.2
  exact selected.offered

/-- A class that lists a function twice. Of its three exports the last lies in another class, and
the one before in none. -/
def relisting : List UInt8 :=
  ("exports: [\x7btype: Class, name: A, functions: [G, G]\x7d, " ++
    "\x7btype: Function, name: G, outer: A, script: [~]\x7d, \x7btype: Function, name: G\x7d, " ++
    "\x7btype: Function, name: G, outer: B\x7d]").toList.map fun c => c.toNat.toUInt8

theorem relisting_read : ((parse relisting).toOption.bind fun d => (d.class? "A").map fun c =>
    (c.functions, c.properties.length,
      ((d.select "A").map fun k => k.functions.map (·.name)).toOption)) =
      some (some ["G", "G"], 0, some ["G", "G"]) := by
  decide +kernel

theorem functions_are_selected_relisting : ∃ d c k exports, parse relisting = .ok d ∧
    d.class? "A" = some c ∧ c.functions = some ["G", "G"] ∧ decode relisting "A" = .ok k ∧
    Selected d c exports ∧ List.Forall₂ (Keeps d "A") exports k.functions ∧
    k.functions.map (·.name) = ["G", "G"] := by
  have known := relisting_read
  cases written : parse relisting with
  | error e =>
    rw [written] at known
    cases known
  | ok d =>
    rw [written] at known
    obtain ⟨c, found, equal⟩ := Option.map_eq_some_iff.mp known
    obtain ⟨given, rest⟩ := Prod.mk.inj equal
    obtain ⟨none, names⟩ := Prod.mk.inj rest
    have fields : c.properties.mapM property = .ok [] := by
      rw [List.length_eq_zero_iff.mp none]
      rfl
    have selects : decode relisting "A" = d.select "A" := decode_eq_select written
    obtain ⟨_, exactly, _⟩ := functions_are_selected written (class?_eq_some.mp found) fields
    cases read : d.select "A" with
    | error failure =>
      rw [read] at names
      cases names
    | ok k =>
      rw [read] at names
      obtain ⟨exports, functions, selected, kept, rfl⟩ := (exactly k).mp (selects.trans read)
      exact ⟨d, c, _, exports, rfl, found, given, selects.trans read, selected, kept,
        Option.some.inj names⟩

end ScriptListing.Dump
