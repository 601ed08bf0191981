import Mathlib.Data.List.Induction
import ScriptListing.Proofs.SymbolTable
import ScriptListing.Proofs.Yaml.Reading

/-! The two shapes of a mapping file: a list of types under `types`, and one mapping from each
name to the parent's name. The same types in the same order make the same map. -/
namespace ScriptListing

namespace Yaml

/-- What a scalar is read as where text is asked for: the text it is written as, or nothing for
a null. Encoded data is read as another text. -/
def Node.written? : Node → Option (Option String)
  | .scalar tag source _ =>
    if tag = "!!binary" then none
    else (scalarOf tag source).toOption.map fun value =>
      if value = .null then none else some source
  | _ => none

def IsText (text : Option String) (n : Node) : Prop := n.written? = some text

instance (text : Option String) : DecidablePred (IsText text) := fun n =>
  inferInstanceAs (Decidable (n.written? = some text))

/-- A core tag insists on its kind, but for integers as floats; any other stands for text. -/
theorem scalarOf_cases {tag source : String} {value : Scalar}
    (resolved : scalarOf tag source = .ok value) :
    (tag ∈ Scalar.coreTags ∧ (value.tag = tag ∨ tag = "!!float" ∧ ∃ x, value = .float x)) ∨
    (tag ∉ Scalar.coreTags ∧ ∃ text, value = .text text ∧ (tag ≠ "!!binary" → text = source)) := by
  unfold scalarOf at resolved
  split at resolved
  · next text =>
    cases resolved
    exact .inr ⟨text ▸ by decide, source, rfl, fun _ => rfl⟩
  · unfold Scalar.resolve at resolved
    split at resolved
    · next encoded =>
      subst encoded
      unfold Scalar.ofBinary at resolved
      split at resolved
      · cases resolved
        exact .inr ⟨by decide, _, rfl, fun plain => absurd rfl plain⟩
      · cases resolved
    · split at resolved
      · next core =>
        refine .inl ⟨List.contains_iff_mem.mp core, ?_⟩
        dsimp only at resolved
        split at resolved
        · next same =>
          cases resolved
          exact .inl same
        · split at resolved
          · split at resolved
            · next wide =>
              cases resolved
              simp only [Bool.and_eq_true, decide_eq_true_eq] at wide
              exact .inr ⟨wide.1, _, rfl⟩
            · cases resolved
          · cases resolved
      · next other =>
        cases resolved
        exact .inr ⟨mt List.contains_iff_mem.mpr other, source, rfl, fun _ => rfl⟩

/-- Nulls are told by their tag. -/
theorem scalarOf_null {tag source : String} {value : Scalar}
    (resolved : scalarOf tag source = .ok value) : tag = "!!null" ↔ value = .null := by
  rcases scalarOf_cases resolved with ⟨_, rfl | ⟨rfl, x, rfl⟩⟩ | ⟨other, text, rfl, _⟩
  · cases value <;> simp [Scalar.tag]
  · simp
  · simp only [reduceCtorEq, iff_false]
    rintro rfl
    exact other (by decide)

/-- Text is the text that is written, unless it is encoded. -/
theorem scalarOf_text {tag source text : String} (plain : tag ≠ "!!binary")
    (resolved : scalarOf tag source = .ok (.text text)) : text = source := by
  rcases scalarOf_cases resolved with ⟨core, rfl | ⟨_, x, number⟩⟩ | ⟨_, _, same, written⟩
  · exact absurd core (show "!!str" ∉ Scalar.coreTags by decide)
  · cases number
  · cases same
    exact written plain

namespace IsText

variable {n : Node} {text : Option String}

theorem scalar (written : IsText text n) :
    ∃ tag source line value, n = .scalar tag source line ∧ tag ≠ "!!binary" ∧
      scalarOf tag source = .ok value ∧ text = if value = .null then none else some source := by
  cases n with
  | scalar tag source line =>
    by_cases encoded : tag = "!!binary"
    · simp [IsText, Node.written?, encoded] at written
    · rw [IsText, Node.written?, if_neg encoded, Option.map_eq_some_iff] at written
      obtain ⟨value, given, rfl⟩ := written
      cases resolved : scalarOf tag source with
      | error problem => simp [resolved, Except.toOption] at given
      | ok found =>
        obtain rfl : found = value := by simpa [resolved, Except.toOption] using given
        exact ⟨tag, source, line, found, rfl, encoded, resolved, rfl⟩
  | _ => cases written

theorem read_yields {d : Document} (written : IsText text n) :
    Yields d (ScalarType.text.read n) { value := text } := by
  obtain ⟨tag, source, line, value, rfl, plain, resolved, rfl⟩ := written.scalar
  by_cases null : value = .null
  · subst null
    exact ScalarType.read_null resolved line
  · rw [if_neg null]
    refine ScalarType.read_scalar resolved null ?_ line
    cases value with
    | text t => exact congrArg some (scalarOf_text plain resolved)
    | _ => rfl

theorem value_eq (written : IsText text n) :
    n.kind = .scalar ∧ (if n.isNull then "" else n.value) = text.getD "" := by
  obtain ⟨tag, source, line, value, rfl, _, resolved, rfl⟩ := written.scalar
  refine ⟨rfl, ?_⟩
  by_cases null : value = .null
  · simp [Node.isNull, Node.tag, (scalarOf_null resolved).mpr null, null]
  · have told : tag ≠ "!!null" := mt (scalarOf_null resolved).mp null
    simp [Node.isNull, Node.tag, Node.value, told, null]

end IsText

end Yaml

namespace TypeMap

open Yaml

/-- Types in the order of a file, each with its parent's name where that is not null. -/
abbrev Pairs := List (String × Option String)

def entryOf (type : String × Option String) : TypeEntry := ⟨type.1, type.2.getD ""⟩

def IsItem (type : String × Option String) : Node → Prop
  | .mapping _ [(nameKey, name), (superKey, super)] _ =>
    (IsKey "name" nameKey ∧ IsText (some type.1) name) ∧
      IsKey "super" superKey ∧ IsText type.2 super
  | _ => False

instance (type : String × Option String) : DecidablePred (IsItem type)
  | .mapping _ [(_, _), (_, _)] _ => inferInstanceAs (Decidable ((_ ∧ _) ∧ _ ∧ _))
  | .mapping _ [] _ | .mapping _ [_] _ | .mapping _ (_ :: _ :: _ :: _) _ => isFalse id
  | .scalar .. | .sequence .. | .aliased .. | .cycle .. => isFalse id

def IsTypes (types : Pairs) : Node → Prop
  | .sequence _ items _ => List.Forall₂ IsItem types items
  | _ => False

instance (types : Pairs) : DecidablePred (IsTypes types)
  | .sequence _ items _ => inferInstanceAs (Decidable (List.Forall₂ IsItem types items))
  | .scalar .. | .mapping .. | .aliased .. | .cycle .. => isFalse id

def IsListed (types : Pairs) : Node → Prop
  | .mapping _ [(key, value)] _ => IsKey "types" key ∧ IsTypes types value
  | _ => False

instance (types : Pairs) : DecidablePred (IsListed types)
  | .mapping _ [(_, _)] _ => inferInstanceAs (Decidable (_ ∧ _))
  | .mapping _ [] _ | .mapping _ (_ :: _ :: _) _ => isFalse id
  | .scalar .. | .sequence .. | .aliased .. | .cycle .. => isFalse id

def IsEntry (type : String × Option String) (entry : Node × Node) : Prop :=
  (entry.1.kind = .scalar ∧ entry.1.value = type.1) ∧ IsText type.2 entry.2

instance (type : String × Option String) : DecidablePred (IsEntry type) := fun _ =>
  inferInstanceAs (Decidable ((_ ∧ _) ∧ _))

def IsFlat (types : Pairs) : Node → Prop
  | .mapping _ entries _ => List.Forall₂ IsEntry types entries
  | _ => False

instance (types : Pairs) : DecidablePred (IsFlat types)
  | .mapping _ entries _ => inferInstanceAs (Decidable (List.Forall₂ IsEntry types entries))
  | .scalar .. | .sequence .. | .aliased .. | .cycle .. => isFalse id

/-- The map is the one of these types: a key for each name, once, and under it the type of that
name with the parent that was listed last. -/
structure Holds (types : Pairs) (m : TypeMap) : Prop where
  once : (m.entries.map Prod.fst).Nodup
  keys : ∀ name, name ∈ m.entries.map Prod.fst ↔ name ∈ types.map Prod.fst
  last : ∀ name, m.find? name =
    (types.reverse.lookup name).map fun super => ⟨name, super.getD ""⟩
  named : m.Named

theorem keys_put (key : String) (entry : TypeEntry) (list : List (String × TypeEntry)) :
    (put key entry list).map Prod.fst =
      if key ∈ list.map Prod.fst then list.map Prod.fst else list.map Prod.fst ++ [key] := by
  induction list with
  | nil => rfl
  | cons head rest ih =>
    unfold put
    by_cases same : head.1 = key
    · simp [same]
    · have other : key ≠ head.1 := Ne.symm same
      simp only [same, if_false, List.map_cons, ih, List.mem_cons, other, false_or]
      split <;> rfl

theorem lookup_cons_eq {α : Type} (key : String) (value : α) (rest : List (String × α))
    (name : String) :
    ((key, value) :: rest).lookup name = if name = key then some value else rest.lookup name := by
  rw [List.lookup_cons]
  by_cases same : name = key
  · simp [same]
  · rw [beq_eq_false_iff_ne.mpr same, if_neg same]

theorem lookup_put (key : String) (entry : TypeEntry) (list : List (String × TypeEntry))
    (name : String) :
    (put key entry list).lookup name = if name = key then some entry else list.lookup name := by
  induction list with
  | nil => exact lookup_cons_eq key entry [] name
  | cons head rest ih =>
    obtain ⟨first, value⟩ := head
    unfold put
    by_cases here : first = key
    · subst here
      rw [if_pos rfl, lookup_cons_eq, lookup_cons_eq]
      split <;> rfl
    · rw [if_neg here, lookup_cons_eq, lookup_cons_eq, ih]
      by_cases same : name = first
      · rw [if_pos same, if_pos same, if_neg (same ▸ here)]
      · rw [if_neg same, if_neg same]

/-- One more type, of the same name as another or not. -/
theorem Holds.add {types : Pairs} {m : TypeMap} (holds : Holds types m) (name : String)
    (super : Option String) :
    Holds (types ++ [(name, super)]) (m.add name (super.getD "")) := by
  have keys := keys_put name ⟨name, super.getD ""⟩ m.entries
  constructor
  · rw [TypeMap.add, insert, keys]
    split_ifs with member
    · exact holds.once
    · refine List.nodup_append.mpr ⟨holds.once, by simp, ?_⟩
      rintro old inside new here rfl
      exact member (List.mem_singleton.mp here ▸ inside)
  · intro other
    rw [TypeMap.add, insert, keys, List.map_append, List.mem_append, ← holds.keys]
    split_ifs with member
    · constructor
      · exact .inl
      · rintro (listed | new)
        · exact listed
        · exact (List.mem_singleton.mp new) ▸ member
    · exact List.mem_append
  · intro other
    have found : (m.add name (super.getD "")).find? other = _ := lookup_put _ _ m.entries other
    rw [found, List.reverse_append, List.reverse_singleton, List.singleton_append, lookup_cons_eq]
    by_cases same : other = name
    · simp [same]
    · rw [if_neg same, if_neg same]
      exact holds.last other
  · exact holds.named.add name (super.getD "")

def addAll (m : TypeMap) (types : Pairs) : TypeMap :=
  types.foldl (fun m type => m.add type.1 (type.2.getD "")) m

theorem holds_addAll (types : Pairs) : Holds types (addAll .empty types) := by
  -- From the end, where the last type listed for a name is the last one added.
  induction types using List.reverseRecOn with
  | nil => exact ⟨List.nodup_nil, fun _ => .rfl, fun _ => rfl, named_empty⟩
  | append_singleton rest type ih =>
    rw [addAll, List.foldl_concat]
    exact ih.add type.1 type.2

theorem ofTypes_eq {types : Pairs} (named : ∀ type ∈ types, type.1 ≠ "") (m : TypeMap) :
    ofTypes m (types.map entryOf) = .ok (m.addAll types) := by
  induction types generalizing m with
  | nil => rfl
  | cons type rest ih =>
    have first : (entryOf type).name ≠ "" := named type List.mem_cons_self
    rw [List.map_cons, ofTypes, if_neg first]
    exact ih (fun other member => named other (List.mem_cons_of_mem type member)) _

theorem ofEntries_eq {types : Pairs} {entries : List (Node × Node)}
    (written : List.Forall₂ IsEntry types entries) (m : TypeMap) :
    ofEntries m entries = .ok (m.addAll types) := by
  induction written generalizing m with
  | nil => rfl
  | @cons type entry types entries head _ ih =>
    obtain ⟨⟨scalar, name⟩, written⟩ := head
    obtain ⟨scalar', super⟩ := written.value_eq
    rw [ofEntries, if_pos ⟨scalar, scalar'⟩, name, super]
    exact ih _

/-- No type of a flat mapping makes it a list, whatever it is called. -/
theorem isList_flat {types : Pairs} {entries : List (Node × Node)}
    (written : List.Forall₂ IsEntry types entries) : isList entries = false := by
  refine List.any_eq_false.mpr fun entry member => ?_
  obtain ⟨type, _, _, value⟩ := Outcome.forall₂_mem written member
  simp [value.value_eq.1]

theorem ofDocument_flat {types : Pairs} {d : Document} (flat : IsFlat types d.root) :
    ofDocument d = .ok (addAll .empty types) := by
  obtain ⟨root, cycles, extent⟩ := d
  cases root with
  | mapping tag entries line =>
    simp only [ofDocument, isList_flat flat, Bool.false_eq_true, if_false]
    exact ofEntries_eq flat .empty
  | _ => cases flat

def withField (t : TypeEntry) (part : String × Option String) : TypeEntry :=
  if part.1 = "name" then part.2.elim t fun name => { t with name }
  else part.2.elim t fun super => { t with super }

/-- The fields of one type of a list, name and parent, make its entry. -/
theorem item_yields {d : Document} {type : String × Option String} {n : Node}
    (item : IsItem type n) :
    Yields d (entryType.read ⟨"", ""⟩ n) (.found (entryOf type)) := by
  unfold IsItem at item
  split at item
  · next tag nameKey name superKey super line =>
    obtain ⟨⟨key, named⟩, key', parent⟩ := item
    have written : List.Forall₂ (fun part entry => IsKey part.1 entry.1 ∧ IsText part.2 entry.2)
        [("name", some type.1), ("super", type.2)] [(nameKey, name), (superKey, super)] :=
      .cons ⟨key, named⟩ (.cons ⟨key', parent⟩ .nil)
    have fields : ∀ part ∈ [("name", some type.1), ("super", type.2)],
        ∃ field, entryType.fields.lookup part.1 = some field ∧ ∀ n record,
          IsText part.2 n → Yields d (field n record) (withField record part, []) := by
      intro part member
      simp only [List.mem_cons, List.not_mem_nil, or_false] at member
      rcases member with rfl | rfl
      · exact ⟨_, rfl, fun n t given => .bind given.read_yields (.pure _)⟩
      · exact ⟨_, rfl, fun n t given => .bind given.read_yields (.pure _)⟩
    -- A null leaves the empty text that the record starts with.
    have record : [("name", some type.1), ("super", type.2)].foldl withField ⟨"", ""⟩ =
        entryOf type := by
      obtain ⟨name, super⟩ := type
      cases super <;> rfl
    rw [← record]
    exact RecordType.read_yields written fields (by simp) _ tag line
  · cases item

theorem IsTypes.kind {types : Pairs} {n : Node} (written : IsTypes types n) :
    n.kind = .sequence := by
  cases n with
  | sequence => rfl
  | _ => cases written

theorem types_yield {d : Document} {types : Pairs} {n : Node} (written : IsTypes types n) :
    Yields d (readList "[]symbols.Type" (entryType.read ⟨"", ""⟩) n)
      (.found (types.map entryOf)) := by
  cases n with
  | sequence tag items line =>
    have items' : List.Forall₂ IsItem types items := written
    refine readList_yields ?_
    exact List.forall₂_map_right_iff.mpr (items'.imp fun _ _ => item_yields).flip
  | _ => cases written

theorem list_yields {d : Document} {types : Pairs} {tag : String} {key value : Node} {line : Nat}
    (named : IsKey "types" key) (written : IsTypes types value) :
    Yields d (listType.read [] (.mapping tag [(key, value)] line))
      (.found (types.map entryOf)) := by
  have parts : List.Forall₂ (fun part entry => IsKey part.1 entry.1 ∧ IsTypes part.2 entry.2)
      [("types", types)] [(key, value)] :=
    .cons ⟨named, written⟩ .nil
  have fields : ∀ part ∈ [("types", types)],
      ∃ field, listType.fields.lookup part.1 = some field ∧ ∀ n (record : List TypeEntry),
        IsTypes part.2 n → Yields d (field n record) (part.2.map entryOf, []) := by
    intro part member
    obtain rfl := List.mem_singleton.mp member
    exact ⟨_, rfl, fun n record given => .bind (types_yield given) (.pure _)⟩
  exact RecordType.read_yields parts fields (by simp) [] tag line

theorem ofDocument_listed {types : Pairs} (named : ∀ type ∈ types, type.1 ≠ "") {d : Document}
    (listed : IsListed types d.root) : ofDocument d = .ok (addAll .empty types) := by
  obtain ⟨root, cycles, extent⟩ := d
  dsimp only at listed
  unfold IsListed at listed
  split at listed
  · next tag key value line =>
    obtain ⟨⟨line', rfl⟩, written⟩ := listed
    have sequence : isList [(.scalar "!!str" "types" line', value)] = true := by
      simp [isList, Node.value, written.kind]
    simp only [ofDocument, sequence, if_true]
    rw [(list_yields ⟨line', rfl⟩ written).run []]
    exact ofTypes_eq named .empty
  · cases listed

def textNode : Option String → Node
  | some text => .scalar "!!str" text 1
  | none => .scalar "!!null" "null" 1

theorem isText_textNode (text : Option String) : IsText text (textNode text) := by
  cases text with
  | none => decide
  | some text => simp [IsText, textNode, Node.written?, scalarOf, Except.toOption]

def listNode (types : Pairs) : Node :=
  .mapping "!!map" [(textNode (some "types"), .sequence "!!seq" (types.map item) 1)] 1
where
  item (type : String × Option String) : Node :=
    .mapping "!!map" [(textNode (some "name"), textNode (some type.1)),
      (textNode (some "super"), textNode type.2)] 1

def flatNode (types : Pairs) : Node :=
  .mapping "!!map" (types.map fun type => (textNode (some type.1), textNode type.2)) 1

theorem isListed_listNode (types : Pairs) : IsListed types (listNode types) := by
  refine ⟨⟨1, rfl⟩, ?_⟩
  refine List.forall₂_map_right_iff.mpr (List.forall₂_same.mpr fun type _ => ?_)
  exact ⟨⟨⟨1, rfl⟩, isText_textNode (some type.1)⟩, ⟨1, rfl⟩, isText_textNode type.2⟩

theorem isFlat_flatNode (types : Pairs) : IsFlat types (flatNode types) := by
  refine List.forall₂_map_right_iff.mpr (List.forall₂_same.mpr fun type _ => ?_)
  exact ⟨⟨rfl, rfl⟩, isText_textNode type.2⟩

/-- Types with names make one map, in whichever of the two shapes they are written, and all can
be written in both. The map has a key for each name, once, and under it the type of that name
with the parent that was listed last. -/
theorem shapes_make_one_map {types : Pairs} (named : ∀ type ∈ types, type.1 ≠ "") :
    IsListed types (listNode types) ∧ IsFlat types (flatNode types) ∧
    ∃ m, Holds types m ∧ ∀ d : Document, IsListed types d.root ∨ IsFlat types d.root →
      ofDocument d = .ok m ∧ ∀ bytes, readDocument bytes = .ok (some d) → parse bytes = .ok m := by
  refine ⟨isListed_listNode types, isFlat_flatNode types, addAll .empty types,
    holds_addAll types, ?_⟩
  intro d shape
  have made : ofDocument d = .ok (addAll .empty types) :=
    shape.elim (ofDocument_listed named) ofDocument_flat
  refine ⟨made, fun bytes read => ?_⟩
  rw [parse, read]
  exact made

/-- The shape of a file is found by reading it. -/
theorem exists_document {bytes : List UInt8} {shape : Node → Prop} [DecidablePred shape]
    (shaped : ((readDocument bytes).toOption.join.any fun d => shape d.root) = true) :
    ∃ d, readDocument bytes = .ok (some d) ∧ shape d.root := by
  cases read : readDocument bytes with
  | error e => simp [read, Except.toOption] at shaped
  | ok found =>
    cases found with
    | none => simp [read, Except.toOption] at shaped
    | some d => exact ⟨d, rfl, by simpa [read, Except.toOption] using shaped⟩

/-- A list with a name in two places and a type that is called as the key of lists is. -/
def pawnList : List UInt8 := Text.toBytes
  "types:\n- name: Pawn\n  super: Actor\n- name: types\n  super:\n- name: Pawn\n  super: 7\n"

def pawnMapping : List UInt8 := Text.toBytes "Pawn: Actor\ntypes: ~\nPawn: '7'\n"

theorem shapes_make_one_map_repeated :
    ∃ m, parse pawnList = .ok m ∧ parse pawnMapping = .ok m ∧
      (∀ name, name ∈ m.entries.map Prod.fst ↔ name ∈ ["Pawn", "types", "Pawn"]) ∧
      m.find? "Pawn" = some ⟨"Pawn", "7"⟩ ∧ m.find? "types" = some ⟨"types", ""⟩ := by
  let types : Pairs := [("Pawn", some "Actor"), ("types", none), ("Pawn", some "7")]
  obtain ⟨_, _, m, holds, made⟩ := @shapes_make_one_map types (by decide)
  obtain ⟨d, read, listed⟩ := @exists_document pawnList (IsListed types) _ (by decide +kernel)
  obtain ⟨d', read', flat⟩ := @exists_document pawnMapping (IsFlat types) _ (by decide +kernel)
  exact ⟨m, (made d (.inl listed)).2 _ read, (made d' (.inr flat)).2 _ read', holds.keys,
    holds.last "Pawn", holds.last "types"⟩

end TypeMap

end ScriptListing
