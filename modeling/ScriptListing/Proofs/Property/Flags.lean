import ScriptListing.Proofs.Number.Numeral
import ScriptListing.Proofs.Outcome
import ScriptListing.Proofs.Text.Blank
import ScriptListing.Property.Flags

/-! Lists of flag names. Whatever separates the names and stands around them, a list is read
as the union of its names and never as a number; one part that is no name spoils it. -/
namespace ScriptListing.Flags

inductive Joined : List Char → List (List Char) → Prop where
  | last {part : List Char} (plain : ∀ c ∈ part, isSeparator c = false) : Joined part [part]
  | more {part text : List Char} {parts : List (List Char)} {separator : Char}
      (plain : ∀ c ∈ part, isSeparator c = false) (separates : isSeparator separator = true)
      (rest : Joined text parts) : Joined (part ++ separator :: text) (part :: parts)

def Identifier : List Char → Prop
  | [] => False
  | c :: rest => (c.isAlpha = true ∨ c = '_') ∧ ∀ d ∈ rest, d.isAlphanum = true ∨ d = '_'

/-- What is left of a part without the white space around it and without the mark, which is
taken off once. -/
inductive Strips : (part name : List Char) → Prop where
  | plain {before name after : List Char} (left : ∀ c ∈ before, Text.isBlank c)
      (right : ∀ c ∈ after, Text.isBlank c) (trimmed : Text.Trimmed name)
      (unmarked : ¬ "CPF_".toList <+: name) : Strips (before ++ name ++ after) name
  | marked {before name after : List Char} (left : ∀ c ∈ before, Text.isBlank c)
      (right : ∀ c ∈ after, Text.isBlank c) (trimmed : Text.Trimmed ("CPF_".toList ++ name)) :
      Strips (before ++ ("CPF_".toList ++ name) ++ after) name

/-- The name that a part of a list gives, empty for a blank part. `None` is a name without a
bit. -/
inductive Gives : (part name : List Char) → Prop where
  | name {part name : List Char} (strips : Strips part name) (proper : Identifier name) :
      Gives part name
  | nothing {part : List Char} (blank : ∀ c ∈ part, Text.isBlank c) : Gives part []

def unionOf (names : List (List Char)) : Flags := (names.map ofName).foldr union none

def isKnown (name : List Char) : Bool := (named.lookup (String.ofList name)).isSome

def isMalformed (name : List Char) : Bool := !name.isEmpty && !isIdentifier name

section Bits

variable {names names' : List (List Char)}

theorem none_union (flags : Flags) : none.union flags = flags := by
  simp [none, union]

theorem union_none (flags : Flags) : flags.union none = flags := by
  simp [none, union]

theorem union_assoc (a b c : Flags) : (a.union b).union c = a.union (b.union c) := by
  simp [union, UInt64.or_assoc]

theorem unionOf_append (names names' : List (List Char)) :
    unionOf (names ++ names') = (unionOf names).union (unionOf names') := by
  induction names with
  | nil => exact (none_union _).symm
  | cons name rest ih =>
    calc unionOf (name :: rest ++ names') = (ofName name).union (unionOf (rest ++ names')) := rfl
      _ = ((ofName name).union (unionOf rest)).union (unionOf names') := by rw [ih, union_assoc]

theorem bit_unionOf (names : List (List Char)) (i : Nat) :
    (unionOf names).bits.toBitVec.getLsbD i = true ↔
      ∃ name ∈ names, (ofName name).bits.toBitVec.getLsbD i = true := by
  induction names with
  | nil => simp [unionOf, none]
  | cons name rest ih =>
    have split : (unionOf (name :: rest)).bits = (ofName name).bits ||| (unionOf rest).bits := rfl
    rw [split, UInt64.toBitVec_or, BitVec.getLsbD_or, Bool.or_eq_true, ih]
    simp

theorem ofName_unknown {name : List Char} (unknown : isKnown name = false) :
    ofName name = none := by
  unfold ofName
  rw [isKnown, Option.isSome_eq_false_iff, Option.isNone_iff_eq_none] at unknown
  rw [unknown, Option.getD_none]

/-- Only which of the known names occur counts. -/
theorem unionOf_congr
    (same : ∀ name, isKnown name → (name ∈ names ↔ name ∈ names')) :
    unionOf names = unionOf names' := by
  have bit (name : List Char) (i : Nat) (set : (ofName name).bits.toBitVec.getLsbD i = true) :
      isKnown name := by
    by_contra unknown
    rw [ofName_unknown (Bool.not_eq_true _ ▸ unknown)] at set
    simp [none] at set
  have bits : (unionOf names).bits = (unionOf names').bits := by
    apply UInt64.toBitVec_inj.mp
    apply BitVec.eq_of_getLsbD_eq
    intro i _
    rw [Bool.eq_iff_iff, bit_unionOf, bit_unionOf]
    constructor
    · rintro ⟨name, member, set⟩
      exact ⟨name, (same name (bit name i set)).mp member, set⟩
    · rintro ⟨name, member, set⟩
      exact ⟨name, (same name (bit name i set)).mpr member, set⟩
  exact congrArg Flags.mk bits

end Bits

section Parts

variable {text text' : List Char} {parts parts' : List (List Char)}

theorem isSeparator_of_isBlank {c : Char} (blank : Text.isBlank c) : isSeparator c = false := by
  by_contra separates
  simp only [isSeparator, Bool.not_eq_false, Bool.or_eq_true, beq_iff_eq] at separates
  rcases separates with rfl | rfl <;> revert blank <;> decide

theorem Joined.splitOnP (joined : Joined text parts) : text.splitOnP isSeparator = parts := by
  induction joined with
  | last plain => exact List.splitOnP_eq_singleton plain
  | more plain separates _ ih =>
    rw [List.splitOnP_append_cons_of_forall_mem plain _ separates, ih]

theorem exists_joined (text : List Char) : ∃ parts, Joined text parts := by
  induction text with
  | nil => exact ⟨[[]], .last (by simp)⟩
  | cons c rest ih =>
    obtain ⟨parts, joined⟩ := ih
    by_cases separates : isSeparator c = true
    · exact ⟨[] :: parts, @Joined.more [] rest parts c (by simp) separates joined⟩
    · have lead {part : List Char} (plain : ∀ d ∈ part, isSeparator d = false) :
          ∀ d ∈ c :: part, isSeparator d = false := by
        intro d member
        rcases List.mem_cons.mp member with rfl | later
        · simpa using separates
        · exact plain d later
      cases joined with
      | last plain => exact ⟨_, .last (lead plain)⟩
      | more plain separates joined => exact ⟨_, .more (lead plain) separates joined⟩

theorem joined_iff : Joined text parts ↔ text.splitOnP isSeparator = parts := by
  refine ⟨Joined.splitOnP, ?_⟩
  rintro rfl
  obtain ⟨parts, joined⟩ := exists_joined text
  rwa [joined.splitOnP]

instance : Decidable (Joined text parts) := decidable_of_iff _ joined_iff.symm

theorem Joined.append {separator : Char} (joined : Joined text parts)
    (separates : isSeparator separator = true) (joined' : Joined text' parts') :
    Joined (text ++ separator :: text') (parts ++ parts') := by
  induction joined with
  | last plain => exact .more plain separates joined'
  | more plain separates' _ ih =>
    rw [List.append_assoc, List.cons_append]
    exact .more plain separates' ih

theorem Joined.separated (joined : Joined text parts) (several : 2 ≤ parts.length) :
    ∃ c ∈ text, isSeparator c = true := by
  cases joined with
  | last plain => simp at several
  | more plain separates joined => exact ⟨_, by simp, separates⟩

theorem partName_around {before after : List Char} (part : List Char)
    (left : ∀ c ∈ before, Text.isBlank c) (right : ∀ c ∈ after, Text.isBlank c) :
    partName (before ++ part ++ after) = partName part := by
  simp only [partName, Text.trimBlanks_around part left right]

/-- White space around a list is white space around its first and its last part. -/
theorem Joined.around {before after : List Char} (joined : Joined text parts)
    (left : ∀ c ∈ before, Text.isBlank c) (right : ∀ c ∈ after, Text.isBlank c) :
    ∃ parts', Joined (before ++ text ++ after) parts' ∧
      parts'.map partName = parts.map partName := by
  have blank {padding : List Char} (blank : ∀ c ∈ padding, Text.isBlank c) :
      ∀ c ∈ padding, isSeparator c = false :=
    fun c member => isSeparator_of_isBlank (blank c member)
  -- Only the first part takes the white space in front; what follows it has none there.
  induction joined generalizing before with
  | @last part plain =>
    refine ⟨[before ++ part ++ after], .last ?_, ?_⟩
    case refine_2 => rw [List.map_singleton, partName_around part left right, List.map_singleton]
    intro c member
    rcases List.mem_append.mp member with early | late
    · exact (List.mem_append.mp early).elim (blank left c) (plain c)
    · exact blank right c late
  | @more part text parts separator plain separates _ ih =>
    obtain ⟨parts', joined', same⟩ := @ih [] (by simp)
    refine ⟨(before ++ part) :: parts', ?_, ?_⟩
    · have whole : before ++ (part ++ separator :: text) ++ after =
          (before ++ part) ++ separator :: ([] ++ text ++ after) := by simp
      rw [whole]
      refine .more (fun c member => ?_) separates joined'
      exact (List.mem_append.mp member).elim (blank left c) (plain c)
    · have first := @partName_around before [] part left (by simp)
      rw [List.append_nil] at first
      rw [List.map_cons, List.map_cons, first, same]

/-- Trimming a text changes the name of no part. -/
theorem names_trimBlanks (joined : Joined text parts) :
    ((Text.trimBlanks text).splitOnP isSeparator).map partName = parts.map partName := by
  obtain ⟨before, after, left, right, whole⟩ := Text.exists_padding text
  obtain ⟨inner, trimmed⟩ := exists_joined (Text.trimBlanks text)
  obtain ⟨outer, padded, same⟩ := trimmed.around left right
  rw [whole] at padded
  rw [trimmed.splitOnP, ← same, ← padded.splitOnP, joined.splitOnP]

end Parts

section Lists

variable {source part name : List Char} {parts names : List (List Char)}

theorem ofName_none : ofName ['N', 'o', 'n', 'e'] = none := by decide

theorem ofName_nil : ofName [] = none := by decide

/-- A part adds the bits of its name or is the error. What is passed over has no bit. -/
theorem ofParts_cons (flags : Flags) (part : List Char) (rest : List (List Char)) :
    ofParts flags (part :: rest) =
      if isMalformed (partName part) then .error (partName part)
      else ofParts (flags.union (ofName (partName part))) rest := by
  rw [ofParts]
  by_cases empty : partName part = []
  · simp [empty, isMalformed, ofName_nil, union_none]
  by_cases word : partName part = ['N', 'o', 'n', 'e']
  · rw [word, ofName_none, union_none]
    rfl
  by_cases proper : isIdentifier (partName part) = true
  · simp [empty, word, proper, isMalformed]
  · simp [empty, word, proper, isMalformed]

/-- A list of parts is the union of their names, unless one of them is malformed. -/
theorem ofParts_eq (flags : Flags) (parts : List (List Char)) :
    ofParts flags parts =
      match (parts.map partName).find? isMalformed with
      | some name => .error name
      | .none => .ok (flags.union (unionOf (parts.map partName))) := by
  induction parts generalizing flags with
  | nil => simp [ofParts, unionOf, union_none]
  | cons part rest ih =>
    rw [ofParts_cons, List.map_cons]
    by_cases malformed : isMalformed (partName part) = true
    · rw [if_pos malformed, List.find?_cons_of_pos malformed]
    · rw [if_neg malformed, List.find?_cons_of_neg malformed, ih, union_assoc]
      rfl

theorem isNameStart_iff {c : Char} : isNameStart c = true ↔ c.isAlpha = true ∨ c = '_' := by
  have letters : c.isAlpha = (decide ('A' ≤ c ∧ c ≤ 'Z') || ('a' ≤ c && c ≤ 'z')) := rfl
  simp only [isNameStart, letters, Bool.or_eq_true, Bool.and_eq_true, beq_iff_eq,
    decide_eq_true_eq, Char.le_def]
  grind

theorem isDigit_of_isNameStart {c : Char} (start : isNameStart c = true) :
    Number.Decimal.isDigit c = false := by
  have bounds : c.toNat = 95 ∨ (97 ≤ c.toNat ∧ c.toNat ≤ 122) ∨
      (65 ≤ c.toNat ∧ c.toNat ≤ 90) := by
    simp only [isNameStart, Bool.or_eq_true, Bool.and_eq_true, beq_iff_eq, decide_eq_true_eq,
      Char.le_def, UInt32.le_iff_toNat_le] at start
    rcases start with (rfl | lower) | upper
    · exact .inl rfl
    · exact .inr (.inl lower)
    · exact .inr (.inr upper)
  simp only [Number.Decimal.isDigit, Bool.and_eq_false_iff, decide_eq_false_iff_not]
  omega

theorem isIdentifier_iff : isIdentifier name = true ↔ Identifier name := by
  have inner (c : Char) : (isNameStart c || ('0' ≤ c && c ≤ '9')) = true ↔
      c.isAlphanum = true ∨ c = '_' := by
    rw [Bool.or_eq_true, isNameStart_iff, Char.isAlphanum, Bool.or_eq_true, Char.isDigit]
    simp only [Bool.and_eq_true, decide_eq_true_eq, Char.le_def]
    grind
  cases name with
  | nil => simp [isIdentifier, Identifier]
  | cons c rest =>
    simp only [isIdentifier, Identifier, Bool.and_eq_true, isNameStart_iff, List.all_eq_true, inner]

theorem isMalformed_iff : isMalformed name = true ↔ name ≠ [] ∧ ¬ Identifier name := by
  rw [isMalformed, Bool.and_eq_true, Bool.not_eq_true', Bool.not_eq_true', ← isIdentifier_iff,
    Bool.not_eq_true, List.isEmpty_eq_false_iff]

/-- What is left of a part is what its name is. -/
theorem strips_iff : Strips part name ↔ partName part = name := by
  constructor
  · intro strips
    unfold partName
    dsimp only
    cases strips with
    | plain left right trimmed unmarked =>
      rw [Text.trimBlanks_padded trimmed left right, Text.after?,
        if_neg (by simpa using unmarked), Option.getD_none]
    | marked left right trimmed =>
      rw [Text.trimBlanks_padded trimmed left right, Text.after?, if_pos (by simp)]
      simp
  · rintro rfl
    obtain ⟨before, after, left, right, whole⟩ := Text.exists_padding part
    have trimmed := Text.trimmed_trimBlanks part
    unfold partName
    dsimp only
    generalize Text.trimBlanks part = word at whole trimmed
    rw [← whole, Text.after?]
    by_cases mark : "CPF_".toList <+: word
    · obtain ⟨rest, rfl⟩ := mark
      rw [if_pos (by simp)]
      simpa using Strips.marked left right trimmed
    · rw [if_neg (by simpa using mark), Option.getD_none]
      exact .plain left right trimmed mark

instance : DecidablePred Identifier := fun _ => decidable_of_iff _ isIdentifier_iff

instance : Decidable (Strips part name) := decidable_of_iff _ strips_iff.symm

theorem gives_iff : Gives part name ↔
    Strips part name ∧ Identifier name ∨ part.all Text.isBlank = true ∧ name = [] := by
  rw [List.all_eq_true]
  constructor
  · rintro (⟨strips, proper⟩ | blank)
    · exact .inl ⟨strips, proper⟩
    · exact .inr ⟨blank, rfl⟩
  · rintro (⟨strips, proper⟩ | ⟨blank, rfl⟩)
    · exact .name strips proper
    · exact .nothing blank

instance : DecidableRel Gives := fun _ _ => decidable_of_iff _ gives_iff.symm

theorem Gives.partName_eq (gives : Gives part name) : partName part = name := by
  cases gives with
  | name strips proper => exact strips_iff.mp strips
  | nothing blank =>
    have empty := @partName_around part [] [] blank (by simp)
    rwa [List.append_nil, List.append_nil] at empty

theorem Gives.proper (gives : Gives part name) : isMalformed name = false := by
  by_contra malformed
  obtain ⟨filled, improper⟩ := isMalformed_iff.mp (by simpa using malformed)
  cases gives with
  | name _ proper => exact improper proper
  | nothing _ => exact filled rfl

/-- A name starts with no digit, nor does the mark, so neither is taken for a number. -/
theorem Gives.unread (gives : Gives part name) :
    Number.natural? (Text.trimBlanks part) = .none := by
  cases gives with
  | name strips proper =>
    cases strips with
    | plain left right trimmed unmarked =>
      rw [Text.trimBlanks_padded trimmed left right]
      cases name with
      | nil => exact absurd proper id
      | cons c rest =>
        exact Number.natural?_unstarted (isDigit_of_isNameStart (isNameStart_iff.mpr proper.1)) rest
    | marked left right trimmed =>
      rw [Text.trimBlanks_padded trimmed left right]
      exact Number.natural?_unstarted rfl _
  | nothing blank =>
    rw [Text.trimBlanks_eq_nil_iff.mpr blank]
    rfl

/-- A separator keeps a text from being a number. -/
theorem Joined.unread (joined : Joined source parts) (several : 2 ≤ parts.length) :
    Number.natural? (Text.trimBlanks source) = .none := by
  obtain ⟨c, member, separates⟩ := joined.separated several
  have visible : Text.isBlank c = false := by
    by_contra blank
    rw [isSeparator_of_isBlank (by simpa using blank)] at separates
    cases separates
  have kept := Text.mem_trimBlanks member visible
  simp only [isSeparator, Bool.or_eq_true, beq_iff_eq] at separates
  rcases separates with rfl | rfl
  · exact Number.natural?_foreign (by decide) rfl kept
  · exact Number.natural?_foreign (by decide) rfl kept

theorem unread_of_gives (joined : Joined source parts) (gives : List.Forall₂ Gives parts names) :
    Number.natural? (Text.trimBlanks source) = .none := by
  cases joined with
  | last plain =>
    cases gives with
    | cons gives _ => exact gives.unread
  | more plain separates rest =>
    refine (Joined.more plain separates rest).unread ?_
    cases rest <;> simp

end Lists

/-- A text that is no number is read part by part. -/
theorem parse_eq {source : String} {parts : List (List Char)} (joined : Joined source.toList parts)
    (unread : Number.natural? (Text.trimBlanks source.toList) = .none) :
    parse source =
      match (parts.map partName).find? isMalformed with
      | some name => .error (String.ofList name)
      | .none => .ok (unionOf (parts.map partName)) := by
  have names := names_trimBlanks joined
  have listed := ofParts_eq none ((Text.trimBlanks source.toList).splitOnP isSeparator)
  rw [names, none_union] at listed
  have read : parse source =
      (ofParts none ((Text.trimBlanks source.toList).splitOnP isSeparator)).mapError
        String.ofList := by
    unfold parse
    dsimp only
    split_ifs with empty
    · rw [List.isEmpty_iff.mp empty]
      rfl
    · rw [Number.unsigned64?, unread]
      rfl
  rw [read, listed]
  cases (parts.map partName).find? isMalformed with
  | none => rfl
  | some name => rfl

theorem parse_listed {source : String} {parts names : List (List Char)}
    (joined : Joined source.toList parts) (gives : List.Forall₂ Gives parts names) :
    parse source = .ok (unionOf names) := by
  have read : parts.map partName = names := by
    rw [← List.forall₂_eq_eq_eq, List.forall₂_map_left_iff]
    exact gives.imp fun _ _ given => given.partName_eq
  have proper : names.find? isMalformed = .none := by
    rw [List.find?_eq_none]
    intro name member
    obtain ⟨part, _, given⟩ := Outcome.forall₂_mem gives member
    simp [given.proper]
  rw [parse_eq joined (unread_of_gives joined gives), read, proper]

theorem parse_malformed {source : String} {parts : List (List Char)} {part name : List Char}
    (joined : Joined source.toList parts) (several : 2 ≤ parts.length) (member : part ∈ parts)
    (strips : Strips part name) (filled : name ≠ []) (improper : ¬ Identifier name) :
    ∃ part' ∈ parts, ∃ name', Strips part' name' ∧ name' ≠ [] ∧ ¬ Identifier name' ∧
      parse source = .error (String.ofList name') := by
  have spoiled : ((parts.map partName).find? isMalformed).isSome := by
    rw [List.find?_isSome]
    refine ⟨partName part, List.mem_map_of_mem member, isMalformed_iff.mpr ?_⟩
    rw [strips_iff.mp strips]
    exact ⟨filled, improper⟩
  obtain ⟨reported, first⟩ := Option.isSome_iff_exists.mp spoiled
  obtain ⟨part', member', same⟩ := List.mem_map.mp (List.mem_of_find?_eq_some first)
  obtain ⟨filled', improper'⟩ := isMalformed_iff.mp (List.find?_some first)
  refine ⟨part', member', reported, strips_iff.mpr same, filled', improper', ?_⟩
  rw [parse_eq joined (joined.unread several), first]

/-- White space around a text does not count. -/
theorem parse_around {before after : String} (source : String)
    (left : ∀ c ∈ before.toList, Text.isBlank c) (right : ∀ c ∈ after.toList, Text.isBlank c) :
    parse (before ++ source ++ after) = parse source := by
  simp only [parse, String.toList_append, Text.trimBlanks_around source.toList left right]

/-- Lists of names are unions. A list is read as the bits of its known names, whatever stands
between and around them; so only which known names occur counts, and two lists joined to one
give the union of both. With a part that is no name a list of several parts is refused, and
such a part is reported. -/
theorem lists_are_unions :
    (∀ (source before after : String) (parts names : List (List Char)),
      Joined source.toList parts → List.Forall₂ Gives parts names →
      (∀ c ∈ before.toList, Text.isBlank c) → (∀ c ∈ after.toList, Text.isBlank c) →
      parse (before ++ source ++ after) = .ok (unionOf names)) ∧
    (∀ (source source' : String) (parts parts' names names' : List (List Char)),
      Joined source.toList parts → List.Forall₂ Gives parts names →
      Joined source'.toList parts' → List.Forall₂ Gives parts' names' →
      (∀ name, isKnown name → (name ∈ names ↔ name ∈ names')) →
      parse source = parse source') ∧
    (∀ (source source' : String) (parts parts' names names' : List (List Char)),
      Joined source.toList parts → List.Forall₂ Gives parts names →
      Joined source'.toList parts' → List.Forall₂ Gives parts' names' →
      ∃ flags flags', parse source = .ok flags ∧ parse source' = .ok flags' ∧
        parse (source ++ "|" ++ source') = .ok (flags.union flags')) ∧
    ∀ (source before after : String) (parts : List (List Char)) (part name : List Char),
      Joined source.toList parts → 2 ≤ parts.length →
      (∀ c ∈ before.toList, Text.isBlank c) → (∀ c ∈ after.toList, Text.isBlank c) →
      part ∈ parts → Strips part name → name ≠ [] → ¬ Identifier name →
      ∃ part' ∈ parts, ∃ name', Strips part' name' ∧ name' ≠ [] ∧ ¬ Identifier name' ∧
        parse (before ++ source ++ after) = .error (String.ofList name') := by
  refine ⟨?_, ?_, ?_, ?_⟩
  · intro source before after parts names joined gives left right
    rw [parse_around source left right, parse_listed joined gives]
  · intro source source' parts parts' names names' joined gives joined' gives' same
    rw [parse_listed joined gives, parse_listed joined' gives', unionOf_congr same]
  · intro source source' parts parts' names names' joined gives joined' gives'
    refine ⟨_, _, parse_listed joined gives, parse_listed joined' gives', ?_⟩
    have both : Joined (source ++ "|" ++ source').toList (parts ++ parts') := by
      have whole := joined.append (show isSeparator '|' = true from rfl) joined'
      simpa using whole
    rw [parse_listed both (List.rel_append gives gives'), unionOf_append]
  · intro source before after parts part name joined several left right member strips filled improper
    rw [parse_around source left right]
    exact parse_malformed joined several member strips filled improper

theorem lists_are_unions_mixed :
    parse (" " ++ "CPF_Parm |,None, OutParm" ++ "\n") = .ok ⟨0x180⟩ ∧
      parse "CPF_Parm |,None, OutParm" = parse "OutParm,Parm|Later|Parm" ∧
      (∃ flags flags', parse "Parm" = .ok flags ∧ parse "_1" = .ok flags' ∧
        parse ("Parm" ++ "|" ++ "_1") = .ok (flags.union flags')) ∧
      ∃ part ∈ ["Parm".toList, " Out Parm".toList], ∃ name, Strips part name ∧ name ≠ [] ∧
        ¬ Identifier name ∧ parse ("" ++ "Parm| Out Parm" ++ "") = .error (String.ofList name) := by
  obtain ⟨listed, same, joined, refused⟩ := lists_are_unions
  refine ⟨?_, ?_, ?_, ?_⟩
  · exact listed "CPF_Parm |,None, OutParm" " " "\n"
      ["CPF_Parm ".toList, [], "None".toList, " OutParm".toList]
      ["Parm".toList, [], "None".toList, "OutParm".toList] (by decide) (by decide)
      (List.all_eq_true.mp rfl) (List.all_eq_true.mp rfl)
  · apply same "CPF_Parm |,None, OutParm" "OutParm,Parm|Later|Parm"
      ["CPF_Parm ".toList, [], "None".toList, " OutParm".toList]
      ["OutParm".toList, "Parm".toList, "Later".toList, "Parm".toList]
      ["Parm".toList, [], "None".toList, "OutParm".toList]
      ["OutParm".toList, "Parm".toList, "Later".toList, "Parm".toList] (by decide) (by decide)
      (by decide) (by decide)
    intro name known
    simp only [List.mem_cons, List.not_mem_nil, or_false]
    constructor
    · rintro (rfl | rfl | rfl | rfl) <;> revert known <;> decide
    · rintro (rfl | rfl | rfl | rfl) <;> revert known <;> decide
  · exact joined "Parm" "_1" ["Parm".toList] ["_1".toList] ["Parm".toList] ["_1".toList]
      (by decide) (by decide) (by decide) (by decide)
  · exact refused "Parm| Out Parm" "" "" ["Parm".toList, " Out Parm".toList] " Out Parm".toList
      "Out Parm".toList (by decide) (by decide) (by simp) (by simp) (by decide) (by decide)
      (by decide) (by decide)

end ScriptListing.Flags
