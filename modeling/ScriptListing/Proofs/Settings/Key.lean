import ScriptListing.Archive
import ScriptListing.Proofs.Outcome
import ScriptListing.Proofs.Text.Blank
import ScriptListing.Proofs.Text.Hexadecimal
import ScriptListing.Settings

/-! Keys and their texts. The text of a key is sixty-four hexadecimal digits behind a mark, and
exactly these texts are read; the case of a digit is all that two texts of one key differ in. -/
namespace ScriptListing.Settings

open Text

def IsHexDigit (c : Char) : Prop :=
  ('0' ≤ c ∧ c ≤ '9') ∨ ('a' ≤ c ∧ c ≤ 'f') ∨ ('A' ≤ c ∧ c ≤ 'F')

structure KeyText (text digits : List Char) : Prop where
  marked : text = '0' :: 'x' :: digits ∨ text = '0' :: 'X' :: digits
  length : digits.length = 64
  hexadecimal : ∀ c ∈ digits, IsHexDigit c

def hexText (bytes : List UInt8) : List Char := bytes.flatMap fun b => (lowerHex b.toNat 2).toList

section Digits

variable {c : Char} {bytes key : List UInt8} {digits : List Char}

theorem isHexDigit_iff : IsHexDigit c ↔ ∃ value, hexValue? c = some value := by
  simp only [IsHexDigit, hexValue?, Char.le_def, UInt32.le_iff_toNat_le, Char.toNat_val,
    Bool.and_eq_true, decide_eq_true_eq]
  change (48 ≤ c.toNat ∧ c.toNat ≤ 57) ∨ (97 ≤ c.toNat ∧ c.toNat ≤ 102) ∨
    (65 ≤ c.toNat ∧ c.toNat ≤ 70) ↔ _
  split_ifs with digit upper lower
  · exact ⟨fun _ => ⟨_, rfl⟩, fun _ => .inl digit⟩
  · exact ⟨fun _ => ⟨_, rfl⟩, fun _ => .inr (.inr upper)⟩
  · exact ⟨fun _ => ⟨_, rfl⟩, fun _ => .inr (.inl lower)⟩
  · simp [digit, upper, lower]

theorem IsHexDigit.bounds (digit : IsHexDigit c) : 0x20 < c.toNat ∧ c.toNat < 0x80 := by
  obtain ⟨value, found⟩ := isHexDigit_iff.mp digit
  simp only [hexValue?, Bool.and_eq_true, decide_eq_true_eq] at found
  split_ifs at found <;> omega

theorem hexText_cons (b : UInt8) (bytes : List UInt8) :
    hexText (b :: bytes) =
      lowerDigit (b.toNat / 16) :: lowerDigit (b.toNat % 16) :: hexText bytes := by
  have high : b.toNat / 16 % 16 = b.toNat / 16 := by
    have := b.toNat_lt
    omega
  simp [hexText, lowerHex, fixedHex, high]

theorem length_hexText (bytes : List UInt8) : (hexText bytes).length = 2 * bytes.length := by
  induction bytes with
  | nil => rfl
  | cons b rest ih =>
    rw [hexText_cons, List.length_cons, List.length_cons, ih, List.length_cons]
    omega

def letter (b : UInt8) : Char := Char.ofNat b.toNat

theorem cons_cons_eq_hexText {high low : Char} {rest : List Char} :
    high.toLower :: low.toLower :: rest = hexText key ↔
      ∃ b bytes, key = b :: bytes ∧ hexValue? high = some (b.toNat / 16) ∧
        hexValue? low = some (b.toNat % 16) ∧ rest = hexText bytes := by
  have halves (b : UInt8) : b.toNat / 16 < 16 ∧ b.toNat % 16 < 16 := by
    have := b.toNat_lt
    omega
  constructor
  · intro same
    cases key with
    | nil => cases same
    | cons b bytes =>
      rw [hexText_cons, List.cons.injEq, List.cons.injEq] at same
      refine ⟨b, bytes, rfl, ?_, ?_, same.2.2⟩
      · exact hexValue?_eq_some.mpr ⟨(halves b).1, same.1⟩
      · exact hexValue?_eq_some.mpr ⟨(halves b).2, same.2.1⟩
  · rintro ⟨b, bytes, rfl, first, second, rfl⟩
    rw [hexText_cons, (hexValue?_eq_some.mp first).2, (hexValue?_eq_some.mp second).2]

theorem hexValue?_halves {high low : Char} {h l : Nat} (first : hexValue? high = some h)
    (second : hexValue? low = some l) :
    hexValue? high = some ((UInt8.ofNat (16 * h + l)).toNat / 16) ∧
      hexValue? low = some ((UInt8.ofNat (16 * h + l)).toNat % 16) := by
  have left := (hexValue?_eq_some.mp first).1
  have right := (hexValue?_eq_some.mp second).1
  have value : (UInt8.ofNat (16 * h + l)).toNat = 16 * h + l := by
    rw [UInt8.toNat_ofNat']
    omega
  rw [value]
  exact ⟨first.trans (congrArg some (by omega)), second.trans (congrArg some (by omega))⟩

/-- Pairs of digits are read as the bytes that have them, in either case. -/
theorem hexBytes_eq_ok (even : bytes.length % 2 = 0) :
    hexBytes bytes = .ok key ↔ bytes.map (fun b => (letter b).toLower) = hexText key := by
  fun_induction hexBytes bytes generalizing key with
  | case1 high low rest none =>
    rw [List.map_cons, List.map_cons, cons_cons_eq_hexText]
    refine ⟨nofun, ?_⟩
    rintro ⟨b, bytes, _, first, _⟩
    cases none.symm.trans first
  | case2 high low rest none =>
    rw [List.map_cons, List.map_cons, cons_cons_eq_hexText]
    refine ⟨nofun, ?_⟩
    rintro ⟨b, bytes, _, _, second, _⟩
    cases none.symm.trans second
  | case3 high low rest h l second first ih =>
    rw [List.map_cons, List.map_cons, cons_cons_eq_hexText, Outcome.map_eq_ok]
    have rest' : rest.length % 2 = 0 := by
      rw [List.length_cons, List.length_cons] at even
      omega
    constructor
    · rintro ⟨bytes, read, rfl⟩
      obtain ⟨first', second'⟩ := hexValue?_halves first second
      exact ⟨_, bytes, rfl, first', second', (ih rest').mp read⟩
    · rintro ⟨b, bytes, rfl, first', second', same⟩
      refine ⟨bytes, (ih rest').mpr same, ?_⟩
      have high' : h = b.toNat / 16 := Option.some.inj (first.symm.trans first')
      have low' : l = b.toNat % 16 := Option.some.inj (second.symm.trans second')
      have whole : 16 * h + l = b.toNat := by omega
      rw [whole, UInt8.ofNat_toNat]
  | case4 bytes short =>
    -- A single byte at the end would make the length odd.
    have empty : bytes = [] := by
      match bytes with
      | [] => rfl
      | [b] => cases even
      | high :: low :: rest => exact absurd rfl (short high low rest)
    subst empty
    cases key with
    | nil => simp [hexText]
    | cons b bytes => simp [hexText_cons]

theorem charBytes_narrow (narrow : c.toNat < 128) : charBytes c = [UInt8.ofNat c.toNat] := by
  have own : byteKept? c = none := if_neg (by omega)
  have small : c.val.toNat ≤ 127 := Nat.le_of_lt_succ narrow
  rw [charBytes, own]
  dsimp only [encoded, String.utf8EncodeChar]
  rw [if_pos small, Char.toNat_val]

/-- A character above ASCII has a byte above ASCII. -/
theorem charBytes_wide (wide : 128 ≤ c.toNat) : ∃ b ∈ charBytes c, 128 ≤ b.toNat := by
  unfold charBytes byteKept?
  split_ifs with kept
  · have top : c.toNat < 0x110000 := by
      rcases c.valid with low | high
      · exact Nat.lt_trans low (by decide)
      · exact high.2
    refine ⟨_, List.mem_singleton.mpr rfl, ?_⟩
    rw [UInt8.toNat_ofNat']
    omega
  · dsimp only [encoded, String.utf8EncodeChar]
    rw [Char.toNat_val, if_neg (by omega)]
    split_ifs
    all_goals
      refine ⟨_, List.mem_cons_self, ?_⟩
      rw [UInt8.toNat_ofNat']
      omega

theorem toBytes_digits (hexadecimal : ∀ c ∈ digits, IsHexDigit c) :
    toBytes (String.ofList digits) = digits.map fun c => UInt8.ofNat c.toNat := by
  rw [toBytes, String.toList_ofList]
  induction digits with
  | nil => rfl
  | cons c rest ih =>
    have narrow := (hexadecimal c List.mem_cons_self).bounds.2
    rw [List.flatMap_cons, charBytes_narrow narrow, List.map_cons, List.singleton_append,
      ih fun d member => hexadecimal d (List.mem_cons_of_mem c member)]

theorem letter_ofNat (narrow : c.toNat < 128) : letter (UInt8.ofNat c.toNat) = c := by
  rw [letter, UInt8.toNat_ofNat', Nat.mod_eq_of_lt (by omega), Char.ofNat_toNat]

theorem toNat_letter (b : UInt8) : (letter b).toNat = b.toNat := by
  have valid : b.toNat.isValidChar := .inl (Nat.lt_trans b.toNat_lt (by decide))
  rw [letter, Char.ofNat, dif_pos valid]
  rfl

theorem isHexDigit_of_toLower (listed : c.toLower ∈ hexText key) : IsHexDigit c := by
  obtain ⟨b, _, inside⟩ := List.mem_flatMap.mp listed
  rw [lowerHex, String.toList_ofList] at inside
  obtain ⟨value, small, lower⟩ := mem_fixedHex inside
  exact isHexDigit_iff.mpr ⟨value, hexValue?_eq_some.mpr ⟨small, lower⟩⟩

theorem isHexDigit_of_map (same : digits.map Char.toLower = hexText key) :
    ∀ c ∈ digits, IsHexDigit c :=
  fun _ member => isHexDigit_of_toLower (same ▸ List.mem_map_of_mem member)

theorem isHexDigit_of_toBytes (same : (toBytes (String.ofList digits)).map
    (fun b => (letter b).toLower) = hexText key) : ∀ c ∈ digits, IsHexDigit c := by
  have digit (b : UInt8) (member : b ∈ toBytes (String.ofList digits)) : IsHexDigit (letter b) :=
    isHexDigit_of_toLower (same ▸ List.mem_map_of_mem member)
  intro c member
  have bytes {b : UInt8} (inside : b ∈ charBytes c) : b ∈ toBytes (String.ofList digits) := by
    rw [toBytes, String.toList_ofList]
    exact List.mem_flatMap.mpr ⟨c, member, inside⟩
  by_cases narrow : c.toNat < 128
  · have own := digit (UInt8.ofNat c.toNat) (bytes (by simp [charBytes_narrow narrow]))
    rwa [letter_ofNat narrow] at own
  · obtain ⟨b, inside, wide⟩ := charBytes_wide (Nat.le_of_not_lt narrow)
    have low := (digit b (bytes inside)).bounds.2
    rw [toNat_letter] at low
    omega

end Digits

theorem keyDigits?_eq_some {source : List Char} {bytes : List UInt8} :
    keyDigits? source = some bytes ↔ ∃ digits, toBytes (String.ofList digits) = bytes ∧
      (trimBlanks source = '0' :: 'x' :: digits ∨ trimBlanks source = '0' :: 'X' :: digits) := by
  unfold keyDigits?
  constructor
  · intro found
    split at found
    · next mark digits shape =>
      split_ifs at found with marked
      refine ⟨digits, Option.some.inj found, ?_⟩
      rw [shape]
      simpa using marked
    · cases found
  · rintro ⟨digits, rfl, lower | upper⟩
    · rw [lower]
      rfl
    · rw [upper]
      rfl

/-- Exactly the texts of keys are read, each as the key that has its digits. -/
theorem parseKey_eq_ok {source : String} {key : List UInt8} :
    parseKey source = .ok key ↔
      ∃ digits, KeyText (trimBlanks source.toList) digits ∧
        digits.map Char.toLower = hexText key := by
  have lowered {digits : List Char} (hexadecimal : ∀ c ∈ digits, IsHexDigit c) :
      (toBytes (String.ofList digits)).map (fun b => (letter b).toLower) =
        digits.map Char.toLower := by
    rw [toBytes_digits hexadecimal, List.map_map]
    refine List.map_congr_left fun c member => ?_
    exact congrArg Char.toLower (letter_ofNat (hexadecimal c member).bounds.2)
  constructor
  · intro read
    unfold parseKey at read
    split at read
    · cases read
    · next bytes found =>
      split_ifs at read with length
      case neg => cases read
      obtain ⟨digits, rfl, marked⟩ := keyDigits?_eq_some.mp found
      have same := (hexBytes_eq_ok (by rw [length]; rfl)).mp (Outcome.mapError_eq_ok.mp read)
      have hexadecimal := isHexDigit_of_toBytes same
      rw [lowered hexadecimal] at same
      rw [toBytes_digits hexadecimal, List.length_map] at length
      exact ⟨digits, ⟨marked, length, hexadecimal⟩, same⟩
  · rintro ⟨digits, ⟨marked, length, hexadecimal⟩, same⟩
    have long : (toBytes (String.ofList digits)).length = 2 * Cipher.keySize := by
      rw [toBytes_digits hexadecimal, List.length_map, length]
      rfl
    unfold parseKey
    rw [keyDigits?_eq_some.mpr ⟨digits, rfl, marked⟩]
    dsimp only
    rw [if_pos long]
    apply Outcome.mapError_eq_ok.mpr
    apply (hexBytes_eq_ok (by rw [long]; rfl)).mpr
    rw [lowered hexadecimal, same]

theorem hexText_injective {key key' : List UInt8} (same : hexText key = hexText key') :
    key = key' := by
  induction key generalizing key' with
  | nil =>
    cases key' with
    | nil => rfl
    | cons b rest => cases (hexText_cons b rest) ▸ same
  | cons b rest ih =>
    cases key' with
    | nil => cases (hexText_cons b rest) ▸ same
    | cons b' rest' =>
      rw [hexText_cons, hexText_cons, List.cons.injEq, List.cons.injEq] at same
      obtain ⟨first, second, others⟩ := same
      have bound := b.toNat_lt
      have bound' := b'.toNat_lt
      have high := lowerDigit_injective (by omega) (by omega) first
      have low := lowerDigit_injective (by omega) (by omega) second
      have byte : b = b' := UInt8.toNat_inj.mp (by omega)
      rw [byte, ih others]

theorem exists_hexText : {digits : List Char} → (∀ c ∈ digits, IsHexDigit c) →
    digits.length % 2 = 0 → ∃ key, digits.map Char.toLower = hexText key
  | [], _, _ => ⟨[], rfl⟩
  | [_], _, odd => absurd odd (by simp)
  | high :: low :: rest, hexadecimal, even => by
    obtain ⟨h, first⟩ := isHexDigit_iff.mp (hexadecimal high (by simp))
    obtain ⟨l, second⟩ := isHexDigit_iff.mp (hexadecimal low (by simp))
    have shorter : rest.length % 2 = 0 := by
      rw [List.length_cons, List.length_cons] at even
      omega
    obtain ⟨bytes, same⟩ :=
      exists_hexText (fun c member => hexadecimal c (by simp [member])) shorter
    obtain ⟨first', second'⟩ := hexValue?_halves first second
    exact ⟨_, cons_cons_eq_hexText.mpr ⟨_, bytes, rfl, first', second', same⟩⟩

theorem length_of_parseKey {source : String} {key : List UInt8} (read : parseKey source = .ok key) :
    key.length = Cipher.keySize := by
  obtain ⟨digits, text, same⟩ := parseKey_eq_ok.mp read
  have lengths := congrArg List.length same
  rw [List.length_map, text.length, length_hexText] at lengths
  rw [Cipher.keySize]
  omega

theorem parseKey_error {source : String} {f : Failure} (refused : parseKey source = .error f) :
    ∃ invalid, f = .of (.badKey invalid) := by
  unfold parseKey at refused
  split at refused
  · exact ⟨none, (Except.error.inj refused).symm⟩
  · split_ifs at refused
    · cases read : hexBytes _ with
      | ok key =>
        rw [read] at refused
        cases refused
      | error b =>
        rw [read] at refused
        exact ⟨some b, (Except.error.inj refused).symm⟩
    · exact ⟨none, (Except.error.inj refused).symm⟩

/-- Settings with an archive and a key are refused only for the number of workers. -/
theorem validate_of_key {s : Settings} {key : List UInt8} (placed : s.archive ≠ "")
    (read : parseKey s.key = .ok key) :
    s.validate = if s.workers < 1 then fail (.workers s.workers) else .ok key := by
  have keyed : s.key ≠ "" := by
    intro empty
    rw [empty] at read
    cases read
  unfold validate
  rw [if_neg placed, if_neg keyed, read]
  split_ifs with idle
  · rfl
  · rfl

theorem parseKey_of_validate {s : Settings} {key : List UInt8} (valid : s.validate = .ok key) :
    parseKey s.key = .ok key := by
  have steps := valid
  unfold validate at steps
  by_cases unplaced : s.archive = ""
  · rw [if_pos unplaced] at steps
    cases steps
  by_cases unkeyed : s.key = ""
  · rw [if_neg unplaced, if_pos unkeyed] at steps
    cases steps
  rw [if_neg unplaced, if_neg unkeyed] at steps
  obtain ⟨found, read, _⟩ := Outcome.bind_eq_ok.mp steps
  rw [validate_of_key unplaced read] at valid
  split_ifs at valid
  · cases valid
  · rwa [Except.ok.inj valid] at read

/-- An archive is not refused for a key of the right length. -/
theorem openAt_sized {t : FileTree} {directory : String} {key : List UInt8} {f : Failure}
    (sized : key.length = Cipher.keySize) (refused : Archive.openAt t directory key = .error f)
    (bytes : Nat) : f.cause ≠ .keyLength bytes := by
  unfold Archive.openAt inside at refused
  cases found : t.stat directory with
  | error e =>
    rw [found] at refused
    cases refused
    exact nofun
  | ok entry =>
    rw [found] at refused
    cases entry with
    | file content =>
      cases refused
      exact nofun
    | directory =>
      dsimp only at refused
      rw [if_neg (not_not_intro sized)] at refused
      cases refused

theorem KeyText.trimmed {text digits : List Char} (key : KeyText text digits) : Trimmed text := by
  apply trimmed_of_visible
  intro c member
  have digit (inside : c ∈ digits) : isBlank c = false := by
    obtain ⟨low, high⟩ := (key.hexadecimal c inside).bounds
    exact isBlank_ascii low high
  rcases key.marked with rfl | rfl
  · rcases List.mem_cons.mp member with rfl | rest
    · rfl
    · exact (List.mem_cons.mp rest).elim (fun mark => mark ▸ rfl) digit
  · rcases List.mem_cons.mp member with rfl | rest
    · rfl
    · exact (List.mem_cons.mp rest).elim (fun mark => mark ▸ rfl) digit

theorem KeyText.digits_eq {text digits : List Char} (key : KeyText text digits) :
    digits = text.drop 2 := by
  rcases key.marked with rfl | rfl
  · rfl
  · rfl

/-- The digits that a key was read from are its own. -/
theorem digits_of_parseKey {source : String} {key : List UInt8} {digits : List Char}
    (read : parseKey source = .ok key) (text : KeyText (trimBlanks source.toList) digits) :
    digits.map Char.toLower = hexText key := by
  obtain ⟨found, text', same⟩ := parseKey_eq_ok.mp read
  rwa [text.digits_eq, ← text'.digits_eq]

/-- Keys are read from their texts and from nothing else. A text is read where it is the mark and
sixty-four digits, whatever white space is around; it is read as the key with these digits in
whatever case, so two texts give one key where their digits agree but for the case. Every
refusal is one of the key's form, and the key of valid settings opens an archive as far as its
length goes. -/
theorem keys_are_read_from_digits :
    (∀ source, (∃ key, parseKey source = .ok key) ↔
      ∃ digits, KeyText (trimBlanks source.toList) digits) ∧
    (∀ (key : List UInt8) (digits : List Char) (before after : String), key.length = 32 →
      digits.map Char.toLower = hexText key →
      (∀ c ∈ before.toList, isBlank c) → (∀ c ∈ after.toList, isBlank c) →
      parseKey (before ++ ("0x" ++ String.ofList digits) ++ after) = .ok key) ∧
    (∀ (source source' : String) (key key' : List UInt8) (digits digits' : List Char),
      parseKey source = .ok key → KeyText (trimBlanks source.toList) digits →
      parseKey source' = .ok key' → KeyText (trimBlanks source'.toList) digits' →
      (key = key' ↔ digits.map Char.toLower = digits'.map Char.toLower)) ∧
    (∀ (source : String) (f : Failure), parseKey source = .error f →
      ∃ invalid, f = .of (.badKey invalid)) ∧
    ∀ (s : Settings) (key : List UInt8), s.validate = .ok key →
      parseKey s.key = .ok key ∧ ∀ (t : FileTree) (directory : String) (f : Failure),
        Archive.openAt t directory key = .error f → ∀ bytes, f.cause ≠ .keyLength bytes := by
  refine ⟨?_, ?_, ?_, fun source f => parseKey_error, ?_⟩
  · intro source
    constructor
    · rintro ⟨key, read⟩
      obtain ⟨digits, text, _⟩ := parseKey_eq_ok.mp read
      exact ⟨digits, text⟩
    · rintro ⟨digits, text⟩
      obtain ⟨key, same⟩ := exists_hexText text.hexadecimal (by rw [text.length])
      exact ⟨key, parseKey_eq_ok.mpr ⟨digits, text, same⟩⟩
  · intro key digits before after sized same left right
    have text : KeyText ('0' :: 'x' :: digits) digits := by
      refine ⟨.inl rfl, ?_, isHexDigit_of_map same⟩
      have lengths := congrArg List.length same
      rw [List.length_map, length_hexText, sized] at lengths
      exact lengths
    have spelled : (before ++ ("0x" ++ String.ofList digits) ++ after).toList =
        before.toList ++ '0' :: 'x' :: digits ++ after.toList := by simp
    refine parseKey_eq_ok.mpr ⟨digits, ?_, same⟩
    rw [spelled, trimBlanks_padded text.trimmed left right]
    exact text
  · intro source source' key key' digits digits' read text read' text'
    rw [digits_of_parseKey read text, digits_of_parseKey read' text']
    exact ⟨congrArg hexText, hexText_injective⟩
  · intro s key valid
    have read := parseKey_of_validate valid
    exact ⟨read, fun t directory f refused => openAt_sized (length_of_parseKey read) refused⟩

def sampleKey : List UInt8 := List.replicate 32 0xAB

def sampleSettings (digits : List Char) : Settings where
  archive := "a"
  key := " " ++ ("0x" ++ String.ofList digits) ++ "\n"
  workers := 1

theorem keys_are_read_from_digits_padded :
    let digits := (List.replicate 32 ['a', 'B']).flatten
    let digits' := (List.replicate 32 ['A', 'b']).flatten
    (sampleSettings digits).validate = .ok sampleKey ∧
      (sampleKey = sampleKey ↔ digits.map Char.toLower = digits'.map Char.toLower) ∧
      (∃ f invalid, parseKey "0x12" = .error f ∧ f = .of (.badKey invalid)) ∧
      ∃ f, Archive.openAt {} "gone" sampleKey = .error f ∧
        ∀ bytes, f.cause ≠ .keyLength bytes := by
  intro digits digits'
  obtain ⟨_, inverse, same, refusal, opened⟩ := keys_are_read_from_digits
  have read {digits : List Char} (own : digits.map Char.toLower = hexText sampleKey) :
      parseKey (sampleSettings digits).key = .ok sampleKey :=
    inverse sampleKey digits " " "\n" (by decide) own (List.all_eq_true.mp rfl)
      (List.all_eq_true.mp rfl)
  have own : digits.map Char.toLower = hexText sampleKey := by decide +kernel
  have own' : digits'.map Char.toLower = hexText sampleKey := by decide +kernel
  have valid : (sampleSettings digits).validate = .ok sampleKey := by
    rw [validate_of_key (by decide) (read own)]
    rfl
  refine ⟨valid, ?_, ?_, ?_⟩
  · exact same _ _ _ _ digits digits' (read own)
      ⟨by decide +kernel, by decide +kernel, isHexDigit_of_map own⟩ (read own')
      ⟨by decide +kernel, by decide +kernel, isHexDigit_of_map own'⟩
  · obtain ⟨invalid, cause⟩ := refusal "0x12" _ rfl
    exact ⟨_, invalid, rfl, cause⟩
  · exact ⟨_, rfl, (opened _ _ valid).2 {} "gone" _ rfl⟩

end ScriptListing.Settings
