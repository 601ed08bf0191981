import ScriptListing.Proofs.CommandLine.NameList

/-! How a command line gives flags their values. A flag is read in whatever way it is spelled,
and a value for objects may stand before or after any other flag; so objects that are given one
by one are those given in one value. -/
namespace ScriptListing.CommandLine

/-- The ways to give a flag a value: after an equals sign or as the next argument. A switch
takes no next argument, and may be given alone. -/
inductive Spells (f : Flag) : (arguments : List String) → (value : Option String) → Prop where
  | joined {dashes : String} (dashed : dashes ∈ ["-", "--"]) (value : String) :
      Spells f [dashes ++ f.name ++ "=" ++ value] (some value)
  | apart {dashes : String} {put : String → Request → Except String Request}
      (dashed : dashes ∈ ["-", "--"]) (taking : f.taking = .value put) (value : String) :
      Spells f [dashes ++ f.name, value] (some value)
  | alone {dashes : String} {put : Bool → Request → Request}
      (dashed : dashes ∈ ["-", "--"]) (taking : f.taking = .switch put) :
      Spells f [dashes ++ f.name] none

/-- Flags one after the other: some that give values for objects, and others. -/
inductive Spread : (arguments values others : List String) → Prop where
  | nil : Spread [] [] []
  | object {f : Flag} {given arguments values others : List String} {value : String}
      (known : f ∈ flags) (named : f.name = "obj") (spells : Spells f given (some value))
      (spread : Spread arguments values others) :
      Spread (given ++ arguments) (value :: values) others
  | other {f : Flag} {given arguments values others : List String} {value : Option String}
      (known : f ∈ flags) (named : f.name ≠ "obj") (spells : Spells f given value)
      (spread : Spread arguments values others) :
      Spread (given ++ arguments) values (given ++ others)

def Flag.take (f : Flag) (value : Option String) (r : Request) : Except Refusal Request :=
  match f.taking, value with
  | .switch put, value => f.turn put value r
  | .value put, some value => f.give put value r
  | .value _, none => .error (.wrong ("flag needs an argument: -" ++ f.name))

def Request.mapObjects (change : List String → List String) (r : Request) : Request :=
  { r with settings.objects := change r.settings.objects }

/-- A flag leaves the objects alone and does not look at them. -/
def Flag.KeepsObjects (f : Flag) : Prop :=
  ∀ (change : List String → List String) (value : Option String) (r : Request),
    f.take value (r.mapObjects change) = (f.take value r).map (Request.mapObjects change)

section Spelling

variable {f : Flag} {dashes : String} {c : Char} {rest : List Char}

/-- A name starts with no dash and has no equals sign. -/
theorem name_of_mem_flags (known : f ∈ flags) :
    ∃ c rest, f.name.toList = c :: rest ∧ c ≠ '-' ∧ '=' ∉ c :: rest := by
  have proper : ∀ f ∈ flags,
      f.name.toList ≠ [] ∧ f.name.toList.head? ≠ some '-' ∧ '=' ∉ f.name.toList := by
    decide
  obtain ⟨filled, start, plain⟩ := proper f known
  obtain ⟨c, rest, chars⟩ := List.exists_cons_of_ne_nil filled
  rw [chars] at start plain
  exact ⟨c, rest, chars, by simpa using start, plain⟩

theorem find_of_mem_flags (known : f ∈ flags) : flags.find? (·.name == f.name) = some f := by
  simp only [flags, List.mem_cons, List.not_mem_nil, or_false] at known
  rcases known with rfl | rfl | rfl | rfl | rfl | rfl | rfl | rfl
  all_goals rfl

/-- A name ends at the first equals sign, and the value is what follows it. -/
theorem Argument.ofBody_named (start : c ≠ '-') (plain : '=' ∉ c :: rest) {tail : List Char}
    (stops : ∀ d, tail.head? = some d → d = '=') :
    ofBody (c :: rest ++ tail) =
      .flag (String.ofList (c :: rest)) (tail.tail?.map String.ofList) := by
  have first : ¬ (c == '-' || c == '=') = true := by
    simp only [List.mem_cons, not_or] at plain
    simp [start, Ne.symm plain.1]
  have inner : ∀ d ∈ rest, (d != '=') = true := by
    intro d member
    simpa using fun equal : d = '=' => plain (equal ▸ List.mem_cons_of_mem c member)
  rw [List.cons_append, ofBody, if_neg first, List.takeWhile_append_of_pos inner,
    List.dropWhile_append_of_pos inner]
  cases tail with
  | nil => simp
  | cons d value =>
    obtain rfl := stops d rfl
    simp

theorem Argument.of_dashed (dashed : dashes ∈ ["-", "--"]) (start : c ≠ '-') (rest : List Char) :
    Argument.of (dashes ++ String.ofList (c :: rest)) = .ofBody (c :: rest) := by
  simp only [List.mem_cons, List.not_mem_nil, or_false] at dashed
  rcases dashed with rfl | rfl
  · have chars : ("-" ++ String.ofList (c :: rest)).toList = '-' :: c :: rest := by simp
    rw [Argument.of, chars]
    simp [start]
  · have chars : ("--" ++ String.ofList (c :: rest)).toList = '-' :: '-' :: c :: rest := by simp
    rw [Argument.of, chars]
    simp

theorem Argument.of_named (known : f ∈ flags) (dashed : dashes ∈ ["-", "--"]) {tail : List Char}
    (stops : ∀ d, tail.head? = some d → d = '=') :
    Argument.of (dashes ++ f.name ++ String.ofList tail) =
      .flag f.name (tail.tail?.map String.ofList) := by
  obtain ⟨c, rest, chars, start, plain⟩ := name_of_mem_flags known
  have name : f.name = String.ofList (c :: rest) := by rw [← chars, String.ofList_toList]
  rw [name, String.append_assoc, ← String.ofList_append, List.cons_append,
    of_dashed dashed start, ← List.cons_append, ofBody_named start plain stops]

theorem Argument.of_alone (known : f ∈ flags) (dashed : dashes ∈ ["-", "--"]) :
    Argument.of (dashes ++ f.name) = .flag f.name none := by
  simpa using @of_named f dashes known dashed [] (by simp)

theorem Argument.of_joined (known : f ∈ flags) (dashed : dashes ∈ ["-", "--"]) (value : String) :
    Argument.of (dashes ++ f.name ++ "=" ++ value) = .flag f.name (some value) := by
  have whole : dashes ++ f.name ++ "=" ++ value =
      dashes ++ f.name ++ String.ofList ('=' :: value.toList) := by
    apply String.toList_inj.mp
    simp
  rw [whole, of_named known dashed (by simp)]
  simp

/-- However a flag is spelled, reading takes it and goes on after it. -/
theorem readArguments_spelled {given : List String} {value : Option String} (known : f ∈ flags)
    (spells : Spells f given value) (r : Request) (rest : List String) :
    readArguments r (given ++ rest) = (f.take value r >>= fun r => readArguments r rest) := by
  cases spells with
  | joined dashed value =>
    rw [List.singleton_append, readArguments, Argument.of_joined known dashed]
    simp only [find_of_mem_flags known, Flag.take]
    cases f.taking <;> rfl
  | apart dashed taking value =>
    rw [List.cons_append, List.singleton_append, readArguments, Argument.of_alone known dashed]
    simp only [find_of_mem_flags known, Flag.take, taking]
  | alone dashed taking =>
    rw [List.singleton_append, readArguments, Argument.of_alone known dashed]
    simp only [find_of_mem_flags known, Flag.take, taking]

end Spelling

section Order

variable {f : Flag} {name placeholder description : String}

theorem keepsObjects_text {put : String → Request → Request}
    (apart : ∀ change text r,
      put text (r.mapObjects change) = (put text r).mapObjects change) :
    (textFlag name description put).KeepsObjects := by
  intro change value r
  cases value with
  | none => rfl
  | some text => exact congrArg Except.ok (apart change text r)

theorem keepsObjects_integer {put : Int → Request → Request}
    (apart : ∀ change n r, put n (r.mapObjects change) = (put n r).mapObjects change) :
    Flag.KeepsObjects ⟨name, placeholder, description, .value (putInteger put)⟩ := by
  intro change value r
  cases value with
  | none => rfl
  | some word =>
    simp only [Flag.take, Flag.give, putInteger]
    cases Number.integer64? word.toList with
    | none => rfl
    | some n => exact congrArg Except.ok (apart change n r)

theorem keepsObjects_switch {put : Bool → Request → Request}
    (apart : ∀ change b r, put b (r.mapObjects change) = (put b r).mapObjects change) :
    Flag.KeepsObjects ⟨name, placeholder, description, .switch put⟩ := by
  intro change value r
  cases value with
  | none => exact congrArg Except.ok (apart change true r)
  | some word =>
    simp only [Flag.take, Flag.turn]
    cases truth? word with
    | none => rfl
    | some b => exact congrArg Except.ok (apart change b r)

theorem keepsObjects_of_mem_flags (known : f ∈ flags) (named : f.name ≠ "obj") :
    f.KeepsObjects := by
  simp only [flags, List.mem_cons, List.not_mem_nil, or_false] at known
  rcases known with rfl | rfl | rfl | rfl | rfl | rfl | rfl | rfl
  · exact keepsObjects_text (by intros; rfl)
  · exact keepsObjects_text (by intros; rfl)
  · exact keepsObjects_text (by intros; rfl)
  · exact keepsObjects_integer (by intros; rfl)
  · exact keepsObjects_text (by intros; rfl)
  · exact keepsObjects_text (by intros; rfl)
  · exact absurd rfl named
  · exact keepsObjects_switch (by intros; rfl)

theorem take_object (known : f ∈ flags) (named : f.name = "obj") (value : Option String)
    (r : Request) :
    f.take value r =
      match value with
      | some text => .ok (r.mapObjects (addToList · text))
      | none => .error (.wrong ("flag needs an argument: -" ++ f.name)) := by
  have own : flags.find? (·.name == "obj") = some f := named ▸ find_of_mem_flags known
  cases own
  cases value <;> rfl

/-- The values for objects may all be given before the other flags. -/
theorem readArguments_spread {arguments values others : List String}
    (spread : Spread arguments values others) (r : Request) (rest : List String) :
    readArguments r (arguments ++ rest) =
      readArguments (r.mapObjects (values.foldl addToList ·)) (others ++ rest) := by
  -- The values that come later are put in front of a flag that does not look at the objects.
  induction spread generalizing r with
  | nil => rfl
  | object known named spells _ ih =>
    rw [List.append_assoc, readArguments_spelled known spells, take_object known named]
    exact ih _
  | other known named spells _ ih =>
    rw [List.append_assoc, List.append_assoc, readArguments_spelled known spells,
      readArguments_spelled known spells, keepsObjects_of_mem_flags known named]
    cases Flag.take _ _ r with
    | error refusal => rfl
    | ok r => exact ih r

end Order

section Front

variable (front : List String)

/-- A flag keeps the objects that are there in front of what it adds. -/
theorem take_front {f : Flag} (known : f ∈ flags) (value : Option String) (r : Request) :
    f.take value (r.mapObjects (front ++ ·)) =
      (f.take value r).map (Request.mapObjects (front ++ ·)) := by
  by_cases named : f.name = "obj"
  · rw [take_object known named, take_object known named]
    cases value with
    | none => rfl
    | some text => simp [Request.mapObjects, addToList, Except.map]
  · exact keepsObjects_of_mem_flags known named _ value r

theorem take_front_bind {f : Flag} {rest : List String} (known : f ∈ flags)
    (later : ∀ r, readArguments (r.mapObjects (front ++ ·)) rest =
      (readArguments r rest).map (Request.mapObjects (front ++ ·)))
    (value : Option String) (r : Request) :
    (f.take value (r.mapObjects (front ++ ·)) >>= fun r => readArguments r rest) =
      (f.take value r >>= fun r => readArguments r rest).map
        (Request.mapObjects (front ++ ·)) := by
  rw [take_front front known]
  cases f.take value r with
  | error refusal => rfl
  | ok r => exact later r

/-- Objects that are there before all arguments stay in front of those that are read. -/
theorem readArguments_front (r : Request) (arguments : List String) :
    readArguments (r.mapObjects (front ++ ·)) arguments =
      (readArguments r arguments).map (Request.mapObjects (front ++ ·)) := by
  -- Operands go behind the objects that are there, and so do the values of every flag.
  fun_induction readArguments r arguments with
  | case1 r => rfl
  | case2 r argument rest positional =>
    rw [readArguments, positional]
    simp [Request.mapObjects, Except.map]
  | case3 r argument rest ended =>
    rw [readArguments, ended]
    simp [Request.mapObjects, Except.map]
  | case4 r argument rest malformed =>
    rw [readArguments, malformed]
    rfl
  | case5 r argument rest name value given unknown =>
    rw [readArguments, given]
    simp only [unknown]
    rfl
  | case6 r argument name f found put value rest taking given later =>
    have step := take_front_bind front (List.mem_of_find?_eq_some found) later value r
    rw [readArguments, given]
    simpa only [found, taking, Flag.take] using step
  | case7 r argument name f found put value rest taking given later =>
    have step := take_front_bind front (List.mem_of_find?_eq_some found) later (some value) r
    rw [readArguments, given]
    simpa only [found, taking, Flag.take] using step
  | case8 r argument name f found put value rest taking given later =>
    have step := take_front_bind front (List.mem_of_find?_eq_some found) later (some value) r
    rw [readArguments, given]
    simpa only [found, taking, Flag.take] using step
  | case9 r argument name f found put taking given =>
    rw [readArguments, given]
    simp only [found, taking]
    rfl

/-- The values for objects come in front of all objects that follow. -/
theorem parse_spread {arguments values others : List String}
    (spread : Spread arguments values others) (rest : List String) :
    parse (arguments ++ rest) =
      (parse (others ++ rest)).map (Request.mapObjects (values.foldl addToList [] ++ ·)) :=
  calc parse (arguments ++ rest)
    _ = readArguments (Request.mapObjects (values.foldl addToList ·) {}) (others ++ rest) :=
      readArguments_spread spread {} rest
    _ = readArguments (Request.mapObjects (values.foldl addToList [] ++ ·) {}) (others ++ rest) := by
      simp only [Request.mapObjects, List.append_nil]
    _ = (parse (others ++ rest)).map (Request.mapObjects (values.foldl addToList [] ++ ·)) :=
      readArguments_front _ {} _

end Front

/-- Values given one by one make the list of all of them in one, with commas between them: the
list of what stands between the commas. It holds names only, and its own text gives it again.
So flags for objects come to the same as a single one, however they are spelled, wherever they
stand between other flags and whatever follows; the list comes in front of what follows. -/
theorem values_make_one_list (values : List String) :
    values.foldl addToList [] = addToList [] (",".intercalate values) ∧
    (∀ name ∈ values.foldl addToList [], Listable name) ∧
    addToList [] (listText (values.foldl addToList [])) = values.foldl addToList [] ∧
    (∀ names, Lists (",".intercalate values).toList names ↔
      values.foldl addToList [] = names) ∧
    ∀ arguments arguments' others rest : List String,
      Spread arguments values others → Spread arguments' [",".intercalate values] others →
      parse (arguments ++ rest) = parse (arguments' ++ rest) ∧
      parse (arguments ++ rest) =
        (parse (others ++ rest)).map (Request.mapObjects (values.foldl addToList [] ++ ·)) := by
  have one : values.foldl addToList [] = addToList [] (",".intercalate values) :=
    (addToList_intercalate [] values).symm
  have listable : ∀ name ∈ values.foldl addToList [], Listable name := by
    intro name member
    rw [one] at member
    exact listable_of_mem_splitList member
  refine ⟨one, listable, splitList_listText listable, ?_, ?_⟩
  · intro names
    rw [one]
    exact lists_iff
  · intro arguments arguments' others rest spread spread'
    have read := parse_spread spread rest
    have read' := parse_spread spread' rest
    rw [List.foldl_cons, List.foldl_nil, ← one] at read'
    exact ⟨read.trans read'.symm, read⟩

/-- Three values, one of them a comma only, around two other flags. An operand is not split. -/
theorem values_make_one_list_between :
    Listable "B.C" ∧
      Lists " A,B.C ,,,\u3000D".toList ["A", "B.C", "D"] ∧
      parse ["-obj", " A,B.C ", "-i", "game", "--obj=,", "--v", "-obj=\u3000D", "E,F"] =
        parse ["-i", "game", "--obj", " A,B.C ,,,\u3000D", "--v", "E,F"] ∧
      parse ["-obj", " A,B.C ", "-i", "game", "--obj=,", "--v", "-obj=\u3000D", "E,F"] =
        (parse ["-i", "game", "--v", "E,F"]).map (Request.mapObjects (["A", "B.C", "D"] ++ ·)) := by
  obtain ⟨_, listable, _, lists, same⟩ := values_make_one_list [" A,B.C ", ",", "\u3000D"]
  have dash : "-" ∈ ["-", "--"] := by decide
  have dashes : "--" ∈ ["-", "--"] := by decide
  obtain ⟨objects, known, named, _, takes⟩ :
      ∃ f ∈ flags, f.name = "obj" ∧ ∃ put, f.taking = .value put :=
    ⟨flags[6], List.getElem_mem _, rfl, _, rfl⟩
  obtain ⟨archive, archiveKnown, archiveNamed, _, archiveTakes⟩ :
      ∃ f ∈ flags, f.name = "i" ∧ ∃ put, f.taking = .value put :=
    ⟨flags[2], List.getElem_mem _, rfl, _, rfl⟩
  obtain ⟨verbose, verboseKnown, verboseNamed, _, verboseTurns⟩ :
      ∃ f ∈ flags, f.name = "v" ∧ ∃ put, f.taking = .switch put :=
    ⟨flags[7], List.getElem_mem _, rfl, _, rfl⟩
  have first : Spells objects ["-obj", " A,B.C "] (some " A,B.C ") := by
    simpa [named] using Spells.apart dash takes " A,B.C "
  have second : Spells objects ["--obj=,"] (some ",") := by
    simpa [named] using @Spells.joined objects "--" dashes ","
  have third : Spells objects ["-obj=\u3000D"] (some "\u3000D") := by
    simpa [named] using @Spells.joined objects "-" dash "\u3000D"
  have all : Spells objects ["--obj", " A,B.C ,,,\u3000D"] (some " A,B.C ,,,\u3000D") := by
    simpa [named] using Spells.apart dashes takes " A,B.C ,,,\u3000D"
  have directory : Spells archive ["-i", "game"] (some "game") := by
    simpa [archiveNamed] using Spells.apart dash archiveTakes "game"
  have switch : Spells verbose ["--v"] none := by
    simpa [verboseNamed] using Spells.alone dashes verboseTurns
  have archiveOther : archive.name ≠ "obj" := by simp [archiveNamed]
  have verboseOther : verbose.name ≠ "obj" := by simp [verboseNamed]
  have spread := Spread.object known named first <|
    .other archiveKnown archiveOther directory <| .object known named second <|
    .other verboseKnown verboseOther switch <| .object known named third .nil
  have spread' := Spread.other archiveKnown archiveOther directory <|
    .object known named all <| .other verboseKnown verboseOther switch .nil
  refine ⟨listable "B.C" (by decide), (lists _).mpr (by decide), ?_⟩
  exact same _ _ _ ["E,F"] spread spread'

end ScriptListing.CommandLine
