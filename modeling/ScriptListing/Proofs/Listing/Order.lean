import ScriptListing.Proofs.LabelTable
import ScriptListing.Proofs.Listing.Isolation

/-! The order of functions. Where no two functions share a name, a reference finds the same
function and a jump the same label in whatever order the functions stand, so another order
moves the blocks of a listing and changes none of them. -/
namespace ScriptListing

def Class.withFunctions (c : Class) (functions : List Function) : Class := { c with functions }

namespace Listing

section

variable {c : Class} {fs : List Function}

/-- Under distinct names a function is found by its name alone. -/
theorem find_name_iff (distinct : (fs.map Function.name).Nodup) {name : String} {f : Function} :
    fs.find? (·.name == name) = some f ↔ f ∈ fs ∧ f.name = name := by
  constructor
  · intro found
    exact ⟨List.mem_of_find?_eq_some found, by simpa using List.find?_some found⟩
  · rintro ⟨member, rfl⟩
    obtain ⟨g, found⟩ : ∃ g, fs.find? (·.name == f.name) = some g :=
      Option.isSome_iff_exists.mp (List.find?_isSome.mpr ⟨f, member, by simp⟩)
    have same : g.name = f.name := by simpa using List.find?_some found
    rw [found, List.inj_on_of_nodup_map distinct (List.mem_of_find?_eq_some found) member same]

variable (distinct : (c.functions.map Function.name).Nodup) (reordered : fs.Perm c.functions)
include distinct reordered

theorem function?_reordered (name : String) :
    (c.withFunctions fs).function? name = c.function? name := by
  have distinct' : (fs.map Function.name).Nodup := (reordered.map _).nodup_iff.mpr distinct
  apply Option.ext
  intro f
  calc (c.withFunctions fs).function? name = some f
    _ ↔ f ∈ fs ∧ f.name = name := find_name_iff distinct'
    _ ↔ f ∈ c.functions ∧ f.name = name := and_congr_left fun _ => reordered.mem_iff
    _ ↔ c.function? name = some f := (find_name_iff distinct).symm

theorem alike_reordered (table : Option SymbolTable) (f : Function) :
    Scope.Alike ⟨table, c.withFunctions fs, f⟩ ⟨table, c, f⟩ where
  find ref := by
    simp only [Scope.find, Scope.owner, function?_reordered distinct reordered]
  typeOf _ := rfl

theorem block_reordered (table : Option SymbolTable) (labels : LabelTable) (f : Function) :
    block table (c.withFunctions fs) labels f = block table c labels f := by
  unfold block
  rw [entries_alike (alike_reordered distinct reordered table f) rfl]
  rfl

end

def shownBlock (table : Option SymbolTable) (c : Class) (f : Function) : Block :=
  ⟨f, (signature table c.hierarchy f).toOption.getD "",
    entries ⟨table, c, f⟩ (Label.discover c) f.script⟩

theorem Declares.block {table : Option SymbolTable} {c : Class} (declared : Declares table c)
    {f : Function} (member : f ∈ c.functions) :
    Listing.block table c (Label.discover c) f = .ok (shownBlock table c f) := by
  obtain ⟨head, signed⟩ := declared.signature member
  simp [Listing.block, shownBlock, signed, Except.map, Except.toOption]

/-- A listing with the blocks of the class in the order of `fs`. -/
theorem render_reordered {table : Option SymbolTable} {c : Class} {fs : List Function}
    (distinct : (c.functions.map Function.name).Nodup) (reordered : fs.Perm c.functions)
    (declared : Declares table c) {lines : List String}
    (told : c.properties.mapM (fieldLine table c.hierarchy) = .ok lines) (w : Writer) :
    render table w (c.withFunctions fs) = .ok
      ⟨w.write (Transcript.text w.depth ⟨header c, lines, fs.map (shownBlock table c)⟩), c.name,
        fs.length, fs.filterMap fun f => (shownBlock table c f).fault? c⟩ := by
  have labels : Label.discover (c.withFunctions fs) = Label.discover c :=
    Label.discover_congr fun _ => reordered.mem_iff
  have blocks : fs.mapM (block table (c.withFunctions fs) (Label.discover c)) =
      .ok (fs.map (shownBlock table c)) := by
    rw [Outcome.mapM_eq_ok, List.forall₂_map_right_iff, List.forall₂_same]
    intro f member
    rw [block_reordered distinct reordered]
    exact declared.block (reordered.mem_iff.mp member)
  have whole : transcript table (c.withFunctions fs) =
      .ok ⟨header c, lines, fs.map (shownBlock table c)⟩ := by
    refine Outcome.bind_ok told (Outcome.bind_ok ?_ rfl)
    rw [labels]
    exact blocks
  rw [render_eq_transcript, whole]
  simp only [Except.map, Transcript.faults, List.filterMap_map]
  rfl

/-- The order of functions moves their blocks and nothing else. A class without two functions
of one name has the same labels in every order of its functions; it is listed with the same
opening lines, with the text and the fault that each function has by itself, in the order of
the functions, and with the same closing brace. -/
theorem order_moves_blocks_only (table : Option SymbolTable) (w : Writer) (c : Class)
    (fs : List Function) (distinct : (c.functions.map Function.name).Nodup)
    (reordered : fs.Perm c.functions) (declared : Declares table c) :
    Label.discover (c.withFunctions fs) = Label.discover c ∧
    ∃ (r r' : Result) (opening : String) (text : Function → String)
      (cut : Function → Option Fault),
      render table w c = .ok r ∧ render table w (c.withFunctions fs) = .ok r' ∧
      fields table c.hierarchy ((((⟨w.depth, ""⟩ : Writer).line (header c)).line "\x7b").indent)
        c.properties = .ok ⟨w.depth + 1, opening⟩ ∧
      (∀ f ∈ c.functions,
        function table c (Label.discover c) (⟨w.depth + 1, ""⟩ : Writer).blank f =
          .ok (⟨w.depth + 1, text f⟩, cut f)) ∧
      (∀ f ∈ fs,
        function table (c.withFunctions fs) (Label.discover (c.withFunctions fs))
          (⟨w.depth + 1, ""⟩ : Writer).blank f = .ok (⟨w.depth + 1, text f⟩, cut f)) ∧
      r.writer = w.write
        (opening ++ String.join (c.functions.map text) ++ Writer.lineText w.depth "\x7d") ∧
      r'.writer = w.write
        (opening ++ String.join (fs.map text) ++ Writer.lineText w.depth "\x7d") ∧
      r.faults = c.functions.filterMap cut ∧ r'.faults = fs.filterMap cut := by
  have labels : Label.discover (c.withFunctions fs) = Label.discover c :=
    Label.discover_congr fun _ => reordered.mem_iff
  obtain ⟨lines, told⟩ := Outcome.mapM_ok_of_forall fun p member =>
    fieldLine_ok (declared.fields p member)
  have listed (f : Function) (member : f ∈ c.functions) :
      function table c (Label.discover c) (⟨w.depth + 1, ""⟩ : Writer).blank f =
        .ok (⟨w.depth + 1, (shownBlock table c f).text (w.depth + 1)⟩,
          (shownBlock table c f).fault? c) := by
    rw [function_eq_block, declared.block member]
    simp [Except.map, Writer.write]
  refine ⟨labels, _, _,
    Writer.lineText w.depth (header c) ++ Writer.lineText w.depth "\x7b" ++
      String.join (lines.map (Writer.lineText (w.depth + 1))),
    fun f => (shownBlock table c f).text (w.depth + 1), fun f => (shownBlock table c f).fault? c,
    render_reordered distinct (.refl c.functions) declared told w,
    render_reordered distinct reordered declared told w, ?_, listed, ?_, ?_, ?_, rfl, rfl⟩
  · rw [fields_eq_lines, told]
    simp [Except.map, Writer.line_eq_write, Writer.write, Writer.indent, String.append_assoc]
  · intro f member
    rw [← listed f (reordered.mem_iff.mp member), labels, function_eq_block, function_eq_block,
      block_reordered distinct reordered]
    rfl
  · simp [Transcript.text, String.append_assoc, Function.comp_def]
  · simp [Transcript.text, String.append_assoc, Function.comp_def]

/-- An event that enters the event graph of its class, where a local of the event is declared
again. -/
def crossing : Class where
  name := "Door_C"
  functions := [
    ⟨"Open", "Door_C", [{ name := "Hinge", kind := "ObjectProperty", objectClass := some "Part" }],
      [⟨0, .finalCall .localFinalFunction ⟨"ExecuteUbergraph_Door", "Door_C"⟩ [.int 16]⟩]⟩,
    ⟨"ExecuteUbergraph_Door", "Door_C", [], [⟨16, .localVariable ⟨["Hinge"], "Open"⟩⟩]⟩]

theorem crossing_declares : Declares (some breaking) crossing where
  fields := by simp [crossing]
  returns := by
    simp [crossing, Function.returnProperty?, Property.isReturnParm, Flags.has, Flags.none,
      Flags.returnParm]
  parameters := by
    simp [crossing, Function.parameters, Property.isParm, Flags.has, Flags.none, Flags.parm]

/-- The event graph may come before or after the event that enters it: its label and its fault
are the same. -/
theorem order_moves_blocks_only_crossing :
    ∃ (r r' : Result) (opening event graph closing : String),
      render (some breaking) {} crossing = .ok r ∧
      render (some breaking) {} (crossing.withFunctions crossing.functions.reverse) = .ok r' ∧
      r.text = opening ++ event ++ graph ++ closing ∧
      r'.text = opening ++ graph ++ event ++ closing ∧
      r.faults = r'.faults ∧ r.faults.map Fault.message = ["no Part"] := by
  obtain ⟨_, r, r', opening, text, cut, rendered, rendered', _, _, _, written, written', faults,
    faults'⟩ := order_moves_blocks_only (some breaking) {} crossing crossing.functions.reverse
      (by decide) (List.reverse_perm _) crossing_declares
  have whole : (render (some breaking) {} crossing).toOption.map
      (fun r => r.faults.map Fault.message) = some ["no Part"] := by decide +kernel
  simp only [rendered, Except.toOption, Option.map_some, Option.some.injEq] at whole
  have one : r.faults.length = 1 := by simpa using congrArg List.length whole
  refine ⟨r, r', opening, text crossing.functions[0], text crossing.functions[1],
    Writer.lineText 0 "\x7d", rendered, rendered', ?_, ?_, ?_, whole⟩
  · simp [Result.text, written, crossing, String.append_assoc]
  · simp [Result.text, written', crossing, String.append_assoc]
  · rw [faults] at one
    rw [faults, faults', List.filterMap_reverse]
    obtain ⟨only, same⟩ := List.length_eq_one_iff.mp one
    rw [same, List.reverse_singleton]

end Listing
end ScriptListing
