import ScriptListing.Proofs.Listing.Emission
import ScriptListing.Proofs.Listing.Isolation
import ScriptListing.Proofs.Listing.Jumps

/-! The layout of a function. Its statements stand between braces one level deeper than they,
up to the first that cannot be listed: of that one only the label is left, and a note. The
writer comes back to the depth it was given at. -/
namespace ScriptListing.Listing

def lineCount : Expr → Nat
  | .pushFlow _ => 0
  | .endOfScript => 0
  | .jumpIfNot _ _ => 4
  | .popFlowIfNot _ => 4
  | _ => 1

namespace Scope

variable {s : Scope} {e : Expr} {lines : List Line}

theorem singleLine_length {ending : String} (found : s.singleLine e ending = .ok lines) :
    lines.length = 1 := by
  obtain ⟨content, _, rfl⟩ := Outcome.map_eq_ok.mp found
  rfl

theorem guardedLines_length {parent condition : Expr} {body : Phrase}
    (found : s.guardedLines parent condition body = .ok lines) : lines.length = 4 := by
  obtain ⟨test, _, rfl⟩ := Outcome.map_eq_ok.mp found
  rfl

theorem lines_length (found : s.lines e = .ok lines) : lines.length = lineCount e := by
  cases e
  case missing => cases found
  case ret value =>
    simp only [Scope.lines] at found
    split at found
    · cases found
      rfl
    · obtain ⟨result, _, rfl⟩ := Outcome.map_eq_ok.mp found
      rfl
  case finalCall code function arguments =>
    simp only [Scope.lines] at found
    split at found
    · cases found
      rfl
    · exact singleLine_length found
  case jump | popFlow | pushFlow | endOfScript | unknown =>
    cases found
    rfl
  case jumpIfNot | popFlowIfNot => exact guardedLines_length found
  case computedJump target =>
    obtain ⟨value, _, rfl⟩ := Outcome.map_eq_ok.mp found
    rfl
  all_goals exact singleLine_length found

theorem statement_ok (found : s.lines e = .ok lines) (w : Writer) :
    s.statement w e = .ok (w.write (linesText w.depth lines)) := by
  rw [statement_eq_lines, found]
  rfl

theorem statement_error {obstacle : Obstacle} (found : s.lines e = .error obstacle) (w : Writer) :
    s.statement w e = .error obstacle := by
  rw [statement_eq_lines, found]
  rfl

/-- A statement writes all of its lines at the depth of the writer, or it is refused and the
writer keeps what it held, also when lines are written one by one. -/
inductive Whole (s : Scope) (e : Expr) : Prop where
  | listed (lines : List Line) (count : lines.length = lineCount e)
      (written : ∀ w, s.statement w e = .ok (w.write (linesText w.depth lines)))
      (emitted : ∀ w, (s.emit e).run w = .ok () (w.write (linesText w.depth lines)))
  | refused (obstacle : Obstacle) (stopped : ∀ w, s.statement w e = .error obstacle)
      (kept : ∀ w, (s.emit e).run w = .error obstacle w)

theorem whole (s : Scope) (e : Expr) : s.Whole e := by
  cases found : s.lines e with
  | ok lines =>
    refine .listed lines (lines_length found) (statement_ok found) fun w => ?_
    rw [run_emit, statement_ok found]
    rfl
  | error obstacle =>
    refine .refused obstacle (statement_error found) fun w => ?_
    rw [run_emit, statement_error found]
    rfl

end Scope

/-- The label of a statement, if it has one: an empty line, and a line at the left edge. -/
def labelText (labels : LabelTable) (function : String) (offset : UInt32) : String :=
  if labels.has function offset then "\n" ++ Label.name function offset ++ ":" ++ "\n" else ""

/-- What the statements of a script look like at a depth, and where they are cut. -/
inductive Laid (s : Scope) (labels : LabelTable) (depth : Nat) :
    List Statement → String → Option (UInt32 × Obstacle) → Prop where
  | ended : Laid s labels depth [] "" none
  | listed {st : Statement} {rest : List Statement} {lines : List Line} {text : String}
      {stop : Option (UInt32 × Obstacle)}
      (written : ∀ w, s.statement w st.expr = .ok (w.write (linesText w.depth lines)))
      (others : Laid s labels depth rest text stop) :
      Laid s labels depth (st :: rest)
        (labelText labels s.function.name st.offset ++ linesText depth lines ++ text) stop
  | cut {st : Statement} {rest : List Statement} {obstacle : Obstacle}
      (stopped : ∀ w, s.statement w st.expr = .error obstacle) :
      Laid s labels depth (st :: rest)
        (labelText labels s.function.name st.offset ++
          Writer.lineText depth ("// truncated: " ++ obstacle.message))
        (some (st.offset, obstacle))

theorem labelText_entry (s : Scope) (labels : LabelTable) (st : Statement) :
    (entry s labels st).labelText s.function.name = labelText labels s.function.name st.offset := by
  simp only [Entry.labelText, entry, labelText, String.append_assoc]

theorem entries_laid (s : Scope) (labels : LabelTable) (depth : Nat) (script : List Statement) :
    Laid s labels depth script (entriesText s.function.name depth (entries s labels script))
      ((entries s labels script).findSome? Entry.stop?) := by
  induction script with
  | nil => exact .ended
  | cons st rest ih =>
    unfold entries
    cases found : s.lines st.expr with
    | ok lines =>
      have output : (entry s labels st).outputText depth = linesText depth lines := by
        simp [Entry.outputText, entry, found]
      have text : entriesText s.function.name depth (entry s labels st :: entries s labels rest) =
          labelText labels s.function.name st.offset ++ linesText depth lines ++
            entriesText s.function.name depth (entries s labels rest) := by
        simp [entriesText, Entry.text, labelText_entry, output]
      have stop : (entry s labels st).stop? = none := by simp [entry, Entry.stop?, found]
      simp only [text, List.findSome?_cons, stop]
      exact .listed (Scope.statement_ok found) ih
    | error obstacle =>
      have output : (entry s labels st).outputText depth =
          Writer.lineText depth ("// truncated: " ++ obstacle.message) := by
        simp [Entry.outputText, entry, found]
      have text : entriesText s.function.name depth [entry s labels st] =
          labelText labels s.function.name st.offset ++
            Writer.lineText depth ("// truncated: " ++ obstacle.message) := by
        simp [entriesText, Entry.text, labelText_entry, output]
      have stop : (entry s labels st).stop? = some (st.offset, obstacle) := by
        simp [entry, Entry.stop?, found]
      simp only [text, List.findSome?_cons, stop]
      exact .cut (Scope.statement_error found)

/-- A layout is cut exactly when a statement of the script cannot be listed. -/
theorem Laid.stop_eq_none_iff {s : Scope} {labels : LabelTable} {depth : Nat}
    {script : List Statement} {text : String} {stop : Option (UInt32 × Obstacle)}
    (laid : Laid s labels depth script text stop) :
    stop = none ↔ ∀ st ∈ script, Listed s st.expr := by
  induction laid with
  | ended => simp
  | @listed st rest lines text stop written others ih =>
    rw [ih, List.forall_mem_cons]
    exact (and_iff_right ⟨{}, _, written {}⟩).symm
  | @cut st rest obstacle stopped =>
    simp only [reduceCtorEq, false_iff]
    intro all
    obtain ⟨w, next, written⟩ := all st List.mem_cons_self
    rw [stopped] at written
    cases written

/-- The faults of a listing are those of its functions, in order. -/
theorem render_faults {table : Option SymbolTable} {w : Writer} {c : Class} {r : Result}
    (rendered : render table w c = .ok r) :
    ∃ cut : Function → Option Fault,
      (∀ f ∈ c.functions, ∀ u, ∃ u', function table c (Label.discover c) u f = .ok (u', cut f)) ∧
      r.faults = c.functions.filterMap cut := by
  obtain ⟨t, told, _, faults⟩ := transcript_of_render rendered
  have blocks := blocks_of_transcript told
  refine ⟨fun f => (block table c (Label.discover c) f).toOption.bind (Block.fault? c), ?_, ?_⟩
  · intro f member u
    obtain ⟨k, at'⟩ := List.getElem?_of_mem member
    obtain ⟨b, _, one⟩ := Outcome.forall₂_getElem blocks at'
    refine ⟨u.write (b.frame u.depth), ?_⟩
    simp only [function_eq_frame, one]
    rfl
  · rw [faults, Transcript.faults, List.filterMap_eq_flatMap_toList,
      List.filterMap_eq_flatMap_toList]
    refine flatMap_of_forall₂ blocks fun f b _ one => ?_
    rw [one]
    rfl

/-- A function is cut exactly where it fails, and its block is balanced. Every statement is
written whole or not at all, in as many lines as its kind has; the block is the signature and
the braces at the depth of the writer around the layout of the script, and the writer keeps
its depth. The fault tells the class, the function and the offset of the statement that
failed, and there is none just when all statements are listed. The faults of a class are those
of its functions in order. -/
theorem functions_are_cut_where_they_fail (table : Option SymbolTable) (c : Class)
    (f : Function) (labels : LabelTable) (w : Writer) (head : String)
    (signed : signature table c.hierarchy f = .ok head) :
    (∀ e, Scope.Whole ⟨table, c, f⟩ e) ∧
    (∃ (text : String) (stop : Option (UInt32 × Obstacle)),
      Laid ⟨table, c, f⟩ labels (w.depth + 1) f.script text stop ∧
      function table c labels w f = .ok
        (w.write (Writer.lineText w.depth head ++ Writer.lineText w.depth "\x7b" ++ text ++
            Writer.lineText w.depth "\x7d"),
          stop.map fun (offset, obstacle) =>
            ⟨c.name, f.name, offset, obstacle.message, obstacle.cause?⟩) ∧
      function table c labels w f = .ok (emitFunction ⟨table, c, f⟩ labels head w) ∧
      (stop = none ↔ ∀ st ∈ f.script, Listed ⟨table, c, f⟩ st.expr)) ∧
    (Declares table c → ∃ r, render table w c = .ok r) ∧
    ∀ r, render table w c = .ok r → r.functions = c.functions.length ∧
      ∃ cut : Function → Option Fault,
        (∀ g ∈ c.functions, ∀ u, ∃ u',
          function table c (Label.discover c) u g = .ok (u', cut g)) ∧
        r.faults = c.functions.filterMap cut := by
  have laid := entries_laid ⟨table, c, f⟩ labels (w.depth + 1) f.script
  refine ⟨Scope.whole _, ⟨_, _, laid, ?_, ?_, laid.stop_eq_none_iff⟩, ?_, ?_⟩
  · rw [function_eq_frame, block, signed]
    rfl
  · rw [function_eq_emit, signed]
    rfl
  · intro declared
    exact declared.render w
  · intro r rendered
    refine ⟨?_, render_faults rendered⟩
    rw [render_eq_transcript] at rendered
    obtain ⟨t, _, rfl⟩ := Outcome.map_eq_ok.mp rendered
    rfl

/-- A function with a guarded jump to a local whose type cannot be told. -/
def swing : Function :=
  ⟨"Swing", "Door_C", [{ name := "Hinge", kind := "ObjectProperty", objectClass := some "Part" }],
    [⟨0, .jumpIfNot 8 .self⟩, ⟨8, .localVariable ⟨["Hinge"], ""⟩⟩, ⟨16, .ret .nothing⟩]⟩

def swinging : Class where
  name := "Door_C"
  functions := [swing]

/-- The guarded jump is written in full, and the local leaves its label and a note. -/
theorem functions_are_cut_where_they_fail_swinging :
    ∃ (text : String) (obstacle : Obstacle),
      Laid ⟨some breaking, swinging, swing⟩ (Label.discover swinging) 3 swing.script text
        (some (8, obstacle)) ∧
      obstacle.message = "no Part" ∧
      function (some breaking) swinging (Label.discover swinging) ⟨2, "above\n"⟩ swing = .ok
        (⟨2, "above\n" ++ ("        void Swing()\n        \x7b\n" ++ text ++ "        \x7d\n")⟩,
          some ⟨"Door_C", "Swing", 8, "no Part", none⟩) := by
  have signed : signature (some breaking) swinging.hierarchy swing = .ok "void Swing()" := by
    decide +kernel
  obtain ⟨_, ⟨text, stop, laid, written, _, _⟩, _, _⟩ :=
    functions_are_cut_where_they_fail (some breaking) swinging swing (Label.discover swinging)
      ⟨2, "above\n"⟩ _ signed
  have fault : (function (some breaking) swinging (Label.discover swinging) ⟨2, "above\n"⟩
      swing).toOption.map Prod.snd = some (some ⟨"Door_C", "Swing", 8, "no Part", none⟩) := by
    decide +kernel
  rw [written] at fault
  obtain ⟨⟨offset, obstacle⟩, rfl, told⟩ := Option.map_eq_some_iff.mp (Option.some.inj fault)
  obtain ⟨_, _, rfl, message, cause⟩ := Fault.mk.inj told
  refine ⟨text, obstacle, laid, message, ?_⟩
  rw [written]
  simp [Writer.write, Writer.lineText, Writer.margin, Writer.unit, message, cause, swinging, swing,
    String.append_assoc]

end ScriptListing.Listing
