import ScriptListing.Listing.Expression

/-! Names are what instructions show of properties. A type stands only where a local is a
statement of its own; a tree under any other instruction reads the same in every scope that
finds the same names. -/
namespace ScriptListing.Listing.Scope

/-- Two scopes that find properties of the same names, or the same obstacle. -/
def SameNames (s s' : Scope) : Prop :=
  ∀ ref, (s.find ref).map Property.name = (s'.find ref).map Property.name

/-- A tree that declares nothing: it stands under another, or is no local. -/
def Undeclared : Place → Expr → Prop
  | .statement, .localVariable _ => False
  | _, _ => True

theorem undeclared_under (parent e : Expr) : Undeclared (.under parent) e := trivial

theorem local_of_declared {place : Place} {e : Expr} (declared : ¬ Undeclared place e) :
    ∃ ref, e = .localVariable ref := by
  unfold Undeclared at declared
  split at declared
  · next ref => exact ⟨ref, rfl⟩
  · exact absurd trivial declared

theorem localName_under (s : Scope) (parent : Expr) (ref : PropertyRef) :
    s.localName (.under parent) ref = (s.find ref).map Property.name := by
  unfold localName
  cases s.find ref with
  | error obstacle => rfl
  | ok p => rfl

theorem inline_localOutVariable (s : Scope) (place : Place) (ref : PropertyRef) :
    s.inline place (.localOutVariable ref) = ((s.find ref).map Property.name).map ("*" ++ ·) := by
  simp only [inline]
  cases s.find ref with
  | error obstacle => rfl
  | ok p => rfl

theorem inline_text {s : Scope} {place : Place} {source : Expr} (present : source ≠ .missing) :
    s.inline place (.text source) =
      (s.inline (.under (.text source)) source >>= fun value =>
        return "FText(\"" ++ value ++ "\")") := by
  cases source with
  | missing => exact absurd rfl present
  | _ => rfl

mutual

/-- Scopes with the same names read every tree alike that declares nothing. -/
theorem inline_names {s s' : Scope} (names : SameNames s s') (place : Place) :
    (e : Expr) → Undeclared place e → s.inline place e = s'.inline place e
  | .missing, _ => rfl
  | .assign code target value, _ => by
    simp only [inline, inline_names names _ target (undeclared_under ..),
      inline_names names _ value (undeclared_under ..)]
  | .assignPersistent destination value, _ => by
    simp only [inline, inline_names names _ value (undeclared_under ..)]
  | .localVariable ref, undeclared => by
    cases place with
    | statement => exact undeclared.elim
    | under parent => simp only [inline, localName_under, names ref]
  | .localOutVariable ref, _ => by
    rw [inline_localOutVariable, inline_localOutVariable, names ref]
  | .instanceVariable _, _ | .defaultVariable _, _ | .self, _ | .nothing, _ | .noObject, _ => rfl
  | .truth _, _ | .int _, _ | .int64 _, _ | .byte _, _ | .float _, _ | .double _, _ => rfl
  | .name _, _ | .string _ _, _ => rfl
  | .text source, _ => by
    have below := inline_names names (.under (.text source)) source (undeclared_under ..)
    by_cases missing : source = .missing
    · subst missing; rfl
    · rw [inline_text missing, inline_text missing, below]
  | .vector _ _ _, _ | .rotation _ _ _, _ | .object _, _ | .struct _ _, _ => rfl
  | .finalCall code function arguments, _ => by
    simp only [inline, inlineAll_names names _ arguments]
  | .virtualCall code name arguments, _ => by
    simp only [inline, inlineAll_names names _ arguments]
  | .context code object member, _ => by
    simp only [inline, inline_names names _ object (undeclared_under ..),
      inline_names names _ member (undeclared_under ..)]
  | .structMember struct property, _ => by
    simp only [inline, inline_names names _ struct (undeclared_under ..)]
  | .interfaceContext value, _ => by
    simp only [inline, inline_names names _ value (undeclared_under ..)]
  | .cast conversion target, _ => by
    simp only [inline, inline_names names _ target (undeclared_under ..)]
  | .classCast code className target, _ => by
    simp only [inline, inline_names names _ target (undeclared_under ..)]
  | .unknown _, _ | .jump _, _ | .jumpIfNot _ _, _ | .computedJump _, _ | .ret _, _ => rfl
  | .pushFlow _, _ | .popFlow, _ | .popFlowIfNot _, _ | .endOfScript, _ => rfl

theorem inlineAll_names {s s' : Scope} (names : SameNames s s') (parent : Expr) :
    (es : List Expr) → s.inlineAll (.under parent) es = s'.inlineAll (.under parent) es
  | [] => rfl
  | e :: rest => by
    simp only [inlineAll, inline_names names (.under parent) e (undeclared_under ..),
      inlineAll_names names parent rest]

end

end ScriptListing.Listing.Scope
