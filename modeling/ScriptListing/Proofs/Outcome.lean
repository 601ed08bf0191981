import Mathlib.Data.List.Forall2

/-! Steps that may fail, one after the other: what it takes that all of them succeed. -/
namespace ScriptListing.Outcome

variable {ε ε' α β γ : Type}

theorem bind_eq_ok {step : Except ε α} {next : α → Except ε β} {b : β} :
    (step >>= next) = .ok b ↔ ∃ a, step = .ok a ∧ next a = .ok b := by
  cases step with
  | error e => simp [bind, Except.bind]
  | ok a => simp [bind, Except.bind]

theorem bind_ok {step : Except ε α} {next : α → Except ε β} {a : α} {b : β}
    (first : step = .ok a) (second : next a = .ok b) : (step >>= next) = .ok b :=
  bind_eq_ok.mpr ⟨a, first, second⟩

theorem map_eq_ok {step : Except ε α} {f : α → β} {b : β} :
    step.map f = .ok b ↔ ∃ a, step = .ok a ∧ f a = b := by
  cases step with
  | error e => simp [Except.map]
  | ok a => simp [Except.map]

theorem mapError_eq_ok {step : Except ε α} {f : ε → ε'} {a : α} :
    step.mapError f = .ok a ↔ step = .ok a := by
  cases step with
  | error e => simp [Except.mapError]
  | ok a => simp [Except.mapError]

theorem pure_eq_ok {a b : α} : (pure a : Except ε α) = .ok b ↔ a = b := by
  simp [pure, Except.pure]

/-- A list of steps succeeds when each of them does, item by item. -/
theorem mapM_eq_ok {f : α → Except ε β} {items : List α} {found : List β} :
    items.mapM f = .ok found ↔ List.Forall₂ (fun a b => f a = .ok b) items found := by
  induction items generalizing found with
  | nil => cases found <;> simp [pure, Except.pure]
  | cons a rest ih =>
    rw [List.mapM_cons, bind_eq_ok]
    constructor
    · rintro ⟨b, head, tail⟩
      obtain ⟨bs, others, equal⟩ := bind_eq_ok.mp tail
      obtain rfl := pure_eq_ok.mp equal
      exact .cons head (ih.mp others)
    · intro steps
      cases steps with
      | cons head tail => exact ⟨_, head, bind_eq_ok.mpr ⟨_, ih.mpr tail, rfl⟩⟩

/-- A list of steps fails as the first of them that does. -/
theorem mapM_eq_error {f : α → Except ε β} {items : List α} {e : ε} :
    items.mapM f = .error e ↔ ∃ before a after, items = before ++ a :: after ∧
      (∀ b ∈ before, ∃ found, f b = .ok found) ∧ f a = .error e := by
  induction items with
  | nil => simp [pure, Except.pure]
  | cons a rest ih =>
    rw [List.mapM_cons]
    cases head : f a with
    | error e' =>
      constructor
      · rintro ⟨⟩
        exact ⟨[], a, rest, rfl, by simp, head⟩
      · rintro ⟨before, a', after, split, earlier, here⟩
        cases before with
        | nil =>
          obtain ⟨rfl, _⟩ := List.cons.inj split
          rw [head] at here
          cases here
          rfl
        | cons b before =>
          obtain ⟨rfl, _⟩ := List.cons.inj split
          obtain ⟨found, succeeds⟩ := earlier a (by simp)
          rw [head] at succeeds
          cases succeeds
    | ok b =>
      have tail : (do
          let bs ← rest.mapM f
          pure (b :: bs)) = .error e ↔ rest.mapM f = .error e := by
        cases rest.mapM f with
        | error e' => simp [bind, Except.bind]
        | ok bs => simp [bind, Except.bind, pure, Except.pure]
      refine tail.trans (ih.trans ?_)
      constructor
      · rintro ⟨before, a', after, split, earlier, here⟩
        refine ⟨a :: before, a', after, by rw [split, List.cons_append], ?_, here⟩
        intro x member
        rcases List.mem_cons.mp member with rfl | later
        · exact ⟨b, head⟩
        · exact earlier x later
      · rintro ⟨before, a', after, split, earlier, here⟩
        cases before with
        | nil =>
          obtain ⟨rfl, _⟩ := List.cons.inj split
          rw [head] at here
          cases here
        | cons x before =>
          obtain ⟨_, split⟩ := List.cons.inj split
          exact ⟨before, a', after, split, fun y member => earlier y (by simp [member]), here⟩

/-- Steps that each succeed on their own succeed one after the other. -/
theorem mapM_ok_of_forall {f : α → Except ε β} {items : List α}
    (each : ∀ a ∈ items, ∃ b, f a = .ok b) : ∃ found, items.mapM f = .ok found := by
  induction items with
  | nil => exact ⟨[], rfl⟩
  | cons a rest ih =>
    obtain ⟨b, head⟩ := each a List.mem_cons_self
    obtain ⟨bs, tail⟩ := ih fun x member => each x (List.mem_cons_of_mem a member)
    exact ⟨b :: bs, mapM_eq_ok.mpr (.cons head (mapM_eq_ok.mp tail))⟩

theorem forall₂_getElem {R : α → β → Prop} {items : List α} {found : List β}
    (related : List.Forall₂ R items found) {k : Nat} {a : α} (at' : items[k]? = some a) :
    ∃ b, found[k]? = some b ∧ R a b := by
  induction related generalizing k with
  | nil => simp at at'
  | @cons _ b _ _ head _ ih =>
    cases k with
    | zero =>
      obtain rfl := Option.some.inj at'
      exact ⟨b, rfl, head⟩
    | succ k => exact ih at'

theorem forall₂_mem {R : α → β → Prop} {items : List α} {found : List β}
    (related : List.Forall₂ R items found) {b : β} (member : b ∈ found) :
    ∃ a ∈ items, R a b := by
  induction related with
  | nil => simp at member
  | @cons a _ _ _ head _ ih =>
    rcases List.mem_cons.mp member with rfl | later
    · exact ⟨a, by simp, head⟩
    · obtain ⟨a', inside, other⟩ := ih later
      exact ⟨a', by simp [inside], other⟩

theorem forall₂_both {δ : Type} {R : α → β → Prop} {S : γ → δ → Prop} {T : α → γ → Prop}
    {items : List α} {items' : List γ} {found : List β} {found' : List δ}
    (related : List.Forall₂ T items items') (first : List.Forall₂ R items found)
    (second : List.Forall₂ S items' found') :
    List.Forall₂ (fun b d => ∃ a c, T a c ∧ R a b ∧ S c d) found found' := by
  induction related generalizing found found' with
  | nil =>
    cases first
    cases second
    exact .nil
  | cons head _ ih =>
    cases first with
    | cons one others =>
      cases second with
      | cons one' others' => exact .cons ⟨_, _, head, one, one'⟩ (ih others others')

def Fails (step : Except ε α) : Prop := ∃ e, step = .error e

@[simp] theorem fails_error (e : ε) : Fails (.error e : Except ε α) := ⟨e, rfl⟩

@[simp] theorem not_fails_ok (a : α) : ¬ Fails (.ok a : Except ε α) := nofun

@[simp] theorem not_fails_pure (a : α) : ¬ Fails (pure a : Except ε α) := nofun

theorem fails_map {step : Except ε α} {f : α → β} : Fails (step.map f) ↔ Fails step := by
  cases step with
  | error e => simp [Except.map]
  | ok a => simp [Except.map]

/-- Two steps fail when the first does or the second, if the second fails on the same terms
whatever the first gave. -/
theorem fails_bind {step : Except ε α} {next : α → Except ε β} {P : Prop}
    (rest : ∀ a, Fails (next a) ↔ P) : Fails (step >>= next) ↔ Fails step ∨ P := by
  cases step with
  | error e => simp [bind, Except.bind]
  | ok a => simpa [bind, Except.bind] using rest a

theorem fails_bind_pure {step : Except ε α} {f : α → β} :
    Fails (step >>= fun a => pure (f a)) ↔ Fails step := by
  cases step with
  | error e => simp [bind, Except.bind]
  | ok a => simp [bind, Except.bind]

/-- Two steps that end alike: with related results, or with the same failure. -/
inductive Agree (R : α → β → Prop) : Except ε α → Except ε β → Prop where
  | ok {a : α} {b : β} (related : R a b) : Agree R (.ok a) (.ok b)
  | error (e : ε) : Agree R (.error e) (.error e)

namespace Agree

theorem of_eq {R : α → α → Prop} (reflexive : ∀ a, R a a) {step step' : Except ε α}
    (same : step = step') : Agree R step step' := by
  subst same
  cases step with
  | error e => exact .error e
  | ok a => exact .ok (reflexive a)

theorem bind {δ : Type} {R : α → β → Prop} {S : γ → δ → Prop} {step : Except ε α}
    {step' : Except ε β} {next : α → Except ε γ} {next' : β → Except ε δ}
    (first : Agree R step step') (second : ∀ a b, R a b → Agree S (next a) (next' b)) :
    Agree S (step >>= next) (step' >>= next') := by
  cases first with
  | error e => exact .error e
  | ok related => exact second _ _ related

theorem mapM {R : β → γ → Prop} {f : α → Except ε β} {g : α → Except ε γ} {items : List α}
    (each : ∀ a ∈ items, Agree R (f a) (g a)) :
    Agree (List.Forall₂ R) (items.mapM f) (items.mapM g) := by
  induction items with
  | nil => exact .ok .nil
  | cons a rest ih =>
    rw [List.mapM_cons, List.mapM_cons]
    apply (each a List.mem_cons_self).bind
    intro b c head
    apply (ih fun x member => each x (List.mem_cons_of_mem a member)).bind
    intro bs cs tail
    exact .ok (.cons head tail)

theorem exists_ok {R : α → β → Prop} {step : Except ε α} {step' : Except ε β} {a : α}
    (agree : Agree R step step') (found : step = .ok a) : ∃ b, step' = .ok b ∧ R a b := by
  cases agree with
  | error e => cases found
  | ok related =>
    cases found
    exact ⟨_, rfl, related⟩

end Agree

end ScriptListing.Outcome
