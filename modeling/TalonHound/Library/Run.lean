import Mathlib.Data.List.Basic

/-!
# Runs of a step function

A system is given by a partial step function on states. A run is a list of actions that
are all enabled, each in the state the earlier ones lead to. A guarded run also meets a
condition before every action. The one induction on runs is made here: what the initial
state has and every guarded step keeps, every state of a guarded run has.
-/

variable {σ α : Type*}

/-- Running `actions` from the first state leads to the second, and `guard` holds before
each of them. -/
inductive Run (step : σ → α → Option σ) (guard : σ → α → Prop) : σ → List α → σ → Prop
  | nil (s : σ) : Run step guard s [] s
  | cons {s s₁ s₂ : σ} {a : α} {actions : List α} (hguard : guard s a)
      (hstep : step s a = some s₁) (hrest : Run step guard s₁ actions s₂) :
      Run step guard s (a :: actions) s₂

namespace Run

variable {step : σ → α → Option σ} {guard : σ → α → Prop}

/-- The state after `actions`, unless one of them is not enabled or does not meet the
condition. -/
def exec (step : σ → α → Option σ) (guard : σ → α → Prop) [∀ s a, Decidable (guard s a)] :
    σ → List α → Option σ
  | s, [] => some s
  | s, a :: actions =>
    if guard s a then (step s a).bind fun s₁ => exec step guard s₁ actions else none

/-- A step with a condition is taken under it. -/
theorem enabled {p : Prop} [Decidable p] {s s' : σ}
    (h : (if p then some s else none) = some s') : p ∧ s = s' := by
  obtain ⟨hp, h⟩ := Option.ite_none_right_eq_some.mp h
  exact ⟨hp, Option.some.inj h⟩

/-- A computed run is a run. -/
theorem of_exec [∀ s a, Decidable (guard s a)] {s s' : σ} {actions : List α}
    (h : exec step guard s actions = some s') : Run step guard s actions s' := by
  induction actions generalizing s with
  | nil =>
    obtain rfl : s = s' := Option.some.inj h
    exact nil s
  | cons a actions ih =>
    obtain ⟨hguard, h⟩ := Option.ite_none_right_eq_some.mp h
    obtain ⟨s₁, hstep, hrest⟩ := Option.bind_eq_some_iff.mp h
    exact cons hguard hstep (ih hrest)

/-- A computation that succeeds is a run to its result. -/
theorem of_isSome [∀ s a, Decidable (guard s a)] {s : σ} {actions : List α}
    (h : (exec step guard s actions).isSome) :
    Run step guard s actions ((exec step guard s actions).get h) :=
  of_exec (Option.some_get h).symm

/-- A computation to a state with a property gives a run to such a state. -/
theorem exists_of_any [∀ s a, Decidable (guard s a)] {P : σ → Prop} [DecidablePred P] {s : σ}
    {actions : List α} (h : (exec step guard s actions).any fun s' => decide (P s')) :
    ∃ s', Run step guard s actions s' ∧ P s' := by
  obtain ⟨s', hs', hP⟩ := (Option.any_eq_true _ _).mp h
  exact ⟨s', of_exec hs', of_decide_eq_true hP⟩

/-- A computation in two parts gives a run to the end of each. -/
theorem exists_pair_of_any [∀ s a, Decidable (guard s a)] {P : σ → σ → Prop}
    [∀ s s', Decidable (P s s')] {s : σ} {actions later : List α}
    (h : (exec step guard s actions).any fun s₁ =>
      (exec step guard s₁ later).any fun s₂ => decide (P s₁ s₂)) :
    ∃ s₁, Run step guard s actions s₁ ∧ ∃ s₂, Run step guard s₁ later s₂ ∧ P s₁ s₂ := by
  obtain ⟨s₁, hs₁, h⟩ := (Option.any_eq_true _ _).mp h
  exact ⟨s₁, of_exec hs₁, exists_of_any h⟩

/-- A computation with one more step gives a run to before it. -/
theorem exists_step_of_any [∀ s a, Decidable (guard s a)] {P : σ → σ → Prop}
    [∀ s s', Decidable (P s s')] {s : σ} {actions : List α} {a : α}
    (h : (exec step guard s actions).any fun s₁ => (step s₁ a).any fun s₂ => decide (P s₁ s₂)) :
    ∃ s₁, Run step guard s actions s₁ ∧ ∃ s₂, step s₁ a = some s₂ ∧ P s₁ s₂ := by
  obtain ⟨s₁, hs₁, h⟩ := (Option.any_eq_true _ _).mp h
  obtain ⟨s₂, hs₂, hP⟩ := (Option.any_eq_true _ _).mp h
  exact ⟨s₁, of_exec hs₁, s₂, hs₂, of_decide_eq_true hP⟩

/-- What the first state has and every guarded step keeps, the last state has. -/
theorem invariant {I : σ → Prop}
    (hstep : ∀ s a s', I s → guard s a → step s a = some s' → I s')
    {s s' : σ} {actions : List α} (hrun : Run step guard s actions s') (hs : I s) : I s' := by
  induction hrun with
  | nil => exact hs
  | cons hguard hnext _ ih => exact ih (hstep _ _ _ hs hguard hnext)

/-- A condition that all actions meet may join the guard. -/
theorem and_guard {p : α → Prop} {s s' : σ} {actions : List α}
    (hrun : Run step guard s actions s') (h : ∀ a ∈ actions, p a) :
    Run step (fun s a => guard s a ∧ p a) s actions s' := by
  induction hrun with
  | nil => exact nil _
  | cons hguard hstep _ ih =>
    refine cons ⟨hguard, h _ List.mem_cons_self⟩ hstep (ih ?_)
    exact fun a ha => h a (List.mem_cons_of_mem _ ha)

end Run
