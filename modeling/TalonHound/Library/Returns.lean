import Mathlib.Data.List.Basic

/-!
# Calls that return

A program with a state and errors either returns, with a value and a new state, or
raises. The rules here take a returning call apart at its sequencing points, and carry an
invariant through a loop over a list.
-/

variable {ε σ α β : Type}

/-- Run in `s`, the program returns `a` and leaves `s'`. -/
def Returns (x : EStateM ε σ α) (s : σ) (a : α) (s' : σ) : Prop := x s = .ok a s'

namespace Returns

variable {x : EStateM ε σ α} {f : α → EStateM ε σ β} {s s' s'' : σ} {a : α} {b : β}

/-- A call returns at most one value and state. -/
theorem unique {a' : α} (h : Returns x s a s') (h' : Returns x s a' s'') : a = a' ∧ s' = s'' := by
  unfold Returns at h h'
  rw [h] at h'
  cases h'
  exact ⟨rfl, rfl⟩

/-- `pure` returns its value and changes nothing. -/
@[simp] theorem pure_iff {a' : α} :
    Returns (pure a : EStateM ε σ α) s a' s' ↔ a = a' ∧ s = s' := by
  constructor
  · intro h
    cases h
    exact ⟨rfl, rfl⟩
  · rintro ⟨rfl, rfl⟩
    rfl

/-- `throw` does not return. -/
@[simp] theorem throw_iff {e : ε} : ¬ Returns (throw e : EStateM ε σ α) s a s' := nofun

/-- A sequence returns when its parts do. -/
theorem bind_iff :
    Returns (x >>= f) s b s'' ↔ ∃ a s', Returns x s a s' ∧ Returns (f a) s' b s'' := by
  unfold Returns
  constructor
  · intro h
    change EStateM.bind x f s = _ at h
    unfold EStateM.bind at h
    cases hx : x s with
    | ok a s' => exact ⟨a, s', rfl, by simpa [hx] using h⟩
    | error e s' => simp [hx] at h
  · rintro ⟨a, s', hx, hf⟩
    change EStateM.bind x f s = _
    unfold EStateM.bind
    rw [hx]
    exact hf

/-- What follows a returning call decides. -/
theorem bind_of (h : Returns x s a s') : Returns (x >>= f) s b s'' ↔ Returns (f a) s' b s'' := by
  rw [bind_iff]
  constructor
  · rintro ⟨a', t, hx, hf⟩
    obtain ⟨rfl, rfl⟩ := h.unique hx
    exact hf
  · exact fun hf => ⟨a, s', h, hf⟩

variable {body : α → EStateM ε σ PUnit} {l : List α} {I : List α → σ → Prop}

/-- A loop that returned kept what each of its turns keeps. -/
theorem forM_invariant
    (hstep : ∀ a rest s s', I (a :: rest) s → Returns (body a) s ⟨⟩ s' → I rest s')
    (h : Returns (l.forM body) s ⟨⟩ s') (hs : I l s) : I [] s' := by
  induction l generalizing s with
  | nil =>
    obtain ⟨-, rfl⟩ := pure_iff.mp h
    exact hs
  | cons a rest ih =>
    obtain ⟨⟨⟩, s₁, hbody, hrest⟩ := bind_iff.mp h
    exact ih hrest (hstep a rest s s₁ hs hbody)

/-- A loop returns when each of its turns does. -/
theorem forM_returns
    (hstep : ∀ a rest s, I (a :: rest) s → ∃ s', Returns (body a) s ⟨⟩ s' ∧ I rest s')
    (hs : I l s) : ∃ s', Returns (l.forM body) s ⟨⟩ s' ∧ I [] s' := by
  induction l generalizing s with
  | nil => exact ⟨s, pure_iff.mpr ⟨rfl, rfl⟩, hs⟩
  | cons a rest ih =>
    obtain ⟨s₁, hbody, hinv⟩ := hstep a rest s hs
    obtain ⟨s₂, hrest, hend⟩ := ih hinv
    refine ⟨s₂, ?_, hend⟩
    exact (bind_of hbody).mpr hrest

end Returns

/-- The program never raises `e`. -/
def NeverRaises (e : ε) (x : EStateM ε σ α) : Prop := ∀ s s', x s ≠ .error e s'

namespace NeverRaises

variable {e : ε} {x : EStateM ε σ α} {f : α → EStateM ε σ β}

theorem of_pure (e : ε) (a : α) : NeverRaises e (pure a : EStateM ε σ α) := nofun

/-- A program that always returns raises nothing. -/
theorem of_returns (h : ∀ s, ∃ a s', Returns x s a s') : NeverRaises e x := by
  intro s s' herror
  obtain ⟨a, t, hok⟩ := h s
  unfold Returns at hok
  rw [herror] at hok
  cases hok

/-- A sequence raises what one of its parts raises. -/
theorem bind (hx : NeverRaises e x) (hf : ∀ a, NeverRaises e (f a)) : NeverRaises e (x >>= f) := by
  intro s s' h
  change EStateM.bind x f s = _ at h
  unfold EStateM.bind at h
  cases hs : x s with
  | ok a s₁ =>
    rw [hs] at h
    exact hf a s₁ s' h
  | error e' s₁ =>
    rw [hs] at h
    cases h
    exact hx s _ hs

/-- A loop raises what one of its turns raises. -/
theorem forM {body : α → EStateM ε σ PUnit} (hbody : ∀ a, NeverRaises e (body a)) (l : List α) :
    NeverRaises e (l.forM body) := by
  induction l with
  | nil => exact of_pure e _
  | cons a l ih => exact (hbody a).bind fun _ => ih

end NeverRaises
