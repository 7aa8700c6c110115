import Mathlib.Algebra.Order.Floor.Div

/-!
# Leases that a periodic check gives up

A holder renews a lease that others may take once it expires. It notes the last instant for
which a renewal was confirmed, and a periodic check gives the lease up as soon as that instant
lies a deadline in the past. Between two checks nothing is noticed, so the holder goes on until
the first check past the deadline. That instant is the one to compare with the expiry that the
others see.
-/

/-- The interval of the checks, and how old a confirmation may get. -/
structure LeaseTiming where
  (period deadline : ℕ)
  period_pos : 0 < period
  deadline_pos : 0 < deadline

/-- A timer whose checks are counted from `origin`; `fired` of them have run. -/
structure LeaseTimer where
  (origin confirmed fired : ℕ)
  deriving DecidableEq

namespace LeaseTimer

variable (T : LeaseTiming) (t : LeaseTimer)

/-- The timer of a holder that counts its lease from `now`. -/
def start (now : ℕ) : LeaseTimer := ⟨now, now, 0⟩

/-- The instant of the next check. -/
def nextCheck : ℕ := t.origin + T.period * (t.fired + 1)

/-- The timer after a check that gives nothing up. -/
def fire : LeaseTimer := { t with fired := t.fired + 1 }

/-- The timer after a confirmation as of `instant`. -/
def confirm (instant : ℕ) : LeaseTimer := { t with confirmed := instant }

/-- The check that gives the lease up if no more confirmations come. -/
def lossCheck : ℕ :=
  t.origin + T.period * ((t.confirmed + T.deadline - t.origin) ⌈/⌉ T.period)

/-- The check that gives the lease up has not run. -/
def Alive : Prop := t.nextCheck T ≤ t.lossCheck T

variable {T t}

/-- A check before the deadline is not the one that gives the lease up. -/
theorem nextCheck_le_lossCheck_of_lt {n : ℕ}
    (h : t.origin + T.period * n < t.confirmed + T.deadline) :
    t.origin + T.period * (n + 1) ≤ t.lossCheck T := by
  have hceil := le_smul_ceilDiv (b := t.confirmed + T.deadline - t.origin) T.period_pos
  rw [smul_eq_mul] at hceil
  have hlt : T.period * n < T.period * ((t.confirmed + T.deadline - t.origin) ⌈/⌉ T.period) := by
    omega
  have hn : n + 1 ≤ (t.confirmed + T.deadline - t.origin) ⌈/⌉ T.period :=
    Nat.lt_of_mul_lt_mul_left hlt
  exact Nat.add_le_add_left (Nat.mul_le_mul_left T.period hn) _

theorem alive_start (now : ℕ) : (start now).Alive T := by
  have hpos := T.deadline_pos
  refine nextCheck_le_lossCheck_of_lt (t := start now) (n := 0) ?_
  simp only [start]
  omega

/-- A check that gives nothing up leaves time until the next one. -/
theorem Alive.fire (h : t.nextCheck T < t.confirmed + T.deadline) : t.fire.Alive T :=
  nextCheck_le_lossCheck_of_lt (t := t.fire) h

/-- A later confirmation postpones the loss. -/
theorem lossCheck_le_confirm {instant : ℕ} (h : t.confirmed ≤ instant) :
    t.lossCheck T ≤ (t.confirm instant).lossCheck T := by
  have hmono : (t.confirmed + T.deadline - t.origin) ⌈/⌉ T.period ≤
      (instant + T.deadline - t.origin) ⌈/⌉ T.period :=
    (gc_smul_ceilDiv T.period_pos).monotone_l (by omega)
  exact Nat.add_le_add_left (Nat.mul_le_mul_left _ hmono) _

theorem Alive.confirm {instant : ℕ} (h : t.Alive T) (hle : t.confirmed ≤ instant) :
    (t.confirm instant).Alive T :=
  Nat.le_trans h (lossCheck_le_confirm hle)

/-- Confirmations as of a check are given up a fixed span later. -/
theorem lossCheck_confirm_check (n : ℕ) :
    (t.confirm (t.origin + T.period * n)).lossCheck T =
      t.origin + T.period * n + T.period * (T.deadline ⌈/⌉ T.period) := by
  have hsplit : (T.period * n + T.deadline) ⌈/⌉ T.period = n + T.deadline ⌈/⌉ T.period := by
    rw [Nat.ceilDiv_eq_add_pred_div, Nat.ceilDiv_eq_add_pred_div, Nat.add_assoc,
      Nat.add_sub_assoc (by have := T.period_pos; omega), Nat.mul_add_div T.period_pos]
  have harg : t.origin + T.period * n + T.deadline - t.origin = T.period * n + T.deadline := by
    omega
  simp only [lossCheck, LeaseTimer.confirm]
  rw [harg, hsplit, Nat.mul_add, Nat.add_assoc]

theorem lossCheck_start (now : ℕ) :
    (start now).lossCheck T = now + T.period * (T.deadline ⌈/⌉ T.period) := by
  simpa [start, LeaseTimer.confirm] using lossCheck_confirm_check (T := T) (t := start now) 0

end LeaseTimer
