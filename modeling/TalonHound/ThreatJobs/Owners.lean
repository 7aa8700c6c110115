import TalonHound.ThreatJobs.OwnerRun

/-!
# No two workers run a job

A worker calls `onLost` at the first check that finds the last confirmation too old. Another
worker, or a recovery, takes the job once `heartbeat_at` is stale. The confirmation counts from
the reply and `heartbeat_at` from the statement, so a worker is safe as long as the check that
would tell it to stop is due before the row turns stale.
-/

namespace TalonHound.ThreatJobs

variable {cfg : OwnershipConfig} {now stamp e : ℕ} {t u : OwnerToken}
variable {j j' : JobRow} {s s' : OwnerState}

/-- The token owns the row, and the row is not stale before `instant` has passed. -/
def Guards (staleMs : ℕ) (j : JobRow) (t : OwnerToken) (instant : ℕ) : Prop :=
  j.ownerToken = some t ∧ ∃ hb, j.heartbeatAt = some hb ∧ instant ≤ hb + staleMs

variable {staleMs : ℕ} {h : JobHeartbeat} {d : Delivery}

theorem Guards.mono {e' : ℕ} (h : Guards staleMs j t e) (hle : e' ≤ e) : Guards staleMs j t e' := by
  obtain ⟨howner, hb, hheartbeat, hinstant⟩ := h
  exact ⟨howner, hb, hheartbeat, Nat.le_trans hle hinstant⟩

theorem Guards.not_stale (h : Guards staleMs j t e) (hle : stamp ≤ e) :
    j.ownerStale staleMs stamp = false := by
  obtain ⟨-, hb, hheartbeat, hinstant⟩ := h
  have hseen : j.lastSeen = hb := by simp [JobRow.lastSeen, hheartbeat]
  rw [JobRow.ownerStale, hseen]
  exact decide_eq_false (by omega)

/-- No other token claims a guarded row. -/
theorem Guards.not_claimable (h : Guards staleMs j t e) (hle : stamp ≤ e) (hne : u ≠ t) :
    j.claimable staleMs stamp u = false := by
  have howner := h.1
  simp [JobRow.claimable, h.not_stale hle, howner, Ne.symm hne]

/-- No recovery takes a guarded row. -/
theorem Guards.not_recoverable (h : Guards staleMs j t e) (hle : stamp ≤ e) :
    j.recoverable staleMs stamp = false := by
  simp [JobRow.recoverable, h.not_stale hle, h.1]

theorem Guards.not_owned (h : Guards cfg.staleMs j t e) (hne : t ≠ u) : j.ownedBy u = false := by
  simp [JobRow.ownedBy, h.1, hne]

theorem Guards.requeue (h : Guards cfg.staleMs j t e) (hne : t ≠ u) :
    Guards cfg.staleMs (j.requeue u) t e := by
  rwa [JobRow.requeue, h.not_owned hne]

theorem Guards.heartbeat (h : Guards cfg.staleMs j t e) (hne : t ≠ u) :
    Guards cfg.staleMs (j.heartbeat stamp u).1 t e := by
  rwa [JobRow.heartbeat, h.not_owned hne]

/-- A heartbeat of the owner that updates the row guards it from its own instant on. -/
theorem Guards.heartbeat_self (h : Guards cfg.staleMs j t e) (hle : e ≤ stamp + cfg.staleMs) :
    Guards cfg.staleMs (j.heartbeat stamp t).1 t e := by
  unfold JobRow.heartbeat
  split
  · exact ⟨h.1, stamp, rfl, hle⟩
  · exact h

theorem guards_claimed {bullmqJobId : Option ℕ} :
    Guards cfg.staleMs (j.claimed stamp t bullmqJobId) t (stamp + cfg.staleMs) :=
  ⟨rfl, stamp, rfl, Nat.le_refl _⟩

/-- The reply to a claim comes so early that the check that would call `onLost` is due before
the row turns stale. -/
def Delivery.ClaimInTime (cfg : OwnershipConfig) (now : ℕ) : Delivery → Prop
  | .claimed stamp => (LeaseTimer.start now).lossCheck cfg.timing ≤ stamp + cfg.staleMs
  | _ => True

/-- So does the reply to a heartbeat. -/
def Delivery.BeatInTime (cfg : OwnershipConfig) (now : ℕ) (heartbeatAt : Option ℕ) :
    Delivery → Prop
  | .running h => ∀ hb ∈ heartbeatAt, (h.timer.confirm now).lossCheck cfg.timing ≤ hb + cfg.staleMs
  | _ => True

/-- A heartbeat that its worker gave up on does not turn the row stale earlier than that. -/
def Delivery.StrayInTime (cfg : OwnershipConfig) (stamp : ℕ) : Delivery → Prop
  | .running h => h.timer.lossCheck cfg.timing ≤ stamp + cfg.staleMs
  | _ => True

/-- The condition on a step. -/
def InTime (cfg : OwnershipConfig) (s : OwnerState) : OwnerAction → Prop
  | .claimReply t => (s.deliveries t).ClaimInTime cfg s.now
  | .beatReply t => (s.deliveries t).BeatInTime cfg s.now s.job.heartbeatAt
  | .runStray t _ stamp => (s.deliveries t).StrayInTime cfg stamp
  | _ => True

instance (cfg : OwnershipConfig) (now : ℕ) : (d : Delivery) → Decidable (d.ClaimInTime cfg now)
  | .claimed _ => Nat.decLe _ _
  | .idle | .claiming _ | .running _ | .lost | .ended => instDecidableTrue

instance (cfg : OwnershipConfig) (now : ℕ) (heartbeatAt : Option ℕ) :
    (d : Delivery) → Decidable (d.BeatInTime cfg now heartbeatAt)
  | .running h => inferInstanceAs (Decidable (∀ hb ∈ heartbeatAt,
      (h.timer.confirm now).lossCheck cfg.timing ≤ hb + cfg.staleMs))
  | .idle | .claiming _ | .claimed _ | .lost | .ended => instDecidableTrue

instance (cfg : OwnershipConfig) (stamp : ℕ) : (d : Delivery) → Decidable (d.StrayInTime cfg stamp)
  | .running _ => Nat.decLe _ _
  | .idle | .claiming _ | .claimed _ | .lost | .ended => instDecidableTrue

instance (cfg : OwnershipConfig) (s : OwnerState) (a : OwnerAction) : Decidable (InTime cfg s a) := by
  cases a <;> unfold InTime <;> infer_instance

/-- A heartbeat under way was sent at a check after the last confirmation. -/
structure BeatInv (cfg : OwnershipConfig) (now : ℕ) (timer : LeaseTimer) (beat : Beat) : Prop where
  later : timer.confirmed ≤ beat.sentAt
  sent : beat.sentAt ≤ now
  atCheck : ∃ n, beat.sentAt = timer.origin + cfg.timing.period * n

/-- The row of a worker is guarded until the check that would tell it to stop. -/
structure HeartbeatInv (cfg : OwnershipConfig) (now : ℕ) (j : JobRow) (t : OwnerToken)
    (h : JobHeartbeat) : Prop where
  alive : h.timer.Alive cfg.timing
  due : now ≤ h.timer.nextCheck cfg.timing
  confirmed : h.timer.confirmed ≤ now
  guarded : Guards cfg.staleMs j t (h.timer.lossCheck cfg.timing)
  span : cfg.timing.period * (cfg.timing.deadline ⌈/⌉ cfg.timing.period) ≤ cfg.staleMs
  beat : ∀ b, h.beating = some b → BeatInv cfg now h.timer b

/-- What the stage of a delivery says about the row. -/
def DeliveryInv (cfg : OwnershipConfig) (now : ℕ) (j : JobRow) (t : OwnerToken) : Delivery → Prop
  | .claimed stamp =>
    stamp ≤ now ∧ (Guards cfg.staleMs j t (stamp + cfg.staleMs) ∨ stamp + cfg.staleMs < now)
  | .running h => HeartbeatInv cfg now j t h
  | _ => True

/-- The delivery has run the job. -/
def Delivery.Ran : Delivery → Prop
  | .running _ => True
  | .lost => True
  | .ended => True
  | _ => False

/-- The invariant. -/
structure OwnerInv (cfg : OwnershipConfig) (s : OwnerState) : Prop where
  deliveries : ∀ t, DeliveryInv cfg s.now s.job t (s.deliveries t)
  delivered : ∀ t, s.deliveries t ≠ .idle → t ∈ s.delivered
  stray : ∀ p ∈ s.stray, (s.deliveries p.1).Ran

/-- A worker is in time for the check that would tell it to stop. -/
theorem HeartbeatInv.now_le (hinv : HeartbeatInv cfg now j t h) :
    now ≤ h.timer.lossCheck cfg.timing :=
  Nat.le_trans hinv.due hinv.alive

/-- Only a guard that still holds matters. -/
theorem DeliveryInv.frame (h : DeliveryInv cfg now j t d)
    (hkeep : ∀ e, now ≤ e → Guards cfg.staleMs j t e → Guards cfg.staleMs j' t e) :
    DeliveryInv cfg now j' t d := by
  cases d with
  | claimed stamp =>
    obtain ⟨hstamp, hguarded | hpast⟩ := h
    · refine ⟨hstamp, ?_⟩
      by_cases hlive : now ≤ stamp + cfg.staleMs
      · exact Or.inl (hkeep _ hlive hguarded)
      · exact Or.inr (by omega)
    · exact ⟨hstamp, Or.inr hpast⟩
  | running heartbeat =>
    exact { h with guarded := hkeep _ h.now_le h.guarded }
  | _ => trivial

/-- A delivery that nothing moves stays as it is while time passes. -/
theorem DeliveryInv.elapse {ms : ℕ} (h : DeliveryInv cfg now j t d)
    (hdue : d.UndisturbedUntil cfg (now + ms)) : DeliveryInv cfg (now + ms) j t d := by
  cases d with
  | claimed stamp =>
    obtain ⟨hstamp, hrow⟩ := h
    refine ⟨Nat.le_trans hstamp (Nat.le_add_right _ _), ?_⟩
    rcases hrow with hguarded | hpast
    · exact Or.inl hguarded
    · exact Or.inr (Nat.lt_of_lt_of_le hpast (Nat.le_add_right _ _))
  | running heartbeat =>
    refine { h with due := hdue, confirmed := Nat.le_trans h.confirmed (Nat.le_add_right _ _),
                    beat := ?_ }
    intro b hb
    have hbeat := h.beat b hb
    exact { hbeat with sent := Nat.le_trans hbeat.sent (Nat.le_add_right _ _) }
  | _ => trivial

namespace OwnerInv

section

variable (hinv : OwnerInv cfg s)
include hinv

/-- A delivery moves on, and the row changes for it alone. -/
theorem move
    (hkeep : ∀ u, u ≠ t → ∀ e, s.now ≤ e → Guards cfg.staleMs s.job u e → Guards cfg.staleMs j' u e)
    (hd : DeliveryInv cfg s.now j' t d) (hactive : s.deliveries t ≠ .idle)
    (hran : (s.deliveries t).Ran → d.Ran) :
    OwnerInv cfg { s.setDelivery t d with job := j' } where
  deliveries u := by
    by_cases hu : u = t
    · subst hu
      simpa [OwnerState.setDelivery] using hd
    · have hframe := (hinv.deliveries u).frame (hkeep u hu)
      simpa [OwnerState.setDelivery, hu] using hframe
  delivered u hu := by
    by_cases hut : u = t
    · exact hut ▸ hinv.delivered t hactive
    · exact hinv.delivered u (by simpa [OwnerState.setDelivery, hut] using hu)
  stray p hp := by
    by_cases hpt : p.1 = t
    · have hold := hinv.stray p hp
      rw [hpt] at hold
      simpa [OwnerState.setDelivery, hpt] using hran hold
    · simpa [OwnerState.setDelivery, hpt] using hinv.stray p hp

/-- A delivery moves on, and the row stays. -/
theorem setDelivery (hd : DeliveryInv cfg s.now s.job t d) (hactive : s.deliveries t ≠ .idle)
    (hran : (s.deliveries t).Ran → d.Ran) :
    OwnerInv cfg (s.setDelivery t d) :=
  hinv.move (fun _ _ _ _ h => h) hd hactive hran

/-- A heartbeat may be left to run. -/
theorem abandon (hd : s.deliveries t = .running h) :
    OwnerInv cfg (s.abandon t h) := by
  unfold OwnerState.abandon
  split
  · refine { hinv with stray := ?_ }
    intro p hp
    rcases List.mem_cons.mp hp with rfl | hp
    · change (s.deliveries t).Ran
      rw [hd]
      trivial
    · exact hinv.stray p hp
  · exact hinv

/-- The row changes, and every guard that still holds stays. -/
theorem setJob (hkeep : ∀ u e, s.now ≤ e → Guards cfg.staleMs s.job u e → Guards cfg.staleMs j' u e) :
    OwnerInv cfg { s with job := j' } :=
  { hinv with deliveries := fun u => (hinv.deliveries u).frame (hkeep u) }

/-- What a running delivery keeps. -/
theorem heartbeat (hd : s.deliveries t = .running h) :
    HeartbeatInv cfg s.now s.job t h := by
  have hdelivery := hinv.deliveries t
  rwa [hd] at hdelivery

end

section

variable (hinv : OwnerInv cfg s)

include hinv

theorem step_elapse {ms : ℕ} (hstep : ownerStep cfg s (.elapse ms) = some s') :
    OwnerInv cfg s' := by
  obtain ⟨hdue, rfl⟩ := Run.enabled hstep
  refine { hinv with deliveries := fun t => (hinv.deliveries t).elapse ?_ }
  by_cases hidle : s.deliveries t = .idle
  · rw [hidle]
    trivial
  · exact hdue t (hinv.delivered t hidle)

theorem step_deliver (hstep : ownerStep cfg s (.deliver t) = some s') : OwnerInv cfg s' := by
  unfold ownerStep at hstep
  dsimp only at hstep
  split at hstep
  · next hidle =>
    cases hstep
    refine ⟨?_, ?_, ?_⟩
    · intro u
      by_cases hu : u = t
      · simp [OwnerState.setDelivery, hu, DeliveryInv]
      · simpa [OwnerState.setDelivery, hu] using hinv.deliveries u
    · intro u hd
      by_cases hu : u = t
      · exact hu ▸ List.mem_cons_self
      · exact List.mem_cons_of_mem _
          (hinv.delivered u (by simpa [OwnerState.setDelivery, hu] using hd))
    · intro p hp
      have hold := hinv.stray p hp
      by_cases hu : p.1 = t
      · rw [hu, hidle] at hold
        exact hold.elim
      · simpa [OwnerState.setDelivery, hu] using hold
  · cases hstep

/-- A claim that takes the row finds no guard in place. -/
theorem step_runClaim {bullmqJobId : Option ℕ}
    (hstep : ownerStep cfg s (.runClaim t stamp bullmqJobId) = some s') : OwnerInv cfg s' := by
  unfold ownerStep at hstep
  dsimp only at hstep
  split at hstep
  · next sentAt hd =>
    have hactive : s.deliveries t ≠ .idle := by rw [hd]; simp
    split at hstep
    · next hstamp =>
      split at hstep
      · next hclaimable =>
        cases hstep
        refine hinv.move ?_ ⟨hstamp.2, Or.inl guards_claimed⟩ hactive (by rw [hd]; exact False.elim)
        intro u hu e hlive hguarded
        rw [hguarded.not_claimable (Nat.le_trans hstamp.2 hlive) (Ne.symm hu)] at hclaimable
        cases hclaimable
      · cases hstep
        exact hinv.setDelivery trivial hactive (by rw [hd]; exact False.elim)
    · cases hstep
  · cases hstep

/-- The heartbeat of a reply in time: its row is guarded until the check. -/
theorem step_claimReply (htime : InTime cfg s (.claimReply t))
    (hstep : ownerStep cfg s (.claimReply t) = some s') : OwnerInv cfg s' := by
  unfold ownerStep at hstep
  dsimp only at hstep
  split at hstep
  · next stamp hd =>
    cases hstep
    have htime : (LeaseTimer.start s.now).lossCheck cfg.timing ≤ stamp + cfg.staleMs := by
      simpa [InTime, hd, Delivery.ClaimInTime] using htime
    obtain ⟨hstamp, hrow⟩ : stamp ≤ s.now ∧ (Guards cfg.staleMs s.job t (stamp + cfg.staleMs) ∨
        stamp + cfg.staleMs < s.now) := by
      have h := hinv.deliveries t
      rwa [hd] at h
    have hspan := LeaseTimer.lossCheck_start (T := cfg.timing) s.now
    have hguarded : Guards cfg.staleMs s.job t (stamp + cfg.staleMs) := by
      rcases hrow with hguarded | hpast
      · exact hguarded
      · omega
    refine hinv.setDelivery (d := .running ⟨LeaseTimer.start s.now, none⟩) ?_ (by rw [hd]; simp)
      (by rw [hd]; exact False.elim)
    exact {
      alive := LeaseTimer.alive_start s.now
      due := Nat.le_add_right _ _
      confirmed := Nat.le_refl _
      guarded := hguarded.mono htime
      span := by omega
      beat := by simp }
  · cases hstep

/-- A check tells the worker to stop, or leaves time until the next one. -/
theorem step_check (hstep : ownerStep cfg s (.check t) = some s') : OwnerInv cfg s' := by
  unfold ownerStep at hstep
  dsimp only at hstep
  split at hstep
  · next h hd =>
    obtain ⟨hnow, rfl⟩ := Run.enabled hstep
    have hactive : s.deliveries t ≠ .idle := by rw [hd]; simp
    have hheartbeat := hinv.heartbeat hd
    have hconfirmed := hheartbeat.confirmed
    unfold checkHeartbeat
    split
    · exact (hinv.abandon hd).setDelivery trivial (by rwa [OwnerState.abandon_deliveries])
        (fun _ => trivial)
    · have hfire : h.timer.fire.Alive cfg.timing := LeaseTimer.Alive.fire (by omega)
      have hdue : s.now ≤ h.timer.fire.nextCheck cfg.timing := by
        rw [hnow]
        exact Nat.add_le_add_left (Nat.mul_le_mul_left _ (by simp [LeaseTimer.fire])) _
      split
      · refine hinv.setDelivery (d := .running _) ?_ hactive fun _ => trivial
        exact { hheartbeat with
          alive := hfire
          due := hdue
          beat := fun b hb => { hheartbeat.beat b hb with } }
      · refine hinv.setDelivery (d := .running _) ?_ hactive fun _ => trivial
        refine { hheartbeat with alive := hfire, due := hdue, beat := ?_ }
        rintro b hb
        cases hb
        exact ⟨hconfirmed, Nat.le_refl _, ⟨h.timer.fired + 1, hnow⟩⟩
  · cases hstep

/-- A heartbeat that runs puts the staleness off. -/
theorem step_runBeat (hstep : ownerStep cfg s (.runBeat t stamp) = some s') : OwnerInv cfg s' := by
  unfold ownerStep at hstep
  dsimp only at hstep
  split at hstep
  · next timer sentAt hd =>
    obtain ⟨hstamp, rfl⟩ := Run.enabled hstep
    have hheartbeat := hinv.heartbeat hd
    have hbeat := hheartbeat.beat _ rfl
    have hloss : timer.lossCheck cfg.timing ≤ stamp + cfg.staleMs := by
      obtain ⟨n, hn⟩ := hbeat.atCheck
      have hn : sentAt = timer.origin + cfg.timing.period * n := hn
      have hspan := hheartbeat.span
      have hlater : timer.lossCheck cfg.timing ≤ (timer.confirm sentAt).lossCheck cfg.timing :=
        LeaseTimer.lossCheck_le_confirm hbeat.later
      rw [hn, LeaseTimer.lossCheck_confirm_check, ← hn] at hlater
      omega
    refine hinv.move (d := .running _) ?_ ?_ (by simp [hd]) fun _ => trivial
    · intro u hu e _ h
      exact h.heartbeat hu
    · refine { hheartbeat with guarded := hheartbeat.guarded.heartbeat_self hloss, beat := ?_ }
      intro b hb
      cases hb
      exact { hbeat with }
  · cases hstep

/-- A reply in time postpones the check without outrunning the row. -/
theorem step_beatReply (htime : InTime cfg s (.beatReply t))
    (hstep : ownerStep cfg s (.beatReply t) = some s') : OwnerInv cfg s' := by
  unfold ownerStep at hstep
  dsimp only at hstep
  split at hstep
  · next timer sentAt updated hd =>
    have hactive : s.deliveries t ≠ .idle := by rw [hd]; simp
    have hheartbeat := hinv.heartbeat hd
    split at hstep
    · cases hstep
      obtain ⟨howner, hb, hrow, -⟩ := hheartbeat.guarded
      have hloss : (timer.confirm s.now).lossCheck cfg.timing ≤ hb + cfg.staleMs := by
        have h : (s.deliveries t).BeatInTime cfg s.now s.job.heartbeatAt := htime
        rw [hd] at h
        exact h hb hrow
      refine hinv.setDelivery (d := .running _) ?_ hactive fun _ => trivial
      exact { hheartbeat with
        alive := hheartbeat.alive.confirm hheartbeat.confirmed
        confirmed := Nat.le_refl _
        guarded := ⟨howner, hb, hrow, hloss⟩
        beat := by simp }
    · cases hstep
      exact hinv.setDelivery trivial hactive fun _ => trivial
  · cases hstep

theorem step_beatFails (hstep : ownerStep cfg s (.beatFails t) = some s') : OwnerInv cfg s' := by
  unfold ownerStep at hstep
  dsimp only at hstep
  split at hstep
  · next h hd =>
    obtain ⟨-, rfl⟩ := Run.enabled hstep
    have hheartbeat := hinv.heartbeat hd
    refine (hinv.abandon hd).setDelivery (d := .running _) ?_ ?_ fun _ => trivial
    · rw [OwnerState.abandon_now, OwnerState.abandon_job]
      exact { hheartbeat with beat := by simp }
    · rw [OwnerState.abandon_deliveries, hd]
      simp
  · cases hstep

/-- A heartbeat that nobody waits for runs in time. -/
theorem step_runStray {sentAt : ℕ} (htime : InTime cfg s (.runStray t sentAt stamp))
    (hstep : ownerStep cfg s (.runStray t sentAt stamp) = some s') : OwnerInv cfg s' := by
  obtain ⟨hstray, rfl⟩ := Run.enabled hstep
  have hran : (s.deliveries t).Ran := hinv.stray _ hstray.1
  refine { hinv with deliveries := ?_, stray := ?_ }
  · intro u
    by_cases hu : u = t
    · subst hu
      cases hd : s.deliveries u with
      | running h =>
        have hheartbeat := hinv.heartbeat hd
        have hloss : h.timer.lossCheck cfg.timing ≤ stamp + cfg.staleMs := by
          simpa [InTime, hd, Delivery.StrayInTime] using htime
        exact { hheartbeat with guarded := hheartbeat.guarded.heartbeat_self hloss }
      | lost => trivial
      | ended => trivial
      | _ =>
        rw [hd] at hran
        exact hran.elim
    · exact (hinv.deliveries u).frame fun e _ h => h.heartbeat hu
  · intro p hp
    exact hinv.stray p (List.mem_of_mem_erase hp)

theorem step_requeue (hstep : ownerStep cfg s (.requeue t) = some s') : OwnerInv cfg s' := by
  unfold ownerStep at hstep
  dsimp only at hstep
  split at hstep
  · next h hd =>
    cases hstep
    refine (hinv.abandon hd).move ?_ trivial (by rw [OwnerState.abandon_deliveries, hd]; simp)
      (fun _ => trivial)
    intro u hu e _ hguarded
    rw [OwnerState.abandon_job] at hguarded
    exact hguarded.requeue hu
  · next hd =>
    cases hstep
    exact hinv.move (fun u hu e _ hguarded => hguarded.requeue hu) trivial (by rw [hd]; simp)
      (fun _ => trivial)
  · cases hstep

theorem step_finish (hstep : ownerStep cfg s (.finish t) = some s') : OwnerInv cfg s' := by
  unfold ownerStep at hstep
  dsimp only at hstep
  split at hstep
  · cases hstep
  · next h hd =>
    cases hstep
    exact (hinv.abandon hd).setDelivery trivial
      (by rw [OwnerState.abandon_deliveries, hd]; simp) (fun _ => trivial)
  · next hidle _ =>
    cases hstep
    exact hinv.setDelivery trivial hidle (fun _ => trivial)

/-- Every step in time keeps the rows of the workers guarded. -/
theorem step {a : OwnerAction} (htime : InTime cfg s a) (hstep : ownerStep cfg s a = some s') :
    OwnerInv cfg s' := by
  cases a with
  | elapse ms => exact hinv.step_elapse hstep
  | deliver t => exact hinv.step_deliver hstep
  | runClaim t stamp bullmqJobId => exact hinv.step_runClaim hstep
  | claimReply t => exact hinv.step_claimReply htime hstep
  | check t => exact hinv.step_check hstep
  | runBeat t stamp => exact hinv.step_runBeat hstep
  | beatReply t => exact hinv.step_beatReply htime hstep
  | beatFails t => exact hinv.step_beatFails hstep
  | runStray t sentAt stamp => exact hinv.step_runStray htime hstep
  | requeue t => exact hinv.step_requeue hstep
  | finish t => exact hinv.step_finish hstep
  | recover stamp =>
    obtain ⟨hrecover, rfl⟩ := Run.enabled hstep
    refine hinv.setJob fun u e hlive hguarded => ?_
    rw [hguarded.not_recoverable (Nat.le_trans hrecover.1 hlive)] at hrecover
    exact absurd hrecover.2 (by simp)
  | otherWrite job =>
    obtain ⟨hsame, rfl⟩ := Run.enabled hstep
    refine hinv.setJob fun u e _ hguarded => ?_
    obtain ⟨howner, hb, hrow, hinstant⟩ := hguarded
    exact ⟨hsame.1.trans howner, hb, hsame.2.trans hrow, hinstant⟩

end

theorem initial (now : ℕ) (job : JobRow) : OwnerInv cfg (.initial now job) where
  deliveries _ := trivial
  delivered t h := absurd rfl h
  stray p hp := by simp [OwnerState.initial] at hp

/-- Two running workers own the one row. -/
theorem runs_unique (hinv : OwnerInv cfg s) (ht : s.Runs t) (hu : s.Runs u) : t = u := by
  obtain ⟨h, hd⟩ := ht
  obtain ⟨h', hd'⟩ := hu
  have hrow := (hinv.heartbeat hd).guarded.1
  have hrow' := (hinv.heartbeat hd').guarded.1
  exact Option.some.inj (hrow.symm.trans hrow')

/-- Nothing takes the job from a running worker. -/
theorem not_runs_of_takes (hinv : OwnerInv cfg s) {a : OwnerAction} (htakes : Takes cfg s a) :
    ¬ s.Runs t := by
  rintro ⟨h, hd⟩
  have hheartbeat := hinv.heartbeat hd
  have hlive := hheartbeat.now_le
  cases a with
  | runClaim u stamp bullmqJobId =>
    obtain ⟨⟨sentAt, hclaiming, -⟩, hstamp, hclaimable⟩ := htakes
    have hne : u ≠ t := by
      rintro rfl
      rw [hd] at hclaiming
      cases hclaiming
    rw [hheartbeat.guarded.not_claimable (Nat.le_trans hstamp hlive) hne] at hclaimable
    cases hclaimable
  | recover stamp =>
    obtain ⟨hstamp, hrecoverable⟩ := htakes
    rw [hheartbeat.guarded.not_recoverable (Nat.le_trans hstamp hlive)] at hrecoverable
    cases hrecoverable
  | _ => exact htakes

end OwnerInv

/-- While the replies are in time, a claim or a recovery takes a job only when no worker runs it
that has not been told to stop, and at most one such worker runs it. -/
theorem takes_only_stopped_job (start : ℕ) (job : JobRow) {actions : List OwnerAction}
    (hrun : Run (ownerStep cfg) (InTime cfg) (.initial start job) actions s) :
    (∀ a t, Takes cfg s a → ¬ s.Runs t) ∧ ∀ t u, s.Runs t → s.Runs u → t = u := by
  have hinv : OwnerInv cfg s :=
    Run.invariant (fun _ _ _ hinv htime hstep => OwnerInv.step hinv htime hstep) hrun
      (OwnerInv.initial start job)
  exact ⟨fun a t htakes => hinv.not_runs_of_takes htakes, fun t u ht hu => hinv.runs_unique ht hu⟩

/-- A job that waits for a worker. -/
def queuedJob : JobRow where
  id := 1
  reportId := 1
  jobType := .analyze
  status := .queued
  dispatch := none
  jobPayload := "\x7b\x7d"
  bullmqJobId := some 7
  ownerToken := none
  heartbeatAt := none
  notBefore := none
  createdAt := 0
  startedAt := none

/-- A worker takes the job, and the reply confirms its first heartbeat. -/
def confirmedRun : List OwnerAction :=
  [.deliver 1, .elapse 200, .runClaim 1 100 (some 7), .elapse 300, .claimReply 1, .elapse 15000, .check 1,
    .elapse 10, .runBeat 1 15505, .elapse 90, .beatReply 1, .deliver 2]

/-- The second delivery does not get the job. -/
theorem takes_only_stopped_job_confirmed :
    ∃ s, Run (ownerStep ownershipDefaults) (InTime ownershipDefaults)
        (.initial 0 queuedJob) confirmedRun s ∧ s.Runs 1 ∧
      ¬ Takes ownershipDefaults s (.runClaim 2 15600 (some 7)) := by
  have hexec : (Run.exec (ownerStep ownershipDefaults) (InTime ownershipDefaults)
      (.initial 0 queuedJob) confirmedRun).map (fun s => s.deliveries 1) =
        some (.running ⟨⟨500, 15600, 1⟩, none⟩) := by decide
  obtain ⟨s, hs, hd⟩ := Option.map_eq_some_iff.mp hexec
  have hrun := Run.of_exec hs
  refine ⟨s, hrun, ⟨_, hd⟩, ?_⟩
  intro htakes
  exact (takes_only_stopped_job 0 queuedJob hrun).1 _ 1 htakes ⟨_, hd⟩

/-- The first heartbeat runs at once, and its reply takes 75 seconds; the next one does not
get through. The row turns stale while the worker counts from the reply. -/
def slowReply : List OwnerAction :=
  [.deliver 1, .runClaim 1 0 (some 7), .claimReply 1, .elapse 15000, .check 1, .runBeat 1 15000,
    .elapse 15000, .check 1, .elapse 15000, .check 1, .elapse 15000, .check 1, .elapse 15000, .check 1,
    .elapse 14999, .beatReply 1, .elapse 1, .check 1, .elapse 15000, .check 1, .elapse 15000, .check 1,
    .elapse 15000, .check 1, .elapse 1, .deliver 2]

/-- When every delay is possible, a second delivery takes the job from a worker that nothing
told to stop. -/
theorem takes_running_job : ¬ ∀ (actions : List OwnerAction) (s : OwnerState),
      Run (ownerStep ownershipDefaults) (fun _ _ => True) (.initial 0 queuedJob) actions s →
        (∀ a t, Takes ownershipDefaults s a → ¬ s.Runs t) ∧ ∀ t u, s.Runs t → s.Runs u → t = u := by
  intro h
  have hexec : (Run.exec (ownerStep ownershipDefaults) (fun _ _ => True)
      (.initial 0 queuedJob) (slowReply ++ [.runClaim 2 135001 (some 7), .claimReply 2])).map
        (fun s => (s.deliveries 1, s.deliveries 2)) =
      some (.running ⟨⟨0, 89999, 9⟩, some ⟨90000, none⟩⟩, .running ⟨.start 135001, none⟩) := by
    decide
  obtain ⟨s, hs, hd⟩ := Option.map_eq_some_iff.mp hexec
  obtain ⟨hfirst, hsecond⟩ := Prod.mk.inj hd
  have hsame := (h _ s (Run.of_exec hs)).2 1 2 ⟨_, hfirst⟩ ⟨_, hsecond⟩
  exact absurd hsame (by decide)

end TalonHound.ThreatJobs
