import TalonHound.InferenceScheduler.HostedRun

/-!
# No two holders of one slot

A holder gives its slot up when a check finds the last confirmation too old. Its row is
reclaimed once the expiry that the database wrote has passed. The confirmation counts from the
moment a heartbeat is sent, which the expiry lies a whole lease after; but the first one counts
from the reply to the grant, and the expiry from the start of the transaction. A holder is safe
as long as the check that would give its slot up is due by the expiry of its row.
-/

namespace TalonHound.InferenceScheduler

variable {cfg : SchedulerConfig} {endpoint : Endpoint} {now stamp : ℕ} {t : Token}
variable {rows rows' : List LeaseRow} {T' : LeaseTable} {s s' : HostedState}

/-- The instant that a handle counts its lease from once every reply is in. -/
def Handle.claimedUpTo (h : Handle) : ℕ :=
  match h.renewing with
  | some renewal => renewal.sentAt
  | none => h.timer.confirmed

/-- The reply to a grant comes so early that the check that would give the slot up is due by
the expiry of its row. -/
def Call.GrantInTime (cfg : SchedulerConfig) (now : ℕ) : Call → Prop
  | .granted startedAt =>
    (LeaseTimer.start now).lossCheck cfg.timing ≤ startedAt + cfg.holdLeaseMs
  | _ => True

/-- So it is after a heartbeat that its holder gave up on, and that runs with `NOW()` at
`stamp`. -/
def Call.StrayInTime (cfg : SchedulerConfig) (stamp : ℕ) : Call → Prop
  | .holding h => (h.timer.confirm h.claimedUpTo).lossCheck cfg.timing ≤ stamp + cfg.holdLeaseMs
  | _ => True

/-- The condition on a step. -/
def InTime (cfg : SchedulerConfig) (s : HostedState) : HostedAction → Prop
  | .grantReply t => (s.calls t).GrantInTime cfg s.now
  | .runStray t _ stamp => (s.calls t).StrayInTime cfg stamp
  | _ => True

instance (cfg : SchedulerConfig) (now : ℕ) : (call : Call) → Decidable (call.GrantInTime cfg now)
  | .granted _ => Nat.decLe _ _
  | .idle | .waiting | .claiming _ | .holding _ | .lost | .released | .failed => instDecidableTrue

instance (cfg : SchedulerConfig) (stamp : ℕ) :
    (call : Call) → Decidable (call.StrayInTime cfg stamp)
  | .holding _ => Nat.decLe _ _
  | .idle | .waiting | .claiming _ | .granted _ | .lost | .released | .failed => instDecidableTrue

instance (cfg : SchedulerConfig) (s : HostedState) (a : HostedAction) :
    Decidable (InTime cfg s a) := by
  cases a <;> unfold InTime <;> infer_instance

/-- The row of a heartbeat that ran outlasts the check that the reply will allow for. -/
structure RenewalInv (cfg : SchedulerConfig) (now : ℕ) (rows : List LeaseRow) (t : Token)
    (timer : LeaseTimer) (renewal : Renewal) : Prop where
  later : timer.confirmed ≤ renewal.sentAt
  sent : renewal.sentAt ≤ now
  atCheck : ∃ n, renewal.sentAt = timer.origin + cfg.timing.period * n
  covered : renewal.answer = some true →
    Covers rows t ((timer.confirm renewal.sentAt).lossCheck cfg.timing)

/-- The row of a handle outlasts the check that would give the slot up. -/
structure HandleInv (cfg : SchedulerConfig) (now : ℕ) (rows : List LeaseRow) (t : Token)
    (h : Handle) : Prop where
  alive : h.timer.Alive cfg.timing
  due : now ≤ h.timer.nextCheck cfg.timing
  confirmed : h.timer.confirmed ≤ now
  covered : Covers rows t (h.timer.lossCheck cfg.timing)
  span : cfg.timing.period * (cfg.timing.deadline ⌈/⌉ cfg.timing.period) ≤ cfg.holdLeaseMs
  renewal : ∀ r, h.renewing = some r → RenewalInv cfg now rows t h.timer r

/-- What the stage of a call says about the rows. -/
def CallInv (cfg : SchedulerConfig) (now : ℕ) (rows : List LeaseRow) (t : Token) : Call → Prop
  | .claiming startedAt => startedAt ≤ now
  | .granted startedAt =>
    startedAt ≤ now ∧
      (Covers rows t (startedAt + cfg.holdLeaseMs) ∨ startedAt + cfg.holdLeaseMs < now)
  | .holding h => HandleInv cfg now rows t h
  | _ => True

/-- The call has had a slot. -/
def Call.Held : Call → Prop
  | .holding _ => True
  | .lost => True
  | .released => True
  | _ => False

/-- The invariant. -/
structure HostedInv (cfg : SchedulerConfig) (endpoint : Endpoint) (s : HostedState) : Prop where
  table : HostedTable endpoint s.table
  calls : ∀ t, CallInv cfg s.now s.table.rows t (s.calls t)
  joined : ∀ t, s.calls t ≠ .idle → t ∈ s.joined
  stray : ∀ p ∈ s.stray, (s.calls p.1).Held

/-- A handle is in time for the check that would give its slot up. -/
theorem HandleInv.now_le {h : Handle} (hinv : HandleInv cfg now rows t h) :
    now ≤ h.timer.lossCheck cfg.timing :=
  Nat.le_trans hinv.due hinv.alive

/-- Only the slots that are still to expire matter. -/
theorem CallInv.frame {call : Call} (h : CallInv cfg now rows t call)
    (hkeep : ∀ e, now ≤ e → Covers rows t e → Covers rows' t e) : CallInv cfg now rows' t call := by
  cases call with
  | granted startedAt =>
    obtain ⟨hstarted, hcovers | hpast⟩ := h
    · refine ⟨hstarted, ?_⟩
      by_cases hlive : now ≤ startedAt + cfg.holdLeaseMs
      · exact Or.inl (hkeep _ hlive hcovers)
      · exact Or.inr (by omega)
    · exact ⟨hstarted, Or.inr hpast⟩
  | holding handle =>
    refine { h with covered := hkeep _ h.now_le h.covered, renewal := ?_ }
    intro r hr
    have hrenewal := h.renewal r hr
    exact { hrenewal with
      covered := fun hanswer => hkeep _
        (Nat.le_trans h.now_le (LeaseTimer.lossCheck_le_confirm hrenewal.later))
        (hrenewal.covered hanswer) }
  | _ => exact h

/-- A call that nothing moves stays as it is while time passes. -/
theorem CallInv.elapse {call : Call} {ms : ℕ} (h : CallInv cfg now rows t call)
    (hdue : call.UndisturbedUntil cfg (now + ms)) : CallInv cfg (now + ms) rows t call := by
  cases call with
  | claiming startedAt => exact Nat.le_trans h (Nat.le_add_right _ _)
  | granted startedAt =>
    obtain ⟨hstarted, hrow⟩ := h
    refine ⟨Nat.le_trans hstarted (Nat.le_add_right _ _), ?_⟩
    rcases hrow with hcovers | hpast
    · exact Or.inl hcovers
    · exact Or.inr (Nat.lt_of_lt_of_le hpast (Nat.le_add_right _ _))
  | holding handle =>
    refine { h with due := hdue, confirmed := Nat.le_trans h.confirmed (Nat.le_add_right _ _),
                    renewal := ?_ }
    intro r hr
    have hrenewal := h.renewal r hr
    exact { hrenewal with sent := Nat.le_trans hrenewal.sent (Nat.le_add_right _ _) }
  | _ => trivial

namespace HostedInv

section

variable (hinv : HostedInv cfg endpoint s)
include hinv

/-- A call moves on, and the rows change for it alone. -/
theorem move {c : Call} (htable : HostedTable endpoint T')
    (hkeep : ∀ u, u ≠ t → ∀ e, s.now ≤ e → Covers s.table.rows u e → Covers T'.rows u e)
    (hcall : CallInv cfg s.now T'.rows t c) (hactive : s.calls t ≠ .idle)
    (hheld : (s.calls t).Held → c.Held) :
    HostedInv cfg endpoint { s.setCall t c with table := T' } where
  table := htable
  calls u := by
    by_cases hu : u = t
    · subst hu
      simpa [HostedState.setCall] using hcall
    · have hframe := (hinv.calls u).frame (hkeep u hu)
      simpa [HostedState.setCall, hu] using hframe
  joined u hu := by
    by_cases hut : u = t
    · exact hut ▸ hinv.joined t hactive
    · exact hinv.joined u (by simpa [HostedState.setCall, hut] using hu)
  stray p hp := by
    by_cases hpt : p.1 = t
    · have hold := hinv.stray p hp
      rw [hpt] at hold
      simpa [HostedState.setCall, hpt] using hheld hold
    · simpa [HostedState.setCall, hpt] using hinv.stray p hp

/-- A call moves on, and no row changes. -/
theorem setCall {c : Call} (hcall : CallInv cfg s.now s.table.rows t c)
    (hactive : s.calls t ≠ .idle) (hheld : (s.calls t).Held → c.Held) :
    HostedInv cfg endpoint (s.setCall t c) :=
  hinv.move hinv.table (fun _ _ _ _ h => h) hcall hactive hheld

theorem handle {h : Handle} (hcall : s.calls t = .holding h) :
    HandleInv cfg s.now s.table.rows t h := by
  have hcallInv := hinv.calls t
  rwa [hcall] at hcallInv

/-- A heartbeat may be left to run. -/
theorem abandon {h : Handle} (hcall : s.calls t = .holding h) :
    HostedInv cfg endpoint (s.abandon t h) := by
  unfold HostedState.abandon
  split
  · refine { hinv with stray := ?_ }
    intro p hp
    rcases List.mem_cons.mp hp with rfl | hp
    · change (s.calls t).Held
      rw [hcall]
      trivial
    · exact hinv.stray p hp
  · exact hinv

end

section

variable (hinv : HostedInv cfg endpoint s)

include hinv

theorem step_elapse {ms : ℕ} (hstep : hostedStep cfg endpoint s (.elapse ms) = some s') :
    HostedInv cfg endpoint s' := by
  obtain ⟨hdue, rfl⟩ := Run.enabled hstep
  refine { hinv with calls := fun t => (hinv.calls t).elapse ?_ }
  by_cases hidle : s.calls t = .idle
  · rw [hidle]
    trivial
  · exact hdue t (hinv.joined t hidle)

theorem step_join (hstep : hostedStep cfg endpoint s (.join t stamp) = some s') :
    HostedInv cfg endpoint s' := by
  unfold hostedStep at hstep
  dsimp only at hstep
  split at hstep
  · next hidle =>
    split at hstep
    · obtain ⟨T', hinsert, rfl⟩ := Option.map_eq_some_iff.mp hstep
      have hframe : ∀ u, CallInv cfg s.now T'.rows u (s.calls u) := fun u =>
        (hinv.calls u).frame fun e _ h => h.insert hinsert
      refine ⟨hinv.table.insert hinsert, ?_, ?_, ?_⟩
      · intro u
        by_cases hu : u = t
        · simp [HostedState.setCall, hu, CallInv]
        · simpa [HostedState.setCall, hu] using hframe u
      · intro u hcall
        by_cases hu : u = t
        · exact hu ▸ List.mem_cons_self
        · exact List.mem_cons_of_mem _ (hinv.joined u (by simpa [HostedState.setCall, hu] using hcall))
      · intro p hp
        have hold := hinv.stray p hp
        by_cases hu : p.1 = t
        · rw [hu, hidle] at hold
          exact hold.elim
        · simpa [HostedState.setCall, hu] using hold
    · cases hstep
  · cases hstep

theorem step_claim (hstep : hostedStep cfg endpoint s (.claim t) = some s') :
    HostedInv cfg endpoint s' := by
  unfold hostedStep at hstep
  dsimp only at hstep
  split at hstep
  · next startedAt hcall =>
    have hactive : s.calls t ≠ .idle := by rw [hcall]; simp
    have hstarted : startedAt ≤ s.now := by
      have h := hinv.calls t
      rwa [hcall] at h
    split at hstep
    · cases hstep
      exact hinv.setCall trivial hactive (by rw [hcall]; exact False.elim)
    · next T' view hclaim =>
      cases hstep
      refine hinv.move (hinv.table.claim hclaim) ?_ ?_ hactive (by rw [hcall]; exact False.elim)
      · intro u hu e hlive hcovers
        exact hcovers.claim hinv.table.unique hu (Nat.le_trans hstarted hlive) hclaim
      · cases hacquired : view.acquired with
        | true =>
          exact ⟨hstarted, Or.inl (covers_of_granted hinv.table.unique hclaim hacquired)⟩
        | false => trivial
  · cases hstep

/-- The handle of a reply in time: its row outlasts the check. -/
theorem step_grantReply (htime : InTime cfg s (.grantReply t))
    (hstep : hostedStep cfg endpoint s (.grantReply t) = some s') : HostedInv cfg endpoint s' := by
  unfold hostedStep at hstep
  dsimp only at hstep
  split at hstep
  · next startedAt hcall =>
    cases hstep
    have htime : (LeaseTimer.start s.now).lossCheck cfg.timing ≤ startedAt + cfg.holdLeaseMs := by
      simpa [InTime, hcall, Call.GrantInTime] using htime
    obtain ⟨hstarted, hrow⟩ : startedAt ≤ s.now ∧ (Covers s.table.rows t
        (startedAt + cfg.holdLeaseMs) ∨ startedAt + cfg.holdLeaseMs < s.now) := by
      have h := hinv.calls t
      rwa [hcall] at h
    have hspan := LeaseTimer.lossCheck_start (T := cfg.timing) s.now
    refine hinv.setCall (c := .holding ⟨LeaseTimer.start s.now, none⟩) ?_ (by rw [hcall]; simp)
      (by rw [hcall]; exact False.elim)
    have hcovers : Covers s.table.rows t (startedAt + cfg.holdLeaseMs) := by
      rcases hrow with hcovers | hpast
      · exact hcovers
      · omega
    exact {
      alive := LeaseTimer.alive_start s.now
      due := Nat.le_add_right _ _
      confirmed := Nat.le_refl _
      covered := hcovers.mono htime
      span := by omega
      renewal := by simp }
  · cases hstep

theorem step_deleteLease (hstep : hostedStep cfg endpoint s (.deleteLease t) = some s') :
    HostedInv cfg endpoint s' := by
  have hdelete : (∀ h, s.calls t ≠ .holding h) → (∀ n, s.calls t ≠ .granted n) →
      HostedInv cfg endpoint { s with table := deleteLease t s.table } := by
    intro hholding hgranted
    refine { hinv with table := hinv.table.delete, calls := ?_ }
    intro u
    by_cases hu : u = t
    · have h := hinv.calls t
      subst hu
      cases hcall : s.calls u with
      | granted n => exact absurd hcall (hgranted n)
      | holding h => exact absurd hcall (hholding h)
      | claiming n => rwa [hcall] at h
      | _ => trivial
    · exact (hinv.calls u).frame fun e _ h => h.delete hu
  unfold hostedStep at hstep
  dsimp only at hstep
  split at hstep
  · next hcall =>
    cases hstep
    exact hdelete (by simp [hcall]) (by simp [hcall])
  · next hcall =>
    cases hstep
    exact hdelete (by simp [hcall]) (by simp [hcall])
  · cases hstep

/-- A check gives the slot up, or leaves time until the next one. -/
theorem step_check (hstep : hostedStep cfg endpoint s (.check t) = some s') :
    HostedInv cfg endpoint s' := by
  unfold hostedStep at hstep
  dsimp only at hstep
  split at hstep
  · next h hcall =>
    obtain ⟨hnow, rfl⟩ := Run.enabled hstep
    have hactive : s.calls t ≠ .idle := by rw [hcall]; simp
    have hhandle := hinv.handle hcall
    have hconfirmed := hhandle.confirmed
    unfold checkHandle
    split
    · exact (hinv.abandon hcall).setCall trivial (by rwa [HostedState.abandon_calls])
        (fun _ => trivial)
    · next hyoung =>
      have hfire : h.timer.fire.Alive cfg.timing := LeaseTimer.Alive.fire (by omega)
      have hdue : s.now ≤ h.timer.fire.nextCheck cfg.timing := by
        rw [hnow]
        exact Nat.add_le_add_left (Nat.mul_le_mul_left _ (by simp [LeaseTimer.fire])) _
      split
      · refine hinv.setCall (c := .holding _) ?_ hactive fun _ => trivial
        exact { hhandle with
          alive := hfire
          due := hdue
          renewal := fun r hr => { hhandle.renewal r hr with } }
      · refine hinv.setCall (c := .holding _) ?_ hactive fun _ => trivial
        refine { hhandle with alive := hfire, due := hdue, renewal := ?_ }
        rintro r hr
        cases hr
        exact ⟨hconfirmed, Nat.le_refl _, ⟨h.timer.fired + 1, hnow⟩, by simp⟩
  · cases hstep

/-- The expiry that a heartbeat writes lies a whole lease after it was sent. -/
theorem step_runRenewal (hstep : hostedStep cfg endpoint s (.runRenewal t stamp) = some s') :
    HostedInv cfg endpoint s' := by
  unfold hostedStep at hstep
  dsimp only at hstep
  split at hstep
  · next timer sentAt hcall =>
    obtain ⟨hstamp, rfl⟩ := Run.enabled hstep
    have hhandle := hinv.handle hcall
    have hrenewal := hhandle.renewal _ rfl
    have hcovers : Covers (renewLease cfg stamp t s.table).1.rows t (stamp + cfg.holdLeaseMs) :=
      hhandle.covered.renew_self fun r hr => (hinv.table.hosted r hr).2
    have hloss : (timer.confirm sentAt).lossCheck cfg.timing ≤ stamp + cfg.holdLeaseMs := by
      obtain ⟨n, hn⟩ := hrenewal.atCheck
      have hn : sentAt = timer.origin + cfg.timing.period * n := hn
      have hspan := hhandle.span
      rw [hn, LeaseTimer.lossCheck_confirm_check, ← hn]
      omega
    have hlater := LeaseTimer.lossCheck_le_confirm (T := cfg.timing) hrenewal.later
    refine hinv.move (c := .holding _) hinv.table.renew ?_ ?_ (by simp [hcall]) fun _ => trivial
    · intro u hu e _ h
      exact h.renew hu
    · refine { hhandle with covered := hcovers.mono (Nat.le_trans hlater hloss), renewal := ?_ }
      intro r hr
      cases hr
      exact { hrenewal with covered := fun _ => hcovers.mono hloss }
  · cases hstep

theorem step_renewalReply (hstep : hostedStep cfg endpoint s (.renewalReply t) = some s') :
    HostedInv cfg endpoint s' := by
  unfold hostedStep at hstep
  dsimp only at hstep
  split at hstep
  · next timer sentAt updated hcall =>
    have hactive : s.calls t ≠ .idle := by rw [hcall]; simp
    have hhandle := hinv.handle hcall
    have hrenewal := hhandle.renewal _ rfl
    split at hstep
    · next hupdated =>
      cases hstep
      refine hinv.setCall (c := .holding _) ?_ hactive fun _ => trivial
      exact { hhandle with
        alive := hhandle.alive.confirm hrenewal.later
        confirmed := hrenewal.sent
        covered := hrenewal.covered (by rw [hupdated])
        renewal := by simp }
    · cases hstep
      exact hinv.setCall trivial hactive fun _ => trivial
  · cases hstep

theorem step_renewalFails (hstep : hostedStep cfg endpoint s (.renewalFails t) = some s') :
    HostedInv cfg endpoint s' := by
  unfold hostedStep at hstep
  dsimp only at hstep
  split at hstep
  · next h hcall =>
    obtain ⟨-, rfl⟩ := Run.enabled hstep
    have hhandle := hinv.handle hcall
    refine (hinv.abandon hcall).setCall (c := .holding _) ?_ ?_ fun _ => trivial
    · rw [HostedState.abandon_now, HostedState.abandon_table]
      exact { hhandle with renewal := by simp }
    · rw [HostedState.abandon_calls, hcall]
      simp
  · cases hstep

/-- A heartbeat that nobody waits for runs in time. -/
theorem step_runStray {sentAt : ℕ} (htime : InTime cfg s (.runStray t sentAt stamp))
    (hstep : hostedStep cfg endpoint s (.runStray t sentAt stamp) = some s') :
    HostedInv cfg endpoint s' := by
  obtain ⟨hstray, rfl⟩ := Run.enabled hstep
  have hheld : (s.calls t).Held := hinv.stray _ hstray.1
  refine { hinv with table := hinv.table.renew, calls := ?_, stray := ?_ }
  · intro u
    by_cases hu : u = t
    · subst hu
      have hcallInv := hinv.calls u
      cases hcall : s.calls u with
      | holding h =>
        rw [hcall] at hcallInv
        have hhandle : HandleInv cfg s.now s.table.rows u h := hcallInv
        have hcovers : Covers (renewLease cfg stamp u s.table).1.rows u (stamp + cfg.holdLeaseMs) :=
          hhandle.covered.renew_self fun r hr => (hinv.table.hosted r hr).2
        have hloss : (h.timer.confirm h.claimedUpTo).lossCheck cfg.timing ≤
            stamp + cfg.holdLeaseMs := by simpa [InTime, hcall, Call.StrayInTime] using htime
        have hlater : h.timer.confirmed ≤ h.claimedUpTo := by
          unfold Handle.claimedUpTo
          split
          · next r hr => exact (hhandle.renewal r hr).later
          · exact Nat.le_refl _
        have hown := LeaseTimer.lossCheck_le_confirm (T := cfg.timing) hlater
        refine { hhandle with covered := hcovers.mono (Nat.le_trans hown hloss), renewal := ?_ }
        intro r hr
        have hclaimed : h.claimedUpTo = r.sentAt := by simp [Handle.claimedUpTo, hr]
        rw [hclaimed] at hloss
        exact { hhandle.renewal r hr with covered := fun _ => hcovers.mono hloss }
      | lost => trivial
      | released => trivial
      | _ =>
        rw [hcall] at hheld
        exact hheld.elim
    · exact (hinv.calls u).frame fun e _ h => h.renew hu
  · intro p hp
    exact hinv.stray p (List.mem_of_mem_erase hp)

theorem step_release (hstep : hostedStep cfg endpoint s (.release t) = some s') :
    HostedInv cfg endpoint s' := by
  unfold hostedStep at hstep
  dsimp only at hstep
  split at hstep
  · next h hcall =>
    cases hstep
    exact (hinv.abandon hcall).setCall trivial
      (by rw [HostedState.abandon_calls, hcall]; simp) (fun _ => trivial)
  · next hcall =>
    cases hstep
    exact hinv.setCall trivial (by rw [hcall]; simp) (fun _ => trivial)
  · cases hstep

theorem step_begin (hstep : hostedStep cfg endpoint s (.begin t) = some s') :
    HostedInv cfg endpoint s' := by
  unfold hostedStep at hstep
  dsimp only at hstep
  split at hstep
  · next hcall =>
    cases hstep
    exact hinv.setCall (c := .claiming s.now) (Nat.le_refl s.now) (by rw [hcall]; simp)
      (by rw [hcall]; exact False.elim)
  · cases hstep

/-- A call without a slot goes back to waiting, or fails. -/
theorem step_claimFails (hstep : hostedStep cfg endpoint s (.claimFails t) = some s') :
    HostedInv cfg endpoint s' := by
  unfold hostedStep at hstep
  dsimp only at hstep
  split at hstep
  · next hcall =>
    cases hstep
    exact hinv.setCall trivial (by rw [hcall]; simp) (by rw [hcall]; exact False.elim)
  · next hcall =>
    cases hstep
    exact hinv.setCall trivial (by rw [hcall]; simp) (by rw [hcall]; exact False.elim)
  · cases hstep

theorem step_acquireFails (hstep : hostedStep cfg endpoint s (.acquireFails t) = some s') :
    HostedInv cfg endpoint s' := by
  unfold hostedStep at hstep
  dsimp only at hstep
  split at hstep
  · next hcall =>
    cases hstep
    exact hinv.setCall trivial (by rw [hcall]; simp) (by rw [hcall]; exact False.elim)
  · cases hstep

/-- Every step in time keeps the rows of the holders. -/
theorem step {a : HostedAction} (htime : InTime cfg s a)
    (hstep : hostedStep cfg endpoint s a = some s') : HostedInv cfg endpoint s' := by
  cases a with
  | elapse ms => exact hinv.step_elapse hstep
  | join t stamp => exact hinv.step_join hstep
  | begin t => exact hinv.step_begin hstep
  | claim t => exact hinv.step_claim hstep
  | claimFails t => exact hinv.step_claimFails hstep
  | grantReply t => exact hinv.step_grantReply htime hstep
  | acquireFails t => exact hinv.step_acquireFails hstep
  | deleteLease t => exact hinv.step_deleteLease hstep
  | check t => exact hinv.step_check hstep
  | runRenewal t stamp => exact hinv.step_runRenewal hstep
  | renewalReply t => exact hinv.step_renewalReply hstep
  | renewalFails t => exact hinv.step_renewalFails hstep
  | runStray t sentAt stamp => exact hinv.step_runStray htime hstep
  | release t => exact hinv.step_release hstep

end

theorem initial (now : ℕ) : HostedInv cfg endpoint (.initial now) where
  table := ⟨List.nodup_nil, by simp [HostedState.initial], Nat.zero_le _⟩
  calls _ := trivial
  joined t h := absurd rfl h
  stray p hp := by simp [HostedState.initial] at hp

end HostedInv

/-- Each holder has a row of its own, so there are no more holders than slots. -/
theorem HostedInv.believers_le (hinv : HostedInv cfg endpoint s) (holders : Finset Token)
    (h : ∀ t ∈ holders, s.Believes t) : holders.card ≤ endpoint.acquireCapacity := by
  have hsub : ∀ t ∈ holders,
      t ∈ (s.table.rows.filter fun r => r.state = .holding).map LeaseRow.token := by
    intro t ht
    obtain ⟨handle, hcall⟩ := h t ht
    have hhandle := hinv.calls t
    rw [hcall] at hhandle
    obtain ⟨r, hr, htoken, hstate, -⟩ := HandleInv.covered hhandle
    exact List.mem_map.mpr ⟨r, List.mem_filter.mpr ⟨hr, by simpa using hstate⟩, htoken⟩
  calc holders.card
      ≤ ((s.table.rows.filter fun r => r.state = .holding).map LeaseRow.token).toFinset.card :=
        Finset.card_le_card fun t ht => List.mem_toFinset.mpr (hsub t ht)
    _ ≤ ((s.table.rows.filter fun r => r.state = .holding).map LeaseRow.token).length :=
        List.toFinset_card_le _
    _ = holdingCount s.table.rows := by
        rw [List.length_map, holdingCount, List.countP_eq_length_filter]
    _ ≤ endpoint.acquireCapacity := hinv.table.within

/-- While the steps are in time, no more `acquire` calls believe that they own a slot of a
hosted endpoint than it has slots. -/
theorem hosted_believers_le_capacity (start : ℕ) {actions : List HostedAction}
    (hrun : Run (hostedStep cfg endpoint) (InTime cfg) (.initial start) actions s)
    (holders : Finset Token) (h : ∀ t ∈ holders, s.Believes t) :
    holders.card ≤ endpoint.acquireCapacity :=
  (Run.invariant (fun _ _ _ hinv htime hstep => HostedInv.step hinv htime hstep) hrun
    (HostedInv.initial start)).believers_le holders h

/-- An endpoint with one slot. -/
def oneSlot : Endpoint := ⟨1, none⟩

/-- A grant, and a heartbeat that the reply confirms. -/
def renewedGrant : List HostedAction :=
  [.join 1 0, .begin 1, .elapse 400, .claim 1, .elapse 29000, .grantReply 1, .elapse 15000, .check 1,
    .elapse 2000, .runRenewal 1 45000, .elapse 10000, .renewalReply 1]

theorem hosted_believers_le_capacity_renewed :
    ∃ s, Run (hostedStep schedulerDefaults oneSlot) (InTime schedulerDefaults) (.initial 0)
        renewedGrant s ∧ s.Believes 1 ∧ ({1} : Finset Token).card ≤ oneSlot.acquireCapacity := by
  have hexec : (Run.exec (hostedStep schedulerDefaults oneSlot) (InTime schedulerDefaults)
      (.initial 0) renewedGrant).isSome = true := by decide
  obtain ⟨s, hs⟩ := Option.isSome_iff_exists.mp hexec
  have hcall : (Run.exec (hostedStep schedulerDefaults oneSlot) (InTime schedulerDefaults)
      (.initial 0) renewedGrant).map (fun s => s.calls 1) =
        some (.holding ⟨⟨29400, 44400, 1⟩, none⟩) := by decide
  rw [hs, Option.map_some] at hcall
  have hbelieves : s.Believes 1 := ⟨_, Option.some.inj hcall⟩
  have hrun := Run.of_exec hs
  refine ⟨s, hrun, hbelieves, hosted_believers_le_capacity 0 hrun {1} ?_⟩
  intro t ht
  rw [Finset.mem_singleton] at ht
  rw [ht]
  exact hbelieves

/-- The reply to the first grant takes 59 seconds. A second later its row has expired, and the
slot is granted again, while the first holder counts its lease from the reply. -/
def slowGrant : List HostedAction :=
  [.join 1 0, .begin 1, .claim 1, .elapse 59000, .grantReply 1, .elapse 1001, .join 2 60001, .begin 2,
    .claim 2, .grantReply 2]

/-- When every delay is possible, two calls believe that they own the one slot. -/
theorem hosted_believers_exceed_capacity :
    ¬ ∀ (actions : List HostedAction) (s : HostedState) (holders : Finset Token),
      Run (hostedStep schedulerDefaults oneSlot) (fun _ _ => True) (.initial 0) actions s →
        (∀ t ∈ holders, s.Believes t) → holders.card ≤ oneSlot.acquireCapacity := by
  intro h
  have hexec : (Run.exec (hostedStep schedulerDefaults oneSlot) (fun _ _ => True)
      (.initial 0) slowGrant).map (fun s => (s.calls 1, s.calls 2)) =
        some (.holding ⟨.start 59000, none⟩, .holding ⟨.start 60001, none⟩) := by decide
  obtain ⟨s, hs, hcalls⟩ := Option.map_eq_some_iff.mp hexec
  obtain ⟨hfirst, hsecond⟩ := Prod.mk.inj hcalls
  have hcard := h slowGrant s {1, 2} (Run.of_exec hs) (by
    intro t ht
    rw [Finset.mem_insert, Finset.mem_singleton] at ht
    rcases ht with rfl | rfl
    · exact ⟨_, hfirst⟩
    · exact ⟨_, hsecond⟩)
  exact absurd hcard (by decide)

end TalonHound.InferenceScheduler
