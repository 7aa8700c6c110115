import TalonHound.QueueRecovery.QueueInvariants

/-!
# Live jobs in the queue

The job of a live worker is active under its lock, unless a command of a pass touches it.
-/

namespace TalonHound.QueueRecovery

open Indexed List

variable {config : QueueConfig} {s s' : QueueState} {rows rows' : List QueueRow} {e e' : Execution}
  {t : ℕ} {jobId : String} {bull : BullQueue} {outcome : MoveOutcome}

/-- What holds of the queue, the table and the executions. -/
structure QueueInv (config : QueueConfig) (s : QueueState) : Prop where
  table : RowsInv s.now s.rows s.executions
  lists : ListsInv s.bull
  onTime : ∀ (t : ℕ) (e : Execution), s.executions[t]? = some e → e.stage = .running →
    s.now - e.lastBeat ≤ config.heartbeatIntervalMs ∧ s.now - e.lastBeat ≤ config.staleAfterMs
  live : ∀ (t : ℕ) (e : Execution), s.executions[t]? = some e → Live config s e →
    e.jobId ∈ s.bull.active ∧ s.bull.locks e.jobId = some t

theorem QueueInv.empty (config : QueueConfig) : QueueInv config .empty := by
  refine ⟨⟨nodup_nil, fun t e he => ?_, fun r hr => absurd hr not_mem_nil⟩,
    ⟨fun id hid => absurd hid not_mem_nil, fun id hid => absurd hid not_mem_nil,
      fun id hid => absurd hid not_mem_nil⟩, fun t e he => ?_, fun t e he => ?_⟩
  all_goals cases he

theorem Live.of_tick {elapsed : ℕ} (h : Live config { s with now := s.now + elapsed } e) :
    Live config s e := by
  refine ⟨h.1, fun hbeats => ?_⟩
  have hlive := h.2 hbeats
  dsimp only at hlive
  omega

section

variable (h : QueueInv config s)
include h

theorem QueueInv.tick {elapsed : ℕ}
    (hbeats : heartbeatsOnTime config (s.now + elapsed) s.executions = true) :
    QueueInv config { s with now := s.now + elapsed } := by
  refine ⟨h.table.shrink h.table.keys (fun r hr _ => hr) (fun t e he => ?_) (fun t e he _ => he),
    h.lists, fun t e he hstage => ?_, fun t e he hlive => h.live t e he hlive.of_tick⟩
  · have := h.table.beats t e he
    dsimp only
    omega
  · unfold heartbeatsOnTime at hbeats
    have hbeat := all_eq_true.mp hbeats e (mem_of_getElem? he)
    simpa [hstage] using hbeat

/-- A change of the lists that keeps the active jobs of live workers, and their locks. -/
theorem QueueInv.setBull (hlists : ListsInv bull)
    (hkept : ∀ (t : ℕ) (e : Execution), s.executions[t]? = some e → Live config s e → e.jobId ∈ bull.active ∧ bull.locks e.jobId = some t) :
    QueueInv config { s with bull := bull } :=
  ⟨h.table, hlists, h.onTime, hkept⟩

/-- A job without a lock is not that of a live worker. -/
theorem QueueInv.ne_of_unlocked (hlock : (s.bull.locks jobId).isNone = true)
    (he : s.executions[t]? = some e) (hlive : Live config s e) : e.jobId ≠ jobId := by
  rintro rfl
  rw [(h.live t e he hlive).2] at hlock
  cases hlock

/-- A job leaves the active list, and no live worker executes it. -/
theorem QueueInv.leaveActive (hactive : jobId ∈ s.bull.active)
    (hother : ∀ (t : ℕ) (e : Execution), s.executions[t]? = some e → Live config s e → e.jobId ≠ jobId)
    (outcome : MoveOutcome) :
    QueueInv config { s with bull := s.bull.leaveActive jobId outcome } := by
  refine h.setBull (h.lists.leaveActive hactive outcome) fun t e he hlive => ?_
  obtain ⟨hin, hlock⟩ := h.live t e he hlive
  have hne := hother t e he hlive
  cases outcome with
  | refused => exact ⟨hin, hlock⟩
  | _ => exact ⟨mem_filter.mpr ⟨hin, by simpa using hne⟩, hlock⟩

theorem QueueInv.queueActs {a : BullAction} (hstep : bullStep config s a = some s') :
    QueueInv config s' := by
  cases a with
  | add id =>
    unfold bullStep at hstep
    dsimp only at hstep
    split at hstep
    · cases hstep
      exact h
    · next hfresh =>
      cases hstep
      refine h.setBull ⟨fun j hj => ?_, fun j hj => ?_, fun j hj => ?_⟩ h.live
      · have hj := h.lists.active j hj
        have hne : j ≠ id := fun heq => hfresh (heq ▸ hj.1)
        exact ⟨mem_append_left _ hj.1, by simp [hj.2.1, hne], hj.2.2⟩
      · rcases mem_append.mp hj with hold | hnew
        · have hj := h.lists.waiting j hold
          exact ⟨mem_append_left _ hj.1, hj.2⟩
        · obtain rfl := mem_singleton.mp hnew
          exact ⟨mem_append_right _ hnew, fun hdelayed => hfresh (h.lists.delayed j hdelayed)⟩
      · exact mem_append_left _ (h.lists.delayed j hj)
  | enqueueRow id =>
    cases hstep
    refine ⟨h.table.shrink (keys_upsertJob (fun _ => rfl) h.table.keys) (fun r hr hrunning => ?_)
      h.table.beats (fun t e he _ => he), h.lists, h.onTime, h.live⟩
    rcases mem_upsertJob hr with ⟨r₀, -, -, rfl⟩ | rfl | ⟨hold, -⟩
    · cases hrunning
    · cases hrunning
    · exact hold
  | promote id =>
    obtain ⟨hdelayed, rfl⟩ := Run.enabled hstep
    refine h.setBull ⟨fun j hj => ?_, fun j hj => ?_, fun j hj => ?_⟩ h.live
    · have hj' := h.lists.active j hj
      have hne : j ≠ id := fun heq => hj'.2.2 (heq ▸ hdelayed)
      exact ⟨hj'.1, by simp [hj'.2.1, hne], fun hin => hj'.2.2 (mem_of_mem_filter hin)⟩
    · rcases mem_append.mp hj with hold | hnew
      · have hj := h.lists.waiting j hold
        exact ⟨hj.1, fun hin => hj.2 (mem_of_mem_filter hin)⟩
      · obtain rfl := mem_singleton.mp hnew
        exact ⟨h.lists.delayed j hdelayed, by simp⟩
    · exact h.lists.delayed j (mem_of_mem_filter hj)
  | listStalled =>
    cases hstep
    exact h.setBull ⟨h.lists.active, h.lists.waiting, h.lists.delayed⟩ h.live
  | stalledToWait id | stalledToFailed id =>
    obtain ⟨hstalled, rfl⟩ := Run.enabled hstep
    exact h.leaveActive hstalled.1 (fun t e he hlive => h.ne_of_unlocked hstalled.2 he hlive) _
  | lockExpires id =>
    obtain ⟨hidle, rfl⟩ := Run.enabled hstep
    refine h.setBull ⟨h.lists.active, h.lists.waiting, h.lists.delayed⟩ fun t e he hlive => ?_
    obtain ⟨hin, hlock⟩ := h.live t e he hlive
    refine ⟨hin, ?_⟩
    have hne : e.jobId ≠ id := by
      rintro rfl
      rw [hlock] at hidle
      simp [he, hlive.1] at hidle
    dsimp only
    rw [if_neg hne]
    exact hlock
  | remove id =>
    unfold bullStep at hstep
    dsimp only at hstep
    split at hstep
    · cases hstep
    · next hnone =>
      cases hstep
      push Not at hnone
      obtain ⟨hactive, hwaiting, hdelayed⟩ := hnone
      have hkept : ∀ j, j ∈ s.bull.jobs → j ≠ id → j ∈ s.bull.jobs.filter (· ≠ id) := fun j hj hne =>
        mem_filter.mpr ⟨hj, by simpa using hne⟩
      refine h.setBull ⟨fun j hj => ?_, fun j hj => ?_, fun j hj => ?_⟩ h.live
      · have hj' := h.lists.active j hj
        exact ⟨hkept j hj'.1 fun heq => hactive (heq ▸ hj), hj'.2⟩
      · have hj' := h.lists.waiting j hj
        exact ⟨hkept j hj'.1 fun heq => hwaiting (heq ▸ hj), hj'.2⟩
      · exact hkept j (h.lists.delayed j hj) fun heq => hdelayed (heq ▸ hj)

theorem QueueInv.pick (hwaiting : jobId ∈ s.bull.waiting) :
    QueueInv config { s with
      bull := { s.bull with
        waiting := s.bull.waiting.filter (· ≠ jobId)
        active := s.bull.active ++ [jobId]
        locks := fun id => if id = jobId then some s.executions.length else s.bull.locks id }
      executions := s.executions ++ [⟨jobId, .picked, s.now, s.now⟩] } := by
  have hjob := h.lists.waiting jobId hwaiting
  refine ⟨h.table.shrink h.table.keys (fun r hr _ => hr) (fun t e he => ?_) (fun t e he hstage => ?_),
    ⟨fun j hj => ?_, fun j hj => ?_, h.lists.delayed⟩, fun t e he hstage => ?_, fun t e he hlive => ?_⟩
  · rcases getElem?_append_cases he with ⟨-, rfl⟩ | hold
    · exact le_refl _
    · exact h.table.beats t e hold
  · rcases getElem?_append_cases he with ⟨-, rfl⟩ | hold
    · cases hstage
    · exact hold
  · rcases mem_append.mp hj with hold | hnew
    · have hj := h.lists.active j hold
      exact ⟨hj.1, fun hin => hj.2.1 (mem_of_mem_filter hin), hj.2.2⟩
    · obtain rfl := mem_singleton.mp hnew
      exact ⟨hjob.1, by simp, hjob.2⟩
  · exact h.lists.waiting j (mem_of_mem_filter hj)
  · rcases getElem?_append_cases he with ⟨-, rfl⟩ | hold
    · cases hstage
    · exact h.onTime t e hold hstage
  · rcases getElem?_append_cases he with ⟨rfl, rfl⟩ | hold
    · exact ⟨mem_append_right _ (mem_singleton_self _), if_pos rfl⟩
    · obtain ⟨hin, hlock⟩ := h.live t e hold hlive
      have hne : e.jobId ≠ jobId := fun heq => (h.lists.active _ hin).2.1 (heq ▸ hwaiting)
      refine ⟨mem_append_left _ hin, ?_⟩
      dsimp only
      rw [if_neg hne]
      exact hlock

/-- A worker goes on with its job. -/
theorem QueueInv.setExecution (he : s.executions[t]? = some e) (hjob : e'.jobId = e.jobId)
    (hlive : Live config s e' → Live config s e) (hbeat : e'.stage = .running → e'.lastBeat = s.now)
    (htable : RowsInv s.now rows' (s.executions.set t e')) :
    QueueInv config { QueueRecovery.setExecution s t e' with rows := rows' } := by
  refine ⟨htable, h.lists, fun t' e'' he'' hstage => ?_, fun t' e'' he'' hlive'' => ?_⟩
  · rcases getElem?_set_cases he'' with ⟨-, rfl⟩ | ⟨-, hold⟩
    · rw [hbeat hstage]
      have hinterval := config.heartbeatIntervalMs_pos
      have hstale := config.staleAfterMs_pos
      change s.now - s.now ≤ _ ∧ s.now - s.now ≤ _
      omega
    · exact h.onTime t' e'' hold hstage
  · rcases getElem?_set_cases he'' with ⟨rfl, rfl⟩ | ⟨-, hold⟩
    · rw [hjob]
      exact h.live t' e he (hlive hlive'')
    · exact h.live t' e'' hold hlive''

/-- A worker leaves its job, with the job if it holds the lock. -/
theorem QueueInv.leaveJob (e' : Execution) (he : s.executions[t]? = some e)
    (hleft : e'.executing = false) (hbeat : e'.lastBeat = e.lastBeat) (hstage : e'.stage ≠ .running)
    (outcome : MoveOutcome) :
    QueueInv config { QueueRecovery.setExecution s t e' with
      bull := QueueRecovery.leaveJob s.bull t e.jobId outcome } := by
  refine ⟨h.table.leave he hbeat hstage h.table.keys fun r hr _ => hr, h.lists.leaveJob,
    fun t' e'' he'' hrunning => ?_, fun t' e'' he'' hlive => ?_⟩
  · rcases getElem?_set_cases he'' with ⟨-, rfl⟩ | ⟨-, hold⟩
    · exact absurd hrunning hstage
    · exact h.onTime t' e'' hold hrunning
  · rcases getElem?_set_cases he'' with ⟨-, rfl⟩ | ⟨hne, hold⟩
    · exact absurd hlive.1 (by simp [hleft])
    · obtain ⟨hin, hlock⟩ := h.live t' e'' hold hlive
      unfold QueueRecovery.leaveJob
      split
      · next hown =>
        -- The lock is that of the worker that leaves, so the other one has another job.
        have hother : e''.jobId ≠ e.jobId := by
          intro hsame
          rw [hsame, hown] at hlock
          exact hne (Option.some.inj hlock).symm
        dsimp only
        rw [if_neg hother]
        refine ⟨?_, hlock⟩
        split
        · cases outcome with
          | refused => exact hin
          | _ => exact mem_filter.mpr ⟨hin, by simpa using hother⟩
        · exact hin
      · exact ⟨hin, hlock⟩

end

end TalonHound.QueueRecovery
