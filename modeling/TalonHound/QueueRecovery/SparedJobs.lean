import TalonHound.QueueRecovery.PassInvariants

/-!
# Recovery spares live jobs

Under the condition that a pass touches the job of a live worker only where it is up to date, it
touches none: what is up to date it has spared when it planned.
-/

namespace TalonHound.QueueRecovery

open List

variable {config : QueueConfig} {s : QueueState} {p : Pass} {r row : QueueRow} {e : Execution}
  {t : ℕ} {jobId id : String} {bull : BullQueue} {op : Op} {ops : List Op} {type : FailureType}
  {bullState : BullState} {isGhost : Bool}

theorem mem_decidedRows {decide : QueueRow → Option FailureType} {rows : List QueueRow}
    (h : (id, type) ∈ decidedRows decide rows) : ∃ row ∈ rows, row.jobId = id ∧ decide row = some type := by
  obtain ⟨row, hrow, hdecided⟩ := mem_filterMap.mp h
  obtain ⟨type', htype, hpair⟩ := Option.map_eq_some_iff.mp hdecided
  obtain ⟨rfl, rfl⟩ := Prod.mk.inj hpair
  exact ⟨row, hrow, rfl, htype⟩

/-- The row of a job that a pass read is unique. -/
theorem PassInv.dbRow_eq (h : PassInv config s p) (hrow : p.dbRow id = some row) (hr : r ∈ p.rows)
    (hid : r.jobId = id) : r = row := by
  have hlookup := (Rows.lookup_eq_some h.keys).mpr ⟨hr, hid⟩
  exact Option.some.inj (hlookup.symm.trans hrow)

/-- What is up to date is not classified, and its heartbeat is on time. -/
theorem PassInv.unclassified (h : PassInv config s p) (he : s.executions[t]? = some e)
    (hdate : UpToDate config p t e) :
    ∃ row, p.dbRow e.jobId = some row ∧ row.status = .running ∧
      classifyRunningJobForRecovery config row p.nowMs = none ∧
      ∃ beat, row.heartbeatAt = some beat ∧ p.nowMs - beat ≤ config.heartbeatIntervalMs := by
  obtain ⟨hseen, -, -, row, hrow, hstatus, htimeout⟩ := hdate
  obtain ⟨hstarted, beat, hbeat, hinterval, hstale⟩ := h.fresh t e he hseen row hrow hstatus
  exact ⟨row, hrow, hstatus, classify_eq_none hstarted hbeat hstale htimeout, beat, hbeat, hinterval⟩

/-- A heartbeat on time is within the grace period. -/
theorem le_orphanSourceLockGraceMs (config : QueueConfig) :
    config.heartbeatIntervalMs ≤ orphanSourceLockGraceMs config := by
  have hpos := config.heartbeatIntervalMs_pos
  unfold orphanSourceLockGraceMs
  rw [if_neg (by omega)]
  omega

/-- No releasing pass releases a row that is up to date. -/
theorem releaseDecision_eq_none {copy : ReleaseCopy} {beat : ℤ} (hstatus : row.status = .running)
    (hnone : classifyRunningJobForRecovery config row p.nowMs = none)
    (hlisted : copy = .integration → row.jobId ∈ p.liveBullIds)
    (hbeat : row.heartbeatAt = some beat) (hinterval : p.nowMs - beat ≤ config.heartbeatIntervalMs) :
    releaseDecision config copy p row = none := by
  unfold releaseDecision
  cases copy with
  | integration =>
    rw [hnone, if_pos (hlisted rfl)]
  | backend =>
    have hgrace := le_orphanSourceLockGraceMs config
    have hseen : getJobLastSeenMs row = some beat := by
      unfold getJobLastSeenMs
      rw [hbeat]
      rfl
    unfold classifyOrphanSourceLock
    rw [if_pos hstatus, hnone, hseen]
    dsimp only
    split
    · rfl
    · rw [if_neg]
      simp only [Option.any_some, decide_eq_true_eq]
      omega

/-- No plan fails a row that was read as successful. -/
theorem PassInv.notSuccess_of_decided (h : PassInv config s p)
    {decide : QueueRow → Option FailureType}
    (hselected : ∀ r ∈ p.rows, r.status ≠ .success) (hdecided : (id, type) ∈ decidedRows decide p.rows) :
    NotSuccess p id := by
  obtain ⟨r, hr, hid, -⟩ := mem_decidedRows hdecided
  intro row hrow
  rw [← h.dbRow_eq hrow hr hid]
  exact hselected r hr

/-- The tasks that a pass plans to fail a row, or to close its job, were decided on a row. -/
theorem PassInv.planned (h : PassInv config s p) :
    (∀ id type, Task.fail id type ∈ planTasks config p → NotSuccess p id) ∧
      ∀ (t : ℕ) (e : Execution), s.executions[t]? = some e → UpToDate config p t e →
        (∀ type, Task.fail e.jobId type ∉ planTasks config p) ∧
          ∀ b, Task.close e.jobId b ∉ planTasks config p := by
  have hselected := h.selected
  unfold planTasks
  cases hkind : p.kind with
  | recoverStaleRunningJobs =>
    rw [hkind] at hselected
    have hundecided : ∀ (t : ℕ) (e : Execution) (type : FailureType), s.executions[t]? = some e →
        UpToDate config p t e →
          (e.jobId, type) ∉ decidedRows (classifyRunningJobForRecovery config · p.nowMs) p.rows := by
      intro t e type he hdate hin
      obtain ⟨row, hrow, -, hnone, -⟩ := h.unclassified he hdate
      obtain ⟨r, hr, hid, hsome⟩ := mem_decidedRows hin
      rw [h.dbRow_eq hrow hr hid, hnone] at hsome
      cases hsome
    refine ⟨fun id type hin => ?_, fun t e he hdate => ⟨fun type hin => ?_, fun b hin => ?_⟩⟩
    · simp only [mem_append, mem_map, Task.fail.injEq, mem_singleton, reduceCtorEq,
        and_false, exists_false, or_false] at hin
      obtain ⟨⟨id', type'⟩, hdecided, rfl, rfl⟩ := hin
      refine h.notSuccess_of_decided (fun r hr hsuccess => ?_) hdecided
      rw [hselected r hr] at hsuccess
      cases hsuccess
    · simp only [mem_append, mem_map, Task.fail.injEq, mem_singleton, reduceCtorEq,
        and_false, exists_false, or_false] at hin
      obtain ⟨⟨id', type'⟩, hdecided, rfl, rfl⟩ := hin
      exact hundecided t e _ he hdate hdecided
    · simp only [mem_append, mem_map, Task.close.injEq, mem_singleton, reduceCtorEq,
        and_false, exists_false, or_false, false_or] at hin
      obtain ⟨⟨id', type'⟩, hdecided, rfl, -⟩ := hin
      exact hundecided t e _ he hdate hdecided
  | reconcileBullmqWithDb =>
    refine ⟨fun id type hin => ?_, fun t e he hdate => ⟨fun type hin => ?_, fun b hin => ?_⟩⟩
    all_goals simp at hin
  | releaseOrphanDbSourceLocks copy =>
    rw [hkind] at hselected
    have hundecided : ∀ (t : ℕ) (e : Execution) (type : FailureType), s.executions[t]? = some e →
        UpToDate config p t e → (e.jobId, type) ∉ decidedRows (releaseDecision config copy p) p.rows := by
      intro t e type he hdate hin
      obtain ⟨row, hrow, hstatus, hnone, beat, hbeat, hinterval⟩ := h.unclassified he hdate
      obtain ⟨r, hr, hid, hsome⟩ := mem_decidedRows hin
      obtain rfl := h.dbRow_eq hrow hr hid
      have hlisted : copy = .integration → r.jobId ∈ p.liveBullIds := by
        rintro rfl
        rw [hid]
        exact hdate.2.2.1 hkind
      rw [releaseDecision_eq_none hstatus hnone hlisted hbeat hinterval] at hsome
      cases hsome
    refine ⟨fun id type hin => ?_, fun t e he hdate => ⟨fun type hin => ?_, fun b hin => ?_⟩⟩
    · simp only [mem_flatMap, mem_cons, Task.fail.injEq, reduceCtorEq, not_mem_nil, or_false] at hin
      obtain ⟨⟨id', type'⟩, hdecided, rfl, rfl⟩ := hin
      refine h.notSuccess_of_decided (fun r hr hsuccess => ?_) hdecided
      rw [hselected r hr] at hsuccess
      cases hsuccess
    · simp only [mem_flatMap, mem_cons, Task.fail.injEq, reduceCtorEq, not_mem_nil, or_false] at hin
      obtain ⟨⟨id', type'⟩, hdecided, rfl, rfl⟩ := hin
      exact hundecided t e _ he hdate hdecided
    · simp only [mem_flatMap, mem_cons, Task.close.injEq, reduceCtorEq, not_mem_nil,
        or_false, false_or] at hin
      obtain ⟨⟨id', type'⟩, hdecided, rfl, -⟩ := hin
      exact hundecided t e _ he hdate hdecided
  | detectOrphanDbQueuedJobs =>
    rw [hkind] at hselected
    refine ⟨fun id type hin => ?_, fun t e he hdate => ⟨fun type hin => ?_, fun b hin => ?_⟩⟩
    · obtain ⟨r, hr, htask⟩ := mem_map.mp hin
      obtain ⟨rfl, -⟩ := Task.fail.inj htask
      intro row hrow hsuccess
      have hqueued := hselected r (mem_filter.mp hr).1
      rw [h.dbRow_eq hrow (mem_filter.mp hr).1 rfl, hsuccess] at hqueued
      cases hqueued
    · obtain ⟨r, hr, htask⟩ := mem_map.mp hin
      obtain ⟨hid, -⟩ := Task.fail.inj htask
      obtain ⟨row, hrow, hstatus, -⟩ := h.unclassified he hdate
      have hqueued := hselected r (mem_filter.mp hr).1
      rw [h.dbRow_eq hrow (mem_filter.mp hr).1 hid, hstatus] at hqueued
      cases hqueued
    · obtain ⟨r, -, htask⟩ := mem_map.mp hin
      cases htask

theorem PassInv.plan (h : PassInv config s p) (hreads : p.reads = []) (hidle : p.planned = false) :
    PassInv config s { p with planned := true, tasks := planTasks config p } := by
  obtain ⟨hfails, hspared⟩ := h.planned
  refine ⟨h.began, h.keys, h.selected, h.seen, h.fresh, fun hne => absurd hreads hne, fun hcontra => ?_,
    fun id g hin => ?_, hfails, h.failOps, fun t e he hlive hdate => ?_⟩
  · cases hcontra
  · dsimp only at hin ⊢
    unfold planTasks at hin
    split at hin
    · simp at hin
    · simpa using hin
    · simp at hin
    · simp at hin
  · have hops := (h.idle hidle).2
    obtain ⟨hnofail, hnoclose⟩ := hspared t e he hdate
    refine ⟨fun op hin => ?_, hnofail, hnoclose⟩
    rw [hops] at hin
    exact absurd hin not_mem_nil

theorem job_of_mem_purge (hin : op ∈ purgeJobFromBullmqLists id) (hjob : op.job = some jobId) :
    id = jobId := by
  simp only [purgeJobFromBullmqLists, mem_cons, not_mem_nil, or_false] at hin
  rcases hin with rfl | rfl | rfl
  · exact Option.some.inj hjob
  · cases hjob
  · exact Option.some.inj hjob

theorem job_of_mem_move (hin : op ∈ moveBullJobToFailedAndPurge id) (hjob : op.job = some jobId) :
    id = jobId := by
  rcases mem_cons.mp hin with rfl | hpurge
  · exact Option.some.inj hjob
  · exact job_of_mem_purge hpurge hjob

theorem not_fail_of_mem_purge (hin : Op.markQueueJobFailed jobId type ∈ purgeJobFromBullmqLists id) :
    False := by
  simp [purgeJobFromBullmqLists] at hin

theorem not_fail_of_mem_move (hin : Op.markQueueJobFailed jobId type ∈ moveBullJobToFailedAndPurge id) :
    False := by
  rcases mem_cons.mp hin with hmove | hpurge
  · cases hmove
  · exact not_fail_of_mem_purge hpurge

variable {nowMs : ℤ} {task : Task}

/-- The commands for an entry are meant for its job. -/
theorem job_of_mem_reconcile {dbRow : Option QueueRow}
    (hin : op ∈ reconcileOneBullJob config dbRow nowMs id isGhost bullState)
    (hjob : op.job = some jobId) : id = jobId := by
  unfold reconcileOneBullJob at hin
  split at hin
  · exact job_of_mem_purge hin hjob
  · split at hin
    · exact job_of_mem_purge hin hjob
    · split at hin
      · rcases mem_cons.mp hin with rfl | hmove
        · cases hjob
        · exact job_of_mem_move hmove hjob
      · split at hin
        · exact job_of_mem_move hin hjob
        · split at hin
          · split at hin
            · rcases mem_cons.mp hin with rfl | hmove
              · exact Option.some.inj hjob
              · exact job_of_mem_move hmove hjob
            · exact absurd hin not_mem_nil
          · rcases mem_append.mp hin with hmove | hfail
            · exact job_of_mem_move hmove hjob
            · split at hfail
              · obtain rfl := mem_singleton.mp hfail
                exact Option.some.inj hjob
              · exact absurd hfail not_mem_nil

/-- The reconciliation fails running and queued rows only. -/
theorem status_of_mem_reconcile {dbRow : Option QueueRow} {nowMs : ℤ}
    (hin : Op.markQueueJobFailed jobId type ∈
      reconcileOneBullJob config dbRow nowMs id isGhost bullState) :
    ∃ row, dbRow = some row ∧ row.status ≠ .success := by
  unfold reconcileOneBullJob at hin
  split at hin
  · exact (not_fail_of_mem_purge hin).elim
  · split at hin
    · exact (not_fail_of_mem_purge hin).elim
    · split at hin
      · rcases mem_cons.mp hin with hcontra | hmove
        · cases hcontra
        · exact (not_fail_of_mem_move hmove).elim
      · next row =>
        split at hin
        · exact (not_fail_of_mem_move hin).elim
        · split at hin
          · next hrunning => exact ⟨row, rfl, by rw [hrunning]; decide⟩
          · rcases mem_append.mp hin with hmove | hfail
            · exact (not_fail_of_mem_move hmove).elim
            · split at hfail
              · next hqueued => exact ⟨row, rfl, by rw [hqueued]; decide⟩
              · exact absurd hfail not_mem_nil

section

variable (hstatus : row.status = .running)
  (hnone : classifyRunningJobForRecovery config row nowMs = none)
include hstatus hnone

/-- An active job with an unclassified running row is left alone. -/
theorem reconcile_eq_nil : reconcileOneBullJob config (some row) nowMs id false .active = [] := by
  unfold reconcileOneBullJob
  simp [isBullmqReconcilableState, isDbTerminalStatus, hstatus, hnone]

theorem not_blocking : isBlockingBullmqEntry config (some row) nowMs = false := by
  unfold isBlockingBullmqEntry
  simp [isDbTerminalStatus, hstatus, hnone]

end

/-- The job of a live worker answers that it is active. -/
theorem QueueInv.state_active (h : QueueInv config s) (he : s.executions[t]? = some e)
    (hlive : Live config s e) : getBullmqJobState s.bull e.jobId = .active := by
  obtain ⟨hin, -⟩ := h.live t e he hlive
  obtain ⟨-, -, hdelayed⟩ := h.lists.active _ hin
  unfold getBullmqJobState
  rw [if_neg hdelayed, if_pos hin]

/-- A task gives no command for a job on which the pass is up to date. -/
theorem PassInv.expand_spares (h : PassInv config s p) (hqueue : QueueInv config s)
    (hin : task ∈ p.tasks) (he : s.executions[t]? = some e) (hlive : Live config s e)
    (hdate : UpToDate config p t e) (hop : op ∈ (expandTask config s.bull p task).1) :
    op.job ≠ some e.jobId := by
  intro hjob
  have hspared := h.spared t e he hlive hdate
  obtain ⟨row, hrow, hstatus, hnone, -⟩ := h.unclassified he hdate
  cases task with
  | fail id type =>
    obtain rfl := mem_singleton.mp hop
    cases hjob
    exact hspared.fails type hin
  | fixFinished =>
    obtain rfl := mem_singleton.mp hop
    cases hjob
  | close id purgeMissing =>
    have hid : id = e.jobId := by
      unfold expandTask at hop
      dsimp only at hop
      split at hop
      · exact job_of_mem_move hop hjob
      · split at hop
        · exact job_of_mem_purge hop hjob
        · exact absurd hop not_mem_nil
    subst hid
    exact hspared.closes purgeMissing hin
  | entry id isGhost =>
    have hid : id = e.jobId := job_of_mem_reconcile hop hjob
    subst hid
    have hreal : isGhost = false := by
      cases isGhost with
      | false => rfl
      | true => exact absurd (h.ghosts _ _ hin) hdate.2.1
    subst hreal
    have hactive := hqueue.state_active he hlive
    unfold expandTask at hop
    dsimp only at hop
    rw [hrow, hactive, reconcile_eq_nil hstatus hnone] at hop
    exact absurd hop not_mem_nil
  | sweep => exact absurd hop not_mem_nil
  | remaining id =>
    unfold expandTask at hop
    dsimp only at hop
    split at hop
    · next hblocking =>
      obtain rfl := job_of_mem_purge hop hjob
      rw [hrow, not_blocking hstatus hnone] at hblocking
      cases hblocking
    · exact absurd hop not_mem_nil

/-- The tasks that follow a task are those of the last sweep. -/
theorem remaining_of_mem_expand {task' : Task} (hin : task' ∈ (expandTask config bull p task).2) :
    ∃ id, task' = .remaining id := by
  cases task with
  | sweep =>
    obtain ⟨id, -, rfl⟩ := mem_map.mp hin
    exact ⟨id, rfl⟩
  | _ => exact absurd hin not_mem_nil

/-- A task fails no row that was read as successful. -/
theorem PassInv.expand_notSuccess (h : PassInv config s p) (hin : task ∈ p.tasks)
    (hop : Op.markQueueJobFailed id type ∈ (expandTask config s.bull p task).1) :
    NotSuccess p id := by
  cases task with
  | fail id' type' =>
    obtain ⟨rfl, rfl⟩ := Op.markQueueJobFailed.inj (mem_singleton.mp hop)
    exact h.failTasks _ _ hin
  | fixFinished => cases mem_singleton.mp hop
  | close id' purgeMissing =>
    unfold expandTask at hop
    dsimp only at hop
    split at hop
    · exact (not_fail_of_mem_move hop).elim
    · split at hop
      · exact (not_fail_of_mem_purge hop).elim
      · exact absurd hop not_mem_nil
  | entry id' isGhost =>
    obtain rfl := job_of_mem_reconcile hop rfl
    obtain ⟨row, hrow, hstatus⟩ := status_of_mem_reconcile hop
    intro row' hrow'
    obtain rfl := Option.some.inj (hrow.symm.trans hrow')
    exact hstatus
  | sweep => exact absurd hop not_mem_nil
  | remaining id' =>
    unfold expandTask at hop
    dsimp only at hop
    split at hop
    · exact (not_fail_of_mem_purge hop).elim
    · exact absurd hop not_mem_nil

theorem PassInv.expand (h : PassInv config s p) (hqueue : QueueInv config s) {tasks : List Task}
    (htasks : p.tasks = task :: tasks) :
    PassInv config s { p with
      ops := (expandTask config s.bull p task).1
      tasks := (expandTask config s.bull p task).2 ++ tasks } := by
  have hhead : task ∈ p.tasks := htasks ▸ mem_cons_self
  have htail : ∀ task', task' ∈ (expandTask config s.bull p task).2 ++ tasks →
      (∃ id, task' = .remaining id) ∨ task' ∈ p.tasks := by
    intro task' hin
    rcases mem_append.mp hin with hnew | hold
    · exact .inl (remaining_of_mem_expand hnew)
    · exact .inr (htasks ▸ mem_cons_of_mem _ hold)
  refine ⟨h.began, h.keys, h.selected, h.seen, h.fresh, h.reading, fun hidle => ?_,
    fun id g hin => ?_, fun id type hin => ?_, fun id type hin => h.expand_notSuccess hhead hin,
    fun t e he hlive hdate => ⟨fun op hin => ?_, fun type hin => ?_, fun b hin => ?_⟩⟩
  · have hnil := (h.idle hidle).1
    rw [htasks] at hnil
    cases hnil
  · rcases htail _ hin with ⟨id', hcontra⟩ | hold
    · cases hcontra
    · exact h.ghosts id g hold
  · rcases htail _ hin with ⟨id', hcontra⟩ | hold
    · cases hcontra
    · exact h.failTasks id type hold
  · exact h.expand_spares hqueue hhead he hlive hdate hin
  · rcases htail _ hin with ⟨id', hcontra⟩ | hold
    · cases hcontra
    · exact (h.spared t e he hlive hdate).fails type hold
  · rcases htail _ hin with ⟨id', hcontra⟩ | hold
    · cases hcontra
    · exact (h.spared t e he hlive hdate).closes b hold

/-- A pass after one of its commands. -/
theorem PassInv.next (h : PassInv config s p) (hops : p.ops = op :: ops) :
    PassInv config s { p with ops := op.rest s.bull ops } := by
  have hsub : ∀ op' ∈ op.rest s.bull ops, op' ∈ p.ops := by
    intro op' hin
    rw [hops]
    unfold Op.rest at hin
    split at hin
    · split at hin
      · exact absurd hin not_mem_nil
      · exact mem_cons_of_mem _ hin
    · exact mem_cons_of_mem _ hin
  refine ⟨h.began, h.keys, h.selected, h.seen, h.fresh, h.reading, fun hidle => ?_, h.ghosts,
    h.failTasks, fun id type hin => h.failOps id type (hsub _ hin), fun t e he hlive hdate => ?_⟩
  · have hnil := (h.idle hidle).2
    rw [hops] at hnil
    cases hnil
  · have hspared := h.spared t e he hlive hdate
    exact ⟨fun op' hin => hspared.ops op' (hsub op' hin), hspared.fails, hspared.closes⟩

end TalonHound.QueueRecovery
