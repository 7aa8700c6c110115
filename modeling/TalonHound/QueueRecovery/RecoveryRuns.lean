import TalonHound.QueueRecovery.SparedJobs

/-!
# Runs of workers and recovery passes

Every step keeps what holds of the queue and of the passes, and in a run whose commands are up to
date no command touches the job of a live worker.
-/

namespace TalonHound.QueueRecovery

open Option List

variable {config : QueueConfig} {s s' : QueueState} {p : Pass} {row : QueueRow} {e e' : Execution}
  {t i : ℕ} {jobId id : String} {op : Op} {ops : List Op} {outcome : MoveOutcome} {a : QueueAction}

/-- What holds of every state. -/
structure SystemInv (config : QueueConfig) (s : QueueState) : Prop where
  queue : QueueInv config s
  passes : ∀ p ∈ s.passes, PassInv config s p

theorem ExecutionsKept.of_same (hnow : s'.now = s.now) (hexec : s'.executions = s.executions) :
    ExecutionsKept config s s' := by
  refine ⟨hnow.ge, by rw [hexec], fun t e he _ => ⟨e, hexec ▸ he, rfl, fun hlive => ?_⟩⟩
  unfold Live at hlive ⊢
  rw [hnow] at hlive
  exact hlive

theorem ExecutionsKept.of_set {s' : QueueState} (hnow : s'.now = s.now)
    (hexec : s'.executions = s.executions.set t e') (he : s.executions[t]? = some e)
    (hjob : e'.jobId = e.jobId) (hlive : Live config s e' → Live config s e) :
    ExecutionsKept config s s' := by
  refine ⟨hnow.ge, by rw [hexec, length_set], fun t' e'' he'' _ => ?_⟩
  have hback : Live config s' e'' → Live config s e'' := by
    intro hlive''
    unfold Live at hlive'' ⊢
    rw [hnow] at hlive''
    exact hlive''
  rw [hexec] at he''
  rcases Indexed.getElem?_set_cases he'' with ⟨rfl, rfl⟩ | ⟨-, hold⟩
  · exact ⟨e, he, hjob.symm, fun hlive'' => hlive (hback hlive'')⟩
  · exact ⟨e'', hold, rfl, hback⟩

theorem SystemInv.of_kept (h : SystemInv config s) (hqueue : QueueInv config s')
    (hkept : ExecutionsKept config s s') (hpasses : s'.passes = s.passes) : SystemInv config s' :=
  ⟨hqueue, fun p hp => (h.passes p (hpasses ▸ hp)).mono hkept⟩

theorem bullStep_keeps {a : BullAction} (h : bullStep config s a = some s') :
    s'.now = s.now ∧ s'.executions = s.executions ∧ s'.passes = s.passes := by
  unfold bullStep at h
  split at h
  all_goals first
    | cases h
      exact ⟨rfl, rfl, rfl⟩
    | split at h
      · first
        | cases h
          exact ⟨rfl, rfl, rfl⟩
        | cases h
      · first
        | cases h
          exact ⟨rfl, rfl, rfl⟩
        | cases h

/-- The worker of a job that was only picked was live. -/
theorem live_of_picked (hpicked : e.stage = .picked) :
    Live config s e' → Live config s e := by
  rintro -
  refine ⟨by simp [Execution.executing, hpicked], fun hcontra => ?_⟩
  simp [Execution.beats, hpicked] at hcontra

/-- A worker whose heartbeats stay on is live after it went on only if it was live before. -/
theorem live_of_running (hrunning : e.stage = .running) (hjob : e'.jobId = e.jobId)
    (hstart : e'.startedAt = e.startedAt) (hbeats : e'.beats = true) :
    Live config s e' → Live config s e := by
  rintro ⟨-, htimeout⟩
  refine ⟨by simp [Execution.executing, hrunning], fun _ => ?_⟩
  rw [← hstart, ← hjob]
  exact htimeout hbeats

/-- A worker goes on without running, and makes no row running. -/
theorem SystemInv.goOn (h : SystemInv config s) (e' : Execution) (he : s.executions[t]? = some e)
    (hjob : e'.jobId = e.jobId) (hbeat : e'.lastBeat = e.lastBeat) (hstage : e'.stage ≠ .running)
    (hlive : Live config s e' → Live config s e) {rows' : List QueueRow}
    (hkeys : (rows'.map QueueRow.jobId).Nodup)
    (hrows : ∀ r ∈ rows', r.status = .running → r ∈ s.rows) :
    SystemInv config { setExecution s t e' with rows := rows' } :=
  h.of_kept (h.queue.setExecution he hjob hlive (fun hrunning => absurd hrunning hstage)
    (h.queue.table.leave he hbeat hstage hkeys hrows)) (.of_set rfl rfl he hjob hlive) rfl

/-- A worker goes on and leaves its row in another status than running. -/
theorem SystemInv.store (h : SystemInv config s) (e' : Execution) (he : s.executions[t]? = some e)
    (hjob : e'.jobId = e.jobId) (hbeat : e'.lastBeat = e.lastBeat) (hstage : e'.stage ≠ .running)
    (hlive : Live config s e' → Live config s e) {set : QueueRow → QueueRow}
    (hkeep : ∀ r, (set r).jobId = r.jobId) (hset : ∀ r, (set r).status ≠ .running) :
    SystemInv config { setExecution s t e' with rows := updateJob e.jobId s.rows set } :=
  h.goOn e' he hjob hbeat hstage hlive (keys_updateJob hkeep h.queue.table.keys)
    fun _ hr hrunning => mem_of_running_updateJob hset hr hrunning

/-- A worker leaves its job. -/
theorem SystemInv.leaveJob (h : SystemInv config s) (e' : Execution) (he : s.executions[t]? = some e)
    (hjob : e'.jobId = e.jobId) (hleft : e'.executing = false) (hbeat : e'.lastBeat = e.lastBeat)
    (hstage : e'.stage ≠ .running) (outcome : MoveOutcome) :
    SystemInv config { setExecution s t e' with
      bull := QueueRecovery.leaveJob s.bull t e.jobId outcome } :=
  h.of_kept (h.queue.leaveJob e' he hleft hbeat hstage outcome)
    (.of_set rfl rfl he hjob fun hlive => absurd hlive.1 (by simp [hleft])) rfl

theorem SystemInv.worker (h : SystemInv config s) {a : WorkerAction}
    (he : s.executions[t]? = some e) (hstep : workerStep config s t e a = some s') :
    SystemInv config s' := by
  cases a with
  | skipBusy =>
    obtain ⟨hpicked, rfl⟩ := Run.enabled hstep
    exact h.store { e with stage := .refused } he rfl rfl (by simp)
      (live_of_picked hpicked) (fun _ => rfl) (fun _ => by simp)
  | markRunning =>
    obtain ⟨hpicked, rfl⟩ := Run.enabled hstep
    have hlive : Live config s { e with stage := .running, startedAt := s.now, lastBeat := s.now } →
        Live config s e := live_of_picked hpicked
    exact h.of_kept (h.queue.setExecution he rfl hlive (fun _ => rfl)
      (h.queue.table.markRunning rfl rfl)) (.of_set rfl rfl he rfl hlive) rfl
  | beat =>
    obtain ⟨hbeats, rfl⟩ := Run.enabled hstep
    have hlive : Live config s { e with lastBeat := s.now } → Live config s e := fun hlive => hlive
    exact h.of_kept (h.queue.setExecution he rfl hlive (fun _ => rfl)
      (h.queue.table.touch rfl rfl)) (.of_set rfl rfl he rfl hlive) rfl
  | storeSuccess | storeSkipped reason =>
    obtain ⟨hrunning, rfl⟩ := Run.enabled hstep
    exact h.store { e with stage := .stored } he rfl rfl (by simp)
      (live_of_running hrunning rfl rfl rfl) (fun _ => rfl) (fun _ => by simp)
  | complete =>
    obtain ⟨-, rfl⟩ := Run.enabled hstep
    exact h.leaveJob { e with stage := .ended } he rfl rfl rfl (by simp) _
  | fail outcome =>
    obtain ⟨-, rfl⟩ := Run.enabled hstep
    exact h.leaveJob { e with stage := .failing } he rfl rfl rfl (by simp) _
  | writeFailed message =>
    obtain ⟨-, rfl⟩ := Run.enabled hstep
    exact h.store { e with stage := .ended } he rfl rfl (by simp)
      (fun hlive => absurd hlive.1 (by simp [Execution.executing])) (fun _ => rfl) (fun _ => by simp)
  | crash =>
    obtain ⟨-, rfl⟩ := Run.enabled hstep
    exact h.goOn { e with stage := .ended } he rfl rfl (by simp)
      (fun hlive => absurd hlive.1 (by simp [Execution.executing])) h.queue.table.keys
      fun _ hr _ => hr

/-- A pass goes on. -/
theorem SystemInv.setPass (h : SystemInv config s) {p' : Pass} (hp' : PassInv config s p') :
    SystemInv config { s with passes := s.passes.set i p' } := by
  refine ⟨⟨h.queue.table, h.queue.lists, h.queue.onTime, h.queue.live⟩, fun q hq => ?_⟩
  refine PassInv.mono (s := s) ?_ (.of_same rfl rfl)
  rcases mem_or_eq_of_mem_set hq with hold | rfl
  · exact h.passes q hold
  · exact hp'

/-- Under the condition, no command touches the job of a live worker. -/
theorem SystemInv.untouched (h : SystemInv config s)
    (hguard : ActsUpToDate config s (.pass i (.op outcome))) (hp : s.passes[i]? = some p)
    (hops : p.ops = op :: ops) (he : s.executions[t]? = some e) (hlive : Live config s e) :
    op.touches s outcome ≠ some e.jobId := by
  intro htouches
  have hinv := h.passes p (mem_of_getElem? hp)
  have hhead : op ∈ p.ops.head? := by
    rw [hops]
    rfl
  have hdate := (hguard p hp op hhead e.jobId htouches).1 (e, t)
    (mem_zipIdx_iff_getElem?.mpr he) hlive rfl
  have hin : op ∈ p.ops := by
    rw [hops]
    exact mem_cons_self
  exact (hinv.spared t e he hlive hdate).ops op hin (job_of_touches htouches)

/-- A command that does not touch an active job keeps it and its lock. -/
theorem bull_of_untouched (h : op.touches s outcome ≠ some jobId) (hin : jobId ∈ s.bull.active) :
    jobId ∈ (op.bull s.bull outcome).active ∧ (op.bull s.bull outcome).locks jobId = s.bull.locks jobId := by
  cases op with
  | moveToFailed id =>
    unfold Op.bull
    dsimp only
    split
    · cases outcome with
      | refused => exact ⟨hin, rfl⟩
      | _ =>
        have hne : id ≠ jobId := fun heq => h (by rw [heq]; rfl)
        exact ⟨mem_filter.mpr ⟨hin, by simpa using hne.symm⟩, rfl⟩
    · exact ⟨hin, rfl⟩
  | lremActive id =>
    have hne : id ≠ jobId := fun heq => h (by rw [heq]; rfl)
    exact ⟨mem_filter.mpr ⟨hin, by simpa using hne.symm⟩, rfl⟩
  | delLock id =>
    have hne : id ≠ jobId := fun heq => h (by rw [heq]; rfl)
    exact ⟨hin, if_neg hne.symm⟩
  | _ => exact ⟨hin, rfl⟩

/-- The statuses after a command. -/
theorem status_of_command (h : SystemInv config s) (op : Op) (jobId : String) :
    statusOf { s with rows := op.rows s.now s.rows } jobId = statusOf s jobId ∨
      (op.failsRow = true ∧ op.job = some jobId ∧
        statusOf { s with rows := op.rows s.now s.rows } jobId =
          (statusOf s jobId).map fun _ => .failed) := by
  cases op with
  | markQueueJobFailed id type =>
    have hlookup : statusOf { s with rows := markQueueJobFailed s.now id s.rows type } jobId =
        if jobId = id then (statusOf s jobId).map fun _ => .failed else statusOf s jobId := by
      unfold statusOf markQueueJobFailed
      rw [lookup_updateJob]
      · split
        · rw [Option.map_map, Option.map_map]
          rfl
        · rfl
      · exact fun _ => rfl
    change statusOf { s with rows := markQueueJobFailed s.now id s.rows type } jobId = _ ∨ _ ∧ _ ∧
      statusOf { s with rows := markQueueJobFailed s.now id s.rows type } jobId = _
    rw [hlookup]
    split
    · next hsame => exact .inr ⟨rfl, by rw [hsame]; rfl, rfl⟩
    · exact .inl rfl
  | fixFinished =>
    have hsame := h.queue.table.fixFinished_eq s.now
    refine .inl ?_
    unfold statusOf
    change (Rows.lookup QueueRow.jobId (fixFinished s.now s.rows) jobId).map QueueRow.status = _
    rw [hsame]
  | _ => exact .inl rfl

/-- A command that fails a row with another status touches it. -/
theorem touches_of_fails (hfails : op.failsRow = true) (hjob : op.job = some jobId)
    {status : JobStatus} (hstatus : statusOf s jobId = some status) (hne : status ≠ .failed) :
    op.touches s outcome = some jobId := by
  cases op with
  | markQueueJobFailed id type =>
    cases hjob
    unfold Op.touches
    dsimp only
    rw [hstatus, if_neg (by simpa using hne)]
  | _ => cases hfails

section

variable (h : SystemInv config s) (hguard : ActsUpToDate config s (.pass i (.op outcome)))
  (hp : s.passes[i]? = some p)
include h hguard hp

/-- Under the condition, a command spares live workers and stored successes. -/
theorem SystemInv.command_spares (hops : p.ops = op :: ops) {passes : List Pass} :
    SparesLive config s { s with
      bull := op.bull s.bull outcome
      rows := op.rows s.now s.rows
      passes := passes } := by
  have huntouched : ∀ (t : ℕ) (e : Execution), s.executions[t]? = some e → Live config s e →
      op.touches s outcome ≠ some e.jobId := fun t e he hlive => h.untouched hguard hp hops he hlive
  refine ⟨fun t e he hlive hin => ?_, fun t e he hlive => ?_, fun t e he hlive hfailed => ?_,
    fun id hsuccess hfailed => ?_⟩
  · exact (bull_of_untouched (huntouched t e he hlive) hin).1
  · exact (bull_of_untouched (huntouched t e he hlive) (h.queue.live t e he hlive).1).2
  · change statusOf { s with rows := op.rows s.now s.rows } e.jobId = some .failed at hfailed
    rcases status_of_command h op e.jobId with hsame | ⟨hfails, hjob, hmap⟩
    · rw [← hsame]
      exact hfailed
    · cases hstatus : statusOf s e.jobId with
      | none =>
        rw [hmap, hstatus] at hfailed
        cases hfailed
      | some status =>
        by_cases hne : status = .failed
        · rw [hne]
        · exact absurd (touches_of_fails hfails hjob hstatus hne) (huntouched t e he hlive)
  · change statusOf { s with rows := op.rows s.now s.rows } id = some .failed at hfailed
    rcases status_of_command h op id with hsame | ⟨hfails, hjob, -⟩
    · rw [hsame, hsuccess] at hfailed
      cases hfailed
    · have htouches : op.touches s outcome = some id :=
        touches_of_fails hfails hjob hsuccess (by decide)
      have hhead : op ∈ p.ops.head? := by
        rw [hops]
        rfl
      obtain ⟨row, hrow, hread⟩ := (hguard p hp op hhead id htouches).2 hfails hsuccess
      have hinv := h.passes p (mem_of_getElem? hp)
      cases op with
      | markQueueJobFailed id' type =>
        cases hjob
        refine hinv.failOps _ type ?_ row hrow hread
        rw [hops]
        exact mem_cons_self
      | _ => cases hfails

/-- A command that is up to date keeps what holds. -/
theorem SystemInv.command (hops : p.ops = op :: ops) :
    SystemInv config { s with
      bull := op.bull s.bull outcome
      rows := op.rows s.now s.rows
      passes := s.passes.set i { p with ops := op.rest s.bull ops } } := by
  refine ⟨⟨h.queue.table.command, h.queue.lists.command, h.queue.onTime, fun t e he hlive => ?_⟩,
    fun q hq => ?_⟩
  · obtain ⟨hin, hlock⟩ := h.queue.live t e he hlive
    obtain ⟨hactive, hlocks⟩ := bull_of_untouched (h.untouched hguard hp hops he hlive) hin
    exact ⟨hactive, hlocks.trans hlock⟩
  · refine PassInv.mono (s := s) ?_ (.of_same rfl rfl)
    rcases mem_or_eq_of_mem_set hq with hold | rfl
    · exact h.passes q hold
    · exact (h.passes p (mem_of_getElem? hp)).next hops

end

/-- A step of a pass that changes neither the queue nor the table spares everything. -/
theorem SparesLive.of_same (hbull : s'.bull = s.bull) (hrows : s'.rows = s.rows) :
    SparesLive config s s' := by
  have hstatus : ∀ id, statusOf s' id = statusOf s id := by
    intro id
    unfold statusOf
    rw [hrows]
  refine ⟨fun t e _ _ hin => hbull ▸ hin, fun t e _ _ => by rw [hbull], fun t e _ _ hfailed => ?_,
    fun id hsuccess hfailed => ?_⟩
  · rwa [hstatus] at hfailed
  · rw [hstatus, hsuccess] at hfailed
    cases hfailed

/-- A step of a pass keeps what holds, and spares live workers and stored successes. -/
theorem SystemInv.pass (h : SystemInv config s) {a : PassAction} (hp : s.passes[i]? = some p)
    (hguard : ActsUpToDate config s (.pass i a)) (hstep : passStep config s i p a = some s') :
    SystemInv config s' ∧ SparesLive config s s' := by
  have hinv := h.passes p (mem_of_getElem? hp)
  unfold passStep at hstep
  cases a with
  | read which =>
    obtain ⟨reads, hreads, rfl⟩ := map_eq_some_iff.mp hstep
    exact ⟨h.setPass (hinv.read h.queue hreads), .of_same rfl rfl⟩
  | plan =>
    obtain ⟨hready, rfl⟩ := Run.enabled hstep
    exact ⟨h.setPass (hinv.plan hready.1 (by simpa using hready.2.2.2)), .of_same rfl rfl⟩
  | expand =>
    dsimp only at hstep
    split at hstep
    · next htasks =>
      cases hstep
      exact ⟨h.setPass (hinv.expand h.queue htasks), .of_same rfl rfl⟩
    · cases hstep
  | op outcome =>
    dsimp only at hstep
    split at hstep
    · next hops =>
      cases hstep
      exact ⟨h.command hguard hp hops, h.command_spares hguard hp hops⟩
    · cases hstep

/-- A step keeps what holds. -/
theorem SystemInv.step (h : SystemInv config s) (hguard : ActsUpToDate config s a)
    (hstep : queueStep config s a = some s') : SystemInv config s' := by
  cases a with
  | tick elapsed =>
    obtain ⟨hbeats, rfl⟩ := Run.enabled hstep
    refine h.of_kept (h.queue.tick hbeats) ⟨?_, le_refl _, fun t e he _ => ?_⟩ rfl
    · dsimp only
      omega
    · exact ⟨e, he, rfl, fun hlive => hlive.of_tick⟩
  | bull a =>
    obtain ⟨hnow, hexec, hpasses⟩ := bullStep_keeps hstep
    exact h.of_kept (h.queue.queueActs hstep) (.of_same hnow hexec) hpasses
  | pick id =>
    obtain ⟨hwaiting, rfl⟩ := Run.enabled hstep
    refine h.of_kept (h.queue.pick hwaiting) ⟨le_refl _, by simp, fun t e he hlt => ?_⟩ rfl
    rcases Indexed.getElem?_append_cases he with ⟨rfl, -⟩ | hold
    · exact absurd hlt (lt_irrefl _)
    · exact ⟨e, hold, rfl, fun hlive => hlive⟩
  | worker t a =>
    obtain ⟨e, he, hstep⟩ := bind_eq_some_iff.mp hstep
    exact h.worker he hstep
  | begin kind =>
    cases hstep
    refine ⟨⟨h.queue.table, h.queue.lists, h.queue.onTime, h.queue.live⟩, fun q hq => ?_⟩
    refine PassInv.mono (s := s) ?_ (.of_same rfl rfl)
    rcases mem_append.mp hq with hold | hnew
    · exact h.passes q hold
    · obtain rfl := mem_singleton.mp hnew
      exact PassInv.begin kind
  | pass i a =>
    obtain ⟨p, hp, hstep⟩ := bind_eq_some_iff.mp hstep
    exact (h.pass hp hguard hstep).1

/-- In a run whose commands are up to date, no step of a pass touches the job of a live worker, and
none fails a row with a stored success. -/
theorem recovery_spares_live {actions : List QueueAction} {a : PassAction}
    (hrun : Run (queueStep config) (ActsUpToDate config) .empty actions s)
    (hguard : ActsUpToDate config s (.pass i a)) (hstep : queueStep config s (.pass i a) = some s') :
    SparesLive config s s' := by
  have hinv : SystemInv config s := by
    refine Run.invariant (I := SystemInv config) (fun _ _ _ hinv hguard hstep => hinv.step hguard hstep)
      hrun ⟨.empty config, fun p hp => absurd hp not_mem_nil⟩
  obtain ⟨p, hp, hstep⟩ := bind_eq_some_iff.mp hstep
  exact (hinv.pass hp hguard hstep).2

/-- Short intervals, and the fallback for every timeout. -/
def shortIntervals : QueueConfig where
  jobTimeoutMs := 600000
  heartbeatIntervalMs := 5
  heartbeatIntervalMs_pos := by decide
  staleAfterMs := 10
  staleAfterMs_pos := by decide
  staleQueuedThresholdMs := 1800000
  readPositiveInt := fun _ fallback _ => fallback
  integrationKeyOf := fun _ => "threatfox-abusech"
  jobNameOf := fun _ => "threatfox-import"
  queuedAtOf := fun _ => none

/-- A worker crashes, another one beats, and the first job is recovered up to its purge. -/
def recoversCrashed : List QueueAction :=
  [.bull (.add "crashed"), .bull (.add "live"), .pick "crashed", .worker 0 .markRunning,
    .worker 0 .crash, .pick "live", .worker 1 .markRunning, .tick 5, .worker 1 .beat, .tick 5,
    .worker 1 .beat, .tick 5, .begin .recoverStaleRunningJobs, .pass 0 (.read .rows), .pass 0 .plan,
    .pass 0 .expand, .pass 0 (.op .refused), .pass 0 .expand, .pass 0 (.op .refused), .pass 0 .expand,
    .pass 0 (.op .failed), .pass 0 (.op .refused), .pass 0 (.op .refused)]

theorem recovery_spares_live_crashed :
    ∃ s s', Run (queueStep shortIntervals) (ActsUpToDate shortIntervals) .empty recoversCrashed s ∧
      queueStep shortIntervals s (.pass 0 (.op .refused)) = some s' ∧
      s'.bull.active = ["live"] ∧ statusOf s' "crashed" = some .failed ∧
      SparesLive shortIntervals s s' := by
  obtain ⟨s, hrun, s', hstep, hguard, hactive, hstatus⟩ :
      ∃ s, Run (queueStep shortIntervals) (ActsUpToDate shortIntervals) .empty recoversCrashed s ∧
        ∃ s', queueStep shortIntervals s (.pass 0 (.op .refused)) = some s' ∧
          ActsUpToDate shortIntervals s (.pass 0 (.op .refused)) ∧ s'.bull.active = ["live"] ∧
            statusOf s' "crashed" = some .failed :=
    Run.exists_step_of_any (by decide +kernel)
  exact ⟨s, s', hrun, hstep, hactive, hstatus, recovery_spares_live hrun hguard hstep⟩

/-- A job is picked and marked after the reconciliation read the table, before its last sweep. -/
def sweepsPicked : List QueueAction :=
  [.begin .reconcileBullmqWithDb, .pass 0 (.read .activeJobs), .pass 0 (.read .stalledJobs),
    .pass 0 (.read .listedIds), .pass 0 (.read .entries), .pass 0 (.read .rows), .pass 0 .plan,
    .bull (.add "job"), .pick "job", .worker 0 .markRunning, .pass 0 .expand, .pass 0 .expand]

/-- A retry that keeps its first start is timed out while it runs. -/
def failsRetried : List QueueAction :=
  [.bull (.add "job"), .pick "job", .worker 0 .markRunning, .worker 0 (.fail .delayed),
    .worker 0 (.writeFailed "HTTP 503"), .tick 600001, .bull (.promote "job"), .pick "job",
    .worker 1 .markRunning, .begin .recoverStaleRunningJobs, .pass 0 (.read .rows), .pass 0 .plan,
    .pass 0 .expand]

/-- A job succeeds and leaves between the query and the listing of a releasing pass. -/
def failsSuccess : List QueueAction :=
  [.bull (.add "job"), .pick "job", .worker 0 .markRunning,
    .begin (.releaseOrphanDbSourceLocks .integration), .pass 0 (.read .rows),
    .worker 0 .storeSuccess, .worker 0 .complete, .pass 0 (.read .activeJobs),
    .pass 0 (.read .waitingJobs), .pass 0 (.read .delayedJobs), .pass 0 .plan, .pass 0 .expand]

/-- After these actions the pass takes a step that does not spare the live workers. -/
def TouchesLive (actions : List QueueAction) : Prop :=
  ∃ s s', Run (queueStep shortIntervals) (fun _ _ => True) .empty actions s ∧
    queueStep shortIntervals s (.pass 0 (.op .refused)) = some s' ∧
    ¬ SparesLive shortIntervals s s'

/-- A pass takes a live job off the active list, another one fails the row of a live job, and a third
one fails a row with a stored success. -/
theorem recovery_touches_live :
    TouchesLive sweepsPicked ∧ TouchesLive failsRetried ∧ TouchesLive failsSuccess := by
  unfold TouchesLive
  refine ⟨?_, ?_, ?_⟩
  · obtain ⟨s, hrun, s', hstep, hexecution, hlive, hbefore, hafter⟩ :
        ∃ s, Run (queueStep shortIntervals) (fun _ _ => True) .empty sweepsPicked s ∧
          ∃ s', queueStep shortIntervals s (.pass 0 (.op .refused)) = some s' ∧
            s.executions[0]? = some ⟨"job", .running, 0, 0⟩ ∧
            Live shortIntervals s ⟨"job", .running, 0, 0⟩ ∧ "job" ∈ s.bull.active ∧
              "job" ∉ s'.bull.active :=
      Run.exists_step_of_any (by decide +kernel)
    exact ⟨s, s', hrun, hstep, fun h => hafter (h.active 0 _ hexecution hlive hbefore)⟩
  · obtain ⟨s, hrun, s', hstep, hexecution, hlive, hbefore, hafter⟩ :
        ∃ s, Run (queueStep shortIntervals) (fun _ _ => True) .empty failsRetried s ∧
          ∃ s', queueStep shortIntervals s (.pass 0 (.op .refused)) = some s' ∧
            s.executions[1]? = some ⟨"job", .running, 600001, 600001⟩ ∧
            Live shortIntervals s ⟨"job", .running, 600001, 600001⟩ ∧
              statusOf s "job" = some .running ∧ statusOf s' "job" = some .failed :=
      Run.exists_step_of_any (by decide +kernel)
    refine ⟨s, s', hrun, hstep, fun h => ?_⟩
    have hfailed := h.rows 1 _ hexecution hlive hafter
    rw [hbefore] at hfailed
    cases hfailed
  · obtain ⟨s, hrun, s', hstep, hbefore, hafter⟩ :
        ∃ s, Run (queueStep shortIntervals) (fun _ _ => True) .empty failsSuccess s ∧
          ∃ s', queueStep shortIntervals s (.pass 0 (.op .refused)) = some s' ∧
            statusOf s "job" = some .success ∧ statusOf s' "job" = some .failed :=
      Run.exists_step_of_any (by decide +kernel)
    exact ⟨s, s', hrun, hstep, fun h => h.success "job" hbefore hafter⟩

end TalonHound.QueueRecovery
