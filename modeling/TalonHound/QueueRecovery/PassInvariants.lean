import TalonHound.QueueRecovery.LiveJobs

/-!
# What passes plan

A pass that is up to date on a live worker found its row running, with a fresh heartbeat, and plans
nothing for its job; and no pass plans to fail a row that it read as successful.
-/

namespace TalonHound.QueueRecovery

open Option List

variable {config : QueueConfig} {s s' : QueueState} {p : Pass} {r row : QueueRow}
  {table : List QueueRow} {e e' : Execution} {t : ℕ} {jobId id : String} {op : Op}
  {outcome : MoveOutcome} {type : FailureType} {now : ℤ} {isGhost : Bool}

/-- The status of the rows that a pass selects. -/
def selectedStatus : PassKind → JobStatus → Prop
  | .recoverStaleRunningJobs, status => status = .running
  | .reconcileBullmqWithDb, _ => True
  | .releaseOrphanDbSourceLocks _, status => status = .running
  | .detectOrphanDbQueuedJobs, status => status = .queued

/-- A selected row is a row of the table, up to columns that matter to no running row. -/
theorem mem_selectRows (h : r ∈ selectRows config now p table) :
    selectedStatus p.kind r.status ∧ ∃ r₀ ∈ table, r₀.jobId = r.jobId ∧ r₀.status = r.status ∧
      r₀.startedAt = r.startedAt ∧ r₀.heartbeatAt = r.heartbeatAt := by
  unfold selectRows at h
  unfold selectedStatus
  cases hkind : p.kind with
  | recoverStaleRunningJobs =>
    rw [hkind] at h
    obtain ⟨hr, hstatus⟩ := mem_filter.mp h
    exact ⟨by simpa using hstatus, r, hr, rfl, rfl, rfl, rfl⟩
  | reconcileBullmqWithDb =>
    rw [hkind] at h
    obtain ⟨r₀, hr₀, rfl⟩ := mem_map.mp h
    exact ⟨trivial, r₀, (mem_filter.mp hr₀).1, rfl, rfl, rfl, rfl⟩
  | releaseOrphanDbSourceLocks copy =>
    rw [hkind] at h
    obtain ⟨r₀, hr₀, rfl⟩ := mem_map.mp h
    obtain ⟨hin, hstatus⟩ := mem_filter.mp hr₀
    exact ⟨by simpa [reconciledColumns] using hstatus, r₀, hin, rfl, rfl, rfl, rfl⟩
  | detectOrphanDbQueuedJobs =>
    rw [hkind] at h
    obtain ⟨hr, hstatus⟩ := mem_filter.mp h
    rw [Bool.and_eq_true, decide_eq_true_eq] at hstatus
    exact ⟨hstatus.1, r, hr, rfl, rfl, rfl, rfl⟩

theorem keys_selectRows (h : (table.map QueueRow.jobId).Nodup) :
    ((selectRows config now p table).map QueueRow.jobId).Nodup := by
  have hfilter : ∀ q : QueueRow → Bool, ((table.filter q).map QueueRow.jobId).Nodup := fun q =>
    h.sublist (filter_sublist.map _)
  unfold selectRows
  split
  · exact hfilter _
  · exact Rows.nodup_map_update (fun _ => rfl) (hfilter _)
  · exact Rows.nodup_map_update (fun _ => rfl) (hfilter _)
  · exact hfilter _

/-- A running row with a fresh heartbeat and a start within the timeout is left alone. -/
theorem classify_eq_none {beat : ℤ} (hstarted : row.startedAt.isSome) (hbeat : row.heartbeatAt = some beat)
    (hfresh : now - beat ≤ config.staleAfterMs)
    (htimeout : now - (getJobStartedMs row).getD now ≤
      resolveIntegrationJobTimeoutMs config row.integrationKey row.jobName) :
    classifyRunningJobForRecovery config row now = none := by
  obtain ⟨start, hstart⟩ := isSome_iff_exists.mp hstarted
  have hseen : getJobLastSeenMs row = some beat := by
    unfold getJobLastSeenMs
    rw [hbeat]
    rfl
  have hstartMs : getJobStartedMs row = some start := by
    unfold getJobStartedMs
    rw [hstart]
    rfl
  rw [hstartMs, getD_some] at htimeout
  unfold classifyRunningJobForRecovery
  rw [hseen, hstartMs]
  simp only [some_or, getD_some]
  split
  · rw [if_neg (by omega), if_neg (by omega)]
  · rfl

/-- The job that a command is meant for. -/
def Op.job : Op → Option String
  | .markQueueJobFailed jobId _ => some jobId
  | .moveToFailed jobId => some jobId
  | .lremActive jobId => some jobId
  | .delLock jobId => some jobId
  | _ => none

theorem job_of_touches (h : op.touches s outcome = some jobId) : op.job = some jobId := by
  cases op with
  | markQueueJobFailed id type | moveToFailed id =>
    unfold Op.touches at h
    dsimp only at h
    split at h
    · cases h
    · exact h
  | lremActive id => exact h
  | delLock id => exact h
  | fixFinished => cases h
  | unlessActive id => cases h
  | sremStalled id => cases h

/-- The pass did not read the row of the job as successful. -/
def NotSuccess (p : Pass) (jobId : String) : Prop :=
  ∀ row, p.dbRow jobId = some row → row.status ≠ .success

/-- No command and no decided task of the pass is meant for the job. -/
structure Spared (p : Pass) (jobId : String) : Prop where
  ops : ∀ op ∈ p.ops, op.job ≠ some jobId
  fails : ∀ type, Task.fail jobId type ∉ p.tasks
  closes : ∀ purgeMissing, Task.close jobId purgeMissing ∉ p.tasks

/-- What holds of a pass. -/
structure PassInv (config : QueueConfig) (s : QueueState) (p : Pass) : Prop where
  began : p.nowMs ≤ s.now
  keys : (p.rows.map QueueRow.jobId).Nodup
  selected : ∀ r ∈ p.rows, selectedStatus p.kind r.status
  seen : ∀ t, p.seen t = true → t < s.executions.length
  fresh : ∀ (t : ℕ) (e : Execution), s.executions[t]? = some e → p.seen t = true →
    ∀ row, p.dbRow e.jobId = some row → row.status = .running → row.startedAt.isSome ∧
      ∃ beat, row.heartbeatAt = some beat ∧ p.nowMs - beat ≤ config.heartbeatIntervalMs ∧
        p.nowMs - beat ≤ config.staleAfterMs
  reading : p.reads ≠ [] → p.planned = false
  idle : p.planned = false → p.tasks = [] ∧ p.ops = []
  ghosts : ∀ id isGhost, Task.entry id isGhost ∈ p.tasks → (id, isGhost) ∈ p.entries
  failTasks : ∀ id type, Task.fail id type ∈ p.tasks → NotSuccess p id
  failOps : ∀ id type, Op.markQueueJobFailed id type ∈ p.ops → NotSuccess p id
  spared : ∀ (t : ℕ) (e : Execution), s.executions[t]? = some e → Live config s e →
    UpToDate config p t e → Spared p e.jobId

/-- Executions keep their jobs, and none becomes live. -/
structure ExecutionsKept (config : QueueConfig) (s s' : QueueState) : Prop where
  now : s.now ≤ s'.now
  length : s.executions.length ≤ s'.executions.length
  kept : ∀ (t : ℕ) (e' : Execution), s'.executions[t]? = some e' → t < s.executions.length →
    ∃ e, s.executions[t]? = some e ∧ e.jobId = e'.jobId ∧ (Live config s' e' → Live config s e)

theorem UpToDate.congr (hjob : e.jobId = e'.jobId) (h : UpToDate config p t e') :
    UpToDate config p t e := by
  unfold UpToDate at h ⊢
  rw [hjob]
  exact h

theorem PassInv.mono (h : PassInv config s p) (hkept : ExecutionsKept config s s') :
    PassInv config s' p := by
  refine ⟨h.began.trans hkept.now, h.keys, h.selected, fun t ht => ?_, fun t e' he' ht => ?_,
    h.reading, h.idle, h.ghosts, h.failTasks, h.failOps, fun t e' he' hlive hdate => ?_⟩
  · exact (h.seen t ht).trans_le hkept.length
  · obtain ⟨e, he, hjob, -⟩ := hkept.kept t e' he' (h.seen t ht)
    rw [← hjob]
    exact h.fresh t e he ht
  · obtain ⟨e, he, hjob, hlive'⟩ := hkept.kept t e' he' (h.seen t hdate.1)
    rw [← hjob]
    exact h.spared t e he (hlive' hlive) (hdate.congr hjob)

theorem PassInv.begin (kind : PassKind) : PassInv config s (Pass.begin kind s.now) := by
  refine ⟨le_refl _, nodup_nil, fun r hr => absurd hr not_mem_nil, fun t ht => ?_,
    fun t e _ ht => ?_, fun _ => rfl, fun _ => ⟨rfl, rfl⟩, fun id g hin => absurd hin not_mem_nil,
    fun id type hin => absurd hin not_mem_nil, fun id type hin => absurd hin not_mem_nil,
    fun t e _ _ hdate => ?_⟩
  · cases ht
  · cases ht
  · cases hdate.1

/-- A read leaves the kind, the tasks and the commands, and moves the clock only to now. -/
theorem readAnswer_keeps (config : QueueConfig) (s : QueueState) (p : Pass) (which : PassRead) :
    (readAnswer config s p which).kind = p.kind ∧ (readAnswer config s p which).planned = p.planned ∧
      (readAnswer config s p which).tasks = p.tasks ∧ (readAnswer config s p which).ops = p.ops := by
  cases which <;> exact ⟨rfl, rfl, rfl, rfl⟩

/-- The rows that a pass has just read. -/
theorem PassInv.readRows (h : QueueInv config s) (hbegan : p.nowMs ≤ s.now)
    (he : s.executions[t]? = some e) (hrunning : e.stage = .running)
    (hrow : (readAnswer config s p .rows).dbRow e.jobId = some row) (hstatus : row.status = .running) :
    row.startedAt.isSome ∧ ∃ beat, row.heartbeatAt = some beat ∧
      (readAnswer config s p .rows).nowMs - beat ≤ config.heartbeatIntervalMs ∧
        (readAnswer config s p .rows).nowMs - beat ≤ config.staleAfterMs := by
  obtain ⟨hin, hid⟩ := Rows.mem_of_lookup hrow
  obtain ⟨-, r₀, hr₀, hid₀, hstatus₀, hstarted₀, hbeat₀⟩ := mem_selectRows hin
  have hold := h.table.running r₀ hr₀ (hstatus₀.trans hstatus)
  obtain ⟨beat, hbeat, hlast⟩ := hold.heartbeat
  have hlast := hlast t e he hrunning (hid.symm.trans hid₀.symm)
  have honTime := h.onTime t e he hrunning
  have hnow : (readAnswer config s p .rows).nowMs ≤ s.now := by
    change (if p.kind = .recoverStaleRunningJobs then s.now else p.nowMs) ≤ s.now
    split
    · exact le_refl _
    · exact hbegan
  refine ⟨hstarted₀ ▸ hold.started, beat, hbeat₀ ▸ hbeat, ?_, ?_⟩
  · omega
  · omega

theorem PassInv.read (h : PassInv config s p) (hqueue : QueueInv config s) {which : PassRead}
    {reads : List (List PassRead)} (hreads : remainingReads which p.reads = some reads) :
    PassInv config s { readAnswer config s p which with reads := reads } := by
  have hunread : p.reads ≠ [] := by
    intro hnil
    rw [hnil] at hreads
    cases hreads
  have hplanned := h.reading hunread
  obtain ⟨htasks, hops⟩ := h.idle hplanned
  obtain ⟨hkind, hkeptPlanned, hkeptTasks, hkeptOps⟩ :=  readAnswer_keeps config s p which
  rw [hplanned] at hkeptPlanned
  rw [htasks] at hkeptTasks
  rw [hops] at hkeptOps
  refine ⟨?_, ?_, ?_, ?_, ?_, fun _ => hkeptPlanned, fun _ => ⟨hkeptTasks, hkeptOps⟩, ?_, ?_, ?_, ?_⟩
  · cases which with
    | rows =>
      change (if p.kind = .recoverStaleRunningJobs then s.now else p.nowMs) ≤ s.now
      split
      · exact le_refl _
      · exact h.began
    | _ => exact h.began
  · cases which with
    | rows => exact keys_selectRows hqueue.table.keys
    | _ => exact h.keys
  · cases which with
    | rows => exact fun r hr => (mem_selectRows hr).1
    | _ => exact h.selected
  · cases which with
    | rows =>
      intro t ht
      obtain ⟨e, he, -⟩ := (any_eq_true _ _).mp ht
      exact (List.getElem?_eq_some_iff.mp he).1
    | _ => exact h.seen
  · cases which with
    | rows =>
      intro t e he ht row hrow hstatus
      obtain ⟨e', he', hrunning⟩ := (any_eq_true _ _).mp ht
      obtain rfl := Option.some.inj (he.symm.trans he')
      exact PassInv.readRows hqueue h.began he (by simpa using hrunning) hrow hstatus
    | _ => exact h.fresh
  · intro id g hin
    rw [hkeptTasks] at hin
    exact absurd hin not_mem_nil
  · intro id type hin
    rw [hkeptTasks] at hin
    exact absurd hin not_mem_nil
  · intro id type hin
    rw [hkeptOps] at hin
    exact absurd hin not_mem_nil
  · intro t e _ _ _
    refine ⟨fun op hin => ?_, fun type hin => ?_, fun b hin => ?_⟩
    · dsimp only at hin
      rw [hkeptOps] at hin
      exact absurd hin not_mem_nil
    · dsimp only at hin
      rw [hkeptTasks] at hin
      exact absurd hin not_mem_nil
    · dsimp only at hin
      rw [hkeptTasks] at hin
      exact absurd hin not_mem_nil

end TalonHound.QueueRecovery
