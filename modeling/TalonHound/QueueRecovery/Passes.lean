import TalonHound.Library.Rows
import TalonHound.PublishedFeed.Text

/-!
# Rows of the integration queue

`integration_queue_jobs`, the statements of `integrationQueueJobState.js` on it, and the
classification of running rows in `integrationQueueRecovery.js`.
-/

namespace TalonHound.QueueRecovery

/-- `QUEUE_HARDENING` and the threshold for queued rows in milliseconds, `readPositiveInt` on the
environment, and of each job the integration key, the name and `coerceQueuedAt` of its timestamp. -/
structure QueueConfig where
  (jobTimeoutMs heartbeatIntervalMs : ℤ)
  heartbeatIntervalMs_pos : 0 < heartbeatIntervalMs
  staleAfterMs : ℤ
  staleAfterMs_pos : 0 < staleAfterMs
  staleQueuedThresholdMs : ℤ
  readPositiveInt : String → ℤ → ℤ → ℤ
  (integrationKeyOf jobNameOf : String → String)
  queuedAtOf : String → Option ℤ

/-- `SOURCE_JOB_TIMEOUTS`. -/
def SOURCE_JOB_TIMEOUTS : List (String × String × ℤ) :=
  [("phishtank-opendnsrr", "PHISHTANK_JOB_TIMEOUT_MS", 3600000),
    ("threatfox-abusech", "THREATFOX_JOB_TIMEOUT_MS", 600000),
    ("usom-trcert", "USOM_JOB_TIMEOUT_MS", 7200000),
    ("urlhaus-abusech", "URLHAUS_JOB_TIMEOUT_MS", 600000),
    ("malwarebazaar-abusech", "MALWAREBAZAAR_JOB_TIMEOUT_MS", 600000),
    ("et-blockrules", "EMERGINGTHREATS_JOB_TIMEOUT_MS", 2700000),
    ("alienvault-otx", "ALIENVAULT_OTX_JOB_TIMEOUT_MS", 600000),
    ("certpl-warning-list", "CERTPL_JOB_TIMEOUT_MS", 7200000)]

/-- `resolveIntegrationJobTimeoutMs` of the worker service; the copy of the backend gives
`file-artifact-reconciliation`, which syncs no feed, a timeout of its own. -/
def resolveIntegrationJobTimeoutMs (config : QueueConfig) (integrationKey jobName : String) : ℤ :=
  if jobName = "feed_data_purge" then
    config.readPositiveInt "FEED_PURGE_JOB_TIMEOUT_MS" 86400000 600000
  else if jobName = "custom-threat-feed-sync" then
    config.readPositiveInt "CUSTOM_THREAT_FEED_JOB_TIMEOUT_MS" 600000 60000
  else if jobName = "spamhaus-drop-sync" then
    config.readPositiveInt "SPAMHAUS_DROP_JOB_TIMEOUT_MS" 120000 30000
  else if jobName = "malwarebazaar-historical-recovery" then
    config.readPositiveInt "MALWAREBAZAAR_RECOVERY_JOB_TIMEOUT_MS" 1800000 60000
  else
    match SOURCE_JOB_TIMEOUTS.find? (·.1 = trim integrationKey) with
    | some (_, env, fallback) => config.readPositiveInt env fallback 60000
    | none => config.jobTimeoutMs

/-- `orphanSourceLockGraceMs`. -/
def orphanSourceLockGraceMs (config : QueueConfig) : ℤ :=
  max ((if config.heartbeatIntervalMs = 0 then 30000 else config.heartbeatIntervalMs) * 3) 90000

/-- `status`. -/
inductive JobStatus where
  | queued | running | success | skipped | failed
  deriving DecidableEq

/-- A row of `integration_queue_jobs`. -/
structure QueueRow where
  (jobId integrationKey jobName : String)
  status : JobStatus
  (queuedAt startedAt heartbeatAt updatedAt finishedAt : Option ℤ)
  errorMessage : Option String

/-- `FAILURE_TYPES`, as far as recovery uses them. -/
inductive FailureType where
  | stale | timeout | reconciled | bullmqOrphan | staleQueued

/-- `FAILURE_MESSAGES`. -/
def FAILURE_MESSAGES : FailureType → String
  | .stale => "Job was running but heartbeat became stale. Marked as failed during queue recovery."
  | .timeout => "Job exceeded timeout and was marked as failed."
  | .reconciled => "Reconciled stale BullMQ state with DB terminal state."
  | .bullmqOrphan =>
    "BullMQ job was active/stalled without a valid DB running record; closed during queue recovery."
  | .staleQueued => "Queued timeout exceeded before worker consumed the job."

/-- `isDbTerminalStatus`. -/
def isDbTerminalStatus (status : JobStatus) : Bool := status = .failed || status = .success

/-- `getJobLastSeenMs`. -/
def getJobLastSeenMs (row : QueueRow) : Option ℤ :=
  row.heartbeatAt.or (row.updatedAt.or row.startedAt)

/-- `getJobStartedMs`. -/
def getJobStartedMs (row : QueueRow) : Option ℤ := row.startedAt.or row.queuedAt

section Classify

variable (config : QueueConfig)

/-- `classifyRunningJobForRecovery`. -/
def classifyRunningJobForRecovery (row : QueueRow) (nowMs : ℤ) : Option FailureType :=
  if row.status = .running then
    match (getJobLastSeenMs row).or (getJobStartedMs row) with
    | some referenceMs =>
      if resolveIntegrationJobTimeoutMs config row.integrationKey row.jobName <
          nowMs - (getJobStartedMs row).getD referenceMs then
        some .timeout
      else if config.staleAfterMs < nowMs - referenceMs then some .stale
      else none
    | none => none
  else none

/-- `classifyOrphanSourceLock`: what a released row fails with. -/
def classifyOrphanSourceLock (row : QueueRow) (inLiveBullmq : Bool) (nowMs : ℤ) :
    Option FailureType :=
  if row.status = .running then
    match classifyRunningJobForRecovery config row nowMs with
    | some type => some type
    | none =>
      if inLiveBullmq then none
      else if (getJobLastSeenMs row).any (orphanSourceLockGraceMs config < nowMs - ·) then
        some .stale
      else none
  else none

end Classify

section Statements

variable (now : ℤ) (jobId : String) (rows : List QueueRow)

/-- `UPDATE … WHERE job_id = $1`. -/
def updateJob (set : QueueRow → QueueRow) : List QueueRow :=
  rows.map (Rows.updateWhere (fun r => decide (r.jobId = jobId)) set)

/-- `INSERT … ON CONFLICT (job_id) DO UPDATE`. -/
def upsertJob (inserted : QueueRow) (set : QueueRow → QueueRow) : List QueueRow :=
  if jobId ∈ rows.map QueueRow.jobId then updateJob jobId rows set
  else rows ++ [{ inserted with jobId := jobId }]

/-- `markJobRunning`. -/
def markJobRunning (config : QueueConfig) : List QueueRow :=
  upsertJob jobId rows
    { jobId := jobId
      integrationKey := config.integrationKeyOf jobId
      jobName := config.jobNameOf jobId
      status := .running
      queuedAt := (config.queuedAtOf jobId).or (some now)
      startedAt := some now
      heartbeatAt := some now
      updatedAt := some now
      finishedAt := none
      errorMessage := none }
    fun r => { r with
      status := .running
      startedAt := r.startedAt.or (some now)
      queuedAt := r.queuedAt.or ((config.queuedAtOf jobId).or (some now))
      heartbeatAt := some now
      errorMessage := none
      finishedAt := none
      updatedAt := some now }

/-- `touchJobHeartbeat`. -/
def touchJobHeartbeat : List QueueRow :=
  updateJob jobId rows fun r =>
    if r.status = .running then { r with heartbeatAt := some now, updatedAt := some now } else r

/-- `markJobSuccess`. -/
def markJobSuccess : List QueueRow :=
  updateJob jobId rows fun r => { r with
    status := .success
    finishedAt := some now
    errorMessage := none
    updatedAt := some now }

/-- `markJobSkipped`. -/
def markJobSkipped (note : String) : List QueueRow :=
  updateJob jobId rows fun r => { r with
    status := .skipped
    finishedAt := some now
    errorMessage := some note
    updatedAt := some now }

/-- `markJobFailed`. -/
def markJobFailed (message : String) : List QueueRow :=
  updateJob jobId rows fun r => { r with
    status := .failed
    finishedAt := some now
    errorMessage := some message
    updatedAt := some now }

/-- `markQueueJobFailed`. -/
def markQueueJobFailed (type : FailureType) : List QueueRow :=
  updateJob jobId rows fun r => { r with
    status := .failed
    finishedAt := r.finishedAt.or (some now)
    errorMessage := some (FAILURE_MESSAGES type)
    updatedAt := some now }

/-- The row that an API call writes after it added the job to the queue. -/
def markJobEnqueued (config : QueueConfig) : List QueueRow :=
  upsertJob jobId rows
    { jobId := jobId
      integrationKey := config.integrationKeyOf jobId
      jobName := config.jobNameOf jobId
      status := .queued
      queuedAt := some now
      startedAt := none
      heartbeatAt := none
      updatedAt := some now
      finishedAt := none
      errorMessage := none }
    fun r => { r with
      status := .queued
      updatedAt := some now
      startedAt := none
      finishedAt := none
      errorMessage := none }

/-- The update of running rows with an end, in `recoverStaleRunningJobs`. -/
def fixFinished : List QueueRow :=
  rows.map (Rows.updateWhere (fun r => decide (r.status = .running) && r.finishedAt.isSome) fun r =>
    { r with
      status := if r.errorMessage = none then .success else .failed
      updatedAt := some now })

end Statements

/-!
## Passes of queue recovery

`recoverStaleRunningJobs`, `reconcileBullmqWithDb`, `releaseOrphanDbSourceLocks` and
`detectOrphanDbQueuedJobs`: what each reads of the queue and of the table, what it plans from that,
and the single commands in which it acts later.
-/

/-- The lists, jobs and lock keys of the queue; a lock key holds the execution that took it. -/
structure BullQueue where
  (active waiting delayed stalled jobs : List String)
  locks : String → Option ℕ

/-- `getState`; the other states are not told apart. -/
inductive BullState where
  | delayed | active | waiting | other
  deriving DecidableEq

/-- `getBullmqJobState`. -/
def getBullmqJobState (bull : BullQueue) (jobId : String) : BullState :=
  if jobId ∈ bull.delayed then .delayed
  else if jobId ∈ bull.active then .active
  else if jobId ∈ bull.waiting then .waiting
  else .other

/-- `isBullmqReconcilableState`; no job answers that it is stalled. -/
def isBullmqReconcilableState (state : BullState) : Bool := state = .active

/-- `queue.getJobs([…], 0, 500)`. -/
def getJobs (bull : BullQueue) (ids : List String) : List String :=
  (ids.take 501).filter (· ∈ bull.jobs)

/-- `loadStalledBullJobs`. -/
def loadStalledBullJobs (bull : BullQueue) : List String :=
  (bull.stalled.take 500).filter (· ∈ bull.jobs)

/-- `loadRedisListedBullJobIds`. -/
def loadRedisListedBullJobIds (bull : BullQueue) : List String :=
  ((bull.active.take 500 ++ bull.stalled).filter (· ≠ "")).eraseDups.take 500

/-- The releasing pass differs between the two services. -/
inductive ReleaseCopy where
  | integration | backend
  deriving DecidableEq

/-- The four passes. -/
inductive PassKind where
  | recoverStaleRunningJobs | reconcileBullmqWithDb
  | releaseOrphanDbSourceLocks (copy : ReleaseCopy)
  | detectOrphanDbQueuedJobs
  deriving DecidableEq

/-- What a pass reads. -/
inductive PassRead where
  | rows | activeJobs | waitingJobs | delayedJobs | stalledJobs | listedIds | entries
  deriving DecidableEq

/-- The reads of a pass; those of one group are made together and answered in any order. -/
def passReads : PassKind → List (List PassRead)
  | .recoverStaleRunningJobs => [[.rows]]
  | .reconcileBullmqWithDb => [[.activeJobs, .stalledJobs, .listedIds], [.entries], [.rows]]
  | .releaseOrphanDbSourceLocks _ => [[.rows, .activeJobs, .waitingJobs, .delayedJobs]]
  | .detectOrphanDbQueuedJobs => [[.rows], [.waitingJobs, .activeJobs, .delayedJobs]]

/-- What a pass does for a row or an entry. -/
inductive Task where
  | fail (jobId : String) (type : FailureType)
  | fixFinished
  | close (jobId : String) (purgeMissing : Bool)
  | entry (jobId : String) (isGhost : Bool)
  | sweep
  | remaining (jobId : String)

/-- A command of a pass. -/
inductive Op where
  | markQueueJobFailed (jobId : String) (type : FailureType)
  | fixFinished
  | unlessActive (jobId : String)
  | moveToFailed (jobId : String)
  | lremActive (jobId : String)
  | sremStalled (jobId : String)
  | delLock (jobId : String)

/-- A pass. `seen` says which executions had marked their rows when the table was read. -/
structure Pass where
  kind : PassKind
  reads : List (List PassRead)
  nowMs : ℤ
  rows : List QueueRow
  (activeJobs waitingJobs delayedJobs stalledJobs listedIds : List String)
  entries : List (String × Bool)
  seen : ℕ → Bool
  planned : Bool
  tasks : List Task
  ops : List Op

/-- A pass that begins. -/
def Pass.begin (kind : PassKind) (now : ℤ) : Pass where
  kind := kind
  reads := passReads kind
  nowMs := now
  rows := []
  activeJobs := []
  waitingJobs := []
  delayedJobs := []
  stalledJobs := []
  listedIds := []
  entries := []
  seen := fun _ => false
  planned := false
  tasks := []
  ops := []

/-- The columns that the reconciliation selects of a row. -/
def reconciledColumns (row : QueueRow) : QueueRow := { row with queuedAt := none, updatedAt := none }

section Select

variable (config : QueueConfig) (now : ℤ) (p : Pass) (table : List QueueRow)

/-- The answer to the query of a pass. -/
def selectRows : List QueueRow :=
  match p.kind with
  | .recoverStaleRunningJobs => table.filter (·.status = .running)
  | .reconcileBullmqWithDb =>
    (table.filter fun r => r.jobId ∈ p.entries.map (·.1)).map reconciledColumns
  | .releaseOrphanDbSourceLocks _ =>
    (table.filter (·.status = .running)).map reconciledColumns
  | .detectOrphanDbQueuedJobs =>
    table.filter fun r =>
      r.status = .queued && r.queuedAt.any (· < now - config.staleQueuedThresholdMs)

end Select

/-- `liveBullIds`. -/
def Pass.liveBullIds (p : Pass) : List String := p.activeJobs ++ p.waitingJobs ++ p.delayedJobs

/-- The row of a job among those that a pass read. -/
def Pass.dbRow (p : Pass) (jobId : String) : Option QueueRow := Rows.lookup QueueRow.jobId p.rows jobId

/-- `byId`: the jobs that were found, and the other listed ids, ghosts where they have no job. -/
def resolveEntries (bull : BullQueue) (p : Pass) : List (String × Bool) :=
  let found := (p.activeJobs ++ p.stalledJobs).eraseDups
  found.map (·, false) ++
    (p.listedIds.filter (· ∉ found)).map fun id => (id, decide (id ∉ bull.jobs))

/-- `purgeJobFromBullmqLists`. -/
def purgeJobFromBullmqLists (jobId : String) : List Op :=
  [.lremActive jobId, .sremStalled jobId, .delLock jobId]

/-- `moveBullJobToFailedAndPurge`. -/
def moveBullJobToFailedAndPurge (jobId : String) : List Op :=
  .moveToFailed jobId :: purgeJobFromBullmqLists jobId

section Plan

variable (config : QueueConfig)

/-- `isBlockingBullmqEntry`, as the last sweep calls it. -/
def isBlockingBullmqEntry (dbRow : Option QueueRow) (nowMs : ℤ) : Bool :=
  match dbRow with
  | none => true
  | some row =>
    isDbTerminalStatus row.status || row.status = .queued ||
      (row.status = .running && (classifyRunningJobForRecovery config row nowMs).isSome)

/-- `reconcileOneBullJob`, after the state of the job was read. -/
def reconcileOneBullJob (dbRow : Option QueueRow) (nowMs : ℤ) (jobId : String) (isGhost : Bool)
    (bullState : BullState) : List Op :=
  if isGhost then purgeJobFromBullmqLists jobId
  else if !isBullmqReconcilableState bullState then purgeJobFromBullmqLists jobId
  else
    match dbRow with
    | none => .unlessActive jobId :: moveBullJobToFailedAndPurge jobId
    | some row =>
      if isDbTerminalStatus row.status then moveBullJobToFailedAndPurge jobId
      else if row.status = .running then
        match classifyRunningJobForRecovery config row nowMs with
        | some type => .markQueueJobFailed jobId type :: moveBullJobToFailedAndPurge jobId
        | none => []
      else
        moveBullJobToFailedAndPurge jobId ++
          if row.status = .queued then [.markQueueJobFailed jobId .bullmqOrphan] else []

/-- Why a releasing pass releases a running row. -/
def releaseDecision (copy : ReleaseCopy) (p : Pass) (row : QueueRow) : Option FailureType :=
  match copy with
  | .integration =>
    match classifyRunningJobForRecovery config row p.nowMs with
    | some type => some type
    | none => if row.jobId ∈ p.liveBullIds then none else some .reconciled
  | .backend => classifyOrphanSourceLock config row (decide (row.jobId ∈ p.liveBullIds)) p.nowMs

/-- The rows of a pass that a decision fails, with what it fails them with. -/
def decidedRows (decide : QueueRow → Option FailureType) (rows : List QueueRow) :
    List (String × FailureType) :=
  rows.filterMap fun row => (decide row).map (row.jobId, ·)

/-- What a pass does when its reads are answered. -/
def planTasks (p : Pass) : List Task :=
  match p.kind with
  | .recoverStaleRunningJobs =>
    let recovered := decidedRows (classifyRunningJobForRecovery config · p.nowMs) p.rows
    recovered.map (fun d => .fail d.1 d.2) ++ [.fixFinished] ++
      recovered.map fun d => .close d.1 false
  | .reconcileBullmqWithDb => p.entries.map (fun e => .entry e.1 e.2) ++ [.sweep]
  | .releaseOrphanDbSourceLocks copy =>
    (decidedRows (releaseDecision config copy p) p.rows).flatMap fun d =>
      [.fail d.1 d.2, .close d.1 true]
  | .detectOrphanDbQueuedJobs =>
    (p.rows.filter (·.jobId ∉ p.liveBullIds)).map fun row => .fail row.jobId .staleQueued

/-- The commands and the further tasks of a task. -/
def expandTask (bull : BullQueue) (p : Pass) : Task → List Op × List Task
  | .fail jobId type => ([.markQueueJobFailed jobId type], [])
  | .fixFinished => ([.fixFinished], [])
  | .close jobId purgeMissing =>
    (if jobId ∈ bull.jobs then moveBullJobToFailedAndPurge jobId
      else if purgeMissing then purgeJobFromBullmqLists jobId else [], [])
  | .entry jobId isGhost =>
    (reconcileOneBullJob config (p.dbRow jobId) p.nowMs jobId isGhost
      (getBullmqJobState bull jobId), [])
  | .sweep => ([], (loadRedisListedBullJobIds bull).map .remaining)
  | .remaining jobId =>
    (if isBlockingBullmqEntry config (p.dbRow jobId) p.nowMs then purgeJobFromBullmqLists jobId
      else [], [])

end Plan

/-- The outcome of `moveToFailed`: refused by the queue, or where the job goes. -/
inductive MoveOutcome where
  | refused | failed | delayed | waiting
  deriving DecidableEq

/-- A job leaves the active list for another one. -/
def BullQueue.leaveActive (bull : BullQueue) (jobId : String) : MoveOutcome → BullQueue
  | .refused => bull
  | .failed => { bull with active := bull.active.filter (· ≠ jobId) }
  | .delayed =>
    { bull with active := bull.active.filter (· ≠ jobId), delayed := bull.delayed ++ [jobId] }
  | .waiting =>
    { bull with active := bull.active.filter (· ≠ jobId), waiting := bull.waiting ++ [jobId] }

/-- The table after a command. -/
def Op.rows (now : ℤ) (rows : List QueueRow) : Op → List QueueRow
  | .markQueueJobFailed jobId type => QueueRecovery.markQueueJobFailed now jobId rows type
  | .fixFinished => QueueRecovery.fixFinished now rows
  | _ => rows

/-- The queue after a command; a job that is not active stays where it is. -/
def Op.bull (bull : BullQueue) (outcome : MoveOutcome) : Op → BullQueue
  | .moveToFailed jobId => if jobId ∈ bull.active then bull.leaveActive jobId outcome else bull
  | .lremActive jobId => { bull with active := bull.active.filter (· ≠ jobId) }
  | .sremStalled jobId => { bull with stalled := bull.stalled.filter (· ≠ jobId) }
  | .delLock jobId => { bull with locks := fun id => if id = jobId then none else bull.locks id }
  | _ => bull

/-- The commands that follow a command. -/
def Op.rest (bull : BullQueue) (ops : List Op) : Op → List Op
  | .unlessActive jobId => if jobId ∈ bull.active then [] else ops
  | _ => ops

end TalonHound.QueueRecovery
