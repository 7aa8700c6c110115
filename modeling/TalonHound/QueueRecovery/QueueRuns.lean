import TalonHound.Library.IndexedList
import TalonHound.Library.Run
import TalonHound.QueueRecovery.Passes

/-!
# Workers and recovery passes

Workers pick jobs and run them as `worker.js` does, while any number of recovery passes read and act
one command at a time.
-/

namespace TalonHound.QueueRecovery

/-- How far a worker is with a job: picked, refused as its feed is busy, its row marked as running, its
result stored, left by an error whose handler has still to run, or left. -/
inductive ExecutionStage where
  | picked | refused | running | stored | failing | ended
  deriving DecidableEq

/-- The execution of a job by a worker, with the times of its start and of its last heartbeat. -/
structure Execution where
  jobId : String
  stage : ExecutionStage
  (startedAt lastBeat : ℤ)
  deriving DecidableEq

/-- The worker has not left the job. -/
def Execution.executing (e : Execution) : Bool :=
  e.stage = .picked || e.stage = .refused || e.stage = .running || e.stage = .stored

/-- The heartbeats and the timeout of the job are on. -/
def Execution.beats (e : Execution) : Bool := e.stage = .running || e.stage = .stored

/-- The queue, the table, the executions and the passes. -/
structure QueueState where
  now : ℤ
  bull : BullQueue
  rows : List QueueRow
  executions : List Execution
  passes : List Pass

/-- Nothing was added yet. -/
def QueueState.empty : QueueState where
  now := 0
  bull := ⟨[], [], [], [], [], fun _ => none⟩
  rows := []
  executions := []
  passes := []

/-- What the queue does by itself, and what the API does to it. -/
inductive BullAction where
  | add (jobId : String)
  | enqueueRow (jobId : String)
  | promote (jobId : String)
  | listStalled
  | stalledToWait (jobId : String)
  | stalledToFailed (jobId : String)
  | lockExpires (jobId : String)
  | remove (jobId : String)

/-- What a worker does. -/
inductive WorkerAction where
  | skipBusy | markRunning | beat | storeSuccess
  | storeSkipped (reason : String)
  | complete
  | fail (outcome : MoveOutcome)
  | writeFailed (message : String)
  | crash

/-- What a pass does next: one of its reads, its plan, a task, a command. -/
inductive PassAction where
  | read (which : PassRead)
  | plan
  | expand
  | op (outcome : MoveOutcome)

/-- The actions: time passes, the queue acts, a worker picks a job or goes on with one, a pass
begins or goes on. -/
inductive QueueAction where
  | tick (elapsed : ℕ)
  | bull (a : BullAction)
  | pick (jobId : String)
  | worker (t : ℕ) (a : WorkerAction)
  | begin (kind : PassKind)
  | pass (i : ℕ) (a : PassAction)

section Step

variable (config : QueueConfig)

/-- Every heartbeat of a running job is on time. -/
def heartbeatsOnTime (now : ℤ) (executions : List Execution) : Bool :=
  executions.all fun e => e.stage ≠ .running ||
    (decide (now - e.lastBeat ≤ config.heartbeatIntervalMs) &&
      decide (now - e.lastBeat ≤ config.staleAfterMs))

/-- A step of the queue. -/
def bullStep (s : QueueState) : BullAction → Option QueueState
  | .add jobId =>
    if jobId ∈ s.bull.jobs then some s
    else
      some { s with
        bull := { s.bull with
          jobs := s.bull.jobs ++ [jobId]
          waiting := s.bull.waiting ++ [jobId] } }
  | .enqueueRow jobId => some { s with rows := markJobEnqueued s.now jobId s.rows config }
  | .promote jobId =>
    if jobId ∈ s.bull.delayed then
      some { s with
        bull := { s.bull with
          delayed := s.bull.delayed.filter (· ≠ jobId)
          waiting := s.bull.waiting ++ [jobId] } }
    else none
  | .listStalled => some { s with bull := { s.bull with stalled := s.bull.active } }
  | .stalledToWait jobId =>
    if jobId ∈ s.bull.active ∧ (s.bull.locks jobId).isNone then
      some { s with bull := s.bull.leaveActive jobId .waiting }
    else none
  | .stalledToFailed jobId =>
    if jobId ∈ s.bull.active ∧ (s.bull.locks jobId).isNone then
      some { s with bull := s.bull.leaveActive jobId .failed }
    else none
  | .lockExpires jobId =>
    -- A worker renews the locks of the jobs that it executes.
    if (s.bull.locks jobId).all fun t => !(s.executions[t]?.any Execution.executing) then
      some { s with
        bull := { s.bull with locks := fun id => if id = jobId then none else s.bull.locks id } }
    else none
  | .remove jobId =>
    if jobId ∈ s.bull.active ∨ jobId ∈ s.bull.waiting ∨ jobId ∈ s.bull.delayed then none
    else some { s with bull := { s.bull with jobs := s.bull.jobs.filter (· ≠ jobId) } }

/-- The queue after the worker that holds the lock of a job leaves it. -/
def leaveJob (bull : BullQueue) (t : ℕ) (jobId : String) (outcome : MoveOutcome) : BullQueue :=
  if bull.locks jobId = some t then
    { if jobId ∈ bull.active then bull.leaveActive jobId outcome else bull with
      locks := fun id => if id = jobId then none else bull.locks id }
  else bull

/-- The execution goes on. -/
def setExecution (s : QueueState) (t : ℕ) (e : Execution) : QueueState :=
  { s with executions := s.executions.set t e }

/-- A step of a worker. -/
def workerStep (s : QueueState) (t : ℕ) (e : Execution) : WorkerAction → Option QueueState
  | .skipBusy =>
    if e.stage = .picked then
      some { setExecution s t { e with stage := .refused } with
        rows := markJobSkipped s.now e.jobId s.rows "skipped:source_busy" }
    else none
  | .markRunning =>
    if e.stage = .picked then
      some { setExecution s t { e with stage := .running, startedAt := s.now, lastBeat := s.now } with
        rows := markJobRunning s.now e.jobId s.rows config }
    else none
  | .beat =>
    if e.beats then
      some { setExecution s t { e with lastBeat := s.now } with
        rows := touchJobHeartbeat s.now e.jobId s.rows }
    else none
  | .storeSuccess =>
    if e.stage = .running then
      some { setExecution s t { e with stage := .stored } with
        rows := markJobSuccess s.now e.jobId s.rows }
    else none
  | .storeSkipped reason =>
    if e.stage = .running then
      some { setExecution s t { e with stage := .stored } with
        rows := markJobSkipped s.now e.jobId s.rows ("skipped:" ++ reason) }
    else none
  | .complete =>
    if e.stage = .stored ∨ e.stage = .refused then
      some { setExecution s t { e with stage := .ended } with
        bull := leaveJob s.bull t e.jobId .failed }
    else none
  | .fail outcome =>
    if e.executing ∧ outcome ≠ .refused then
      some { setExecution s t { e with stage := .failing } with
        bull := leaveJob s.bull t e.jobId outcome }
    else none
  | .writeFailed message =>
    if e.stage = .failing then
      some { setExecution s t { e with stage := .ended } with
        rows := markJobFailed s.now e.jobId s.rows message }
    else none
  | .crash =>
    if e.executing then some (setExecution s t { e with stage := .ended }) else none

/-- What a pass knows after a read. -/
def readAnswer (s : QueueState) (p : Pass) : PassRead → Pass
  | .rows =>
    { p with
      rows := selectRows config s.now p s.rows
      -- Only the first pass reads the clock after the table.
      nowMs := if p.kind = .recoverStaleRunningJobs then s.now else p.nowMs
      seen := fun t => s.executions[t]?.any (·.stage = .running) }
  | .activeJobs => { p with activeJobs := getJobs s.bull s.bull.active }
  | .waitingJobs => { p with waitingJobs := getJobs s.bull s.bull.waiting }
  | .delayedJobs => { p with delayedJobs := getJobs s.bull s.bull.delayed }
  | .stalledJobs => { p with stalledJobs := loadStalledBullJobs s.bull }
  | .listedIds => { p with listedIds := loadRedisListedBullJobIds s.bull }
  | .entries => { p with entries := resolveEntries s.bull p }

/-- The reads that are left after one of the first group. -/
def remainingReads (which : PassRead) : List (List PassRead) → Option (List (List PassRead))
  | [] => none
  | group :: groups =>
    if which ∈ group then
      match group.erase which with
      | [] => some groups
      | rest => some (rest :: groups)
    else none

/-- A step of a pass. -/
def passStep (s : QueueState) (i : ℕ) (p : Pass) : PassAction → Option QueueState
  | .read which =>
    (remainingReads which p.reads).map fun reads =>
      { s with passes := s.passes.set i { readAnswer config s p which with reads := reads } }
  | .plan =>
    if p.reads = [] ∧ p.tasks = [] ∧ p.ops = [] ∧ !p.planned then
      some { s with passes := s.passes.set i { p with planned := true, tasks := planTasks config p } }
    else none
  | .expand =>
    match p.ops, p.tasks with
    | [], task :: tasks =>
      some { s with
        passes := s.passes.set i { p with
          ops := (expandTask config s.bull p task).1
          tasks := (expandTask config s.bull p task).2 ++ tasks } }
    | _, _ => none
  | .op outcome =>
    match p.ops with
    | op :: ops =>
      some { s with
        bull := op.bull s.bull outcome
        rows := op.rows s.now s.rows
        passes := s.passes.set i { p with ops := op.rest s.bull ops } }
    | [] => none

/-- One step. -/
def queueStep (s : QueueState) : QueueAction → Option QueueState
  | .tick elapsed =>
    if heartbeatsOnTime config (s.now + elapsed) s.executions then
      some { s with now := s.now + elapsed }
    else none
  | .bull a => bullStep config s a
  | .pick jobId =>
    if jobId ∈ s.bull.waiting then
      some { s with
        bull := { s.bull with
          waiting := s.bull.waiting.filter (· ≠ jobId)
          active := s.bull.active ++ [jobId]
          locks := fun id => if id = jobId then some s.executions.length else s.bull.locks id }
        executions := s.executions ++ [⟨jobId, .picked, s.now, s.now⟩] }
    else none
  | .worker t a => s.executions[t]?.bind fun e => workerStep config s t e a
  | .begin kind => some { s with passes := s.passes ++ [Pass.begin kind s.now] }
  | .pass i a => s.passes[i]?.bind fun p => passStep config s i p a

end Step

section Promise

variable (config : QueueConfig)

/-- A live worker executes the job: it was picked, and is within its own timeout. -/
def Live (s : QueueState) (e : Execution) : Prop :=
  e.executing = true ∧ (e.beats = true → s.now - e.startedAt ≤
    resolveIntegrationJobTimeoutMs config (config.integrationKeyOf e.jobId) (config.jobNameOf e.jobId))
  deriving Decidable

/-- The status of the row of a job. -/
def statusOf (s : QueueState) (jobId : String) : Option JobStatus :=
  (Rows.lookup QueueRow.jobId s.rows jobId).map QueueRow.status

/-- A step leaves live workers their jobs, locks and rows, and no stored success becomes a
failure. -/
structure SparesLive (s s' : QueueState) : Prop where
  active : ∀ (t : ℕ) (e : Execution), s.executions[t]? = some e → Live config s e →
    e.jobId ∈ s.bull.active → e.jobId ∈ s'.bull.active
  locks : ∀ (t : ℕ) (e : Execution), s.executions[t]? = some e → Live config s e →
    s'.bull.locks e.jobId = s.bull.locks e.jobId
  rows : ∀ (t : ℕ) (e : Execution), s.executions[t]? = some e → Live config s e →
    statusOf s' e.jobId = some .failed → statusOf s e.jobId = some .failed
  success : ∀ jobId, statusOf s jobId = some .success → statusOf s' jobId ≠ some .failed

/-- The job whose row, lock or place in the active list a command changes. -/
def Op.touches (s : QueueState) (outcome : MoveOutcome) : Op → Option String
  | .markQueueJobFailed jobId _ =>
    if (statusOf s jobId).all (· = .failed) then none else some jobId
  | .moveToFailed jobId => if outcome = .refused then none else some jobId
  | .lremActive jobId => some jobId
  | .delLock jobId => some jobId
  | _ => none

/-- The command fails a row. -/
def Op.failsRow : Op → Bool
  | .markQueueJobFailed _ _ => true
  | _ => false

/-- What a pass knows of an execution is up to date: its worker had marked the row when the table
was read, the row read is running with a start within the timeout, the job is no ghost, and the
releasing pass of the worker service has listed it. -/
def UpToDate (p : Pass) (t : ℕ) (e : Execution) : Prop :=
  p.seen t = true ∧ (e.jobId, true) ∉ p.entries ∧
    (p.kind = .releaseOrphanDbSourceLocks .integration → e.jobId ∈ p.liveBullIds) ∧
    ∃ row ∈ p.dbRow e.jobId, row.status = .running ∧ p.nowMs - (getJobStartedMs row).getD p.nowMs ≤
        resolveIntegrationJobTimeoutMs config row.integrationKey row.jobName
  deriving Decidable

/-- The condition: a command touches the job of a live worker only if what its pass knows of it is up
to date, and fails a row with a stored success only if the pass read that success. -/
def ActsUpToDate (s : QueueState) : QueueAction → Prop
  | .pass i (.op outcome) =>
    ∀ p ∈ s.passes[i]?, ∀ op ∈ p.ops.head?, ∀ jobId ∈ op.touches s outcome,
      (∀ x ∈ s.executions.zipIdx, Live config s x.1 → x.1.jobId = jobId →
        UpToDate config p x.2 x.1) ∧
      (op.failsRow = true → statusOf s jobId = some .success →
        ∃ row ∈ p.dbRow jobId, row.status = .success)
  | _ => True

instance (s : QueueState) (a : QueueAction) : Decidable (ActsUpToDate config s a) := by
  unfold ActsUpToDate
  split <;> infer_instance

end Promise

end TalonHound.QueueRecovery
