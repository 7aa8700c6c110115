import Mathlib.Data.List.Sort
import TalonHound.Library.Rows
import TalonHound.Library.Run
import TalonHound.ThreatJobs.Job

/-!
# Dispatching queued jobs

The jobs, the reports they belong to and the entries of the BullMQ queue, with
`dispatchQueuedThreatLibraryAnalyses` of `analysisConcurrency.js`.
-/

namespace TalonHound.ThreatJobs

/-- What a dispatch reads of `threat_reports`. -/
structure ReportRow where
  id : ℕ
  sourceUrl : Option String
  deleted : Bool

/-- The data of a BullMQ job. -/
structure Payload where
  (reportId jobId : ℕ)
  sourceUrl : Option String
  resumeAnalysis : Bool
  jobType : JobMode
  newAnalysisRun : Bool
  (restoreStatus membershipPolicy jobPayload : Option String)

/-- An entry of the queue. -/
structure BullEntry where
  id : ℕ
  data : Payload

/-- The tables, the queue, and the next values of their ids. -/
structure JobTables where
  reports : List ReportRow
  jobs : List JobRow
  entries : List BullEntry
  (nextJobId nextBullId : ℕ)

/-- `dispatchExtraFromJob`. -/
structure DispatchExtra where
  sourceUrl : Option String
  (resumeAnalysis newAnalysisRun : Bool)
  jobType : JobMode
  (jobPayload restoreStatus membershipPolicy : Option String)

/-- An absent `dispatch` counts as an empty one. -/
def emptyDispatch : Dispatch where
  jobType := none
  sourceUrl := none
  resumeAnalysis := false
  newAnalysisRun := false
  restoreStatus := none
  membershipPolicy := none
  jobPayload := none

/-- `dispatchExtraFromJob`: the column `job_payload` is an object in every row. -/
def dispatchExtraFromJob (sourceUrl : Option String) (j : JobRow) : DispatchExtra :=
  let dispatch := j.dispatch.getD emptyDispatch
  let jobType := dispatch.jobType.getD j.jobType
  { sourceUrl := dispatch.sourceUrl.or sourceUrl
    resumeAnalysis := dispatch.resumeAnalysis || jobType = .retry || jobType = .rerunAi
    newAnalysisRun := dispatch.newAnalysisRun || jobType = .rerunAi
    jobType := jobType
    jobPayload := some j.jobPayload
    restoreStatus := dispatch.restoreStatus
    membershipPolicy := dispatch.membershipPolicy }

/-- What `enqueueClaimedThreatLibraryJob` adds to the queue. -/
def payloadOf (sourceUrl : Option String) (j : JobRow) : Payload :=
  let extra := dispatchExtraFromJob sourceUrl j
  { reportId := j.reportId
    jobId := j.id
    sourceUrl := extra.sourceUrl
    resumeAnalysis := extra.resumeAnalysis
    jobType := extra.jobType
    newAnalysisRun := extra.newAnalysisRun
    restoreStatus := extra.restoreStatus
    membershipPolicy := extra.membershipPolicy
    jobPayload := extra.jobPayload }

/-- What the creator of a job gives. -/
structure NewJob where
  reportId : ℕ
  jobType : JobMode
  jobPayload : Option String
  notBefore : Option ℕ

/-- The row of a new job: queued, and not in the queue. -/
def NewJob.row (now id : ℕ) (job : NewJob) : JobRow where
  id := id
  reportId := job.reportId
  jobType := job.jobType
  status := .queued
  dispatch := none
  jobPayload := job.jobPayload.getD "\x7b\x7d"
  bullmqJobId := none
  ownerToken := none
  heartbeatAt := none
  notBefore := job.notBefore
  createdAt := now
  startedAt := none

/-- `createJob`. -/
def createJob (now : ℕ) (job : NewJob) (T : JobTables) : JobTables :=
  { T with jobs := T.jobs ++ [job.row now T.nextJobId], nextJobId := T.nextJobId + 1 }

/-- `createExclusivePipelineJob`: none beside a pipeline job that is queued or running. -/
def createExclusivePipelineJob (now : ℕ) (job : NewJob) (T : JobTables) : JobTables :=
  if T.jobs.any fun j => j.reportId = job.reportId && j.status.occupied && j.jobType.isPipeline then T
  else createJob now job T

/-- The job occupies a slot. -/
def JobRow.occupiesSlot (j : JobRow) : Bool := j.status.occupied && j.bullmqJobId.isSome

/-- The `occupied` of a dispatch. -/
def occupiedCount (jobs : List JobRow) : ℕ := jobs.countP JobRow.occupiesSlot

/-- Another pipeline job of the report occupies a slot. -/
def liveElsewhere (jobs : List JobRow) (j : JobRow) : Bool :=
  jobs.any fun o => o.reportId = j.reportId && o.id ≠ j.id && o.occupiesSlot && o.jobType.isPipeline

namespace JobTables

/-- The report of a job, in the join of a dispatch. -/
def report? (T : JobTables) (j : JobRow) : Option ReportRow :=
  T.reports.find? fun r => r.id = j.reportId

/-- The `WHERE` of the candidates. -/
def dispatchable (now : ℕ) (T : JobTables) (j : JobRow) : Bool :=
  j.status = .queued && j.bullmqJobId.isNone && (T.report? j).any (fun r => !r.deleted) &&
    j.notBefore.all (· ≤ now) &&
    !(j.jobType.isPipeline && liveElsewhere T.jobs j)

/-- `ORDER BY j.created_at ASC, j.id ASC`. -/
def DispatchedBefore (i j : JobRow) : Prop :=
  i.createdAt < j.createdAt ∨ i.createdAt = j.createdAt ∧ i.id ≤ j.id
  deriving Decidable

/-- The candidates of a dispatch; rows that others have locked are skipped. -/
def candidates (now available : ℕ) (locked : List ℕ) (T : JobTables) : List JobRow :=
  ((T.jobs.filter fun j => T.dispatchable now j && j.id ∉ locked).insertionSort
    DispatchedBefore).take available

end JobTables

/-- One pipeline job per report is claimed: `claimedReports`. -/
def onePerReport (claimedReports : List ℕ) : List JobRow → List JobRow
  | [] => []
  | j :: js =>
    if j.jobType.isPipeline then
      if j.reportId ∈ claimedReports then onePerReport claimedReports js
      else j :: onePerReport (j.reportId :: claimedReports) js
    else j :: onePerReport claimedReports js

namespace JobTables

/-- The jobs that a dispatch enqueues, in order. -/
def chosen (now available : ℕ) (locked : List ℕ) (T : JobTables) : List JobRow :=
  onePerReport [] (T.candidates now available locked)

/-- `enqueue`. -/
def enqueue (T : JobTables) (j : JobRow) : JobTables :=
  { T with
    entries := T.entries ++ [⟨T.nextBullId, payloadOf ((T.report? j).bind ReportRow.sourceUrl) j⟩]
    nextBullId := T.nextBullId + 1 }

/-- The slot of a job that was enqueued as `bullId`. -/
def assignSlot (bullId : ℕ) (j : JobRow) (T : JobTables) : JobTables :=
  { T with jobs := T.jobs.map (Rows.updateWhere
      (fun r => r.id = j.id && r.status = .queued && r.bullmqJobId.isNone)
      fun r => { r with bullmqJobId := some bullId }) }

/-- A job is enqueued and gets a slot. -/
def claimJob (T : JobTables) (j : JobRow) : JobTables := (T.enqueue j).assignSlot T.nextBullId j

/-- The part of `dispatchQueuedThreatLibraryAnalyses` after the slots were counted, up to the
commit. -/
def dispatch (now limit occupied : ℕ) (locked : List ℕ) (T : JobTables) : JobTables :=
  (T.chosen now (limit - occupied) locked).foldl claimJob T

/-- The same up to a failure after `enqueued` entries were added: the rows are rolled back, the
entries stay. -/
def failedDispatch (now limit occupied enqueued : ℕ) (locked : List ℕ) (T : JobTables) :
    JobTables :=
  ((T.chosen now (limit - occupied) locked).take enqueued).foldl enqueue T

end JobTables

/-!
## Analysis slots

Requesters, dispatch passes and workers on one set of jobs. A dispatch pass holds the advisory
lock of the slots from the count to its commit; nobody else takes it. Entries of the queue are
delivered any number of times, also those of a dispatch that was rolled back.
-/

/-- The tables, and the slots that the running dispatch counted. -/
structure SlotState where
  tables : JobTables
  counted : Option ℕ

/-- One statement or transaction. -/
inductive SlotAction where
  | createJob (now : ℕ) (job : NewJob)
  | createExclusivePipelineJob (now : ℕ) (job : NewJob)
  | updateJob (now jobId : ℕ) (patch : JobPatch)
  /-- A dispatch takes the lock and counts. -/
  | countSlots
  | dispatch (now : ℕ) (locked : List ℕ)
  | failDispatch (now enqueued : ℕ) (locked : List ℕ)
  /-- A delivery of an entry claims its job. -/
  | claim (now bullId : ℕ) (token : OwnerToken)
  | heartbeat (now jobId : ℕ) (token : OwnerToken)
  | requeue (jobId : ℕ) (token : OwnerToken)
  | recover (now jobId : ℕ)
  /-- Recovery of a queued job whose entry is not live. -/
  | recoverClaim (jobId : ℕ)
  | cancelUnclaimed (reportId : ℕ)

/-- Update the job with an id. -/
def JobTables.updateRow (jobId : ℕ) (g : JobRow → JobRow) (T : JobTables) : JobTables :=
  { T with jobs := T.jobs.map (Rows.updateWhere (fun j => j.id = jobId) g) }

/-- The row after a delivery of `bullId` tried to claim it. -/
def JobRow.claimedIf (now : ℕ) (token : OwnerToken) (bullId : ℕ) (j : JobRow) : JobRow :=
  if j.claimable jobOwnerStaleMs now token then j.claimed now token (some bullId) else j

/-- The row after a recovery pass that saw it running. -/
def JobRow.recoveredIf (now : ℕ) (j : JobRow) : JobRow :=
  if j.recoverable jobOwnerStaleMs now then j.recovered else j

/-- The row after a recovery pass that saw a stale claim. -/
def JobRow.unclaimed (j : JobRow) : JobRow :=
  if j.status = .queued then { j with bullmqJobId := none } else j

/-- A job that `cancelUnclaimedAnalysisJobs` cancels. -/
def JobRow.cancelled (j : JobRow) : JobRow :=
  if j.status = .queued ∧ j.bullmqJobId = none then { j with status := .cancelled } else j

/-- One step; `none` when the action is not possible. -/
def slotStep (limit : ℕ) (s : SlotState) : SlotAction → Option SlotState
  | .createJob now job => some { s with tables := createJob now job s.tables }
  | .createExclusivePipelineJob now job =>
    some { s with tables := createExclusivePipelineJob now job s.tables }
  | .updateJob now jobId patch =>
    some { s with tables := s.tables.updateRow jobId (JobRow.patched now patch) }
  | .countSlots =>
    match s.counted with
    | none => some { s with counted := some (occupiedCount s.tables.jobs) }
    | some _ => none
  | .dispatch now locked =>
    match s.counted with
    | some occupied => some ⟨s.tables.dispatch now limit occupied locked, none⟩
    | none => none
  | .failDispatch now enqueued locked =>
    match s.counted with
    | some occupied => some ⟨s.tables.failedDispatch now limit occupied enqueued locked, none⟩
    | none => none
  | .claim now bullId token =>
    match s.tables.entries.find? fun e => e.id = bullId with
    | some e =>
      some { s with tables := s.tables.updateRow e.data.jobId (JobRow.claimedIf now token bullId) }
    | none => none
  | .heartbeat now jobId token =>
    some { s with tables := s.tables.updateRow jobId fun j => (j.heartbeat now token).1 }
  | .requeue jobId token => some { s with tables := s.tables.updateRow jobId (JobRow.requeue token) }
  | .recover now jobId =>
    some { s with tables := s.tables.updateRow jobId (JobRow.recoveredIf now) }
  | .recoverClaim jobId => some { s with tables := s.tables.updateRow jobId JobRow.unclaimed }
  | .cancelUnclaimed reportId =>
    some { s with tables := { s.tables with
      jobs := s.tables.jobs.map (Rows.updateWhere (fun j => j.reportId = reportId) JobRow.cancelled) } }

/-- No jobs yet. -/
def SlotState.initial (reports : List ReportRow) : SlotState where
  tables :=
    { reports := reports
      jobs := []
      entries := []
      nextJobId := 1
      nextBullId := 1 }
  counted := none

end TalonHound.ThreatJobs
