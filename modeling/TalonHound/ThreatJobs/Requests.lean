import TalonHound.ThreatJobs.Slots

/-!
# Requests and their payloads

`queueThreatLibraryAnalysis` and `maybeScheduleAutoRetry` insert a job, and store what the
requester supplied with a second update. Dispatch passes of others and workers come in between
at any time.
-/

namespace TalonHound.ThreatJobs

open List

/-- What a requester supplies. -/
structure JobRequest where
  reportId : ℕ
  jobType : JobMode
  dispatch : Option Dispatch
  jobPayload : Option String
  notBefore : Option ℕ
  deriving DecidableEq

namespace JobRequest

/-- The row that the request inserts. -/
def newJob (r : JobRequest) : NewJob where
  reportId := r.reportId
  jobType := r.jobType
  jobPayload := r.jobPayload.or (r.dispatch.bind Dispatch.jobPayload)
  notBefore := r.notBefore

/-- The request of `maybeScheduleAutoRetry`. -/
def autoRetry (reportId : ℕ) (sourceUrl : Option String) (payload : String) (notBefore : ℕ) :
    JobRequest where
  reportId := reportId
  jobType := .retry
  dispatch := some
    { jobType := some .retry
      sourceUrl := sourceUrl
      resumeAnalysis := true
      newAnalysisRun := false
      restoreStatus := none
      membershipPolicy := none
      jobPayload := some payload }
  jobPayload := some payload
  notBefore := some notBefore

/-- The mode that the request asks for. -/
def mode (r : JobRequest) : JobMode := (r.dispatch.bind Dispatch.jobType).getD r.jobType

/-- The request asks to resume, by its flag or by a mode that always does. -/
def resumes (r : JobRequest) : Bool :=
  r.dispatch.any Dispatch.resumeAnalysis || r.mode = .retry || r.mode = .rerunAi

/-- The payload carries what the requester of the job supplied. -/
structure Carries (r : JobRequest) (jobId : ℕ) (p : Payload) : Prop where
  jobId : p.jobId = jobId
  reportId : p.reportId = r.reportId
  mode : p.jobType = r.mode
  resumes : p.resumeAnalysis = r.resumes
  restoreStatus : p.restoreStatus = r.dispatch.bind Dispatch.restoreStatus
  membershipPolicy : p.membershipPolicy = r.dispatch.bind Dispatch.membershipPolicy
  jobPayload : p.jobPayload = some (r.newJob.jobPayload.getD "\x7b\x7d")

end JobRequest

/-- A request whose row was inserted. -/
structure OpenRequest where
  jobId : ℕ
  request : JobRequest
  /-- The second update is still to come. -/
  pending : Bool
  deriving DecidableEq

/-- The tables, and the requests not yet done. -/
structure RequestState where
  tables : JobTables
  requests : List OpenRequest

/-- Requests, dispatches and what the worker writes. -/
inductive RequestAction where
  | queueAnalysis (now : ℕ) (request : JobRequest)
  | scheduleAutoRetry (now reportId : ℕ) (sourceUrl : Option String) (payload : String)
      (notBefore : ℕ)
  /-- The second update of a requester. -/
  | storeDispatch (now jobId : ℕ)
  | dispatch (now limit occupied : ℕ) (locked : List ℕ)
  | failDispatch (now limit occupied enqueued : ℕ) (locked : List ℕ)
  | claim (now bullId : ℕ) (token : OwnerToken)
  /-- `updateJob` by the worker that runs the job; it never queues it. -/
  | workerUpdate (now jobId : ℕ) (patch : JobPatch)
  | cancelUnclaimed (reportId : ℕ)

/-- The patch of the second update. -/
def OpenRequest.patch (r : OpenRequest) : JobPatch := ⟨some .queued, some r.request.dispatch, none⟩

/-- The request has stored what its requester supplied. -/
def OpenRequest.stored (jobId : ℕ) (r : OpenRequest) : OpenRequest :=
  if r.jobId = jobId then { r with pending := false } else r

/-- A request inserted its row. -/
def RequestState.opened (s : RequestState) (tables : JobTables) (request : JobRequest) :
    RequestState where
  tables := tables
  requests := s.requests ++ [⟨s.tables.nextJobId, request, request.dispatch.isSome⟩]

/-- One step; `none` when the action is not possible. -/
def requestStep (s : RequestState) : RequestAction → Option RequestState
  | .queueAnalysis now request => some (s.opened (createJob now request.newJob s.tables) request)
  | .scheduleAutoRetry now reportId sourceUrl payload notBefore =>
    let request := JobRequest.autoRetry reportId sourceUrl payload notBefore
    let T := createExclusivePipelineJob now request.newJob s.tables
    if T.nextJobId = s.tables.nextJobId then some s else some (s.opened T request)
  | .storeDispatch now jobId =>
    match s.requests.find? fun r => r.jobId = jobId && r.pending with
    | some r => some
        { tables := s.tables.updateRow jobId (JobRow.patched now r.patch)
          requests := s.requests.map (OpenRequest.stored jobId) }
    | none => none
  | .dispatch now limit occupied locked =>
    some { s with tables := s.tables.dispatch now limit occupied locked }
  | .failDispatch now limit occupied enqueued locked =>
    some { s with tables := s.tables.failedDispatch now limit occupied enqueued locked }
  | .claim now bullId token =>
    match s.tables.entries.find? fun e => e.id = bullId with
    | some e =>
      some { s with tables := s.tables.updateRow e.data.jobId (JobRow.claimedIf now token bullId) }
    | none => none
  | .workerUpdate now jobId patch =>
    if patch.status ≠ some .queued ∧ ∀ j ∈ s.tables.jobs, j.id = jobId → j.status = .running then
      some { s with tables := s.tables.updateRow jobId (JobRow.patched now patch) }
    else none
  | .cancelUnclaimed reportId =>
    some { s with tables := { s.tables with
      jobs := s.tables.jobs.map (Rows.updateWhere (fun j => j.reportId = reportId) JobRow.cancelled) } }

/-- Nothing was requested yet. -/
def RequestState.initial (reports : List ReportRow) : RequestState where
  tables := (SlotState.initial reports).tables
  requests := []

/-- Every payload is complete, and no second update is about to hit a running job. -/
def DispatchedWhole (s : RequestState) : Prop :=
  (∀ e ∈ s.tables.entries, ∀ r ∈ s.requests, r.jobId = e.data.jobId →
    r.request.Carries r.jobId e.data) ∧
  ∀ r ∈ s.requests, r.pending = true → ∀ j ∈ s.tables.jobs, j.id = r.jobId → j.status ≠ .running

/-- No dispatch pass enqueues a job whose requester has the second update still to make. -/
def StoredFirst (s : RequestState) : RequestAction → Prop
  | .dispatch now limit occupied locked =>
    ∀ c ∈ s.tables.chosen now (limit - occupied) locked, ∀ r ∈ s.requests, r.jobId = c.id →
      r.pending = false
  | .failDispatch now limit occupied enqueued locked =>
    ∀ c ∈ (s.tables.chosen now (limit - occupied) locked).take enqueued, ∀ r ∈ s.requests,
      r.jobId = c.id → r.pending = false
  | _ => True

instance (s : RequestState) (a : RequestAction) : Decidable (StoredFirst s a) := by
  cases a <;> unfold StoredFirst <;> infer_instance

/-- The row holds what its requester supplied. -/
structure Holds (r : OpenRequest) (j : JobRow) : Prop where
  reportId : j.reportId = r.request.reportId
  jobType : j.jobType = r.request.jobType
  jobPayload : j.jobPayload = r.request.newJob.jobPayload.getD "\x7b\x7d"
  /-- Workers change `progress` only of a job that was assigned. -/
  dispatch : r.pending = false → j.bullmqJobId = none → j.dispatch = r.request.dispatch
  unassigned : r.pending = true → j.bullmqJobId = none

/-- The invariant. -/
structure RequestInv (s : RequestState) : Prop where
  jobs : ∀ j ∈ s.tables.jobs, j.id < s.tables.nextJobId
  requests : ∀ r ∈ s.requests, r.jobId < s.tables.nextJobId
  unique : ∀ q ∈ s.requests, ∀ r ∈ s.requests, q.jobId = r.jobId → q = r
  running : ∀ j ∈ s.tables.jobs, j.status = .running → j.bullmqJobId.isSome = true
  holds : ∀ r ∈ s.requests, ∀ j ∈ s.tables.jobs, j.id = r.jobId → Holds r j
  entries : ∀ e ∈ s.tables.entries, e.data.jobId < s.tables.nextJobId ∧
    ∀ r ∈ s.requests, r.jobId = e.data.jobId → r.pending = false ∧ r.request.Carries r.jobId e.data

variable {now : ℕ} {T : JobTables} {s s' : RequestState} {j : JobRow} {r : OpenRequest}

/-- The payload of a row that holds what its requester supplied. -/
theorem Holds.carries {sourceUrl : Option String} (h : Holds r j) (hid : j.id = r.jobId)
    (hpending : r.pending = false) (hbull : j.bullmqJobId = none) :
    r.request.Carries r.jobId (payloadOf sourceUrl j) := by
  have hdispatch := h.dispatch hpending hbull
  have hmode : ((j.dispatch.getD emptyDispatch).jobType.getD j.jobType) = r.request.mode := by
    rw [hdispatch, h.jobType, JobRequest.mode]
    cases r.request.dispatch <;> rfl
  have hflag : (j.dispatch.getD emptyDispatch).resumeAnalysis =
      r.request.dispatch.any Dispatch.resumeAnalysis := by
    rw [hdispatch]
    cases r.request.dispatch <;> rfl
  refine ⟨hid, h.reportId, hmode, ?_, ?_, ?_, ?_⟩
  · simp only [payloadOf, dispatchExtraFromJob]
    rw [hmode, hflag, JobRequest.resumes]
  · simp only [payloadOf, dispatchExtraFromJob]
    rw [hdispatch]
    cases r.request.dispatch <;> rfl
  · simp only [payloadOf, dispatchExtraFromJob]
    rw [hdispatch]
    cases r.request.dispatch <;> rfl
  · simp only [payloadOf, dispatchExtraFromJob]
    rw [h.jobPayload]

namespace RequestInv

theorem dispatchedWhole (hinv : RequestInv s) : DispatchedWhole s := by
  refine ⟨fun e he r hr hid => ((hinv.entries e he).2 r hr hid).2, ?_⟩
  intro r hr hpending j hj hid hrunning
  have hbull := hinv.running j hj hrunning
  rw [(hinv.holds r hr j hj hid).unassigned hpending] at hbull
  cases hbull

/-- A new request does not meet the rows and entries of the others. -/
theorem opened {request : JobRequest} (hinv : RequestInv s) :
    RequestInv (s.opened (createJob now request.newJob s.tables) request) := by
  have hmem : ∀ j ∈ (createJob now request.newJob s.tables).jobs, j ∈ s.tables.jobs ∨
      j = request.newJob.row now s.tables.nextJobId := by
    intro j hj
    rcases mem_append.mp hj with hj | hj
    · exact Or.inl hj
    · exact Or.inr (mem_singleton.mp hj)
  have hrequest : ∀ r ∈ (s.opened (createJob now request.newJob s.tables) request).requests,
      r ∈ s.requests ∨ r = ⟨s.tables.nextJobId, request, request.dispatch.isSome⟩ := by
    intro r hr
    rcases mem_append.mp hr with hr | hr
    · exact Or.inl hr
    · exact Or.inr (mem_singleton.mp hr)
  refine ⟨?_, ?_, ?_, ?_, ?_, ?_⟩
  · intro j hj
    rcases hmem j hj with hj | rfl
    · exact Nat.lt_succ_of_lt (hinv.jobs j hj)
    · exact Nat.lt_succ_self _
  · intro r hr
    rcases hrequest r hr with hr | rfl
    · exact Nat.lt_succ_of_lt (hinv.requests r hr)
    · exact Nat.lt_succ_self _
  · intro q hq r hr hid
    rcases hrequest q hq with hq | rfl
    · rcases hrequest r hr with hr | rfl
      · exact hinv.unique q hq r hr hid
      · exact absurd hid (Nat.ne_of_lt (hinv.requests q hq))
    · rcases hrequest r hr with hr | rfl
      · exact absurd hid.symm (Nat.ne_of_lt (hinv.requests r hr))
      · rfl
  · intro j hj hrunning
    rcases hmem j hj with hj | rfl
    · exact hinv.running j hj hrunning
    · cases hrunning
  · intro r hr j hj hid
    rcases hrequest r hr with hr | rfl
    · rcases hmem j hj with hj | rfl
      · exact hinv.holds r hr j hj hid
      · exact absurd hid.symm (Nat.ne_of_lt (hinv.requests r hr))
    · rcases hmem j hj with hj | rfl
      · exact absurd hid (Nat.ne_of_lt (hinv.jobs j hj))
      · refine ⟨rfl, rfl, rfl, ?_, fun _ => rfl⟩
        intro hpending _
        exact (Option.isNone_iff_eq_none.mp (by simpa using hpending)).symm
  · intro e he
    obtain ⟨hlt, hcarries⟩ := hinv.entries e he
    refine ⟨Nat.lt_succ_of_lt hlt, ?_⟩
    intro r hr hid
    rcases hrequest r hr with hr | rfl
    · exact hcarries r hr hid
    · exact absurd hid.symm (Nat.ne_of_lt hlt)

/-- An update of rows that keeps what the requests stored. -/
theorem updateRows {p : JobRow → Bool} {g : JobRow → JobRow} (hinv : RequestInv s)
    (hid : ∀ j, (g j).id = j.id)
    (hrunning : ∀ j ∈ s.tables.jobs, p j = true → (g j).status = .running →
      (g j).bullmqJobId.isSome = true)
    (hholds : ∀ r ∈ s.requests, ∀ j ∈ s.tables.jobs, p j = true → j.id = r.jobId → Holds r j →
      Holds r (g j)) :
    RequestInv { s with tables :=
      { s.tables with jobs := s.tables.jobs.map (Rows.updateWhere p g) } } := by
  refine { hinv with jobs := ?_, running := ?_, holds := ?_ }
  · intro j hj
    obtain ⟨i, hi, rfl⟩ := mem_map.mp hj
    rw [Rows.updateWhere_keeps hid]
    exact hinv.jobs i hi
  · intro j hj hstatus
    rcases Rows.mem_map_updateWhere.mp hj with ⟨i, hi, hp, rfl⟩ | ⟨hj, -⟩
    · exact hrunning i hi hp hstatus
    · exact hinv.running j hj hstatus
  · intro r hr j hj hjid
    rcases Rows.mem_map_updateWhere.mp hj with ⟨i, hi, hp, rfl⟩ | ⟨hj, -⟩
    · rw [hid] at hjid
      exact hholds r hr i hi hp hjid (hinv.holds r hr i hi hjid)
    · exact hinv.holds r hr j hj hjid

end RequestInv

/-- A row after a dispatch is one from before, or was queued and got a slot. -/
def SlottedFrom (js jobs : List JobRow) (j : JobRow) : Prop :=
  j ∈ jobs ∨ ∃ i ∈ jobs, ∃ c ∈ js, c.id = i.id ∧ i.status = .queued ∧ ∃ b, j = { i with bullmqJobId := some b }

variable {js : List JobRow}

theorem mem_jobs_foldl_claimJob (h : j ∈ (js.foldl JobTables.claimJob T).jobs) :
    SlottedFrom js T.jobs j := by
  induction js generalizing T with
  | nil => exact Or.inl h
  | cons c js ih =>
    have hclaim : ∀ i ∈ (T.claimJob c).jobs, i ∈ T.jobs ∨ ∃ k ∈ T.jobs, c.id = k.id ∧
        k.status = .queued ∧ ∃ b, i = { k with bullmqJobId := some b } := by
      intro i hi
      rcases mem_assignSlot hi with hi | ⟨k, hk, hid, hstatus, rfl⟩
      · exact Or.inl hi
      · exact Or.inr ⟨k, hk, hid.symm, hstatus, _, rfl⟩
    rcases ih (T := T.claimJob c) h with hj | ⟨i, hi, d, hd, hid, hstatus, b, rfl⟩
    · rcases hclaim j hj with hj | ⟨k, hk, hid, hstatus, b, rfl⟩
      · exact Or.inl hj
      · exact Or.inr ⟨k, hk, c, mem_cons_self, hid, hstatus, b, rfl⟩
    · have hd := mem_cons_of_mem c hd
      rcases hclaim i hi with hi | ⟨k, hk, -, -, b', rfl⟩
      · exact Or.inr ⟨i, hi, d, hd, hid, hstatus, b, rfl⟩
      · exact Or.inr ⟨k, hk, d, hd, hid, hstatus, b, rfl⟩

/-- The entries that come from a list of jobs. -/
def EnteredFrom (js : List JobRow) (entries : List BullEntry) (e : BullEntry) : Prop :=
  e ∈ entries ∨ ∃ c ∈ js, ∃ sourceUrl, e.data = payloadOf sourceUrl c

theorem mem_entries_foldl {f : JobTables → JobRow → JobTables} {e : BullEntry}
    (hf : ∀ T c, (f T c).entries = (T.enqueue c).entries) (h : e ∈ (js.foldl f T).entries) :
    EnteredFrom js T.entries e := by
  induction js generalizing T with
  | nil => exact Or.inl h
  | cons c js ih =>
    rcases ih (T := f T c) h with he | ⟨d, hd, sourceUrl, hdata⟩
    · rw [hf] at he
      rcases mem_append.mp he with he | he
      · exact Or.inl he
      · rw [mem_singleton.mp he]
        exact Or.inr ⟨c, mem_cons_self, _, rfl⟩
    · exact Or.inr ⟨d, mem_cons_of_mem _ hd, sourceUrl, hdata⟩

theorem nextJobId_foldl_claimJob (js : List JobRow) :
    (js.foldl JobTables.claimJob T).nextJobId = T.nextJobId := by
  induction js generalizing T with
  | nil => rfl
  | cons c js ih => exact ih (T := T.claimJob c)

namespace RequestInv

variable {locked : List ℕ}

section

variable (hinv : RequestInv s)
include hinv

/-- The entries of jobs that were stored first are complete. -/
theorem entries_of_chosen {available : ℕ} {e : BullEntry}
    (hjs : ∀ c ∈ js, c ∈ s.tables.chosen now available locked)
    (hstored : ∀ c ∈ js, ∀ r ∈ s.requests, r.jobId = c.id → r.pending = false)
    (he : EnteredFrom js s.tables.entries e) :
    e.data.jobId < s.tables.nextJobId ∧ ∀ r ∈ s.requests, r.jobId = e.data.jobId →
      r.pending = false ∧ r.request.Carries r.jobId e.data := by
  rcases he with he | ⟨c, hc, sourceUrl, hdata⟩
  · exact hinv.entries e he
  · obtain ⟨hmem, hok⟩ := mem_chosen (hjs c hc)
    have hbull : c.bullmqJobId = none := by
      unfold JobTables.dispatchable at hok
      simp only [Bool.and_eq_true] at hok
      simpa using hok.1.1.1.2
    rw [hdata]
    refine ⟨hinv.jobs c hmem, ?_⟩
    intro r hr hid
    have hpending := hstored c hc r hr hid
    exact ⟨hpending, (hinv.holds r hr c hmem hid.symm).carries hid.symm hpending hbull⟩

theorem dispatch {limit occupied : ℕ}
    (hstored : StoredFirst s (.dispatch now limit occupied locked)) :
    RequestInv { s with tables := s.tables.dispatch now limit occupied locked } := by
  unfold JobTables.dispatch
  have hnext := nextJobId_foldl_claimJob (T := s.tables)
    (s.tables.chosen now (limit - occupied) locked)
  refine ⟨?_, ?_, hinv.unique, ?_, ?_, ?_⟩
  · intro j hj
    rw [hnext]
    rcases mem_jobs_foldl_claimJob hj with hj | ⟨i, hi, -, -, -, -, b, rfl⟩
    · exact hinv.jobs j hj
    · exact hinv.jobs i hi
  · intro r hr
    rw [hnext]
    exact hinv.requests r hr
  · intro j hj hrunning
    rcases mem_jobs_foldl_claimJob hj with hj | ⟨i, -, -, -, -, -, b, rfl⟩
    · exact hinv.running j hj hrunning
    · rfl
  · intro r hr j hj hid
    rcases mem_jobs_foldl_claimJob hj with hj | ⟨i, hi, c, hc, hcid, -, b, rfl⟩
    · exact hinv.holds r hr j hj hid
    · have hold := hinv.holds r hr i hi hid
      have hpending := hstored c hc r hr (hid.symm.trans hcid.symm)
      refine { hold with dispatch := ?_, unassigned := ?_ }
      · nofun
      · intro hpending'
        rw [hpending] at hpending'
        cases hpending'
  · intro e he
    rw [hnext]
    exact hinv.entries_of_chosen (fun c hc => hc) hstored
      (mem_entries_foldl (f := JobTables.claimJob) (fun _ _ => rfl) he)

theorem failedDispatch {limit occupied enqueued : ℕ}
    (hstored : StoredFirst s (.failDispatch now limit occupied enqueued locked)) :
    RequestInv { s with tables := s.tables.failedDispatch now limit occupied enqueued locked } := by
  unfold JobTables.failedDispatch
  obtain ⟨hjobs, hnext⟩ := foldl_enqueue_jobs (T := s.tables)
    ((s.tables.chosen now (limit - occupied) locked).take enqueued)
  refine ⟨?_, ?_, hinv.unique, ?_, ?_, ?_⟩
  · rw [hjobs, hnext]
    exact hinv.jobs
  · rw [hnext]
    exact hinv.requests
  · rw [hjobs]
    exact hinv.running
  · rw [hjobs]
    exact hinv.holds
  · intro e he
    rw [hnext]
    exact hinv.entries_of_chosen (fun c hc => mem_of_mem_take hc) hstored
      (mem_entries_foldl (fun _ _ => rfl) he)

/-- The second update completes the row of its own request. -/
theorem storeDispatch (hr : r ∈ s.requests) :
    RequestInv
      { tables := s.tables.updateRow r.jobId (JobRow.patched now r.patch)
        requests := s.requests.map (OpenRequest.stored r.jobId) } := by
  have hsame : ∀ q : OpenRequest, (q.stored r.jobId).jobId = q.jobId ∧
      (q.stored r.jobId).request = q.request := by
    intro q
    unfold OpenRequest.stored
    split
    · exact ⟨rfl, rfl⟩
    · exact ⟨rfl, rfl⟩
  refine ⟨?_, ?_, ?_, ?_, ?_, ?_⟩
  · intro j hj
    obtain ⟨i, hi, rfl⟩ := mem_map.mp hj
    rw [Rows.updateWhere_keeps (c := JobRow.id) (g := JobRow.patched now r.patch) fun _ => rfl]
    exact hinv.jobs i hi
  · intro q' hq'
    obtain ⟨q, hq, rfl⟩ := mem_map.mp hq'
    rw [(hsame q).1]
    exact hinv.requests q hq
  · intro p' hp' q' hq' hid
    obtain ⟨p, hp, rfl⟩ := mem_map.mp hp'
    obtain ⟨q, hq, rfl⟩ := mem_map.mp hq'
    rw [(hsame p).1, (hsame q).1] at hid
    rw [hinv.unique p hp q hq hid]
  · intro j hj hrunning
    rcases Rows.mem_map_updateWhere.mp hj with ⟨i, hi, -, rfl⟩ | ⟨hj, -⟩
    · cases hrunning
    · exact hinv.running j hj hrunning
  · intro q' hq' j hj hid
    obtain ⟨q, hq, rfl⟩ := mem_map.mp hq'
    rw [(hsame q).1] at hid
    rcases Rows.mem_map_updateWhere.mp hj with ⟨i, hi, hown, rfl⟩ | ⟨hj, hother⟩
    · have hown : i.id = r.jobId := by simpa using hown
      obtain rfl := hinv.unique q hq r hr (hid.symm.trans hown)
      have hold := hinv.holds q hq i hi hid
      have hpending : (q.stored q.jobId).pending = false := by simp [OpenRequest.stored]
      refine ⟨?_, ?_, ?_, ?_, ?_⟩
      · rw [(hsame q).2]
        exact hold.reportId
      · rw [(hsame q).2]
        exact hold.jobType
      · rw [(hsame q).2]
        exact hold.jobPayload
      · intro _ _
        rw [(hsame q).2]
        rfl
      · intro h
        rw [hpending] at h
        cases h
    · have hne : q.jobId ≠ r.jobId := by
        intro h
        simp [hid, h] at hother
      have hkeep : q.stored r.jobId = q := if_neg hne
      rw [hkeep]
      exact hinv.holds q hq j hj hid
  · intro e he
    obtain ⟨hlt, hcarries⟩ := hinv.entries e he
    refine ⟨hlt, ?_⟩
    intro q' hq' hid
    obtain ⟨q, hq, rfl⟩ := mem_map.mp hq'
    rw [(hsame q).1] at hid
    obtain ⟨hpending, hcarried⟩ := hcarries q hq hid
    constructor
    · unfold OpenRequest.stored
      split
      · rfl
      · exact hpending
    · rw [(hsame q).1, (hsame q).2]
      exact hcarried

theorem step {a : RequestAction} (hstored : StoredFirst s a) (hstep : requestStep s a = some s') :
    RequestInv s' := by
  unfold requestStep at hstep
  cases a with
  | queueAnalysis now request =>
    cases hstep
    exact hinv.opened
  | scheduleAutoRetry now reportId sourceUrl payload notBefore =>
    dsimp only at hstep
    split at hstep
    · cases hstep
      exact hinv
    · next hcreated =>
      cases hstep
      unfold createExclusivePipelineJob at hcreated ⊢
      split at hcreated
      · exact absurd rfl hcreated
      · next hnone =>
        rw [if_neg hnone]
        exact hinv.opened
  | storeDispatch now jobId =>
    dsimp only at hstep
    split at hstep
    · next r hfind =>
      cases hstep
      have hr := mem_of_find?_eq_some hfind
      have hid : r.jobId = jobId := by
        have h := find?_some hfind
        simp only [Bool.and_eq_true, decide_eq_true_eq] at h
        exact h.1
      subst hid
      exact hinv.storeDispatch hr
    · cases hstep
  | dispatch now limit occupied locked =>
    cases hstep
    exact hinv.dispatch hstored
  | failDispatch now limit occupied enqueued locked =>
    cases hstep
    exact hinv.failedDispatch hstored
  | claim now bullId token =>
    dsimp only at hstep
    split at hstep
    · next e he =>
      cases hstep
      have hentry := (hinv.entries e (mem_of_find?_eq_some he)).2
      refine hinv.updateRows ?_ ?_ ?_
      · intro j
        unfold JobRow.claimedIf
        split <;> rfl
      · intro j hj _ hrunning
        unfold JobRow.claimedIf at hrunning ⊢
        split
        · rfl
        · next hnot =>
          rw [if_neg hnot] at hrunning
          exact hinv.running j hj hrunning
      · intro r hr j hj hown hid hold
        have hown : j.id = e.data.jobId := by simpa using hown
        have hpending := (hentry r hr (hid.symm.trans hown)).1
        unfold JobRow.claimedIf
        split
        · refine ⟨hold.reportId, hold.jobType, hold.jobPayload, ?_, ?_⟩
          · nofun
          · intro h
            rw [hpending] at h
            cases h
        · exact hold
    · cases hstep
  | workerUpdate now jobId patch =>
    obtain ⟨hrun, rfl⟩ := Run.enabled hstep
    have hassigned : ∀ j ∈ s.tables.jobs, j.id = jobId →
        (j.patched now patch).bullmqJobId.isSome = true := by
      intro j hj hown
      have hbull := hinv.running j hj (hrun.2 j hj hown)
      unfold JobRow.patched
      cases patch.bullmqJobId with
      | none => simpa using hbull
      | some bullId => rfl
    refine hinv.updateRows (fun _ => rfl) ?_ ?_
    · intro j hj hown _
      exact hassigned j hj (by simpa using hown)
    · intro r hr j hj hown hid hold
      have hown : j.id = jobId := by simpa using hown
      have hbull := hassigned j hj hown
      refine ⟨hold.reportId, hold.jobType, hold.jobPayload, ?_, ?_⟩
      · intro _ hnone
        rw [hnone] at hbull
        cases hbull
      · intro hpending
        have hnone := hold.unassigned hpending
        have hsome := hinv.running j hj (hrun.2 j hj hown)
        rw [hnone] at hsome
        cases hsome
  | cancelUnclaimed reportId =>
    cases hstep
    refine hinv.updateRows ?_ ?_ ?_
    · intro j
      unfold JobRow.cancelled
      split <;> rfl
    · intro j hj _ hrunning
      unfold JobRow.cancelled at hrunning ⊢
      split
      · next hqueued =>
        rw [if_pos hqueued] at hrunning
        cases hrunning
      · next hnot =>
        rw [if_neg hnot] at hrunning
        exact hinv.running j hj hrunning
    · intro r hr j hj _ _ hold
      unfold JobRow.cancelled
      split
      · exact { hold with }
      · exact hold

end

theorem initial (reports : List ReportRow) : RequestInv (.initial reports) := by
  refine ⟨?_, ?_, ?_, ?_, ?_, ?_⟩ <;> simp [RequestState.initial, SlotState.initial]

end RequestInv

/-- While no dispatch pass comes between the two writes of a requester, every payload carries
what was supplied, and no second write hits a running job. -/
theorem payloads_complete (reports : List ReportRow) {actions : List RequestAction}
    (hrun : Run requestStep StoredFirst (.initial reports) actions s) : DispatchedWhole s :=
  (Run.invariant (fun _ _ _ hinv hstored hstep => RequestInv.step hinv hstored hstep) hrun
    (RequestInv.initial reports)).dispatchedWhole

/-- A refresh that accepts the loss of indicators. -/
def acceptedRefresh : JobRequest where
  reportId := 1
  jobType := .refreshExtraction
  dispatch := some
    { jobType := some .refreshExtraction
      sourceUrl := none
      resumeAnalysis := false
      newAnalysisRun := false
      restoreStatus := some "review_required"
      membershipPolicy := some "accept"
      jobPayload := none }
  jobPayload := none
  notBefore := none

/-- The refresh is stored, dispatched and claimed. -/
def storedRefresh : List RequestAction :=
  [.queueAnalysis 1 acceptedRefresh, .storeDispatch 2 1, .dispatch 3 2 0 [], .claim 4 1 1]

theorem payloads_complete_refresh :
    ∃ s, Run requestStep StoredFirst (.initial twoReports) storedRefresh s ∧
      s.tables.jobs.map JobRow.status = [.running] ∧ DispatchedWhole s := by
  have hexec : (Run.exec requestStep StoredFirst (.initial twoReports) storedRefresh).map
      (fun s => s.tables.jobs.map JobRow.status) = some [.running] := by decide
  obtain ⟨s, hs, hstatus⟩ := Option.map_eq_some_iff.mp hexec
  have hrun := Run.of_exec hs
  exact ⟨s, hrun, hstatus, payloads_complete twoReports hrun⟩

/-- A pass that another request started dispatches the refresh, and a worker claims it, before
the requester stores the acceptance. -/
def overtakenRefresh : List RequestAction :=
  [.queueAnalysis 1 acceptedRefresh, .dispatch 2 2 0 [], .claim 3 1 1]

/-- The payload lacks the acceptance, and the second write hits a running job. -/
theorem payloads_incomplete :
    ¬ ∀ (actions : List RequestAction) (s : RequestState),
      Run requestStep (fun _ _ => True) (.initial twoReports) actions s → DispatchedWhole s := by
  intro h
  have hexec : (Run.exec requestStep (fun _ _ => True) (.initial twoReports)
      overtakenRefresh).map (fun s => (s.tables.entries.map (fun e => (e.data.jobId,
        e.data.membershipPolicy)), s.requests)) =
      some ([(1, none)], [⟨1, acceptedRefresh, true⟩]) := by decide
  obtain ⟨s, hs, hstate⟩ := Option.map_eq_some_iff.mp hexec
  obtain ⟨hentries, hrequests⟩ := Prod.mk.inj hstate
  obtain ⟨e, he, hdata⟩ := mem_map.mp (hentries ▸ mem_singleton_self _)
  obtain ⟨hjob, hpolicy⟩ := Prod.mk.inj hdata
  have hwhole := (h _ s (Run.of_exec hs)).1 e he ⟨1, acceptedRefresh, true⟩
    (hrequests ▸ mem_singleton_self _) hjob.symm
  have hcarried := hwhole.membershipPolicy
  rw [hpolicy] at hcarried
  cases hcarried

end TalonHound.ThreatJobs
