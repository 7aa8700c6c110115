import TalonHound.Library.Rows
import TalonHound.Library.Run
import Mathlib.Data.Int.Notation

/-!
# Handing on an interrupted recovery

`enqueueMalwareBazaarHistoricalRecovery` and the requeue at the end of `worker.js`, over a queue of
jobs with unique ids. The requeue asks for the id under which its own job is still active, so it
never adds a job.
-/

namespace TalonHound.MalwareBazaar

open Rows List

/-- The state of a queued job; a delayed retry is waiting. -/
inductive JobState where
  | waiting | active | completed | failed
  deriving DecidableEq

/-- The `from` and the `to` of a recovery job. -/
structure JobRange where
  (start stop : Option ℤ)
  deriving DecidableEq

/-- A job in the queue. -/
structure QueueJob where
  (id name : String)
  range : JobRange
  state : JobState

/-- `MALWAREBAZAAR_RECOVERY_JOB_ID`. -/
def recoveryJobId : String := "malwarebazaar-historical-recovery"

/-- `MALWAREBAZAAR_RECOVERY_JOB_NAME`. -/
def recoveryJobName : String := "malwarebazaar-historical-recovery"

/-- The queue. -/
abbrev Queue := List QueueJob

namespace Queue

/-- `getState`; `none` for an id that is not in the queue. -/
def getState (q : Queue) (id : String) : Option JobState :=
  (Rows.lookup QueueJob.id q id).map QueueJob.state

/-- `add`; an id that is in the queue is not added again. -/
def add (q : Queue) (job : QueueJob) : Queue :=
  if job.id ∈ q.map QueueJob.id then q else q ++ [job]

/-- `remove`; it throws for an active job, which a worker has locked. -/
def remove (q : Queue) (id : String) : Option Queue :=
  if q.getState id = some .active then none else some (q.filter fun job => job.id ≠ id)

/-- The queue moves a job to a state. -/
def setState (q : Queue) (id : String) (state : JobState) : Queue :=
  q.map (Rows.updateWhere (fun job => job.id = id) fun job => { job with state := state })

end Queue

/-- Where a call of `enqueueMalwareBazaarHistoricalRecovery` is. -/
inductive EnqueuePhase where
  | getJob | getState | remove | add
  | done (enqueued : Bool)
  deriving DecidableEq

/-- A call of `enqueueMalwareBazaarHistoricalRecovery`. -/
structure EnqueueCall where
  range : JobRange
  phase : EnqueuePhase
  deriving DecidableEq

/-- The job that a call adds. -/
def EnqueueCall.job (call : EnqueueCall) : QueueJob :=
  ⟨recoveryJobId, recoveryJobName, call.range, .waiting⟩

/-- After `getState`: a terminal job is removed, any other one coalesces. -/
def afterState : Option JobState → EnqueuePhase
  | some .completed => .remove
  | some .failed => .remove
  | _ => .done false

/-- The next await of a call; one that fails before `add` goes on to `add`. -/
def EnqueueCall.advance (q : Queue) (call : EnqueueCall) (fails : Bool) : Queue × EnqueueCall :=
  match call.phase with
  | .getJob =>
    (q, { call with phase := if fails ∨ q.getState recoveryJobId = none then .add else .getState })
  | .getState =>
    (q, { call with phase := if fails then .add else afterState (q.getState recoveryJobId) })
  | .remove =>
    (if fails then q else (q.remove recoveryJobId).getD q, { call with phase := .add })
  | .add =>
    if fails then (q, { call with phase := .done false })
    else (q.add call.job, { call with phase := .done true })
  | .done _ => (q, call)

/-- Where the worker function is for a job. -/
inductive RunStage where
  | importing
  | requeueing (call : EnqueueCall)
  /-- The function returned; the flag says that the run asked for a requeue. -/
  | returned (asked : Bool)
  deriving DecidableEq

/-- A worker function with its job. -/
structure WorkerRun where
  (jobId name : String)
  range : JobRange
  stage : RunStage

/-- How the import of a job ends. -/
inductive ImportOutcome where
  | complete
  /-- `incomplete` with `shouldRequeue`. -/
  | incomplete
  | throws (retry : Bool)

/-- A recovery job that left the active state after its run asked for a requeue. -/
structure Departure where
  range : JobRange
  /-- A recovery job for the same range is waiting then. -/
  handedOn : Bool

/-- The queue, the workers and the calls of the gap detection. -/
structure QueueState where
  queue : Queue
  runs : List WorkerRun
  calls : List EnqueueCall
  departures : List Departure

/-- What happens. -/
inductive QueueAction where
  /-- Another job is added. -/
  | addOther (job : QueueJob)
  /-- An import found a gap. -/
  | detectGap
  | advanceCall (i : ℕ) (fails : Bool)
  | pick (id : String)
  | importEnds (id : String) (outcome : ImportOutcome)
  | advanceRun (id : String) (fails : Bool)
  | leave (id : String)
  /-- `removeOnComplete` and `removeOnFail`. -/
  | retire (id : String)

/-- An empty queue. -/
def QueueState.empty : QueueState := ⟨[], [], [], []⟩

/-- The worker function of a job. -/
def QueueState.run? (s : QueueState) (id : String) : Option WorkerRun :=
  Rows.lookup WorkerRun.jobId s.runs id

/-- The worker function of a job moves on. -/
def QueueState.setStage (s : QueueState) (id : String) (stage : RunStage) : QueueState :=
  { s with runs := s.runs.map (Rows.updateWhere (fun run => run.jobId = id)
      fun run => { run with stage := stage }) }

/-- The job of a worker function leaves the active state. -/
def QueueState.endRun (s : QueueState) (id : String) (state : JobState) : QueueState :=
  { s with
    queue := s.queue.setState id state
    runs := s.runs.filter fun run => run.jobId ≠ id }

/-- A recovery job for the range is waiting. -/
def Queue.hasWaiting (q : Queue) (range : JobRange) : Bool :=
  q.any fun job => job.name = recoveryJobName && job.range = range && job.state = .waiting

/-- The import of a job ends. -/
def QueueState.importEnds (s : QueueState) (run : WorkerRun) : ImportOutcome → QueueState
  | .complete => s.setStage run.jobId (.returned false)
  | .incomplete =>
    s.setStage run.jobId
      (if run.name = recoveryJobName then .requeueing ⟨run.range, .getJob⟩ else .returned false)
  | .throws retry => s.endRun run.jobId (if retry then .waiting else .failed)

/-- The worker awaits the next step of its enqueue call. -/
def QueueState.advanceRun (s : QueueState) (run : WorkerRun) (call : EnqueueCall)
    (fails : Bool) : QueueState :=
  let result := call.advance s.queue fails
  { s with queue := result.1 }.setStage run.jobId
    (match result.2.phase with
      | .done _ => .returned true
      | _ => .requeueing result.2)

/-- The job of a function that returned is completed. -/
def QueueState.leave (s : QueueState) (run : WorkerRun) (asked : Bool) : QueueState :=
  let ended := s.endRun run.jobId .completed
  if asked then
    { ended with
      departures := s.departures ++ [⟨run.range, ended.queue.hasWaiting run.range⟩] }
  else ended

/-- One step. -/
def queueStep (s : QueueState) : QueueAction → Option QueueState
  | .addOther job =>
    if job.name ≠ recoveryJobName ∧ job.id ≠ recoveryJobId then
      some { s with queue := s.queue.add { job with state := .waiting } }
    else none
  | .detectGap => some { s with calls := s.calls ++ [⟨⟨none, none⟩, .getJob⟩] }
  | .advanceCall i fails =>
    (s.calls[i]?).map fun call => { s with
      queue := (call.advance s.queue fails).1
      calls := s.calls.set i (call.advance s.queue fails).2 }
  | .pick id =>
    match Rows.lookup QueueJob.id s.queue id with
    | some job =>
      if job.state = .waiting then
        some { s with
          queue := s.queue.setState id .active
          runs := s.runs ++ [⟨id, job.name, job.range, .importing⟩] }
      else none
    | none => none
  | .importEnds id outcome =>
    match s.run? id with
    | some run => if run.stage = .importing then some (s.importEnds run outcome) else none
    | none => none
  | .advanceRun id fails =>
    match s.run? id with
    | some run =>
      match run.stage with
      | .requeueing call => some (s.advanceRun run call fails)
      | _ => none
    | none => none
  | .leave id =>
    match s.run? id with
    | some run =>
      match run.stage with
      | .returned asked => some (s.leave run asked)
      | _ => none
    | none => none
  | .retire id =>
    if s.queue.getState id = some .completed ∨ s.queue.getState id = some .failed then
      some { s with queue := s.queue.filter fun job => job.id ≠ id }
    else none

variable {q : Queue} {s s' : QueueState} {run : WorkerRun} {call : EnqueueCall} {job : QueueJob}
  {id : String} {state : JobState} {fails : Bool} {a : QueueAction}

/-- The ids are unique, and recovery jobs have one fixed id. -/
structure Queue.Inv (q : Queue) : Prop where
  ids : (q.map QueueJob.id).Nodup
  recovery : ∀ job ∈ q, job.name = recoveryJobName → job.id = recoveryJobId

/-- A worker function has an active job. -/
def Queue.Holds (q : Queue) (run : WorkerRun) : Prop :=
  ∃ job ∈ q, job.id = run.jobId ∧ job.name = run.name ∧ job.state = .active

theorem Queue.Holds.getState (hq : q.Inv) (h : q.Holds run) :
    q.getState run.jobId = some .active := by
  obtain ⟨job, hjob, hid, -, hactive⟩ := h
  unfold Queue.getState
  rw [(lookup_eq_some hq.ids).mpr ⟨hjob, hid⟩]
  exact congrArg some hactive

/-- What a step of a call does to the queue. -/
theorem EnqueueCall.advance_queue (q : Queue) (call : EnqueueCall) (fails : Bool) :
    (call.advance q fails).1 = q ∨
    (q.getState recoveryJobId ≠ some .active ∧
      (call.advance q fails).1 = q.filter fun job => job.id ≠ recoveryJobId) ∨
    (call.advance q fails).1 = q.add call.job := by
  unfold EnqueueCall.advance
  cases call.phase with
  | getJob => exact .inl rfl
  | getState => exact .inl rfl
  | remove =>
    unfold Queue.remove
    cases fails with
    | true => exact .inl rfl
    | false =>
      by_cases hactive : q.getState recoveryJobId = some .active
      · left
        simp [hactive]
      · right
        left
        refine ⟨hactive, ?_⟩
        simp [hactive]
  | add =>
    cases fails with
    | true => exact .inl rfl
    | false => exact .inr (.inr rfl)
  | done enqueued => exact .inl rfl

theorem Queue.Inv.add (h : q.Inv) (hjob : job.name = recoveryJobName → job.id = recoveryJobId) :
    (q.add job).Inv := by
  unfold Queue.add
  split
  · exact h
  · next hnew =>
    refine ⟨nodup_map_append h.ids hnew, fun j hj => ?_⟩
    rcases mem_append.mp hj with hold | hone
    · exact h.recovery j hold
    · obtain rfl := mem_singleton.mp hone
      exact hjob

theorem Queue.Inv.filter (h : q.Inv) (p : QueueJob → Bool) : Queue.Inv (q.filter p) where
  ids := h.ids.sublist (filter_sublist.map _)
  recovery := fun j hj => h.recovery j (mem_filter.mp hj).1

theorem Queue.Inv.setState (h : q.Inv) : (q.setState id state).Inv where
  ids := nodup_map_update (updateWhere_keeps fun _ => rfl) h.ids
  recovery := by
    intro j hj
    rcases mem_map_updateWhere.mp hj with ⟨j₀, hj₀, -, rfl⟩ | ⟨hold, -⟩
    · exact h.recovery j₀ hj₀
    · exact h.recovery j hold

theorem Queue.Holds.add (h : q.Holds run) : (q.add job).Holds run := by
  obtain ⟨j, hj, hfacts⟩ := h
  refine ⟨j, ?_, hfacts⟩
  unfold Queue.add
  split
  · exact hj
  · exact mem_append_left _ hj

theorem Queue.Holds.filter (h : q.Holds run) (hid : run.jobId ≠ id) :
    Queue.Holds (q.filter fun j => j.id ≠ id) run := by
  obtain ⟨j, hj, hjid, hfacts⟩ := h
  refine ⟨j, mem_filter.mpr ⟨hj, ?_⟩, hjid, hfacts⟩
  rw [hjid]
  simpa using hid

theorem Queue.Holds.setState (h : q.Holds run) (hid : run.jobId ≠ id) :
    (q.setState id state).Holds run := by
  obtain ⟨j, hj, hjid, hfacts⟩ := h
  refine ⟨j, mem_map_updateWhere.mpr (.inr ⟨hj, ?_⟩), hjid, hfacts⟩
  rw [hjid]
  simpa using hid

/-- A call keeps what the worker functions hold. -/
theorem Queue.Holds.advance (hq : q.Inv) (h : q.Holds run) :
    (call.advance q fails).1.Holds run := by
  rcases EnqueueCall.advance_queue q call fails with
    heq | ⟨hactive, heq⟩ | heq
  · rw [heq]
    exact h
  · rw [heq]
    refine h.filter fun hid => ?_
    have hstate := h.getState hq
    rw [hid] at hstate
    exact hactive hstate
  · rw [heq]
    exact h.add

theorem Queue.Inv.advance (hq : q.Inv) : (call.advance q fails).1.Inv := by
  rcases EnqueueCall.advance_queue q call fails with
    heq | ⟨-, heq⟩ | heq
  · rw [heq]
    exact hq
  · rw [heq]
    exact hq.filter _
  · rw [heq]
    exact hq.add fun _ => rfl

/-- The run of a worker function asked for a requeue. -/
def RunStage.asks : RunStage → Bool
  | .importing => false
  | .requeueing _ => true
  | .returned asked => asked

/-- Every worker function holds its job, only recovery runs ask for a requeue, and no recovery that
asked for it was handed on. -/
structure QueueInv (s : QueueState) : Prop where
  queue : s.queue.Inv
  holds : ∀ run ∈ s.runs, s.queue.Holds run
  runs : (s.runs.map WorkerRun.jobId).Nodup
  asks : ∀ run ∈ s.runs, run.stage.asks = true → run.name = recoveryJobName
  departures : ∀ d ∈ s.departures, d.handedOn = false

namespace QueueInv

theorem of_queue (h : QueueInv s) {queue : Queue} (hqueue : queue.Inv)
    (hholds : ∀ run ∈ s.runs, queue.Holds run) : QueueInv { s with queue := queue } :=
  ⟨hqueue, hholds, h.runs, h.asks, h.departures⟩

theorem of_run (hrun : s.run? id = some run) : run ∈ s.runs ∧ run.jobId = id := mem_of_lookup hrun

section

variable (h : QueueInv s)
include h

theorem setStage {stage : RunStage}
    (hasks : stage.asks = true → ∀ run ∈ s.runs, run.jobId = id → run.name = recoveryJobName) :
    QueueInv (s.setStage id stage) where
  queue := h.queue
  holds := by
    intro r hr
    rcases mem_map_updateWhere.mp hr with ⟨r₀, hr₀, -, rfl⟩ | ⟨hold, -⟩
    · exact h.holds r₀ hr₀
    · exact h.holds r hold
  runs := nodup_map_update (updateWhere_keeps fun _ => rfl) h.runs
  asks := by
    intro r hr hstage
    rcases mem_map_updateWhere.mp hr with ⟨r₀, hr₀, hid, rfl⟩ | ⟨hold, -⟩
    · exact hasks hstage r₀ hr₀ (of_decide_eq_true hid)
    · exact h.asks r hold hstage
  departures := h.departures

theorem endRun : QueueInv (s.endRun id state) where
  queue := h.queue.setState
  holds := by
    intro r hr
    obtain ⟨hold, hid⟩ := mem_filter.mp hr
    exact (h.holds r hold).setState (by simpa using hid)
  runs := h.runs.sublist (filter_sublist.map _)
  asks := fun r hr => h.asks r (mem_filter.mp hr).1
  departures := h.departures

/-- After a recovery job has left the active state, no recovery job is waiting. -/
theorem hasWaiting_endRun (hrun : run ∈ s.runs) (hname : run.name = recoveryJobName)
    (range : JobRange) :
    ((s.endRun run.jobId .completed).queue.hasWaiting range) = false := by
  obtain ⟨job, hjob, hid, hjobName, -⟩ := h.holds run hrun
  have hrecovery : run.jobId = recoveryJobId := by
    rw [← hid]
    exact h.queue.recovery job hjob (hjobName.trans hname)
  unfold Queue.hasWaiting
  rw [any_eq_false]
  intro j hj hwaiting
  simp only [Bool.and_eq_true, decide_eq_true_eq] at hwaiting
  obtain ⟨⟨hjname, -⟩, hjwaiting⟩ := hwaiting
  rcases mem_map_updateWhere.mp hj with ⟨j₀, -, -, rfl⟩ | ⟨hold, hother⟩
  · cases hjwaiting
  · -- Every recovery job has the id of the job that left.
    have hjid := h.queue.recovery j hold hjname
    rw [hrecovery] at hother
    exact of_decide_eq_false hother hjid

theorem leave {asked : Bool} (hrun : run ∈ s.runs) (hstage : run.stage = .returned asked) :
    QueueInv (s.leave run asked) := by
  have hended : QueueInv (s.endRun run.jobId .completed) := h.endRun
  cases asked with
  | false => exact hended
  | true =>
    have hname : run.name = recoveryJobName := by
      refine h.asks run hrun ?_
      rw [hstage]
      rfl
    refine ⟨hended.queue, hended.holds, hended.runs, hended.asks, fun d hd => ?_⟩
    rcases mem_append.mp hd with hold | hone
    · exact h.departures d hold
    · obtain rfl := mem_singleton.mp hone
      exact h.hasWaiting_endRun hrun hname run.range

theorem pick (hjob : Rows.lookup QueueJob.id s.queue id = some job)
    (hwaiting : job.state = .waiting) : QueueInv { s with
      queue := s.queue.setState id .active
      runs := s.runs ++ [⟨id, job.name, job.range, .importing⟩] } := by
  obtain ⟨hmem, hid⟩ := mem_of_lookup hjob
  -- No worker function runs for a waiting job.
  have hfree : ∀ run ∈ s.runs, run.jobId ≠ id := by
    intro run hrun hsame
    have hactive := (h.holds run hrun).getState h.queue
    unfold Queue.getState at hactive
    rw [hsame, hjob, Option.map_some, hwaiting] at hactive
    cases hactive
  refine ⟨h.queue.setState, ?_, ?_, ?_, h.departures⟩
  · intro run hrun
    rcases mem_append.mp hrun with hold | hone
    · exact (h.holds run hold).setState (hfree run hold)
    · obtain rfl := mem_singleton.mp hone
      refine ⟨{ job with state := .active }, ?_, hid, rfl, rfl⟩
      exact mem_map_updateWhere.mpr (.inl ⟨job, hmem, by simpa using hid, rfl⟩)
  · refine nodup_map_append h.runs fun hmem' => ?_
    obtain ⟨run, hrun, hsame⟩ := mem_map.mp hmem'
    exact hfree run hrun hsame
  · intro run hrun hstage
    rcases mem_append.mp hrun with hold | hone
    · exact h.asks run hold hstage
    · obtain rfl := mem_singleton.mp hone
      cases hstage

theorem step (hstep : queueStep s a = some s') : QueueInv s' := by
  cases a with
  | addOther job =>
    obtain ⟨hother, rfl⟩ := Run.enabled hstep
    exact h.of_queue (h.queue.add fun hname => absurd hname hother.1)
      fun run hrun => (h.holds run hrun).add
  | detectGap =>
    cases hstep
    exact ⟨h.queue, h.holds, h.runs, h.asks, h.departures⟩
  | advanceCall i fails =>
    obtain ⟨call, -, rfl⟩ := Option.map_eq_some_iff.mp hstep
    exact ⟨h.queue.advance, fun run hrun => (h.holds run hrun).advance h.queue, h.runs, h.asks,
      h.departures⟩
  | pick id =>
    unfold queueStep at hstep
    dsimp only at hstep
    split at hstep
    · next job hjob =>
      obtain ⟨hwaiting, rfl⟩ := Run.enabled hstep
      exact h.pick hjob hwaiting
    · cases hstep
  | importEnds id outcome =>
    unfold queueStep at hstep
    dsimp only at hstep
    split at hstep
    · next run hrun =>
      obtain ⟨-, rfl⟩ := Run.enabled hstep
      obtain ⟨hmem, -⟩ := of_run hrun
      cases outcome with
      | complete => exact h.setStage fun hasks => by cases hasks
      | incomplete =>
        refine h.setStage fun hasks r hr hid => ?_
        by_cases hname : run.name = recoveryJobName
        · rw [inj_on_of_nodup_map h.runs hr hmem hid]
          exact hname
        · rw [if_neg hname] at hasks
          cases hasks
      | throws retry => exact h.endRun
    · cases hstep
  | advanceRun id fails =>
    unfold queueStep at hstep
    dsimp only at hstep
    split at hstep
    · next run hrun =>
      split at hstep
      · next call hcall =>
        cases hstep
        obtain ⟨hmem, -⟩ := of_run hrun
        have hname : run.name = recoveryJobName := by
          refine h.asks run hmem ?_
          rw [hcall]
          rfl
        have hmoved : QueueInv { s with queue := (call.advance s.queue fails).1 } :=
          h.of_queue h.queue.advance fun run hrun => (h.holds run hrun).advance h.queue
        refine hmoved.setStage fun _ r hr hid => ?_
        rw [inj_on_of_nodup_map h.runs hr hmem hid]
        exact hname
      · cases hstep
    · cases hstep
  | leave id =>
    unfold queueStep at hstep
    dsimp only at hstep
    split at hstep
    · next run hrun =>
      split at hstep
      · next asked hstage =>
        cases hstep
        exact h.leave (of_run hrun).1 hstage
      · cases hstep
    · cases hstep
  | retire id =>
    obtain ⟨hterminal, rfl⟩ := Run.enabled hstep
    refine h.of_queue (h.queue.filter _) fun run hrun => (h.holds run hrun).filter ?_
    intro hid
    have hactive := (h.holds run hrun).getState h.queue
    rw [hid] at hactive
    rcases hterminal with hstate | hstate <;> rw [hstate] at hactive <;> cases hactive

end

theorem empty : QueueInv QueueState.empty where
  queue := ⟨nodup_nil, fun _ hjob => absurd hjob not_mem_nil⟩
  holds := fun _ hrun => absurd hrun not_mem_nil
  runs := nodup_nil
  asks := fun _ hrun => absurd hrun not_mem_nil
  departures := fun _ hd => absurd hd not_mem_nil

end QueueInv

/-- The recovery jobs that are waiting or active. -/
def Queue.pending (q : Queue) : List QueueJob :=
  q.filter fun job => job.name = recoveryJobName && (job.state = .waiting || job.state = .active)

/-- At most one recovery job is waiting or active. -/
theorem Queue.Inv.length_pending (h : q.Inv) : q.pending.length ≤ 1 := by
  have hids : (q.pending.map QueueJob.id).Nodup := h.ids.sublist (filter_sublist.map _)
  have hfixed : ∀ k ∈ q.pending.map QueueJob.id, k = recoveryJobId := by
    intro k hk
    obtain ⟨job, hjob, rfl⟩ := mem_map.mp hk
    obtain ⟨hmem, hpending⟩ := mem_filter.mp hjob
    exact h.recovery job hmem (of_decide_eq_true (Bool.and_eq_true _ _ ▸ hpending).1)
  have hreplicate := eq_replicate_of_mem hfixed
  rw [hreplicate] at hids
  have hle := nodup_replicate.mp hids
  rwa [length_map] at hle

/-- Every recovery that asked for a requeue was handed on when its job left the active state, and
there are never two pending recovery jobs. -/
structure HandsOn (s : QueueState) : Prop where
  handed : ∀ d ∈ s.departures, d.handedOn = true
  one : s.queue.pending.length ≤ 1

theorem queueInv_of_run {actions : List QueueAction}
    (hrun : Run queueStep (fun _ _ => True) QueueState.empty actions s) : QueueInv s :=
  Run.invariant (fun _ _ _ h _ hstep => h.step hstep) hrun QueueInv.empty

/-- A recovery is handed on in a run only where none asked for it. -/
theorem hands_on_iff {actions : List QueueAction}
    (hrun : Run queueStep (fun _ _ => True) QueueState.empty actions s) :
    HandsOn s ↔ s.departures = [] := by
  have hinv := queueInv_of_run hrun
  constructor
  · intro hhands
    refine eq_nil_iff_forall_not_mem.mpr fun d hd => ?_
    have hnot := hinv.departures d hd
    rw [hhands.handed d hd] at hnot
    cases hnot
  · intro hnone
    refine ⟨fun d hd => ?_, hinv.queue.length_pending⟩
    rw [hnone] at hd
    cases hd

/-- A gap is found, and its recovery runs to its end. -/
def wholeRecovery : List QueueAction :=
  [.detectGap, .advanceCall 0 false, .advanceCall 0 false, .pick recoveryJobId,
    .importEnds recoveryJobId .complete, .leave recoveryJobId]

theorem hands_on_iff_wholeRecovery : ∃ s : QueueState,
    (HandsOn s ↔ s.departures = []) ∧ s.departures = [] ∧ s.queue.length = 1 := by
  have hrun := Run.of_isSome (by decide :
    (Run.exec queueStep (fun _ _ => True) QueueState.empty wholeRecovery).isSome)
  exact ⟨_, hands_on_iff hrun, by decide, by decide⟩

/-- The slice limit interrupts a recovery, and the requeue coalesces on its own job. -/
def interruptedRecovery : List QueueAction :=
  [.detectGap, .advanceCall 0 false, .advanceCall 0 false, .pick recoveryJobId,
    .importEnds recoveryJobId .incomplete, .advanceRun recoveryJobId false,
    .advanceRun recoveryJobId false, .leave recoveryJobId]

theorem interrupted_recovery_lost : ¬ ∀ (actions : List QueueAction) (s : QueueState),
      Run queueStep (fun _ _ => True) QueueState.empty actions s → HandsOn s := by
  intro hclaim
  have hrun := Run.of_isSome (by decide :
    (Run.exec queueStep (fun _ _ => True) QueueState.empty interruptedRecovery).isSome)
  have hhanded := (hclaim _ _ hrun).handed
  revert hhanded
  decide

end TalonHound.MalwareBazaar
