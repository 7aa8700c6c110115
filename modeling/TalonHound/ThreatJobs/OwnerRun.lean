import TalonHound.Library.LeaseTimer
import TalonHound.Library.Run
import TalonHound.ThreatJobs.Job

/-!
# Deliveries of a job

The workers that any number of deliveries of one job start. Every statement and every reply
takes its own time; the clocks run at one rate, and the intervals of `startJobHeartbeat` fire on
time.
-/

namespace TalonHound.ThreatJobs

/-- The options `intervalMs` and `staleMs`. -/
structure OwnershipConfig where
  (intervalMs staleMs : ℕ)
  intervalMs_pos : 0 < intervalMs

/-- `JOB_HEARTBEAT_MS` and `JOB_OWNER_STALE_MS`. -/
def ownershipDefaults : OwnershipConfig where
  intervalMs := jobHeartbeatMs
  staleMs := jobOwnerStaleMs
  intervalMs_pos := by decide

/-- The interval of `startJobHeartbeat`, and its `lossDeadlineMs`. -/
def OwnershipConfig.timing (cfg : OwnershipConfig) : LeaseTiming where
  period := cfg.intervalMs
  deadline := max cfg.intervalMs (cfg.staleMs - 2 * cfg.intervalMs)
  period_pos := cfg.intervalMs_pos
  deadline_pos := Nat.lt_of_lt_of_le cfg.intervalMs_pos (Nat.le_max_left _ _)

/-- A heartbeat that the worker waits for, and what its statement did once it ran. -/
structure Beat where
  sentAt : ℕ
  answer : Option Bool
  deriving DecidableEq

/-- What `startJobHeartbeat` keeps. Its `lastConfirmedAt` is the confirmation of the timer. -/
structure JobHeartbeat where
  timer : LeaseTimer
  beating : Option Beat
  deriving DecidableEq

/-- Where a delivery of the job is. -/
inductive Delivery where
  | idle
  /-- The statement of `claimJobOwnership` was sent. -/
  | claiming (sentAt : ℕ)
  /-- It took the job with `NOW()` at `stamp`, and the reply is on its way. -/
  | claimed (stamp : ℕ)
  | running (heartbeat : JobHeartbeat)
  /-- `onLost` was called. -/
  | lost
  /-- The run finished, crashed, handed the job back or never got it. -/
  | ended
  deriving DecidableEq

/-- The job, its deliveries, and the heartbeats whose worker gave up on the reply: they may
still run. -/
structure OwnerState where
  now : ℕ
  job : JobRow
  deliveries : OwnerToken → Delivery
  delivered : List OwnerToken
  stray : List (OwnerToken × ℕ)

/-- One step of a worker, of a recovery or of the database. A statement that runs after its
`NOW()` carries that instant. -/
inductive OwnerAction where
  | elapse (ms : ℕ)
  | deliver (token : OwnerToken)
  | runClaim (token : OwnerToken) (stamp : ℕ) (bullmqJobId : Option ℕ)
  | claimReply (token : OwnerToken)
  | check (token : OwnerToken)
  | runBeat (token : OwnerToken) (stamp : ℕ)
  | beatReply (token : OwnerToken)
  | beatFails (token : OwnerToken)
  | runStray (token : OwnerToken) (sentAt stamp : ℕ)
  | requeue (token : OwnerToken)
  | finish (token : OwnerToken)
  | recover (stamp : ℕ)
  /-- Any other statement on the row: none of them writes `owner_token` or `heartbeat_at`. -/
  | otherWrite (job : JobRow)

/-- No check of the delivery is due before `instant`. -/
def Delivery.UndisturbedUntil (cfg : OwnershipConfig) (instant : ℕ) : Delivery → Prop
  | .running h => instant ≤ h.timer.nextCheck cfg.timing
  | _ => True

instance (cfg : OwnershipConfig) (instant : ℕ) (d : Delivery) :
    Decidable (d.UndisturbedUntil cfg instant) := by
  cases d <;> unfold Delivery.UndisturbedUntil <;> infer_instance

namespace OwnerState

/-- The delivery moves on. -/
def setDelivery (s : OwnerState) (token : OwnerToken) (d : Delivery) : OwnerState :=
  { s with deliveries := Function.update s.deliveries token d }

/-- The heartbeat that a worker stops waiting for may still run. -/
def abandon (s : OwnerState) (token : OwnerToken) (h : JobHeartbeat) : OwnerState :=
  match h.beating with
  | some ⟨sentAt, none⟩ => { s with stray := (token, sentAt) :: s.stray }
  | _ => s

@[simp] theorem abandon_deliveries (s : OwnerState) (token : OwnerToken) (h : JobHeartbeat) :
    (s.abandon token h).deliveries = s.deliveries := by
  unfold abandon
  split <;> rfl

@[simp] theorem abandon_now (s : OwnerState) (token : OwnerToken) (h : JobHeartbeat) :
    (s.abandon token h).now = s.now := by
  unfold abandon
  split <;> rfl

@[simp] theorem abandon_job (s : OwnerState) (token : OwnerToken) (h : JobHeartbeat) :
    (s.abandon token h).job = s.job := by
  unfold abandon
  split <;> rfl

/-- The worker runs the job, and nothing told it to stop. -/
def Runs (s : OwnerState) (token : OwnerToken) : Prop := ∃ h, s.deliveries token = .running h

end OwnerState

/-- The timer of `startJobHeartbeat`. -/
def checkHeartbeat (cfg : OwnershipConfig) (s : OwnerState) (token : OwnerToken)
    (h : JobHeartbeat) : OwnerState :=
  if cfg.timing.deadline ≤ s.now - h.timer.confirmed then
    (s.abandon token h).setDelivery token .lost
  else if h.beating.isSome then
    s.setDelivery token (.running { h with timer := h.timer.fire })
  else s.setDelivery token (.running ⟨h.timer.fire, some ⟨s.now, none⟩⟩)

/-- One step; `none` when the action is not possible. -/
def ownerStep (cfg : OwnershipConfig) (s : OwnerState) : OwnerAction → Option OwnerState
  | .elapse ms =>
    if ∀ t ∈ s.delivered, (s.deliveries t).UndisturbedUntil cfg (s.now + ms) then
      some { s with now := s.now + ms }
    else none
  | .deliver t =>
    match s.deliveries t with
    | .idle => some { s.setDelivery t (.claiming s.now) with delivered := t :: s.delivered }
    | _ => none
  | .runClaim t stamp bullmqJobId =>
    match s.deliveries t with
    | .claiming sentAt =>
      if sentAt ≤ stamp ∧ stamp ≤ s.now then
        if s.job.claimable cfg.staleMs stamp t then
          some { s.setDelivery t (.claimed stamp) with
            job := s.job.claimed stamp t bullmqJobId }
        else some (s.setDelivery t .ended)
      else none
    | _ => none
  | .claimReply t =>
    match s.deliveries t with
    | .claimed _ => some (s.setDelivery t (.running ⟨LeaseTimer.start s.now, none⟩))
    | _ => none
  | .check t =>
    match s.deliveries t with
    | .running h =>
      if s.now = h.timer.nextCheck cfg.timing then some (checkHeartbeat cfg s t h) else none
    | _ => none
  | .runBeat t stamp =>
    match s.deliveries t with
    | .running ⟨timer, some ⟨sentAt, none⟩⟩ =>
      if sentAt ≤ stamp ∧ stamp ≤ s.now then
        let (job, updated) := s.job.heartbeat stamp t
        some { s.setDelivery t (.running ⟨timer, some ⟨sentAt, some updated⟩⟩) with job := job }
      else none
    | _ => none
  | .beatReply t =>
    match s.deliveries t with
    | .running ⟨timer, some ⟨_, some updated⟩⟩ =>
      if updated then some (s.setDelivery t (.running ⟨timer.confirm s.now, none⟩))
      else some (s.setDelivery t .lost)
    | _ => none
  | .beatFails t =>
    match s.deliveries t with
    | .running h =>
      if h.beating.isSome then
        some ((s.abandon t h).setDelivery t (.running { h with beating := none }))
      else none
    | _ => none
  | .runStray t sentAt stamp =>
    if (t, sentAt) ∈ s.stray ∧ sentAt ≤ stamp ∧ stamp ≤ s.now then
      some { s with
        job := (s.job.heartbeat stamp t).1
        stray := s.stray.erase (t, sentAt) }
    else none
  | .requeue t =>
    match s.deliveries t with
    | .running h => some { (s.abandon t h).setDelivery t .ended with job := s.job.requeue t }
    | .lost => some { s.setDelivery t .ended with job := s.job.requeue t }
    | _ => none
  | .finish t =>
    match s.deliveries t with
    | .idle => none
    | .running h => some ((s.abandon t h).setDelivery t .ended)
    | _ => some (s.setDelivery t .ended)
  | .recover stamp =>
    if stamp ≤ s.now ∧ s.job.recoverable cfg.staleMs stamp then
      some { s with job := s.job.recovered }
    else none
  | .otherWrite job =>
    if job.ownerToken = s.job.ownerToken ∧ job.heartbeatAt = s.job.heartbeatAt then
      some { s with job := job }
    else none

/-- The step takes the job: a claim or a recovery that updates the row. -/
def Takes (cfg : OwnershipConfig) (s : OwnerState) : OwnerAction → Prop
  | .runClaim t stamp _ =>
    (∃ sentAt, s.deliveries t = .claiming sentAt ∧ sentAt ≤ stamp) ∧ stamp ≤ s.now ∧
      s.job.claimable cfg.staleMs stamp t = true
  | .recover stamp => stamp ≤ s.now ∧ s.job.recoverable cfg.staleMs stamp = true
  | _ => False

/-- A job that no delivery has reached. -/
def OwnerState.initial (now : ℕ) (job : JobRow) : OwnerState where
  now := now
  job := job
  deliveries := fun _ => .idle
  delivered := []
  stray := []

end TalonHound.ThreatJobs
