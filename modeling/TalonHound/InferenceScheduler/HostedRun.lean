import TalonHound.InferenceScheduler.Leases
import TalonHound.Library.LeaseTimer
import TalonHound.Library.Run

/-!
# Holders of a hosted endpoint

The `acquire` calls of any number of processes for one endpoint that is not fail-closed. Every
statement and every reply takes its own time; the clocks of the processes run at one rate, and
the intervals of `startHolding` fire on time.
-/

namespace TalonHound.InferenceScheduler

/-- The interval of `startHolding`, and its `lossDeadlineMs`. -/
def SchedulerConfig.timing (cfg : SchedulerConfig) : LeaseTiming where
  period := cfg.heartbeatMs
  deadline := max cfg.heartbeatMs (cfg.holdLeaseMs - 2 * cfg.heartbeatMs)
  period_pos := cfg.heartbeatMs_pos
  deadline_pos := Nat.lt_of_lt_of_le cfg.heartbeatMs_pos (Nat.le_max_left _ _)

/-- What a waiter of a hosted endpoint stores. -/
def Endpoint.hostedWaiter (endpoint : Endpoint) : WaiterMeta := ⟨false, endpoint.maxExecutionMs⟩

/-- A heartbeat that the holder waits for, and what its statement did once it ran. -/
structure Renewal where
  sentAt : ℕ
  answer : Option Bool
  deriving DecidableEq

/-- What `startHolding` returns. Its `lastConfirmedAt` is the confirmation of the timer. -/
structure Handle where
  timer : LeaseTimer
  renewing : Option Renewal
  deriving DecidableEq

/-- Where an `acquire` call is. -/
inductive Call where
  | idle | waiting
  /-- The transaction of `tryClaim` began, so `startedAt` is its `NOW()`. -/
  | claiming (startedAt : ℕ)
  /-- It committed with a grant, and the reply is on its way. -/
  | granted (startedAt : ℕ)
  | holding (handle : Handle)
  | lost
  | released
  | failed
  deriving DecidableEq

/-- The database, the calls, and the heartbeats whose holder gave up on the reply: they may
still run. -/
structure HostedState where
  now : ℕ
  table : LeaseTable
  calls : Token → Call
  joined : List Token
  stray : List (Token × ℕ)

/-- One step of a process or of the database. Where a statement runs after its `NOW()`, the
step carries that instant. -/
inductive HostedAction where
  | elapse (ms : ℕ)
  | join (token : Token) (stamp : ℕ)
  | begin (token : Token)
  | claim (token : Token)
  | claimFails (token : Token)
  | grantReply (token : Token)
  | acquireFails (token : Token)
  | deleteLease (token : Token)
  | check (token : Token)
  | runRenewal (token : Token) (stamp : ℕ)
  | renewalReply (token : Token)
  | renewalFails (token : Token)
  | runStray (token : Token) (sentAt stamp : ℕ)
  | release (token : Token)

/-- No check of the call is due before `instant`. -/
def Call.UndisturbedUntil (cfg : SchedulerConfig) (instant : ℕ) : Call → Prop
  | .holding h => instant ≤ h.timer.nextCheck cfg.timing
  | _ => True

instance (cfg : SchedulerConfig) (instant : ℕ) (call : Call) :
    Decidable (call.UndisturbedUntil cfg instant) := by
  cases call <;> unfold Call.UndisturbedUntil <;> infer_instance

namespace HostedState

/-- The call of `token` moves on. -/
def setCall (s : HostedState) (token : Token) (call : Call) : HostedState :=
  { s with calls := Function.update s.calls token call }

/-- The heartbeat that the handle stops waiting for may still run. -/
def abandon (s : HostedState) (token : Token) (h : Handle) : HostedState :=
  match h.renewing with
  | some ⟨sentAt, none⟩ => { s with stray := (token, sentAt) :: s.stray }
  | _ => s

/-- Abandoning a call leaves the others alone. -/
@[simp] theorem abandon_calls (s : HostedState) (token : Token) (h : Handle) :
    (s.abandon token h).calls = s.calls := by
  unfold abandon
  split <;> rfl

/-- Abandoning a call takes no time. -/
@[simp] theorem abandon_now (s : HostedState) (token : Token) (h : Handle) :
    (s.abandon token h).now = s.now := by
  unfold abandon
  split <;> rfl

/-- Abandoning a call leaves its lease in the table. -/
@[simp] theorem abandon_table (s : HostedState) (token : Token) (h : Handle) :
    (s.abandon token h).table = s.table := by
  unfold abandon
  split <;> rfl

/-- `acquire` returned the slot, and it is neither released nor marked lost. -/
def Believes (s : HostedState) (token : Token) : Prop := ∃ h, s.calls token = .holding h

end HostedState

/-- The timer of `startHolding`. -/
def checkHandle (cfg : SchedulerConfig) (s : HostedState) (token : Token) (h : Handle) :
    HostedState :=
  if cfg.timing.deadline ≤ s.now - h.timer.confirmed then (s.abandon token h).setCall token .lost
  else if h.renewing.isSome then s.setCall token (.holding { h with timer := h.timer.fire })
  else s.setCall token (.holding ⟨h.timer.fire, some ⟨s.now, none⟩⟩)

/-- One step; `none` when the action is not possible. -/
def hostedStep (cfg : SchedulerConfig) (endpoint : Endpoint) (s : HostedState) :
    HostedAction → Option HostedState
  | .elapse ms =>
    if ∀ t ∈ s.joined, (s.calls t).UndisturbedUntil cfg (s.now + ms) then
      some { s with now := s.now + ms }
    else none
  | .join t stamp =>
    match s.calls t with
    | .idle =>
      if stamp ≤ s.now then
        (insertWaiter cfg stamp t endpoint.hostedWaiter s.table).map fun T =>
          { s.setCall t .waiting with table := T, joined := t :: s.joined }
      else none
    | _ => none
  | .begin t =>
    match s.calls t with
    | .waiting => some (s.setCall t (.claiming s.now))
    | _ => none
  | .claim t =>
    match s.calls t with
    | .claiming startedAt =>
      match tryClaim cfg startedAt t endpoint.acquireCapacity endpoint.hostedWaiter s.table with
      | none => some (s.setCall t .waiting)
      | some (T, view) => some
        { s.setCall t (if view.acquired then .granted startedAt else .waiting) with table := T }
    | _ => none
  | .claimFails t =>
    match s.calls t with
    | .claiming _ => some (s.setCall t .waiting)
    | .granted _ => some (s.setCall t .waiting)
    | _ => none
  | .grantReply t =>
    match s.calls t with
    | .granted _ => some (s.setCall t (.holding ⟨LeaseTimer.start s.now, none⟩))
    | _ => none
  | .acquireFails t =>
    match s.calls t with
    | .waiting => some (s.setCall t .failed)
    | _ => none
  | .deleteLease t =>
    match s.calls t with
    | .released => some { s with table := deleteLease t s.table }
    | .failed => some { s with table := deleteLease t s.table }
    | _ => none
  | .check t =>
    match s.calls t with
    | .holding h =>
      if s.now = h.timer.nextCheck cfg.timing then some (checkHandle cfg s t h) else none
    | _ => none
  | .runRenewal t stamp =>
    match s.calls t with
    | .holding ⟨timer, some ⟨sentAt, none⟩⟩ =>
      if sentAt ≤ stamp ∧ stamp ≤ s.now then
        let (T, updated) := renewLease cfg stamp t s.table
        some { s.setCall t (.holding ⟨timer, some ⟨sentAt, some updated⟩⟩) with table := T }
      else none
    | _ => none
  | .renewalReply t =>
    match s.calls t with
    | .holding ⟨timer, some ⟨sentAt, some updated⟩⟩ =>
      if updated then some (s.setCall t (.holding ⟨timer.confirm sentAt, none⟩))
      else some (s.setCall t .lost)
    | _ => none
  | .renewalFails t =>
    match s.calls t with
    | .holding h =>
      if h.renewing.isSome then
        some ((s.abandon t h).setCall t (.holding { h with renewing := none }))
      else none
    | _ => none
  | .runStray t sentAt stamp =>
    if (t, sentAt) ∈ s.stray ∧ sentAt ≤ stamp ∧ stamp ≤ s.now then
      some { s with
        table := (renewLease cfg stamp t s.table).1
        stray := s.stray.erase (t, sentAt) }
    else none
  | .release t =>
    match s.calls t with
    | .holding h => some ((s.abandon t h).setCall t .released)
    | .lost => some (s.setCall t .released)
    | _ => none

/-- Nobody has called `acquire`, and the endpoint has no rows. -/
def HostedState.initial (now : ℕ) : HostedState where
  now := now
  table := ⟨[], 1⟩
  calls := fun _ => .idle
  joined := []
  stray := []

/-!
## Slots that are held until an instant

What the statements of one token do to the slots of the others, and the rows of an endpoint
that is not fail-closed.
-/

variable {cfg : SchedulerConfig} {endpoint : Endpoint} {now stamp e : ℕ} {token t : Token}
variable {rows : List LeaseRow} {T T' : LeaseTable}

/-- The token holds a slot that nobody reclaims before `instant` has passed. -/
def Covers (rows : List LeaseRow) (token : Token) (instant : ℕ) : Prop :=
  ∃ r ∈ rows, r.token = token ∧ r.state = .holding ∧ instant ≤ r.leaseExpiresAt

/-- A lease covers every earlier time. -/
theorem Covers.mono {e' : ℕ} (h : Covers rows t e) (hle : e' ≤ e) : Covers rows t e' := by
  obtain ⟨r, hr, htoken, hstate, hexpires⟩ := h
  exact ⟨r, hr, htoken, hstate, Nat.le_trans hle hexpires⟩

section

variable (h : Covers T.rows t e)
include h

/-- A new lease keeps the others. -/
theorem Covers.insert {row : ℕ → LeaseRow} (hinsert : T.insert row = some T') :
    Covers T'.rows t e := by
  obtain ⟨r, hr, hrest⟩ := h
  obtain ⟨-, hrows⟩ := LeaseTable.insert_eq_some hinsert
  exact ⟨r, by rw [hrows]; exact List.mem_append_left _ hr, hrest⟩

/-- Deleting another lease keeps this one. -/
theorem Covers.delete (hne : t ≠ token) :
    Covers (deleteLease token T).rows t e := by
  obtain ⟨r, hr, htoken, hrest⟩ := h
  exact ⟨r, List.mem_filter.mpr ⟨hr, by simpa [htoken] using hne⟩, htoken, hrest⟩

/-- A heartbeat of another token does not matter. -/
theorem Covers.renew (hne : t ≠ token) :
    Covers (renewLease cfg stamp token T).1.rows t e := by
  obtain ⟨r, hr, htoken, hrest⟩ := h
  refine ⟨r, Rows.mem_map_updateWhere.mpr (Or.inr ⟨hr, ?_⟩), htoken, hrest⟩
  simp [htoken, hne]

/-- A heartbeat of the token moves the expiry. -/
theorem Covers.renew_self (hhosted : ∀ r ∈ T.rows, r.quarantinedAt = none) :
    Covers (renewLease cfg stamp t T).1.rows t (stamp + cfg.holdLeaseMs) := by
  obtain ⟨r, hr, htoken, hstate, -⟩ := h
  refine ⟨{ r with leaseExpiresAt := stamp + cfg.holdLeaseMs },
    Rows.mem_map_updateWhere.mpr (Or.inl ⟨r, hr, ?_, rfl⟩), htoken, hstate, Nat.le_refl _⟩
  simp [htoken, LeaseRow.held, hstate, hhosted r hr]

end

variable {view : ClaimView}

/-- The claim of another token reclaims no slot whose expiry has not passed. -/
theorem Covers.claim {capacity : ℕ} {info : WaiterMeta} (h : Covers T.rows t e)
    (hT : T.UniqueTokens) (hne : t ≠ token) (hlive : now ≤ e)
    (hclaim : tryClaim cfg now token capacity info T = some (T', view)) : Covers T'.rows t e := by
  obtain ⟨r, hr, htoken, hstate, hexpires⟩ := h
  obtain ⟨-, hothers, -⟩ := tryClaim_spec hclaim hT
  have hrow : r ∈ T'.rows := (hothers r (htoken ▸ hne)).mpr
    (mem_expireLeases_of_live hr hstate (Or.inr (Nat.le_trans hlive hexpires)))
  exact ⟨r, hrow, htoken, hstate, hexpires⟩

/-- A granted slot is held for a whole lease from the start of the transaction. -/
theorem covers_of_granted {capacity : ℕ} {info : WaiterMeta} (hT : T.UniqueTokens)
    (hclaim : tryClaim cfg now token capacity info T = some (T', view))
    (hacquired : view.acquired = true) : Covers T'.rows token (now + cfg.holdLeaseMs) := by
  obtain ⟨-, -, w, hw, ⟨hnot, -, -⟩ | ⟨-, hgranted, -, -⟩⟩ := tryClaim_spec hclaim hT
  · rw [hacquired] at hnot
    cases hnot
  · exact ⟨_, hgranted, hw.token_eq, rfl, Nat.le_refl _⟩

/-- No slot is over the capacity, and none is fail-closed or quarantined. -/
structure HostedTable (endpoint : Endpoint) (T : LeaseTable) : Prop where
  unique : T.UniqueTokens
  hosted : ∀ r ∈ T.rows, r.failClosed = false ∧ r.quarantinedAt = none
  within : holdingCount T.rows ≤ endpoint.acquireCapacity

namespace HostedTable

section

variable (h : HostedTable endpoint T)
include h

/-- A waiter joins the table. -/
theorem insert (hinsert : insertWaiter cfg stamp token endpoint.hostedWaiter T = some T') :
    HostedTable endpoint T' := by
  obtain ⟨-, hrows⟩ := LeaseTable.insert_eq_some hinsert
  refine ⟨LeaseTable.insert_unique hinsert h.unique, ?_, ?_⟩
  · intro r hr
    rw [hrows, List.mem_append, List.mem_singleton] at hr
    rcases hr with hr | rfl
    · exact h.hosted r hr
    · exact ⟨rfl, rfl⟩
  · have hwithin := h.within
    rw [hrows, holdingCount, List.countP_append]
    simpa [waiterRow, holdingCount] using hwithin

/-- A renewal keeps the table. -/
theorem renew : HostedTable endpoint (renewLease cfg stamp token T).1 := by
  refine ⟨Rows.nodup_map_update (Rows.updateWhere_keeps fun _ => rfl) h.unique, ?_, ?_⟩
  · intro r hr
    rcases Rows.mem_map_updateWhere.mp hr with ⟨w, hw, -, rfl⟩ | ⟨hr, -⟩
    · exact h.hosted w hw
    · exact h.hosted r hr
  · have hsame : holdingCount (InferenceScheduler.renewLease cfg stamp token T).1.rows =
        holdingCount T.rows := holdingCount_updateWhere fun _ => rfl
    rw [hsame]
    exact h.within

/-- A deletion keeps the table. -/
theorem delete : HostedTable endpoint (deleteLease token T) where
  unique := h.unique.sublist (List.filter_sublist.map _)
  hosted := fun r hr => h.hosted r (List.mem_of_mem_filter hr)
  within := Nat.le_trans List.filter_sublist.countP_le h.within

/-- A claim within the capacity keeps the table. -/
theorem claim {view : ClaimView}
    (hclaim : tryClaim cfg now token endpoint.acquireCapacity endpoint.hostedWaiter T = some (T', view)) :
    HostedTable endpoint T' := by
  obtain ⟨hunique, hothers, w, hw, hown⟩ := tryClaim_spec hclaim h.unique
  -- No lease of a hosted endpoint is turned into a quarantine.
  have hexpired : ∀ r ∈ expireLeases now T.rows, r.failClosed = false ∧ r.quarantinedAt = none := by
    intro r hr
    rcases mem_expireLeases hr with hr | ⟨w, hw, -, hclosed, -⟩
    · exact h.hosted r hr
    · rw [(h.hosted w hw).1] at hclosed
      cases hclosed
  have hwaiter : w.failClosed = false ∧ w.quarantinedAt = none := by
    rcases hw with ⟨v, hv, -, -, rfl⟩ | rfl
    · exact hexpired v hv
    · exact ⟨rfl, rfl⟩
  refine ⟨hunique, ?_, tryClaim_holdingCount hclaim h.unique h.within⟩
  intro r hr
  by_cases htoken : r.token = token
  · rcases hown with ⟨-, hmem, -⟩ | ⟨-, hmem, -, -⟩
    · rw [hunique.eq hr hmem (by rw [htoken, hw.token_eq])]
      exact hwaiter
    · rw [hunique.eq hr hmem (htoken.trans hw.token_eq.symm)]
      exact hwaiter
  · exact hexpired r ((hothers r htoken).mp hr)

end

end HostedTable

end TalonHound.InferenceScheduler
