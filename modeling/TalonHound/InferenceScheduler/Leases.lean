import TalonHound.Library.Rows

/-!
# Capacity leases

The rows of `threat_library_ai_capacity_leases` for one endpoint, and the statements and the
claim transaction that `inferenceScheduler.js` runs on them. Instants are milliseconds, and
`now` is the `NOW()` of the statement or of its transaction.
-/

namespace TalonHound.InferenceScheduler

open Rows List

/-- The `crypto.randomUUID()` of an `acquire` call. -/
abbrev Token := ℕ

/-- The entries of `SCHEDULER_DEFAULTS` that the leases depend on. -/
structure SchedulerConfig where
  (waitLeaseMs holdLeaseMs heartbeatMs verifyIntervalMs : ℕ)
  heartbeatMs_pos : 0 < heartbeatMs

/-- `SCHEDULER_DEFAULTS`. -/
def schedulerDefaults : SchedulerConfig where
  waitLeaseMs := 15000
  holdLeaseMs := 60000
  heartbeatMs := 15000
  verifyIntervalMs := 10000
  heartbeatMs_pos := by decide

/-- The column `state`. -/
inductive LeaseState where
  | waiting | holding
  deriving DecidableEq

/-- A row of `threat_library_ai_capacity_leases`. -/
structure LeaseRow where
  id : ℕ
  token : Token
  state : LeaseState
  (leaseExpiresAt createdAt : ℕ)
  (acquiredAt quarantinedAt verifyAfter : Option ℕ)
  failClosed : Bool
  maxExecutionMs : Option ℕ

namespace LeaseRow

/-- A slot that its holder still renews. -/
def held (r : LeaseRow) : Bool := r.state = .holding && r.quarantinedAt.isNone

/-- A slot whose request may still run on the provider. -/
def quarantined (r : LeaseRow) : Bool := r.state = .holding && r.quarantinedAt.isSome

/-- A slot that its holder stopped renewing. -/
def lapsed (now : ℕ) (r : LeaseRow) : Bool := r.held && r.leaseExpiresAt < now

/-- The row that a lapsed fail-closed slot is kept as. -/
def expired (now : ℕ) (r : LeaseRow) : LeaseRow :=
  { r with
    quarantinedAt := some now
    verifyAfter := some now
    leaseExpiresAt := max now (r.acquiredAt.getD r.createdAt + r.maxExecutionMs.getD 0) }

end LeaseRow

/-- The rows, and the next value of the sequence of ids. -/
structure LeaseTable where
  rows : List LeaseRow
  nextId : ℕ

/-- What `acquire` says about its endpoint. -/
structure WaiterMeta where
  failClosed : Bool
  maxExecutionMs : Option ℕ

/-- The row that `insertWaiter` and a requeued waiter insert. -/
def waiterRow (cfg : SchedulerConfig) (now : ℕ) (token : Token) (info : WaiterMeta) (id : ℕ) :
    LeaseRow where
  id := id
  token := token
  state := .waiting
  leaseExpiresAt := now + cfg.waitLeaseMs
  createdAt := now
  acquiredAt := none
  quarantinedAt := none
  verifyAfter := none
  failClosed := info.failClosed
  maxExecutionMs := info.maxExecutionMs

/-- `INSERT`, unless the token has a row already. -/
def LeaseTable.insert (T : LeaseTable) (row : ℕ → LeaseRow) : Option LeaseTable :=
  if (row T.nextId).token ∈ T.rows.map LeaseRow.token then none
  else some ⟨T.rows ++ [row T.nextId], T.nextId + 1⟩

/-- `insertWaiter`. -/
def insertWaiter (cfg : SchedulerConfig) (now : ℕ) (token : Token) (info : WaiterMeta)
    (T : LeaseTable) : Option LeaseTable :=
  T.insert (waiterRow cfg now token info)

/-- The heartbeat of `startHolding`; the answer says whether a row was updated. -/
def renewLease (cfg : SchedulerConfig) (now : ℕ) (token : Token) (T : LeaseTable) :
    LeaseTable × Bool :=
  ({ T with rows := T.rows.map (Rows.updateWhere (fun r => r.token = token && r.held)
      fun r => { r with leaseExpiresAt := now + cfg.holdLeaseMs }) },
    T.rows.any fun r => r.token = token && r.held)

/-- `deleteLease`. -/
def deleteLease (token : Token) (T : LeaseTable) : LeaseTable :=
  { T with rows := T.rows.filter fun r => r.token ≠ token }

/-- Waiters that stopped polling are dropped. -/
def dropStaleWaiters (now : ℕ) (rows : List LeaseRow) : List LeaseRow :=
  rows.filter fun r => !(r.state = .waiting && r.leaseExpiresAt < now)

/-- A holder that stopped renewing a fail-closed slot leaves it quarantined. -/
def quarantineExpired (now : ℕ) (rows : List LeaseRow) : List LeaseRow :=
  rows.map (Rows.updateWhere (fun r => r.lapsed now && r.failClosed) (LeaseRow.expired now))

/-- A holder that stopped renewing any other slot loses it. -/
def reclaimExpired (now : ℕ) (rows : List LeaseRow) : List LeaseRow :=
  rows.filter fun r => !(r.lapsed now && !r.failClosed)

/-- What a claim does to expired rows. -/
def expireLeases (now : ℕ) (rows : List LeaseRow) : List LeaseRow :=
  reclaimExpired now (quarantineExpired now (dropStaleWaiters now rows))

/-- The waiting row of the claim is refreshed, or inserted at the tail when it expired: the
table, the id of the row, and whether it is a new one. -/
def refreshWaiter (cfg : SchedulerConfig) (now : ℕ) (token : Token) (info : WaiterMeta)
    (T : LeaseTable) : Option (LeaseTable × ℕ × Bool) :=
  match T.rows.find? fun r => r.token = token && r.state = .waiting with
  | some r => some ({ T with rows := T.rows.map (Rows.updateWhere
      (fun r => r.token = token && r.state = .waiting)
      fun r => { r with leaseExpiresAt := now + cfg.waitLeaseMs }) }, r.id, false)
  | none => (insertWaiter cfg now token info T).map fun T' => (T', T.nextId, true)

/-- The queue view that `tryClaim` returns. -/
structure ClaimView where
  acquired : Bool
  (holding quarantined unverified ahead waiting : ℕ)
  requeued : Bool

/-- The rows that occupy capacity. -/
def holdingCount (rows : List LeaseRow) : ℕ := rows.countP fun r => r.state = .holding

/-- The waiters in front of `id`. -/
def aheadCount (id : ℕ) (rows : List LeaseRow) : ℕ :=
  rows.countP fun r => r.state = .waiting && r.id < id

/-- The counts of the queue as `id` sees it. -/
def queueView (now id : ℕ) (requeued : Bool) (rows : List LeaseRow) : ClaimView where
  acquired := false
  holding := holdingCount rows
  quarantined := rows.countP LeaseRow.quarantined
  unverified := rows.countP fun r => r.quarantined && r.leaseExpiresAt < now
  ahead := aheadCount id rows
  waiting := rows.countP fun r => r.state = .waiting
  requeued := requeued

/-- The slot is granted to `token`. -/
def grantLease (cfg : SchedulerConfig) (now : ℕ) (token : Token) (rows : List LeaseRow) :
    List LeaseRow :=
  rows.map <| Rows.updateWhere (fun r => r.token = token) fun r => { r with
    state := .holding
    acquiredAt := some now
    leaseExpiresAt := now + cfg.holdLeaseMs }

/-- `tryClaim`: one transaction under the advisory lock of the endpoint, or nothing when it is
rolled back because the token has a row that does not wait. -/
def tryClaim (cfg : SchedulerConfig) (now : ℕ) (token : Token) (capacity : ℕ)
    (info : WaiterMeta) (T : LeaseTable) : Option (LeaseTable × ClaimView) :=
  (refreshWaiter cfg now token info { T with rows := expireLeases now T.rows }).map
    fun (T', id, requeued) =>
      let view := queueView now id requeued T'.rows
      if view.holding + view.ahead < capacity then
        ({ T' with rows := grantLease cfg now token T'.rows },
          { view with
            acquired := true
            holding := view.holding + 1
            ahead := 0
            waiting := view.waiting - 1 })
      else (T', view)

/-- The policy of an endpoint: what its callers pass to `acquire`. -/
structure Endpoint where
  capacity : ℕ
  maxExecutionMs : Option ℕ

/-- The capacity that `acquire` claims under. -/
def Endpoint.acquireCapacity (endpoint : Endpoint) : ℕ := max 1 endpoint.capacity

/-- No two rows share a token, `uq_tl_ai_capacity_leases_token`. -/
def LeaseTable.UniqueTokens (T : LeaseTable) : Prop := (T.rows.map LeaseRow.token).Nodup

variable {cfg : SchedulerConfig} {now capacity : ℕ} {token : Token} {info : WaiterMeta}
variable {T T' : LeaseTable} {rows : List LeaseRow} {r : LeaseRow}

theorem LeaseTable.insert_eq_some {row : ℕ → LeaseRow} (h : T.insert row = some T') :
    (row T.nextId).token ∉ T.rows.map LeaseRow.token ∧ T'.rows = T.rows ++ [row T.nextId] := by
  unfold LeaseTable.insert at h
  split at h
  · cases h
  · next hnew =>
    cases h
    exact ⟨hnew, rfl⟩

/-- A row after the expiry of leases was there before, or was a held one that expired. -/
theorem mem_expireLeases (h : r ∈ expireLeases now rows) :
    r ∈ rows ∨ ∃ s ∈ rows, s.lapsed now = true ∧ s.failClosed = true ∧ r = s.expired now := by
  rcases mem_map_updateWhere.mp (mem_of_mem_filter h) with ⟨s, hs, hexpired, rfl⟩ | ⟨hr, _⟩
  · obtain ⟨hlapsed, hclosed⟩ := Bool.and_eq_true_iff.mp hexpired
    exact Or.inr ⟨s, mem_of_mem_filter hs, hlapsed, hclosed, rfl⟩
  · exact Or.inl (mem_of_mem_filter hr)

/-- Rows that hold a slot outlast the expiry of leases while they are renewed or quarantined. -/
theorem mem_expireLeases_of_live (hr : r ∈ rows) (hstate : r.state = .holding)
    (hlive : r.quarantinedAt.isSome = true ∨ now ≤ r.leaseExpiresAt) :
    r ∈ expireLeases now rows := by
  have hkept : r.lapsed now = false := by
    rcases hlive with hquarantined | hlive
    · simp [LeaseRow.lapsed, LeaseRow.held, ← Option.not_isSome, hquarantined]
    · simp [LeaseRow.lapsed, Nat.not_lt.mpr hlive]
  refine mem_filter.mpr ⟨mem_map_updateWhere.mpr (Or.inr ⟨?_, ?_⟩), by simp [hkept]⟩
  · exact mem_filter.mpr ⟨hr, by simp [hstate]⟩
  · simp [hkept]

theorem map_token_expireLeases_sublist :
    ((expireLeases now rows).map LeaseRow.token).Sublist (rows.map LeaseRow.token) := by
  refine (filter_sublist.map _).trans ?_
  have hkeep : ((quarantineExpired now (dropStaleWaiters now rows)).map LeaseRow.token) =
      (dropStaleWaiters now rows).map LeaseRow.token :=
    map_update fun r =>
      updateWhere_keeps (c := LeaseRow.token) (g := LeaseRow.expired now) (fun _ => rfl) r
  rw [hkeep]
  exact filter_sublist.map _

/-- An update of other columns occupies no slot. -/
theorem holdingCount_updateWhere {p : LeaseRow → Bool} {g : LeaseRow → LeaseRow}
    (hg : ∀ r, (g r).state = r.state) :
    holdingCount (rows.map (Rows.updateWhere p g)) = holdingCount rows := by
  rw [holdingCount, countP_map]
  congr 1
  funext r
  simp only [Function.comp, updateWhere_keeps hg r]

/-- The expiry of leases occupies no slot. -/
theorem holdingCount_expireLeases : holdingCount (expireLeases now rows) ≤ holdingCount rows := by
  calc holdingCount (expireLeases now rows)
      ≤ holdingCount (quarantineExpired now (dropStaleWaiters now rows)) := filter_sublist.countP_le
    _ = holdingCount (dropStaleWaiters now rows) := holdingCount_updateWhere fun _ => rfl
    _ ≤ holdingCount rows := filter_sublist.countP_le

/-- Two rows of one token are the same row. -/
theorem LeaseTable.UniqueTokens.eq {s : LeaseRow} (hT : T.UniqueTokens) (hr : r ∈ T.rows)
    (hs : s ∈ T.rows) (htoken : r.token = s.token) : r = s :=
  inj_on_of_nodup_map hT hr hs htoken

theorem LeaseTable.insert_unique {row : ℕ → LeaseRow} (h : T.insert row = some T')
    (hT : T.UniqueTokens) : T'.UniqueTokens := by
  obtain ⟨hnew, hrows⟩ := LeaseTable.insert_eq_some h
  unfold LeaseTable.UniqueTokens
  rw [hrows]
  exact nodup_map_append hT hnew

/-- The waiting row of a claim: the one it had, or a new one. -/
def RefreshedRow (cfg : SchedulerConfig) (now : ℕ) (token : Token) (info : WaiterMeta)
    (T : LeaseTable) (r : LeaseRow) : Prop :=
  (∃ s ∈ T.rows, s.token = token ∧ s.state = .waiting ∧
    r = { s with leaseExpiresAt := now + cfg.waitLeaseMs }) ∨
  r = waiterRow cfg now token info T.nextId

theorem RefreshedRow.token_eq (h : RefreshedRow cfg now token info T r) : r.token = token := by
  rcases h with ⟨s, _, htoken, _, rfl⟩ | rfl
  · exact htoken
  · rfl

/-- A claim waits with a row of its own and touches no other. -/
theorem refreshWaiter_spec {id : ℕ} {requeued : Bool}
    (h : refreshWaiter cfg now token info T = some (T', id, requeued)) (hT : T.UniqueTokens) :
    T'.UniqueTokens ∧ holdingCount T'.rows = holdingCount T.rows ∧
      (∀ r, r.token ≠ token → (r ∈ T'.rows ↔ r ∈ T.rows)) ∧
      ∃ r ∈ T'.rows, RefreshedRow cfg now token info T r := by
  unfold refreshWaiter at h
  split at h
  · next w hw =>
    have hwaits := find?_some hw
    have hmem := mem_of_find?_eq_some hw
    obtain ⟨htoken, hstate⟩ := Bool.and_eq_true_iff.mp hwaits
    obtain ⟨rfl, -, -⟩ := by simpa using h
    refine ⟨nodup_map_update (updateWhere_keeps fun _ => rfl) hT,
      holdingCount_updateWhere fun _ => rfl, ?_, ?_⟩
    · intro r hne
      rw [mem_map_updateWhere]
      constructor
      · rintro (⟨s, _, hs, rfl⟩ | ⟨hr, _⟩)
        · have hstoken : s.token = token := by simpa using (Bool.and_eq_true_iff.mp hs).1
          exact absurd hstoken hne
        · exact hr
      · intro hr
        exact Or.inr ⟨hr, by simp [hne]⟩
    · refine ⟨_, mem_map_updateWhere.mpr (Or.inl ⟨w, hmem, hwaits, rfl⟩), Or.inl ⟨w, hmem, ?_⟩⟩
      exact ⟨by simpa using htoken, by simpa using hstate, rfl⟩
  · obtain ⟨T₁, hinsert, heq⟩ := Option.map_eq_some_iff.mp h
    obtain ⟨rfl, -, -⟩ := by simpa using heq
    obtain ⟨hnew, hrows⟩ := LeaseTable.insert_eq_some hinsert
    refine ⟨LeaseTable.insert_unique hinsert hT, ?_, ?_, ?_⟩
    · rw [hrows, holdingCount, countP_append]
      simp [waiterRow, holdingCount]
    · intro r hne
      rw [hrows, mem_append, mem_singleton]
      constructor
      · rintro (hr | rfl)
        · exact hr
        · exact absurd rfl hne
      · exact Or.inl
    · exact ⟨_, by rw [hrows]; exact mem_append_right _ (mem_singleton.mpr rfl), Or.inr rfl⟩

/-- A granted row. -/
def LeaseRow.granted (cfg : SchedulerConfig) (now : ℕ) (r : LeaseRow) : LeaseRow :=
  { r with state := .holding, acquiredAt := some now, leaseExpiresAt := now + cfg.holdLeaseMs }

/-- What a claim that commits leaves: expired rows apart, the rows of the others, and its own
row, which holds a slot when there was one left. -/
theorem tryClaim_spec {view : ClaimView}
    (h : tryClaim cfg now token capacity info T = some (T', view)) (hT : T.UniqueTokens) :
    T'.UniqueTokens ∧ (∀ r, r.token ≠ token → (r ∈ T'.rows ↔ r ∈ expireLeases now T.rows)) ∧
      ∃ w, RefreshedRow cfg now token info { T with rows := expireLeases now T.rows } w ∧
        ((view.acquired = false ∧ w ∈ T'.rows ∧
            holdingCount T'.rows = holdingCount (expireLeases now T.rows)) ∨
          (view.acquired = true ∧ w.granted cfg now ∈ T'.rows ∧
            holdingCount (expireLeases now T.rows) < capacity ∧
            holdingCount T'.rows ≤ holdingCount (expireLeases now T.rows) + 1)) := by
  obtain ⟨⟨T₁, id, requeued⟩, hrefresh, heq⟩ := Option.map_eq_some_iff.mp h
  have hexpired : LeaseTable.UniqueTokens { T with rows := expireLeases now T.rows } :=
    hT.sublist map_token_expireLeases_sublist
  obtain ⟨hunique, hcount, hothers, w, hw, hrefreshed⟩ := refreshWaiter_spec hrefresh hexpired
  dsimp only at heq
  split at heq
  · next hroom =>
    obtain ⟨rfl, rfl⟩ := Prod.ext_iff.mp heq
    have hroom : holdingCount T₁.rows < capacity := by
      have hle := Nat.le_add_right (holdingCount T₁.rows) (aheadCount id T₁.rows)
      exact Nat.lt_of_le_of_lt hle hroom
    refine ⟨nodup_map_update (updateWhere_keeps fun _ => rfl) hunique, ?_,
      w, hrefreshed, Or.inr ⟨rfl, ?_, by rwa [hcount] at hroom, ?_⟩⟩
    · intro r hne
      rw [← hothers r hne]
      rw [grantLease, mem_map_updateWhere]
      constructor
      · rintro (⟨s, _, hs, rfl⟩ | ⟨hr, _⟩)
        · exact absurd (by simpa using hs) hne
        · exact hr
      · exact fun hr => Or.inr ⟨hr, by simp [hne]⟩
    · exact mem_map_updateWhere.mpr (Or.inl ⟨w, hw, by simp [hrefreshed.token_eq], rfl⟩)
    · rw [← hcount]
      exact countP_updateWhere_le hunique token (fun r hr => by simpa using hr) _ _
  · obtain ⟨rfl, rfl⟩ := Prod.ext_iff.mp heq
    exact ⟨hunique, hothers, w, hrefreshed, Or.inl ⟨rfl, hw, hcount⟩⟩

/-- Slots are granted within the capacity. -/
theorem tryClaim_holdingCount {view : ClaimView}
    (h : tryClaim cfg now token capacity info T = some (T', view)) (hT : T.UniqueTokens)
    (hcount : holdingCount T.rows ≤ capacity) : holdingCount T'.rows ≤ capacity := by
  have hexpire : holdingCount (expireLeases now T.rows) ≤ holdingCount T.rows :=
    holdingCount_expireLeases
  obtain ⟨-, -, w, -, ⟨-, -, heq⟩ | ⟨-, -, hroom, hle⟩⟩ := tryClaim_spec h hT
  · omega
  · omega

end TalonHound.InferenceScheduler
