import TalonHound.Library.Run
import TalonHound.PublishedFeed.Text

/-!
# The lock of a feed sync

`feedSyncLock.js` and the processor of `worker.js`: a sync holds a session advisory lock on a
connection of its own while its import runs, and gives the connection back to the pool.
-/

namespace TalonHound.FeedSync

/-- `feedSyncLockIdentity`. -/
def feedSyncLockIdentity (integrationKey jobName : String) : String :=
  let trimmed := trim (if integrationKey = "" then "unknown" else integrationKey)
  let key := if trimmed = "" then "unknown" else trimmed
  if jobName = "malwarebazaar-historical-recovery" then key ++ "#recovery" else key

/-- The name of the lock. -/
def lockName (identity : String) : String := "talonhound:feed-sync:" ++ identity

/-- A connection of a worker's pool with its database session. -/
structure Connection where
  worker : ℕ
  /-- Its socket works. -/
  usable : Bool
  /-- It is idle in the pool. -/
  pooled : Bool
  /-- The advisory locks of the session. -/
  locks : List ℤ

/-- Where the processor is with a job; the numbers are connections. -/
inductive Stage where
  | connecting
  /-- Before `pg_try_advisory_lock`. -/
  | locking (c : ℕ)
  /-- The lock is acquired; before `markJobRunning`. -/
  | acquired (c : ℕ)
  /-- The import executes, also after a timeout until it ends. -/
  | importing (c : ℕ) (timedOut : Bool)
  /-- Before `pg_advisory_unlock`. -/
  | releasing (c : ℕ)
  | ended
  deriving DecidableEq

/-- The connection that a stage uses. -/
def Stage.connection : Stage → Option ℕ
  | .connecting => none
  | .locking c => some c
  | .acquired c => some c
  | .importing c _ => some c
  | .releasing c => some c
  | .ended => none

/-- The lock is acquired and not released. -/
def Stage.holds : Stage → Bool
  | .acquired _ => true
  | .importing _ _ => true
  | .releasing _ => true
  | _ => false

/-- The import function executes. -/
def Stage.imports : Stage → Bool
  | .importing _ _ => true
  | _ => false

/-- One call of the processor. -/
structure Sync where
  worker : ℕ
  identity : String
  stage : Stage

/-- What is so when a `release()` returns. -/
structure Release where
  identity : String
  /-- No session holds the lock. -/
  free : Bool
  /-- No pooled connection holds the lock. -/
  clean : Bool

/-- All workers and their database sessions. -/
structure LockState where
  connections : List Connection
  syncs : List Sync
  releases : List Release

/-- Nothing has happened. -/
def LockState.empty : LockState := ⟨[], [], []⟩

/-- What happens; syncs and connections are named by their numbers. -/
inductive LockAction where
  /-- A worker takes a job, whatever triggered it. -/
  | trigger (worker : ℕ) (integrationKey jobName : String)
  /-- `pool.connect`: a pooled connection or a new one. -/
  | connect (i : ℕ) (reused : Option ℕ)
  | tryLock (i : ℕ)
  /-- The lock query fails; the session may have taken the lock. -/
  | lockFails (i : ℕ) (taken : Bool)
  /-- `markJobRunning`, outside of the `try` that releases. -/
  | markRunning (i : ℕ) (fails : Bool)
  | timeout (i : ℕ)
  | importEnds (i : ℕ)
  /-- `release()`. -/
  | unlock (i : ℕ) (fails : Bool)
  /-- The socket of a connection breaks. -/
  | breakClient (c : ℕ)
  /-- The database ends a session. -/
  | sessionEnds (c : ℕ)
  | crash (worker : ℕ)

section Step

-- `hashtext`.
variable (hashtext : String → ℤ)

/-- The key of the advisory lock of a sync. -/
def Sync.key (sync : Sync) : ℤ := hashtext (lockName sync.identity)

/-- Another session holds the lock. -/
def LockState.heldElsewhere (s : LockState) (c : ℕ) (key : ℤ) : Bool :=
  s.connections.zipIdx.any fun p => p.2 ≠ c && p.1.locks.contains key

/-- A sync with the connection that it uses. -/
def LockState.withConnection (s : LockState) (i : ℕ) : Option (Sync × ℕ × Connection) :=
  s.syncs[i]?.bind fun sync =>
    sync.stage.connection.bind fun c => s.connections[c]?.map fun x => (sync, c, x)

/-- The sync goes to a stage, and its connection changes. -/
def LockState.move (s : LockState) (i : ℕ) (sync : Sync) (stage : Stage) (c : ℕ)
    (x : Connection) : LockState :=
  { s with
    syncs := s.syncs.set i { sync with stage := stage }
    connections := s.connections.set c x }

/-- The release that is recorded for a lock. -/
def LockState.released (s : LockState) (sync : Sync) : Release where
  identity := sync.identity
  free := s.connections.all fun x => !x.locks.contains (sync.key hashtext)
  clean := s.connections.all fun x => !(x.pooled && x.locks.contains (sync.key hashtext))

/-- `pg_try_advisory_lock`; without the lock the connection goes back to the pool. -/
def LockState.tryLock (s : LockState) (i : ℕ) (sync : Sync) (c : ℕ) (x : Connection) : LockState :=
  if s.heldElsewhere c (sync.key hashtext) then
    s.move i sync .ended c { x with pooled := true }
  else s.move i sync (.acquired c) c { x with locks := sync.key hashtext :: x.locks }

/-- `release()`: the error of the unlock query is swallowed, and a usable connection goes back to
the pool. -/
def LockState.unlock (s : LockState) (i : ℕ) (sync : Sync) (c : ℕ) (x : Connection)
    (fails : Bool) : LockState :=
  let locks := if x.usable && !fails then x.locks.erase (sync.key hashtext) else x.locks
  let moved := s.move i sync .ended c { x with pooled := x.usable, locks := locks }
  { moved with releases := s.releases ++ [moved.released hashtext sync] }

/-- The connection that `pool.connect` gives to a worker. -/
def LockState.connect (s : LockState) (i : ℕ) (sync : Sync) (reused : Option ℕ) :
    Option LockState :=
  match reused with
  | none => some { s with
      syncs := s.syncs.set i { sync with stage := .locking s.connections.length }
      connections := s.connections ++ [⟨sync.worker, true, false, []⟩] }
  | some c =>
    s.connections[c]?.bind fun x =>
      if x.pooled && x.usable && x.worker = sync.worker then
        some (s.move i sync (.locking c) c { x with pooled := false })
      else none

/-- A session or a socket of a connection is gone. -/
def Connection.close (x : Connection) (sessionEnded : Bool) : Connection :=
  { x with usable := false, pooled := false, locks := if sessionEnded then [] else x.locks }

/-- One step. -/
def lockStep (s : LockState) : LockAction → Option LockState
  | .trigger worker integrationKey jobName => some { s with
      syncs := s.syncs ++ [⟨worker, feedSyncLockIdentity integrationKey jobName, .connecting⟩] }
  | .connect i reused =>
    s.syncs[i]?.bind fun sync =>
      if sync.stage = .connecting then s.connect i sync reused else none
  | .tryLock i =>
    (s.withConnection i).bind fun (sync, c, x) =>
      if sync.stage = .locking c ∧ x.usable then some (s.tryLock hashtext i sync c x) else none
  | .lockFails i taken =>
    (s.withConnection i).bind fun (sync, c, x) =>
      if sync.stage = .locking c then
        some (s.move i sync .ended c
          { x with
            usable := false
            locks := if taken && x.usable && !s.heldElsewhere c (sync.key hashtext) then
              sync.key hashtext :: x.locks else x.locks })
      else none
  | .markRunning i fails =>
    (s.withConnection i).bind fun (sync, c, x) =>
      if sync.stage = .acquired c then
        some (s.move i sync (if fails then .ended else .importing c false) c x)
      else none
  | .timeout i =>
    (s.withConnection i).bind fun (sync, c, x) =>
      if sync.stage = .importing c false then some (s.move i sync (.importing c true) c x)
      else none
  | .importEnds i =>
    (s.withConnection i).bind fun (sync, c, x) =>
      if sync.stage.imports then some (s.move i sync (.releasing c) c x) else none
  | .unlock i fails =>
    (s.withConnection i).bind fun (sync, c, x) =>
      if sync.stage = .releasing c then some (s.unlock hashtext i sync c x fails) else none
  | .breakClient c =>
    s.connections[c]?.map fun x =>
      { s with connections := s.connections.set c (x.close false) }
  | .sessionEnds c =>
    s.connections[c]?.map fun x =>
      { s with connections := s.connections.set c (x.close true) }
  | .crash worker => some { s with
      syncs := s.syncs.map fun sync =>
        if sync.worker = worker then { sync with stage := .ended } else sync
      connections := s.connections.map fun x =>
        if x.worker = worker then x.close false else x }

end Step

/-- No session ends between the acquisition of a lock on it and its release, and every unlock
query runs. -/
def KeepsSessions (s : LockState) : LockAction → Prop
  | .sessionEnds c => ∀ sync ∈ s.syncs, sync.stage.holds = true → sync.stage.connection ≠ some c
  | .unlock i fails => fails = false ∧ ∀ p ∈ s.withConnection i, p.2.2.usable = true
  | _ => True

instance (s : LockState) (a : LockAction) : Decidable (KeepsSessions s a) := by
  cases a <;> unfold KeepsSessions <;> infer_instance

/-- At most one import per identity executes, and every release leaves the lock free. -/
structure OneSyncAtATime (s : LockState) : Prop where
  exclusive : ∀ (i j : ℕ) (a b : Sync), s.syncs[i]? = some a → s.syncs[j]? = some b →
    a.stage.imports = true → b.stage.imports = true → a.identity = b.identity → i = j
  released : ∀ r ∈ s.releases, r.free = true ∧ r.clean = true

end TalonHound.FeedSync
