import TalonHound.Library.Run
import TalonHound.ThreatJobs.Job

/-!
# The fenced database handle

The worker that owns a job sends its statements through the handle of its mode, one at a time on
each connection, while other workers claim the job, a recovery takes it and requesters update
it. A statement on the row of the job waits while an open transaction holds its lock, so the
steps of the others take place only while no connection of the worker holds it.
-/

namespace TalonHound.ThreatJobs

/-- An open transaction. -/
structure Txn where
  /-- Its `NOW()`. -/
  begunAt : ℕ
  /-- What it wrote. -/
  written : List Statement
  /-- The savepoints, newest first, each with the number of writes before it. -/
  savepoints : List (List Char × ℕ)
  /-- A statement failed. -/
  aborted : Bool

namespace Txn

def start (now : ℕ) : Txn := ⟨now, [], [], false⟩

def write (stmt : Statement) (t : Txn) : Txn := { t with written := t.written ++ [stmt] }

def savepoint (name : List Char) (t : Txn) : Txn :=
  { t with savepoints := (name, t.written.length) :: t.savepoints }

/-- `ROLLBACK TO SAVEPOINT`; without such a savepoint it is an error. -/
def rollbackTo (name : List Char) (t : Txn) : Txn :=
  match t.savepoints.find? fun p => p.1 = name with
  | some p => { t with
      written := t.written.take p.2
      savepoints := t.savepoints.dropWhile fun q => q.1 ≠ name
      aborted := false }
  | none => { t with aborted := true }

/-- `RELEASE SAVEPOINT`. -/
def release (name : List Char) (t : Txn) : Txn :=
  match t.savepoints.find? fun p => p.1 = name with
  | some _ => { t with savepoints := (t.savepoints.dropWhile fun q => q.1 ≠ name).tail }
  | none => { t with aborted := true }

end Txn

/-- The handle that a job mode runs on. -/
inductive Handle where
  | fenced | pool
  deriving DecidableEq

/-- `runAnalysisPipeline` and `runExtractionRefresh` make a fenced handle, and `runIocSourceJob`
uses the pool. -/
def JobMode.handle : JobMode → Handle
  | .analyze => .fenced
  | .retry => .fenced
  | .rerunAi => .fenced
  | .refreshExtraction => .fenced
  | .inspectIocSource => .pool
  | .extractIocSource => .pool

/-- Where the client goes after `inFencedTransaction`: back to the pool, or to the helper that
holds it. -/
inductive Back where
  | toPool | toHelper
  deriving DecidableEq

/-- What follows the fence. -/
inductive AfterFence where
  /-- `BEGIN` on a wrapped client. -/
  | helper
  /-- A statement that is its own transaction. -/
  | single (stmt : Statement) (back : Back)
  /-- The callback of `transaction`. -/
  | callback
  deriving DecidableEq

/-- What the worker does with a connection. -/
inductive Conn where
  | inPool
  /-- A helper holds the client of `connect`; the flag is `inTxn`. -/
  | helper (inTxn : Bool)
  /-- `BEGIN` was sent, and `lockFence` is next. -/
  | fencing (next : AfterFence)
  | single (stmt : Statement) (back : Back)
  | committing (back : Back)
  | callback
  /-- The connection broke; the client is still held. -/
  | broken
  deriving DecidableEq

def Back.conn : Back → Conn
  | toPool => .inPool
  | toHelper => .helper false

/-- Whose statement was committed: one of the run, or one that the worker sends when the run is
over. -/
inductive Origin where
  | run | afterRun
  deriving DecidableEq

/-- A committed write. It is late when the row had a new owner, or had left `running`, before
the commit. -/
structure Committed where
  stmt : Statement
  origin : Origin
  late : Bool
  deriving DecidableEq

/-- The row of a job, the connections and the run. -/
structure FenceState where
  mode : JobMode
  job : JobRow
  /-- The connection that holds the lock of the row. -/
  holder : Option ℕ
  txns : ℕ → Option Txn
  conns : ℕ → Conn
  committed : List Committed
  /-- The row had another owner, or had left `running`, at some time. -/
  displaced : Bool
  /-- The run is over. -/
  finished : Bool

/-- The worker took the job. -/
def FenceState.initial (mode : JobMode) (job : JobRow) : FenceState where
  mode := mode
  job := job
  holder := none
  txns := fun _ => none
  conns := fun _ => .inPool
  committed := []
  displaced := false
  finished := false

namespace FenceState

def setConn (s : FenceState) (k : ℕ) (c : Conn) : FenceState :=
  { s with conns := Function.update s.conns k c }

def setTxn (s : FenceState) (k : ℕ) (t : Option Txn) : FenceState :=
  { s with txns := Function.update s.txns k t }

/-- The row of the job changes. -/
def setJob (token : OwnerToken) (s : FenceState) (job : JobRow) : FenceState :=
  { s with job := job, displaced := s.displaced || !job.ownedBy token }

/-- The row after a write. -/
def applyPatch (now : ℕ) (j : JobRow) (stmt : Statement) : JobRow :=
  match stmt.patch with
  | some p => j.patched now p
  | none => j

/-- Writes take effect. -/
def take (token : OwnerToken) (origin : Origin) (now : ℕ) (writes : List Statement)
    (s : FenceState) : FenceState :=
  let s' := s.setJob token (writes.foldl (applyPatch now) s.job)
  { s' with committed := s.committed ++ writes.map fun w => Committed.mk w origin s.displaced }

/-- `BEGIN`; inside a transaction it does nothing. -/
def beginTxn (now k : ℕ) (s : FenceState) : FenceState :=
  match s.txns k with
  | some _ => s
  | none => s.setTxn k (some (.start now))

/-- The transaction of a connection is gone. -/
def dropTxn (k : ℕ) (s : FenceState) : FenceState :=
  { s.setTxn k none with holder := if s.holder = some k then none else s.holder }

/-- `COMMIT`; a failed transaction rolls back. -/
def commitTxn (token : OwnerToken) (k : ℕ) (s : FenceState) : FenceState :=
  match s.txns k with
  | some t =>
    if t.aborted then s.dropTxn k else (s.dropTxn k).take token .run t.begunAt t.written
  | none => s

/-- A change of the transaction of a connection, when there is one. -/
def updateTxn (k : ℕ) (f : Txn → Txn) (s : FenceState) : FenceState :=
  match s.txns k with
  | some t => s.setTxn k (some (f t))
  | none => s

/-- The database runs a statement on rows; `none` while it waits for the lock of the row. -/
def exec (token : OwnerToken) (now k : ℕ) (stmt : Statement) (s : FenceState) :
    Option FenceState :=
  if stmt.verb.writes then
    if stmt.patch.isSome && s.holder.any (· ≠ k) then none
    else
      match s.txns k with
      | some t =>
        if t.aborted then some s
        else some { s.setTxn k (some (t.write stmt)) with
          holder := if stmt.patch.isSome then some k else s.holder }
      | none => some (s.take token .run now [stmt])
  else some s

/-- The database runs what a client sends. -/
def execSql (token : OwnerToken) (now k : ℕ) (s : FenceState) : Sql → Option FenceState
  | .control .begin => some (s.beginTxn now k)
  | .control .commit => some (s.commitTxn token k)
  | .control .rollback => some (s.dropTxn k)
  | .control (.savepoint name) => some (s.updateTxn k (Txn.savepoint name))
  | .control (.rollbackTo name) => some (s.updateTxn k (Txn.rollbackTo name))
  | .control (.release name) => some (s.updateTxn k (Txn.release name))
  | .statement stmt => s.exec token now k stmt

/-- `query` of the client that `connect` gives. -/
def clientQuery (token : OwnerToken) (now k : ℕ) (inTxn : Bool) (s : FenceState) (sql : Sql) :
    Option FenceState :=
  match s.mode.handle with
  | .pool => s.execSql token now k sql
  | .fenced =>
    if beginRe sql.text then
      (s.execSql token now k sql).map fun s => s.setConn k (.fencing .helper)
    else if endRe sql.text then
      (s.execSql token now k sql).map fun s => s.setConn k (.helper false)
    else
      match sql with
      | .statement stmt =>
        if !inTxn && writeRe sql.text then
          some ((s.beginTxn now k).setConn k (.fencing (.single stmt .toHelper)))
        else s.exec token now k stmt
      | .control _ => s.execSql token now k sql

/-- `query` of the handle. -/
def handleQuery (token : OwnerToken) (now k : ℕ) (s : FenceState) (stmt : Statement) :
    Option FenceState :=
  match s.mode.handle with
  | .pool => s.exec token now k stmt
  | .fenced =>
    if writeRe stmt.text then
      some ((s.beginTxn now k).setConn k (.fencing (.single stmt .toPool)))
    else s.exec token now k stmt

/-- The fence confirmed the owner. -/
def afterFence (k : ℕ) (s : FenceState) : AfterFence → FenceState
  | .helper => s.setConn k (.helper true)
  | .single stmt back => s.setConn k (.single stmt back)
  | .callback => s.setConn k .callback

/-- The fence found no row, or failed: the transaction rolls back. -/
def failFence (k : ℕ) (s : FenceState) : AfterFence → FenceState
  | .helper => (s.dropTxn k).setConn k (.helper false)
  | .single _ back => (s.dropTxn k).setConn k back.conn
  | .callback => (s.dropTxn k).setConn k .inPool

end FenceState

/-- What may happen next. -/
inductive FenceAction where
  | query (now k : ℕ) (stmt : Statement)
  | connect (k : ℕ)
  | clientQuery (now k : ℕ) (sql : Sql)
  | clientRelease (k : ℕ)
  | transaction (now k : ℕ)
  | fence (k : ℕ)
  /-- The statement of `inFencedTransaction`. -/
  | single (now k : ℕ)
  | commit (k : ℕ)
  /-- The callback of `transaction` sends a statement, or is done. -/
  | callback (now k : ℕ) (stmt : Statement)
  | callbackDone (k : ℕ)
  /-- The statement that the connection waits for, or the callback, fails. -/
  | fails (k : ℕ)
  | disconnect (k : ℕ)
  /-- `runThreatLibraryJob` is done with the handle. -/
  | finish
  /-- What the worker sends through the pool then: the discovery of IOC sources, the status of a
  report it handed back, an automatic retry. -/
  | afterRun (now : ℕ) (stmt : Statement)
  | heartbeat (now : ℕ)
  | requeue
  | claim (now : ℕ) (token : OwnerToken) (bullmqJobId : Option ℕ)
  | recover (now : ℕ)
  /-- `updateJob` by a requester, a dispatch pass or a cancellation. -/
  | update (now : ℕ) (patch : JobPatch)

open FenceState in
/-- One step of the owner `token` or of another; `none` when the action is not possible. -/
def fenceStep (token : OwnerToken) (s : FenceState) : FenceAction → Option FenceState
  | .query now k stmt => if s.conns k = .inPool then s.handleQuery token now k stmt else none
  | .connect k => if s.conns k = .inPool then some (s.setConn k (.helper false)) else none
  | .clientQuery now k sql =>
    match s.conns k with
    | .helper inTxn => s.clientQuery token now k inTxn sql
    | _ => none
  | .clientRelease k =>
    match s.conns k with
    | .helper _ => if s.txns k = none then some (s.setConn k .inPool) else none
    | .broken => some (s.setConn k .inPool)
    | _ => none
  | .transaction now k =>
    if s.conns k = .inPool ∧ s.mode.handle = .fenced then
      some ((s.beginTxn now k).setConn k (.fencing .callback))
    else none
  | .fence k =>
    match s.conns k with
    | .fencing next =>
      if s.holder.any (· ≠ k) then none
      else if s.job.ownedBy token then some ({ s with holder := some k }.afterFence k next)
      else some (s.failFence k next)
    | _ => none
  | .single now k =>
    match s.conns k with
    | .single stmt back => (s.exec token now k stmt).map fun s => s.setConn k (.committing back)
    | _ => none
  | .commit k =>
    match s.conns k with
    | .committing back => some ((s.commitTxn token k).setConn k back.conn)
    | _ => none
  | .callback now k stmt => if s.conns k = .callback then s.exec token now k stmt else none
  | .callbackDone k =>
    if s.conns k = .callback then some ((s.commitTxn token k).setConn k .inPool) else none
  | .fails k =>
    match s.conns k with
    | .helper _ => some (s.updateTxn k fun t => { t with aborted := true })
    | .fencing next => some (s.failFence k next)
    | .single _ back => some ((s.dropTxn k).setConn k back.conn)
    | .committing back => some ((s.dropTxn k).setConn k back.conn)
    | .callback => some ((s.dropTxn k).setConn k .inPool)
    | _ => none
  | .disconnect k => some ((s.dropTxn k).setConn k
      (if s.conns k = .inPool then .inPool else .broken))
  | .finish => some { s with finished := true }
  | .afterRun now stmt =>
    if s.finished = true ∧ stmt.verb.writes = true ∧ stmt.patch = none then
      some (s.take token .afterRun now [stmt])
    else none
  | .heartbeat now =>
    if s.holder = none then some (s.setJob token (s.job.heartbeat now token).1) else none
  | .requeue => if s.holder = none then some (s.setJob token (s.job.requeue token)) else none
  | .claim now other bullmqJobId =>
    if s.holder = none ∧ other ≠ token ∧ s.job.claimable jobOwnerStaleMs now other = true then
      some (s.setJob token (s.job.claimed now other bullmqJobId))
    else none
  | .recover now =>
    if s.holder = none ∧ s.job.recoverable jobOwnerStaleMs now = true then
      some (s.setJob token s.job.recovered)
    else none
  | .update now patch =>
    if s.holder = none ∧ patch.status ≠ some .running then
      some (s.setJob token (s.job.patched now patch))
    else none

end TalonHound.ThreatJobs
