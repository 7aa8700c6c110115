import TalonHound.Stix.Pattern

/-!
# Threat Library jobs

A row of `threat_library_jobs`, and the statements of `jobOwnership.js` and
`analysisConcurrency.js` that move one job. Instants are milliseconds, and `now` is the `NOW()`
of the statement.
-/

namespace TalonHound.ThreatJobs

/-- The `crypto.randomUUID()` of a delivery. -/
abbrev OwnerToken := ℕ

/-- `THREAT_LIBRARY_JOB_MODES`. -/
inductive JobMode where
  | analyze | retry | refreshExtraction | rerunAi | inspectIocSource | extractIocSource
  deriving DecidableEq

/-- `REPORT_PIPELINE_JOB_TYPES`. -/
def JobMode.isPipeline : JobMode → Bool
  | .analyze => true
  | .retry => true
  | .refreshExtraction => true
  | .rerunAi => true
  | _ => false

/-- `threat_library_jobs_status_check`. -/
inductive JobStatus where
  | queued | running | completed | failed | cancelled
  deriving DecidableEq

/-- `OCCUPIED_JOB_STATUSES`. -/
def JobStatus.occupied : JobStatus → Bool
  | .queued => true
  | .running => true
  | _ => false

/-- The entry `dispatch` of the column `progress`: what the requester of a job supplied. Nested
objects are kept as their JSON texts. -/
structure Dispatch where
  jobType : Option JobMode
  sourceUrl : Option String
  (resumeAnalysis newAnalysisRun : Bool)
  (restoreStatus membershipPolicy jobPayload : Option String)
  deriving DecidableEq

/-- A row of `threat_library_jobs`. Of `progress` the entry `dispatch` is kept. -/
structure JobRow where
  (id reportId : ℕ)
  jobType : JobMode
  status : JobStatus
  dispatch : Option Dispatch
  jobPayload : String
  bullmqJobId : Option ℕ
  ownerToken : Option OwnerToken
  (heartbeatAt notBefore : Option ℕ)
  createdAt : ℕ
  startedAt : Option ℕ

/-- `JOB_HEARTBEAT_MS`. -/
def jobHeartbeatMs : ℕ := 15000

/-- `JOB_OWNER_STALE_MS`. -/
def jobOwnerStaleMs : ℕ := 120000

namespace JobRow

/-- `COALESCE(heartbeat_at, started_at, created_at)`. -/
def lastSeen (j : JobRow) : ℕ := (j.heartbeatAt.or j.startedAt).getD j.createdAt

/-- The owner stopped refreshing the row. -/
def ownerStale (staleMs now : ℕ) (j : JobRow) : Bool := j.lastSeen + staleMs < now

/-- The `WHERE` of `claimJobOwnership`. -/
def claimable (staleMs now : ℕ) (token : OwnerToken) (j : JobRow) : Bool :=
  j.status.occupied &&
    (j.ownerToken.isNone || j.ownerToken = some token || j.ownerStale staleMs now)

/-- The `SET` of `claimJobOwnership`. -/
def claimed (now : ℕ) (token : OwnerToken) (bullmqJobId : Option ℕ) (j : JobRow) : JobRow :=
  { j with
    ownerToken := some token
    heartbeatAt := some now
    status := .running
    bullmqJobId := bullmqJobId.or j.bullmqJobId
    startedAt := j.startedAt.or (some now) }

/-- The row is run by the owner. -/
def ownedBy (token : OwnerToken) (j : JobRow) : Bool :=
  j.ownerToken = some token && j.status = .running

/-- The heartbeat of `startJobHeartbeat`; the answer says whether a row was updated. -/
def heartbeat (now : ℕ) (token : OwnerToken) (j : JobRow) : JobRow × Bool :=
  if j.ownedBy token then ({ j with heartbeatAt := some now }, true) else (j, false)

/-- `requeueOwnedJob`. -/
def requeue (token : OwnerToken) (j : JobRow) : JobRow :=
  if j.ownedBy token then
    { j with status := .queued, bullmqJobId := none, ownerToken := none, heartbeatAt := none }
  else j

/-- The `WHERE` of the update of a running job in `recoverInterruptedAnalysisJobs`. -/
def recoverable (staleMs now : ℕ) (j : JobRow) : Bool :=
  j.status = .running && (j.ownerToken.isNone || j.ownerStale staleMs now)

/-- Its `SET`. -/
def recovered (j : JobRow) : JobRow :=
  { j with status := .queued, bullmqJobId := none, ownerToken := none, heartbeatAt := none }

end JobRow

/-- The columns that a caller of `updateJob` may give. -/
structure JobPatch where
  status : Option JobStatus
  progress : Option (Option Dispatch)
  bullmqJobId : Option ℕ
  deriving DecidableEq

/-- `updateJob`. -/
def JobRow.patched (now : ℕ) (patch : JobPatch) (j : JobRow) : JobRow :=
  { j with
    status := patch.status.getD j.status
    dispatch := patch.progress.getD j.dispatch
    bullmqJobId := patch.bullmqJobId.or j.bullmqJobId
    startedAt := if patch.status = some .running then j.startedAt.or (some now) else j.startedAt }

/-!
## Statements of a job run

The statements that a run sends, and how `createFencedDb` recognises by their texts what has to
be fenced.
-/

open TalonHound.Stix (isWordChar)

/-- The text after `^\s*`. -/
def unindented (text : List Char) : List Char := text.dropWhile isJsWhitespace

/-- The word there, in upper case. -/
def leadingWord (text : List Char) : List Char := (text.takeWhile isWordChar).map Char.toUpper

/-- The text after the word there. -/
def afterWord (text : List Char) : List Char := text.dropWhile isWordChar

/-- `WRITE_RE`. -/
def writeRe (text : List Char) : Bool :=
  ["INSERT".toList, "UPDATE".toList, "DELETE".toList, "MERGE".toList, "WITH".toList].contains
    (leadingWord (unindented text))

/-- `BEGIN_RE`. -/
def beginRe (text : List Char) : Bool :=
  let word := leadingWord (unindented text)
  let more := afterWord (unindented text)
  word = "BEGIN".toList ||
    (word = "START".toList && more.head?.any isJsWhitespace &&
      leadingWord (unindented more) = "TRANSACTION".toList)

/-- `\s*;?\s*$`. -/
def onlySemicolon (text : List Char) : Bool :=
  match unindented text with
  | ';' :: more => (unindented more).isEmpty
  | more => more.isEmpty

/-- `END_RE`. -/
def endRe (text : List Char) : Bool :=
  ["COMMIT".toList, "END".toList, "ROLLBACK".toList].contains (leadingWord (unindented text)) &&
    onlySemicolon (afterWord (unindented text))

/-- The first word of a statement on rows. -/
inductive Verb where
  | select | insert | update | delete | merge | withQuery
  deriving DecidableEq

namespace Verb

/-- The keyword of a statement. -/
def word : Verb → List Char
  | select => "SELECT".toList
  | insert => "INSERT".toList
  | update => "UPDATE".toList
  | delete => "DELETE".toList
  | merge => "MERGE".toList
  | withQuery => "WITH".toList

/-- The statement may write. -/
def writes : Verb → Bool
  | select => false
  | _ => true

end Verb

/-- A statement on rows: a template literal that starts with blanks and the verb. -/
structure Statement where
  indent : List Char
  verb : Verb
  rest : List Char
  /-- What it does to the row of the job, when it is an `updateJob` of it. -/
  patch : Option JobPatch
  indent_blank : ∀ c ∈ indent, isJsWhitespace c = true
  rest_apart : ∀ c ∈ rest.head?, isWordChar c = false
  patch_writes : patch.isSome = true → verb.writes = true
  deriving DecidableEq

/-- A statement that begins, ends or divides a transaction. -/
inductive Control where
  | begin | commit | rollback
  | savepoint (name : List Char)
  | rollbackTo (name : List Char)
  | release (name : List Char)
  deriving DecidableEq

/-- What a client sends. -/
inductive Sql where
  | control (c : Control)
  | statement (s : Statement)

/-- A statement as it is sent. -/
def Statement.text (s : Statement) : List Char := s.indent ++ (s.verb.word ++ s.rest)

/-- A transaction command as it is sent. -/
def Control.text : Control → List Char
  | begin => "BEGIN".toList
  | commit => "COMMIT".toList
  | rollback => "ROLLBACK".toList
  | savepoint name => "SAVEPOINT ".toList ++ name
  | rollbackTo name => "ROLLBACK TO SAVEPOINT ".toList ++ name
  | release name => "RELEASE SAVEPOINT ".toList ++ name

/-- What is sent. -/
def Sql.text : Sql → List Char
  | control c => c.text
  | statement s => s.text

namespace Statement

/-- The first word of the text is the verb. -/
theorem leadingWord_text (s : Statement) :
    leadingWord (unindented s.text) = s.verb.word := by
  have hdrop : unindented s.text = s.verb.word ++ s.rest := by
    unfold unindented text
    rw [List.dropWhile_append_of_pos s.indent_blank]
    cases s.verb <;> rfl
  have hrest : s.rest.takeWhile isWordChar = [] := by
    cases hr : s.rest with
    | nil => rfl
    | cons c more =>
      have hc := s.rest_apart c (by rw [hr]; rfl)
      rw [List.takeWhile_cons, hc]
      rfl
  have hword : ∀ c ∈ s.verb.word, isWordChar c = true := by
    cases s.verb <;> decide
  unfold leadingWord
  rw [hdrop, List.takeWhile_append_of_pos hword, hrest, List.append_nil]
  cases s.verb <;> rfl

/-- The fence recognises every write. -/
theorem writeRe_text (s : Statement) : writeRe s.text = s.verb.writes := by
  unfold writeRe
  rw [s.leadingWord_text]
  cases s.verb <;> rfl

/-- A statement begins no transaction. -/
theorem beginRe_text (s : Statement) : beginRe s.text = false := by
  unfold beginRe
  rw [s.leadingWord_text]
  cases s.verb <;> rfl

/-- A statement ends no transaction. -/
theorem endRe_text (s : Statement) : endRe s.text = false := by
  unfold endRe
  rw [s.leadingWord_text]
  cases s.verb <;> rfl

end Statement

namespace Control

/-- Among the commands only `BEGIN` begins one. -/
theorem beginRe_text (c : Control) : beginRe c.text = decide (c = begin) := by
  cases c <;> rfl

/-- The fence sees the end of a transaction, and no end where a savepoint is meant. -/
theorem endRe_text (c : Control) : endRe c.text = (decide (c = commit) || decide (c = rollback)) := by
  cases c <;> rfl

end Control

end TalonHound.ThreatJobs
