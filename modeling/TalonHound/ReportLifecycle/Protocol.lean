import TalonHound.Library.RowVersions
import TalonHound.Library.Run
import TalonHound.ReportLifecycle.Candidate

/-!
# The report lifecycle lock

The transactions on one report, statement by statement. `FOR UPDATE` on the report excludes every
other lock on it, `FOR KEY SHARE` excludes `FOR UPDATE` only. A statement that has to wait for a
lock is not possible yet.
-/

namespace TalonHound.ReportLifecycle

/-- A transaction. -/
abbrev Tid := ℕ

/-- The ids that the rows of a run get. -/
structure RowIds where
  (candidates sources : List ℕ)

/-- A transaction under `lockReportForFinalize`, and what its statements have read. -/
structure Exclusive where
  /-- Refresh extraction: it writes candidates too, and always a status. -/
  refresh : Bool
  /-- Whether `pendingObligationIds` found nothing. -/
  pendingRead : Option Bool
  /-- The open sources. -/
  sourcesRead : Option (List ℕ)
  /-- The status to come, and the sources that an audited override covers. -/
  write : Option (AnalysisStatus × List ℕ)
  deriving DecidableEq

/-- A transaction by what it does, and what it has read so far. -/
inductive Txn where
  | closed
  /-- `reconcileReportCandidates` under `lockReportForMutation`, with the report as it read it, the
  obligations before it wrote, and whether they were compared with those after. -/
  | reconcile (reportFinalized : Bool) (before : Option (List ℕ)) (checked : Bool)
  /-- `transitionSource`, `createManualIocSource` or `upsertDiscoveredSources`. -/
  | source (reportFinalized : Bool)
  | exclusive (x : Exclusive)
  deriving DecidableEq

/-- The transaction may write candidates now. -/
def Txn.writesCandidates : Txn → Bool
  | .reconcile reportFinalized before checked => !checked && (!reportFinalized || before.isSome)
  | .exclusive x => x.refresh && x.pendingRead.isNone && x.write.isNone
  | _ => false

/-- Only a source scope writes links; Refresh has the scope of the document. -/
def Txn.writesLinks : Txn → Bool
  | .reconcile reportFinalized before checked => !checked && (!reportFinalized || before.isSome)
  | _ => false

/-- The rows of one report, its locks and its transactions. -/
structure ReportState where
  status : AnalysisStatus
  candidates : ℕ → Cell Tid Candidate
  /-- The rows of `threat_report_candidate_source_links`, by candidate and source. -/
  links : ℕ → ℕ → Cell Tid Unit
  sources : ℕ → Cell Tid SourceStatus
  txns : Tid → Txn
  /-- The holders of `FOR KEY SHARE`. -/
  sharers : List Tid
  /-- The holder of `FOR UPDATE`. -/
  exclusive : Option Tid
  /-- The sources that the override of the last finalization covers. -/
  covered : List ℕ
  /-- The candidates that a confirmed Create IOCs has read and not yet linked. -/
  creating : List ℕ

/-- A report without rows. -/
def ReportState.initial : ReportState where
  status := .pending
  candidates := fun _ => .empty
  links := fun _ _ => .empty
  sources := fun _ => .empty
  txns := fun _ => .closed
  sharers := []
  exclusive := none
  covered := []
  creating := []

/-- The rows that a statement sees. -/
structure Snapshot where
  candidates : ℕ → Option Candidate
  links : ℕ → ℕ → Option Unit
  sources : ℕ → Option SourceStatus

namespace Snapshot

variable (ids : RowIds) (v : Snapshot)

/-- The candidate has a link. -/
def linked (id : ℕ) : Bool := ids.sources.any fun source => (v.links id source).isSome

/-- `pendingObligationIds`. -/
def pendingIds : List ℕ :=
  ids.candidates.filter fun id => (v.candidates id).any (Candidate.isPending (v.linked ids id))

/-- The sources in `LINKED_SOURCE_OPEN_STATUSES`. -/
def openSources : List ℕ := ids.sources.filter fun id => (v.sources id).any SourceStatus.isOpen

end Snapshot

namespace ReportState

/-- What everyone sees. -/
def committed (s : ReportState) : Snapshot where
  candidates := fun id => (s.candidates id).current
  links := fun id source => (s.links id source).current
  sources := fun id => (s.sources id).current

/-- What a transaction sees: its own writes too. -/
def view (t : Tid) (s : ReportState) : Snapshot where
  candidates := fun id => (s.candidates id).view t
  links := fun id source => (s.links id source).view t
  sources := fun id => (s.sources id).view t

/-- Another version of a candidate. -/
def setCandidate (id : ℕ) (c : Cell Tid Candidate) (s : ReportState) : ReportState :=
  { s with candidates := Function.update s.candidates id c }

/-- Other versions of the links. -/
def setLinks (links : ℕ → ℕ → Cell Tid Unit) (s : ReportState) : ReportState :=
  { s with links := links }

/-- Another version of a source. -/
def setSource (id : ℕ) (c : Cell Tid SourceStatus) (s : ReportState) : ReportState :=
  { s with sources := Function.update s.sources id c }

/-- The transaction goes on. -/
def setTxn (t : Tid) (x : Txn) (s : ReportState) : ReportState :=
  { s with txns := Function.update s.txns t x }

/-- The transaction ends and releases its lock on the report. -/
def close (t : Tid) (s : ReportState) : ReportState :=
  { s with
    txns := Function.update s.txns t .closed
    sharers := s.sharers.filter (· ≠ t)
    exclusive := if s.exclusive = some t then none else s.exclusive }

/-- The rows that the transaction wrote take effect. -/
def commitRows (t : Tid) (s : ReportState) : ReportState :=
  { s with
    candidates := fun id => (s.candidates id).commit t
    links := fun id source => (s.links id source).commit t
    sources := fun id => (s.sources id).commit t }

/-- Its rows are dropped, and its locks. -/
def rollback (t : Tid) (s : ReportState) : ReportState :=
  { s with
    candidates := fun id => (s.candidates id).rollback t
    links := fun id source => (s.links id source).rollback t
    sources := fun id => (s.sources id).rollback t }.close t

/-- The status that an exclusive transaction wrote takes effect. -/
def commitStatus (x : Exclusive) (s : ReportState) : ReportState :=
  match x.write with
  | some (status, covered) => { s with status := status, covered := covered }
  | none => s

/-- `DELETE FROM threat_report_candidate_source_links WHERE source_id = $1`. -/
def dropLinks (ids : RowIds) (t : Tid) (source : ℕ) (s : ReportState) : ReportState :=
  s.setLinks fun id src =>
    if src = source ∧ id ∈ ids.candidates ∧ ((s.links id src).view t).isSome = true then
      (s.links id src).write t none
    else s.links id src

/-- `INSERT INTO threat_report_candidate_source_links`. -/
def addLink (t : Tid) (id source : ℕ) (s : ReportState) : ReportState :=
  s.setLinks fun i src =>
    if i = id ∧ src = source then (s.links i src).write t (some ()) else s.links i src

end ReportState

/-- The statements, each with its transaction. -/
inductive LifecycleAction where
  | beginReconcile (t : Tid)
  /-- The obligations of a finalized report before the writes. -/
  | readBefore (t : Tid)
  | lockCandidate (t : Tid) (id : ℕ)
  | insertCandidate (t : Tid) (id : ℕ) (row : Candidate)
  | updateCandidate (t : Tid) (id : ℕ) (update : CandidateUpdate)
  | deleteCandidate (t : Tid) (id : ℕ)
  | addLink (t : Tid) (id source : ℕ)
  | dropLinks (t : Tid) (source : ℕ)
  /-- The obligations after the writes: new ones throw `ReportFinalizedError`. -/
  | checkAfter (t : Tid)
  | beginSource (t : Tid)
  | addSource (t : Tid) (source : ℕ)
  | moveSource (t : Tid) (source : ℕ) (a : SourceAction)
  | beginExclusive (t : Tid) (refresh : Bool)
  | readPending (t : Tid)
  | readSources (t : Tid)
  /-- `GUARDED_FINALIZE_SQL`. -/
  | finalize (t : Tid) (sourceOverride : Bool)
  /-- The status write of `restoreReportStatus` and of Refresh extraction. -/
  | restore (t : Tid) (status : AnalysisStatus)
  | reopen (t : Tid)
  | commit (t : Tid)
  | rollback (t : Tid)
  /-- A claim by Refresh, Retry or Rerun AI, or `updateReportStatus` of a run. -/
  | setStatus (status : AnalysisStatus)
  | review (id : ℕ) (a : ReviewAction)
  | promote (id : ℕ)
  | readForCreate (id : ℕ)
  /-- `persistPromotionRow` with an IOC. -/
  | linkToIoc (id iocId : ℕ)

open ReportState in
/-- One step; `none` when the action is not possible. -/
def lifecycleStep (ids : RowIds) (s : ReportState) : LifecycleAction → Option ReportState
  | .beginReconcile t =>
    if s.txns t = .closed ∧ s.exclusive = none then
      some { s.setTxn t (.reconcile s.status.isFinalized none false) with sharers := t :: s.sharers }
    else none
  | .readBefore t =>
    if s.txns t = .reconcile true none false then
      some (s.setTxn t (.reconcile true (some ((s.view t).pendingIds ids)) false))
    else none
  | .lockCandidate t id =>
    if (s.txns t).writesCandidates = true ∧ (s.candidates id).free t = true then
      some (s.setCandidate id ((s.candidates id).lock t))
    else none
  | .insertCandidate t id row =>
    if (s.txns t).writesCandidates = true ∧ id ∈ ids.candidates ∧ s.candidates id = .empty then
      some (s.setCandidate id ((s.candidates id).write t (some row)))
    else none
  | .updateCandidate t id update =>
    match (s.candidates id).view t with
    | some c =>
      if (s.txns t).writesCandidates = true ∧ (s.candidates id).OwnedBy t then
        some (s.setCandidate id ((s.candidates id).write t (some (update.apply c))))
      else none
    | none => none
  | .deleteCandidate t id =>
    if (s.txns t).writesCandidates = true ∧ (s.candidates id).OwnedBy t then
      some (s.setCandidate id ((s.candidates id).write t none))
    else none
  | .addLink t id source =>
    if (s.txns t).writesLinks = true ∧ (s.candidates id).OwnedBy t ∧ source ∈ ids.sources ∧
        (s.links id source).free t = true then
      some (s.addLink t id source)
    else none
  | .dropLinks t source =>
    if (s.txns t).writesLinks = true ∧ ∀ id ∈ ids.candidates,
        ((s.links id source).view t).isSome = true → (s.links id source).free t = true then
      some (s.dropLinks ids t source)
    else none
  | .checkAfter t =>
    match s.txns t with
    | .reconcile true (some before) false =>
      if ∀ id ∈ (s.view t).pendingIds ids, id ∈ before then
        some (s.setTxn t (.reconcile true (some before) true))
      else some (s.rollback t)
    | _ => none
  | .beginSource t =>
    if s.txns t = .closed ∧ s.exclusive = none then
      some { s.setTxn t (.source s.status.isFinalized) with sharers := t :: s.sharers }
    else none
  | .addSource t source =>
    if s.txns t = .source false ∧ source ∈ ids.sources ∧ (s.sources source).free t = true then
      some (s.setSource source
        ((s.sources source).write t (some (readded ((s.sources source).view t)))))
    else none
  | .moveSource t source a =>
    match s.txns t, (s.sources source).view t with
    | .source reportFinalized, some status =>
      match transitioned reportFinalized status a with
      | some status' =>
        if (s.sources source).free t = true then
          some (s.setSource source ((s.sources source).write t (some status')))
        else none
      | none => none
    | _, _ => none
  | .beginExclusive t refresh =>
    if s.txns t = .closed ∧ s.exclusive = none ∧ s.sharers = [] then
      some { s.setTxn t (.exclusive ⟨refresh, none, none, none⟩) with exclusive := some t }
    else none
  | .readPending t =>
    match s.txns t with
    | .exclusive x => some (s.setTxn t
        (.exclusive { x with pendingRead := some ((s.view t).pendingIds ids).isEmpty }))
    | _ => none
  | .readSources t =>
    match s.txns t with
    | .exclusive x => some (s.setTxn t
        (.exclusive { x with sourcesRead := some ((s.view t).openSources ids) }))
    | _ => none
  | .finalize t sourceOverride =>
    match s.txns t with
    | .exclusive ⟨false, pendingRead, some sources, none⟩ =>
      if s.status.finalizeAllowed = true ∧ s.status.isFinalized = false ∧
          (s.view t).pendingIds ids = [] ∧
          (sourceOverride = true ∨ (s.view t).openSources ids = []) then
        some (s.setTxn t (.exclusive ⟨false, pendingRead, some sources,
          some (.ready, if sourceOverride then sources else [])⟩))
      else none
    | _ => none
  | .restore t status =>
    match s.txns t with
    | .exclusive ⟨refresh, some nonePending, some sources, none⟩ =>
      let target := if status.isFinalized && !(nonePending && sources.isEmpty) then
        .reviewRequired else status
      some (s.setTxn t (.exclusive ⟨refresh, some nonePending, some sources, some (target, [])⟩))
    | _ => none
  | .reopen t =>
    match s.txns t with
    | .exclusive ⟨false, pendingRead, sourcesRead, none⟩ =>
      if s.status.isFinalized = true then
        some (s.setTxn t (.exclusive ⟨false, pendingRead, sourcesRead, some (.reviewRequired, [])⟩))
      else none
    | _ => none
  | .commit t =>
    match s.txns t with
    | .reconcile reportFinalized _ checked =>
      if reportFinalized = true → checked = true then some ((s.commitRows t).close t) else none
    | .source _ => some ((s.commitRows t).close t)
    | .exclusive x =>
      if x.refresh = true → x.write.isSome = true then
        some (((s.commitRows t).commitStatus x).close t)
      else none
    | .closed => none
  | .rollback t => if s.txns t = .closed then none else some (s.rollback t)
  | .setStatus status =>
    if s.exclusive = none ∧ status.isFinalized = false then some { s with status := status }
    else none
  | .review id a =>
    match s.candidates id with
    | ⟨some c, none⟩ =>
      some (s.setCandidate id ⟨some (a.apply (s.committed.linked ids id) c), none⟩)
    | _ => none
  | .promote id =>
    match s.candidates id with
    | ⟨some c, none⟩ => some (s.setCandidate id ⟨some c.promoted, none⟩)
    | _ => none
  | .readForCreate id =>
    match (s.candidates id).current with
    | some c =>
      if c.isCreatable (s.committed.linked ids id) then
        some { s with creating := id :: s.creating }
      else none
    | none => none
  | .linkToIoc id iocId =>
    match s.candidates id with
    | ⟨some c, none⟩ =>
      if id ∈ s.creating then
        some { s.setCandidate id ⟨some (c.linkedToIoc iocId), none⟩ with
          creating := s.creating.erase id }
      else none
    | _ => none

/-- A finalized report has no pending row that awaits review, and no open source but those that its
override covers. -/
def StaysComplete (ids : RowIds) (s : ReportState) : Prop :=
  s.status.isFinalized = true →
    s.committed.pendingIds ids = [] ∧ ∀ source ∈ s.committed.openSources ids, source ∈ s.covered

/-- Create IOCs puts no pending row back in review while the report is finalized or about to be. -/
def PromotesReviewed (ids : RowIds) (s : ReportState) : LifecycleAction → Prop
  | .linkToIoc id iocId =>
    (s.status.isFinalized = false ∧ s.exclusive = none) ∨ ∀ c ∈ (s.candidates id).current,
        (c.linkedToIoc iocId).isPending (s.committed.linked ids id) = true →
          c.isPending (s.committed.linked ids id) = true
  | _ => True

instance (ids : RowIds) (s : ReportState) (a : LifecycleAction) :
    Decidable (PromotesReviewed ids s a) := by
  cases a <;> unfold PromotesReviewed <;> infer_instance

end TalonHound.ReportLifecycle
