import TalonHound.Candidates.Selection
import TalonHound.Candidates.SearchValue
import TalonHound.Library.Run
import Mathlib.Data.Multiset.Basic

/-!
# Create IOCs

The confirmed runs of `reviewService.js` that create the IOC records of approved candidates, one
statement at a time, between the review actions, promotions and reconcile calls that change the
candidates meanwhile.
-/

namespace TalonHound.Candidates

open FileArtifacts (lowerCase)

/-- `CREATABLE_IOC_TYPES`. -/
def creatableIocTypes : List String :=
  ["ip", "ipv6", "domain", "url", "md5", "sha1", "sha256", "cidr"]

/-- `NETWORK_CANDIDATE_TYPES`. -/
def networkCandidateTypes : List String := ["ip", "ipv6", "cidr"]

/-- `iocStorageIdentity`; a value on which it throws has none. -/
def iocStorageIdentity (identity : Identity) : Option StorageIdentity :=
  let type := lowerCase identity.candidateType
  if networkCandidateTypes.contains type then
    match parseZonedObservable identity.normalizedValue with
    | some network =>
      if decide (type = "cidr") = network.isCidr then some network.identity else none
    | none => none
  else some ⟨type, identity.normalizedValue⟩

/-- A row as it is loaded, with its column `has_linked_source_occurrence`. -/
structure LoadedRow where
  row : Row
  linked : Bool

namespace LoadedRow

/-- `isContextOrIgnored`. -/
def isContextOrIgnored (c : LoadedRow) : Bool :=
  !c.row.columns.isIoc ||
    (c.row.columns.reviewStatus = .ignored || c.row.columns.reviewStatus = .contextOnly) ||
    (c.row.columns.assessment = .contextOnly || c.row.columns.assessment = .invalid) ||
    (c.row.columns.matchState = .contextOnly || c.row.columns.matchState = .invalid)

/-- `alreadyHasIocRecord`. -/
def alreadyHasIocRecord (c : LoadedRow) : Bool :=
  c.row.columns.matchedIocId.isSome || c.row.columns.reviewStatus = .createdIoc ||
    c.row.columns.matchState = .existing

/-- `classifyCreateEligibility`; no row has the assessment `benign`. -/
def classifyCreateEligibility (c : LoadedRow) : CreateOutcome :=
  if c.isContextOrIgnored then .notApplicable
  else if !c.row.values.isUnionReportIndicatorMember c.linked then .notApplicable
  else if !creatableIocTypes.contains c.row.values.typeOf then .unsupported
  else if !c.row.values.isAnalystConfirmed then .notApproved
  else if c.alreadyHasIocRecord then .alreadyExisting
  else if (iocStorageIdentity c.row.identity).isNone then .unsupported
  else .willCreate

/-- `ioc_id` and `observable_type` of a row that is not to be created. -/
def storedMatch (c : LoadedRow) : Option (ℕ × String) :=
  if c.classifyCreateEligibility = .alreadyExisting then
    c.row.columns.matchedIocId.map fun id =>
      (id, (orNull c.row.columns.matchedIocObservableType).getD c.row.identity.candidateType)
  else none

end LoadedRow

/-- The outcome that is recorded for a row that is not to be created. -/
def CreateOutcome.recorded : CreateOutcome → Option PromotionOutcome
  | .notApplicable => some .notApplicable
  | .unsupported => some .unsupported
  | .notApproved => some .notApproved
  | .alreadyExisting => some .alreadyExisting
  | .willCreate => none

/-- `canExecutePromotion`. -/
def canExecutePromotion (queue : List LoadedRow) : Bool :=
  queue.any fun c =>
    [CreateOutcome.willCreate, .alreadyExisting, .unsupported].contains c.classifyCreateEligibility

/-- `persistPromotionRow`. -/
def Row.persistPromotion (outcome : PromotionOutcome) (ioc : Option (ℕ × String)) (row : Row) :
    Row :=
  { row with
    promotionOutcome := some outcome
    columns := { row.columns with
      matchedIocId := (ioc.map Prod.fst).or row.columns.matchedIocId
      matchedIocObservableType := (ioc.map Prod.snd).or row.columns.matchedIocObservableType
      matchState := if ioc.isSome then .existing else row.columns.matchState } }

/-- The `UPDATE` of `promoteContextOnlyCandidate`. -/
def Row.promote (promotedFrom : String) (row : Row) : Row :=
  { row with columns := { row.columns with
    reviewStatus := .approved
    assessment := if row.columns.assessment = .malicious ∨ row.columns.assessment = .suspicious then
        row.columns.assessment
      else .suspicious
    role :=
      if ["reference", "legitimate_service", "hosting_platform"].contains row.columns.role then
        "unknown"
      else row.columns.role
    isIoc := true
    matchState := if row.columns.matchedIocId.isSome then .existing else .new
    evidence := { row.columns.evidence with
      promotedFrom := some promotedFrom
      decisionSource := some "analyst"
      policyDecision := some "analyst_promoted_from_context_only" } } }

namespace Report

variable (report : Report)

/-- The row as a statement returns it. -/
def load (row : Row) : LoadedRow := ⟨row, isLinked report.links row⟩

/-- The candidates of a run, in the order of the ids. -/
def loadQueue (ids : List ℕ) : List LoadedRow :=
  ids.filterMap fun id => (Rows.lookup Row.id report.rows id).map report.load

/-- The candidate is approved and eligible in the table. -/
def isEligible (id : ℕ) : Bool :=
  report.rows.any fun row =>
    row.id = id && (report.load row).classifyCreateEligibility = .willCreate

/-- An `UPDATE` of rows. -/
def update (f : Row → Row) : Report := { report with rows := report.rows.map f }

/-- An `UPDATE` of the row of an id. -/
def updateId (id : ℕ) (f : Row → Row) : Report :=
  report.update (Rows.updateWhere (fun row => row.id = id) f)

end Report

/-- A record of `ioc_items`; some are of the Threat Library source. -/
structure IocItem where
  id : ℕ
  identity : StorageIdentity
  isLibrary : Bool

/-- The columns of a selection token, without `updated_at`. -/
structure TokenLine where
  id : ℕ
  reviewStatus : ReportLifecycle.ReviewStatus
  matchState : ReportLifecycle.MatchState
  assessment : ReportLifecycle.Assessment
  promotionOutcome : Option PromotionOutcome
  matchedIocId : Option ℕ
  isIoc : Bool
  deriving DecidableEq

def Row.tokenLine (row : Row) : TokenLine where
  id := row.id
  reviewStatus := row.columns.reviewStatus
  matchState := row.columns.matchState
  assessment := row.columns.assessment
  promotionOutcome := row.promotionOutcome
  matchedIocId := row.columns.matchedIocId
  isIoc := row.columns.isIoc

/-- `selectionScopeToken`; the lines are sorted. -/
def selectionScopeToken (lines : List TokenLine) : Multiset TokenLine := lines

/-- Where a run stands. -/
inductive Stage where
  /-- The selection is loaded. -/
  | scoped (lines : List TokenLine)
  /-- `confirmSelectionSnapshot` has committed. -/
  | confirmed (ids : List ℕ)
  /-- The candidates are loaded and the lock is not taken. -/
  | loaded
  /-- The loop of `runConfirmedCreateIocs` is at the head of the queue. -/
  | visiting
  /-- `findExisting` has found nothing. -/
  | creating
  /-- `createManualIoc` has refused the value. -/
  | duplicate
  /-- An outcome is about to be recorded for the head of the queue. -/
  | settling (outcome : PromotionOutcome) (ioc : Option (ℕ × String))
  | done
  deriving DecidableEq

/-- The run has the lock of its report. -/
def Stage.holds : Stage → Bool
  | visiting => true
  | creating => true
  | duplicate => true
  | settling _ _ => true
  | _ => false

/-- A run; `queue` is its copy of the candidates that are left. -/
structure CreateRun where
  reportId : ℕ
  queue : List LoadedRow
  stage : Stage

/-- The candidates that the run is yet to create or to pass over. -/
def CreateRun.remaining (x : CreateRun) : List LoadedRow :=
  match x.stage with
  | .duplicate => x.queue.tail
  | .settling _ _ => x.queue.tail
  | _ => x.queue

/-- The candidates that the run is yet to create. -/
def CreateRun.awaited (x : CreateRun) : List LoadedRow :=
  x.remaining.filter fun c => c.classifyCreateEligibility = .willCreate

/-- A record that a run has created, and whether its candidate was eligible at that moment. -/
structure Creation where
  (reportId candidateId : ℕ)
  identity : StorageIdentity
  eligible : Bool

/-- The tables, the advisory locks and the runs; `creations` is history. -/
structure ReviewState where
  reports : ℕ → Report
  items : List IocItem
  nextIocId : ℕ
  locks : List ℕ
  runs : List CreateRun
  creations : List Creation

namespace ReviewState

variable (s : ReviewState)

/-- `findIocByTypeAndValue`. -/
def findExisting (k : StorageIdentity) : Option IocItem :=
  if k.type = "" || k.value = "" then none
  else s.items.find? fun item => item.identity = ⟨lowerCase k.type, k.value⟩

/-- A record of the Threat Library source has the identity. -/
def libraryHas (k : StorageIdentity) : Bool :=
  s.items.any fun item => item.isLibrary && item.identity = k

def setRun (i : ℕ) (x : CreateRun) : ReviewState := { s with runs := s.runs.set i x }

def setReport (reportId : ℕ) (report : Report) : ReviewState :=
  { s with reports := Function.update s.reports reportId report }

/-- `createIocsFromCandidates`, before the lock. -/
def loadedRun (reportId : ℕ) (queue : List LoadedRow) : CreateRun :=
  if canExecutePromotion queue then ⟨reportId, queue, .loaded⟩ else ⟨reportId, [], .done⟩

def start (x : CreateRun) : ReviewState := { s with runs := s.runs ++ [x] }

/-- The record that `createManualIoc` inserts. -/
def insertIoc (x : CreateRun) (c : LoadedRow) (k stored : StorageIdentity) : ReviewState :=
  { s with
    items := s.items ++ [⟨s.nextIocId, stored, true⟩]
    nextIocId := s.nextIocId + 1
    creations := s.creations ++
      [⟨x.reportId, c.row.id, k, (s.reports x.reportId).isEligible c.row.id⟩] }

end ReviewState

/-- A step of a run. -/
inductive RunStep where
  | confirm | reload | lock | visit | create | retry | fail | skip | settle | release | crash

/-- What reviewers and the worker do. -/
inductive ReviewAction where
  /-- An explicit selection is loaded. -/
  | load (reportId : ℕ) (ids : List ℕ)
  /-- A selection of all matching candidates is loaded. -/
  | select (reportId : ℕ) (filters : SelectionFilters) (excludedIds : List ℕ)
  | promote (reportId id : ℕ) (promotedFrom : String)
  | advance (i : ℕ) (step : RunStep)
  | changeStatus (reportId : ℕ) (ids : List ℕ) (action : StatusAction)
  | reconcile (reportId : ℕ) (call : Call)

/-- The head of the queue has its outcome recorded, and the loop goes on. -/
def ReviewState.persist (s : ReviewState) (i : ℕ) (x : CreateRun) (c : LoadedRow)
    (rest : List LoadedRow) (outcome : PromotionOutcome) (ioc : Option (ℕ × String)) :
    ReviewState :=
  (s.setReport x.reportId ((s.reports x.reportId).updateId c.row.id
    (Row.persistPromotion outcome ioc))).setRun i ⟨x.reportId, rest, .visiting⟩

/-- The link of `linkExisting`. -/
def IocItem.link (item : IocItem) (k : StorageIdentity) : ℕ × String :=
  (item.id, if item.identity.type = "" then k.type else item.identity.type)

section Steps

-- The identity that `createManualIoc` stores for a value: `resolveCreateStorageIdentity`.
variable (stored : StorageIdentity → StorageIdentity)

/-- The loop at one candidate: its own outcome, or a search for the record. -/
def visitStep (s : ReviewState) (i : ℕ) (x : CreateRun) (c : LoadedRow) (rest : List LoadedRow) :
    Option ReviewState :=
  match c.classifyCreateEligibility.recorded with
  | some outcome => some (s.persist i x c rest outcome c.storedMatch)
  | none => (iocStorageIdentity c.row.identity).map fun k =>
    match s.findExisting k with
    | some item =>
      s.setRun i { x with stage := .settling .alreadyExisting (some (item.link k)) }
    | none => s.setRun i { x with stage := .creating }

/-- `createManualIoc`, which refuses a value that the source has. -/
def createStep (s : ReviewState) (i : ℕ) (x : CreateRun) (c : LoadedRow) :
    Option ReviewState :=
  (iocStorageIdentity c.row.identity).map fun k =>
    if s.libraryHas (stored k) then s.setRun i { x with stage := .duplicate }
    else (s.insertIoc x c k (stored k)).setRun i
      { x with stage := .settling .created (some (s.nextIocId, (stored k).type)) }

/-- The second search after a refusal. -/
def retryStep (s : ReviewState) (i : ℕ) (x : CreateRun) (c : LoadedRow) : Option ReviewState :=
  (iocStorageIdentity c.row.identity).map fun k =>
    match s.findExisting k with
    | some item =>
      s.setRun i { x with stage := .settling .alreadyExisting (some (item.link k)) }
    | none => s.setRun i { x with stage := .settling .failed none }

/-- `applyAllMatchingSelection`, `createIocsFromCandidates` and `runConfirmedCreateIocs`, one
statement at a time. -/
def advance (s : ReviewState) (i : ℕ) (x : CreateRun) : RunStep → Option ReviewState
  | .confirm =>
    match x.stage with
    | .scoped lines =>
      let ids := lines.map TokenLine.id
      let rows := (s.reports x.reportId).rows.filter fun row => ids.contains row.id
      if selectionScopeToken (rows.map Row.tokenLine) = selectionScopeToken lines then
        some (s.setRun i { x with stage := .confirmed ids })
      else some (s.setRun i { x with stage := .done })
    | _ => none
  | .reload =>
    match x.stage with
    | .confirmed ids => some (s.setRun i
      (ReviewState.loadedRun x.reportId ((s.reports x.reportId).loadQueue ids)))
    | _ => none
  | .lock =>
    if x.stage ≠ .loaded then none
    else if s.locks.contains x.reportId then some (s.setRun i ⟨x.reportId, [], .done⟩)
    else some ({ s with locks := x.reportId :: s.locks }.setRun i { x with stage := .visiting })
  | .visit =>
    match x.stage, x.queue with
    | .visiting, c :: rest => visitStep s i x c rest
    | _, _ => none
  | .create =>
    match x.stage, x.queue with
    | .creating, c :: _ => createStep stored s i x c
    | _, _ => none
  | .retry =>
    match x.stage, x.queue with
    | .duplicate, c :: _ => retryStep s i x c
    | _, _ => none
  | .fail =>
    -- An error of a candidate is caught and recorded.
    match x.stage with
    | .creating => some (s.setRun i { x with stage := .settling .failed none })
    | .duplicate => some (s.setRun i { x with stage := .settling .failed none })
    | .settling _ _ => some (s.setRun i { x with stage := .settling .failed none })
    | _ => none
  | .skip =>
    -- So is an error of the recording.
    match x.stage, x.queue with
    | .settling .failed none, _ :: rest => some (s.setRun i ⟨x.reportId, rest, .visiting⟩)
    | _, _ => none
  | .settle =>
    match x.stage, x.queue with
    | .settling outcome ioc, c :: rest => some (s.persist i x c rest outcome ioc)
    | _, _ => none
  | .release =>
    match x.stage, x.queue with
    | .visiting, [] =>
      some ({ s with locks := s.locks.erase x.reportId }.setRun i ⟨x.reportId, [], .done⟩)
    | _, _ => none
  | .crash =>
    some ({ s with
      locks := if x.stage.holds then s.locks.erase x.reportId else s.locks }.setRun i
        ⟨x.reportId, [], .done⟩)

/-- One statement of a run or of another action. A promotion updates its row and goes on as a run
of that row. -/
def reviewStep (s : ReviewState) : ReviewAction → Option ReviewState
  | .load reportId ids =>
    some (s.start (ReviewState.loadedRun reportId ((s.reports reportId).loadQueue ids)))
  | .select reportId filters excludedIds =>
    let report := s.reports reportId
    let rows := filterCandidatesForSelection report.links report.rows filters excludedIds
    some (s.start ⟨reportId, [], .scoped (rows.map Row.tokenLine)⟩)
  | .promote reportId id promotedFrom =>
    let report := (s.reports reportId).updateId id (Row.promote promotedFrom)
    some ((s.setReport reportId report).start
      (ReviewState.loadedRun reportId (report.loadQueue [id])))
  | .advance i step => (s.runs[i]?).bind fun x => advance stored s i x step
  | .changeStatus reportId ids action =>
    let report := s.reports reportId
    some (s.setReport reportId (report.update fun row =>
      row.changeStatus report.links ids action))
  | .reconcile reportId call =>
    some (s.setReport reportId (reconcileReportCandidates (s.reports reportId) call))

end Steps

end TalonHound.Candidates
