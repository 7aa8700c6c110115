import TalonHound.ReportLifecycle.Candidate
import Mathlib.Data.Int.Notation

/-!
# Candidate rows

The columns that `reconcileReportCandidates` compares and writes, and the values it computes for
them.
-/

namespace TalonHound.Candidates

open ReportLifecycle (Assessment ReviewStatus MatchState MembershipOutcome)

/-- `${candidate_type}\0${normalized_value}`. -/
structure Identity where
  (candidateType normalizedValue : String)
  deriving DecidableEq

/-- `evidence.linked_assertion_over_deferral`. -/
structure OverlayMarker where
  sourceId : ℕ
  priorAssessment : Assessment
  priorRole : String
  priorPolicyDecision : Option String
  deriving DecidableEq

/-- An entry of `evidence.occurrences`. -/
structure Occurrence where
  zone : Option String
  asserted : Bool
  occurrenceKind : Option String
  /-- The other keys, as `stableJson` writes them. -/
  rest : String
  deriving DecidableEq

/-- The column `evidence`, as `buildCandidateEvidenceRecord` writes it. -/
structure RowEvidence where
  (sourceAssertion policyDecision decisionSource : Option String)
  /-- `none` on a row without a membership decision. -/
  membershipOutcome : Option MembershipOutcome
  (isDirectSourceObservable isParserDerivedMetadata documentHasAuthoritativeScope : Bool)
  (reservedAddress nonActionableLocal : Bool)
  /-- The object `promoted_from`, as `stableJson` writes it. -/
  promotedFrom : Option String
  linkedAssertionOverDeferral : Option OverlayMarker
  occurrences : List Occurrence
  /-- The other keys, as `stableJson` writes them. -/
  rest : String
  deriving DecidableEq

/-- `RECONCILED_COLUMNS`; the confidence in thousandths, as it is stored. -/
structure Columns where
  originalValue : String
  assessment : Assessment
  role : String
  confidence : Option ℕ
  (evidenceText sectionName blockId : Option String)
  pageNumber : Option ℤ
  reviewStatus : ReviewStatus
  matchState : MatchState
  matchedIocId : Option ℕ
  matchedIocObservableType : Option String
  isIoc : Bool
  sourceAssertion : Option String
  evidence : RowEvidence
  deriving DecidableEq

/-- The check of `promotion_outcome`. -/
inductive PromotionOutcome where
  | created | alreadyExisting | unsupported | notApproved | notApplicable | failed
  deriving DecidableEq

/-- A row of `threat_report_candidates`. -/
structure Row where
  id : ℕ
  identity : Identity
  columns : Columns
  hasOriginalDocumentOccurrence : Bool
  promotionOutcome : Option PromotionOutcome
  deriving DecidableEq

/-- A candidate that a call lists; a key that is absent or null is `none`. `evidence` is the record
of `buildCandidateEvidenceRecord`. -/
structure CandidateInput where
  identity : Identity
  originalValue : String
  assessment : Option Assessment
  role : Option String
  confidence : Option ℕ
  (evidenceText sectionName blockId : Option String)
  pageNumber : Option ℤ
  reviewStatus : Option ReviewStatus
  matchState : Option MatchState
  matchedIocId : Option ℕ
  matchedIocObservableType : Option String
  isIoc : Option Bool
  sourceAssertion : Option String
  evidence : RowEvidence
  hasOriginalDocumentOccurrence : Option Bool
  deriving DecidableEq

/-- The values that a call computes for an identity. -/
structure Next where
  identity : Identity
  columns : Columns
  hasOriginalDocumentOccurrence : Bool

/-- `value || null`. -/
def orNull (value : Option String) : Option String := value.filter (!·.isEmpty)

/-- `HASH_TYPES`. -/
def hashTypes : List String := ["md5", "sha1", "sha256"]

/-- `FILE_HASH_ROLES`. -/
def fileHashRoles : List String := ["malware_sample", "security_tool", "tool", "reference", "unknown"]

/-- `MALICIOUS_ROLES`. -/
def maliciousRoles : List String :=
  ["command_and_control", "redirector", "payload_hosting", "malware_download", "phishing",
    "tracking", "malicious_infrastructure", "delivery", "malware_sample"]

/-- `enforceRoleTypeCompatibility`, for the role. -/
def enforceRoleTypeCompatibility (candidateType : String) (assessment : Option Assessment)
    (role : Option String) : Option String :=
  let name := (orNull role).getD "unknown"
  if !hashTypes.contains candidateType || fileHashRoles.contains name then role
  else if assessment = some .malicious || assessment = some .suspicious ||
      maliciousRoles.contains name then some "malware_sample"
  else some "reference"

/-- The scope of a call. -/
inductive Scope where
  | original
  | source (sourceId : ℕ)

/-- `candidateColumns`, with the occurrence flag that the scope gives the candidate. -/
def candidateColumns (scope : Scope) (c : CandidateInput) : Next where
  identity := c.identity
  columns :=
    { originalValue := c.originalValue
      assessment := c.assessment.getD .unknown
      role := (orNull (enforceRoleTypeCompatibility c.identity.candidateType c.assessment
        c.role)).getD "unknown"
      confidence := c.confidence
      evidenceText := orNull c.evidenceText
      sectionName := orNull c.sectionName
      blockId := orNull c.blockId
      pageNumber := c.pageNumber
      reviewStatus := c.reviewStatus.getD .pending
      matchState := c.matchState.getD .new
      matchedIocId := c.matchedIocId
      matchedIocObservableType := orNull c.matchedIocObservableType
      isIoc := c.isIoc ≠ some false
      sourceAssertion := orNull c.sourceAssertion
      evidence := c.evidence }
  hasOriginalDocumentOccurrence :=
    match scope with
    | .original => c.hasOriginalDocumentOccurrence ≠ some false
    | .source _ => c.hasOriginalDocumentOccurrence = some true

/-- The names of `RECONCILED_COLUMNS`. -/
inductive ColumnName where
  | originalValue | assessment | role | confidence | evidenceText | sectionName | blockId
  | pageNumber | reviewStatus | matchState | matchedIocId | matchedIocObservableType | isIoc
  | sourceAssertion | evidence
  deriving DecidableEq

namespace ColumnName

/-- `RECONCILED_COLUMNS`. -/
def reconciled : List ColumnName :=
  [originalValue, assessment, role, confidence, evidenceText, sectionName, blockId, pageNumber,
    reviewStatus, matchState, matchedIocId, matchedIocObservableType, isIoc, sourceAssertion,
    evidence]

/-- `comparableColumn` of both sides is the same. -/
def agree (row next : Columns) : ColumnName → Bool
  | originalValue => row.originalValue = next.originalValue
  | assessment => row.assessment = next.assessment
  | role => row.role = next.role
  | confidence => row.confidence = next.confidence
  | evidenceText => row.evidenceText = next.evidenceText
  | sectionName => row.sectionName = next.sectionName
  | blockId => row.blockId = next.blockId
  | pageNumber => row.pageNumber = next.pageNumber
  | reviewStatus => row.reviewStatus = next.reviewStatus
  | matchState => row.matchState = next.matchState
  | matchedIocId => row.matchedIocId = next.matchedIocId
  | matchedIocObservableType => row.matchedIocObservableType = next.matchedIocObservableType
  | isIoc => row.isIoc = next.isIoc
  | sourceAssertion => row.sourceAssertion = next.sourceAssertion
  | evidence => row.evidence = next.evidence

end ColumnName

/-- `changedCandidateColumns`. -/
def changedCandidateColumns (row next : Columns) : List ColumnName :=
  ColumnName.reconciled.filter fun (name : ColumnName) => !name.agree row next

/-- Nothing changes exactly when all columns agree. -/
theorem changedCandidateColumns_eq_nil {row next : Columns} :
    changedCandidateColumns row next = [] ↔ row = next := by
  unfold changedCandidateColumns
  rw [List.filter_eq_nil_iff]
  constructor
  · intro h
    have hagree : ∀ name : ColumnName, name.agree row next = true := by
      intro name
      have hname := h name (by cases name <;> decide)
      simpa using hname
    cases row
    cases next
    rw [Columns.mk.injEq]
    refine ⟨?_, ?_, ?_, ?_, ?_, ?_, ?_, ?_, ?_, ?_, ?_, ?_, ?_, ?_, ?_⟩
    · exact of_decide_eq_true (hagree .originalValue)
    · exact of_decide_eq_true (hagree .assessment)
    · exact of_decide_eq_true (hagree .role)
    · exact of_decide_eq_true (hagree .confidence)
    · exact of_decide_eq_true (hagree .evidenceText)
    · exact of_decide_eq_true (hagree .sectionName)
    · exact of_decide_eq_true (hagree .blockId)
    · exact of_decide_eq_true (hagree .pageNumber)
    · exact of_decide_eq_true (hagree .reviewStatus)
    · exact of_decide_eq_true (hagree .matchState)
    · exact of_decide_eq_true (hagree .matchedIocId)
    · exact of_decide_eq_true (hagree .matchedIocObservableType)
    · exact of_decide_eq_true (hagree .isIoc)
    · exact of_decide_eq_true (hagree .sourceAssertion)
    · exact of_decide_eq_true (hagree .evidence)
  · rintro rfl name -
    cases name <;> simp [ColumnName.agree]

/-- An evidence record without a decision. -/
def plainEvidence : RowEvidence :=
  ⟨none, none, none, none, true, false, false, false, false, none, none, [], "\x7b\x7d"⟩

/-- A malicious domain, with the text that a source gives for it. -/
def domainInput (value text : String) : CandidateInput :=
  ⟨⟨"domain", value⟩, value, some .malicious, none, none, some text, none, none, none, none, none,
    none, none, none, none, plainEvidence, none⟩

end TalonHound.Candidates
