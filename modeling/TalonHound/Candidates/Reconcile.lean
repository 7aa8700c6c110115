import TalonHound.Candidates.Row
import TalonHound.FileArtifacts.Hash
import TalonHound.Library.InsertionMap
import TalonHound.Library.Rows

/-!
# Reconciling the candidates of a report

`reconcileReportCandidates` on the rows of one report and their source links, in the scope of the
original document and in that of a linked source.
-/

namespace TalonHound.Candidates

open ReportLifecycle (Assessment ReviewStatus MatchState)

/-- `DEFERRED_CONTEXT_POLICIES`. -/
def deferredContextPolicies : List String := ["context_only_narrative_with_authoritative_scope"]

/-- The row is still pending, and the deferral policy is the reason that it is Context Only. -/
def Columns.isDeferral (c : Columns) : Bool :=
  c.reviewStatus = .pending && c.assessment = .contextOnly &&
    deferredContextPolicies.contains (c.evidence.policyDecision.getD "")

/-- The linked candidate asserts the value. -/
def Columns.asserts (c : Columns) : Bool :=
  c.assessment ≠ .contextOnly && c.assessment ≠ .invalid && c.isIoc

/-- `linkedAssertionOverridesDeferral`. -/
def linkedAssertionOverridesDeferral (prior linked : Columns) : Bool :=
  prior.isDeferral && linked.asserts

/-- `overlayEvidence`. -/
def overlayEvidence (prior : Columns) (sourceId : ℕ) : RowEvidence :=
  { prior.evidence with
    linkedAssertionOverDeferral := some
      { sourceId := sourceId
        priorAssessment := prior.assessment
        priorRole := prior.role
        priorPolicyDecision := prior.evidence.policyDecision } }

/-- The overlap row takes the assertion of the pack. -/
def Columns.overlay (prior next : Columns) (sourceId : ℕ) : Columns :=
  { prior with
    assessment := next.assessment
    role := next.role
    matchState := if next.matchState = .contextOnly then .new else next.matchState
    matchedIocId := next.matchedIocId
    matchedIocObservableType := next.matchedIocObservableType
    isIoc := true
    evidence := overlayEvidence prior sourceId }

/-- `matchChanged`. -/
def Columns.matchChanged (prior next : Columns) : Bool :=
  prior.matchState ≠ next.matchState || prior.matchedIocId ≠ next.matchedIocId ||
    prior.matchedIocObservableType ≠ next.matchedIocObservableType

/-- An overlap with the document refreshes the match only. -/
def Columns.refreshMatch (prior next : Columns) : Columns :=
  if prior.matchChanged next then
    { prior with
      matchState := next.matchState
      matchedIocId := next.matchedIocId
      matchedIocObservableType := next.matchedIocObservableType }
  else prior

/-- What a call does to the row of an identity that it lists. -/
def Row.write (scope : Scope) (prior : Row) (next : Next) : Row :=
  match scope with
  | .source sourceId =>
    if prior.hasOriginalDocumentOccurrence &&
        linkedAssertionOverridesDeferral prior.columns next.columns then
      { prior with columns := prior.columns.overlay next.columns sourceId }
    else if prior.hasOriginalDocumentOccurrence then
      { prior with columns := prior.columns.refreshMatch next.columns }
    else if changedCandidateColumns prior.columns next.columns = [] then prior
    else { prior with columns := next.columns }
  | .original =>
    if changedCandidateColumns prior.columns next.columns = [] then prior
    else { prior with
      columns := next.columns
      hasOriginalDocumentOccurrence := next.hasOriginalDocumentOccurrence }

/-- The candidates of a report, the pairs of candidate id and source id of their links, and the
next candidate id. -/
@[ext]
structure Report where
  rows : List Row
  links : List (ℕ × ℕ)
  nextId : ℕ

namespace Report

/-- A report without candidates. -/
def empty : Report := ⟨[], [], 0⟩

/-- The row has a link. -/
def isLinked (links : List (ℕ × ℕ)) (row : Row) : Bool := links.any fun link => link.1 = row.id

/-- The row of an identity. -/
def row? (report : Report) (identity : Identity) : Option Row :=
  Rows.lookup Row.identity report.rows identity

/-- The identities are new to the report and get ids in the order of the list. -/
def inserted (report : Report) (next : List Next) : List Row :=
  (next.filter fun n => n.identity ∉ report.rows.map Row.identity).zipIdx.map fun (n, i) =>
    { id := report.nextId + i
      identity := n.identity
      columns := n.columns
      hasOriginalDocumentOccurrence := n.hasOriginalDocumentOccurrence
      promotionOutcome := none }

/-- The rows after the loop over the listed candidates. -/
def writeAll (report : Report) (scope : Scope) (next : List Next) : List Row :=
  (report.rows.map fun row =>
    match Rows.lookup Next.identity next row.identity with
    | some n => row.write scope n
    | none => row) ++ report.inserted next

/-- A row that an original call does not list. -/
def settleMissing (links : List (ℕ × ℕ)) (row : Row) : Option Row :=
  if !row.hasOriginalDocumentOccurrence then some row
  else if isLinked links row then some { row with hasOriginalDocumentOccurrence := false }
  else none

/-- The links of a source after its call. -/
def replaceLinks (links : List (ℕ × ℕ)) (rows : List Row) (sourceId : ℕ) (next : List Next) :
    List (ℕ × ℕ) :=
  links.filter (fun link => link.2 ≠ sourceId) ++
    next.filterMap fun n => (Rows.lookup Row.identity rows n.identity).map fun row =>
      (row.id, sourceId)

/-- `reconcileReportCandidates`, for the values of the last candidate of each identity. -/
def reconcile (report : Report) (scope : Scope) (next : List Next) : Report :=
  let rows := report.writeAll scope next
  let nextId := report.nextId + (report.inserted next).length
  match scope with
  | .original =>
    { rows := rows.filterMap fun row =>
        if row.identity ∈ next.map Next.identity then some row
        else settleMissing report.links row
      links := report.links
      nextId := nextId }
  | .source sourceId =>
    let links := replaceLinks report.links rows sourceId next
    { rows := rows.filter fun row => row.hasOriginalDocumentOccurrence || isLinked links row
      links := links
      nextId := nextId }

end Report

/-- A call: its scope and the candidates that it lists. -/
structure Call where
  scope : Scope
  candidates : List CandidateInput

/-- `nextByKey`. -/
def Call.nextByKey (call : Call) : List Next :=
  InsertionMap.ofList Next.identity (call.candidates.map (candidateColumns call.scope))

/-- `reconcileReportCandidates`. -/
def reconcileReportCandidates (report : Report) (call : Call) : Report :=
  report.reconcile call.scope call.nextByKey

/-!
## Indicator membership

The predicates of `indicatorMembership.js` on the values of a candidate. `linked` is the column
`has_linked_source_occurrence`.
-/

open FileArtifacts (lowerCase)

/-- `EXPLICIT_PUBLISHER_IOC_ASSERTIONS`. -/
def explicitPublisherIocAssertions : List String :=
  ["explicit_ioc", "explicit_c2", "explicit_operational_infrastructure"]

/-- `AUTHORITATIVE_PUBLISHER_OCCURRENCE_ZONES`. -/
def authoritativePublisherOccurrenceZones : List String :=
  ["explicit_ioc_section", "c2_section", "sample_table", "operational_infrastructure",
    "delegated_ioc_scope"]

/-- `NON_IOC_CANDIDATE_TYPES`. -/
def nonIocCandidateTypes : List String := ["cve", "attack_technique"]

/-- `LINKED_SOURCE_IOC_ASSERTION`. -/
def linkedSourceIocAssertion : String := "linked_source_ioc"

/-- `ANALYST_CONFIRMED_REVIEWS`. -/
def analystConfirmedReviews : List ReportLifecycle.ReviewStatus := [.approved, .createdIoc]

/-- The values of a row. -/
def Row.values (row : Row) : Next :=
  ⟨row.identity, row.columns, row.hasOriginalDocumentOccurrence⟩

namespace Next

/-- `typeOf`. -/
def typeOf (c : Next) : String := lowerCase c.identity.candidateType

/-- `source_assertion || ev.source_assertion || ''`, in lower case. -/
def assertion (c : Next) : String :=
  lowerCase (((orNull c.columns.sourceAssertion).or
    (orNull c.columns.evidence.sourceAssertion)).getD "")

/-- `ANALYST_CONFIRMED_REVIEWS` has the review status. -/
def isAnalystConfirmed (c : Next) : Bool := analystConfirmedReviews.contains c.columns.reviewStatus

/-- `hasAuthoritativePublisherIocScope`. -/
def hasAuthoritativePublisherIocScope (c : Next) : Bool :=
  c.columns.evidence.documentHasAuthoritativeScope

/-- `hasPublisherIocSectionOccurrence`. -/
def hasPublisherIocSectionOccurrence (c : Next) : Bool :=
  c.columns.evidence.occurrences.any fun occ =>
    authoritativePublisherOccurrenceZones.contains (occ.zone.getD "") &&
      (occ.asserted || (orNull occ.occurrenceKind).isNone)

/-- `isAnalystConfirmedPublisherEvidence`. -/
def isAnalystConfirmedPublisherEvidence (c : Next) : Bool :=
  c.columns.evidence.promotedFrom.isSome && c.isAnalystConfirmed

/-- `isPublisherAssertedReportIoc`. -/
def isPublisherAssertedReportIoc (c : Next) : Bool :=
  explicitPublisherIocAssertions.contains c.assertion || c.isAnalystConfirmedPublisherEvidence ||
    c.hasPublisherIocSectionOccurrence

/-- `isPublisherAuthoritativeReportIocMember`. -/
def isPublisherAuthoritativeReportIocMember (c : Next) : Bool :=
  match c.columns.evidence.membershipOutcome with
  | some .member => true
  | some .needsReview => c.isAnalystConfirmed
  | some _ => c.isAnalystConfirmedPublisherEvidence
  | none => !c.hasAuthoritativePublisherIocScope || c.isPublisherAssertedReportIoc

/-- `isContextOnlyCandidate`. -/
def isContextOnlyCandidate (c : Next) : Bool :=
  c.columns.reviewStatus = .contextOnly || c.columns.assessment = .contextOnly ||
    c.columns.matchState = .contextOnly

/-- `passesIndicatorTypeGates`. -/
def passesIndicatorTypeGates (c : Next) : Bool :=
  c.columns.isIoc && !nonIocCandidateTypes.contains c.typeOf &&
    !c.columns.evidence.isParserDerivedMetadata && c.columns.evidence.isDirectSourceObservable &&
    !(c.columns.evidence.reservedAddress || c.columns.evidence.nonActionableLocal) &&
    !(c.columns.matchState = .contextOnly || c.columns.reviewStatus = .contextOnly ||
      c.columns.assessment = .contextOnly) &&
    !(c.columns.matchState = .invalid || c.columns.assessment = .invalid)

/-- `isNeedsReviewCandidate`. -/
def isNeedsReviewCandidate (c : Next) : Bool :=
  c.hasOriginalDocumentOccurrence && c.columns.evidence.membershipOutcome = some .needsReview &&
    c.passesIndicatorTypeGates

/-- `isLinkedSourceAssertedIoc`. -/
def isLinkedSourceAssertedIoc (linked : Bool) (c : Next) : Bool :=
  c.assertion = linkedSourceIocAssertion || linked

/-- `isLinkedSourceIndicatorMember`. -/
def isLinkedSourceIndicatorMember (linked : Bool) (c : Next) : Bool :=
  c.passesIndicatorTypeGates && c.isLinkedSourceAssertedIoc linked

/-- `isReportIndicatorMember`. -/
def isReportIndicatorMember (c : Next) : Bool :=
  c.hasOriginalDocumentOccurrence && c.passesIndicatorTypeGates &&
    c.isPublisherAuthoritativeReportIocMember

/-- `isUnionReportIndicatorMember`. -/
def isUnionReportIndicatorMember (linked : Bool) (c : Next) : Bool :=
  c.isReportIndicatorMember || c.isLinkedSourceIndicatorMember linked

/-- `isReviewActionableIndicator`. -/
def isReviewActionableIndicator (linked : Bool) (c : Next) : Bool :=
  c.isUnionReportIndicatorMember linked || c.isNeedsReviewCandidate

/-- `isPendingReviewActionableIndicator`. -/
def isPendingReviewActionableIndicator (linked : Bool) (c : Next) : Bool :=
  c.isReviewActionableIndicator linked && c.columns.reviewStatus = .pending

variable {c : Next} {linked : Bool}

/-- Membership in the report, spelled out. -/
theorem isReportIndicatorMember_iff : c.isReportIndicatorMember = true ↔
    c.hasOriginalDocumentOccurrence = true ∧ c.passesIndicatorTypeGates = true ∧
      c.isPublisherAuthoritativeReportIocMember = true := by
  unfold isReportIndicatorMember
  rw [Bool.and_eq_true, Bool.and_eq_true, and_assoc]

/-- Membership in the union, spelled out. -/
theorem isUnionReportIndicatorMember_iff : c.isUnionReportIndicatorMember linked = true ↔
    c.passesIndicatorTypeGates = true ∧
      (c.hasOriginalDocumentOccurrence = true ∧ c.isPublisherAuthoritativeReportIocMember = true ∨
        c.isLinkedSourceAssertedIoc linked = true) := by
  unfold isUnionReportIndicatorMember isLinkedSourceIndicatorMember
  rw [Bool.or_eq_true, isReportIndicatorMember_iff, Bool.and_eq_true]
  constructor
  · rintro (⟨hflag, hgates, hpublisher⟩ | ⟨hgates, hasserted⟩)
    · exact ⟨hgates, Or.inl ⟨hflag, hpublisher⟩⟩
    · exact ⟨hgates, Or.inr hasserted⟩
  · rintro ⟨hgates, ⟨hflag, hpublisher⟩ | hasserted⟩
    · exact Or.inl ⟨hflag, hgates, hpublisher⟩
    · exact Or.inr ⟨hgates, hasserted⟩

/-- The gates do not depend on the occurrence in the document. -/
theorem passesIndicatorTypeGates_of_columns {c' : Next} (hidentity : c'.identity = c.identity)
    (hcolumns : c'.columns = c.columns) :
    c'.passesIndicatorTypeGates = c.passesIndicatorTypeGates := by
  unfold passesIndicatorTypeGates typeOf
  rw [hidentity, hcolumns]

end Next

/-- Links go by the id alone. -/
theorem isLinked_of_id {links : List (ℕ × ℕ)} {r r' : Row} (h : r'.id = r.id) :
    Report.isLinked links r' = Report.isLinked links r := by
  unfold Report.isLinked
  rw [h]

/-- The row counts as an Indicator of the report. -/
def Row.isUnionMember (links : List (ℕ × ℕ)) (row : Row) : Bool :=
  row.values.isUnionReportIndicatorMember (Report.isLinked links row)

/-- The row blocks the finalization of its report: `isPendingActionableCandidate`. -/
def Row.isPendingActionable (links : List (ℕ × ℕ)) (row : Row) : Bool :=
  row.values.isPendingReviewActionableIndicator (Report.isLinked links row)

end TalonHound.Candidates
