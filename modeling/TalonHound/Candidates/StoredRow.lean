import TalonHound.Candidates.Selection
import TalonHound.Library.Json

/-!
# Stored rows

A row of `threat_report_candidates` as it is stored, its evidence a JSON document, and the
predicates of `indicatorMembership.js` as they read it.
-/

namespace TalonHound.Candidates

open FileArtifacts (lowerCase)
open ReportLifecycle (Assessment ReviewStatus MatchState MembershipOutcome)

/-- The text of a review status. -/
def reviewStatusText : ReviewStatus → String
  | .pending => "pending"
  | .approved => "approved"
  | .contextOnly => "context_only"
  | .ignored => "ignored"
  | .createdIoc => "created_ioc"
  | .rejected => "rejected"

/-- The text of a match state. -/
def matchStateText : MatchState → String
  | .existing => "existing"
  | .new => "new"
  | .contextOnly => "context_only"
  | .needsReview => "needs_review"
  | .invalid => "invalid"

/-- The text of an outcome. -/
def membershipOutcomeText : MembershipOutcome → String
  | .member => "member"
  | .needsReview => "needs_review"
  | .contextOnly => "context_only"
  | .excluded => "excluded"

/-- The keys that membership reads in a record or in one of its occurrences. -/
def membershipKeys : List String :=
  ["source_assertion", "membership_outcome", "is_direct_source_observable",
    "is_parser_derived_metadata", "document_has_authoritative_scope", "reserved_address",
    "non_actionable_local", "promoted_from", "occurrences", "linked_sources", "zone",
    "occurrence_kind", "asserted"]

/-- The keys of a record besides those that membership reads: different keys, and none of these. -/
structure OtherKeys (others : String → List (String × Json)) : Prop where
  nodup : ∀ text, ((others text).map Prod.fst).Nodup
  other : ∀ text, ∀ key ∈ (others text).map Prod.fst, key ∉ membershipKeys

section Records

-- The entries of the other keys.
variable (others : String → List (String × Json))

/-- The fields of the other keys. -/
def otherFields (text : String) : List (String × Option Json) :=
  (others text).map fun (key, v) => (key, some v)

/-- The fields of an occurrence. -/
def Occurrence.fields (occ : Occurrence) : List (String × Option Json) :=
  [("zone", some (Json.ofText occ.zone)), ("occurrence_kind", occ.occurrenceKind.map Json.str),
    ("asserted", if occ.asserted then some (.bool true) else none)] ++ otherFields others occ.rest

/-- The fields of `buildCandidateEvidenceRecord`, and those that a review action adds. -/
def RowEvidence.fields (ev : RowEvidence) : List (String × Option Json) :=
  [("source_assertion", some (Json.ofText ev.sourceAssertion)),
    ("membership_outcome", ev.membershipOutcome.map fun o => .str (membershipOutcomeText o)),
    ("is_direct_source_observable", some (.bool ev.isDirectSourceObservable)),
    ("is_parser_derived_metadata", some (.bool ev.isParserDerivedMetadata)),
    ("document_has_authoritative_scope", some (.bool ev.documentHasAuthoritativeScope)),
    ("reserved_address", if ev.reservedAddress then some (.bool true) else none),
    ("non_actionable_local", if ev.nonActionableLocal then some (.bool true) else none),
    ("promoted_from", ev.promotedFrom.map fun text => .obj (others text)),
    ("occurrences", some (.arr (ev.occurrences.map fun occ => Json.ofFields (occ.fields others))))] ++
    otherFields others ev.rest

/-- The stored document. -/
def RowEvidence.toJson (ev : RowEvidence) : Json := .ofFields (ev.fields others)

end Records

/-- A row of `threat_report_candidates`, as far as membership reads it. -/
structure StoredRow where
  candidateType : String
  isIoc : Bool
  (assessment matchState reviewStatus : String)
  sourceAssertion : Option String
  hasOriginalDocumentOccurrence : Bool
  evidence : Json

/-- What is stored of the values of a candidate. -/
def Next.stored (others : String → List (String × Json)) (c : Next) : StoredRow where
  candidateType := c.identity.candidateType
  isIoc := c.columns.isIoc
  assessment := assessmentText c.columns.assessment
  matchState := matchStateText c.columns.matchState
  reviewStatus := reviewStatusText c.columns.reviewStatus
  sourceAssertion := c.columns.sourceAssertion
  hasOriginalDocumentOccurrence := c.hasOriginalDocumentOccurrence
  evidence := c.columns.evidence.toJson others

namespace StoredRow

-- `String` of a number, an array or an object.
variable (render : Json → String)

/-- `reviewOf`. -/
def reviewOf (row : StoredRow) : String :=
  lowerCase (if row.reviewStatus.isEmpty then "pending" else row.reviewStatus)

/-- `source_assertion || ev.source_assertion || ''`, in lower case. -/
def assertion (row : StoredRow) : String :=
  lowerCase ((orNull row.sourceAssertion).getD
    (Json.orEmpty render (row.evidence.get? "source_assertion")))

/-- `membershipOutcomeOf`. -/
def membershipOutcomeOf (row : StoredRow) : Option Json :=
  (row.evidence.get? "membership_outcome").filter Json.truthy

/-- `outcome === text`. -/
def hasOutcome (row : StoredRow) (text : String) : Bool :=
  match row.membershipOutcomeOf with
  | some (.str s) => s = text
  | _ => false

/-- `candidateOccurrences`; a loaded row has no occurrences of its own. -/
def candidateOccurrences (row : StoredRow) : List Json :=
  ((row.evidence.get? "occurrences").bind Json.items?).getD []

/-- `hasAuthoritativePublisherIocScope`. -/
def hasAuthoritativePublisherIocScope (row : StoredRow) : Bool :=
  Json.isBool true (row.evidence.get? "document_has_authoritative_scope")

/-- `hasPublisherIocSectionOccurrence`. -/
def hasPublisherIocSectionOccurrence (row : StoredRow) : Bool :=
  row.candidateOccurrences.any fun occ =>
    authoritativePublisherOccurrenceZones.contains (Json.orEmpty render (occ.get? "zone")) &&
      (Json.isBool true (occ.get? "asserted") ||
        !((occ.get? "occurrence_kind").map Json.truthy).getD false)

/-- `ANALYST_CONFIRMED_REVIEWS` has the review status. -/
def isAnalystConfirmed (row : StoredRow) : Bool :=
  ["approved", "created_ioc"].contains row.reviewOf

/-- `isAnalystConfirmedPublisherEvidence`. -/
def isAnalystConfirmedPublisherEvidence (row : StoredRow) : Bool :=
  match row.evidence.get? "promoted_from" with
  | some (.obj _) => row.isAnalystConfirmed
  | _ => false

/-- `isPublisherAssertedReportIoc`. -/
def isPublisherAssertedReportIoc (row : StoredRow) : Bool :=
  explicitPublisherIocAssertions.contains (row.assertion render) ||
    row.isAnalystConfirmedPublisherEvidence || row.hasPublisherIocSectionOccurrence render

/-- `isPublisherAuthoritativeReportIocMember`. -/
def isPublisherAuthoritativeReportIocMember (row : StoredRow) : Bool :=
  if row.membershipOutcomeOf.isSome then
    if row.hasOutcome "member" then true
    else if row.hasOutcome "needs_review" then row.isAnalystConfirmed
    else row.isAnalystConfirmedPublisherEvidence
  else !row.hasAuthoritativePublisherIocScope || row.isPublisherAssertedReportIoc render

/-- `isContextOnlyCandidate`. -/
def isContextOnlyCandidate (row : StoredRow) : Bool :=
  row.reviewOf = "context_only" || lowerCase row.assessment = "context_only" ||
    lowerCase row.matchState = "context_only"

/-- `isNonActionableLocalOrReserved`. -/
def isNonActionableLocalOrReserved (row : StoredRow) : Bool :=
  Json.isBool true (row.evidence.get? "reserved_address") ||
    Json.isBool true (row.evidence.get? "non_actionable_local")

/-- `passesIndicatorTypeGates`. -/
def passesIndicatorTypeGates (row : StoredRow) : Bool :=
  row.isIoc && !nonIocCandidateTypes.contains (lowerCase row.candidateType) &&
    !Json.isBool true (row.evidence.get? "is_parser_derived_metadata") &&
    !Json.isBool false (row.evidence.get? "is_direct_source_observable") &&
    !row.isNonActionableLocalOrReserved &&
    !(lowerCase row.matchState = "context_only" || row.reviewOf = "context_only" ||
      row.assessment = "context_only") &&
    !(lowerCase row.matchState = "invalid" || row.assessment = "invalid")

/-- `isNeedsReviewCandidate`. -/
def isNeedsReviewCandidate (row : StoredRow) : Bool :=
  row.hasOriginalDocumentOccurrence && row.hasOutcome "needs_review" && row.passesIndicatorTypeGates

/-- `isLinkedSourceAssertedIoc`; a loaded row has no sources of its own. -/
def isLinkedSourceAssertedIoc (linked : Bool) (row : StoredRow) : Bool :=
  row.assertion render = linkedSourceIocAssertion || linked ||
    (match row.evidence.get? "linked_sources" with
      | some (.arr (_ :: _)) => true
      | _ => false)

/-- `isLinkedSourceIndicatorMember`. -/
def isLinkedSourceIndicatorMember (linked : Bool) (row : StoredRow) : Bool :=
  row.passesIndicatorTypeGates && row.isLinkedSourceAssertedIoc render linked

/-- `isReportIndicatorMember`. -/
def isReportIndicatorMember (row : StoredRow) : Bool :=
  row.hasOriginalDocumentOccurrence && row.passesIndicatorTypeGates &&
    row.isPublisherAuthoritativeReportIocMember render

/-- `isUnionReportIndicatorMember`. -/
def isUnionReportIndicatorMember (linked : Bool) (row : StoredRow) : Bool :=
  row.isReportIndicatorMember render || row.isLinkedSourceIndicatorMember render linked

/-- `isReviewActionableIndicator`. -/
def isReviewActionableIndicator (linked : Bool) (row : StoredRow) : Bool :=
  row.isUnionReportIndicatorMember render linked || row.isNeedsReviewCandidate

/-- `isPendingReviewActionableIndicator`. -/
def isPendingReviewActionableIndicator (linked : Bool) (row : StoredRow) : Bool :=
  row.isReviewActionableIndicator render linked && row.reviewOf = "pending"

end StoredRow

end TalonHound.Candidates
