import Mathlib.Data.List.Basic

/-!
# Candidates and sources of a report

The columns of `threat_report_candidates` that decide whether a row still awaits review, the
statements that change them, and the lifecycle of a linked IOC source.
-/

namespace TalonHound.ReportLifecycle

/-- `analysis_status`. -/
inductive AnalysisStatus where
  | pending | fetching | extracting | candidates | analyzing | matching | reviewRequired | ready
  | skipped | failed | cancelled
  deriving DecidableEq

namespace AnalysisStatus

/-- `isFinalizedStatus`. -/
def isFinalized : AnalysisStatus → Bool
  | ready => true
  | skipped => true
  | _ => false

/-- `isFinalizeAllowed`. -/
def finalizeAllowed : AnalysisStatus → Bool
  | reviewRequired => true
  | s => s.isFinalized

end AnalysisStatus

/-- The check of `assessment`. -/
inductive Assessment where
  | malicious | suspicious | contextOnly | unknown | invalid
  deriving DecidableEq

/-- The check of `review_status`. -/
inductive ReviewStatus where
  | pending | approved | contextOnly | ignored | createdIoc | rejected
  deriving DecidableEq

/-- The check of `match_state`. -/
inductive MatchState where
  | existing | new | contextOnly | needsReview | invalid
  deriving DecidableEq

/-- `source_assertion`, as far as membership tells the texts apart. -/
inductive SourceAssertion where
  | explicitIoc | explicitC2 | explicitOperationalInfrastructure | linkedSourceIoc | other
  deriving DecidableEq

/-- `EXPLICIT_PUBLISHER_IOC_ASSERTIONS`. -/
def SourceAssertion.isExplicit : SourceAssertion → Bool
  | explicitIoc => true
  | explicitC2 => true
  | explicitOperationalInfrastructure => true
  | _ => false

/-- `evidence->>'membership_outcome'`. -/
inductive MembershipOutcome where
  | member | needsReview | contextOnly | excluded
  deriving DecidableEq

/-- An entry of `evidence->'occurrences'`. -/
structure Occurrence where
  /-- Its zone is one of `AUTHORITATIVE_PUBLISHER_OCCURRENCE_ZONES`. -/
  (authoritativeZone asserted hasKind : Bool)
  deriving DecidableEq

/-- The entries of the column `evidence` that membership reads. -/
structure Evidence where
  membershipOutcome : Option MembershipOutcome
  authoritativeScope : Bool
  sourceAssertion : Option SourceAssertion
  occurrences : List Occurrence
  /-- `promoted_from` is an object. -/
  (promotedFrom parserDerivedMetadata : Bool)
  /-- `is_direct_source_observable` is false. -/
  (notDirectSource reservedAddress nonActionableLocal : Bool)
  deriving DecidableEq

/-- A row of `threat_report_candidates`. -/
structure Candidate where
  /-- Its type is one of `NON_IOC_CANDIDATE_TYPES`. -/
  nonIocType : Bool
  assessment : Assessment
  reviewStatus : ReviewStatus
  matchState : MatchState
  matchedIocId : Option ℕ
  isIoc : Bool
  sourceAssertion : Option SourceAssertion
  evidence : Evidence
  hasOriginalDocumentOccurrence : Bool
  deriving DecidableEq

variable {c : Candidate} {linked : Bool}

namespace Candidate

/-- `isAnalystApproved`. -/
def isApproved (c : Candidate) : Bool :=
  c.reviewStatus = .approved || c.reviewStatus = .createdIoc

/-- `COALESCE(source_assertion, evidence->>'source_assertion', '')`. -/
def assertion (c : Candidate) : Option SourceAssertion :=
  c.sourceAssertion.or c.evidence.sourceAssertion

/-- `indicatorTypeGatesSql`. -/
def passesTypeGates (c : Candidate) : Bool :=
  c.isIoc && !c.nonIocType && !c.evidence.parserDerivedMetadata && !c.evidence.notDirectSource &&
    !c.evidence.reservedAddress && !c.evidence.nonActionableLocal &&
    c.assessment ≠ .contextOnly && c.assessment ≠ .invalid &&
    c.matchState ≠ .contextOnly && c.matchState ≠ .invalid && c.reviewStatus ≠ .contextOnly

/-- `publisherAuthoritativeIocMembershipSql`. -/
def isPublisherMember (c : Candidate) : Bool :=
  c.evidence.membershipOutcome = some .member ||
    (c.evidence.membershipOutcome = some .needsReview && c.isApproved) ||
    (c.evidence.promotedFrom && c.isApproved) ||
    (c.evidence.membershipOutcome.isNone &&
      (!c.evidence.authoritativeScope || c.assertion.any SourceAssertion.isExplicit ||
        c.evidence.occurrences.any fun o => o.authoritativeZone && (o.asserted || !o.hasKind)))

/-- `reportIndicatorMembershipSql`. -/
def isReportMember (c : Candidate) : Bool :=
  c.hasOriginalDocumentOccurrence && c.passesTypeGates && c.isPublisherMember

/-- `linkedSourceIndicatorMembershipSql`; `linked` says whether the row has a link. -/
def isLinkedMember (linked : Bool) (c : Candidate) : Bool :=
  c.passesTypeGates && (c.assertion = some .linkedSourceIoc || linked)

/-- `unionReportIndicatorMembershipSql`. -/
def isUnionMember (linked : Bool) (c : Candidate) : Bool :=
  c.isReportMember || c.isLinkedMember linked

/-- `needsReviewCandidateSql`. -/
def isNeedsReview (c : Candidate) : Bool :=
  c.hasOriginalDocumentOccurrence && c.evidence.membershipOutcome = some .needsReview &&
    c.passesTypeGates

/-- `reviewActionableIndicatorSql`. -/
def isActionable (linked : Bool) (c : Candidate) : Bool := c.isUnionMember linked || c.isNeedsReview

/-- The row is an open obligation: `pendingObligationIds`. -/
def isPending (linked : Bool) (c : Candidate) : Bool :=
  c.reviewStatus = .pending && c.isActionable linked

/-- A link can only make a row actionable. -/
theorem isPending_mono {linked' : Bool} (himp : linked' = true → linked = true)
    (h : c.isPending linked' = true) : c.isPending linked = true := by
  cases linked' with
  | false =>
    cases linked with
    | false => exact h
    | true =>
      simp only [isPending, isActionable, isUnionMember, isLinkedMember, Bool.and_eq_true,
        Bool.or_eq_true, Bool.or_false, Bool.or_true, Bool.and_true] at h ⊢
      obtain ⟨hpending, (hmember | hlinked) | hneeds⟩ := h
      · exact ⟨hpending, Or.inl (Or.inl hmember)⟩
      · exact ⟨hpending, Or.inl (Or.inr hlinked.1)⟩
      · exact ⟨hpending, Or.inr hneeds⟩
  | true => rwa [himp rfl]

theorem not_isPending_of_reviewed (h : c.reviewStatus ≠ .pending) : c.isPending linked = false := by
  simp [isPending, h]

end Candidate

/-- The columns that `candidateColumns` gives for a row, as far as they are modelled. -/
abbrev Columns := Candidate

/-- The statements of `reconcileReportCandidates` on a row that exists. -/
inductive CandidateUpdate where
  /-- `ON CONFLICT (report_id, candidate_type, normalized_value) DO UPDATE`. -/
  | conflict (col : Columns)
  /-- A pack asserts what the body deferred to it. -/
  | overrideDeferral (col : Columns)
  /-- An overlap of a pack with the document keeps all but the match. -/
  | refreshMatch (matchState : MatchState) (matchedIocId : Option ℕ)
  | columns (col : Columns) (hasOriginalDocumentOccurrence : Bool)
  | clearOriginal

def CandidateUpdate.apply (c : Candidate) : CandidateUpdate → Candidate
  | conflict col => { col with
      reviewStatus := c.reviewStatus
      hasOriginalDocumentOccurrence :=
        c.hasOriginalDocumentOccurrence || col.hasOriginalDocumentOccurrence }
  | overrideDeferral col => { c with
      assessment := col.assessment
      matchState := if col.matchState = .contextOnly then .new else col.matchState
      matchedIocId := col.matchedIocId
      isIoc := true }
  | refreshMatch matchState matchedIocId =>
    { c with matchState := matchState, matchedIocId := matchedIocId }
  | columns col original => { col with hasOriginalDocumentOccurrence := original }
  | clearOriginal => { c with hasOriginalDocumentOccurrence := false }

/-- The review actions that set a status. -/
inductive ReviewAction where
  | approve | contextOnly | ignore

/-- `applyStatusChange`. -/
def ReviewAction.apply (linked : Bool) (c : Candidate) : ReviewAction → Candidate
  | approve =>
    if c.isIoc && c.assessment ≠ .contextOnly && c.matchState ≠ .contextOnly &&
        c.reviewStatus ≠ .contextOnly && c.isActionable linked then
      { c with reviewStatus := .approved }
    else c
  | contextOnly => { c with
      reviewStatus := .contextOnly, assessment := .contextOnly, matchState := .contextOnly }
  | ignore => { c with reviewStatus := .ignored }

namespace Candidate

/-- The update of `promoteContextOnlyCandidate`. -/
def promoted (c : Candidate) : Candidate :=
  { c with
    reviewStatus := .approved
    assessment :=
      if c.assessment = .malicious ∨ c.assessment = .suspicious then c.assessment else .suspicious
    isIoc := true
    matchState := if c.matchedIocId.isSome then .existing else .new
    evidence := { c.evidence with promotedFrom := true } }

/-- Create IOCs reads a row as one that it creates or links. -/
def isCreatable (linked : Bool) (c : Candidate) : Bool := c.isUnionMember linked && c.isApproved

/-- `persistPromotionRow` with the id of an IOC. -/
def linkedToIoc (iocId : ℕ) (c : Candidate) : Candidate :=
  { c with matchedIocId := some iocId, matchState := .existing }

theorem reviewStatus_promoted : c.promoted.reviewStatus ≠ .pending := by
  simp [promoted]

end Candidate

/-- No review action leaves an obligation that was not there. -/
theorem ReviewAction.not_isPending_apply (a : ReviewAction) (h : c.isPending linked = false) :
    (a.apply linked c).isPending linked = false := by
  cases a with
  | approve =>
    dsimp only [apply]
    split
    · refine Candidate.not_isPending_of_reviewed ?_
      exact fun h => ReviewStatus.noConfusion h
    · exact h
  | contextOnly | ignore =>
    refine Candidate.not_isPending_of_reviewed ?_
    exact fun h => ReviewStatus.noConfusion h

/-- `IOC_SOURCE_LIFECYCLE`. -/
inductive SourceStatus where
  | discovered | inspecting | inspected | attached | extracting | extracted | dismissed | blocked
  | unsupported | failed | stale
  deriving DecidableEq

namespace SourceStatus

/-- `LINKED_SOURCE_OPEN_STATUSES`. -/
def isOpen : SourceStatus → Bool
  | discovered | inspecting | inspected | attached | extracting => true
  | failed | unsupported | blocked | stale => true
  | _ => false

/-- `RESOLVED_LIFECYCLE`. -/
def isResolved : SourceStatus → Bool
  | extracted => true
  | dismissed => true
  | _ => false

/-- A source is open as long as it is not resolved. -/
theorem isOpen_eq (s : SourceStatus) : s.isOpen = !s.isResolved := by
  cases s <;> rfl

/-- `CAN_INSPECT`. -/
def canInspect : SourceStatus → Bool
  | inspecting => false
  | extracting => false
  | _ => true

/-- `CAN_APPROVE`. -/
def canApprove : SourceStatus → Bool
  | inspected | attached | extracted | failed | stale => true
  | _ => false

/-- `CAN_DISMISS`. -/
def canDismiss : SourceStatus → Bool
  | discovered | inspected | failed | unsupported | blocked | stale => true
  | _ => false

/-- `CAN_EXTRACT`. -/
def canExtract : SourceStatus → Bool
  | attached | extracted | failed | stale => true
  | _ => false

end SourceStatus

/-- The actions of `transitionPatch`. -/
inductive SourceAction where
  | startInspect | finishInspect | failInspect | block | unsupported | approve | startExtract
  | finishExtract | failExtract | dismiss

/-- The result of `transitionPatch`. -/
inductive SourcePatch where
  | idempotent
  | set (status : SourceStatus)

/-- `transitionPatch`; `none` when it throws. -/
def transitionPatch (status : SourceStatus) : SourceAction → Option SourcePatch
  | .startInspect => if status.canInspect || status = .inspecting then some (.set .inspecting) else none
  | .finishInspect => some (.set .inspected)
  | .failInspect => some (.set .failed)
  | .block => some (.set .blocked)
  | .unsupported => some (.set .unsupported)
  | .approve =>
    if status = .attached || status = .extracted || status = .extracting then some .idempotent
    else if status.canApprove then some (.set .attached)
    else none
  | .startExtract =>
    if status.canExtract || status = .extracting then some (.set .extracting) else none
  | .finishExtract => some (.set .extracted)
  | .failExtract => some (.set .failed)
  | .dismiss =>
    if status = .dismissed then some .idempotent
    else if status.canDismiss then some (.set .dismissed)
    else none

/-- What `transitionSource` writes, when it neither throws nor refuses. -/
def transitioned (reportFinalized : Bool) (status : SourceStatus) (a : SourceAction) :
    Option SourceStatus :=
  match transitionPatch status a with
  | none => none
  | some .idempotent => some status
  | some (.set target) =>
    if reportFinalized && status.isResolved && !target.isResolved then none else some target

/-- What `insertManualSource` leaves of a source. -/
def readded : Option SourceStatus → SourceStatus
  | none => .discovered
  | some .dismissed => .discovered
  | some status => status

/-- On a finalized report no source becomes open. -/
theorem isOpen_of_transitioned {status target : SourceStatus} {a : SourceAction}
    (h : transitioned true status a = some target) (hopen : target.isOpen = true) :
    status.isOpen = true := by
  unfold transitioned at h
  split at h
  · cases h
  · cases h
    exact hopen
  · next target htarget =>
    split at h
    · cases h
    · next hallowed =>
      cases h
      rw [SourceStatus.isOpen_eq] at hopen ⊢
      simp only [Bool.true_and, Bool.and_eq_true, not_and] at hallowed
      cases hres : status.isResolved with
      | false => rfl
      | true => exact absurd hopen (hallowed hres)

end TalonHound.ReportLifecycle
