import TalonHound.Candidates.Reconcile

/-!
# The refresh guard

`buildRefreshMembershipDiff` compares the stored rows with a refreshed candidate list, and
`evaluateRefreshMembershipGuard` decides whether the refresh is applied.
-/

namespace TalonHound.Candidates

/-- `key`. -/
def diffKey (k : Identity) : String := k.candidateType ++ ":" ++ k.normalizedValue

/-- `CREATED_OUTCOMES`. -/
def createdOutcomes : List PromotionOutcome := [.created, .alreadyExisting]

/-- A Create-IOCs outcome is recorded on the row. -/
def Row.isCreated (row : Row) : Bool := row.promotionOutcome.any createdOutcomes.contains

/-- `isReviewed`. -/
def Row.isReviewed (row : Row) : Bool := row.columns.reviewStatus ≠ .pending || row.isCreated

/-- The membership mode of a document. -/
inductive Mode where
  | a | b
  deriving DecidableEq

namespace Next

/-- `source_assertion` of `stateOf`. -/
def statedAssertion (c : Next) : Option String :=
  (orNull c.columns.sourceAssertion).or (orNull c.columns.evidence.sourceAssertion)

/-- `EXPLICIT` has the assertion. -/
def isExplicit (c : Next) : Bool := c.statedAssertion.any explicitPublisherIocAssertions.contains

/-- `mode` of `stateOf`. -/
def mode (c : Next) : Mode := if c.columns.evidence.documentHasAuthoritativeScope then .a else .b

end Next

/-- `documentMode`. -/
def documentMode (states : List Next) : Option Mode :=
  if states = [] then none
  else if states.any (·.mode = .a) then some .a
  else some .b

/-- `removalReason`, and the reasons of an identity that is not extracted. -/
inductive RemovalReason where
  | leftDocumentLinkedSourceKept | identityLeftDocument | publisherAssertionLost | becameContextOnly
  | excludedByTypeGate | modeChanged | membershipRule

/-- `removalReason`. -/
def removalReason (before after : Next) : RemovalReason :=
  if before.isExplicit && !after.isExplicit then .publisherAssertionLost
  else if after.isContextOnlyCandidate then .becameContextOnly
  else if !after.columns.isIoc || after.columns.assessment = .invalid then .excludedByTypeGate
  else if before.mode = .b && after.mode = .a then .modeChanged
  else .membershipRule

/-- `ROW_OUTCOMES`. -/
inductive RowOutcome where
  | deleted | originalOccurrenceCleared | kept
  deriving DecidableEq

/-- A stored row and the values that the refresh has under its key. -/
structure Comparison where
  row : Row
  after : Option Next
  hasLinks : Bool

namespace Comparison

/-- `rowOutcome`. -/
def rowOutcome (c : Comparison) : RowOutcome :=
  if c.after.isSome then .kept
  else if c.hasLinks then .originalOccurrenceCleared
  else .deleted

/-- `unionMemberAfter`. -/
def unionMemberAfter (c : Comparison) : Bool :=
  c.rowOutcome = .originalOccurrenceCleared && c.row.values.passesIndicatorTypeGates

/-- `before.member && !after?.member`. -/
def isRemoved (c : Comparison) : Bool :=
  c.row.values.isReportIndicatorMember && !c.after.any Next.isReportIndicatorMember

/-- `iocLinked`. -/
def iocLinked (c : Comparison) : Bool := c.row.columns.matchedIocId.isSome || c.row.isCreated

/-- The row is one of `iocLinkedLosses`. -/
def isIocLinkedLoss (c : Comparison) : Bool :=
  c.iocLinked && (c.rowOutcome = .deleted || c.isRemoved)

/-- The row is one of `iocLinkChanges`. -/
def isIocLinkChange (c : Comparison) : Bool :=
  c.row.columns.matchedIocId.isSome &&
    c.after.any fun next => next.columns.matchedIocId ≠ c.row.columns.matchedIocId

/-- The row is one of `reviewedDeleted`. -/
def isReviewedDeleted (c : Comparison) : Bool := c.rowOutcome = .deleted && c.row.isReviewed

/-- `reason_code`. -/
def reasonCode (c : Comparison) : RemovalReason :=
  match c.after with
  | some after => removalReason c.row.values after
  | none => if c.hasLinks then .leftDocumentLinkedSourceKept else .identityLeftDocument

end Comparison

/-- A line of the material fingerprint. -/
inductive MaterialLine where
  | removed (identity : String) (reasonCode : RemovalReason) (rowOutcome : RowOutcome)
      (reviewed : Bool)
  | deleted (identity : String) (reviewStatus : ReportLifecycle.ReviewStatus)
      (promotionOutcome : Option PromotionOutcome)
  | iocLink (identity : String) (fromIocId toIocId : Option ℕ)
  | iocLoss (identity : String) (matchedIocId : Option ℕ) (rowOutcome : RowOutcome)

/-- An entry of `removed_indicators`. -/
structure RemovedIndicator where
  identity : String
  reasonCode : RemovalReason
  rowOutcome : RowOutcome
  (unionMemberAfter reviewed publisherAsserted : Bool)
  matchedIocId : Option ℕ

/-- `buildRefreshMembershipDiff`, as far as the guard reads it; `removed` is the whole list. -/
structure MembershipDiff where
  removed : List RemovedIndicator
  (reviewedDeleted iocLinkChanges iocLinkedLosses : List Comparison)
  (membersBefore membersAfter : ℕ)
  (modeBefore modeAfter : Option Mode)
  newWarningCodes : List String
  materialFingerprint : String

/-- The entry of a removed row. -/
def Comparison.removedIndicator (c : Comparison) : RemovedIndicator where
  identity := diffKey c.row.identity
  reasonCode := c.reasonCode
  rowOutcome := c.rowOutcome
  unionMemberAfter := c.unionMemberAfter
  reviewed := c.row.isReviewed
  publisherAsserted := c.row.values.isExplicit
  matchedIocId := c.row.columns.matchedIocId

/-- The argument of `buildRefreshMembershipDiff`; of the quality records the codes of the warnings
that are no information. -/
structure RefreshInput where
  previousRows : List Row
  nextCandidates : List CandidateInput
  linkedCandidateIds : List ℕ
  (previousWarningCodes nextWarningCodes : List String)

namespace RefreshInput

/-- `prior`. -/
def prior (input : RefreshInput) : List Row :=
  InsertionMap.ofList (diffKey ∘ Row.identity)
    (input.previousRows.filter (·.hasOriginalDocumentOccurrence))

/-- `next`: `persistedShape` of the candidates. -/
def next (input : RefreshInput) : List Next :=
  InsertionMap.ofList (diffKey ∘ Next.identity)
    (input.nextCandidates.map (candidateColumns .original))

/-- The comparison of a row. -/
def compare (input : RefreshInput) (row : Row) : Comparison where
  row := row
  after := Rows.lookup (diffKey ∘ Next.identity) input.next (diffKey row.identity)
  hasLinks := input.linkedCandidateIds.contains row.id

/-- The comparisons of the rows of the document. -/
def comparisons (input : RefreshInput) : List Comparison := input.prior.map input.compare

end RefreshInput

/-- `materialFingerprint`, up to the digest of its lines. -/
def materialFingerprint (digest : List MaterialLine → String) (removed : List RemovedIndicator)
    (reviewedDeleted iocLinkChanges iocLinkedLosses : List Comparison) : String :=
  digest (removed.map (fun r => .removed r.identity r.reasonCode r.rowOutcome r.reviewed) ++
    reviewedDeleted.map (fun c =>
      .deleted (diffKey c.row.identity) c.row.columns.reviewStatus c.row.promotionOutcome) ++
    iocLinkChanges.map (fun c =>
      .iocLink (diffKey c.row.identity) c.row.columns.matchedIocId
        (c.after.bind (·.columns.matchedIocId))) ++
    iocLinkedLosses.map fun c =>
      .iocLoss (diffKey c.row.identity) c.row.columns.matchedIocId c.rowOutcome)

/-- `buildRefreshMembershipDiff`. -/
def buildRefreshMembershipDiff (digest : List MaterialLine → String) (input : RefreshInput) :
    MembershipDiff :=
  let removed := (input.comparisons.filter (·.isRemoved)).map (·.removedIndicator)
  let reviewedDeleted := input.comparisons.filter (·.isReviewedDeleted)
  let iocLinkChanges := input.comparisons.filter (·.isIocLinkChange)
  let iocLinkedLosses := input.comparisons.filter (·.isIocLinkedLoss)
  { removed := removed
    reviewedDeleted := reviewedDeleted
    iocLinkChanges := iocLinkChanges
    iocLinkedLosses := iocLinkedLosses
    membersBefore := input.prior.countP fun row => row.values.isReportIndicatorMember
    membersAfter := input.next.countP (·.isReportIndicatorMember)
    modeBefore := documentMode (input.prior.map Row.values)
    modeAfter := documentMode input.next
    newWarningCodes := input.nextWarningCodes.filter (· ∉ input.previousWarningCodes)
    materialFingerprint :=
      materialFingerprint digest removed reviewedDeleted iocLinkChanges iocLinkedLosses }

namespace MembershipDiff

/-- `counts.removed_reviewed_indicators`. -/
def removedReviewedIndicators (diff : MembershipDiff) : ℕ :=
  diff.removed.countP fun r => r.reviewed && !r.unionMemberAfter

/-- `counts.removed_publisher_asserted`. -/
def removedPublisherAsserted (diff : MembershipDiff) : ℕ :=
  diff.removed.countP (·.publisherAsserted)

/-- `counts.removed_reviewed_any`. -/
def removedReviewedAny (diff : MembershipDiff) : ℕ := diff.removed.countP (·.reviewed)

end MembershipDiff

/-- `REFRESH_GUARD_REASONS` of the changes. -/
inductive GuardReason where
  | reviewedIndicatorRemoved | reviewedCandidateDeleted | publisherAssertionLost
  | bulkMembershipLoss | iocLinkChanged | membershipModeChanged | newQualityWarnings

/-- `MATERIAL_REASONS`. -/
def GuardReason.isMaterial : GuardReason → Bool
  | membershipModeChanged => false
  | newQualityWarnings => false
  | _ => true

/-- At least five Indicators and a fifth of those before. -/
def MembershipDiff.isBulkLoss (diff : MembershipDiff) : Bool :=
  5 ≤ diff.removed.length && 0 < diff.membersBefore && diff.membersBefore ≤ 5 * diff.removed.length

/-- `reasons`, with their counts. -/
def MembershipDiff.reasons (diff : MembershipDiff) : List (GuardReason × ℕ) :=
  [ (.reviewedIndicatorRemoved, diff.removedReviewedIndicators),
    (.reviewedCandidateDeleted, diff.reviewedDeleted.length),
    (.publisherAssertionLost, diff.removedPublisherAsserted),
    (.bulkMembershipLoss, if diff.isBulkLoss then diff.removed.length else 0),
    (.iocLinkChanged, diff.iocLinkChanges.length),
    (.membershipModeChanged,
      if diff.modeBefore.isSome && diff.modeAfter.isSome && diff.modeBefore ≠ diff.modeAfter then 1
      else 0),
    (.newQualityWarnings, diff.newWarningCodes.length) ].filter fun reason => 0 < reason.2

/-- `acceptanceAuthorization` asks for an admin. -/
def MembershipDiff.requiresAdmin (diff : MembershipDiff) : Bool :=
  0 < diff.removedReviewedAny || 0 < diff.removedPublisherAsserted ||
    0 < diff.reviewedDeleted.length || 0 < diff.iocLinkedLosses.length ||
    0 < diff.iocLinkChanges.length

/-- `normalizeRefreshMembershipPolicy`, with the reason trimmed. -/
inductive RefreshPolicy where
  | protect
  | accept (reason : String) (previewFingerprint : Option String)

/-- The role of the accepting principal. -/
inductive AcceptorRole where
  | admin | system | analyst | other
  deriving DecidableEq

/-- `REFRESH_GUARD_DECISIONS`. -/
inductive GuardDecision where
  | apply | applyAccepted | block
  deriving DecidableEq

/-- There is no `acceptanceProblem`. -/
def MembershipDiff.isAccepted (diff : MembershipDiff) (role : AcceptorRole) (reason : String)
    (previewFingerprint : Option String) : Bool :=
  role ≠ .other && (!diff.requiresAdmin || role ≠ .analyst) && 8 ≤ reason.length &&
    previewFingerprint = some diff.materialFingerprint

/-- `evaluateRefreshMembershipGuard`. -/
def evaluateRefreshMembershipGuard (diff : MembershipDiff) (policy : RefreshPolicy)
    (role : AcceptorRole) : GuardDecision :=
  if (diff.reasons.filter fun reason => reason.1.isMaterial) = [] then .apply
  else match policy with
    | .protect => .block
    | .accept reason previewFingerprint =>
      if diff.isAccepted role reason previewFingerprint then .applyAccepted else .block

variable {diff : MembershipDiff} {policy : RefreshPolicy} {role : AcceptorRole}

/-- The refresh is applied exactly when there is no material change. -/
theorem evaluate_eq_apply : evaluateRefreshMembershipGuard diff policy role = .apply ↔
    diff.removedReviewedIndicators = 0 ∧ diff.reviewedDeleted = [] ∧
      diff.removedPublisherAsserted = 0 ∧ diff.isBulkLoss = false ∧ diff.iocLinkChanges = [] := by
  have hdecision : evaluateRefreshMembershipGuard diff policy role = .apply ↔
      (diff.reasons.filter fun reason => reason.1.isMaterial) = [] := by
    unfold evaluateRefreshMembershipGuard
    split
    · next h => exact iff_of_true rfl h
    · next h =>
      refine iff_of_false ?_ h
      split
      · decide
      · split <;> decide
  rw [hdecision]
  unfold MembershipDiff.reasons
  rw [List.filter_eq_nil_iff]
  simp only [List.mem_filter, List.mem_cons, List.not_mem_nil, or_false, decide_eq_true_eq]
  constructor
  · intro h
    have hzero : ∀ (reason : GuardReason) (count : ℕ), reason.isMaterial = true →
        (reason, count) ∈ [ (.reviewedIndicatorRemoved, diff.removedReviewedIndicators),
          (.reviewedCandidateDeleted, diff.reviewedDeleted.length),
          (.publisherAssertionLost, diff.removedPublisherAsserted),
          (.bulkMembershipLoss, if diff.isBulkLoss then diff.removed.length else 0),
          (.iocLinkChanged, diff.iocLinkChanges.length) ] → count = 0 := by
      intro reason count hmaterial hmem
      by_contra hcount
      refine h (reason, count) ⟨?_, by omega⟩ hmaterial
      simp only [List.mem_cons, List.not_mem_nil, or_false] at hmem
      rcases hmem with hmem | hmem | hmem | hmem | hmem <;> simp only [hmem, true_or, or_true]
    have hbulk := hzero .bulkMembershipLoss
      (if diff.isBulkLoss then diff.removed.length else 0) rfl (by simp)
    refine ⟨hzero .reviewedIndicatorRemoved _ rfl (by simp), ?_,
      hzero .publisherAssertionLost _ rfl (by simp), ?_, ?_⟩
    · exact List.length_eq_zero_iff.mp (hzero .reviewedCandidateDeleted _ rfl (by simp))
    · by_contra hloss
      rw [Bool.not_eq_false] at hloss
      rw [if_pos hloss] at hbulk
      unfold MembershipDiff.isBulkLoss at hloss
      rw [hbulk] at hloss
      cases hloss
    · exact List.length_eq_zero_iff.mp (hzero .iocLinkChanged _ rfl (by simp))
  · rintro ⟨hreviewed, hdeleted, hpublisher, hbulk, hlinks⟩ ⟨reason, count⟩ ⟨hmem, hcount⟩ hmaterial
    rw [hreviewed, hdeleted, hpublisher, hbulk, hlinks] at hmem
    rcases hmem with ⟨rfl, rfl⟩ | ⟨rfl, rfl⟩ | ⟨rfl, rfl⟩ | ⟨rfl, rfl⟩ | ⟨rfl, rfl⟩ |
      ⟨rfl, -⟩ | ⟨rfl, -⟩
    all_goals first
      | exact absurd hcount (Nat.lt_irrefl 0)
      | cases hmaterial

end TalonHound.Candidates
