import TalonHound.Library.Run
import TalonHound.Candidates.GuardedRefresh

/-!
# Analyst decisions across refreshes

`preserveAnalystCandidates` puts the decisions of the stored rows back on a new extraction, before
it is reconciled. Runs of such refreshes keep the review status, the Context Only decision and the
promotion of a row.
-/

namespace TalonHound.Candidates

open ReportLifecycle (Assessment ReviewStatus MatchState)
open Bool

/-- `ANALYST_EXCLUSION_REVIEWS`. -/
def analystExclusionReviews : List ReviewStatus := [.contextOnly, .ignored, .rejected]

namespace CandidateInput

/-- `isContextOnlyCandidate`. -/
def isContextOnlyCandidate (c : CandidateInput) : Bool :=
  c.reviewStatus = some .contextOnly || c.assessment = some .contextOnly ||
    c.matchState = some .contextOnly

/-- The extraction takes the promotion back. -/
def overridesPromotion (c : CandidateInput) : Bool :=
  c.isContextOnlyCandidate || c.isIoc = some false ||
    c.evidence.membershipOutcome = some .needsReview || c.assessment = some .unknown

/-- The override of `promote_to_ioc`. -/
def promote (c : CandidateInput) : CandidateInput :=
  { c with
    assessment := some .suspicious
    role :=
      if ["reference", "legitimate_service", "hosting_platform"].contains (c.role.getD "") then
        some "unknown"
      else c.role
    isIoc := some true
    matchState := some (if c.matchedIocId.isSome then .existing else .new)
    evidence := { c.evidence with
      decisionSource := some "analyst"
      policyDecision := some "analyst_promoted_from_context_only" } }

/-- The review status of the row, and its Context Only decision. -/
def restoreReview (review : ReviewStatus) (c : CandidateInput) : CandidateInput :=
  if review = .contextOnly then
    { c with
      reviewStatus := some review
      assessment := some .contextOnly
      matchState := some .contextOnly }
  else { c with reviewStatus := some review }

/-- The candidate carries where it was promoted from. -/
def recordPromotion (origin : String) (c : CandidateInput) : CandidateInput :=
  { c with evidence := { c.evidence with promotedFrom := some origin } }

/-- The promotion of the row. -/
def restorePromotion (review : ReviewStatus) (promotedFrom : Option String) (c : CandidateInput) :
    CandidateInput :=
  match promotedFrom with
  | none => c
  | some origin =>
    let c := c.recordPromotion origin
    if review = .approved && c.overridesPromotion then c.promote else c

/-- The approval that a Create-IOCs outcome implies. -/
def restoreOutcome (row : Row) (c : CandidateInput) : CandidateInput :=
  if row.isCreated && !analystExclusionReviews.contains row.columns.reviewStatus &&
      c.reviewStatus = some .pending then
    { c with reviewStatus := some .approved }
  else c

/-- `applyAnalystState`. -/
def applyAnalystState (c : CandidateInput) : Option Row → CandidateInput
  | none => { c with reviewStatus := some .pending }
  | some row =>
    restoreOutcome row (restorePromotion row.columns.reviewStatus
      row.columns.evidence.promotedFrom (restoreReview row.columns.reviewStatus c))

/-- The stored link, for a candidate that has not been matched. -/
def carryStoredMatch (c : CandidateInput) : Option Row → CandidateInput
  | none => c
  | some row =>
    if c.matchedIocId.isNone && row.columns.matchedIocId.isSome then
      { c with
        matchedIocId := row.columns.matchedIocId
        matchedIocObservableType := orNull row.columns.matchedIocObservableType }
    else c

/-- The merge of one candidate. -/
def preserve (carry : Bool) (previousRows : List Row) (c : CandidateInput) : CandidateInput :=
  let prior := Rows.lookup Row.identity previousRows c.identity
  applyAnalystState (if carry then c.carryStoredMatch prior else c) prior

end CandidateInput

/-- `preserveAnalystCandidates`. -/
def preserveAnalystCandidates (carry : Bool) (candidates : List CandidateInput)
    (previousRows : List Row) : List CandidateInput :=
  candidates.map (CandidateInput.preserve carry previousRows)

/-- The review status of a row after a merge. -/
def Row.mergedReview (row : Row) : ReviewStatus :=
  if row.columns.reviewStatus = .pending && row.isCreated then .approved
  else row.columns.reviewStatus

namespace CandidateInput

variable {c : CandidateInput} {row : Row} {review : ReviewStatus} {promotedFrom : Option String}
  {carry : Bool} {rows : List Row}

theorem restoreReview_reviewStatus : (c.restoreReview review).reviewStatus = some review := by
  unfold restoreReview
  split <;> rfl

theorem restorePromotion_reviewStatus :
    (c.restorePromotion review promotedFrom).reviewStatus = c.reviewStatus := by
  unfold restorePromotion
  split
  · rfl
  · dsimp only
    split <;> rfl

/-- A merge keeps the review status, up to the approval that an outcome implies. -/
theorem applyAnalystState_reviewStatus :
    (c.applyAnalystState (some row)).reviewStatus = some row.mergedReview := by
  have hrestored : (restorePromotion row.columns.reviewStatus row.columns.evidence.promotedFrom
      (c.restoreReview row.columns.reviewStatus)).reviewStatus = some row.columns.reviewStatus := by
    rw [restorePromotion_reviewStatus, restoreReview_reviewStatus]
  unfold applyAnalystState restoreOutcome Row.mergedReview
  dsimp only
  generalize restorePromotion _ _ _ = merged at hrestored ⊢
  cases hreview : row.columns.reviewStatus <;> cases row.isCreated <;>
    simp [hrestored, hreview, analystExclusionReviews]

/-- A row that the analyst marked is merged as Context Only. -/
theorem applyAnalystState_contextOnly (h : row.columns.reviewStatus = .contextOnly) :
    (c.applyAnalystState (some row)).assessment = some .contextOnly ∧
      (c.applyAnalystState (some row)).matchState = some .contextOnly := by
  unfold applyAnalystState restoreOutcome restorePromotion restoreReview
  dsimp only
  rw [h]
  cases row.columns.evidence.promotedFrom <;> simp [analystExclusionReviews, recordPromotion]

/-- A promoted row is merged with its promotion, which is applied again where the extraction takes
it back. -/
theorem applyAnalystState_promoted {origin : String}
    (hreview : row.columns.reviewStatus = .approved)
    (hpromoted : row.columns.evidence.promotedFrom = some origin) :
    c.applyAnalystState (some row) = if (c.restoreReview .approved).overridesPromotion then
        ((c.restoreReview .approved).recordPromotion origin).promote
      else (c.restoreReview .approved).recordPromotion origin := by
  have hsame : ((c.restoreReview .approved).recordPromotion origin).overridesPromotion =
      (c.restoreReview .approved).overridesPromotion := rfl
  unfold applyAnalystState restorePromotion
  dsimp only
  rw [hreview, hpromoted]
  dsimp only
  refine if_neg ?_
  split <;> simp [promote, recordPromotion, restoreReview]

theorem applyAnalystState_promotedFrom {origin : String}
    (h : row.columns.evidence.promotedFrom = some origin) :
    (c.applyAnalystState (some row)).evidence.promotedFrom = some origin := by
  unfold applyAnalystState restoreOutcome restorePromotion
  dsimp only
  rw [h]
  dsimp only
  split <;> split <;> rfl

/-- The fields that a merge leaves alone. -/
def SameSource (c c' : CandidateInput) : Prop :=
  c'.identity = c.identity ∧ c'.matchedIocId = c.matchedIocId ∧
    c'.hasOriginalDocumentOccurrence = c.hasOriginalDocumentOccurrence

theorem SameSource.trans {c₁ c₂ c₃ : CandidateInput} (h : SameSource c₁ c₂)
    (h' : SameSource c₂ c₃) : SameSource c₁ c₃ :=
  ⟨h'.1.trans h.1, h'.2.1.trans h.2.1, h'.2.2.trans h.2.2⟩

theorem restoreReview_keeps : SameSource c (c.restoreReview review) := by
  unfold restoreReview
  split <;> exact ⟨rfl, rfl, rfl⟩

theorem restorePromotion_keeps : SameSource c (c.restorePromotion review promotedFrom) := by
  unfold restorePromotion
  split
  · exact ⟨rfl, rfl, rfl⟩
  · dsimp only
    split <;> exact ⟨rfl, rfl, rfl⟩

theorem restoreOutcome_keeps : SameSource c (c.restoreOutcome row) := by
  unfold restoreOutcome
  split <;> exact ⟨rfl, rfl, rfl⟩

/-- A merge changes neither the identity, nor the link, nor the occurrence in the document. -/
theorem applyAnalystState_keeps {prior : Option Row} :
    SameSource c (c.applyAnalystState prior) := by
  cases prior with
  | none => exact ⟨rfl, rfl, rfl⟩
  | some row =>
    exact restoreReview_keeps.trans (restorePromotion_keeps.trans restoreOutcome_keeps)

theorem carryStoredMatch_keeps {prior : Option Row} :
    (c.carryStoredMatch prior).identity = c.identity ∧
      (c.carryStoredMatch prior).hasOriginalDocumentOccurrence =
        c.hasOriginalDocumentOccurrence := by
  unfold carryStoredMatch
  split
  · exact ⟨rfl, rfl⟩
  · split <;> exact ⟨rfl, rfl⟩

theorem preserve_keeps : (c.preserve carry rows).identity = c.identity ∧
    (c.preserve carry rows).hasOriginalDocumentOccurrence = c.hasOriginalDocumentOccurrence := by
  unfold preserve
  rw [applyAnalystState_keeps.1, applyAnalystState_keeps.2.2]
  split
  · exact carryStoredMatch_keeps
  · exact ⟨rfl, rfl⟩

/-- The outcome writes the review status only, which the review of the row overwrites. -/
theorem restoreReview_restoreOutcome :
    (c.restoreOutcome row).restoreReview review = c.restoreReview review := by
  unfold restoreOutcome
  split
  · unfold restoreReview
    split <;> rfl
  · rfl

/-- The review of the row stands after its promotion. -/
theorem restoreReview_restorePromotion :
    ((c.restoreReview review).restorePromotion review promotedFrom).restoreReview review =
      (c.restoreReview review).restorePromotion review promotedFrom := by
  cases promotedFrom with
  | none =>
    unfold restorePromotion restoreReview
    split <;> rfl
  | some origin =>
    unfold restorePromotion
    dsimp only
    by_cases happroved : review = .approved
    · subst happroved
      unfold restoreReview
      simp only [reduceCtorEq, if_false]
      split <;> rfl
    · rw [decide_eq_false happroved, Bool.false_and, if_neg Bool.false_ne_true]
      unfold restoreReview
      split <;> rfl

theorem promote_promote : c.promote.promote = c.promote := by
  unfold promote
  dsimp only
  congr 1
  split
  · exact if_neg (by decide)
  · rfl

theorem restorePromotion_restorePromotion :
    (c.restorePromotion review promotedFrom).restorePromotion review promotedFrom =
      c.restorePromotion review promotedFrom := by
  cases promotedFrom with
  | none => rfl
  | some origin =>
    have hrecorded : (c.recordPromotion origin).promote.recordPromotion origin =
        (c.recordPromotion origin).promote := rfl
    unfold restorePromotion
    dsimp only
    split
    · rw [hrecorded]
      split
      · exact promote_promote
      · rfl
    · next hkept => exact if_neg hkept

/-- A merge that is repeated changes nothing. -/
theorem applyAnalystState_applyAnalystState {prior : Option Row} :
    (c.applyAnalystState prior).applyAnalystState prior = c.applyAnalystState prior := by
  cases prior with
  | none => rfl
  | some row =>
    unfold applyAnalystState
    dsimp only
    rw [restoreReview_restoreOutcome, restoreReview_restorePromotion,
      restorePromotion_restorePromotion]

/-- A candidate that has a link, or can get none, carries nothing. -/
theorem carryStoredMatch_eq_self
    (h : c.matchedIocId.isSome = true ∨ row.columns.matchedIocId = none) :
    c.carryStoredMatch (some row) = c := by
  refine if_neg ?_
  rcases h with hmatched | hnone
  · cases hid : c.matchedIocId with
    | none =>
      rw [hid] at hmatched
      cases hmatched
    | some id => simp
  · simp [hnone]

theorem carryStoredMatch_matched : (c.carryStoredMatch (some row)).matchedIocId.isSome = true ∨
      row.columns.matchedIocId = none := by
  unfold carryStoredMatch
  dsimp only
  cases hrow : row.columns.matchedIocId with
  | none => exact Or.inr rfl
  | some id =>
    refine Or.inl ?_
    cases hid : c.matchedIocId with
    | none => rfl
    | some id' => simp [hid]

/-- A repeated merge carries nothing more. -/
theorem carryStoredMatch_applyAnalystState {prior : Option Row} :
    ((c.carryStoredMatch prior).applyAnalystState prior).carryStoredMatch prior =
      (c.carryStoredMatch prior).applyAnalystState prior := by
  cases prior with
  | none => rfl
  | some row =>
    apply carryStoredMatch_eq_self
    rw [applyAnalystState_keeps.2.1]
    exact carryStoredMatch_matched

theorem preserve_preserve : (c.preserve carry rows).preserve carry rows = c.preserve carry rows := by
  have hcarried : ∀ c : CandidateInput, c.preserve true rows =
      (c.carryStoredMatch (Rows.lookup Row.identity rows c.identity)).applyAnalystState
        (Rows.lookup Row.identity rows c.identity) := fun _ => rfl
  have hmerged : ∀ c : CandidateInput, c.preserve false rows =
      c.applyAnalystState (Rows.lookup Row.identity rows c.identity) := fun _ => rfl
  cases carry with
  | true =>
    rw [hcarried (c.preserve true rows), preserve_keeps.1, hcarried c,
      carryStoredMatch_applyAnalystState, applyAnalystState_applyAnalystState]
  | false =>
    rw [hmerged (c.preserve false rows), preserve_keeps.1, hmerged c,
      applyAnalystState_applyAnalystState]

/-- The extraction says that the value is no direct IOC of the report, or reads it as invalid
without taking the promotion back. -/
def withdraws (c : CandidateInput) : Bool :=
  nonIocCandidateTypes.contains (FileArtifacts.lowerCase c.identity.candidateType) ||
    c.evidence.isParserDerivedMetadata || !c.evidence.isDirectSourceObservable ||
    (c.evidence.reservedAddress || c.evidence.nonActionableLocal) ||
    (!(c.restoreReview .approved).overridesPromotion &&
      (c.assessment = some .invalid || c.matchState = some .invalid))

theorem withdraws_carryStoredMatch {prior : Option Row} :
    (c.carryStoredMatch prior).withdraws = c.withdraws := by
  unfold carryStoredMatch
  split
  · rfl
  · split <;> rfl

/-- A promoted and approved row passes the gates, unless the extraction withdraws it. -/
theorem passesIndicatorTypeGates_of_promoted {origin : String}
    (hreview : row.columns.reviewStatus = .approved)
    (hpromoted : row.columns.evidence.promotedFrom = some origin) (h : c.withdraws = false) :
    (candidateColumns .original (c.applyAnalystState (some row))).passesIndicatorTypeGates =
      true := by
  rw [applyAnalystState_promoted hreview hpromoted]
  unfold withdraws at h
  simp only [or_eq_false_iff, not_eq_false', and_eq_false_iff] at h
  obtain ⟨⟨⟨⟨htype, hparser⟩, hdirect⟩, hreserved, hlocal⟩, hinvalid⟩ := h
  unfold Next.passesIndicatorTypeGates Next.typeOf candidateColumns
  split
  · -- The promotion is applied again.
    unfold promote recordPromotion restoreReview
    simp only [reduceCtorEq, if_false, hparser, hdirect, hreserved, hlocal, htype]
    cases c.matchedIocId <;> simp
  · next hkept =>
    have hvalid := hinvalid.resolve_left hkept
    unfold overridesPromotion isContextOnlyCandidate restoreReview at hkept
    unfold recordPromotion restoreReview
    cases hassessment : c.assessment <;> cases hstate : c.matchState <;> simp_all

end CandidateInput

/-- An approved promotion counts as an assertion of the publisher. -/
theorem Next.isPublisher_of_promoted {n : Next}
    (h : n.isAnalystConfirmedPublisherEvidence = true) :
    n.isPublisherAuthoritativeReportIocMember = true := by
  have hconfirmed : n.isAnalystConfirmed = true := by
    exact (and_eq_true _ _ ▸ h).2
  unfold isPublisherAuthoritativeReportIocMember
  split
  · rfl
  · exact hconfirmed
  · exact h
  · unfold isPublisherAssertedReportIoc
    rw [h, Bool.or_true, Bool.true_or, Bool.or_true]

end TalonHound.Candidates
