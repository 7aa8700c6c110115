import TalonHound.Candidates.Selection

/-!
# Deciding all that blocks a finalization

Approving all candidates of the tab `needs_review` leaves nothing to review, as long as no pending
candidate is hidden from the tab: by the outcome needs_review, or by the scope that the tab infers.
-/

namespace TalonHound.Candidates

open FileArtifacts (lowerCase)

variable {rows : List Row} {links : List (ℕ × ℕ)} {r : Row}

/-- The row as the selection sees it. -/
def Row.inScope (rows : List Row) (row : Row) : Row :=
  if rows.any (·.values.isPublisherAssertedReportIoc) then row.stampScope else row

theorem withInferredPublisherIocScope_eq :
    withInferredPublisherIocScope rows = rows.map (Row.inScope rows) := by
  unfold withInferredPublisherIocScope
  split
  · next h => exact List.map_congr_left fun r _ => (if_pos h).symm
  · next h =>
    have hsame : rows.map (Row.inScope rows) = rows.map id :=
      List.map_congr_left fun r _ => if_neg h
    rw [hsame, List.map_id]

/-- The scope of a row is all that is inferred. -/
theorem Row.inScope_cases (rows : List Row) (r : Row) : r.inScope rows = r ∨
    (rows.any (·.values.isPublisherAssertedReportIoc) = true ∧
      r.values.hasAuthoritativePublisherIocScope = false ∧
      r.hasOriginalDocumentOccurrence = true ∧
      r.inScope rows = { r with columns := { r.columns with
        evidence := { r.columns.evidence with documentHasAuthoritativeScope := true } } }) := by
  unfold inScope stampScope
  split
  · next hasserted =>
    split
    · exact Or.inl rfl
    · next hscope =>
      rw [Bool.or_eq_true, not_or, Bool.not_eq_true, Bool.not_eq_true, Bool.not_eq_false'] at hscope
      exact Or.inr ⟨hasserted, hscope.1, hscope.2, rfl⟩
  · exact Or.inl rfl

theorem Row.inScope_keeps (rows : List Row) (r : Row) : (r.inScope rows).id = r.id ∧
    (r.inScope rows).columns.reviewStatus = r.columns.reviewStatus ∧
    (r.inScope rows).hasOriginalDocumentOccurrence = r.hasOriginalDocumentOccurrence ∧
    (r.inScope rows).values.passesIndicatorTypeGates = r.values.passesIndicatorTypeGates ∧
    (r.inScope rows).values.assertion = r.values.assertion := by
  rcases r.inScope_cases rows with hsame | ⟨-, -, -, hstamped⟩
  · rw [hsame]
    exact ⟨rfl, rfl, rfl, rfl, rfl⟩
  · rw [hstamped]
    exact ⟨rfl, rfl, rfl, rfl, rfl⟩

/-- The selection reads a scope into the rows of the document, when the publisher asserts one. -/
theorem Row.inScope_scope (rows : List Row) (r : Row) :
    (r.inScope rows).values.hasAuthoritativePublisherIocScope =
        (r.values.hasAuthoritativePublisherIocScope ||
          (r.hasOriginalDocumentOccurrence &&
            rows.any fun r => r.values.isPublisherAssertedReportIoc)) ∧
      (r.inScope rows).columns.evidence.membershipOutcome = r.columns.evidence.membershipOutcome ∧
      (r.inScope rows).values.isPublisherAssertedReportIoc =
        r.values.isPublisherAssertedReportIoc := by
  unfold inScope stampScope
  cases hany : rows.any fun r => r.values.isPublisherAssertedReportIoc with
  | false => simp
  | true =>
    cases hscope : r.values.hasAuthoritativePublisherIocScope with
    | true => simp [hscope]
    | false =>
      cases hflag : r.hasOriginalDocumentOccurrence with
      | false => simp [hscope]
      | true => exact ⟨rfl, rfl, rfl⟩

/-- A pending row of the document is a member by its decision, or, without one, by the assertion of
the publisher or for want of a scope. -/
theorem Next.isPublisher_of_pending {c : Next} (hpending : c.columns.reviewStatus = .pending) :
    c.isPublisherAuthoritativeReportIocMember = true ↔
      c.columns.evidence.membershipOutcome = some .member ∨
        (c.columns.evidence.membershipOutcome = none ∧
          (c.hasAuthoritativePublisherIocScope = false ∨
            c.isPublisherAssertedReportIoc = true)) := by
  have hconfirmed : c.isAnalystConfirmed = false := by
    unfold isAnalystConfirmed
    rw [hpending]
    rfl
  have hpromoted : c.isAnalystConfirmedPublisherEvidence = false := by
    unfold isAnalystConfirmedPublisherEvidence
    rw [hconfirmed, Bool.and_false]
  unfold isPublisherAuthoritativeReportIocMember
  cases houtcome : c.columns.evidence.membershipOutcome with
  | none => simp
  | some outcome =>
    cases outcome with
    | member => simp
    | needsReview => simp [hconfirmed]
    | contextOnly => simp [hpromoted]
    | excluded => simp [hpromoted]

/-- The row is pending and fit for the inventory, but the tab does not show it: it is not linked,
and its outcome is needs_review, or it has neither an outcome nor a scope nor an assertion of the
publisher in a report that has one elsewhere. -/
def Row.isHidden (links : List (ℕ × ℕ)) (rows : List Row) (row : Row) : Bool :=
  row.columns.reviewStatus = .pending && row.hasOriginalDocumentOccurrence &&
    row.values.passesIndicatorTypeGates &&
    !row.values.isLinkedSourceAssertedIoc (Report.isLinked links row) &&
    (row.columns.evidence.membershipOutcome = some .needsReview ||
      (row.columns.evidence.membershipOutcome.isNone &&
        !row.values.hasAuthoritativePublisherIocScope &&
        !row.values.isPublisherAssertedReportIoc &&
        rows.any fun r => r.values.isPublisherAssertedReportIoc))

theorem Row.isPendingActionable_iff : r.isPendingActionable links = true ↔
    r.columns.reviewStatus = .pending ∧
      (r.isUnionMember links = true ∨ r.values.isNeedsReviewCandidate = true) := by
  unfold isPendingActionable Next.isPendingReviewActionableIndicator
    Next.isReviewActionableIndicator isUnionMember
  rw [Bool.and_eq_true, Bool.or_eq_true, decide_eq_true_eq, and_comm]
  rfl

/-- The tab shows the pending actionable rows that are not hidden. -/
theorem Row.isUnionMember_inScope_iff (hpending : r.columns.reviewStatus = .pending) :
    (r.inScope rows).isUnionMember links = true ↔
      r.isPendingActionable links = true ∧ r.isHidden links rows = false := by
  obtain ⟨hid, hreview, hflag, hgates, hassertion⟩ := r.inScope_keeps rows
  have hlinked : (r.inScope rows).values.isLinkedSourceAssertedIoc
      (Report.isLinked links (r.inScope rows)) =
        r.values.isLinkedSourceAssertedIoc (Report.isLinked links r) := by
    unfold Next.isLinkedSourceAssertedIoc
    rw [hassertion, isLinked_of_id hid]
  obtain ⟨hscope, houtcome, hasserted⟩ := r.inScope_scope rows
  have hmember : (r.inScope rows).isUnionMember links = true ↔
      r.values.passesIndicatorTypeGates = true ∧
        (r.hasOriginalDocumentOccurrence = true ∧
            (r.inScope rows).values.isPublisherAuthoritativeReportIocMember = true ∨
          r.values.isLinkedSourceAssertedIoc (Report.isLinked links r) = true) := by
    unfold isUnionMember
    rw [Next.isUnionReportIndicatorMember_iff, hgates, hlinked]
    exact Iff.rfl.and (or_congr (and_congr_left' (by rw [← hflag]; exact Iff.rfl)) Iff.rfl)
  have hactionable : r.isPendingActionable links = true ↔ r.values.passesIndicatorTypeGates = true ∧
        (r.hasOriginalDocumentOccurrence = true ∧
            (r.values.isPublisherAuthoritativeReportIocMember = true ∨
              r.columns.evidence.membershipOutcome = some .needsReview) ∨
          r.values.isLinkedSourceAssertedIoc (Report.isLinked links r) = true) := by
    rw [isPendingActionable_iff]
    unfold isUnionMember Next.isNeedsReviewCandidate
    rw [Next.isUnionReportIndicatorMember_iff, Bool.and_eq_true, Bool.and_eq_true,
      decide_eq_true_eq]
    constructor
    · rintro ⟨-, ⟨hpasses, ⟨hdocument, hpublisher⟩ | hasserts⟩ | ⟨⟨hdocument, hneeds⟩, hpasses⟩⟩
      · exact ⟨hpasses, Or.inl ⟨hdocument, Or.inl hpublisher⟩⟩
      · exact ⟨hpasses, Or.inr hasserts⟩
      · exact ⟨hpasses, Or.inl ⟨hdocument, Or.inr hneeds⟩⟩
    · rintro ⟨hpasses, ⟨hdocument, hpublisher | hneeds⟩ | hasserts⟩
      · exact ⟨hpending, Or.inl ⟨hpasses, Or.inl ⟨hdocument, hpublisher⟩⟩⟩
      · exact ⟨hpending, Or.inr ⟨⟨hdocument, hneeds⟩, hpasses⟩⟩
      · exact ⟨hpending, Or.inl ⟨hpasses, Or.inr hasserts⟩⟩
  have hpublisher := Next.isPublisher_of_pending (c := r.values) hpending
  have hpublisher' := Next.isPublisher_of_pending (c := (r.inScope rows).values)
    (hreview.trans hpending)
  rw [hscope, hasserted, show (r.inScope rows).values.columns.evidence.membershipOutcome =
    r.columns.evidence.membershipOutcome from houtcome] at hpublisher'
  rw [show r.values.columns.evidence.membershipOutcome =
    r.columns.evidence.membershipOutcome from rfl] at hpublisher
  unfold isHidden
  rw [hmember, hactionable, hpublisher, hpublisher', hpending]
  generalize r.values.passesIndicatorTypeGates = gates
  generalize r.values.isLinkedSourceAssertedIoc (Report.isLinked links r) = linked
  generalize r.hasOriginalDocumentOccurrence = flag
  -- Only an unlinked row of the document that passes the gates depends on the scope.
  cases gates with
  | false => simp
  | true =>
    cases linked with
    | true => simp
    | false =>
      cases flag with
      | false => simp
      | true =>
        cases r.columns.evidence.membershipOutcome with
        | some outcome => cases outcome <;> simp
        | none =>
          cases r.values.hasAuthoritativePublisherIocScope <;>
            cases r.values.isPublisherAssertedReportIoc <;> simp

/-- A hidden row blocks the finalization. -/
theorem Row.isPendingActionable_of_hidden (h : r.isHidden links rows = true) :
    r.columns.reviewStatus = .pending ∧ r.isPendingActionable links = true := by
  unfold isHidden at h
  simp only [Bool.and_eq_true, Bool.or_eq_true, Bool.not_eq_true', decide_eq_true_eq,
    Option.isNone_iff_eq_none] at h
  obtain ⟨⟨⟨⟨hpending, hflag⟩, hgates⟩, -⟩, hreading⟩ := h
  refine ⟨hpending, isPendingActionable_iff.mpr ⟨hpending, ?_⟩⟩
  rcases hreading with hneeds | ⟨⟨⟨houtcome, hscope⟩, -⟩, -⟩
  · refine Or.inr ?_
    unfold Next.isNeedsReviewCandidate values
    rw [Bool.and_eq_true, Bool.and_eq_true, decide_eq_true_eq]
    exact ⟨⟨hflag, hneeds⟩, hgates⟩
  · refine Or.inl (Next.isUnionReportIndicatorMember_iff.mpr ⟨hgates, Or.inl ⟨hflag, ?_⟩⟩)
    exact (Next.isPublisher_of_pending hpending).mpr (Or.inr ⟨houtcome, Or.inl hscope⟩)

/-- The filters of the tab `needs_review` alone. -/
def needsReviewFilters : SelectionFilters := .ofTab .needsReview

/-- The rows that the tab selects. -/
def needsReviewRows (links : List (ℕ × ℕ)) (rows : List Row) : List Row :=
  filterCandidatesForSelection links rows needsReviewFilters []

/-- The candidates after all that the tab matches are approved. -/
def approveNeedsReview (links : List (ℕ × ℕ)) (rows : List Row) : List Row :=
  applyAllMatchingSelection links rows needsReviewFilters [] .approve

/-- What blocks the finalization is selected and eligible, and nothing blocks it after the bulk
approval. -/
structure BulkDecides (links : List (ℕ × ℕ)) (rows : List Row) : Prop where
  selected : ∀ r ∈ rows, r.isPendingActionable links = true →
    (∃ s ∈ needsReviewRows links rows, s.id = r.id) ∧
      r.id ∈ eligibleCandidateIds links (needsReviewRows links rows) .approve
  decided : pendingCount links (approveNeedsReview links rows) = 0

theorem needsReviewFilters_accepts : needsReviewFilters.accepts links r =
    (r.columns.reviewStatus = .pending && r.isUnionMember links) := by
  have hquery : r.matchesQuery "" = true := by
    have hempty : (lowerCase (trim "")).isEmpty = true := by decide
    unfold Row.matchesQuery
    dsimp only
    rw [hempty, Bool.true_or]
  change (_ && true && true && r.matchesQuery "" && true && true) = _
  rw [hquery]
  simp only [Bool.and_true]
  rfl

/-- The tab shows the pending rows that are members in the scope of the document. -/
theorem mem_needsReviewRows {s : Row} : s ∈ needsReviewRows links rows ↔
    ∃ r ∈ rows, r.columns.reviewStatus = .pending ∧
      (r.inScope rows).isUnionMember links = true ∧ r.inScope rows = s := by
  unfold needsReviewRows filterCandidatesForSelection
  rw [withInferredPublisherIocScope_eq, List.mem_filter, List.mem_map]
  constructor
  · rintro ⟨⟨r, hr, rfl⟩, haccepts⟩
    rw [needsReviewFilters_accepts] at haccepts
    simp only [Bool.and_eq_true, decide_eq_true_eq] at haccepts
    exact ⟨r, hr, (r.inScope_keeps rows).2.1.symm.trans haccepts.1.1, haccepts.1.2, rfl⟩
  · rintro ⟨r, hr, hpending, hunion, rfl⟩
    refine ⟨⟨r, hr, rfl⟩, ?_⟩
    rw [needsReviewFilters_accepts, (r.inScope_keeps rows).2.1, hpending, hunion]
    rfl

theorem mem_eligible {id : ℕ} :
    id ∈ eligibleCandidateIds links (needsReviewRows links rows) .approve ↔
      ∃ r ∈ rows, r.columns.reviewStatus = .pending ∧
        (r.inScope rows).isUnionMember links = true ∧ r.id = id := by
  unfold eligibleCandidateIds
  dsimp only
  rw [List.mem_map]
  constructor
  · rintro ⟨s, hs, rfl⟩
    obtain ⟨r, hr, hpending, hunion, rfl⟩ := mem_needsReviewRows.mp (List.mem_filter.mp hs).1
    exact ⟨r, hr, hpending, hunion, (r.inScope_keeps rows).1.symm⟩
  · rintro ⟨r, hr, hpending, hunion, rfl⟩
    refine ⟨r.inScope rows, List.mem_filter.mpr ⟨?_, hunion⟩, (r.inScope_keeps rows).1⟩
    exact mem_needsReviewRows.mpr ⟨r, hr, hpending, hunion, rfl⟩

/-- What is pending and actionable, the `UPDATE` approves. -/
theorem Row.isApprovable_of_pending (h : r.isPendingActionable links = true) :
    r.isApprovable links = true := by
  have hactionable := (Bool.and_eq_true _ _ ▸ h).1
  have hgates : r.values.passesIndicatorTypeGates = true := by
    unfold Next.isReviewActionableIndicator at hactionable
    rw [Bool.or_eq_true, Next.isUnionReportIndicatorMember_iff] at hactionable
    rcases hactionable with ⟨hpasses, -⟩ | hneeds
    · exact hpasses
    · unfold Next.isNeedsReviewCandidate at hneeds
      exact (Bool.and_eq_true _ _ ▸ hneeds).2
  unfold Next.passesIndicatorTypeGates values at hgates
  unfold isApprovable Next.isContextOnlyCandidate
  simp only [Bool.and_eq_true, Bool.not_eq_true', Bool.or_eq_false_iff] at hgates ⊢
  obtain ⟨⟨⟨⟨⟨⟨hioc, -⟩, -⟩, -⟩, -⟩, ⟨hstate, hreview⟩, hassessment⟩, -⟩ := hgates
  exact ⟨⟨hioc, ⟨hreview, hassessment⟩, hstate⟩, hactionable⟩

/-- An approved row awaits no review. -/
theorem Row.not_isPendingActionable (h : r.columns.reviewStatus ≠ .pending) :
    r.isPendingActionable links = false := by
  rw [← Bool.not_eq_true, isPendingActionable_iff]
  exact fun hactionable => h hactionable.1

/-- All that blocks a finalization can be found and decided in bulk exactly when no row is hidden
from the tab. -/
theorem bulk_approval_decides (hids : (rows.map Row.id).Nodup) :
    BulkDecides links rows ↔ ∀ r ∈ rows, r.isHidden links rows = false := by
  constructor
  · intro hbulk r hr
    by_contra hhidden
    rw [Bool.not_eq_false] at hhidden
    obtain ⟨hpending, hactionable⟩ := Row.isPendingActionable_of_hidden hhidden
    obtain ⟨s, hs, hid⟩ := (hbulk.selected r hr hactionable).1
    obtain ⟨r', hr', -, hunion, rfl⟩ := mem_needsReviewRows.mp hs
    obtain rfl : r' = r := List.inj_on_of_nodup_map hids hr' hr
      ((r'.inScope_keeps rows).1.symm.trans hid)
    have hshown := ((Row.isUnionMember_inScope_iff hpending).mp hunion).2
    rw [hhidden] at hshown
    cases hshown
  · intro hshown
    have heligible : ∀ r ∈ rows, r.isPendingActionable links = true →
        r.id ∈ eligibleCandidateIds links (needsReviewRows links rows) .approve := by
      intro r hr hactionable
      have hpending := (Row.isPendingActionable_iff.mp hactionable).1
      exact mem_eligible.mpr ⟨r, hr, hpending,
        (Row.isUnionMember_inScope_iff hpending).mpr ⟨hactionable, hshown r hr⟩, rfl⟩
    constructor
    · intro r hr hactionable
      refine ⟨?_, heligible r hr hactionable⟩
      have hpending := (Row.isPendingActionable_iff.mp hactionable).1
      have hunion := (Row.isUnionMember_inScope_iff hpending).mpr ⟨hactionable, hshown r hr⟩
      exact ⟨r.inScope rows, mem_needsReviewRows.mpr ⟨r, hr, hpending, hunion, rfl⟩,
        (r.inScope_keeps rows).1⟩
    · unfold pendingCount
      rw [List.countP_eq_zero]
      intro s hs
      rw [Bool.not_eq_true]
      unfold approveNeedsReview applyAllMatchingSelection at hs
      dsimp only at hs
      split at hs
      · -- Without an eligible candidate nothing is pending.
        next hnone =>
        by_contra hactionable
        rw [Bool.not_eq_false] at hactionable
        have hmem := heligible s hs hactionable
        unfold needsReviewRows at hmem
        rw [List.isEmpty_iff.mp hnone] at hmem
        cases hmem
      · obtain ⟨r, hr, rfl⟩ := List.mem_map.mp hs
        unfold Row.changeStatus
        dsimp only
        split
        · exact Row.not_isPendingActionable ReportLifecycle.ReviewStatus.noConfusion
        · next hunchanged =>
          by_contra hactionable
          rw [Bool.not_eq_false] at hactionable
          refine hunchanged ?_
          rw [Bool.and_eq_true]
          refine ⟨?_, Row.isApprovable_of_pending hactionable⟩
          rw [List.contains_iff_mem]
          exact heligible r hr hactionable

/-- A pending domain of the document with an outcome. -/
def decidedRow (id : ℕ) (value : String) (outcome : Option ReportLifecycle.MembershipOutcome) :
    Row where
  id := id
  identity := ⟨"domain", value⟩
  columns := { (candidateColumns .original (domainInput value "body")).columns with
    evidence := { plainEvidence with membershipOutcome := outcome } }
  hasOriginalDocumentOccurrence := true
  promotionOutcome := none

/-- A member, a row without a decision, and a linked row whose outcome is needs_review. -/
def shownRows : List Row :=
  [decidedRow 1 "a.test" (some .member), decidedRow 2 "b.test" none,
    decidedRow 3 "c.test" (some .needsReview)]

theorem bulk_approval_decides_shownRows :
    pendingCount [(3, 1)] shownRows = 3 ∧ BulkDecides [(3, 1)] shownRows :=
  ⟨by decide, (bulk_approval_decides (by decide)).mpr (by decide)⟩

/-- A row whose outcome is needs_review blocks the finalization and is not in the tab of that
name. -/
theorem needs_review_not_selected :
    ¬ ∀ (links : List (ℕ × ℕ)) (rows : List Row), (rows.map Row.id).Nodup →
      BulkDecides links rows := by
  intro hclaim
  have hbulk := hclaim [] [decidedRow 1 "a.test" (some .needsReview)] (by decide)
  have hleft : pendingCount []
      (approveNeedsReview [] [decidedRow 1 "a.test" (some .needsReview)]) = 1 := by
    decide
  rw [hbulk.decided] at hleft
  cases hleft

end TalonHound.Candidates
