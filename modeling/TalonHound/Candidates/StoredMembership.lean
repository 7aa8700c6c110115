import TalonHound.Candidates.StoredRow

/-!
# Membership of stored rows

On a row that the writers have stored, the predicates on the JSON record are the predicates on the
values that were written.
-/

namespace TalonHound.Candidates

open FileArtifacts (lowerCase)

variable {others : String → List (String × Json)} {ev : RowEvidence} {occ : Occurrence} {c : Next}
  {key : String} {v : Option Json} {linked : Bool}

section

variable (h : OtherKeys others)

include h

/-- Known and other fields have different keys. -/
theorem OtherKeys.nodup_fields (keys : List String) {known : List (String × Option Json)}
    (hkeys : known.map Prod.fst = keys) (hnodup : keys.Nodup)
    (hknown : ∀ k ∈ keys, k ∈ membershipKeys) (text : String) :
    ((known ++ otherFields others text).map Prod.fst).Nodup := by
  have hother : (otherFields others text).map Prod.fst = (others text).map Prod.fst := by
    unfold otherFields
    rw [List.map_map]
    rfl
  rw [List.map_append, hkeys, hother]
  refine List.nodup_append.mpr ⟨hnodup, h.nodup text, ?_⟩
  rintro a ha b hb rfl
  exact h.other text a hb (hknown a ha)

/-- A stored record has each key once. -/
theorem OtherKeys.nodup_record : ((ev.fields others).map Prod.fst).Nodup :=
  h.nodup_fields ["source_assertion", "membership_outcome", "is_direct_source_observable",
    "is_parser_derived_metadata", "document_has_authoritative_scope", "reserved_address",
    "non_actionable_local", "promoted_from", "occurrences"] rfl (by decide) (by decide) ev.rest

/-- A stored occurrence has each key once. -/
theorem OtherKeys.nodup_occurrence : ((occ.fields others).map Prod.fst).Nodup :=
  h.nodup_fields ["zone", "occurrence_kind", "asserted"] rfl (by decide) (by decide) occ.rest

/-- A record has no links of its own. -/
theorem OtherKeys.no_links : (ev.toJson others).get? "linked_sources" = none := by
  refine Json.get?_ofFields_of_notMem fun hmem => ?_
  unfold RowEvidence.fields at hmem
  rw [List.map_append, List.mem_append] at hmem
  rcases hmem with hknown | hother
  · revert hknown
    change "linked_sources" ∈ ["source_assertion", "membership_outcome",
      "is_direct_source_observable", "is_parser_derived_metadata",
      "document_has_authoritative_scope", "reserved_address", "non_actionable_local",
      "promoted_from", "occurrences"] → False
    decide
  · refine h.other ev.rest "linked_sources" ?_ (by decide)
    unfold otherFields at hother
    rw [List.map_map] at hother
    exact hother

/-- A key that membership reads has its field. -/
theorem RowEvidence.get? (hmem : (key, v) ∈ ev.fields others) : (ev.toJson others).get? key = v :=
  Json.get?_ofFields h.nodup_record hmem

/-- A field of a stored occurrence is found under its key. -/
theorem Occurrence.get? (hmem : (key, v) ∈ occ.fields others) :
    (Json.ofFields (occ.fields others)).get? key = v :=
  Json.get?_ofFields h.nodup_occurrence hmem

end

/-- The truth values of a record. -/
theorem RowEvidence.get?_bools (h : OtherKeys others) (ev : RowEvidence) :
    (ev.toJson others).get? "is_direct_source_observable" =
        some (.bool ev.isDirectSourceObservable) ∧
      (ev.toJson others).get? "is_parser_derived_metadata" =
        some (.bool ev.isParserDerivedMetadata) ∧
      (ev.toJson others).get? "document_has_authoritative_scope" =
        some (.bool ev.documentHasAuthoritativeScope) ∧
      (ev.toJson others).get? "reserved_address" =
        (if ev.reservedAddress then some (.bool true) else none) ∧
      (ev.toJson others).get? "non_actionable_local" =
        (if ev.nonActionableLocal then some (.bool true) else none) := by
  refine ⟨get? h ?_, get? h ?_, get? h ?_, get? h ?_, get? h ?_⟩ <;> simp [RowEvidence.fields]

/-- The texts, the promotion and the occurrences of a record. -/
theorem RowEvidence.get?_others (h : OtherKeys others) :
    (ev.toJson others).get? "source_assertion" = some (Json.ofText ev.sourceAssertion) ∧
      (ev.toJson others).get? "membership_outcome" =
        (ev.membershipOutcome.map fun o => .str (membershipOutcomeText o)) ∧
      (ev.toJson others).get? "promoted_from" =
        (ev.promotedFrom.map fun text => .obj (others text)) ∧
      (ev.toJson others).get? "occurrences" =
        some (.arr (ev.occurrences.map fun occ => Json.ofFields (occ.fields others))) := by
  refine ⟨get? h ?_, get? h ?_, get? h ?_, get? h ?_⟩ <;> simp [RowEvidence.fields]

/-- The fields of an occurrence that the rules read. -/
theorem Occurrence.get?_all (h : OtherKeys others) (occ : Occurrence) :
    (Json.ofFields (occ.fields others)).get? "zone" = some (Json.ofText occ.zone) ∧
      (Json.ofFields (occ.fields others)).get? "occurrence_kind" = occ.occurrenceKind.map Json.str ∧
      (Json.ofFields (occ.fields others)).get? "asserted" =
        (if occ.asserted then some (.bool true) else none) := by
  refine ⟨get? h ?_, get? h ?_, get? h ?_⟩ <;> simp [Occurrence.fields]

/-- Review statuses have different texts. -/
theorem reviewStatusText_eq {status status' : ReportLifecycle.ReviewStatus} :
    reviewStatusText status = reviewStatusText status' ↔ status = status' := by
  cases status <;> cases status' <;> decide

/-- Assessments have different texts. -/
theorem assessmentText_eq {a a' : ReportLifecycle.Assessment} :
    assessmentText a = assessmentText a' ↔ a = a' := by
  cases a <;> cases a' <;> decide

/-- Match states have different texts. -/
theorem matchStateText_eq {state state' : ReportLifecycle.MatchState} :
    matchStateText state = matchStateText state' ↔ state = state' := by
  cases state <;> cases state' <;> decide

/-- Membership outcomes have different texts. -/
theorem membershipOutcomeText_eq {o o' : ReportLifecycle.MembershipOutcome} :
    membershipOutcomeText o = membershipOutcomeText o' ↔ o = o' := by
  cases o <;> cases o' <;> decide

/-- Assessments are stored in lower case. -/
theorem lowerCase_assessmentText (a : ReportLifecycle.Assessment) :
    lowerCase (assessmentText a) = assessmentText a := by
  cases a <;> decide

/-- Match states are stored in lower case. -/
theorem lowerCase_matchStateText (state : ReportLifecycle.MatchState) :
    lowerCase (matchStateText state) = matchStateText state := by
  cases state <;> decide

namespace Next

variable {render : Json → String}

/-- A stored row has a review status, in lower case. -/
theorem stored_reviewOf : (c.stored others).reviewOf = reviewStatusText c.columns.reviewStatus := by
  have htext : ∀ status : ReportLifecycle.ReviewStatus,
      lowerCase (if (reviewStatusText status).isEmpty then "pending" else reviewStatusText status) =
        reviewStatusText status := by
    intro status
    cases status <;> decide
  exact htext c.columns.reviewStatus

/-- Storage keeps the analyst's confirmation. -/
theorem stored_isAnalystConfirmed :
    (c.stored others).isAnalystConfirmed = c.isAnalystConfirmed := by
  have htext : ∀ status : ReportLifecycle.ReviewStatus,
      ["approved", "created_ioc"].contains (reviewStatusText status) =
        analystConfirmedReviews.contains status := by
    intro status
    cases status <;> decide
  unfold StoredRow.isAnalystConfirmed isAnalystConfirmed
  rw [stored_reviewOf]
  exact htext c.columns.reviewStatus

/-- Storage keeps what is context only. -/
theorem stored_isContextOnlyCandidate :
    (c.stored others).isContextOnlyCandidate = c.isContextOnlyCandidate := by
  unfold StoredRow.isContextOnlyCandidate isContextOnlyCandidate
  rw [stored_reviewOf, show (c.stored others).assessment = assessmentText c.columns.assessment from
    rfl, show (c.stored others).matchState = matchStateText c.columns.matchState from rfl,
    lowerCase_assessmentText, lowerCase_matchStateText]
  congr 1
  · congr 1
    · exact decide_eq_decide.mpr (@reviewStatusText_eq c.columns.reviewStatus .contextOnly)
    · exact decide_eq_decide.mpr (@assessmentText_eq c.columns.assessment .contextOnly)
  · exact decide_eq_decide.mpr (@matchStateText_eq c.columns.matchState .contextOnly)

section

variable (h : OtherKeys others)

include h

/-- The record has the assertion that the column does not have. -/
theorem stored_assertion : (c.stored others).assertion render = c.assertion := by
  have hevidence : (c.stored others).evidence.get? "source_assertion" =
      some (Json.ofText c.columns.evidence.sourceAssertion) := (RowEvidence.get?_others h).1
  have hempty : ∀ value : Option String,
      Json.orEmpty render (some (Json.ofText value)) = (orNull value).getD "" := by
    intro value
    cases value with
    | none => rfl
    | some text =>
      unfold orNull
      by_cases htext : text = ""
      · subst htext
        rfl
      · have hkept : (!text.isEmpty) = true := by simpa using htext
        rw [Option.filter_some, if_pos hkept]
        rfl
  unfold StoredRow.assertion assertion
  rw [hevidence, hempty]
  change lowerCase ((orNull c.columns.sourceAssertion).getD _) = _
  cases orNull c.columns.sourceAssertion <;> rfl

/-- The record has the outcome of the decision. -/
theorem stored_membershipOutcomeOf : (c.stored others).membershipOutcomeOf =
      c.columns.evidence.membershipOutcome.map fun o => .str (membershipOutcomeText o) := by
  have hevidence : (c.stored others).evidence.get? "membership_outcome" =
      c.columns.evidence.membershipOutcome.map fun o => .str (membershipOutcomeText o) :=
    (RowEvidence.get?_others h).2.1
  unfold StoredRow.membershipOutcomeOf
  rw [hevidence]
  cases c.columns.evidence.membershipOutcome with
  | none => rfl
  | some o => cases o <;> rfl

/-- Storage keeps the membership outcome. -/
theorem stored_hasOutcome (o : ReportLifecycle.MembershipOutcome) :
    (c.stored others).hasOutcome (membershipOutcomeText o) =
      decide (c.columns.evidence.membershipOutcome = some o) := by
  unfold StoredRow.hasOutcome
  rw [stored_membershipOutcomeOf h]
  cases c.columns.evidence.membershipOutcome with
  | none => rfl
  | some o' =>
    exact decide_eq_decide.mpr (membershipOutcomeText_eq.trans Option.some_inj.symm)

/-- Storage keeps confirmed publisher evidence. -/
theorem stored_isAnalystConfirmedPublisherEvidence :
    (c.stored others).isAnalystConfirmedPublisherEvidence =
      c.isAnalystConfirmedPublisherEvidence := by
  have hevidence : (c.stored others).evidence.get? "promoted_from" =
      c.columns.evidence.promotedFrom.map fun text => .obj (others text) :=
    (RowEvidence.get?_others h).2.2.1
  unfold StoredRow.isAnalystConfirmedPublisherEvidence isAnalystConfirmedPublisherEvidence
  rw [hevidence, stored_isAnalystConfirmed]
  cases c.columns.evidence.promotedFrom with
  | none => rfl
  | some text => exact (Bool.true_and _).symm

/-- Storage keeps occurrences in a publisher's IOC section. -/
theorem stored_hasPublisherIocSectionOccurrence :
    (c.stored others).hasPublisherIocSectionOccurrence render =
      c.hasPublisherIocSectionOccurrence := by
  have hevidence : (c.stored others).evidence.get? "occurrences" =
      some (.arr (c.columns.evidence.occurrences.map fun occ =>
        Json.ofFields (occ.fields others))) := (RowEvidence.get?_others h).2.2.2
  have hzone : ∀ occ : Occurrence,
      Json.orEmpty render (some (Json.ofText occ.zone)) = occ.zone.getD "" := by
    intro occ
    cases occ.zone <;> rfl
  have hkind : ∀ occ : Occurrence, (!((occ.occurrenceKind.map Json.str).map Json.truthy).getD false) =
      (orNull occ.occurrenceKind).isNone := by
    intro occ
    cases occ.occurrenceKind with
    | none => rfl
    | some kind =>
      by_cases hempty : kind = ""
      · subst hempty
        rfl
      · simp [Json.truthy, orNull]
  unfold StoredRow.hasPublisherIocSectionOccurrence StoredRow.candidateOccurrences
    hasPublisherIocSectionOccurrence
  rw [hevidence]
  change List.any (List.map _ _) _ = _
  rw [List.any_map]
  congr 1
  funext occ
  obtain ⟨hzone', hkind', hasserted⟩ := Occurrence.get?_all h occ
  simp only [Function.comp_apply]
  rw [hzone', hkind', hasserted, hzone, hkind]
  cases occ.asserted <;> rfl

/-- Storage keeps the authoritative scope. -/
theorem stored_hasAuthoritativePublisherIocScope :
    (c.stored others).hasAuthoritativePublisherIocScope = c.hasAuthoritativePublisherIocScope := by
  have hevidence : (c.stored others).evidence.get? "document_has_authoritative_scope" =
      some (.bool c.columns.evidence.documentHasAuthoritativeScope) :=
    (RowEvidence.get?_bools h _).2.2.1
  unfold StoredRow.hasAuthoritativePublisherIocScope hasAuthoritativePublisherIocScope
  rw [hevidence]
  cases c.columns.evidence.documentHasAuthoritativeScope <;> rfl

/-- Storage keeps publisher-authoritative members. -/
theorem stored_isPublisherAuthoritativeReportIocMember :
    (c.stored others).isPublisherAuthoritativeReportIocMember render =
      c.isPublisherAuthoritativeReportIocMember := by
  have hmember := stored_hasOutcome (c := c) h .member
  have hreview := stored_hasOutcome (c := c) h .needsReview
  unfold membershipOutcomeText at hmember hreview
  unfold StoredRow.isPublisherAuthoritativeReportIocMember isPublisherAuthoritativeReportIocMember
    StoredRow.isPublisherAssertedReportIoc isPublisherAssertedReportIoc
  rw [stored_membershipOutcomeOf h, hmember, hreview, stored_isAnalystConfirmed,
    stored_isAnalystConfirmedPublisherEvidence h, stored_hasAuthoritativePublisherIocScope h,
    stored_assertion h, stored_hasPublisherIocSectionOccurrence h]
  cases c.columns.evidence.membershipOutcome with
  | none => rfl
  | some o => cases o <;> rfl

/-- Storage keeps the verdict of the type gates. -/
theorem stored_passesIndicatorTypeGates :
    (c.stored others).passesIndicatorTypeGates = c.passesIndicatorTypeGates := by
  obtain ⟨hdirect, hparser, -, hreserved, hlocal⟩ := RowEvidence.get?_bools h c.columns.evidence
  have hstate : (c.stored others).matchState = matchStateText c.columns.matchState := rfl
  have hassessment : (c.stored others).assessment = assessmentText c.columns.assessment := rfl
  have hevidence : (c.stored others).evidence = c.columns.evidence.toJson others := rfl
  unfold StoredRow.passesIndicatorTypeGates passesIndicatorTypeGates
    StoredRow.isNonActionableLocalOrReserved typeOf
  rw [hevidence, hdirect, hparser, hreserved, hlocal, stored_reviewOf, hstate, hassessment,
    lowerCase_matchStateText]
  have hcontext : (decide (matchStateText c.columns.matchState = "context_only") ||
      decide (reviewStatusText c.columns.reviewStatus = "context_only") ||
      decide (assessmentText c.columns.assessment = "context_only")) =
      (decide (c.columns.matchState = .contextOnly) ||
        decide (c.columns.reviewStatus = .contextOnly) ||
        decide (c.columns.assessment = .contextOnly)) := by
    cases c.columns.matchState <;> cases c.columns.reviewStatus <;>
      cases c.columns.assessment <;> decide
  have hinvalid : (decide (matchStateText c.columns.matchState = "invalid") ||
      decide (assessmentText c.columns.assessment = "invalid")) =
      (decide (c.columns.matchState = .invalid) || decide (c.columns.assessment = .invalid)) := by
    cases c.columns.matchState <;> cases c.columns.assessment <;> decide
  rw [hcontext, hinvalid]
  have hbools : ∀ parser direct reserved nonLocal : Bool,
      (!Json.isBool true (some (.bool parser))) = !parser ∧
        (!Json.isBool false (some (.bool direct))) = direct ∧
        (Json.isBool true (if reserved then some (.bool true) else none) ||
          Json.isBool true (if nonLocal then some (.bool true) else none)) =
            (reserved || nonLocal) := by
    decide
  obtain ⟨hparser', hdirect', hlocal'⟩ := hbools c.columns.evidence.isParserDerivedMetadata
    c.columns.evidence.isDirectSourceObservable c.columns.evidence.reservedAddress
    c.columns.evidence.nonActionableLocal
  rw [hparser', hdirect', hlocal']
  rfl

/-- Storage keeps what a linked source asserts. -/
theorem stored_isLinkedSourceAssertedIoc :
    (c.stored others).isLinkedSourceAssertedIoc render linked =
      c.isLinkedSourceAssertedIoc linked := by
  have hlinks : (c.stored others).evidence.get? "linked_sources" = none := h.no_links
  unfold StoredRow.isLinkedSourceAssertedIoc isLinkedSourceAssertedIoc
  rw [hlinks, stored_assertion h]
  exact Bool.or_false _

/-- Storage keeps membership in the report. -/
theorem stored_isReportIndicatorMember :
    (c.stored others).isReportIndicatorMember render = c.isReportIndicatorMember := by
  unfold StoredRow.isReportIndicatorMember isReportIndicatorMember
  rw [stored_passesIndicatorTypeGates h, stored_isPublisherAuthoritativeReportIocMember h]
  rfl

/-- Storage keeps membership by a linked source. -/
theorem stored_isLinkedSourceIndicatorMember :
    (c.stored others).isLinkedSourceIndicatorMember render linked =
      c.isLinkedSourceIndicatorMember linked := by
  unfold StoredRow.isLinkedSourceIndicatorMember isLinkedSourceIndicatorMember
  rw [stored_passesIndicatorTypeGates h, stored_isLinkedSourceAssertedIoc h]

/-- Storage keeps membership in the union. -/
theorem stored_isUnionReportIndicatorMember :
    (c.stored others).isUnionReportIndicatorMember render linked =
      c.isUnionReportIndicatorMember linked := by
  unfold StoredRow.isUnionReportIndicatorMember isUnionReportIndicatorMember
  rw [stored_isReportIndicatorMember h, stored_isLinkedSourceIndicatorMember h]

/-- Storage keeps what needs review. -/
theorem stored_isNeedsReviewCandidate :
    (c.stored others).isNeedsReviewCandidate = c.isNeedsReviewCandidate := by
  have hreview := stored_hasOutcome (c := c) h .needsReview
  unfold StoredRow.isNeedsReviewCandidate isNeedsReviewCandidate
  rw [stored_passesIndicatorTypeGates h, ← hreview]
  rfl

/-- Storage keeps what a reviewer can act on. -/
theorem stored_isReviewActionableIndicator :
    (c.stored others).isReviewActionableIndicator render linked =
      c.isReviewActionableIndicator linked := by
  unfold StoredRow.isReviewActionableIndicator isReviewActionableIndicator
  rw [stored_isUnionReportIndicatorMember h, stored_isNeedsReviewCandidate h]

/-- Storage keeps what still waits for a reviewer. -/
theorem stored_isPendingReviewActionableIndicator :
    (c.stored others).isPendingReviewActionableIndicator render linked =
      c.isPendingReviewActionableIndicator linked := by
  have hpending : decide (reviewStatusText c.columns.reviewStatus = "pending") =
      decide (c.columns.reviewStatus = .pending) := by
    cases c.columns.reviewStatus <;> decide
  unfold StoredRow.isPendingReviewActionableIndicator isPendingReviewActionableIndicator
  rw [stored_isReviewActionableIndicator h, stored_reviewOf, hpending]

end

end Next

end TalonHound.Candidates
