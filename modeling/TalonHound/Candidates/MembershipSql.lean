import TalonHound.Candidates.StoredMembership
import TalonHound.Library.Sql

/-!
# Membership in SQL

The conditions that `indicatorMembership.js` writes in SQL, on stored rows. They select the rows
that the predicates accept, as long as the texts that the predicates read in lower case are stored
in lower case.
-/

namespace TalonHound.Candidates

open FileArtifacts (lowerCase)
open ReportLifecycle (Assessment MatchState ReviewStatus)

namespace StoredRow

open Bool Option

-- The text of a number, an array or an object.
variable (render : Json → String)

/-- `COALESCE(evidence->>key, default)`. -/
def evidenceText (row : StoredRow) (key default : String) : Option String :=
  Sql.coalesce (row.evidence.getText render key) (some default)

/-- `COALESCE(source_assertion, evidence->>'source_assertion', '')`. -/
def assertionSql (row : StoredRow) : Option String :=
  Sql.coalesce row.sourceAssertion (row.evidenceText render "source_assertion" "")

/-- `COALESCE(review_status, '')`. -/
def reviewStatusSql (row : StoredRow) : Option String :=
  Sql.coalesce (some row.reviewStatus) (some "")

/-- `COALESCE(assessment, '')`. -/
def assessmentSql (row : StoredRow) : Option String := Sql.coalesce (some row.assessment) (some "")

/-- `COALESCE(match_state, '')`. -/
def matchStateSql (row : StoredRow) : Option String := Sql.coalesce (some row.matchState) (some "")

/-- `indicatorTypeGatesSql`. -/
def indicatorTypeGatesSql (row : StoredRow) : Truth :=
  Sql.ne (some row.isIoc) (some false)
    |>.and (Sql.notIn (some row.candidateType) nonIocCandidateTypes)
    |>.and (Sql.ne (row.evidenceText render "is_parser_derived_metadata" "false") (some "true"))
    |>.and (Sql.ne (row.evidenceText render "is_direct_source_observable" "true") (some "false"))
    |>.and (Sql.ne (row.evidenceText render "reserved_address" "false") (some "true"))
    |>.and (Sql.ne (row.evidenceText render "non_actionable_local" "false") (some "true"))
    |>.and (Sql.notIn row.assessmentSql ["context_only", "invalid"])
    |>.and (Sql.notIn row.matchStateSql ["context_only", "invalid"])
    |>.and (Sql.ne row.reviewStatusSql (some "context_only"))

/-- The review status of an analyst's confirmation. -/
def confirmedSql (row : StoredRow) : Truth :=
  Sql.isIn row.reviewStatusSql ["approved", "created_ioc"]

/-- The `EXISTS` over the occurrences; `jsonb_array_elements` of what is no array is an error. -/
def sectionOccurrenceSql (row : StoredRow) : Truth :=
  Sql.anyRow (((row.evidence.get? "occurrences").getD (.arr [])).items?.getD []) fun occ =>
    Sql.isIn (occ.getText render "zone") authoritativePublisherOccurrenceZones
      |>.and ((Sql.eq (occ.getText render "asserted") (some "true")).or
        (Sql.eq (Sql.coalesce (occ.getText render "occurrence_kind") (some "")) (some "")))

/-- `publisherAuthoritativeIocMembershipSql`. -/
def publisherAuthoritativeIocMembershipSql (row : StoredRow) : Truth :=
  Sql.eq (row.evidenceText render "membership_outcome" "") (some "member")
    |>.or ((Sql.eq (row.evidenceText render "membership_outcome" "") (some "needs_review")).and
      row.confirmedSql)
    |>.or ((Sql.eq ((row.evidence.get? "promoted_from").map Json.typeName) (some "object")).and
      row.confirmedSql)
    |>.or ((Sql.isNull (row.evidence.getText render "membership_outcome")).and
      (Sql.ne (row.evidenceText render "document_has_authoritative_scope" "false") (some "true")
        |>.or (Sql.isIn (row.assertionSql render) explicitPublisherIocAssertions)
        |>.or (row.sectionOccurrenceSql render)))

/-- `reportIndicatorMembershipSql`. -/
def reportIndicatorMembershipSql (row : StoredRow) : Truth :=
  Sql.eq (some row.hasOriginalDocumentOccurrence) (some true)
    |>.and (row.indicatorTypeGatesSql render)
    |>.and (row.publisherAuthoritativeIocMembershipSql render)

/-- `needsReviewCandidateSql`. -/
def needsReviewCandidateSql (row : StoredRow) : Truth :=
  Sql.eq (some row.hasOriginalDocumentOccurrence) (some true)
    |>.and (Sql.eq (row.evidenceText render "membership_outcome" "") (some "needs_review"))
    |>.and (row.indicatorTypeGatesSql render)

/-- `linkedSourceIndicatorMembershipSql`, with the `EXISTS` over the links. -/
def linkedSourceIndicatorMembershipSql (linked : Truth) (row : StoredRow) : Truth :=
  row.indicatorTypeGatesSql render
    |>.and ((Sql.eq (row.assertionSql render) (some linkedSourceIocAssertion)).or linked)

/-- `unionReportIndicatorMembershipSql`. -/
def unionReportIndicatorMembershipSql (linked : Truth) (row : StoredRow) : Truth :=
  (row.reportIndicatorMembershipSql render).or (row.linkedSourceIndicatorMembershipSql render linked)

/-- `reviewActionableIndicatorSql`. -/
def reviewActionableIndicatorSql (linked : Truth) (row : StoredRow) : Truth :=
  (row.unionReportIndicatorMembershipSql render linked).or (row.needsReviewCandidateSql render)

/-- `isContextOnlySql`. -/
def isContextOnlySql (row : StoredRow) : Truth :=
  Sql.eq row.assessmentSql (some "context_only")
    |>.or (Sql.eq row.matchStateSql (some "context_only"))
    |>.or (Sql.eq row.reviewStatusSql (some "context_only"))

/-- `notContextOnlySql`. -/
def notContextOnlySql (row : StoredRow) : Truth :=
  Sql.ne row.assessmentSql (some "context_only")
    |>.and (Sql.ne row.matchStateSql (some "context_only"))
    |>.and (Sql.ne row.reviewStatusSql (some "context_only"))

/-- The row is counted by the first `NOT EXISTS` of `GUARDED_FINALIZE_SQL`. -/
def blocksFinalizeSql (linked : Truth) (row : StoredRow) : Truth :=
  (Sql.eq (Sql.coalesce (some row.reviewStatus) (some "pending")) (some "pending")).and
    (row.reviewActionableIndicatorSql render linked)

end StoredRow

/-- `linkedSourceOccurrenceSql`. -/
def linkedSourceOccurrenceSql (links : List (ℕ × ℕ)) (id : ℕ) : Truth :=
  Sql.anyRow links fun link => Sql.eq (some link.1) (some id)

/-- The first `NOT EXISTS` of `GUARDED_FINALIZE_SQL`. -/
def noPendingIndicatorSql (render : Json → String) (others : String → List (String × Json))
    (links : List (ℕ × ℕ)) (rows : List Row) : Truth :=
  (Sql.anyRow rows fun row => (row.values.stored others).blocksFinalizeSql render
    (linkedSourceOccurrenceSql links row.id)).not

/-- The texts that are read in lower case are stored so, and an assertion is not empty. -/
structure Next.PlainTexts (c : Next) : Prop where
  assertion : ∀ text ∈ c.columns.sourceAssertion, text ≠ "" ∧ lowerCase text = text
  evidence : ∀ text ∈ c.columns.evidence.sourceAssertion, lowerCase text = text
  type : c.columns.isIoc = true → c.typeOf ∈ nonIocCandidateTypes →
    c.identity.candidateType ∈ nonIocCandidateTypes

namespace Next

variable {render : Json → String} {others : String → List (String × Json)} {c : Next}
  {linked : Truth}

theorem evidenceText_bool (b : Bool) (key default : String)
    (hkey : (c.columns.evidence.toJson others).get? key = some (.bool b)) :
    (c.stored others).evidenceText render key default = some (if b then "true" else "false") := by
  have hevidence : (c.stored others).evidence.get? key = some (.bool b) := hkey
  unfold StoredRow.evidenceText Json.getText
  rw [hevidence]
  cases b <;> rfl

/-- A flag that is written only when it is set. -/
theorem evidenceText_flag (b : Bool) (key : String)
    (hkey : (c.columns.evidence.toJson others).get? key = if b then some (.bool true) else none) :
    (c.stored others).evidenceText render key "false" = some (if b then "true" else "false") := by
  have hevidence : (c.stored others).evidence.get? key = if b then some (.bool true) else none :=
    hkey
  unfold StoredRow.evidenceText Json.getText
  rw [hevidence]
  cases b <;> rfl

/-- The gates on the decisions, in texts. -/
theorem contextTexts (a : Assessment) (state : MatchState) (review : ReviewStatus) :
    (! ["context_only", "invalid"].contains (assessmentText a) &&
      (! ["context_only", "invalid"].contains (matchStateText state) &&
        !decide (reviewStatusText review = "context_only"))) =
      (!(decide (state = .contextOnly) || decide (review = .contextOnly) ||
          decide (a = .contextOnly)) &&
        !(decide (state = .invalid) || decide (a = .invalid))) := by
  cases state <;> cases review <;> cases a <;> decide

section

variable (h : OtherKeys others)
include h

theorem selects_indicatorTypeGatesSql (hplain : c.PlainTexts) :
    ((c.stored others).indicatorTypeGatesSql render).selects = c.passesIndicatorTypeGates := by
  obtain ⟨hdirect, hparser, -, hreserved, hlocal⟩ := RowEvidence.get?_bools h c.columns.evidence
  have hioc : (c.stored others).isIoc = c.columns.isIoc := rfl
  have hkind : (c.stored others).candidateType = c.identity.candidateType := rfl
  have hassessment : (c.stored others).assessment = assessmentText c.columns.assessment := rfl
  have hstate : (c.stored others).matchState = matchStateText c.columns.matchState := rfl
  have hreview : (c.stored others).reviewStatus = reviewStatusText c.columns.reviewStatus := rfl
  have hflags : ∀ b : Bool, (!decide ((if b then "true" else "false") = "true")) = !b ∧
      (!decide ((if b then "true" else "false") = "false")) = b ∧
      (!decide (b = false)) = b := by
    decide
  have htype : (c.columns.isIoc && !nonIocCandidateTypes.contains c.identity.candidateType) =
      (c.columns.isIoc && !nonIocCandidateTypes.contains c.typeOf) := by
    cases hioc : c.columns.isIoc with
    | false => rfl
    | true =>
      rw [Bool.true_and, Bool.true_and]
      congr 1
      rw [Bool.eq_iff_iff, List.contains_iff_mem, List.contains_iff_mem]
      refine ⟨fun hmem => ?_, hplain.type hioc⟩
      have hlower : ∀ text ∈ nonIocCandidateTypes, lowerCase text = text := by decide
      unfold typeOf
      rw [hlower _ hmem]
      exact hmem
  unfold StoredRow.indicatorTypeGatesSql
  rw [evidenceText_bool _ _ _ hparser, evidenceText_bool _ _ _ hdirect,
    evidenceText_flag _ _ hreserved, evidenceText_flag _ _ hlocal]
  unfold StoredRow.assessmentSql StoredRow.matchStateSql StoredRow.reviewStatusSql
  simp only [Truth.selects_and, Sql.selects_ne, Sql.selects_notIn, Sql.coalesce_some,
    Option.getD_some, hioc, hkind, hassessment, hstate, hreview, hflags, htype]
  rw [Bool.and_assoc, Bool.and_assoc, contextTexts]
  unfold passesIndicatorTypeGates
  cases c.columns.evidence.reservedAddress <;> cases c.columns.evidence.nonActionableLocal <;>
    simp [Bool.and_assoc]

/-- The assertion that SQL reads. -/
theorem assertionSql_eq (hplain : c.PlainTexts) :
    (c.stored others).assertionSql render = some c.assertion := by
  have hevidence : (c.stored others).evidence.get? "source_assertion" =
      some (Json.ofText c.columns.evidence.sourceAssertion) := (RowEvidence.get?_others h).1
  have hcolumn : (c.stored others).sourceAssertion = c.columns.sourceAssertion := rfl
  unfold StoredRow.assertionSql StoredRow.evidenceText Json.getText assertion
  rw [hevidence, hcolumn, Sql.coalesce_some, Sql.coalesce_some]
  congr 1
  cases hassertion : c.columns.sourceAssertion with
  | some text =>
    obtain ⟨hne, hlower⟩ := hplain.assertion text hassertion
    have hkept : (!text.isEmpty) = true := by simpa using hne
    unfold orNull
    rw [Option.filter_some, if_pos hkept]
    exact hlower.symm
  | none =>
    cases hassertion' : c.columns.evidence.sourceAssertion with
    | none => rfl
    | some text =>
      have hlower := hplain.evidence text hassertion'
      by_cases hempty : text = ""
      · subst hempty
        rfl
      · have hkept : (!text.isEmpty) = true := by simpa using hempty
        unfold orNull
        rw [Option.filter_some, if_pos hkept]
        exact hlower.symm

theorem evidenceText_outcome : (c.stored others).evidence.getText render "membership_outcome" =
      c.columns.evidence.membershipOutcome.map membershipOutcomeText := by
  have hevidence : (c.stored others).evidence.get? "membership_outcome" =
      c.columns.evidence.membershipOutcome.map fun o => .str (membershipOutcomeText o) :=
    (RowEvidence.get?_others h).2.1
  unfold Json.getText
  rw [hevidence]
  cases c.columns.evidence.membershipOutcome <;> rfl

/-- The `EXISTS` over the occurrences. -/
theorem selects_sectionOccurrenceSql : ((c.stored others).sectionOccurrenceSql render).selects =
      c.hasPublisherIocSectionOccurrence := by
  have hevidence : (c.stored others).evidence.get? "occurrences" =
      some (.arr (c.columns.evidence.occurrences.map fun occ =>
        Json.ofFields (occ.fields others))) := (RowEvidence.get?_others h).2.2.2
  unfold StoredRow.sectionOccurrenceSql hasPublisherIocSectionOccurrence
  rw [hevidence, Sql.selects_anyRow]
  change List.any (List.map _ _) _ = _
  rw [List.any_map]
  congr 1
  funext occ
  obtain ⟨hzone, hkind, hasserted⟩ := Occurrence.get?_all h occ
  unfold Json.getText
  simp only [Function.comp_apply, hzone, hkind, hasserted, Truth.selects_and, Truth.selects_or,
    Sql.selects_isIn, Sql.selects_eq, Sql.coalesce_some]
  have hzoneText : (((some (Json.ofText occ.zone)).bind (Json.text render)).any fun zone =>
      authoritativePublisherOccurrenceZones.contains zone) =
      authoritativePublisherOccurrenceZones.contains (occ.zone.getD "") := by
    cases occ.zone with
    | none =>
      have hempty : authoritativePublisherOccurrenceZones.contains "" = false := by decide
      exact hempty.symm
    | some zone => rfl
  have hkindText : decide (some ((((occ.occurrenceKind.map Json.str).bind
      (Json.text render)).getD "")) = some "") = (orNull occ.occurrenceKind).isNone := by
    cases occ.occurrenceKind with
    | none => rfl
    | some kind =>
      change decide (some kind = some "") = _
      by_cases hempty : kind = ""
      · subst hempty
        rfl
      · simp [orNull, hempty]
  rw [hzoneText, hkindText]
  cases occ.asserted <;> rfl

theorem selects_publisherAuthoritativeIocMembershipSql (hplain : c.PlainTexts) :
    ((c.stored others).publisherAuthoritativeIocMembershipSql render).selects =
      c.isPublisherAuthoritativeReportIocMember := by
  obtain ⟨-, -, hscope, -, -⟩ := RowEvidence.get?_bools h c.columns.evidence
  have hpromoted : (c.stored others).evidence.get? "promoted_from" =
      c.columns.evidence.promotedFrom.map fun text => .obj (others text) :=
    (RowEvidence.get?_others h).2.2.1
  have hconfirmed : ((c.stored others).confirmedSql).selects = c.isAnalystConfirmed := by
    have htext : ∀ status : ReviewStatus,
        ["approved", "created_ioc"].contains (reviewStatusText status) =
          analystConfirmedReviews.contains status := by
      intro status
      cases status <;> decide
    unfold StoredRow.confirmedSql StoredRow.reviewStatusSql
    rw [Sql.coalesce_some, Sql.selects_isIn, Option.any_some]
    exact htext c.columns.reviewStatus
  have hobject : decide ((c.columns.evidence.promotedFrom.map fun text =>
      Json.obj (others text)).map Json.typeName = some "object") =
        c.columns.evidence.promotedFrom.isSome := by
    cases c.columns.evidence.promotedFrom <;> rfl
  have hexplicit : ((Sql.isIn ((c.stored others).assertionSql render)
      explicitPublisherIocAssertions)).selects =
        explicitPublisherIocAssertions.contains c.assertion := by
    rw [assertionSql_eq h hplain, Sql.selects_isIn, Option.any_some]
  unfold StoredRow.publisherAuthoritativeIocMembershipSql StoredRow.evidenceText
  rw [evidenceText_outcome h]
  simp only [Truth.selects_or, Truth.selects_and, Sql.selects_eq, Sql.selects_isNull,
    Sql.coalesce_some, hconfirmed, hexplicit, selects_sectionOccurrenceSql h, hpromoted, hobject]
  have hscope' : Sql.coalesce ((c.stored others).evidence.getText render
      "document_has_authoritative_scope") (some "false") =
        some (if c.columns.evidence.documentHasAuthoritativeScope then "true" else "false") :=
    evidenceText_bool _ _ _ hscope
  rw [Sql.coalesce_some] at hscope'
  rw [hscope', Sql.selects_ne]
  unfold isPublisherAuthoritativeReportIocMember isPublisherAssertedReportIoc
    isAnalystConfirmedPublisherEvidence hasAuthoritativePublisherIocScope
  cases c.columns.evidence.membershipOutcome with
  | none =>
    cases c.columns.evidence.documentHasAuthoritativeScope <;>
      cases c.columns.evidence.promotedFrom.isSome <;> cases c.isAnalystConfirmed <;>
      simp
  | some o =>
    cases o <;> cases c.columns.evidence.promotedFrom.isSome <;> cases c.isAnalystConfirmed <;>
      simp [membershipOutcomeText]

end

theorem selects_original :
    (Sql.eq (some (c.stored others).hasOriginalDocumentOccurrence) (some true)).selects =
      c.hasOriginalDocumentOccurrence := by
  rw [Sql.selects_eq]
  change decide (some c.hasOriginalDocumentOccurrence = some true) = _
  cases c.hasOriginalDocumentOccurrence <;> rfl

section

variable (h : OtherKeys others) (hplain : c.PlainTexts)
include h hplain

theorem selects_reportIndicatorMembershipSql :
    ((c.stored others).reportIndicatorMembershipSql render).selects =
      c.isReportIndicatorMember := by
  unfold StoredRow.reportIndicatorMembershipSql isReportIndicatorMember
  rw [Truth.selects_and, Truth.selects_and, selects_original,
    selects_indicatorTypeGatesSql h hplain,
    selects_publisherAuthoritativeIocMembershipSql h hplain]

theorem selects_needsReviewCandidateSql :
    ((c.stored others).needsReviewCandidateSql render).selects = c.isNeedsReviewCandidate := by
  have houtcome : decide (some ((c.columns.evidence.membershipOutcome.map
      membershipOutcomeText).getD "") = some "needs_review") =
        decide (c.columns.evidence.membershipOutcome = some .needsReview) := by
    cases c.columns.evidence.membershipOutcome with
    | none => rfl
    | some o => cases o <;> rfl
  unfold StoredRow.needsReviewCandidateSql StoredRow.evidenceText isNeedsReviewCandidate
  rw [Truth.selects_and, Truth.selects_and, selects_original,
    selects_indicatorTypeGatesSql h hplain, evidenceText_outcome h, Sql.coalesce_some,
    Sql.selects_eq, houtcome]

theorem selects_linkedSourceIndicatorMembershipSql :
    ((c.stored others).linkedSourceIndicatorMembershipSql render linked).selects =
      c.isLinkedSourceIndicatorMember linked.selects := by
  unfold StoredRow.linkedSourceIndicatorMembershipSql isLinkedSourceIndicatorMember
    isLinkedSourceAssertedIoc
  rw [Truth.selects_and, Truth.selects_or, selects_indicatorTypeGatesSql h hplain,
    assertionSql_eq h hplain, Sql.selects_eq]
  congr 2
  exact decide_eq_decide.mpr Option.some_inj

theorem selects_unionReportIndicatorMembershipSql :
    ((c.stored others).unionReportIndicatorMembershipSql render linked).selects =
      c.isUnionReportIndicatorMember linked.selects := by
  unfold StoredRow.unionReportIndicatorMembershipSql isUnionReportIndicatorMember
  rw [Truth.selects_or, selects_reportIndicatorMembershipSql h hplain,
    selects_linkedSourceIndicatorMembershipSql h hplain]

theorem selects_reviewActionableIndicatorSql :
    ((c.stored others).reviewActionableIndicatorSql render linked).selects =
      c.isReviewActionableIndicator linked.selects := by
  unfold StoredRow.reviewActionableIndicatorSql isReviewActionableIndicator
  rw [Truth.selects_or, selects_unionReportIndicatorMembershipSql h hplain,
    selects_needsReviewCandidateSql h hplain]

end

theorem selects_isContextOnlySql :
    ((c.stored others).isContextOnlySql).selects = c.isContextOnlyCandidate := by
  have htexts : ∀ (a : Assessment) (state : MatchState) (review : ReviewStatus),
      ((decide (some (assessmentText a) = some "context_only") ||
        decide (some (matchStateText state) = some "context_only")) ||
        decide (some (reviewStatusText review) = some "context_only")) =
      (decide (review = .contextOnly) || decide (a = .contextOnly) ||
        decide (state = .contextOnly)) := by
    intro a state review
    cases state <;> cases review <;> cases a <;> decide
  unfold StoredRow.isContextOnlySql StoredRow.assessmentSql StoredRow.matchStateSql
    StoredRow.reviewStatusSql
  simp only [Truth.selects_or, Sql.selects_eq, Sql.coalesce_some, Option.getD_some]
  exact htexts c.columns.assessment c.columns.matchState c.columns.reviewStatus

theorem selects_notContextOnlySql :
    ((c.stored others).notContextOnlySql).selects = !c.isContextOnlyCandidate := by
  have htexts : ∀ (a : Assessment) (state : MatchState) (review : ReviewStatus),
      ((!decide (assessmentText a = "context_only") &&
        !decide (matchStateText state = "context_only")) &&
        !decide (reviewStatusText review = "context_only")) =
      !(decide (review = .contextOnly) || decide (a = .contextOnly) ||
        decide (state = .contextOnly)) := by
    intro a state review
    cases state <;> cases review <;> cases a <;> decide
  unfold StoredRow.notContextOnlySql StoredRow.assessmentSql StoredRow.matchStateSql
    StoredRow.reviewStatusSql
  simp only [Truth.selects_and, Sql.selects_ne, Sql.coalesce_some, Option.getD_some]
  exact htexts c.columns.assessment c.columns.matchState c.columns.reviewStatus

theorem selects_blocksFinalizeSql (h : OtherKeys others) (hplain : c.PlainTexts) :
    ((c.stored others).blocksFinalizeSql render linked).selects =
      c.isPendingReviewActionableIndicator linked.selects := by
  have hpending : ∀ review : ReviewStatus,
      decide (some (reviewStatusText review) = some "pending") = decide (review = .pending) := by
    intro review
    cases review <;> decide
  unfold StoredRow.blocksFinalizeSql isPendingReviewActionableIndicator
  rw [Truth.selects_and, selects_reviewActionableIndicatorSql h hplain, Sql.coalesce_some,
    Option.getD_some, Sql.selects_eq, Bool.and_comm]
  congr 1
  exact hpending c.columns.reviewStatus

end Next

theorem selects_linkedSourceOccurrenceSql {links : List (ℕ × ℕ)} {row : Row} :
    (linkedSourceOccurrenceSql links row.id).selects = Report.isLinked links row := by
  unfold linkedSourceOccurrenceSql Report.isLinked
  rw [Sql.selects_anyRow]
  congr 1
  funext link
  rw [Sql.selects_eq]
  exact decide_eq_decide.mpr Option.some_inj

/-- The count of the finalization is zero exactly when the `NOT EXISTS` holds. -/
theorem selects_noPendingIndicatorSql {render : Json → String}
    {others : String → List (String × Json)} {links : List (ℕ × ℕ)} {rows : List Row}
    (h : OtherKeys others) (hplain : ∀ r ∈ rows, r.values.PlainTexts) :
    (noPendingIndicatorSql render others links rows).selects = true ↔
      pendingCount links rows = 0 := by
  unfold noPendingIndicatorSql Sql.anyRow pendingCount
  rw [Truth.not_ofBool, Truth.selects_ofBool, Bool.not_eq_true', List.any_eq_false,
    List.countP_eq_zero]
  refine forall₂_congr fun r hr => ?_
  rw [Next.selects_blocksFinalizeSql h (hplain r hr), selects_linkedSourceOccurrenceSql]
  rfl

end TalonHound.Candidates
