import TalonHound.Candidates.CreateIocs

/-!
# Promotions and the result filter

`classifyPromoteEligibility` decides whether a context-only candidate may become an IOC candidate;
Create IOCs classifies the row that is written anew, and the result filter of a selection classifies
it a third time.
-/

namespace TalonHound.Candidates

open FileArtifacts (lowerCase)
open ReportLifecycle (Assessment MatchState ReviewStatus)

/-- `NEGATIVE_PUBLISHER_POLICIES`. -/
def negativePublisherPolicies : List String :=
  ["provider_service", "legitimate_service_list", "reference_relation", "benign_component",
    "report_source", "rfc_example", "negative_zone", "truncated_duplicate", "hosts_file_entry",
    "email_domain", "reserved_address", "non_actionable_local", "reference_column",
    "table_description", "resolution_column"].map ("context_only_" ++ ·) ++
  ["demoted_provider_service"]

/-- `PROVIDER_POLICIES`. -/
def providerPolicies : List String :=
  ["context_only_provider_service", "context_only_legitimate_service_list",
    "demoted_provider_service"]

/-- The tests of the texts that the evidence of a candidate quotes. -/
structure EvidenceTests where
  (hasPlaceholderText hasDocumentationText isConnectivityCheck isProviderRelation : Row → Bool)
  (hasOperationalEvidence hasPublisherRoleLabel evidenceSupportsOnlyNarrowerUrl : Row → Bool)

/-- The codes of `classifyPromoteEligibility`. -/
inductive PromoteCode where
  | notContextOnly | unsupportedType | outsidePublisherScope | placeholder | documentation
  | connectivityCheck | narrowerIdentity | corroborationRequired | insufficientEvidence
  deriving DecidableEq

/-- `basis` of an accepted promotion. -/
inductive PromoteBasis where
  | publisherAssertion | abusedService | operationalEvidence
  deriving DecidableEq

/-- What `classifyPromoteEligibility` answers: a code, or the basis and the accepted
corroboration. -/
abbrev PromoteDecision := Except PromoteCode (PromoteBasis × Option String)

/-- `policyOf`. -/
def Row.policyOf (row : Row) : String := lowerCase (row.columns.evidence.policyDecision.getD "")

/-- `text.includes(part)`. -/
def includesText (part text : String) : Bool := part.toList <:+: text.toList

/-- `asPromotedRow`. -/
def Row.asPromotedRow (row : Row) : Row :=
  { row with columns := { row.columns with
    reviewStatus := .approved
    assessment := if row.columns.assessment = .malicious ∨ row.columns.assessment = .suspicious then
        row.columns.assessment
      else .suspicious
    isIoc := true
    matchState := if row.columns.matchedIocId.isSome then .existing else .new
    evidence := { row.columns.evidence with
      promotedFrom := row.columns.evidence.promotedFrom <|> some "\x7b\x7d" } } }

/-- `acceptedCorroboration`, of a text whose white space is collapsed. -/
def acceptedCorroboration (text : String) : Option String :=
  if text.length < 12 then none else some (String.ofList (text.toList.take 500))

/-- `classifyPromoteEligibility`. -/
def LoadedRow.classifyPromoteEligibility (tests : EvidenceTests) (corroboration : String)
    (c : LoadedRow) : PromoteDecision :=
  let v := c.row.values
  let linkedAsserted := v.isLinkedSourceAssertedIoc c.linked
  let publisherAsserted := v.isPublisherAssertedReportIoc || linkedAsserted
  let policy := c.row.policyOf
  let providerPolicy := providerPolicies.contains policy || tests.isProviderRelation c.row
  let negativePolicy := negativePublisherPolicies.contains policy ||
    decide ("ioc_excluded".toList <+: policy.toList)
  let operational := tests.hasOperationalEvidence c.row ||
    (!providerPolicy && !negativePolicy && tests.hasPublisherRoleLabel c.row)
  if !v.isContextOnlyCandidate && !(v.hasAuthoritativePublisherIocScope && !publisherAsserted) then
    .error .notContextOnly
  else if !creatableIocTypes.contains v.typeOf then .error .unsupportedType
  else if (iocStorageIdentity c.row.identity).isNone then .error .unsupportedType
  else if !c.row.hasOriginalDocumentOccurrence && !linkedAsserted then .error .outsidePublisherScope
  else if includesText "placeholder" policy || tests.hasPlaceholderText c.row then
    .error .placeholder
  else if includesText "documentation" policy || tests.hasDocumentationText c.row then
    .error .documentation
  else if tests.isConnectivityCheck c.row then .error .connectivityCheck
  else if providerPolicy && !operational then .error .outsidePublisherScope
  else if negativePolicy && !operational then .error .outsidePublisherScope
  else if tests.evidenceSupportsOnlyNarrowerUrl c.row then .error .narrowerIdentity
  else if publisherAsserted && !providerPolicy then
    if !c.row.asPromotedRow.values.isUnionReportIndicatorMember c.linked then
      .error .outsidePublisherScope
    else .ok (.publisherAssertion, none)
  else if operational then
    match acceptedCorroboration corroboration with
    | none => .error .corroborationRequired
    | some note =>
      if !c.row.asPromotedRow.values.isUnionReportIndicatorMember c.linked then
        .error .outsidePublisherScope
      else .ok (if providerPolicy then .abusedService else .operationalEvidence, some note)
  else .error .insufficientEvidence

/-- The answers of `promoteContextOnlyCandidate`. -/
inductive PromoteReply where
  | singleRowOnly | notFound
  | refused (code : PromoteCode)
  | promoted (row : Row)
  deriving DecidableEq

/-- `promoteContextOnlyCandidate`, up to the run that it starts; `render` is the record of
`promoted_from`. -/
def Report.promoteContextOnlyCandidate (tests : EvidenceTests) (corroboration : String)
    (render : Row → PromoteBasis × Option String → String) (report : Report) (ids : List ℕ) :
    PromoteReply × Report :=
  match ids with
  | [id] =>
    match Rows.lookup Row.id report.rows id with
    | none => (.notFound, report)
    | some row =>
      match (report.load row).classifyPromoteEligibility tests corroboration with
      | .error code => (.refused code, report)
      | .ok basis =>
        let promoted := row.promote (render row basis)
        (.promoted promoted, report.updateId id fun _ => promoted)
  | _ => (.singleRowOnly, report)

variable {tests : EvidenceTests} {corroboration : String} {c : LoadedRow} {row : Row}

/-- Both promoted rows are members alike: membership reads neither the role nor the policy. -/
theorem isUnionReportIndicatorMember_promote (promotedFrom : String) (linked : Bool) :
    (row.promote promotedFrom).values.isUnionReportIndicatorMember linked =
      row.asPromotedRow.values.isUnionReportIndicatorMember linked := by
  have hpromoted : (row.columns.evidence.promotedFrom <|> some "\x7b\x7d").isSome = true := by
    cases row.columns.evidence.promotedFrom <;> rfl
  simp only [Next.isUnionReportIndicatorMember, Next.isReportIndicatorMember,
    Next.isLinkedSourceIndicatorMember, Next.passesIndicatorTypeGates,
    Next.isPublisherAuthoritativeReportIocMember, Next.isAnalystConfirmedPublisherEvidence,
    Next.isPublisherAssertedReportIoc, Next.hasPublisherIocSectionOccurrence,
    Next.hasAuthoritativePublisherIocScope, Next.isAnalystConfirmed, Next.isLinkedSourceAssertedIoc,
    Next.assertion, Next.typeOf, Row.values, Row.promote, Row.asPromotedRow, hpromoted]
  rfl

/-- A refusal that is not made. -/
theorem ok_of_guard {ε α : Type} {p : Prop} [Decidable p] {e : ε} {x : Except ε α} {a : α}
    (h : (if p then .error e else x) = .ok a) : ¬p ∧ x = .ok a := by
  split at h
  · cases h
  · exact ⟨‹¬p›, h⟩

/-- An accepted promotion has passed the gates that Create IOCs tests again. -/
theorem of_classifyPromoteEligibility {basis : PromoteBasis × Option String}
    (h : c.classifyPromoteEligibility tests corroboration = .ok basis) :
    creatableIocTypes.contains c.row.values.typeOf = true ∧
      (iocStorageIdentity c.row.identity).isSome = true ∧
      c.row.asPromotedRow.values.isUnionReportIndicatorMember c.linked = true := by
  obtain ⟨-, h⟩ := ok_of_guard h
  obtain ⟨htype, h⟩ := ok_of_guard h
  obtain ⟨hidentity, h⟩ := ok_of_guard h
  obtain ⟨-, h⟩ := ok_of_guard h
  obtain ⟨-, h⟩ := ok_of_guard h
  obtain ⟨-, h⟩ := ok_of_guard h
  obtain ⟨-, h⟩ := ok_of_guard h
  obtain ⟨-, h⟩ := ok_of_guard h
  obtain ⟨-, h⟩ := ok_of_guard h
  obtain ⟨-, h⟩ := ok_of_guard h
  refine ⟨by simpa using htype, by simpa [Option.isSome_iff_ne_none] using hidentity, ?_⟩
  split at h
  · simpa using (ok_of_guard h).1
  · split at h
    · split at h
      · cases h
      · simpa using (ok_of_guard h).1
    · cases h

/-- Create IOCs makes a record of a promoted row, or has one. -/
theorem classifyCreateEligibility_promote (promotedFrom : String)
    (htype : creatableIocTypes.contains c.row.values.typeOf = true)
    (hidentity : (iocStorageIdentity c.row.identity).isSome = true)
    (hmember : (c.row.promote promotedFrom).values.isUnionReportIndicatorMember c.linked = true) :
    (⟨c.row.promote promotedFrom, c.linked⟩ : LoadedRow).classifyCreateEligibility ∈
      [.willCreate, .alreadyExisting] := by
  have happlies : (⟨c.row.promote promotedFrom, c.linked⟩ : LoadedRow).isContextOrIgnored = false := by
    simp only [LoadedRow.isContextOrIgnored, Row.promote]
    have hassessment : ∀ a : Assessment, (if a = .malicious ∨ a = .suspicious then a else .suspicious) ≠
        Assessment.contextOnly ∧ (if a = .malicious ∨ a = .suspicious then a else .suspicious) ≠
        Assessment.invalid := by
      intro a
      cases a <;> decide
    have hstate : ∀ matched : Bool, (if matched then MatchState.existing else .new) ≠ .contextOnly ∧
        (if matched then MatchState.existing else .new) ≠ .invalid := by decide
    simp [hassessment, hstate]
  have happroved : (c.row.promote promotedFrom).values.isAnalystConfirmed = true := rfl
  have hsupported : creatableIocTypes.contains (c.row.promote promotedFrom).values.typeOf = true :=
    htype
  have hstored : (iocStorageIdentity (c.row.promote promotedFrom).identity).isNone = false := by
    simpa [Row.promote] using hidentity
  have hmatched : (⟨c.row.promote promotedFrom, c.linked⟩ : LoadedRow).alreadyHasIocRecord =
      c.row.columns.matchedIocId.isSome := by
    have hstate : ∀ matched : Bool, (matched || decide ((.approved : ReviewStatus) = .createdIoc) ||
        decide ((if matched then MatchState.existing else .new) = .existing)) = matched := by decide
    exact hstate _
  unfold LoadedRow.classifyCreateEligibility
  rw [happlies, hmember, hsupported, happroved, hmatched, hstored]
  cases c.row.columns.matchedIocId <;> simp

/-- An eligible row is rewritten as an Indicator of the report that Create IOCs makes a record of or
has one for. Nothing is written when the row is refused, not found or one of several. -/
theorem promoteContextOnlyCandidate_materialises (tests : EvidenceTests) (corroboration : String)
    (render : Row → PromoteBasis × Option String → String) (report : Report) (row : Row)
    (hrow : Rows.lookup Row.id report.rows row.id = some row) :
    let out := report.promoteContextOnlyCandidate tests corroboration render
    (∀ basis, (report.load row).classifyPromoteEligibility tests corroboration = .ok basis →
      let promoted := row.promote (render row basis)
      out [row.id] = (.promoted promoted, report.updateId row.id fun _ => promoted) ∧
        Rows.lookup Row.id (out [row.id]).2.rows row.id = some promoted ∧
        promoted.values.isUnionReportIndicatorMember ((out [row.id]).2.load promoted).linked = true ∧
        ((out [row.id]).2.load promoted).classifyCreateEligibility ∈
          [.willCreate, .alreadyExisting]) ∧
      (∀ code, (report.load row).classifyPromoteEligibility tests corroboration = .error code →
        out [row.id] = (.refused code, report)) ∧
      ∀ ids, (∀ promoted, (out ids).1 ≠ .promoted promoted) → (out ids).2 = report := by
  intro out
  refine ⟨fun basis hbasis => ?_, fun code hcode => ?_, fun ids => ?_⟩
  · intro promoted
    have hout : out [row.id] = (.promoted promoted, report.updateId row.id fun _ => promoted) := by
      change (match Rows.lookup Row.id report.rows row.id with | none => _ | some row => _) = _
      rw [hrow]
      dsimp only
      rw [hbasis]
    obtain ⟨htype, hidentity, hmember⟩ := of_classifyPromoteEligibility hbasis
    rw [← isUnionReportIndicatorMember_promote (render row basis)] at hmember
    rw [hout]
    refine ⟨rfl, ?_, hmember, classifyCreateEligibility_promote _ htype hidentity hmember⟩
    have hkeeps : ∀ r : Row, (Rows.updateWhere (fun r => r.id = row.id) (fun _ => promoted) r).id =
        r.id := by
      intro r
      simp only [Rows.updateWhere, decide_eq_true_eq]
      split
      · next hid => exact hid.symm
      · rfl
    change Rows.lookup Row.id (report.rows.map _) row.id = _
    rw [Rows.lookup_map hkeeps, hrow]
    simp [Rows.updateWhere]
  · change (match Rows.lookup Row.id report.rows row.id with | none => _ | some row => _) = _
    rw [hrow]
    dsimp only
    rw [hcode]
  · change (∀ promoted, (report.promoteContextOnlyCandidate tests corroboration render ids).1 ≠ _) →
      (report.promoteContextOnlyCandidate tests corroboration render ids).2 = report
    unfold Report.promoteContextOnlyCandidate
    split
    · split
      · exact fun _ => rfl
      · split
        · exact fun _ => rfl
        · exact fun hnot => absurd rfl (hnot _)
    · exact fun _ => rfl

/-- A domain that the publisher lists as context. -/
def contextRow : Row where
  id := 1
  identity := ⟨"domain", "a.example"⟩
  columns := { (candidateColumns .original (domainInput "a.example" "")).columns with
    reviewStatus := .contextOnly }
  hasOriginalDocumentOccurrence := true
  promotionOutcome := none

/-- Its evidence names an operation. -/
def operationalTests : EvidenceTests :=
  ⟨fun _ => false, fun _ => false, fun _ => false, fun _ => false, fun _ => true, fun _ => false,
    fun _ => false⟩

theorem promoteContextOnlyCandidate_materialises_operational :
    (({ rows := [contextRow], links := [], nextId := 2 } : Report).promoteContextOnlyCandidate
      operationalTests "seen in the C2 traffic" (fun _ _ => "") [1]).1 =
        .promoted (contextRow.promote "") := by
  have hout := (promoteContextOnlyCandidate_materialises operationalTests "seen in the C2 traffic"
    (fun _ _ => "") ⟨[contextRow], [], 2⟩ contextRow (by decide)).1
      (.operationalEvidence, some "seen in the C2 traffic") (by decide +kernel)
  exact congrArg Prod.fst hout.1

/-- The result that is shown for an outcome: a record that exists, or what Create IOCs has recorded. -/
def CreateOutcome.shown (persisted : Option PromotionOutcome) :
    CreateOutcome → Option PromotionOutcome
  | .alreadyExisting => some .alreadyExisting
  | .willCreate => none
  | _ => persisted

/-- The result filter follows Create IOCs; of approved rows, those of a type and a value that both
know. -/
theorem iocResultOutcome_eq_shown (report : Report) (row : Row) (hcreated : row.isCreated = false)
    (hknown : row.values.isAnalystConfirmed = true →
      row.values.typeOf ≠ "cidr" ∧ (iocStorageIdentity row.identity).isSome = true) :
    row.iocResultOutcome report.links =
      (report.load row).classifyCreateEligibility.shown row.promotionOutcome := by
  have hcreatable : ∀ type ≠ "cidr", creatableIocTypes.contains type = promotableTypes.contains type := by
    intro type htype
    simp [creatableIocTypes, promotableTypes, htype]
  have hmember : (report.load row).row.values.isUnionReportIndicatorMember (report.load row).linked =
      row.isUnionMember report.links := rfl
  have hnever : row.promotionOutcome ≠ some .created := fun h => by
    simp [Row.isCreated, h, createdOutcomes] at hcreated
  have hignored : (!row.columns.isIoc || row.columns.reviewStatus = .ignored ||
      row.values.isContextOnlyCandidate || row.columns.assessment = .invalid ||
      row.columns.matchState = .invalid) = (report.load row).isContextOrIgnored := by
    change (_ || _ || (_ || _ || _) || _ || _) = (_ || (_ || _) || (_ || _) || (_ || _))
    ac_rfl
  have hmatched : (row.isMatched || row.columns.reviewStatus = .createdIoc ||
      row.promotionOutcome = some .created) = (report.load row).alreadyHasIocRecord := by
    rw [decide_eq_false hnever, Bool.or_false]
    change (_ || _ || _) = (_ || _ || _)
    ac_rfl
  unfold Row.iocResultOutcome Row.classifyCreateOutcome LoadedRow.classifyCreateEligibility
  rw [hcreated, hignored, hmatched, hmember]
  cases (report.load row).isContextOrIgnored with
  | true => rfl
  | false =>
    cases row.isUnionMember report.links with
    | false => rfl
    | true =>
      change (if _ then _ else match (if _ then _ else if _ then _ else _ : CreateOutcome) with
        | .alreadyExisting => _ | .willCreate => _ | _ => _) =
        (if !creatableIocTypes.contains row.values.typeOf then _
          else if !row.values.isAnalystConfirmed then _ else _ : CreateOutcome).shown _
      cases happroved : row.values.isAnalystConfirmed with
      | false =>
        cases promotableTypes.contains row.values.typeOf <;>
          cases creatableIocTypes.contains row.values.typeOf <;> rfl
      | true =>
        obtain ⟨htype, hidentity⟩ := hknown happroved
        have hnone : (iocStorageIdentity (report.load row).row.identity).isNone = false := by
          simpa [Report.load] using hidentity
        rw [hcreatable _ htype, hnone]
        cases promotableTypes.contains row.values.typeOf <;>
          cases (report.load row).alreadyHasIocRecord <;> rfl

/-- A malicious domain without a recorded outcome. -/
def reviewedRow (reviewStatus : ReviewStatus) : Row where
  id := 1
  identity := ⟨"domain", "a.example"⟩
  columns := { (candidateColumns .original (domainInput "a.example" "")).columns with
    reviewStatus := reviewStatus }
  hasOriginalDocumentOccurrence := true
  promotionOutcome := none

/-- The report of one row. -/
def reviewedReport (reviewStatus : ReviewStatus) : Report := ⟨[reviewedRow reviewStatus], [], 2⟩

theorem iocResultOutcome_eq_shown_approved :
    (reviewedRow .approved).iocResultOutcome (reviewedReport .approved).links =
      CreateOutcome.shown none .willCreate :=
  iocResultOutcome_eq_shown (reviewedReport .approved) (reviewedRow .approved) (by decide)
    (by decide)

/-- A row that is not approved has no result. -/
theorem pending_row_has_no_result : ¬∀ (report : Report) (row : Row), row.isCreated = false →
    row.iocResultOutcome report.links = (report.load row).classifyCreateEligibility.recorded := by
  intro h
  exact absurd (h (reviewedReport .pending) (reviewedRow .pending) (by decide)) (by decide)

end TalonHound.Candidates
