import TalonHound.Candidates.CreateIocs
import TalonHound.Candidates.MembershipSql
import TalonHound.Candidates.ReconcileRows

/-!
# JavaScript and SQL agree on membership

The statements that write candidates keep their texts in lower case, so that on every stored row
the predicates and the SQL conditions agree, and so do the two counts of the finalization.
-/

namespace TalonHound.Candidates

open FileArtifacts (lowerCase)

/-- The `ON CONFLICT` clause of `INSERT_CANDIDATE_SQL`. -/
def Row.mergeConflict (row : Row) (n : Next) : Row :=
  { row with
    columns := { row.columns with
      assessment := n.columns.assessment
      role := n.columns.role
      confidence := n.columns.confidence
      evidenceText := n.columns.evidenceText.or row.columns.evidenceText
      matchState := n.columns.matchState
      matchedIocId := n.columns.matchedIocId
      matchedIocObservableType := n.columns.matchedIocObservableType
      isIoc := n.columns.isIoc
      sourceAssertion := n.columns.sourceAssertion
      evidence := n.columns.evidence }
    hasOriginalDocumentOccurrence :=
      row.hasOriginalDocumentOccurrence || n.hasOriginalDocumentOccurrence }

/-- `INSERT_CANDIDATE_SQL`. -/
def Report.insertCandidate (report : Report) (n : Next) : Report :=
  if n.identity ∈ report.rows.map Row.identity then
    report.update
      (Rows.updateWhere (fun row => row.identity = n.identity) fun row => row.mergeConflict n)
  else
    { report with
      rows := report.rows ++ [⟨report.nextId, n.identity, n.columns,
        n.hasOriginalDocumentOccurrence, none⟩]
      nextId := report.nextId + 1 }

/-- `replaceCandidates`; the links of the old candidates go with them. -/
def replaceCandidates (report : Report) (candidates : List CandidateInput) : Report :=
  (candidates.map (candidateColumns .original)).foldl Report.insertCandidate
    { report with rows := [], links := [] }

/-- A write to the candidates of a report. -/
inductive TableAction where
  | reconcile (call : Call)
  | replace (candidates : List CandidateInput)
  | changeStatus (ids : List ℕ) (action : StatusAction)
  | promote (id : ℕ) (promotedFrom : String)
  | persistPromotion (id : ℕ) (outcome : PromotionOutcome) (ioc : Option (ℕ × String))

/-- One write; a promotion is refused for a type that cannot be created. -/
def tableStep (report : Report) : TableAction → Option Report
  | .reconcile call => some (reconcileReportCandidates report call)
  | .replace candidates => some (replaceCandidates report candidates)
  | .changeStatus ids action =>
    some (report.update fun row => row.changeStatus report.links ids action)
  | .promote id promotedFrom =>
    if ∀ row ∈ report.rows, row.id = id → row.values.typeOf ∈ creatableIocTypes then
      some (report.updateId id (Row.promote promotedFrom))
    else none
  | .persistPromotion id outcome ioc =>
    some (report.updateId id (Row.persistPromotion outcome ioc))

/-- The texts that an extraction gives for a candidate are constants in lower case; an imported
candidate of another type is no IOC. -/
@[mk_iff]
structure CandidateInput.PlainTexts (c : CandidateInput) : Prop where
  assertion : ∀ text ∈ c.sourceAssertion, lowerCase text = text
  evidence : ∀ text ∈ c.evidence.sourceAssertion, lowerCase text = text
  type : lowerCase c.identity.candidateType = c.identity.candidateType ∨ c.isIoc = some false

instance (c : CandidateInput) : Decidable c.PlainTexts :=
  decidable_of_iff _ (CandidateInput.plainTexts_iff c).symm

/-- The candidates of a write have such texts. -/
def GivesPlainTexts (_ : Report) : TableAction → Prop
  | .reconcile call => ∀ c ∈ call.candidates, c.PlainTexts
  | .replace candidates => ∀ c ∈ candidates, c.PlainTexts
  | _ => True

instance (report : Report) (a : TableAction) : Decidable (GivesPlainTexts report a) := by
  cases a <;> unfold GivesPlainTexts <;> infer_instance

variable {report report' : Report} {c : CandidateInput} {n : Next} {next : List Next} {r : Row}
  {scope : Scope} {a : TableAction} {f : Row → Row}

theorem CandidateInput.PlainTexts.columns (h : c.PlainTexts) :
    (candidateColumns scope c).PlainTexts where
  assertion := by
    intro text htext
    obtain ⟨hsome, hne⟩ := Option.filter_eq_some_iff.mp htext
    exact ⟨by simpa using hne, h.assertion text hsome⟩
  evidence := h.evidence
  type := by
    intro hioc hmem
    have hkept : c.isIoc ≠ some false := of_decide_eq_true hioc
    have hlower := h.type.resolve_right hkept
    exact hlower ▸ hmem

/-- Other columns do not matter. -/
theorem Next.PlainTexts.of_same {n' : Next} (h : n.PlainTexts)
    (hidentity : n'.identity = n.identity)
    (hassertion : n'.columns.sourceAssertion = n.columns.sourceAssertion)
    (hevidence : n'.columns.evidence.sourceAssertion = n.columns.evidence.sourceAssertion)
    (hioc : n'.columns.isIoc = true → n.columns.isIoc = true) : n'.PlainTexts where
  assertion := by
    rw [hassertion]
    exact h.assertion
  evidence := by
    rw [hevidence]
    exact h.evidence
  type := by
    intro htrue
    unfold typeOf
    rw [hidentity]
    exact h.type (hioc htrue)

theorem Row.plainTexts_write (hr : r.values.PlainTexts) (hn : n.PlainTexts)
    (hidentity : n.identity = r.identity) : (r.write scope n).values.PlainTexts := by
  have hnext : ∀ flag, (Row.values { r with
      columns := n.columns, hasOriginalDocumentOccurrence := flag }).PlainTexts :=
    fun flag => hn.of_same hidentity.symm rfl rfl fun h => h
  unfold write
  split
  · split
    · next hoverlay =>
      -- An overlay makes the row an IOC, of the type that the pack asserts.
      have hasserts := (Bool.and_eq_true _ _ ▸ hoverlay).2
      unfold linkedAssertionOverridesDeferral Columns.asserts at hasserts
      simp only [Bool.and_eq_true] at hasserts
      refine ⟨hr.assertion, hr.evidence, fun _ hmem => ?_⟩
      have htype := hn.type hasserts.2.2
      unfold Next.typeOf at htype hmem
      rw [hidentity] at htype
      exact htype hmem
    · split
      · refine hr.of_same rfl ?_ ?_ ?_ <;> unfold Columns.refreshMatch Row.values <;>
          dsimp only <;> split <;> first | rfl | exact fun h => h
      · split
        · exact hr
        · exact hnext _
  · split
    · exact hr
    · exact hnext _

/-- Every row has plain texts. -/
def Report.HasPlainTexts (report : Report) : Prop := ∀ r ∈ report.rows, r.values.PlainTexts

namespace Report.HasPlainTexts

section

variable (h : report.HasPlainTexts)

include h

theorem update (hf : ∀ r ∈ report.rows, r.values.PlainTexts → (f r).values.PlainTexts) :
    (report.update f).HasPlainTexts := by
  intro r hr
  obtain ⟨r₀, hr₀, rfl⟩ := List.mem_map.mp hr
  exact hf r₀ hr₀ (h r₀ hr₀)

theorem writeAll (hnext : ∀ n ∈ next, n.PlainTexts) :
    ∀ r ∈ report.writeAll scope next, r.values.PlainTexts := by
  intro r hr
  rcases Report.mem_writeAll.mp hr with ⟨r₀, hr₀, rfl⟩ | hnew
  · unfold Row.written
    split
    · next n hn =>
      obtain ⟨hmem, hidentity⟩ := Rows.mem_of_lookup hn
      exact Row.plainTexts_write (h r₀ hr₀) (hnext n hmem) hidentity
    · exact h r₀ hr₀
  · obtain ⟨-, -, n, hn, hidentity, hcolumns, -⟩ := Report.mem_inserted hnew
    refine (hnext n hn).of_same hidentity.symm ?_ ?_ ?_
    · exact congrArg Columns.sourceAssertion hcolumns.symm
    · exact congrArg (fun c => c.evidence.sourceAssertion) hcolumns.symm
    · intro htrue
      rw [hcolumns]
      exact htrue

theorem reconcile (hnext : ∀ n ∈ next, n.PlainTexts) :
    (report.reconcile scope next).HasPlainTexts := by
  have hall : ∀ r ∈ report.writeAll scope next, r.values.PlainTexts := h.writeAll hnext
  intro r hr
  cases scope with
  | original =>
    obtain ⟨r₀, hr₀, hsettle⟩ := List.mem_filterMap.mp hr
    have hplain := hall r₀ hr₀
    split at hsettle
    · cases hsettle
      exact hplain
    · unfold Report.settleMissing at hsettle
      split at hsettle
      · cases hsettle
        exact hplain
      · obtain ⟨-, rfl⟩ := Run.enabled hsettle
        exact hplain.of_same rfl rfl rfl fun htrue => htrue
  | source sourceId => exact hall r (List.mem_filter.mp hr).1

theorem insertCandidate (hn : n.PlainTexts) : (report.insertCandidate n).HasPlainTexts := by
  intro r hr
  unfold Report.insertCandidate at hr
  split at hr
  · rcases Rows.mem_map_updateWhere.mp hr with ⟨r₀, -, hkey, rfl⟩ | ⟨hold, -⟩
    · have hidentity : r₀.identity = n.identity := of_decide_eq_true hkey
      exact hn.of_same hidentity rfl rfl fun htrue => htrue
    · exact h r hold
  · rcases List.mem_append.mp hr with hold | hone
    · exact h r hold
    · obtain rfl := List.mem_singleton.mp hone
      exact hn.of_same rfl rfl rfl fun htrue => htrue

/-- Every insertion of a replacement, one after the other. -/
theorem foldl_insertCandidate (hnext : ∀ n ∈ next, n.PlainTexts) :
    (next.foldl Report.insertCandidate report).HasPlainTexts := by
  induction next generalizing report with
  | nil => exact h
  | cons n next ih =>
    exact ih (h.insertCandidate (hnext n List.mem_cons_self))
      fun m hm => hnext m (List.mem_cons_of_mem _ hm)

theorem step (hguard : GivesPlainTexts report a) (hstep : tableStep report a = some report') :
    report'.HasPlainTexts := by
  cases a with
  | reconcile call =>
    cases hstep
    refine h.reconcile fun n hn => ?_
    obtain ⟨c, hc, rfl⟩ := List.mem_map.mp (InsertionMap.mem_of_mem_ofList hn)
    exact (hguard c hc).columns
  | replace candidates =>
    cases hstep
    refine foldl_insertCandidate (fun r hr => absurd hr List.not_mem_nil) fun n hn => ?_
    obtain ⟨c, hc, rfl⟩ := List.mem_map.mp hn
    exact (hguard c hc).columns
  | changeStatus ids action =>
    cases hstep
    refine h.update fun r _ hr => hr.of_same ?_ ?_ ?_ ?_ <;> unfold Row.changeStatus <;>
      cases action <;> dsimp only <;> split <;> first | rfl | exact fun h => h
  | promote id promotedFrom =>
    obtain ⟨hcreatable, rfl⟩ := Run.enabled hstep
    refine h.update fun r hr hplain => ?_
    unfold Rows.updateWhere
    split
    · next hid =>
      -- A type that can be created is none of the types that are no IOC.
      have hdisjoint : ∀ type ∈ creatableIocTypes, type ∉ nonIocCandidateTypes := by decide
      refine ⟨hplain.assertion, hplain.evidence, fun _ hmem => ?_⟩
      exact absurd hmem (hdisjoint _ (hcreatable r hr (of_decide_eq_true hid)))
    · exact hplain
  | persistPromotion id outcome ioc =>
    cases hstep
    refine h.update fun r _ hplain => ?_
    unfold Rows.updateWhere
    split
    · exact hplain.of_same rfl rfl rfl fun htrue => htrue
    · exact hplain

end

end Report.HasPlainTexts

/-- The predicates accept the row exactly where the SQL conditions select it. -/
structure StoredRow.Agrees (scriptText sqlText : Json → String) (linked : Truth)
    (row : StoredRow) : Prop where
  original : row.isReportIndicatorMember scriptText =
    (row.reportIndicatorMembershipSql sqlText).selects
  linkedSource : row.isLinkedSourceIndicatorMember scriptText linked.selects =
    (row.linkedSourceIndicatorMembershipSql sqlText linked).selects
  union : row.isUnionReportIndicatorMember scriptText linked.selects =
    (row.unionReportIndicatorMembershipSql sqlText linked).selects
  needsReview : row.isNeedsReviewCandidate = (row.needsReviewCandidateSql sqlText).selects
  actionable : row.isReviewActionableIndicator scriptText linked.selects =
    (row.reviewActionableIndicatorSql sqlText linked).selects
  contextOnly : row.isContextOnlyCandidate = row.isContextOnlySql.selects
  notContextOnly : (!row.isContextOnlyCandidate) = row.notContextOnlySql.selects

variable {scriptText sqlText : Json → String} {others : String → List (String × Json)}

theorem Next.PlainTexts.agrees {linked : Truth} (h : OtherKeys others) (hplain : n.PlainTexts) :
    (n.stored others).Agrees scriptText sqlText linked where
  original := (stored_isReportIndicatorMember h).trans
    (selects_reportIndicatorMembershipSql h hplain).symm
  linkedSource := (stored_isLinkedSourceIndicatorMember h).trans
    (selects_linkedSourceIndicatorMembershipSql h hplain).symm
  union := (stored_isUnionReportIndicatorMember h).trans
    (selects_unionReportIndicatorMembershipSql h hplain).symm
  needsReview := (stored_isNeedsReviewCandidate h).trans
    (selects_needsReviewCandidateSql h hplain).symm
  actionable := (stored_isReviewActionableIndicator h).trans
    (selects_reviewActionableIndicatorSql h hplain).symm
  contextOnly := stored_isContextOnlyCandidate.trans selects_isContextOnlySql.symm
  notContextOnly := by
    rw [stored_isContextOnlyCandidate, selects_notContextOnlySql]

/-- `pendingCount` of `finalizeLocked`, on the loaded rows. -/
def loadedPendingCount (scriptText : Json → String) (others : String → List (String × Json))
    (report : Report) : ℕ :=
  report.rows.countP fun row =>
    (row.values.stored others).isPendingReviewActionableIndicator scriptText
      (linkedSourceOccurrenceSql report.links row.id).selects

/-- After every run of writes, JavaScript and SQL agree on every row, and the finalization counts
no pending Indicator exactly when the `NOT EXISTS` of its `UPDATE` holds. -/
theorem membership_agrees {actions : List TableAction} (h : OtherKeys others)
    (hrun : Run tableStep GivesPlainTexts Report.empty actions report) :
    (∀ row ∈ report.rows, (row.values.stored others).Agrees scriptText sqlText
      (linkedSourceOccurrenceSql report.links row.id)) ∧
    (loadedPendingCount scriptText others report = 0 ↔
      (noPendingIndicatorSql sqlText others report.links report.rows).selects = true) := by
  have hplain : report.HasPlainTexts :=
    Run.invariant (fun _ _ _ hinv hguard hstep => hinv.step hguard hstep) hrun
      fun r hr => absurd hr List.not_mem_nil
  refine ⟨fun row hrow => (hplain row hrow).agrees h, ?_⟩
  rw [selects_noPendingIndicatorSql h hplain]
  unfold loadedPendingCount pendingCount
  rw [List.countP_eq_zero, List.countP_eq_zero]
  refine forall₂_congr fun row hrow => ?_
  rw [Next.stored_isPendingReviewActionableIndicator h, selects_linkedSourceOccurrenceSql]
  rfl

/-- A strength beside the keys that membership reads. -/
def strengthKey (_ : String) : List (String × Json) := [("evidence_strength", .null)]

theorem otherKeys_strengthKey : OtherKeys strengthKey where
  nodup := fun _ => List.nodup_singleton _
  other := by
    intro _ key hkey
    obtain rfl := List.mem_singleton.mp hkey
    decide

/-- A domain is extracted, found again in a linked source and then ignored. -/
theorem membership_agrees_ignoredDomain : ∃ report : Report,
    (∀ row ∈ report.rows, (row.values.stored strengthKey).Agrees Json.typeName Json.typeName
      (linkedSourceOccurrenceSql report.links row.id)) ∧
    report.rows.map (fun row => row.columns.reviewStatus) = [.ignored] := by
  have hrun := Run.of_isSome (by decide :
    (Run.exec tableStep GivesPlainTexts Report.empty
      [.replace [domainInput "a.test" "body"],
        .reconcile ⟨.source 1, [domainInput "a.test" "body"]⟩,
        .changeStatus [0] .ignore]).isSome)
  exact ⟨_, (membership_agrees otherKeys_strengthKey hrun).1, by decide⟩

end TalonHound.Candidates
