import TalonHound.Candidates.AnalystState

/-!
# Runs of refreshes

A refresh merges the analyst decisions into an extraction and reconciles it. The decisions on a row
survive every run of refreshes that extract its identity.
-/

namespace TalonHound.Candidates

open Option

/-- A refresh or a re-analysis: an extraction, and whether it keeps the stored links. -/
structure Merge where
  carryStoredMatch : Bool
  candidates : List CandidateInput

/-- The candidate of an identity; the last one, where it is listed twice. -/
def Merge.candidate? (m : Merge) (k : Identity) : Option CandidateInput :=
  Rows.lookup CandidateInput.identity (InsertionMap.ofList CandidateInput.identity m.candidates) k

/-- The extraction finds the identity in the document. -/
def Merge.FindsInDocument (k : Identity) (m : Merge) : Prop :=
  ∀ c ∈ m.candidate? k, c.hasOriginalDocumentOccurrence ≠ some false

/-- The call of a refresh: `preserveAnalystCandidates`. -/
def Report.mergeCall (report : Report) (m : Merge) : Call :=
  ⟨.original, preserveAnalystCandidates m.carryStoredMatch m.candidates report.rows⟩

/-- A refresh. -/
def Report.merged (report : Report) (m : Merge) : Report :=
  reconcileReportCandidates report (report.mergeCall m)

def mergeStep (report : Report) (m : Merge) : Option Report := some (report.merged m)

/-- The refresh extracts the identity. -/
def Extracts (k : Identity) (_ : Report) (m : Merge) : Prop := (m.candidate? k).isSome = true
  deriving Decidable

variable {report s : Report} {m : Merge} {r r₁ : Row} {c : CandidateInput} {actions : List Merge}

/-- A refresh writes the merged candidates of its extraction. -/
theorem nextByKey_mergeCall : (report.mergeCall m).nextByKey =
    (InsertionMap.ofList CandidateInput.identity m.candidates).map fun c =>
      candidateColumns .original (c.preserve m.carryStoredMatch report.rows) := by
  have hcall : (report.mergeCall m).nextByKey =
      InsertionMap.ofList Next.identity (m.candidates.map fun c =>
        candidateColumns .original (c.preserve m.carryStoredMatch report.rows)) := by
    unfold Call.nextByKey Report.mergeCall preserveAnalystCandidates
    rw [List.map_map]
    rfl
  have hkey : ∀ c : CandidateInput,
      (candidateColumns .original (c.preserve m.carryStoredMatch report.rows)).identity =
        c.identity := fun _ => CandidateInput.preserve_keeps.1
  rw [hcall]
  exact InsertionMap.ofList_map hkey _

section

variable (hwf : report.WellFormed) (hr : r ∈ report.rows)
include hwf hr

/-- A row is written with the merged candidate of its identity. -/
theorem mem_merged (hc : m.candidate? r.identity = some c) :
    r.write .original (candidateColumns .original (c.preserve m.carryStoredMatch report.rows)) ∈
      (report.merged m).rows := by
  obtain ⟨hmem, hidentity⟩ := Rows.mem_of_lookup hc
  have hnodup : ((report.mergeCall m).nextByKey.map Next.identity).Nodup := Call.nodup_nextByKey
  have hnext : candidateColumns .original (c.preserve m.carryStoredMatch report.rows) ∈
      (report.mergeCall m).nextByKey := by
    rw [nextByKey_mergeCall]
    exact List.mem_map_of_mem hmem
  have hkey : (candidateColumns .original
      (c.preserve m.carryStoredMatch report.rows)).identity = r.identity :=
    CandidateInput.preserve_keeps.1.trans hidentity
  refine ((mem_reconcile_iff_refreshed hwf hnodup hr).mpr ?_).1
  unfold Row.refreshed
  rw [← hkey, Rows.lookup_key hnodup hnext]

/-- The stored row of an identity is the prior row of its candidate. -/
theorem preserve_eq (hc : c.identity = r.identity) (carry : Bool) : c.preserve carry report.rows =
      (if carry then c.carryStoredMatch (some r) else c).applyAnalystState (some r) := by
  have hprior : Rows.lookup Row.identity report.rows c.identity = some r := by
    rw [hc]
    exact Rows.lookup_key hwf.identities hr
  unfold CandidateInput.preserve
  rw [hprior]

/-- The row of an identity, and the merge of the candidate that the refresh has for it. -/
theorem exists_merged (hc : m.candidate? r.identity = some c) :
    ∃ r' ∈ (report.merged m).rows, r'.id = r.id ∧ r'.identity = r.identity ∧
      r'.promotionOutcome = r.promotionOutcome ∧
      r'.columns = (candidateColumns .original
        ((if m.carryStoredMatch then c.carryStoredMatch (some r) else c).applyAnalystState
          (some r))).columns ∧
      (r'.hasOriginalDocumentOccurrence = r.hasOriginalDocumentOccurrence ∧ r'.columns = r.columns ∨
        r'.hasOriginalDocumentOccurrence = decide (c.hasOriginalDocumentOccurrence ≠ some false)) := by
  have hidentity := (Rows.mem_of_lookup hc).2
  refine ⟨_, mem_merged hwf hr hc, Row.write_id, Row.write_identity, ?_, ?_, ?_⟩
  · unfold Row.write
    dsimp only
    split <;> rfl
  · rw [Row.write_original_columns, preserve_eq hwf hr hidentity]
  · unfold Row.write
    dsimp only
    split
    · exact Or.inl ⟨rfl, rfl⟩
    · refine Or.inr ?_
      unfold candidateColumns
      rw [CandidateInput.preserve_keeps.2]

end

/-- The review status after a refresh. -/
theorem mergedReview_eq {r' : Row} {prior : CandidateInput}
    (h : r'.columns = (candidateColumns .original (prior.applyAnalystState (some r))).columns) :
    r'.columns.reviewStatus = r.mergedReview := by
  rw [h]
  unfold candidateColumns
  rw [CandidateInput.applyAnalystState_reviewStatus, getD_some]

/-- After a run, the row of the identity has the decisions that it had before. -/
structure Survives (report : Report) (r : Row) (s : Report) : Prop where
  wellFormed : s.WellFormed
  links : s.links = report.links
  row : ∃ r₁ ∈ s.rows, r₁.id = r.id ∧ r₁.identity = r.identity ∧
    r₁.promotionOutcome = r.promotionOutcome ∧
    (r₁.columns.reviewStatus = r.columns.reviewStatus ∨ r₁.columns.reviewStatus = r.mergedReview) ∧
    ∀ origin, r.columns.evidence.promotedFrom = some origin →
      r₁.columns.evidence.promotedFrom = some origin

/-- A row of the document or of a source. -/
def Row.IsHeld (links : List (ℕ × ℕ)) (row : Row) : Prop :=
  row.hasOriginalDocumentOccurrence = true ∨
    row.values.isLinkedSourceAssertedIoc (Report.isLinked links row) = true

/-- A review status that a merge has left is not changed by the next. -/
theorem mergedReview_of {r₁ : Row} (houtcome : r₁.promotionOutcome = r.promotionOutcome)
    (hreview : r₁.columns.reviewStatus = r.columns.reviewStatus ∨
      r₁.columns.reviewStatus = r.mergedReview) : r₁.mergedReview = r.mergedReview := by
  have hcreated : r₁.isCreated = r.isCreated := by
    unfold Row.isCreated
    rw [houtcome]
  unfold Row.mergedReview at hreview ⊢
  rw [hcreated]
  rcases hreview with hsame | hmerged
  · rw [hsame]
  · rw [hmerged]
    split
    · rfl
    · rfl

namespace Survives

theorem initial (hwf : report.WellFormed) (hr : r ∈ report.rows) : Survives report r report :=
  ⟨hwf, rfl, r, hr, rfl, rfl, rfl, Or.inl rfl, fun _ h => h⟩

/-- A refresh that extracts the identity keeps the decisions. -/
theorem step (h : Survives report r s) (hc : (m.candidate? r.identity).isSome = true) :
    Survives report r (s.merged m) := by
  obtain ⟨r₁, hr₁, hid, hidentity, houtcome, hreview, hpromoted⟩ := h.row
  obtain ⟨c, hc⟩ := isSome_iff_exists.mp hc
  rw [← hidentity] at hc
  obtain ⟨r₂, hr₂, hid₂, hidentity₂, houtcome₂, hcolumns, -⟩ := exists_merged h.wellFormed hr₁ hc
  refine ⟨h.wellFormed.reconcile .original Call.nodup_nextByKey, h.links, r₂, hr₂,
    hid₂.trans hid, hidentity₂.trans hidentity, houtcome₂.trans houtcome, Or.inr ?_, ?_⟩
  · rw [mergedReview_eq hcolumns, mergedReview_of houtcome hreview]
  · intro origin horigin
    rw [hcolumns]
    exact CandidateInput.applyAnalystState_promotedFrom (hpromoted origin horigin)

end Survives

/-- A row that a document or a source holds is held after a refresh that finds it in the document. -/
theorem isHeld_step {links : List (ℕ × ℕ)} {r₂ : Row} (hheld : r₁.IsHeld links)
    (hid : r₂.id = r₁.id)
    (hflag : r₂.hasOriginalDocumentOccurrence = r₁.hasOriginalDocumentOccurrence ∧
        r₂.columns = r₁.columns ∨ r₂.hasOriginalDocumentOccurrence = true) : r₂.IsHeld links := by
  rcases hflag with ⟨hsame, hcolumns⟩ | hflag
  · rcases hheld with hflag₁ | hasserted
    · exact Or.inl (hsame.trans hflag₁)
    · refine Or.inr ?_
      unfold Next.isLinkedSourceAssertedIoc Next.assertion Row.values at hasserted ⊢
      rw [hcolumns, isLinked_of_id hid]
      exact hasserted
  · exact Or.inl hflag

/-- After a run of refreshes that find the identity in the document, its row is held. -/
theorem isHeld_of_run (hwf : report.WellFormed) (hr : r ∈ report.rows)
    (hheld : r.IsHeld report.links)
    (hrun : Run mergeStep (Extracts r.identity) report actions s)
    (hfinds : ∀ m ∈ actions, m.FindsInDocument r.identity) :
    ∀ r₁ ∈ s.rows, r₁.id = r.id → r₁.IsHeld s.links := by
  let I : Report → Prop := fun s =>
    Survives report r s ∧ ∀ r₁ ∈ s.rows, r₁.id = r.id → r₁.IsHeld s.links
  have hinv : I s := by
    refine Run.invariant (I := I) (fun s m s' hinv hguard hstep => ?_) (hrun.and_guard hfinds)
      ⟨Survives.initial hwf hr, ?_⟩
    · cases hstep
      obtain ⟨hsurvives, hheld⟩ := hinv
      have hnext := hsurvives.step hguard.1
      obtain ⟨r₁, hr₁, hid, hidentity, -⟩ := hsurvives.row
      obtain ⟨c, hc⟩ := isSome_iff_exists.mp hguard.1
      have hfound := hguard.2 c hc
      rw [← hidentity] at hc
      obtain ⟨r₂, hr₂, hid₂, -, -, -, hflag⟩ := exists_merged hsurvives.wellFormed hr₁ hc
      rw [decide_eq_true hfound] at hflag
      refine ⟨hnext, fun r₃ hr₃ hid₃ => ?_⟩
      obtain rfl : r₃ = r₂ := List.inj_on_of_nodup_map hnext.wellFormed.ids hr₃ hr₂
        (hid₃.trans (hid₂.trans hid).symm)
      exact isHeld_step (hheld r₁ hr₁ hid) hid₂ hflag
    · intro r₁ hr₁ hid
      rwa [List.inj_on_of_nodup_map hwf.ids hr₁ hr hid]
  exact hinv.2

/-- A promoted and approved row that is held is an Indicator after a refresh, unless the extraction
withdraws it. -/
theorem isUnionMember_of_promoted {links : List (ℕ × ℕ)} {r₂ : Row} {origin : String}
    (hidentity : r₂.identity = c.identity)
    (hreview : r₁.columns.reviewStatus = .approved)
    (hpromoted : r₁.columns.evidence.promotedFrom = some origin)
    (hcolumns : r₂.columns = (candidateColumns .original (c.applyAnalystState (some r₁))).columns)
    (hheld : r₂.IsHeld links) (hkept : c.withdraws = false) : r₂.isUnionMember links = true := by
  have hgates := CandidateInput.passesIndicatorTypeGates_of_promoted hreview hpromoted hkept
  have hsame : r₂.identity =
      (candidateColumns .original (c.applyAnalystState (some r₁))).identity :=
    hidentity.trans CandidateInput.applyAnalystState_keeps.1.symm
  refine Next.isUnionReportIndicatorMember_iff.mpr ⟨?_, ?_⟩
  · exact (Next.passesIndicatorTypeGates_of_columns hsame hcolumns).trans hgates
  · rcases hheld with hflag | hasserted
    · refine Or.inl ⟨hflag, Next.isPublisher_of_promoted ?_⟩
      have happroved : r₂.columns.reviewStatus = .approved := by
        rw [mergedReview_eq hcolumns]
        unfold Row.mergedReview
        rw [hreview]
        rfl
      have horigin : r₂.columns.evidence.promotedFrom = some origin := by
        rw [hcolumns]
        exact CandidateInput.applyAnalystState_promotedFrom hpromoted
      unfold Next.isAnalystConfirmedPublisherEvidence Next.isAnalystConfirmed Row.values
      rw [happroved, horigin]
      rfl
    · exact Or.inr hasserted

/-- After every refresh of a run that extracts the identity of a row, the row has its review status
(approved, where it was pending with a Create-IOCs outcome), a row that the analyst marked is
Context Only, a promoted and approved member is a member unless the last extraction withdraws it,
and a repeated merge changes nothing. -/
theorem decisions_survive (hwf : report.WellFormed) (hr : r ∈ report.rows)
    (hrun : Run mergeStep (Extracts r.identity) report actions s)
    (hc : m.candidate? r.identity = some c) :
    (∃ r' ∈ (s.merged m).rows, r'.id = r.id ∧ r'.identity = r.identity ∧
      r'.columns.reviewStatus = r.mergedReview ∧
      (r.columns.reviewStatus = .contextOnly → r'.values.isContextOnlyCandidate = true ∧
        r'.columns.assessment = .contextOnly ∧ r'.columns.matchState = .contextOnly) ∧
      (r.columns.evidence.promotedFrom.isSome = true → r.columns.reviewStatus = .approved →
        r.isUnionMember report.links = true → (∀ m' ∈ m :: actions, m'.FindsInDocument r.identity) →
        c.withdraws = false → r'.isUnionMember (s.merged m).links = true)) ∧
    preserveAnalystCandidates m.carryStoredMatch
        (preserveAnalystCandidates m.carryStoredMatch m.candidates s.rows) s.rows =
      preserveAnalystCandidates m.carryStoredMatch m.candidates s.rows := by
  have hsurvives : Survives report r s :=
    Run.invariant (fun s m s' hinv hguard hstep => by
      cases hstep
      exact hinv.step hguard) hrun (Survives.initial hwf hr)
  constructor
  · obtain ⟨r₁, hr₁, hid, hidentity, houtcome, hreview, hpromoted⟩ := hsurvives.row
    have hc₁ : m.candidate? r₁.identity = some c := hidentity ▸ hc
    obtain ⟨r₂, hr₂, hid₂, hidentity₂, -, hcolumns, hflag⟩ :=
      exists_merged hsurvives.wellFormed hr₁ hc₁
    have hmerged : r₂.columns.reviewStatus = r.mergedReview := by
      rw [mergedReview_eq hcolumns, mergedReview_of houtcome hreview]
    have hdecided : r.columns.reviewStatus ≠ .pending →
        r₁.columns.reviewStatus = r.columns.reviewStatus := by
      intro hnot
      rcases hreview with hsame | hmerged₁
      · exact hsame
      · rw [hmerged₁]
        unfold Row.mergedReview
        rw [decide_eq_false hnot, Bool.false_and]
        rfl
    refine ⟨r₂, hr₂, hid₂.trans hid, hidentity₂.trans hidentity, hmerged, ?_, ?_⟩
    · intro hcontext
      have hcontext₁ := (hdecided (by rw [hcontext]; decide)).trans hcontext
      obtain ⟨hassessment, hstate⟩ := CandidateInput.applyAnalystState_contextOnly
        (c := if m.carryStoredMatch then c.carryStoredMatch (some r₁) else c) hcontext₁
      have hassessment₂ : r₂.columns.assessment = .contextOnly := by
        rw [hcolumns]
        unfold candidateColumns
        rw [hassessment, getD_some]
      have hstate₂ : r₂.columns.matchState = .contextOnly := by
        rw [hcolumns]
        unfold candidateColumns
        rw [hstate, getD_some]
      refine ⟨?_, hassessment₂, hstate₂⟩
      unfold Next.isContextOnlyCandidate Row.values
      rw [hassessment₂, decide_eq_true rfl, Bool.or_true, Bool.true_or]
    · intro hsome happroved hunion hfinds hkept
      obtain ⟨origin, horigin⟩ := isSome_iff_exists.mp hsome
      have hheld : r.IsHeld report.links := by
        rcases (Next.isUnionReportIndicatorMember_iff.mp hunion).2 with ⟨hflag, -⟩ | hasserted
        · exact Or.inl hflag
        · exact Or.inr hasserted
      have hheld₁ := isHeld_of_run hwf hr hheld hrun
        (fun m' hm' => hfinds m' (List.mem_cons_of_mem _ hm')) r₁ hr₁ hid
      have hfound := hfinds m List.mem_cons_self c hc
      rw [decide_eq_true hfound] at hflag
      have hheld₂ : r₂.IsHeld (s.merged m).links := isHeld_step hheld₁ hid₂ hflag
      refine isUnionMember_of_promoted ?_
        ((hdecided (by rw [happroved]; decide)).trans happroved) (hpromoted origin horigin)
        hcolumns hheld₂ ?_
      · have hkey := (Rows.mem_of_lookup hc₁).2
        rw [hidentity₂, ← hkey]
        split
        · exact CandidateInput.carryStoredMatch_keeps.1.symm
        · rfl
      · split
        · rw [CandidateInput.withdraws_carryStoredMatch]
          exact hkept
        · exact hkept
  · unfold preserveAnalystCandidates
    rw [List.map_map]
    exact List.map_congr_left fun c _ => CandidateInput.preserve_preserve

/-- A domain that an analyst has promoted. -/
def promotedRow : Row where
  id := 1
  identity := ⟨"domain", "a.test"⟩
  columns := { (candidateColumns .original (domainInput "a.test" "body")).columns with
    assessment := .suspicious
    reviewStatus := .approved
    evidence := { plainEvidence with
      membershipOutcome := some .contextOnly
      promotedFrom := some "\x7b\x7d" } }
  hasOriginalDocumentOccurrence := true
  promotionOutcome := none

def promotedReport : Report := ⟨[promotedRow], [], 2⟩

/-- An extraction that reads the domain as context. -/
def contextMerge : Merge where
  carryStoredMatch := false
  candidates :=
    [{ domainInput "a.test" "body" with
      assessment := some .contextOnly
      matchState := some .contextOnly
      isIoc := some false
      evidence := { plainEvidence with membershipOutcome := some .contextOnly } }]

theorem decisions_survive_contextMerge : ∃ r' ∈ (promotedReport.merged contextMerge).rows,
      r'.columns.reviewStatus = .approved ∧
        r'.isUnionMember (promotedReport.merged contextMerge).links = true := by
  have hcandidate : contextMerge.candidate? promotedRow.identity =
      some (contextMerge.candidates.head (by decide)) := by
    decide
  obtain ⟨⟨r', hr', -, -, hreview, -, hmember⟩, -⟩ :=
    decisions_survive (by decide : promotedReport.WellFormed)
      (by decide : promotedRow ∈ promotedReport.rows) (Run.nil _) hcandidate
  refine ⟨r', hr', hreview.trans (by decide), hmember (by decide)
    (by decide) (by decide) ?_ (by decide)⟩
  intro m hm c hc
  obtain rfl := List.mem_singleton.mp hm
  rw [hcandidate] at hc
  cases hc
  decide

/-- The exceptions for a type, parser-derived metadata and a reserved or local address. -/
def CandidateInput.isExcepted (c : CandidateInput) : Bool :=
  nonIocCandidateTypes.contains (FileArtifacts.lowerCase c.identity.candidateType) ||
    c.evidence.isParserDerivedMetadata || c.evidence.reservedAddress ||
    c.evidence.nonActionableLocal

/-- An extraction that reads the domain as no direct observable of the source. -/
def indirectMerge : Merge where
  carryStoredMatch := false
  candidates :=
    [{ domainInput "a.test" "body" with
      evidence := { plainEvidence with isDirectSourceObservable := false } }]

/-- A promoted row leaves the inventory when the extraction does not read it as observable. -/
theorem promoted_row_leaves :
    ¬ ∀ (report : Report) (r : Row) (actions : List Merge) (s : Report) (m : Merge)
        (c : CandidateInput), report.WellFormed → r ∈ report.rows →
      Run mergeStep (Extracts r.identity) report actions s → m.candidate? r.identity = some c →
      r.columns.evidence.promotedFrom.isSome = true → r.columns.reviewStatus = .approved →
      r.isUnionMember report.links = true → c.isExcepted = false →
      ∃ r' ∈ (s.merged m).rows, r'.id = r.id ∧ r'.isUnionMember (s.merged m).links = true := by
  intro hclaim
  have hcandidate : indirectMerge.candidate? promotedRow.identity =
      some (indirectMerge.candidates.head (by decide)) := by
    decide
  have hmember := hclaim promotedReport promotedRow [] promotedReport indirectMerge _
    (by decide) (by decide) (Run.nil _) hcandidate (by decide)
    (by decide) (by decide) (by decide)
  have hleaves : ¬ ∃ r' ∈ (promotedReport.merged indirectMerge).rows, r'.id = promotedRow.id ∧
      r'.isUnionMember (promotedReport.merged indirectMerge).links = true := by
    decide
  exact hleaves hmember

end TalonHound.Candidates
