import TalonHound.Candidates.Inventory

/-!
# The overlay of linked packs

Runs of refreshes, which re-apply the overlay that a row is marked with, and of source calls. A
pending row that the document defers to a pack has the pack's assessment exactly when a linked
source asserts it, as long as no source drops its last assertion and no refresh meets a row that
its marker and its links tell apart.
-/

namespace TalonHound.Candidates

open ReportLifecycle (Assessment ReviewStatus MatchState)
open Bool List

/-- The candidate is still pending. -/
def CandidateInput.isPending (c : CandidateInput) : Bool := c.reviewStatus.getD .pending = .pending

/-- The body reading is the deferral policy. -/
def CandidateInput.defers (c : CandidateInput) : Bool :=
  c.assessment = some .contextOnly &&
    deferredContextPolicies.contains (c.evidence.policyDecision.getD "")

/-- The rows whose evidence has a marker. -/
def markedRows (rows : List Row) : List Row :=
  rows.filter (·.columns.evidence.linkedAssertionOverDeferral.isSome)

/-- `reapplyLinkedOverlay`, for one candidate. -/
def reapplyOverlay (rows : List Row) (c : CandidateInput) : CandidateInput :=
  match Rows.lookup Row.identity (markedRows rows) c.identity with
  | none => c
  | some row =>
    if c.isPending && c.defers then
      { c with
        assessment := some row.columns.assessment
        role := some row.columns.role
        matchState :=
          some (if row.columns.matchState = .contextOnly then .new else row.columns.matchState)
        isIoc := some true
        evidence := { c.evidence with
          linkedAssertionOverDeferral := row.columns.evidence.linkedAssertionOverDeferral } }
    else c

/-- `reapplyLinkedOverlay`. -/
def reapplyLinkedOverlay (candidates : List CandidateInput) (rows : List Row) :
    List CandidateInput := candidates.map (reapplyOverlay rows)

/-- A report, the identities whose latest body reading is the deferral policy, and those that the
latest call of each source asserts. -/
structure OverlayState where
  report : Report
  deferred : List Identity
  asserted : ℕ → List Identity

def OverlayState.initial : OverlayState := ⟨.empty, [], fun _ => []⟩

/-- What rewrites the overlay. -/
inductive OverlayAction where
  | refresh (candidates : List CandidateInput)
  | source (sourceId : ℕ) (candidates : List CandidateInput)

/-- The last candidate of each identity. -/
def byIdentity (candidates : List CandidateInput) : List CandidateInput :=
  InsertionMap.ofList CandidateInput.identity candidates

/-- One call. -/
def overlayStep (s : OverlayState) : OverlayAction → Option OverlayState
  | .refresh candidates => some { s with
      report := reconcileReportCandidates s.report
        ⟨.original, reapplyLinkedOverlay candidates s.report.rows⟩
      deferred :=
        ((byIdentity candidates).filter CandidateInput.defers).map CandidateInput.identity }
  | .source sourceId candidates => some { s with
      report := reconcileReportCandidates s.report ⟨.source sourceId, candidates⟩
      asserted := Function.update s.asserted sourceId
        (((Call.nextByKey ⟨.source sourceId, candidates⟩).filter (·.columns.asserts)).map
          Next.identity) }

namespace OverlayState

/-- A source that the row is linked to asserts it. -/
def Asserted (s : OverlayState) (r : Row) : Prop :=
  ∃ link ∈ s.report.links, link.1 = r.id ∧ r.identity ∈ s.asserted link.2
  deriving Decidable

/-- A pending row of the document whose body reading is the deferral policy. -/
def Deferral (s : OverlayState) (r : Row) : Prop :=
  r.hasOriginalDocumentOccurrence = true ∧ r.columns.reviewStatus = .pending ∧
    r.identity ∈ s.deferred
  deriving Decidable

/-- The overlay follows the links. -/
def OverlayFollowsLinks (s : OverlayState) : Prop :=
  ∀ r ∈ s.report.rows, s.Deferral r → (r.columns.assessment ≠ .contextOnly ↔ s.Asserted r)

end OverlayState

/-- A row carries the overlay of a pack. -/
def Row.isOverlaid (r : Row) : Prop :=
  r.columns.evidence.linkedAssertionOverDeferral.isSome = true ∧ r.columns.assessment ≠ .contextOnly
  deriving Decidable

/-- A refresh that defers a value whose row was no deferral finds it overlaid exactly when a linked
source asserts it; a source call keeps an assertion of every row that has the pack's assessment, and
makes no row of the document for a value that the body defers. -/
def KeepsOverlay (s : OverlayState) : OverlayAction → Prop
  | .refresh candidates =>
    ∀ c ∈ byIdentity candidates, c.isPending = true → c.defers = true →
      ∀ r ∈ s.report.row? c.identity, ¬ s.Deferral r → (r.isOverlaid ↔ s.Asserted r)
  | .source sourceId candidates =>
    (∀ r ∈ s.report.rows, s.Deferral r → r.columns.assessment ≠ .contextOnly →
      (∃ n ∈ Call.nextByKey ⟨.source sourceId, candidates⟩,
        n.identity = r.identity ∧ n.columns.asserts = true) ∨
      ∃ link ∈ s.report.links, link.1 = r.id ∧ link.2 ≠ sourceId ∧ r.identity ∈ s.asserted link.2) ∧
    ∀ n ∈ Call.nextByKey ⟨.source sourceId, candidates⟩, s.report.row? n.identity = none →
      n.hasOriginalDocumentOccurrence = true → n.identity ∉ s.deferred

instance (s : OverlayState) (a : OverlayAction) : Decidable (KeepsOverlay s a) := by
  cases a <;> unfold KeepsOverlay <;> infer_instance

variable {s s' : OverlayState} {r r' : Row} {n : Next} {c : CandidateInput} {sourceId : ℕ}
  {candidates : List CandidateInput} {rows : List Row}

theorem reapplyOverlay_identity : (reapplyOverlay rows c).identity = c.identity := by
  unfold reapplyOverlay
  split
  · rfl
  · split <;> rfl

section

variable (hrows : (rows.map Row.identity).Nodup) (hr : r ∈ rows)
  (hidentity : r.identity = c.identity)
include hrows hr hidentity

theorem lookup_markedRows : Rows.lookup Row.identity (markedRows rows) c.identity =
      if r.columns.evidence.linkedAssertionOverDeferral.isSome = true then some r else none := by
  have hmarked : ((markedRows rows).map Row.identity).Nodup :=
    hrows.sublist (filter_sublist.map Row.identity)
  split
  · next hmarker =>
    rw [Rows.lookup_eq_some hmarked]
    exact ⟨mem_filter.mpr ⟨hr, hmarker⟩, hidentity⟩
  · next hplain =>
    rw [Rows.lookup_eq_none]
    intro hmem
    obtain ⟨r', hr', hsame⟩ := mem_map.mp hmem
    obtain ⟨hr', hmarker⟩ := mem_filter.mp hr'
    obtain rfl : r' = r := inj_on_of_nodup_map hrows hr' hr (hsame.trans hidentity.symm)
    exact hplain hmarker

/-- A deferral takes the assessment of a marked row and keeps its marker. -/
theorem reapplyOverlay_marked (hpending : c.isPending = true) (hdefers : c.defers = true)
    (hmarker : r.columns.evidence.linkedAssertionOverDeferral.isSome = true) :
    (reapplyOverlay rows c).assessment = some r.columns.assessment ∧
      (reapplyOverlay rows c).evidence.linkedAssertionOverDeferral.isSome = true := by
  unfold reapplyOverlay
  rw [lookup_markedRows hrows hr hidentity, if_pos hmarker]
  dsimp only
  rw [if_pos (by rw [hpending, hdefers]; rfl)]
  exact ⟨rfl, hmarker⟩

theorem reapplyOverlay_plain
    (hplain : ¬ r.columns.evidence.linkedAssertionOverDeferral.isSome = true) :
    reapplyOverlay rows c = c := by
  unfold reapplyOverlay
  rw [lookup_markedRows hrows hr hidentity, if_neg hplain]

end

theorem reapplyOverlay_new (hnew : c.identity ∉ rows.map Row.identity) :
    reapplyOverlay rows c = c := by
  have hnone : Rows.lookup Row.identity (markedRows rows) c.identity = none := by
    rw [Rows.lookup_eq_none]
    intro hmem
    exact hnew ((filter_sublist.map Row.identity).subset hmem)
  unfold reapplyOverlay
  rw [hnone]

theorem assessment_of_defers (h : c.defers = true) : c.assessment = some .contextOnly :=
  of_decide_eq_true (and_eq_true _ _ ▸ h).1

/-- A deferral without a row stays one. -/
theorem columns_new (hdefers : c.defers = true) (hnew : c.identity ∉ rows.map Row.identity) :
    (candidateColumns .original (reapplyOverlay rows c)).columns.assessment = .contextOnly := by
  rw [reapplyOverlay_new hnew]
  dsimp only [candidateColumns]
  rw [assessment_of_defers hdefers]
  rfl

/-- The overlay keeps the review status and the policy of the body. -/
theorem reapplyOverlay_keeps : (reapplyOverlay rows c).reviewStatus = c.reviewStatus ∧
    (reapplyOverlay rows c).evidence.policyDecision = c.evidence.policyDecision := by
  unfold reapplyOverlay
  split
  · exact ⟨rfl, rfl⟩
  · split <;> exact ⟨rfl, rfl⟩

theorem isPending_of_columns
    (h : (candidateColumns .original (reapplyOverlay rows c)).columns.reviewStatus = .pending) :
    c.isPending = true := by
  dsimp only [candidateColumns] at h
  rw [reapplyOverlay_keeps.1] at h
  exact decide_eq_true h

/-- The values of a refresh come from the last candidate of each identity. -/
theorem mem_nextByKey_refresh (hn : n ∈ Call.nextByKey ⟨.original, reapplyLinkedOverlay candidates rows⟩) :
    ∃ c ∈ byIdentity candidates, n = candidateColumns .original (reapplyOverlay rows c) := by
  have hkey : ∀ c, (candidateColumns .original (reapplyOverlay rows c)).identity = c.identity :=
    fun c => reapplyOverlay_identity
  have hmap := InsertionMap.ofList_map hkey candidates
  unfold Call.nextByKey reapplyLinkedOverlay at hn
  rw [map_map] at hn
  obtain ⟨c, hc, rfl⟩ := mem_map.mp (hmap ▸ hn)
  exact ⟨c, hc, rfl⟩

/-- A deferral of the document keeps its policy, and only an overlay gives it another assessment. -/
structure OverlayInv (s : OverlayState) : Prop where
  wellFormed : s.report.WellFormed
  linkIds : ∀ link ∈ s.report.links, link.1 < s.report.nextId
  policy : ∀ r ∈ s.report.rows, r.hasOriginalDocumentOccurrence = true → r.identity ∈ s.deferred →
    deferredContextPolicies.contains (r.columns.evidence.policyDecision.getD "") = true
  marker : ∀ r ∈ s.report.rows, s.Deferral r → r.columns.assessment ≠ .contextOnly →
    r.columns.evidence.linkedAssertionOverDeferral.isSome = true
  follows : s.OverlayFollowsLinks

namespace OverlayInv

/-- A deferral is overlaid exactly when a linked source asserts it. -/
theorem isOverlaid_iff (hinv : OverlayInv s) (hr : r ∈ s.report.rows) (hdeferral : s.Deferral r) :
    r.isOverlaid ↔ s.Asserted r := by
  rw [← hinv.follows r hr hdeferral]
  constructor
  · exact fun h => h.2
  · exact fun h => ⟨hinv.marker r hr hdeferral h, h⟩

end OverlayInv

namespace OverlayInv

/-- The values of a refresh for a deferral have the assessment of a pack exactly when the stored
row of the identity is overlaid. -/
theorem refresh_columns (hinv : OverlayInv s) (hdefers : c.defers = true)
    (hpending : c.isPending = true) (hr : r ∈ s.report.rows) (hidentity : r.identity = c.identity) :
    let columns := (candidateColumns .original (reapplyOverlay s.report.rows c)).columns
    (columns.assessment ≠ .contextOnly ↔ r.isOverlaid) ∧
      (columns.assessment ≠ .contextOnly →
        columns.evidence.linkedAssertionOverDeferral.isSome = true) := by
  by_cases hmarker : r.columns.evidence.linkedAssertionOverDeferral.isSome = true
  · obtain ⟨hassessment, hkept⟩ := reapplyOverlay_marked hinv.wellFormed.identities hr hidentity
      hpending hdefers hmarker
    dsimp only [candidateColumns]
    rw [hassessment]
    exact ⟨⟨fun h => ⟨hmarker, h⟩, fun h => h.2⟩, fun _ => hkept⟩
  · rw [reapplyOverlay_plain hinv.wellFormed.identities hr hidentity hmarker]
    dsimp only [candidateColumns]
    rw [assessment_of_defers hdefers]
    exact ⟨iff_of_false (fun h => h rfl) fun h => hmarker h.1, fun h => absurd rfl h⟩

theorem refresh (hinv : OverlayInv s) (hguard : KeepsOverlay s (.refresh candidates))
    (hstep : overlayStep s (.refresh candidates) = some s') : OverlayInv s' := by
  cases hstep
  have hnodup : ((Call.nextByKey ⟨.original, reapplyLinkedOverlay candidates s.report.rows⟩).map
      Next.identity).Nodup := Call.nodup_nextByKey
  have hwf := hinv.wellFormed.reconcile .original hnodup
  -- A row of the document after the refresh has the values of its candidate.
  have hrow : ∀ r' ∈ (reconcileReportCandidates s.report
        ⟨.original, reapplyLinkedOverlay candidates s.report.rows⟩).rows,
      r'.hasOriginalDocumentOccurrence = true → ∃ c ∈ byIdentity candidates,
        c.identity = r'.identity ∧
        r'.columns = (candidateColumns .original (reapplyOverlay s.report.rows c)).columns ∧
        ((∃ r ∈ s.report.rows, r.identity = c.identity ∧ r.id = r'.id) ∨
          c.identity ∉ s.report.rows.map Row.identity ∧ s.report.nextId ≤ r'.id) := by
    intro r' hr' hflag
    rcases Report.mem_reconcile_original.mp hr' with ⟨hlisted, hall⟩ | ⟨r, -, -, hsettle⟩
    · obtain ⟨n, hn, hidentity⟩ := mem_map.mp hlisted
      obtain ⟨c, hc, rfl⟩ := mem_nextByKey_refresh hn
      have hsame : c.identity = r'.identity := reapplyOverlay_identity.symm.trans hidentity
      refine ⟨c, hc, hsame, ?_⟩
      rcases Report.mem_writeAll.mp hall with ⟨r, hr, rfl⟩ | hnew
      · rw [Row.written_identity] at hidentity hsame
        refine ⟨?_, Or.inl ⟨r, hr, hsame.symm, Row.written_id.symm⟩⟩
        rw [Row.written_listed hnodup hn hidentity]
        exact Row.write_original_columns
      · obtain ⟨hid, hfresh, n', hn', hsame', hcolumns, -⟩ := Report.mem_inserted hnew
        have heq := inj_on_of_nodup_map hnodup hn hn' (hidentity.trans hsame'.symm)
        refine ⟨?_, Or.inr ⟨by rw [hsame]; exact hfresh, hid⟩⟩
        rw [heq, hcolumns]
    · rw [(Report.settleMissing_eq_some hsettle).1] at hflag
      cases hflag
  have hcandidate : ∀ c ∈ byIdentity candidates,
      c.identity ∈ ((byIdentity candidates).filter CandidateInput.defers).map
        CandidateInput.identity → c.defers = true := by
    intro c hc hmem
    obtain ⟨c', hc', hidentity⟩ := mem_map.mp hmem
    obtain ⟨hc', hdefers⟩ := mem_filter.mp hc'
    rwa [← inj_on_of_nodup_map (InsertionMap.nodup_ofList _ _) hc' hc hidentity]
  refine ⟨hwf, ?_, ?_, ?_, ?_⟩
  · intro link hlink
    have hold := hinv.linkIds link hlink
    change link.1 < s.report.nextId + _
    omega
  · intro r' hr' hflag hdeferred
    obtain ⟨c, hc, hidentity, hcolumns, -⟩ := hrow r' hr' hflag
    have hdefers := hcandidate c hc (hidentity ▸ hdeferred)
    rw [hcolumns]
    dsimp only [candidateColumns]
    rw [reapplyOverlay_keeps.2]
    exact (and_eq_true _ _ ▸ hdefers).2
  · intro r' hr' ⟨hflag, hpending, hdeferred⟩ hassessment
    obtain ⟨c, hc, hidentity, hcolumns, horigin⟩ := hrow r' hr' hflag
    have hdefers := hcandidate c hc (hidentity ▸ hdeferred)
    rw [hcolumns] at hpending hassessment ⊢
    rcases horigin with ⟨r, hr, hsame, -⟩ | ⟨hfresh, -⟩
    · exact (hinv.refresh_columns hdefers (isPending_of_columns hpending) hr hsame).2 hassessment
    · exact absurd (columns_new hdefers hfresh) hassessment
  · intro r' hr' ⟨hflag, hpending, hdeferred⟩
    obtain ⟨c, hc, hidentity, hcolumns, horigin⟩ := hrow r' hr' hflag
    have hdefers := hcandidate c hc (hidentity ▸ hdeferred)
    rw [hcolumns] at hpending ⊢
    have hcpending := isPending_of_columns hpending
    rcases horigin with ⟨r, hr, hsame, hid⟩ | ⟨hfresh, hid⟩
    · have hoverlaid : r.isOverlaid ↔ s.Asserted r := by
        by_cases hdeferral : s.Deferral r
        · exact hinv.isOverlaid_iff hr hdeferral
        · exact hguard c hc hcpending hdefers r
            ((Report.row?_eq_some hinv.wellFormed).mpr ⟨hr, hsame⟩) hdeferral
      rw [(hinv.refresh_columns hdefers hcpending hr hsame).1, hoverlaid]
      unfold OverlayState.Asserted
      rw [hid, hsame, hidentity]
      rfl
    · -- A new row has neither an overlay nor a link.
      refine iff_of_false (not_not_intro (columns_new hdefers hfresh)) ?_
      rintro ⟨link, hlink, hsame, -⟩
      have hold := hinv.linkIds link hlink
      omega

end OverlayInv

/-- A source call on a row of the document overlays it or refreshes its match. -/
theorem Row.write_source_document (sourceId : ℕ) (n : Next)
    (hflag : r.hasOriginalDocumentOccurrence = true) :
    let columns := (r.write (.source sourceId) n).columns
    columns.reviewStatus = r.columns.reviewStatus ∧
      columns.evidence.policyDecision = r.columns.evidence.policyDecision ∧
      if linkedAssertionOverridesDeferral r.columns n.columns = true then
        columns.assessment = n.columns.assessment ∧
          columns.evidence.linkedAssertionOverDeferral.isSome = true
      else columns.assessment = r.columns.assessment ∧
        columns.evidence.linkedAssertionOverDeferral =
          r.columns.evidence.linkedAssertionOverDeferral := by
  unfold Row.write
  dsimp only
  rw [hflag, Bool.true_and]
  by_cases hoverride : linkedAssertionOverridesDeferral r.columns n.columns = true
  · rw [if_pos hoverride, if_pos hoverride]
    exact ⟨rfl, rfl, rfl, rfl⟩
  · rw [if_neg hoverride, if_pos rfl, if_neg hoverride]
    unfold Columns.refreshMatch
    split <;> exact ⟨rfl, rfl, rfl, rfl⟩

/-- The links after a source call assert a row for another source, or for this one if it lists the
row with an assertion. -/
theorem asserted_source_iff {next : List Next} {asserted : ℕ → List Identity}
    (hwf : s.report.WellFormed) (hnext : (next.map Next.identity).Nodup)
    (hr : r' ∈ s.report.writeAll (.source sourceId) next)
    (hdeferred : asserted = Function.update s.asserted sourceId
      ((next.filter (·.columns.asserts)).map Next.identity)) :
    OverlayState.Asserted ⟨s.report.reconcile (.source sourceId) next, s.deferred, asserted⟩ r' ↔
      (∃ n ∈ next, n.identity = r'.identity ∧ n.columns.asserts = true) ∨
        ∃ link ∈ s.report.links, link.1 = r'.id ∧ link.2 ≠ sourceId ∧
          r'.identity ∈ s.asserted link.2 := by
  have hall := hwf.writeAll (.source sourceId) [] hnext
  subst hdeferred
  have hown : r'.identity ∈ Function.update s.asserted sourceId
        ((next.filter (·.columns.asserts)).map Next.identity) sourceId ↔
      ∃ n ∈ next, n.identity = r'.identity ∧ n.columns.asserts = true := by
    rw [Function.update_self]
    simp only [mem_map, mem_filter]
    constructor
    · rintro ⟨n, ⟨hn, hasserts⟩, hidentity⟩
      exact ⟨n, hn, hidentity, hasserts⟩
    · rintro ⟨n, hn, hidentity, hasserts⟩
      exact ⟨n, ⟨hn, hasserts⟩, hidentity⟩
  constructor
  · rintro ⟨⟨id, sourceId'⟩, hlink, rfl, hmem⟩
    dsimp only at hmem
    rcases (mem_replaceLinks hall.identities).mp hlink with ⟨hne, hold⟩ | ⟨rfl, -⟩
    · rw [Function.update_of_ne hne] at hmem
      exact Or.inr ⟨_, hold, rfl, hne, hmem⟩
    · exact Or.inl (hown.mp hmem)
  · rintro (⟨n, hn, hidentity, hasserts⟩ | ⟨link, hlink, hid, hne, hmem⟩)
    · refine ⟨(r'.id, sourceId), ?_, rfl, hown.mpr ⟨n, hn, hidentity, hasserts⟩⟩
      exact (mem_replaceLinks hall.identities).mpr
        (Or.inr ⟨rfl, r', hr, hidentity ▸ mem_map_of_mem hn, rfl⟩)
    · refine ⟨link, ?_, hid, ?_⟩
      · exact (mem_replaceLinks hall.identities).mpr (Or.inl ⟨hne, hlink⟩)
      · dsimp only
        rw [Function.update_of_ne hne]
        exact hmem

namespace OverlayInv

theorem source (hinv : OverlayInv s) (hguard : KeepsOverlay s (.source sourceId candidates))
    (hstep : overlayStep s (.source sourceId candidates) = some s') : OverlayInv s' := by
  cases hstep
  obtain ⟨hdrops, hflags⟩ := hguard
  generalize hnext : Call.nextByKey ⟨.source sourceId, candidates⟩ = next at hdrops hflags
  have hnodup : (next.map Next.identity).Nodup := by
    rw [← hnext]
    exact Call.nodup_nextByKey
  have hreport : reconcileReportCandidates s.report ⟨.source sourceId, candidates⟩ =
      s.report.reconcile (.source sourceId) next := by
    rw [← hnext]
    rfl
  rw [hreport]
  have hall := hinv.wellFormed.writeAll (.source sourceId) [] hnodup
  -- A deferral after the call was one before it, and has been overlaid or kept as it was.
  have hrow : ∀ r' ∈ (s.report.reconcile (.source sourceId) next).rows,
      r'.hasOriginalDocumentOccurrence = true → r'.identity ∈ s.deferred →
      ∃ r ∈ s.report.rows, r.identity = r'.identity ∧ r.id = r'.id ∧
        r.hasOriginalDocumentOccurrence = true ∧
        r'.columns.reviewStatus = r.columns.reviewStatus ∧
        r'.columns.evidence.policyDecision = r.columns.evidence.policyDecision ∧
        ((∃ n ∈ next, n.identity = r'.identity ∧
            linkedAssertionOverridesDeferral r.columns n.columns = true ∧
            r'.columns.assessment = n.columns.assessment ∧
            r'.columns.evidence.linkedAssertionOverDeferral.isSome = true) ∨
          (∀ n ∈ next, n.identity = r'.identity →
            linkedAssertionOverridesDeferral r.columns n.columns = false) ∧
          r'.columns.assessment = r.columns.assessment ∧
          r'.columns.evidence.linkedAssertionOverDeferral =
            r.columns.evidence.linkedAssertionOverDeferral) := by
    intro r' hr' hflag hdeferred
    rcases Report.mem_writeAll.mp (Report.mem_reconcile_source.mp hr').1 with ⟨r, hr, rfl⟩ | hnew
    · have hrflag : r.hasOriginalDocumentOccurrence = true := by
        unfold Row.written at hflag
        split at hflag
        · rwa [Row.write_source_original] at hflag
        · exact hflag
      refine ⟨r, hr, Row.written_identity.symm, Row.written_id.symm, hrflag, ?_⟩
      rw [Row.written_identity]
      by_cases hlisted : r.identity ∈ next.map Next.identity
      · obtain ⟨n, hn, hidentity⟩ := mem_map.mp hlisted
        rw [Row.written_listed hnodup hn hidentity]
        obtain ⟨hreview, hpolicy, hrest⟩ := Row.write_source_document sourceId n hrflag
        refine ⟨hreview, hpolicy, ?_⟩
        split at hrest
        · next hoverride => exact Or.inl ⟨n, hn, hidentity, hoverride, hrest⟩
        · next hoverride =>
          refine Or.inr ⟨fun n' hn' hsame => ?_, hrest⟩
          rw [inj_on_of_nodup_map hnodup hn' hn (hsame.trans hidentity.symm)]
          simpa using hoverride
      · rw [Row.written_unlisted hlisted]
        refine ⟨rfl, rfl, Or.inr ⟨fun n hn hsame => ?_, rfl, rfl⟩⟩
        exact absurd (hsame ▸ mem_map_of_mem hn) hlisted
    · obtain ⟨-, hfresh, n, hn, hidentity, -, hsame⟩ := Report.mem_inserted hnew
      refine absurd hdeferred ?_
      rw [← hidentity]
      exact hflags n hn (by rw [hidentity]; exact Report.row?_eq_none.mpr hfresh)
        (hsame.trans hflag)
  refine ⟨hinv.wellFormed.reconcile (.source sourceId) hnodup, ?_, ?_, ?_, ?_⟩
  · rintro ⟨id, sourceId'⟩ hlink
    change id < s.report.nextId + (s.report.inserted next).length
    rcases (mem_replaceLinks hall.identities).mp hlink with ⟨-, hold⟩ | ⟨-, r, hr, -, rfl⟩
    · have hid := hinv.linkIds _ hold
      omega
    · exact hall.fresh r hr
  · intro r' hr' hflag hdeferred
    obtain ⟨r, hr, hidentity, -, hrflag, -, hpolicy, -⟩ := hrow r' hr' hflag hdeferred
    rw [hpolicy]
    exact hinv.policy r hr hrflag (hidentity ▸ hdeferred)
  · intro r' hr' ⟨hflag, hpending, hdeferred⟩ hassessment
    obtain ⟨r, hr, hidentity, -, hrflag, hreview, -, hwritten⟩ := hrow r' hr' hflag hdeferred
    rcases hwritten with ⟨n, -, -, -, -, hmarker⟩ | ⟨-, hkept, hmarker⟩
    · exact hmarker
    · rw [hmarker]
      rw [hkept] at hassessment
      exact hinv.marker r hr ⟨hrflag, hreview.symm.trans hpending, hidentity ▸ hdeferred⟩
        hassessment
  · intro r' hr' ⟨hflag, hpending, hdeferred⟩
    obtain ⟨r, hr, hidentity, hid, hrflag, hreview, -, hwritten⟩ := hrow r' hr' hflag hdeferred
    have hdeferral : s.Deferral r := ⟨hrflag, hreview.symm.trans hpending, hidentity ▸ hdeferred⟩
    refine Iff.trans ?_ (asserted_source_iff hinv.wellFormed hnodup
      (Report.mem_reconcile_source.mp hr').1 rfl).symm
    rcases hwritten with ⟨n, hn, hsame, hoverride, hassessment, -⟩ | ⟨hno, hassessment, -⟩
    · have hasserts : n.columns.asserts = true := (and_eq_true _ _ ▸ hoverride).2
      refine iff_of_true ?_ (Or.inl ⟨n, hn, hsame, hasserts⟩)
      unfold Columns.asserts at hasserts
      simp only [ne_eq, decide_not, and_eq_true, not_eq_true', decide_eq_false_iff_not] at hasserts
      rw [hassessment]
      exact hasserts.1.1
    · rw [hassessment]
      constructor
      · intro hoverlaid
        have hkept := hdrops r hr hdeferral hoverlaid
        rwa [hidentity, hid] at hkept
      · rintro (⟨n, hn, hsame, hasserts⟩ | ⟨link, hlink, hlinkId, -, hmem⟩)
        · -- The row does not wait for an overlay, so that it is no longer Context Only.
          intro hcontext
          have hfalse := hno n hn hsame
          have hpolicy := hinv.policy r hr hrflag hdeferral.2.2
          unfold linkedAssertionOverridesDeferral Columns.isDeferral at hfalse
          rw [hasserts, hpolicy, hcontext, hdeferral.2.1] at hfalse
          revert hfalse
          decide
        · exact (hinv.follows r hr hdeferral).mpr
            ⟨link, hlink, hlinkId.trans hid.symm, hidentity ▸ hmem⟩

theorem initial : OverlayInv .initial := by
  refine ⟨⟨nodup_nil, nodup_nil, ?_⟩, ?_, ?_, ?_, ?_⟩ <;> intro r hr <;> cases hr

end OverlayInv

/-- In every run that keeps the overlay, it follows the links. -/
theorem overlay_follows_links {actions : List OverlayAction}
    (hrun : Run overlayStep KeepsOverlay .initial actions s) : s.OverlayFollowsLinks := by
  have hinv : OverlayInv s := by
    refine Run.invariant (fun s a s' hinv hguard hstep => ?_) hrun .initial
    cases a with
    | refresh candidates => exact hinv.refresh hguard hstep
    | source sourceId candidates => exact hinv.source hguard hstep
  exact hinv.follows

/-- A domain that the document defers to its pack. -/
def deferredInput (value : String) : CandidateInput :=
  { domainInput value "body" with
    assessment := some .contextOnly
    matchState := some .contextOnly
    evidence := { plainEvidence with
      policyDecision := some "context_only_narrative_with_authoritative_scope" } }

/-- Two packs assert a deferred domain, a refresh keeps the overlay, and one pack drops it. -/
def twoPacks : List OverlayAction :=
  [.refresh [deferredInput "a.test"], .source 1 [domainInput "a.test" "pack"],
    .source 2 [domainInput "a.test" "pack", domainInput "b.test" "pack"],
    .refresh [deferredInput "a.test", deferredInput "c.test"],
    .source 1 [domainInput "b.test" "pack"], .refresh [deferredInput "a.test"]]

theorem overlay_follows_links_twoPacks : ∃ s, Run overlayStep KeepsOverlay .initial twoPacks s ∧
      s.report.rows.map (fun r => (r.identity.normalizedValue, r.columns.assessment)) =
        [("a.test", .malicious), ("b.test", .malicious)] ∧
      s.OverlayFollowsLinks := by
  have hexec : (Run.exec overlayStep KeepsOverlay .initial twoPacks).map
      (fun s => s.report.rows.map fun r => (r.identity.normalizedValue, r.columns.assessment)) =
        some [("a.test", .malicious), ("b.test", .malicious)] := by
    decide
  obtain ⟨s, hs, hrows⟩ := Option.map_eq_some_iff.mp hexec
  have hrun := Run.of_exec hs
  exact ⟨s, hrun, hrows, overlay_follows_links hrun⟩

/-- The only pack drops the domain, and the report is refreshed. -/
def packDrops : List OverlayAction :=
  [.refresh [deferredInput "a.test"], .source 1 [domainInput "a.test" "pack"],
    .source 1 [domainInput "b.test" "pack"], .refresh [deferredInput "a.test"]]

/-- The row stays malicious without a link. -/
theorem dropped_overlay_stays : ¬ ∀ (actions : List OverlayAction) (s : OverlayState),
      Run overlayStep (fun _ _ => True) .initial actions s → s.OverlayFollowsLinks := by
  intro hclaim
  have hexec : (Run.exec overlayStep (fun _ _ => True) .initial packDrops).map
      (fun s => s.report.rows.map fun r =>
        (decide (s.Deferral r), r.columns.assessment, decide (s.Asserted r))) =
      some [(true, .malicious, false), (false, .malicious, true)] := by
    decide
  obtain ⟨s, hs, hrows⟩ := Option.map_eq_some_iff.mp hexec
  obtain ⟨r, hr, hvalues⟩ :=
    mem_map.mp (hrows ▸ mem_cons_self : (true, Assessment.malicious, false) ∈ _)
  obtain ⟨hdeferral, hvalues⟩ := Prod.mk.inj hvalues
  obtain ⟨hassessment, hasserted⟩ := Prod.mk.inj hvalues
  have hfollows := hclaim _ s (Run.of_exec hs) r hr (of_decide_eq_true hdeferral)
  refine of_decide_eq_false hasserted (hfollows.mp ?_)
  rw [hassessment]
  decide

end TalonHound.Candidates
