import TalonHound.Candidates.AnalystState
import TalonHound.Candidates.CreateIocs

/-!
# What a run of Create IOCs relies on

A confirmed run classifies its own copy of the candidates. The copy is sound while what the run is
yet to create is eligible in the table, or has a record.
-/

namespace TalonHound.Candidates

open Bool List

variable {stored : StorageIdentity → StorageIdentity} {s s' : ReviewState} {x y : CreateRun}
  {report report' : Report} {c : LoadedRow} {r : Row} {k : StorageIdentity} {i id reportId : ℕ}
  {f : Row → Row}

namespace LoadedRow

/-- What a candidate that will be created meets. -/
theorem willCreate_iff : c.classifyCreateEligibility = .willCreate ↔
    c.isContextOrIgnored = false ∧ c.row.values.isUnionReportIndicatorMember c.linked = true ∧
      creatableIocTypes.contains c.row.values.typeOf = true ∧
      c.row.values.isAnalystConfirmed = true ∧ c.alreadyHasIocRecord = false ∧
      (iocStorageIdentity c.row.identity).isSome = true := by
  unfold classifyCreateEligibility
  cases c.isContextOrIgnored <;> cases c.row.values.isUnionReportIndicatorMember c.linked <;>
    cases creatableIocTypes.contains c.row.values.typeOf <;>
    cases c.row.values.isAnalystConfirmed <;> cases c.alreadyHasIocRecord <;>
    cases iocStorageIdentity c.row.identity <;> simp

/-- A candidate that will be created is approved and has no record. -/
theorem approved_of_willCreate (h : c.classifyCreateEligibility = .willCreate) :
    c.row.columns.reviewStatus = .approved ∧ c.row.columns.matchedIocId = none := by
  obtain ⟨-, -, -, hconfirmed, hrecord, -⟩ := willCreate_iff.mp h
  unfold alreadyHasIocRecord at hrecord
  simp only [or_eq_false_iff, decide_eq_false_iff_not, Option.isSome_eq_false_iff,
    Option.isNone_iff_eq_none] at hrecord
  refine ⟨?_, hrecord.1.1⟩
  unfold Next.isAnalystConfirmed analystConfirmedReviews Row.values at hconfirmed
  simp only [contains_cons, contains_nil, Bool.or_false, Bool.or_eq_true, beq_iff_eq] at hconfirmed
  exact hconfirmed.resolve_right hrecord.1.2

/-- The class depends on the identity, the columns, the occurrence and the link. -/
theorem classify_congr {c' : LoadedRow} (hvalues : c'.row.values = c.row.values)
    (hlinked : c'.linked = c.linked) :
    c'.classifyCreateEligibility = c.classifyCreateEligibility := by
  have hcolumns : c'.row.columns = c.row.columns := congrArg Next.columns hvalues
  have hidentity : c'.row.identity = c.row.identity := congrArg Next.identity hvalues
  unfold classifyCreateEligibility isContextOrIgnored alreadyHasIocRecord
  rw [hvalues, hlinked, hcolumns, hidentity]

/-- A promotion keeps a candidate eligible. -/
theorem willCreate_promote (h : c.classifyCreateEligibility = .willCreate) (origin : String) :
    (LoadedRow.mk (c.row.promote origin) c.linked).classifyCreateEligibility = .willCreate := by
  obtain ⟨happroved, hmatched⟩ := approved_of_willCreate h
  obtain ⟨hcontext, hunion, htype, hconfirmed, hrecord, hidentity⟩ := willCreate_iff.mp h
  have hassessment : (c.row.promote origin).columns.assessment ≠ .contextOnly ∧
      (c.row.promote origin).columns.assessment ≠ .invalid := by
    unfold Row.promote
    dsimp only
    split
    · next hsame => rcases hsame with hsame | hsame <;> rw [hsame] <;> decide
    · decide
  have hstate : (c.row.promote origin).columns.matchState = .new := by
    unfold Row.promote
    rw [hmatched]
    rfl
  refine willCreate_iff.mpr ⟨?_, ?_, htype, rfl, ?_, hidentity⟩
  · unfold isContextOrIgnored
    have hioc : (c.row.promote origin).columns.isIoc = true := rfl
    have hreview : (c.row.promote origin).columns.reviewStatus = .approved := rfl
    rw [hioc, hreview, hstate, decide_eq_false hassessment.1, decide_eq_false hassessment.2]
    rfl
  · obtain ⟨hgates, hmember⟩ := Next.isUnionReportIndicatorMember_iff.mp hunion
    refine Next.isUnionReportIndicatorMember_iff.mpr ⟨?_, ?_⟩
    · unfold Next.passesIndicatorTypeGates at hgates ⊢
      simp only [and_eq_true, not_eq_true', or_eq_false_iff, decide_eq_false_iff_not] at hgates ⊢
      obtain ⟨⟨⟨⟨⟨⟨-, hkind⟩, hparser⟩, hdirect⟩, hlocal⟩, -⟩, -⟩ := hgates
      refine ⟨⟨⟨⟨⟨⟨rfl, hkind⟩, hparser⟩, hdirect⟩, hlocal⟩, ⟨?_, ?_⟩, hassessment.1⟩, ?_,
        hassessment.2⟩
      · exact fun hfalse => ReportLifecycle.MatchState.noConfusion (hstate.symm.trans hfalse)
      · exact fun hfalse => ReportLifecycle.ReviewStatus.noConfusion hfalse
      · exact fun hfalse => ReportLifecycle.MatchState.noConfusion (hstate.symm.trans hfalse)
    · rcases hmember with ⟨hflag, -⟩ | hasserted
      · exact Or.inl ⟨hflag, Next.isPublisher_of_promoted rfl⟩
      · exact Or.inr hasserted
  · unfold alreadyHasIocRecord
    rw [hstate]
    unfold Row.promote
    rw [hmatched]
    rfl

end LoadedRow

namespace Report

/-- A row is eligible when it is there and loaded as one to create. -/
theorem isEligible_iff : report.isEligible id = true ↔ ∃ row ∈ report.rows, row.id = id ∧
      (report.load row).classifyCreateEligibility = .willCreate := by
  unfold isEligible
  simp [any_eq_true]

/-- An update that keeps ids and the eligibility of the rows of an id. -/
theorem isEligible_update (hid : ∀ r, (f r).id = r.id)
    (hf : ∀ r ∈ report.rows, r.id = id → (report.load r).classifyCreateEligibility = .willCreate →
      (LoadedRow.mk (f r) (report.load r).linked).classifyCreateEligibility = .willCreate)
    (h : report.isEligible id = true) : (report.update f).isEligible id = true := by
  obtain ⟨row, hrow, hrowid, hwill⟩ := isEligible_iff.mp h
  refine isEligible_iff.mpr ⟨f row, mem_map_of_mem hrow, (hid row).trans hrowid, ?_⟩
  rw [← hf row hrow hrowid hwill]
  refine LoadedRow.classify_congr rfl ?_
  exact isLinked_of_id (hid row)

/-- An update that keeps ids and identities keeps the report well formed. -/
theorem WellFormed.update (h : report.WellFormed) (hid : ∀ r, (f r).id = r.id)
    (hidentity : ∀ r, (f r).identity = r.identity) : (report.update f).WellFormed where
  identities := Rows.nodup_map_update hidentity h.identities
  ids := Rows.nodup_map_update hid h.ids
  fresh := by
    intro r hr
    obtain ⟨r₀, hr₀, rfl⟩ := mem_map.mp hr
    rw [hid]
    exact h.fresh r₀ hr₀

/-- Old ids have the identities that they had. -/
structure KeepsIdentities (report report' : Report) : Prop where
  wellFormed : report'.WellFormed
  nextId : report.nextId ≤ report'.nextId
  rows : ∀ r' ∈ report'.rows, r'.id < report.nextId →
    ∃ r ∈ report.rows, r.id = r'.id ∧ r.identity = r'.identity

/-- Such an update keeps every identity. -/
theorem WellFormed.keeps_update (h : report.WellFormed) (hid : ∀ r, (f r).id = r.id)
    (hidentity : ∀ r, (f r).identity = r.identity) :
    report.KeepsIdentities (report.update f) where
  wellFormed := h.update hid hidentity
  nextId := le_refl report.nextId
  rows := by
    intro r' hr' _
    obtain ⟨r, hr, rfl⟩ := mem_map.mp hr'
    exact ⟨r, hr, (hid r).symm, (hidentity r).symm⟩

/-- So does a reconciliation. -/
theorem WellFormed.keeps_reconcile (h : report.WellFormed) (call : Call) :
    report.KeepsIdentities (reconcileReportCandidates report call) where
  wellFormed := h.reconcile call.scope Call.nodup_nextByKey
  nextId := by
    unfold reconcileReportCandidates Report.reconcile
    cases call.scope <;> exact Nat.le_add_right _ _
  rows := by
    intro r' hr' hold
    have hsub := reconcile_sublist report call.scope call.nextByKey
      (fun r => (r.id, r.identity)) fun links r r' h => by
        obtain ⟨hidentity, hid⟩ := settleMissing_identity h
        rw [hid, hidentity]
    obtain ⟨r₁, hr₁, hkey⟩ := mem_map.mp (hsub.subset (mem_map_of_mem hr'))
    obtain ⟨hid, hidentity⟩ := Prod.mk.inj hkey
    rcases mem_writeAll.mp hr₁ with ⟨r, hr, rfl⟩ | hnew
    · exact ⟨r, hr, Row.written_id.symm.trans hid, Row.written_identity.symm.trans hidentity⟩
    · have hge := (mem_inserted hnew).1
      omega

/-- The report has no other row of the id than the one that was loaded. -/
def Knows (report : Report) (c : LoadedRow) : Prop :=
  c.row.id < report.nextId ∧ ∀ r ∈ report.rows, r.id = c.row.id → r.identity = c.row.identity

/-- What the queue knows stays known. -/
theorem Knows.of_keeps (h : report.Knows c) (hkeeps : report.KeepsIdentities report') :
    report'.Knows c := by
  refine ⟨lt_of_lt_of_le h.1 hkeeps.nextId, fun r' hr' hid => ?_⟩
  obtain ⟨r, hr, hsame, hidentity⟩ := hkeeps.rows r' hr' (hid ▸ h.1)
  exact hidentity.symm.trans (h.2 r hr (hsame.trans hid))

/-- The queue holds rows of the report as they were loaded. -/
theorem mem_loadQueue {ids : List ℕ} (hc : c ∈ report.loadQueue ids) :
    c.row ∈ report.rows ∧ c = report.load c.row := by
  obtain ⟨id, -, hc⟩ := mem_filterMap.mp hc
  obtain ⟨row, hrow, rfl⟩ := Option.map_eq_some_iff.mp hc
  exact ⟨(Rows.mem_of_lookup hrow).1, rfl⟩

end Report

namespace ReviewState

/-- A search finds a record for the identity, or the source has what would be stored. -/
def HasIoc (stored : StorageIdentity → StorageIdentity) (s : ReviewState) (k : StorageIdentity) :
    Prop :=
  (s.findExisting k).isSome = true ∨ s.libraryHas (stored k) = true

/-- The candidate is eligible in the table, or needs no record any more. -/
def Kept (stored : StorageIdentity → StorageIdentity) (s : ReviewState) (reportId : ℕ)
    (c : LoadedRow) : Prop :=
  (s.reports reportId).isEligible c.row.id = true ∨
    ∃ k, iocStorageIdentity c.row.identity = some k ∧ s.HasIoc stored k

/-- The candidate is eligible in the table, or its creation will be refused. -/
def KeptBySource (stored : StorageIdentity → StorageIdentity) (s : ReviewState) (reportId : ℕ)
    (c : LoadedRow) : Prop :=
  (s.reports reportId).isEligible c.row.id = true ∨
    ∃ k, iocStorageIdentity c.row.identity = some k ∧ s.libraryHas (stored k) = true

/-- No record is removed. -/
def Grows (s s' : ReviewState) : Prop := ∃ added, s'.items = s.items ++ added

/-- A library without new entries. -/
theorem Grows.refl (s : ReviewState) : s.Grows s := ⟨[], (append_nil _).symm⟩

/-- A growing library loses nothing. -/
theorem libraryHas_of_grows (h : s.Grows s') (hhas : s.libraryHas k = true) :
    s'.libraryHas k = true := by
  obtain ⟨added, hitems⟩ := h
  unfold libraryHas at hhas ⊢
  rw [hitems, any_append, hhas, Bool.true_or]

/-- A growing library keeps its IOCs. -/
theorem HasIoc.of_grows (h : s.HasIoc stored k) (hgrows : s.Grows s') : s'.HasIoc stored k := by
  rcases h with hfound | hlibrary
  · refine Or.inl ?_
    obtain ⟨added, hitems⟩ := hgrows
    unfold findExisting at hfound ⊢
    split at hfound
    · cases hfound
    · next hnamed =>
      rw [if_neg hnamed, hitems, find?_append, Option.isSome_or, hfound, Bool.true_or]
  · exact Or.inr (libraryHas_of_grows hgrows hlibrary)

end ReviewState

/-- The copies of a run name the rows that they were loaded from. What it is yet to create is
eligible or needs no record; the candidate that it is creating is eligible or will be refused; a
link that it is about to record is to a record. -/
structure CreateRun.Sound (stored : StorageIdentity → StorageIdentity) (s : ReviewState)
    (x : CreateRun) : Prop where
  known : ∀ c ∈ x.queue, (s.reports x.reportId).Knows c
  kept : ∀ c ∈ x.awaited, s.Kept stored x.reportId c
  creating : x.stage = .creating → ∀ c ∈ x.queue.head?,
    c.classifyCreateEligibility = .willCreate ∧ s.KeptBySource stored x.reportId c
  settling : ∀ outcome link, x.stage = .settling outcome (some link) → ∀ c ∈ x.queue.head?,
    ∃ k, iocStorageIdentity c.row.identity = some k ∧ s.HasIoc stored k

namespace CreateRun

/-- What a run waits for is in its queue. -/
theorem mem_queue_of_awaited (hc : c ∈ x.awaited) : c ∈ x.queue := by
  have hmem := (mem_filter.mp hc).1
  unfold remaining at hmem
  split at hmem
  · exact mem_of_mem_tail hmem
  · exact mem_of_mem_tail hmem
  · exact hmem

namespace Sound

/-- A run without candidates relies on nothing. -/
theorem of_nil (h : x.queue = []) : x.Sound stored s where
  known := by
    rw [h]
    intro c hc
    cases hc
  kept := by
    intro c hc
    have hmem := mem_queue_of_awaited hc
    rw [h] at hmem
    cases hmem
  creating := by
    rw [h]
    intro _ c hc
    cases hc
  settling := by
    rw [h]
    intro _ _ _ c hc
    cases hc

/-- Only the reports and the records matter. -/
theorem of_grows (h : x.Sound stored s) (hreports : s'.reports = s.reports)
    (hgrows : s.Grows s') : x.Sound stored s' where
  known := by
    rw [hreports]
    exact h.known
  kept := by
    intro c hc
    unfold ReviewState.Kept
    rw [hreports]
    exact (h.kept c hc).imp_right fun ⟨k, hk, hioc⟩ => ⟨k, hk, hioc.of_grows hgrows⟩
  creating := by
    intro hstage c hc
    obtain ⟨hwill, hkept⟩ := h.creating hstage c hc
    unfold ReviewState.KeptBySource
    rw [hreports]
    exact ⟨hwill, hkept.imp_right fun ⟨k, hk, hlibrary⟩ =>
      ⟨k, hk, ReviewState.libraryHas_of_grows hgrows hlibrary⟩⟩
  settling := by
    intro outcome link hstage c hc
    obtain ⟨k, hk, hioc⟩ := h.settling outcome link hstage c hc
    exact ⟨k, hk, hioc.of_grows hgrows⟩

/-- A run that goes on with fewer candidates. -/
theorem of_subset (h : x.Sound stored s) (hid : y.reportId = x.reportId)
    (hqueue : ∀ c ∈ y.queue, c ∈ x.queue) (hawaited : ∀ c ∈ y.awaited, c ∈ x.awaited)
    (hcreating : y.stage ≠ .creating)
    (hsettling : ∀ outcome link, y.stage ≠ .settling outcome (some link)) :
    y.Sound stored s where
  known := by
    rw [hid]
    exact fun c hc => h.known c (hqueue c hc)
  kept := by
    rw [hid]
    exact fun c hc => h.kept c (hawaited c hc)
  creating := fun hstage => absurd hstage hcreating
  settling := fun outcome link hstage => absurd hstage (hsettling outcome link)

/-- Loaded candidates are in the table, and those that will be created are eligible. -/
theorem loadedRun {ids : List ℕ} (hwf : (s.reports reportId).WellFormed)
    (hreport : s.reports reportId = report) :
    (ReviewState.loadedRun reportId (report.loadQueue ids)).Sound stored s := by
  subst hreport
  unfold ReviewState.loadedRun
  split
  · refine ⟨fun c hc => ?_, fun c hc => ?_, fun hstage => Stage.noConfusion hstage,
      fun _ _ hstage => Stage.noConfusion hstage⟩
    · obtain ⟨hrow, -⟩ := Report.mem_loadQueue hc
      refine ⟨hwf.fresh _ hrow, fun r hr hid => ?_⟩
      rw [inj_on_of_nodup_map hwf.ids hr hrow hid]
    · obtain ⟨hmem, hwill⟩ := mem_filter.mp hc
      obtain ⟨hrow, hload⟩ := Report.mem_loadQueue hmem
      rw [hload] at hwill
      exact Or.inl (Report.isEligible_iff.mpr ⟨c.row, hrow, rfl, of_decide_eq_true hwill⟩)
  · exact of_nil rfl

/-- A change of one report that keeps what the run relies on. -/
theorem setReport (h : x.Sound stored s)
    (hkeeps : (s.reports reportId).KeepsIdentities report)
    (hkept : x.reportId = reportId → ∀ c ∈ x.awaited,
      (s.reports reportId).isEligible c.row.id = true → (report.isEligible c.row.id = true ∨
        ∃ k, iocStorageIdentity c.row.identity = some k ∧ s.HasIoc stored k))
    (hcreating : x.reportId = reportId → x.stage = .creating → ∀ c ∈ x.awaited,
      (s.reports reportId).isEligible c.row.id = true → report.isEligible c.row.id = true) :
    x.Sound stored (s.setReport reportId report) := by
  by_cases hid : x.reportId = reportId
  · subst hid
    have hnew : (s.setReport x.reportId report).reports x.reportId = report :=
      Function.update_self _ _ _
    refine ⟨fun c hc => ?_, fun c hc => ?_, fun hstage c hc => ?_, h.settling⟩
    · rw [hnew]
      exact (h.known c hc).of_keeps hkeeps
    · unfold ReviewState.Kept
      rw [hnew]
      rcases h.kept c hc with heligible | hioc
      · exact hkept rfl c hc heligible
      · exact Or.inr hioc
    · obtain ⟨hwill, hsource⟩ := h.creating hstage c hc
      refine ⟨hwill, ?_⟩
      unfold ReviewState.KeptBySource
      rw [hnew]
      have hawaited : c ∈ x.awaited := by
        unfold awaited remaining
        rw [hstage]
        exact mem_filter.mpr ⟨mem_of_mem_head? hc, decide_eq_true hwill⟩
      exact hsource.imp_left (hcreating rfl hstage c hawaited)
  · have hold : (s.setReport reportId report).reports x.reportId = s.reports x.reportId :=
      Function.update_of_ne hid _ _
    refine ⟨?_, fun c hc => ?_, fun hstage c hc => ?_, h.settling⟩
    · rw [hold]
      exact h.known
    · have hc := h.kept c hc
      unfold ReviewState.Kept at hc ⊢
      rw [hold]
      exact hc
    · have hc := h.creating hstage c hc
      unfold ReviewState.KeptBySource at hc ⊢
      rw [hold]
      exact hc

end Sound

end CreateRun

/-!
## Locks and records

A run in the loop of Create IOCs has the lock of its report to itself, and the source gets one record
for an identity.
-/

variable {stored : StorageIdentity → StorageIdentity} {s s' : ReviewState} {x y : CreateRun}
  {c : LoadedRow} {k : StorageIdentity} {i j : ℕ}

namespace ReviewState

/-- The runs after one has moved on. -/
theorem getElem?_setRun (h : (s.setRun i x).runs[j]? = some y) :
    j = i ∧ y = x ∨ j ≠ i ∧ s.runs[j]? = some y := by
  unfold setRun at h
  rw [List.getElem?_set] at h
  split at h
  · next hij =>
    split at h
    · exact Or.inl ⟨hij.symm, (Option.some.inj h).symm⟩
    · cases h
  · next hij => exact Or.inr ⟨fun hji => hij hji.symm, h⟩

/-- A run that is in the loop has the lock of its report, and no other run is. -/
structure Exclusive (s : ReviewState) : Prop where
  locked : ∀ x ∈ s.runs, x.stage.holds = true → x.reportId ∈ s.locks
  alone : ∀ (i j : ℕ) (x y : CreateRun), s.runs[i]? = some x → s.runs[j]? = some y →
    x.stage.holds = true → y.stage.holds = true → x.reportId = y.reportId → i = j

namespace Exclusive

/-- Steps that leave runs and locks alone keep the exclusion. -/
theorem of_same (h : s.Exclusive) (hruns : s'.runs = s.runs) (hlocks : s'.locks = s.locks) :
    s'.Exclusive where
  locked := by
    rw [hruns, hlocks]
    exact h.locked
  alone := by
    rw [hruns]
    exact h.alone

/-- A run takes a step within the loop, or gives its lock back. -/
theorem setRun {locks : List ℕ} (h : s.Exclusive) (hx : s.runs[i]? = some x)
    (hid : y.reportId = x.reportId)
    (hholds : y.stage.holds = true → x.stage.holds = true ∧ x.reportId ∈ locks)
    (hlocks : ∀ reportId ∈ s.locks,
      (x.stage.holds = true → reportId ≠ x.reportId) → reportId ∈ locks) :
    ({ s with locks := locks }.setRun i y).Exclusive where
  locked := by
    intro z hz hzholds
    obtain ⟨j, hj⟩ := List.mem_iff_getElem?.mp hz
    rcases getElem?_setRun hj with ⟨-, rfl⟩ | ⟨hji, hold⟩
    · rw [hid]
      exact (hholds hzholds).2
    · refine hlocks _ (h.locked z (List.mem_of_getElem? hold) hzholds) fun hxholds hsame => ?_
      exact hji (h.alone j i z x hold hx hzholds hxholds hsame)
  alone := by
    intro j₁ j₂ z₁ z₂ h₁ h₂ hholds₁ hholds₂ hsame
    rcases getElem?_setRun h₁ with ⟨rfl, rfl⟩ | ⟨-, hold₁⟩
    · rcases getElem?_setRun h₂ with ⟨rfl, -⟩ | ⟨-, hold₂⟩
      · rfl
      · exact h.alone _ _ x z₂ hx hold₂ (hholds hholds₁).1 hholds₂ (hid.symm.trans hsame)
    · rcases getElem?_setRun h₂ with ⟨rfl, rfl⟩ | ⟨-, hold₂⟩
      · exact h.alone _ _ z₁ x hold₁ hx hholds₁ (hholds hholds₂).1 (hsame.trans hid)
      · exact h.alone _ _ z₁ z₂ hold₁ hold₂ hholds₁ hholds₂ hsame

/-- A run takes a free lock. -/
theorem acquire (h : s.Exclusive) (hfree : x.reportId ∉ s.locks)
    (hid : y.reportId = x.reportId) :
    ({ s with locks := x.reportId :: s.locks }.setRun i y).Exclusive where
  locked := by
    intro z hz hzholds
    rcases List.mem_or_eq_of_mem_set hz with hold | rfl
    · exact List.mem_cons_of_mem _ (h.locked z hold hzholds)
    · rw [hid]
      exact List.mem_cons_self
  alone := by
    have hother : ∀ (j : ℕ) (z : CreateRun), s.runs[j]? = some z → z.stage.holds = true →
        z.reportId ≠ x.reportId := by
      intro j z hj hholds hsame
      exact hfree (hsame ▸ h.locked z (List.mem_of_getElem? hj) hholds)
    intro j₁ j₂ z₁ z₂ h₁ h₂ hholds₁ hholds₂ hsame
    rcases getElem?_setRun h₁ with ⟨rfl, rfl⟩ | ⟨-, hold₁⟩
    · rcases getElem?_setRun h₂ with ⟨rfl, -⟩ | ⟨-, hold₂⟩
      · rfl
      · exact absurd (hsame.symm.trans hid) (hother _ z₂ hold₂ hholds₂)
    · rcases getElem?_setRun h₂ with ⟨rfl, rfl⟩ | ⟨-, hold₂⟩
      · exact absurd (hsame.trans hid) (hother _ z₁ hold₁ hholds₁)
      · exact h.alone _ _ z₁ z₂ hold₁ hold₂ hholds₁ hholds₂ hsame

/-- A run that starts without a lock keeps the exclusion. -/
theorem start (h : s.Exclusive) (hholds : y.stage.holds = false) : (s.start y).Exclusive := by
  have hold : ∀ (j : ℕ) (z : CreateRun), (s.start y).runs[j]? = some z → z.stage.holds = true →
      s.runs[j]? = some z := by
    intro j z hj hz
    unfold ReviewState.start at hj
    rw [List.getElem?_append] at hj
    split at hj
    · exact hj
    · obtain rfl := List.mem_singleton.mp (List.mem_of_getElem? hj)
      rw [hholds] at hz
      cases hz
  refine ⟨fun z hz hzholds => ?_, fun j₁ j₂ z₁ z₂ h₁ h₂ hholds₁ hholds₂ hsame => ?_⟩
  · obtain ⟨j, hj⟩ := List.mem_iff_getElem?.mp hz
    exact h.locked z (List.mem_of_getElem? (hold j z hj hzholds)) hzholds
  · exact h.alone _ _ z₁ z₂ (hold _ _ h₁ hholds₁) (hold _ _ h₂ hholds₂) hholds₁ hholds₂ hsame

end Exclusive

/-- The records of the source have different identities, and so have the candidates that runs have
created. -/
structure Once (stored : StorageIdentity → StorageIdentity) (s : ReviewState) : Prop where
  records : ((s.items.filter IocItem.isLibrary).map IocItem.identity).Nodup
  created : ∀ x ∈ s.creations, s.libraryHas (stored x.identity) = true
  creations : (s.creations.map Creation.identity).Nodup

namespace Once

/-- Steps that create nothing keep what was created once. -/
theorem of_same (h : s.Once stored) (hitems : s'.items = s.items)
    (hcreations : s'.creations = s.creations) : s'.Once stored where
  records := by
    rw [hitems]
    exact h.records
  created := by
    unfold libraryHas
    rw [hitems, hcreations]
    exact h.created
  creations := by
    rw [hcreations]
    exact h.creations

/-- A record that the source does not have. -/
theorem insertIoc (h : s.Once stored) (hnew : s.libraryHas (stored k) = false) :
    (s.insertIoc x c k (stored k)).Once stored where
  records := by
    unfold ReviewState.insertIoc
    rw [List.filter_append, List.map_append]
    refine List.nodup_append.mpr ⟨h.records, List.nodup_singleton _, ?_⟩
    rintro a ha b hb rfl
    obtain ⟨item, hitem, rfl⟩ := List.mem_map.mp ha
    obtain ⟨hmem, hlibrary⟩ := List.mem_filter.mp hitem
    have hsame : item.identity = stored k := List.mem_singleton.mp hb
    have hhas : s.libraryHas (stored k) = true := by
      unfold libraryHas
      rw [List.any_eq_true]
      exact ⟨item, hmem, by rw [hlibrary, decide_eq_true hsame, Bool.and_self]⟩
    rw [hnew] at hhas
    cases hhas
  created := by
    have hgrows : s.Grows (s.insertIoc x c k (stored k)) := ⟨_, rfl⟩
    intro z hz
    rcases List.mem_append.mp hz with hold | hone
    · exact libraryHas_of_grows hgrows (h.created z hold)
    · obtain rfl := List.mem_singleton.mp hone
      unfold libraryHas ReviewState.insertIoc
      rw [List.any_append, List.any_cons, decide_eq_true rfl, Bool.and_self, Bool.true_or,
        Bool.or_true]
  creations := by
    unfold ReviewState.insertIoc
    rw [List.map_append]
    refine List.nodup_append.mpr ⟨h.creations, List.nodup_singleton _, ?_⟩
    rintro a ha b hb rfl
    obtain ⟨z, hz, rfl⟩ := List.mem_map.mp ha
    have hsame : z.identity = k := List.mem_singleton.mp hb
    have hhas := h.created z hz
    rw [hsame, hnew] at hhas
    cases hhas

end Once

end ReviewState

end TalonHound.Candidates
