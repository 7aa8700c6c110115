import TalonHound.ReportLifecycle.Finalized

/-!
# Runs of the lifecycle of a report

Every step keeps the invariant, under the condition that Create IOCs links only rows that stay
reviewed. A run without that condition leaves an obligation on a finalized report.
-/

namespace TalonHound.ReportLifecycle

variable {ids : RowIds} {s s' : ReportState} {t : Tid}

namespace LifecycleInv

section

variable (hinv : LifecycleInv ids s)

include hinv

theorem setCreating {creating : List ℕ} : LifecycleInv ids { s with creating := creating } := by
  have hsame : ∀ u, Unnoticed u s { s with creating := creating } := fun u =>
    ⟨rfl, fun h => h, fun h => h, rfl, fun _ => Iff.rfl, fun _ _ => Iff.rfl, fun _ => Iff.rfl, rfl⟩
  exact ⟨hinv.complete, hinv.alone, fun u => (hinv.txns u).unnoticed (hsame u)⟩

/-- A report in work has no promise to keep. -/
theorem setStatus {status : AnalysisStatus} (hfree : s.exclusive = none)
    (hopen : status.isFinalized = false) : LifecycleInv ids { s with status := status } := by
  have hvacuous : ∀ {p : Prop}, status.isFinalized = true → p := by
    intro p hfinal
    rw [hopen] at hfinal
    cases hfinal
  refine ⟨hvacuous, hinv.alone, ?_⟩
  intro u
  have hold := hinv.txns u
  cases hx : s.txns u with
  | closed =>
    rw [hx] at hold
    exact ⟨hold.candidates, hold.links, hold.sources⟩
  | reconcile reportFinalized before checked =>
    rw [hx] at hold
    exact ⟨hold.shared, fun _ => hopen, fun _ _ => hvacuous, fun _ => hvacuous, hold.links,
      hold.sources, hold.untouched⟩
  | source reportFinalized =>
    rw [hx] at hold
    exact ⟨hold.shared, fun _ => hopen, hold.candidates, hold.links, hvacuous⟩
  | exclusive x =>
    rw [hx] at hold
    have hholder := hold.holder
    rw [hfree] at hholder
    cases hholder

section

variable (hclosed : s.txns t = .closed) (hfree : s.exclusive = none)
include hclosed hfree

/-- A mutation begins with what it reads of the report. -/
theorem beginReconcile :
    LifecycleInv ids { s.setTxn t (.reconcile s.status.isFinalized none false) with
      sharers := t :: s.sharers } := by
  have hown := hinv.txns t
  rw [hclosed] at hown
  refine hinv.share hfree ⟨List.mem_cons_self, fun h => h, by simp, by simp, ?_, hown.sources, ?_⟩
  · exact fun id source h => absurd h (hown.links id source)
  · exact fun _ _ => ⟨hown.candidates, hown.links⟩

theorem beginSource :
    LifecycleInv ids { s.setTxn t (.source s.status.isFinalized) with
      sharers := t :: s.sharers } := by
  have hown := hinv.txns t
  rw [hclosed] at hown
  refine hinv.share hfree ⟨List.mem_cons_self, fun h => h, hown.candidates, hown.links, ?_⟩
  exact fun _ source h => absurd h (hown.sources source)

theorem beginExclusive {refresh : Bool} (halone : s.sharers = []) :
    LifecycleInv ids { s.setTxn t (.exclusive ⟨refresh, none, none, none⟩) with
      exclusive := some t } := by
  have hown := hinv.txns t
  rw [hclosed] at hown
  refine hinv.of_unnoticed ?_ rfl rfl rfl (fun _ _ => halone) rfl ?_
  · intro u _
    refine ⟨rfl, fun h => h, ?_, rfl, fun _ => Iff.rfl, fun _ _ => Iff.rfl, fun _ => Iff.rfl, rfl⟩
    intro h
    rw [hfree] at h
    cases h
  · exact ⟨rfl, fun _ => hown.candidates, hown.links, hown.sources, by simp, by simp, by simp⟩

end

theorem readPending {x : Exclusive} (htxn : s.txns t = .exclusive x) :
    LifecycleInv ids (s.setTxn t
      (.exclusive { x with pendingRead := some ((s.view t).pendingIds ids).isEmpty })) := by
  have hown := hinv.txns t
  rw [htxn] at hown
  refine hinv.setExclusive htxn rfl ?_ hown.sourcesRead hown.write
  intro h
  exact Snapshot.pendingIds_eq_nil.mp (List.isEmpty_iff.mp (Option.some.inj h))

theorem readSources {x : Exclusive} (htxn : s.txns t = .exclusive x) :
    LifecycleInv ids (s.setTxn t
      (.exclusive { x with sourcesRead := some ((s.view t).openSources ids) })) := by
  have hown := hinv.txns t
  rw [htxn] at hown
  refine hinv.setExclusive htxn rfl hown.pendingRead ?_ hown.write
  intro l hl source hsource
  rw [← Option.some.inj hl, hinv.openSources_view htxn]
  exact hsource

theorem reopen {pendingRead : Option Bool} {sourcesRead : Option (List ℕ)}
    (htxn : s.txns t = .exclusive ⟨false, pendingRead, sourcesRead, none⟩) :
    LifecycleInv ids (s.setTxn t
      (.exclusive ⟨false, pendingRead, sourcesRead, some (.reviewRequired, [])⟩)) := by
  have hown := hinv.txns t
  rw [htxn] at hown
  refine hinv.setExclusive htxn rfl hown.pendingRead hown.sourcesRead ?_
  intro status covered hwrite hfinal
  obtain ⟨rfl, -⟩ := Prod.mk.inj (Option.some.inj hwrite)
  cases hfinal

theorem addLink {id source : ℕ} (hwrites : (s.txns t).writesLinks = true)
    (hheld : (s.candidates id).OwnedBy t) (hfree : (s.links id source).free t = true) :
    LifecycleInv ids (s.addLink t id source) := by
  refine hinv.setLinks hwrites ?_
  intro i src
  by_cases h : i = id ∧ src = source
  · obtain ⟨rfl, rfl⟩ := h
    exact Or.inr ⟨hfree, some (), by simp, fun _ => hheld⟩
  · exact Or.inl (if_neg h)

theorem dropLinks {source : ℕ} (hwrites : (s.txns t).writesLinks = true)
    (hfree : ∀ id ∈ ids.candidates, ((s.links id source).view t).isSome = true →
      (s.links id source).free t = true) : LifecycleInv ids (s.dropLinks ids t source) := by
  refine hinv.setLinks hwrites ?_
  intro i src
  by_cases h : src = source ∧ i ∈ ids.candidates ∧ ((s.links i src).view t).isSome = true
  · obtain ⟨rfl, hid, hsome⟩ := h
    exact Or.inr ⟨hfree i hid hsome, none, by simp [hid, hsome], fun hnone => by cases hnone⟩
  · exact Or.inl (if_neg h)

/-- A transaction that holds a row can write it. -/
theorem setHeld {id : ℕ} {w : Option Candidate} (hwrites : (s.txns t).writesCandidates = true)
    (hheld : (s.candidates id).OwnedBy t) :
    LifecycleInv ids (s.setCandidate id ((s.candidates id).write t w)) := by
  refine hinv.setCandidate hwrites ?_
  obtain ⟨v, hv⟩ := hheld
  simp [Cell.free, hv]

/-- Every step keeps the invariant. -/
theorem step {a : LifecycleAction} (hguard : PromotesReviewed ids s a)
    (hstep : lifecycleStep ids s a = some s') : LifecycleInv ids s' := by
  unfold lifecycleStep at hstep
  cases a with
  | beginReconcile t =>
    obtain ⟨h, rfl⟩ := Run.enabled hstep
    exact hinv.beginReconcile h.1 h.2
  | readBefore t =>
    obtain ⟨h, rfl⟩ := Run.enabled hstep
    exact hinv.readBefore h
  | lockCandidate t id =>
    obtain ⟨h, rfl⟩ := Run.enabled hstep
    exact hinv.setCandidate h.1 h.2
  | insertCandidate t id row =>
    dsimp only at hstep
    split at hstep
    · next h =>
      obtain ⟨hwrites, -, hempty⟩ := h
      cases hstep
      refine hinv.setCandidate hwrites ?_
      rw [hempty]
      rfl
    · cases hstep
  | updateCandidate t id update =>
    dsimp only at hstep
    split at hstep
    · obtain ⟨h, rfl⟩ := Run.enabled hstep
      exact hinv.setHeld h.1 h.2
    · cases hstep
  | deleteCandidate t id =>
    obtain ⟨h, rfl⟩ := Run.enabled hstep
    exact hinv.setHeld h.1 h.2
  | addLink t id source =>
    dsimp only at hstep
    split at hstep
    · next h =>
      obtain ⟨hwrites, hheld, -, hfree⟩ := h
      cases hstep
      exact hinv.addLink hwrites hheld hfree
    · cases hstep
  | dropLinks t source =>
    obtain ⟨h, rfl⟩ := Run.enabled hstep
    exact hinv.dropLinks h.1 h.2
  | checkAfter t =>
    dsimp only at hstep
    split at hstep
    · next before htxn =>
      split at hstep
      · next hnew =>
        cases hstep
        exact hinv.checkAfter htxn hnew
      · cases hstep
        exact hinv.rollback
    · cases hstep
  | beginSource t =>
    obtain ⟨h, rfl⟩ := Run.enabled hstep
    exact hinv.beginSource h.1 h.2
  | addSource t source =>
    dsimp only at hstep
    split at hstep
    · next h =>
      obtain ⟨htxn, -, hfree⟩ := h
      cases hstep
      exact hinv.setSource htxn hfree fun hfinal => by cases hfinal
    · cases hstep
  | moveSource t source a =>
    dsimp only at hstep
    split at hstep
    · next reportFinalized status htxn hview =>
      split at hstep
      · next target htarget =>
        obtain ⟨hfree, rfl⟩ := Run.enabled hstep
        refine hinv.setSource htxn hfree ?_
        rintro rfl hopen
        rw [hview]
        exact isOpen_of_transitioned htarget hopen
      · cases hstep
    · cases hstep
  | beginExclusive t refresh =>
    obtain ⟨h, rfl⟩ := Run.enabled hstep
    exact hinv.beginExclusive h.1 h.2.1 h.2.2
  | readPending t =>
    dsimp only at hstep
    split at hstep
    · next x htxn =>
      cases hstep
      exact hinv.readPending htxn
    · cases hstep
  | readSources t =>
    dsimp only at hstep
    split at hstep
    · next x htxn =>
      cases hstep
      exact hinv.readSources htxn
    · cases hstep
  | finalize t sourceOverride =>
    dsimp only at hstep
    split at hstep
    · next pendingRead sources htxn =>
      obtain ⟨h, rfl⟩ := Run.enabled hstep
      exact hinv.finalize htxn h.2.2.1 h.2.2.2
    · cases hstep
  | restore t status =>
    dsimp only at hstep
    split at hstep
    · next refresh nonePending sources htxn =>
      cases hstep
      exact hinv.restore htxn
    · cases hstep
  | reopen t =>
    dsimp only at hstep
    split at hstep
    · next pendingRead sourcesRead htxn =>
      obtain ⟨-, rfl⟩ := Run.enabled hstep
      exact hinv.reopen htxn
    · cases hstep
  | commit t =>
    dsimp only at hstep
    split at hstep
    · next reportFinalized before checked htxn =>
      obtain ⟨hchecked, rfl⟩ := Run.enabled hstep
      exact hinv.commitReconcile htxn hchecked
    · next reportFinalized htxn =>
      cases hstep
      exact hinv.commitSource htxn
    · next x htxn =>
      obtain ⟨hwritten, rfl⟩ := Run.enabled hstep
      exact hinv.commitExclusive htxn hwritten
    · cases hstep
  | rollback t =>
    dsimp only at hstep
    split at hstep
    · cases hstep
    · cases hstep
      exact hinv.rollback
  | setStatus status =>
    obtain ⟨h, rfl⟩ := Run.enabled hstep
    exact hinv.setStatus h.1 h.2
  | review id a =>
    dsimp only at hstep
    split at hstep
    · next c hcell =>
      cases hstep
      refine hinv.put hcell fun _ hpending => ?_
      cases hold : c.isPending (s.committed.linked ids id) with
      | true => rfl
      | false =>
        rw [a.not_isPending_apply hold] at hpending
        cases hpending
    · cases hstep
  | promote id =>
    dsimp only at hstep
    split at hstep
    · next c hcell =>
      cases hstep
      refine hinv.put hcell fun _ hpending => ?_
      rw [Candidate.not_isPending_of_reviewed Candidate.reviewStatus_promoted] at hpending
      cases hpending
    · cases hstep
  | readForCreate id =>
    dsimp only at hstep
    split at hstep
    · obtain ⟨-, rfl⟩ := Run.enabled hstep
      exact hinv.setCreating
    · cases hstep
  | linkToIoc id iocId =>
    dsimp only at hstep
    split at hstep
    · next c hcell =>
      obtain ⟨-, rfl⟩ := Run.enabled hstep
      refine (hinv.put hcell fun hwhen hpending => ?_).setCreating
      rcases hguard with ⟨hopen, hfree⟩ | hkeeps
      · rcases hwhen with hfinal | hheld
        · rw [hopen] at hfinal
          cases hfinal
        · exact absurd hfree hheld
      · refine hkeeps c ?_ hpending
        rw [hcell]
        rfl
    · cases hstep

end

/-- A report without rows is complete. -/
theorem initial : LifecycleInv ids .initial := by
  have hnone : ∀ {α : Type} (u : Tid), ¬ (Cell.empty : Cell Tid α).OwnedBy u := by
    rintro α u ⟨w, hw⟩
    cases hw
  refine ⟨?_, ?_, fun u => ⟨fun _ => hnone u, fun _ _ => hnone u, fun _ => hnone u⟩⟩
  · intro hfinal
    cases hfinal
  · nofun

end LifecycleInv

/-- In every run whose Create IOCs keep reviewed rows reviewed, a finalized report is complete. -/
theorem finalized_stays_complete {actions : List LifecycleAction}
    (hrun : Run (lifecycleStep ids) (PromotesReviewed ids) .initial actions s) :
    StaysComplete ids s := by
  have hinv : LifecycleInv ids s :=
    Run.invariant (fun _ _ _ hinv hguard hstep => hinv.step hguard hstep) hrun .initial
  exact hinv.staysComplete

/-- An indicator of the document. -/
def documentIndicator : Candidate where
  nonIocType := false
  assessment := .malicious
  reviewStatus := .pending
  matchState := .new
  matchedIocId := none
  isIoc := true
  sourceAssertion := some .explicitIoc
  evidence := {
    membershipOutcome := some .member
    authoritativeScope := true
    sourceAssertion := none
    occurrences := []
    promotedFrom := false
    parserDerivedMetadata := false
    notDirectSource := false
    reservedAddress := false
    nonActionableLocal := false }
  hasOriginalDocumentOccurrence := true

def oneRow : RowIds := ⟨[1], [1]⟩

/-- The document is extracted and waits for review. -/
def extractedReport : List LifecycleAction :=
  [.setStatus .analyzing, .beginReconcile 1, .insertCandidate 1 1 documentIndicator, .commit 1,
    .setStatus .reviewRequired]

/-- A reviewed report is finalized over an open source, and the source is moved later. -/
def overriddenFinalization : List LifecycleAction :=
  extractedReport ++
    [.beginSource 2, .addSource 2 1, .commit 2, .review 1 .approve, .readForCreate 1, .linkToIoc 1 7,
      .beginExclusive 3 false, .readPending 3, .readSources 3, .finalize 3 true, .commit 3,
      .beginSource 4, .moveSource 4 1 .startInspect, .commit 4]

theorem finalized_stays_complete_overridden :
    ∃ s, Run (lifecycleStep oneRow) (PromotesReviewed oneRow) .initial overriddenFinalization s ∧
      s.status = .ready ∧ s.committed.openSources oneRow = [1] ∧ StaysComplete oneRow s := by
  have hexec : (Run.exec (lifecycleStep oneRow) (PromotesReviewed oneRow) .initial
      overriddenFinalization).map (fun s => (s.status, s.committed.openSources oneRow)) =
      some (.ready, [1]) := by decide +kernel
  obtain ⟨s, hs, hstate⟩ := Option.map_eq_some_iff.mp hexec
  obtain ⟨hstatus, hopen⟩ := Prod.mk.inj hstate
  have hrun := Run.of_exec hs
  exact ⟨s, hrun, hstatus, hopen, finalized_stays_complete hrun⟩

/-- Create IOCs reads the approved row. Rerun AI and a pack that lists it as context change it, the
report is finalized, and then the row is linked to the IOC. -/
def lateLink : List LifecycleAction :=
  extractedReport ++
    [.review 1 .approve, .readForCreate 1,
      .setStatus .analyzing, .beginReconcile 2, .lockCandidate 2 1,
      .updateCandidate 2 1 (.columns documentIndicator true), .commit 2, .setStatus .reviewRequired,
      .beginSource 3, .addSource 3 1, .moveSource 3 1 .finishInspect, .commit 3,
      .beginSource 4, .moveSource 4 1 .approve, .commit 4,
      .beginSource 5, .moveSource 5 1 .startExtract, .commit 5,
      .beginReconcile 6, .lockCandidate 6 1,
      .updateCandidate 6 1 (.refreshMatch .contextOnly none), .addLink 6 1 1, .commit 6,
      .beginSource 7, .moveSource 7 1 .finishExtract, .commit 7,
      .beginExclusive 8 false, .readPending 8, .readSources 8, .finalize 8 false, .commit 8,
      .linkToIoc 1 7]

/-- A link of Create IOCs puts a pending indicator on a finalized report. -/
theorem pending_after_late_link :
    ¬ ∀ (ids : RowIds) (actions : List LifecycleAction) (s : ReportState),
      Run (lifecycleStep ids) (fun _ _ => True) .initial actions s → StaysComplete ids s := by
  intro h
  have hexec : (Run.exec (lifecycleStep oneRow) (fun _ _ => True) .initial lateLink).map
      (fun s => (s.status, s.committed.pendingIds oneRow)) = some (.ready, [1]) := by
    decide +kernel
  obtain ⟨s, hs, hstate⟩ := Option.map_eq_some_iff.mp hexec
  obtain ⟨hstatus, hpending⟩ := Prod.mk.inj hstate
  have hnone := (h _ _ s (Run.of_exec hs) (by rw [hstatus]; rfl)).1
  rw [hpending] at hnone
  cases hnone

end TalonHound.ReportLifecycle
