import TalonHound.ReportLifecycle.Protocol

/-!
# A finalized report stays complete

While a transaction holds `FOR KEY SHARE`, nobody finalizes the report, so what it compared under
a finalized report still holds when it commits. While one holds `FOR UPDATE`, no other transaction
writes rows.
-/

namespace TalonHound.ReportLifecycle

open Function

variable {ids : RowIds} {s s' : ReportState} {t u : Tid} {v v' : Snapshot}

variable {source id : ℕ}

namespace Snapshot

/-- No row awaits review. -/
def NonePending (ids : RowIds) (v : Snapshot) : Prop :=
  ∀ id ∈ ids.candidates, ∀ c ∈ v.candidates id, c.isPending (v.linked ids id) = false

theorem pendingIds_eq_nil : v.pendingIds ids = [] ↔ v.NonePending ids := by
  unfold pendingIds NonePending
  rw [List.filter_eq_nil_iff]
  simp only [Option.any_eq_true_iff_get]
  constructor
  · intro h id hid c hc
    cases hpending : c.isPending (v.linked ids id) with
    | false => rfl
    | true =>
      have hget : (v.candidates id).get (by rw [hc]; rfl) = c := Option.get_of_mem _ hc
      exact absurd ⟨_, hget ▸ hpending⟩ (h id hid)
  · rintro h id hid ⟨hsome, hpending⟩
    rw [h id hid _ (Option.get_mem hsome)] at hpending
    cases hpending

theorem mem_openSources : source ∈ v.openSources ids ↔
      source ∈ ids.sources ∧ (v.sources source).any SourceStatus.isOpen = true := by
  unfold openSources
  rw [List.mem_filter]

theorem openSources_congr (h : v'.sources = v.sources) :
    v'.openSources ids = v.openSources ids := by
  unfold openSources
  rw [h]

/-- A candidate loses its links. -/
theorem linked_mono
    (h : ∀ source, (v'.links id source).isSome = true → (v.links id source).isSome = true)
    (hlinked : v'.linked ids id = true) : v.linked ids id = true := by
  obtain ⟨source, hsource, hlink⟩ := List.any_eq_true.mp hlinked
  exact List.any_eq_true.mpr ⟨source, hsource, h source hlink⟩

end Snapshot

open Snapshot

/-- The transaction holds no rows. -/
structure HoldsNothing (s : ReportState) (t : Tid) : Prop where
  candidates : ∀ id, ¬ (s.candidates id).OwnedBy t
  links : ∀ id source, ¬ (s.links id source).OwnedBy t
  sources : ∀ source, ¬ (s.sources source).OwnedBy t

/-- What a reconciliation relies on. -/
structure ReconcileInv (ids : RowIds) (s : ReportState) (t : Tid) (reportFinalized : Bool)
    (before : Option (List ℕ)) (checked : Bool) : Prop where
  shared : t ∈ s.sharers
  unfinished : reportFinalized = false → s.status.isFinalized = false
  obligations : ∀ b, before = some b → s.status.isFinalized = true → b = []
  clear : checked = true → s.status.isFinalized = true → ∀ id ∈ ids.candidates,
    (s.candidates id).OwnedBy t → ∀ c ∈ (s.view t).candidates id,
      c.isPending ((s.view t).linked ids id) = false
  /-- Links go to rows that the transaction holds. -/
  links : ∀ id source, (s.links id source).OwnedBy t →
    ((s.view t).links id source).isSome = true → (s.candidates id).OwnedBy t
  sources : ∀ source, ¬ (s.sources source).OwnedBy t
  /-- On a finalized report it reads before it writes. -/
  untouched : reportFinalized = true → before = none →
    (∀ id, ¬ (s.candidates id).OwnedBy t) ∧ ∀ id source, ¬ (s.links id source).OwnedBy t

/-- What a source transaction relies on. -/
structure SourceInv (s : ReportState) (t : Tid) (reportFinalized : Bool) : Prop where
  shared : t ∈ s.sharers
  unfinished : reportFinalized = false → s.status.isFinalized = false
  candidates : ∀ id, ¬ (s.candidates id).OwnedBy t
  links : ∀ id source, ¬ (s.links id source).OwnedBy t
  /-- On a finalized report only a source that was open is open. -/
  moves : s.status.isFinalized = true → ∀ source, (s.sources source).OwnedBy t →
    ((s.view t).sources source).any SourceStatus.isOpen = true →
      (s.committed.sources source).any SourceStatus.isOpen = true

/-- What a finalization relies on. -/
structure ExclusiveInv (ids : RowIds) (s : ReportState) (t : Tid) (x : Exclusive) : Prop where
  holder : s.exclusive = some t
  candidates : x.refresh = false → ∀ id, ¬ (s.candidates id).OwnedBy t
  links : ∀ id source, ¬ (s.links id source).OwnedBy t
  sources : ∀ source, ¬ (s.sources source).OwnedBy t
  pendingRead : x.pendingRead = some true → (s.view t).NonePending ids
  sourcesRead : ∀ l, x.sourcesRead = some l → ∀ source ∈ s.committed.openSources ids, source ∈ l
  write : ∀ status covered, x.write = some (status, covered) → status.isFinalized = true →
    (s.view t).NonePending ids ∧ ∀ source ∈ s.committed.openSources ids, source ∈ covered

/-- What each transaction relies on. -/
def TxnInv (ids : RowIds) (s : ReportState) (t : Tid) : Txn → Prop
  | .closed => HoldsNothing s t
  | .reconcile reportFinalized before checked => ReconcileInv ids s t reportFinalized before checked
  | .source reportFinalized => SourceInv s t reportFinalized
  | .exclusive x => ExclusiveInv ids s t x

/-- The invariant. -/
structure LifecycleInv (ids : RowIds) (s : ReportState) : Prop where
  complete : s.status.isFinalized = true → s.committed.NonePending ids ∧
    ∀ source ∈ s.committed.openSources ids, source ∈ s.covered
  alone : ∀ t, s.exclusive = some t → s.sharers = []
  txns : ∀ t, TxnInv ids s t (s.txns t)

theorem LifecycleInv.staysComplete (hinv : LifecycleInv ids s) : StaysComplete ids s := by
  intro hfinal
  obtain ⟨hpending, hsources⟩ := hinv.complete hfinal
  exact ⟨pendingIds_eq_nil.mpr hpending, hsources⟩

variable {reportFinalized : Bool} {x : Txn}

/-- A mutation writes before its comparison, and on a finalized report after its first read. -/
theorem Txn.of_writesCandidates {checked : Bool} {before : Option (List ℕ)}
    (h : (Txn.reconcile reportFinalized before checked).writesCandidates = true) :
    checked = false ∧ (reportFinalized = true → before ≠ none) := by
  simp only [Txn.writesCandidates, Bool.and_eq_true, Bool.or_eq_true, Bool.not_eq_true'] at h
  obtain ⟨hchecked, hread⟩ := h
  refine ⟨hchecked, ?_⟩
  rintro rfl rfl
  simp at hread

/-- A transaction sees and holds the same as before. -/
structure Unnoticed (u : Tid) (s s' : ReportState) : Prop where
  status : s'.status = s.status
  shared : u ∈ s.sharers → u ∈ s'.sharers
  exclusive : s.exclusive = some u → s'.exclusive = some u
  view : s'.view u = s.view u
  candidates : ∀ id, (s'.candidates id).OwnedBy u ↔ (s.candidates id).OwnedBy u
  links : ∀ id source, (s'.links id source).OwnedBy u ↔ (s.links id source).OwnedBy u
  sources : ∀ source, (s'.sources source).OwnedBy u ↔ (s.sources source).OwnedBy u
  committed : s'.committed.sources = s.committed.sources

theorem HoldsNothing.unnoticed (h : HoldsNothing s u) (hsame : Unnoticed u s s') :
    HoldsNothing s' u :=
  ⟨fun id => mt (hsame.candidates id).mp (h.candidates id),
    fun id source => mt (hsame.links id source).mp (h.links id source),
    fun source => mt (hsame.sources source).mp (h.sources source)⟩

theorem TxnInv.unnoticed (h : TxnInv ids s u x) (hsame : Unnoticed u s s') : TxnInv ids s' u x := by
  have hview := hsame.view
  have hstatus := hsame.status
  have hopen : s'.committed.openSources ids = s.committed.openSources ids :=
    openSources_congr hsame.committed
  cases x with
  | closed => exact HoldsNothing.unnoticed h hsame
  | reconcile reportFinalized before checked =>
    obtain ⟨hshared, hunfinished, hbefore, hclear, hlinks, hsources, huntouched⟩ := h
    refine ⟨hsame.shared hshared, ?_, ?_, ?_, ?_, ?_, ?_⟩
    · rwa [hstatus]
    · rwa [hstatus]
    · rw [hstatus, hview]
      intro hc hf id hid hown
      exact hclear hc hf id hid ((hsame.candidates id).mp hown)
    · rw [hview]
      intro id source hown hsome
      exact (hsame.candidates id).mpr (hlinks id source ((hsame.links id source).mp hown) hsome)
    · exact fun source => mt (hsame.sources source).mp (hsources source)
    · intro hf hb
      obtain ⟨hnone, hnoLinks⟩ := huntouched hf hb
      exact ⟨fun id => mt (hsame.candidates id).mp (hnone id),
        fun id source => mt (hsame.links id source).mp (hnoLinks id source)⟩
  | source reportFinalized =>
    obtain ⟨hshared, hunfinished, hcandidates, hlinks, hmoves⟩ := h
    refine ⟨hsame.shared hshared, ?_, ?_, ?_, ?_⟩
    · rwa [hstatus]
    · exact fun id => mt (hsame.candidates id).mp (hcandidates id)
    · exact fun id source => mt (hsame.links id source).mp (hlinks id source)
    · rw [hstatus, hview, hsame.committed]
      intro hf source hown
      exact hmoves hf source ((hsame.sources source).mp hown)
  | exclusive x =>
    obtain ⟨hholder, hcandidates, hlinks, hsources, hpending, hread, hwrite⟩ := h
    refine ⟨hsame.exclusive hholder, ?_, ?_, ?_, ?_, ?_, ?_⟩
    · exact fun hx id => mt (hsame.candidates id).mp (hcandidates hx id)
    · exact fun id source => mt (hsame.links id source).mp (hlinks id source)
    · exact fun source => mt (hsame.sources source).mp (hsources source)
    · rwa [hview]
    · rwa [hopen]
    · rwa [hview, hopen]

/-- A transaction does not notice the writes of another to candidates. -/
theorem unnoticed_setCandidate {w : Option Candidate} (hfree : (s.candidates id).free t = true)
    (hne : u ≠ t) : Unnoticed u s (s.setCandidate id ((s.candidates id).write t w)) := by
  refine ⟨rfl, fun h => h, fun h => h, ?_, ?_, fun _ _ => Iff.rfl, fun _ => Iff.rfl, rfl⟩
  · unfold ReportState.view ReportState.setCandidate
    congr 1
    funext i
    by_cases hi : i = id
    · subst hi
      simp [Cell.view_write_other hfree hne]
    · simp [hi]
  · intro i
    by_cases hi : i = id
    · subst hi
      simp only [ReportState.setCandidate, update_self, Cell.ownedBy_write]
      exact iff_of_false hne fun h => hne (h.eq_of_free hfree)
    · simp [ReportState.setCandidate, hi]

theorem unnoticed_setSource {w : Option SourceStatus} (hfree : (s.sources source).free t = true)
    (hne : u ≠ t) : Unnoticed u s (s.setSource source ((s.sources source).write t w)) := by
  refine ⟨rfl, fun h => h, fun h => h, ?_, fun _ => Iff.rfl, fun _ _ => Iff.rfl, ?_, ?_⟩
  · unfold ReportState.view ReportState.setSource
    congr 1
    funext i
    by_cases hi : i = source
    · subst hi
      simp [Cell.view_write_other hfree hne]
    · simp [hi]
  · intro i
    by_cases hi : i = source
    · subst hi
      simp only [ReportState.setSource, update_self, Cell.ownedBy_write]
      exact iff_of_false hne fun h => hne (h.eq_of_free hfree)
    · simp [ReportState.setSource, hi]
  · funext i
    by_cases hi : i = source
    · subst hi
      simp [ReportState.committed, ReportState.setSource]
    · simp [ReportState.committed, ReportState.setSource, hi]

/-- Nor the writes of another to links. -/
theorem unnoticed_setLinks {links : ℕ → ℕ → Cell Tid Unit} (hne : u ≠ t)
    (h : ∀ id source, links id source = s.links id source ∨
      (s.links id source).free t = true ∧ ∃ w, links id source = (s.links id source).write t w) :
    Unnoticed u s (s.setLinks links) := by
  refine ⟨rfl, fun h => h, fun h => h, ?_, fun _ => Iff.rfl, ?_, fun _ => Iff.rfl, rfl⟩
  · unfold ReportState.view ReportState.setLinks
    congr 1
    funext id source
    change (links id source).view u = _
    rcases h id source with hsame | ⟨hfree, w, hw⟩
    · rw [hsame]
    · rw [hw, Cell.view_write_other hfree hne]
  · intro id source
    change (links id source).OwnedBy u ↔ _
    rcases h id source with hsame | ⟨hfree, w, hw⟩
    · rw [hsame]
    · rw [hw, Cell.ownedBy_write]
      exact iff_of_false hne fun h => hne (h.eq_of_free hfree)

/-- The state of another transaction changes. -/
theorem unnoticed_setTxn : Unnoticed u s (s.setTxn t x) :=
  ⟨rfl, fun h => h, fun h => h, rfl, fun _ => Iff.rfl, fun _ _ => Iff.rfl, fun _ => Iff.rfl, rfl⟩

theorem unnoticed_rollback (hne : u ≠ t) : Unnoticed u s (s.rollback t) := by
  refine ⟨rfl, ?_, ?_, ?_, ?_, ?_, ?_, ?_⟩
  · intro h
    exact List.mem_filter.mpr ⟨h, by simpa using hne⟩
  · intro h
    have hother : s.exclusive ≠ some t := by
      rw [h]
      simpa using hne
    exact (if_neg hother).trans h
  · unfold ReportState.view ReportState.rollback ReportState.close
    congr 1
    · funext id
      exact Cell.view_rollback_other hne
    · funext id source
      exact Cell.view_rollback_other hne
    · funext source
      exact Cell.view_rollback_other hne
  · exact fun id => Cell.ownedBy_rollback.trans (and_iff_left hne)
  · exact fun id source => Cell.ownedBy_rollback.trans (and_iff_left hne)
  · exact fun source => Cell.ownedBy_rollback.trans (and_iff_left hne)
  · funext source
    exact Cell.current_rollback

namespace LifecycleInv

section

variable (hinv : LifecycleInv ids s)
include hinv

/-- A step that no other transaction notices, and that commits nothing. -/
theorem of_unnoticed (hothers : ∀ u, u ≠ t → Unnoticed u s s') (hstatus : s'.status = s.status)
    (hcommitted : s'.committed = s.committed) (hcovered : s'.covered = s.covered)
    (halone : ∀ u, s'.exclusive = some u → s'.sharers = [])
    (htxns : s'.txns = Function.update s.txns t x) (hown : TxnInv ids s' t x) :
    LifecycleInv ids s' := by
  refine ⟨?_, halone, ?_⟩
  · rw [hstatus, hcommitted, hcovered]
    exact hinv.complete
  · intro u
    rw [htxns]
    by_cases hu : u = t
    · subst hu
      rwa [update_self]
    · rw [update_of_ne hu]
      exact (hinv.txns u).unnoticed (hothers u hu)

theorem setTxn (hown : TxnInv ids s t x) :
    LifecycleInv ids (s.setTxn t x) :=
  hinv.of_unnoticed (fun _ _ => unnoticed_setTxn) rfl rfl rfl hinv.alone rfl
    (hown.unnoticed unnoticed_setTxn)

/-- A write of a candidate is not committed yet, and comes before the comparison. -/
theorem setCandidate {w : Option Candidate} (hwrites : (s.txns t).writesCandidates = true)
    (hfree : (s.candidates id).free t = true) :
    LifecycleInv ids (s.setCandidate id ((s.candidates id).write t w)) := by
  have hcommitted : (s.setCandidate id ((s.candidates id).write t w)).committed = s.committed := by
    unfold ReportState.committed ReportState.setCandidate
    congr 1
    funext i
    by_cases hi : i = id
    · subst hi
      simp
    · simp [hi]
  refine hinv.of_unnoticed (x := s.txns t) (fun _ => unnoticed_setCandidate hfree) rfl hcommitted
    rfl hinv.alone (update_eq_self t s.txns).symm ?_
  have hown := hinv.txns t
  cases hx : s.txns t with
  | closed | source reportFinalized =>
    rw [hx] at hwrites
    cases hwrites
  | reconcile reportFinalized before checked =>
    rw [hx] at hwrites hown
    obtain ⟨hshared, hunfinished, hbefore, -, hlinks, hsources, -⟩ := hown
    obtain ⟨hchecked, hread⟩ := Txn.of_writesCandidates hwrites
    refine ⟨hshared, hunfinished, hbefore, ?_, ?_, hsources, fun hf hb => absurd hb (hread hf)⟩
    · intro h
      rw [hchecked] at h
      cases h
    · intro i source hlink hsome
      have hold := hlinks i source hlink hsome
      by_cases hi : i = id
      · subst hi
        simp [ReportState.setCandidate, Cell.ownedBy_write]
      · simpa [ReportState.setCandidate, hi] using hold
  | exclusive x =>
    rw [hx] at hwrites hown
    obtain ⟨hholder, hcandidates, hlinks, hsources, -, hread, -⟩ := hown
    simp only [Txn.writesCandidates, Bool.and_eq_true, Option.isNone_iff_eq_none] at hwrites
    obtain ⟨⟨hrefresh, hpending⟩, hwrite⟩ := hwrites
    refine ⟨hholder, ?_, hlinks, hsources, ?_, ?_, ?_⟩
    · intro h
      rw [hrefresh] at h
      cases h
    · intro h
      rw [hpending] at h
      cases h
    · rwa [hcommitted]
    · intro status covered h
      rw [hwrite] at h
      cases h

/-- A write of links. -/
theorem setLinks {links : ℕ → ℕ → Cell Tid Unit} (hwrites : (s.txns t).writesLinks = true)
    (hlinks : ∀ id source, links id source = s.links id source ∨ (s.links id source).free t = true ∧ ∃ w, links id source = (s.links id source).write t w ∧ (w.isSome = true → (s.candidates id).OwnedBy t)) :
    LifecycleInv ids (s.setLinks links) := by
  have hcommitted : (s.setLinks links).committed = s.committed := by
    unfold ReportState.committed ReportState.setLinks
    congr 1
    funext id source
    change (links id source).current = _
    rcases hlinks id source with hsame | ⟨-, w, hw, -⟩
    · rw [hsame]
    · rw [hw, Cell.current_write]
  have hchange : ∀ id source, links id source = s.links id source ∨
      (s.links id source).free t = true ∧ ∃ w, links id source = (s.links id source).write t w := by
    intro id source
    rcases hlinks id source with hsame | ⟨hfree, w, hw, -⟩
    · exact Or.inl hsame
    · exact Or.inr ⟨hfree, w, hw⟩
  refine hinv.of_unnoticed (x := s.txns t) (fun _ hne => unnoticed_setLinks hne hchange) rfl
    hcommitted rfl hinv.alone (update_eq_self t s.txns).symm ?_
  have hown := hinv.txns t
  cases hx : s.txns t with
  | closed | source reportFinalized | exclusive x =>
    rw [hx] at hwrites
    cases hwrites
  | reconcile reportFinalized before checked =>
    rw [hx] at hwrites hown
    obtain ⟨hshared, hunfinished, hbefore, -, hold, hsources, -⟩ := hown
    obtain ⟨hchecked, hread⟩ := Txn.of_writesCandidates hwrites
    refine ⟨hshared, hunfinished, hbefore, ?_, ?_, hsources, fun hf hb => absurd hb (hread hf)⟩
    · intro h
      rw [hchecked] at h
      cases h
    · intro id source hlink hsome
      change (links id source).OwnedBy t at hlink
      change ((links id source).view t).isSome = true at hsome
      rcases hlinks id source with hsame | ⟨-, w, hw, hcandidate⟩
      · rw [hsame] at hlink hsome
        exact hold id source hlink hsome
      · rw [hw, Cell.view_write_self] at hsome
        exact hcandidate hsome

/-- A write of a source. -/
theorem setSource {source : ℕ} {w : Option SourceStatus} {reportFinalized : Bool}
    (htxn : s.txns t = .source reportFinalized) (hfree : (s.sources source).free t = true)
    (hmoves : reportFinalized = true → w.any SourceStatus.isOpen = true → ((s.sources source).view t).any SourceStatus.isOpen = true) :
    LifecycleInv ids (s.setSource source ((s.sources source).write t w)) := by
  have hcommitted : (s.setSource source ((s.sources source).write t w)).committed =
      s.committed := by
    unfold ReportState.committed ReportState.setSource
    congr 1
    funext i
    by_cases hi : i = source
    · subst hi
      simp
    · simp [hi]
  refine hinv.of_unnoticed (x := s.txns t) (fun _ => unnoticed_setSource hfree) rfl hcommitted
    rfl hinv.alone (update_eq_self t s.txns).symm ?_
  have hown := hinv.txns t
  rw [htxn] at hown ⊢
  obtain ⟨hshared, hunfinished, hcandidates, hlinks, hold⟩ := hown
  refine ⟨hshared, hunfinished, hcandidates, hlinks, ?_⟩
  intro hfinal i howned hopen
  change s.status.isFinalized = true at hfinal
  rw [hcommitted]
  by_cases hi : i = source
  · subst hi
    have hfinalized : reportFinalized = true := by
      cases reportFinalized with
      | true => rfl
      | false =>
        rw [hunfinished rfl] at hfinal
        cases hfinal
    have hw : w.any SourceStatus.isOpen = true := by
      simpa [ReportState.view, ReportState.setSource] using hopen
    have hbefore := hmoves hfinalized hw
    by_cases hheld : (s.sources i).OwnedBy t
    · exact hold hfinal i hheld hbefore
    · rwa [Cell.view_of_not_owned hheld] at hbefore
  · refine hold hfinal i ?_ ?_
    · simpa [ReportState.setSource, hi] using howned
    · simpa [ReportState.view, ReportState.setSource, hi] using hopen

/-- A mutation locks the report. -/
theorem share (hfree : s.exclusive = none)
    (hown : TxnInv ids { s.setTxn t x with sharers := t :: s.sharers } t x) :
    LifecycleInv ids { s.setTxn t x with sharers := t :: s.sharers } := by
  refine hinv.of_unnoticed ?_ rfl rfl rfl ?_ rfl hown
  · intro u _
    exact ⟨rfl, List.mem_cons_of_mem t, fun h => h, rfl, fun _ => Iff.rfl, fun _ _ => Iff.rfl,
      fun _ => Iff.rfl, rfl⟩
  · intro u hu
    rw [show s.exclusive = some u from hu] at hfree
    cases hfree

theorem rollback : LifecycleInv ids (s.rollback t) := by
  refine hinv.of_unnoticed (fun _ => unnoticed_rollback) rfl ?_ rfl ?_ rfl ?_
  · unfold ReportState.committed ReportState.rollback ReportState.close
    simp only [Cell.current_rollback]
  · intro u hu
    have hu : (if s.exclusive = some t then none else s.exclusive) = some u := hu
    split at hu
    · cases hu
    · change s.sharers.filter (· ≠ t) = []
      rw [hinv.alone u hu]
      rfl
  · exact ⟨fun id h => (Cell.ownedBy_rollback.mp h).2 rfl,
      fun id source h => (Cell.ownedBy_rollback.mp h).2 rfl,
      fun source h => (Cell.ownedBy_rollback.mp h).2 rfl⟩

end

end LifecycleInv

theorem committed_commitRows : (s.commitRows t).committed = s.view t := by
  unfold ReportState.committed ReportState.commitRows ReportState.view
  simp only [Cell.current_commit]

/-- The links of a candidate that the transaction does not hold. -/
theorem linked_view_of_not_owned {id : ℕ}
    (hlinks : ∀ id source, (s.links id source).OwnedBy t →
      ((s.view t).links id source).isSome = true → (s.candidates id).OwnedBy t)
    (hnot : ¬ (s.candidates id).OwnedBy t) (source : ℕ)
    (hsome : ((s.view t).links id source).isSome = true) :
    (s.committed.links id source).isSome = true := by
  by_cases hlink : (s.links id source).OwnedBy t
  · exact absurd (hlinks id source hlink hsome) hnot
  · change ((s.links id source).view t).isSome = true at hsome
    rwa [Cell.view_of_not_owned hlink] at hsome

/-- The commit of another mutation. -/
theorem TxnInv.commit_other {x : Txn} (h : TxnInv ids s u x) (hne : u ≠ t)
    (hfree : s.exclusive = none)
    (hlinks : ∀ id source, (s.links id source).OwnedBy t →
      ((s.view t).links id source).isSome = true → (s.candidates id).OwnedBy t) :
    TxnInv ids ((s.commitRows t).close t) u x := by
  have hcandidates : ∀ id, ((s.candidates id).commit t).OwnedBy u ↔ (s.candidates id).OwnedBy u :=
    fun id => Cell.ownedBy_commit.trans (and_iff_left hne)
  have hownedLinks : ∀ id source,
      ((s.links id source).commit t).OwnedBy u ↔ (s.links id source).OwnedBy u :=
    fun id source => Cell.ownedBy_commit.trans (and_iff_left hne)
  have hsources : ∀ source, ((s.sources source).commit t).OwnedBy u ↔ (s.sources source).OwnedBy u :=
    fun source => Cell.ownedBy_commit.trans (and_iff_left hne)
  have hshare : u ∈ s.sharers → u ∈ s.sharers.filter (· ≠ t) :=
    fun h => List.mem_filter.mpr ⟨h, by simpa using hne⟩
  cases x with
  | closed =>
    exact ⟨fun id => mt (hcandidates id).mp (h.candidates id),
      fun id source => mt (hownedLinks id source).mp (h.links id source),
      fun source => mt (hsources source).mp (h.sources source)⟩
  | reconcile reportFinalized before checked =>
    obtain ⟨hshared, hunfinished, hbefore, hclear, hheld, hnone, huntouched⟩ := h
    refine ⟨hshare hshared, hunfinished, hbefore, ?_, ?_,
      fun source => mt (hsources source).mp (hnone source), ?_⟩
    · intro hc hf id hid hown c hcand
      have hown := (hcandidates id).mp hown
      have hsame : ((s.candidates id).commit t).view u = (s.candidates id).view u :=
        Cell.view_commit_of_owned hown hne
      change c ∈ ((s.candidates id).commit t).view u at hcand
      rw [hsame] at hcand
      have hcleared := hclear hc hf id hid hown c hcand
      -- The other transaction adds no link to a row that it does not hold.
      have hother : ¬ (s.candidates id).OwnedBy t := fun h => hne (hown.unique h)
      have hmono : (((s.commitRows t).close t).view u).linked ids id = true →
          (s.view u).linked ids id = true := by
        refine linked_mono ?_
        intro source hsome
        change (((s.links id source).commit t).view u).isSome = true at hsome
        change ((s.links id source).view u).isSome = true
        by_cases hlink : (s.links id source).OwnedBy u
        · rwa [Cell.view_commit_of_owned hlink hne] at hsome
        · rw [Cell.view_of_not_owned (mt (hownedLinks id source).mp hlink),
            Cell.current_commit] at hsome
          rw [Cell.view_of_not_owned hlink]
          exact linked_view_of_not_owned hlinks hother source hsome
      cases hpending : c.isPending ((((s.commitRows t).close t).view u).linked ids id) with
      | false => rfl
      | true =>
        rw [Candidate.isPending_mono hmono hpending] at hcleared
        cases hcleared
    · intro id source hlink hsome
      have hlink := (hownedLinks id source).mp hlink
      change (((s.links id source).commit t).view u).isSome = true at hsome
      rw [Cell.view_commit_of_owned hlink hne] at hsome
      exact (hcandidates id).mpr (hheld id source hlink hsome)
    · intro hf hb
      obtain ⟨hnoRows, hnoLinks⟩ := huntouched hf hb
      exact ⟨fun id => mt (hcandidates id).mp (hnoRows id),
        fun id source => mt (hownedLinks id source).mp (hnoLinks id source)⟩
  | source reportFinalized =>
    obtain ⟨hshared, hunfinished, hnone, hnoLinks, hmoves⟩ := h
    refine ⟨hshare hshared, hunfinished, fun id => mt (hcandidates id).mp (hnone id),
      fun id source => mt (hownedLinks id source).mp (hnoLinks id source), ?_⟩
    intro hf source hown hopen
    have hown := (hsources source).mp hown
    have hother : ¬ (s.sources source).OwnedBy t := fun h => hne (hown.unique h)
    change (((s.sources source).commit t).view u).any SourceStatus.isOpen = true at hopen
    rw [Cell.view_commit_of_owned hown hne] at hopen
    change ((s.sources source).commit t).current.any SourceStatus.isOpen = true
    rw [Cell.current_commit, Cell.view_of_not_owned hother]
    exact hmoves hf source hown hopen
  | exclusive x =>
    have hholder := h.holder
    rw [hfree] at hholder
    cases hholder

/-- A transaction that ended holds nothing. -/
theorem holdsNothing_commit : HoldsNothing ((s.commitRows t).close t) t :=
  ⟨fun _ h => (Cell.ownedBy_commit.mp h).2 rfl, fun _ _ h => (Cell.ownedBy_commit.mp h).2 rfl,
    fun _ h => (Cell.ownedBy_commit.mp h).2 rfl⟩

namespace LifecycleInv

section

variable (hinv : LifecycleInv ids s)
include hinv

/-- Nobody finalizes while a mutation holds its lock. -/
theorem not_exclusive (hshared : t ∈ s.sharers) :
    s.exclusive = none := by
  cases hx : s.exclusive with
  | none => rfl
  | some u =>
    rw [hinv.alone u hx] at hshared
    cases hshared

/-- A mutation whose rows keep the report complete commits. -/
theorem commitShared (hshared : t ∈ s.sharers)
    (hlinks : ∀ id source, (s.links id source).OwnedBy t → ((s.view t).links id source).isSome = true → (s.candidates id).OwnedBy t)
    (hcomplete : s.status.isFinalized = true → (s.view t).NonePending ids ∧ ∀ source ∈ (s.view t).openSources ids, source ∈ s.covered) :
    LifecycleInv ids ((s.commitRows t).close t) := by
  have hfree := hinv.not_exclusive hshared
  refine ⟨?_, ?_, ?_⟩
  · change s.status.isFinalized = true → (s.commitRows t).committed.NonePending ids ∧
      ∀ source ∈ (s.commitRows t).committed.openSources ids, source ∈ s.covered
    rwa [committed_commitRows]
  · intro u hu
    have hnone : (if s.exclusive = some t then none else s.exclusive) = some u := hu
    rw [hfree] at hnone
    cases hnone
  · intro u
    change TxnInv ids ((s.commitRows t).close t) u (Function.update s.txns t .closed u)
    by_cases hu : u = t
    · subst hu
      rw [update_self]
      exact holdsNothing_commit
    · rw [update_of_ne hu]
      exact (hinv.txns u).commit_other hu hfree hlinks

theorem commitReconcile {checked : Bool} {before : Option (List ℕ)}
    (htxn : s.txns t = .reconcile reportFinalized before checked)
    (hchecked : reportFinalized = true → checked = true) :
    LifecycleInv ids ((s.commitRows t).close t) := by
  have hown := hinv.txns t
  rw [htxn] at hown
  obtain ⟨hshared, hunfinished, -, hclear, hlinks, hsources, -⟩ := hown
  refine hinv.commitShared hshared hlinks ?_
  intro hfinal
  obtain ⟨hpending, hopen⟩ := hinv.complete hfinal
  have hfinalized : reportFinalized = true := by
    cases reportFinalized with
    | true => rfl
    | false =>
      rw [hunfinished rfl] at hfinal
      cases hfinal
  constructor
  · intro id hid c hc
    by_cases hheld : (s.candidates id).OwnedBy t
    · exact hclear (hchecked hfinalized) hfinal id hid hheld c hc
    · change c ∈ (s.candidates id).view t at hc
      rw [Cell.view_of_not_owned hheld] at hc
      have hbefore := hpending id hid c hc
      cases h : c.isPending ((s.view t).linked ids id) with
      | false => rfl
      | true =>
        rw [Candidate.isPending_mono
          (linked_mono (linked_view_of_not_owned hlinks hheld)) h] at hbefore
        cases hbefore
  · have hsame : (s.view t).sources = s.committed.sources := by
      funext source
      exact Cell.view_of_not_owned (hsources source)
    rwa [openSources_congr hsame]

theorem commitSource (htxn : s.txns t = .source reportFinalized) :
    LifecycleInv ids ((s.commitRows t).close t) := by
  have hown := hinv.txns t
  rw [htxn] at hown
  obtain ⟨hshared, -, hcandidates, hlinks, hmoves⟩ := hown
  refine hinv.commitShared hshared (fun id source h => absurd h (hlinks id source)) ?_
  intro hfinal
  obtain ⟨hpending, hopen⟩ := hinv.complete hfinal
  constructor
  · have hrows : (s.view t).candidates = s.committed.candidates := by
      funext id
      exact Cell.view_of_not_owned (hcandidates id)
    have hsame : (s.view t).links = s.committed.links := by
      funext id source
      exact Cell.view_of_not_owned (hlinks id source)
    unfold Snapshot.NonePending Snapshot.linked
    rw [hrows, hsame]
    exact hpending
  · intro source hsource
    obtain ⟨hid, hisOpen⟩ := mem_openSources.mp hsource
    refine hopen source (mem_openSources.mpr ⟨hid, ?_⟩)
    by_cases hheld : (s.sources source).OwnedBy t
    · exact hmoves hfinal source hheld hisOpen
    · change ((s.sources source).view t).any SourceStatus.isOpen = true at hisOpen
      rwa [Cell.view_of_not_owned hheld] at hisOpen

/-- No other transaction is open under `FOR UPDATE`. -/
theorem closed_of_exclusive (hholder : s.exclusive = some t) (hne : u ≠ t) :
    s.txns u = .closed := by
  have hnone := hinv.alone t hholder
  have hown := hinv.txns u
  cases hx : s.txns u with
  | closed => rfl
  | reconcile reportFinalized before checked | source reportFinalized =>
    rw [hx] at hown
    have hshared := hown.shared
    rw [hnone] at hshared
    cases hshared
  | exclusive x =>
    rw [hx] at hown
    have hother := hown.holder
    rw [hholder] at hother
    exact absurd (Option.some.inj hother).symm hne

theorem commitExclusive {x : Exclusive} (htxn : s.txns t = .exclusive x)
    (hwritten : x.refresh = true → x.write.isSome = true) :
    LifecycleInv ids (((s.commitRows t).commitStatus x).close t) := by
  have hown := hinv.txns t
  rw [htxn] at hown
  obtain ⟨hholder, hcandidates, hlinks, hsources, -, -, hwrite⟩ := hown
  have hsame : (s.view t).sources = s.committed.sources := by
    funext source
    exact Cell.view_of_not_owned (hsources source)
  refine ⟨?_, ?_, ?_⟩
  · change ((s.commitRows t).commitStatus x).status.isFinalized = true →
      ((s.commitRows t).commitStatus x).committed.NonePending ids ∧
      ∀ source ∈ ((s.commitRows t).commitStatus x).committed.openSources ids,
        source ∈ ((s.commitRows t).commitStatus x).covered
    cases hx : x.write with
    | none =>
      -- A finalization that was refused has written nothing.
      have hplain : x.refresh = false := by
        cases hr : x.refresh with
        | false => rfl
        | true =>
          have h := hwritten hr
          rw [hx] at h
          cases h
      have hrows : s.view t = s.committed := by
        unfold ReportState.view ReportState.committed
        congr 1
        · funext id
          exact Cell.view_of_not_owned (hcandidates hplain id)
        · funext id source
          exact Cell.view_of_not_owned (hlinks id source)
      simp only [ReportState.commitStatus, hx]
      rw [committed_commitRows, hrows]
      exact hinv.complete
    | some w =>
      obtain ⟨status, covered⟩ := w
      simp only [ReportState.commitStatus, hx]
      intro hfinal
      obtain ⟨hpending, hopen⟩ := hwrite status covered hx hfinal
      change (s.commitRows t).committed.NonePending ids ∧
        ∀ source ∈ (s.commitRows t).committed.openSources ids, source ∈ covered
      rw [committed_commitRows, openSources_congr hsame]
      exact ⟨hpending, hopen⟩
  · intro u hu
    have hu : (if ((s.commitRows t).commitStatus x).exclusive = some t then none
      else ((s.commitRows t).commitStatus x).exclusive) = some u := hu
    have hkept : ((s.commitRows t).commitStatus x).exclusive = s.exclusive := by
      unfold ReportState.commitStatus
      split <;> rfl
    rw [hkept, hholder, if_pos rfl] at hu
    cases hu
  · intro u
    have hkept : (((s.commitRows t).commitStatus x).close t).txns =
        Function.update s.txns t .closed := by
      unfold ReportState.commitStatus
      split <;> rfl
    have hnothing : ∀ u, HoldsNothing ((s.commitRows t).close t) u →
        HoldsNothing (((s.commitRows t).commitStatus x).close t) u := by
      intro u h
      unfold ReportState.commitStatus
      split
      · exact ⟨h.candidates, h.links, h.sources⟩
      · exact h
    rw [hkept]
    by_cases hu : u = t
    · subst hu
      rw [update_self]
      exact hnothing _ holdsNothing_commit
    · have hclosed := hinv.closed_of_exclusive hholder hu
      have hold := hinv.txns u
      rw [hclosed] at hold
      rw [update_of_ne hu, hclosed]
      refine hnothing u ⟨?_, ?_, ?_⟩
      · exact fun id h => hold.candidates id (Cell.ownedBy_commit.mp h).1
      · exact fun id source h => hold.links id source (Cell.ownedBy_commit.mp h).1
      · exact fun source h => hold.sources source (Cell.ownedBy_commit.mp h).1

/-- An update of a row that nobody holds, and that adds no obligation. -/
theorem put {id : ℕ} {c c' : Candidate} (hcell : s.candidates id = ⟨some c, none⟩)
    (hkeeps : s.status.isFinalized = true ∨ s.exclusive ≠ none → c'.isPending (s.committed.linked ids id) = true → c.isPending (s.committed.linked ids id) = true) :
    LifecycleInv ids (s.setCandidate id ⟨some c', none⟩) := by
  have hnot : ∀ u, ¬ (s.candidates id).OwnedBy u := by
    rintro u ⟨w, hw⟩
    rw [hcell] at hw
    cases hw
  have hnot' : ∀ u, ¬ ((s.setCandidate id ⟨some c', none⟩).candidates id).OwnedBy u := by
    rintro u ⟨w, hw⟩
    simp [ReportState.setCandidate] at hw
  have howned : ∀ u i, ((s.setCandidate id ⟨some c', none⟩).candidates i).OwnedBy u ↔
      (s.candidates i).OwnedBy u := by
    intro u i
    by_cases hi : i = id
    · subst hi
      exact iff_of_false (hnot' u) (hnot u)
    · simp [ReportState.setCandidate, hi]
  -- What a snapshot shows after the update, when it showed the committed row.
  have hnone : ∀ v v' : Snapshot, v.candidates id = some c → v.links = s.committed.links →
      v'.links = v.links → v'.candidates = Function.update v.candidates id (some c') →
      (s.status.isFinalized = true ∨ s.exclusive ≠ none) → v.NonePending ids →
      v'.NonePending ids := by
    intro v v' hcand hlinks hlinks' hcands hwhen hpending i hi d hd
    have hlinked : ∀ j, v'.linked ids j = v.linked ids j := by
      intro j
      unfold Snapshot.linked
      rw [hlinks']
    have hcommitted : v.linked ids id = s.committed.linked ids id := by
      unfold Snapshot.linked
      rw [hlinks]
    rw [hlinked]
    rw [hcands] at hd
    by_cases hii : i = id
    · subst hii
      rw [update_self] at hd
      obtain rfl : c' = d := Option.some.inj hd
      have hold := hpending i hi c hcand
      rw [hcommitted] at hold ⊢
      cases h : c'.isPending (s.committed.linked ids i) with
      | false => rfl
      | true =>
        rw [hkeeps hwhen h] at hold
        cases hold
    · rw [update_of_ne hii] at hd
      exact hpending i hi d hd
  have hcandidates : ∀ f : Cell Tid Candidate → Option Candidate, f ⟨some c', none⟩ = some c' →
      (fun i => f ((s.setCandidate id ⟨some c', none⟩).candidates i)) =
        Function.update (fun i => f (s.candidates i)) id (some c') := by
    intro f hf
    funext i
    by_cases hi : i = id
    · subst hi
      simp [ReportState.setCandidate, hf]
    · simp [ReportState.setCandidate, hi]
  refine ⟨?_, hinv.alone, ?_⟩
  · intro hfinal
    obtain ⟨hpending, hopen⟩ := hinv.complete hfinal
    refine ⟨?_, hopen⟩
    refine hnone s.committed _ ?_ rfl rfl (hcandidates Cell.current rfl) (Or.inl hfinal) hpending
    change (s.candidates id).current = some c
    rw [hcell]
  · intro u
    have hold := hinv.txns u
    change TxnInv ids _ u (s.txns u)
    cases hx : s.txns u with
    | closed =>
      rw [hx] at hold
      exact ⟨fun i => mt (howned u i).mp (hold.candidates i), hold.links, hold.sources⟩
    | source reportFinalized =>
      rw [hx] at hold
      exact ⟨hold.shared, hold.unfinished, fun i => mt (howned u i).mp (hold.candidates i),
        hold.links, hold.moves⟩
    | reconcile reportFinalized before checked =>
      rw [hx] at hold
      refine ⟨hold.shared, hold.unfinished, hold.obligations, ?_, ?_, hold.sources, ?_⟩
      · intro hc hf i hi hown d hd
        have hne : i ≠ id := by
          rintro rfl
          exact hnot' u hown
        have hd : d ∈ (s.view u).candidates i := by
          simpa [ReportState.view, ReportState.setCandidate, hne] using hd
        exact hold.clear hc hf i hi ((howned u i).mp hown) d hd
      · intro i source hlink hsome
        exact (howned u i).mpr (hold.links i source hlink hsome)
      · intro hf hb
        obtain ⟨hnoRows, hnoLinks⟩ := hold.untouched hf hb
        exact ⟨fun i => mt (howned u i).mp (hnoRows i), hnoLinks⟩
    | exclusive x =>
      rw [hx] at hold
      have hwhen : s.exclusive ≠ none := by
        rw [hold.holder]
        exact Option.some_ne_none u
      have hcand : (s.view u).candidates id = some c := by
        change (s.candidates id).view u = some c
        rw [hcell]
        rfl
      have hlinks : (s.view u).links = s.committed.links := by
        funext i source
        exact Cell.view_of_not_owned (hold.links i source)
      have hpending : (s.view u).NonePending ids →
          ((s.setCandidate id ⟨some c', none⟩).view u).NonePending ids :=
        hnone (s.view u) _ hcand hlinks rfl (hcandidates (Cell.view u) rfl) (Or.inr hwhen)
      refine ⟨hold.holder, fun hr i => mt (howned u i).mp (hold.candidates hr i), hold.links,
        hold.sources, fun h => hpending (hold.pendingRead h), hold.sourcesRead, ?_⟩
      intro status covered hw hfinal
      obtain ⟨hnonePending, hopen⟩ := hold.write status covered hw hfinal
      exact ⟨hpending hnonePending, hopen⟩

end

section

variable (hinv : LifecycleInv ids s)

include hinv

/-- The reads and the status write of a transaction under `FOR UPDATE`. -/
theorem setExclusive {x x' : Exclusive} (htxn : s.txns t = .exclusive x)
    (hrefresh : x'.refresh = x.refresh)
    (hpending : x'.pendingRead = some true → (s.view t).NonePending ids)
    (hread : ∀ l, x'.sourcesRead = some l → ∀ source ∈ s.committed.openSources ids, source ∈ l)
    (hwrite : ∀ status covered, x'.write = some (status, covered) → status.isFinalized = true →
      (s.view t).NonePending ids ∧ ∀ source ∈ s.committed.openSources ids, source ∈ covered) :
    LifecycleInv ids (s.setTxn t (.exclusive x')) := by
  have hown := hinv.txns t
  rw [htxn] at hown
  refine hinv.setTxn ⟨hown.holder, ?_, hown.links, hown.sources, hpending, hread, hwrite⟩
  rw [hrefresh]
  exact hown.candidates

/-- Under `FOR UPDATE` a transaction sees the committed sources. -/
theorem openSources_view {x : Exclusive} (htxn : s.txns t = .exclusive x) :
    (s.view t).openSources ids = s.committed.openSources ids := by
  have hown := hinv.txns t
  rw [htxn] at hown
  refine openSources_congr ?_
  funext source
  exact Cell.view_of_not_owned (hown.sources source)

theorem finalize {pendingRead : Option Bool} {sources : List ℕ} {sourceOverride : Bool}
    (htxn : s.txns t = .exclusive ⟨false, pendingRead, some sources, none⟩)
    (hpending : (s.view t).pendingIds ids = [])
    (hopen : sourceOverride = true ∨ (s.view t).openSources ids = []) :
    LifecycleInv ids (s.setTxn t (.exclusive ⟨false, pendingRead, some sources,
      some (.ready, if sourceOverride then sources else [])⟩)) := by
  have hown := hinv.txns t
  rw [htxn] at hown
  refine hinv.setExclusive htxn rfl hown.pendingRead hown.sourcesRead ?_
  intro status covered hwrite _
  obtain ⟨rfl, rfl⟩ := Prod.mk.inj (Option.some.inj hwrite)
  refine ⟨pendingIds_eq_nil.mp hpending, ?_⟩
  rw [hinv.openSources_view htxn] at hopen
  intro source hsource
  rcases hopen with rfl | hnone
  · exact hown.sourcesRead sources rfl source hsource
  · rw [hnone] at hsource
    cases hsource

theorem restore {refresh nonePending : Bool} {sources : List ℕ} {status : AnalysisStatus}
    (htxn : s.txns t = .exclusive ⟨refresh, some nonePending, some sources, none⟩) :
    LifecycleInv ids (s.setTxn t (.exclusive ⟨refresh, some nonePending, some sources,
      some (if status.isFinalized && !(nonePending && sources.isEmpty) then .reviewRequired
        else status, [])⟩)) := by
  have hown := hinv.txns t
  rw [htxn] at hown
  refine hinv.setExclusive htxn rfl hown.pendingRead hown.sourcesRead ?_
  intro target covered hwrite hfinal
  obtain ⟨rfl, rfl⟩ := Prod.mk.inj (Option.some.inj hwrite)
  split at hfinal
  · cases hfinal
  · next hclear =>
    -- A finalized status stands only over reads that found no obligation.
    have hnone : nonePending = true ∧ sources = [] := by
      simpa [hfinal] using hclear
    obtain ⟨rfl, rfl⟩ := hnone
    exact ⟨hown.pendingRead rfl, hown.sourcesRead [] rfl⟩

/-- The comparison of the obligations before and after. -/
theorem checkAfter {before : List ℕ} (htxn : s.txns t = .reconcile true (some before) false)
    (hnew : ∀ id ∈ (s.view t).pendingIds ids, id ∈ before) :
    LifecycleInv ids (s.setTxn t (.reconcile true (some before) true)) := by
  have hown := hinv.txns t
  rw [htxn] at hown
  refine hinv.setTxn ⟨hown.shared, hown.unfinished, hown.obligations, ?_, hown.links, hown.sources,
    by simp⟩
  intro _ hfinal id hid _ c hc
  have hnone : (s.view t).pendingIds ids = [] := by
    rw [hown.obligations before rfl hfinal] at hnew
    exact List.eq_nil_iff_forall_not_mem.mpr fun id hid => List.not_mem_nil (hnew id hid)
  exact pendingIds_eq_nil.mp hnone id hid c hc

/-- Before its writes a mutation sees the committed obligations. -/
theorem readBefore (htxn : s.txns t = .reconcile true none false) :
    LifecycleInv ids (s.setTxn t (.reconcile true (some ((s.view t).pendingIds ids)) false)) := by
  have hown := hinv.txns t
  rw [htxn] at hown
  obtain ⟨hnoRows, hnoLinks⟩ := hown.untouched rfl rfl
  refine hinv.setTxn ⟨hown.shared, hown.unfinished, ?_, (by simp), hown.links, hown.sources,
    by simp⟩
  intro b hb hfinal
  cases hb
  have hrows : (s.view t).candidates = s.committed.candidates := by
    funext id
    exact Cell.view_of_not_owned (hnoRows id)
  have hlinks : (s.view t).links = s.committed.links := by
    funext id source
    exact Cell.view_of_not_owned (hnoLinks id source)
  have hpending := (hinv.complete hfinal).1
  refine pendingIds_eq_nil.mpr ?_
  unfold Snapshot.NonePending Snapshot.linked at *
  rwa [hrows, hlinks]

end

end LifecycleInv

end TalonHound.ReportLifecycle
