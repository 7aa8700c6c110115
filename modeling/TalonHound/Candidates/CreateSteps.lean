import TalonHound.Candidates.CreateSound

/-!
# The steps of Create IOCs

As long as no review action, reconcile call or recorded link takes the eligibility of a candidate that
a run is yet to create, every copy stays sound, and what is created is eligible.
-/

namespace TalonHound.Candidates

open List

variable {stored : StorageIdentity → StorageIdentity} {s s' : ReviewState} {x y : CreateRun}
  {report : Report} {c : LoadedRow} {rest : List LoadedRow} {k : StorageIdentity}
  {i j reportId : ℕ} {a : ReviewAction} {outcome : PromotionOutcome} {ioc : Option (ℕ × String)}

namespace ReviewState

/-- A run is yet to create the candidate, which is eligible in the table. -/
def awaits (s : ReviewState) (reportId id : ℕ) : Bool :=
  (s.reports reportId).isEligible id &&
    s.runs.any fun x => x.reportId = reportId && x.awaited.any fun c => c.row.id = id

/-- No step takes the eligibility of a candidate that a run is yet to create: no action marks it as
ignored or as Context Only, a reconcile call leaves it eligible, and no other run records the match
that its copy has for it. -/
def SparesAwaited (s : ReviewState) : ReviewAction → Prop
  | .advance i .visit => ∀ x ∈ s.runs[i]?, ∀ c ∈ x.queue.head?, c.storedMatch.isSome = true →
      s.awaits x.reportId c.row.id = false
  | .changeStatus reportId ids action => action = .approve ∨
      ∀ id ∈ ids, s.awaits reportId id = false
  | .reconcile reportId call => ∀ x ∈ s.runs, ∀ c ∈ x.awaited,
      s.awaits reportId c.row.id = true →
        (reconcileReportCandidates (s.reports reportId) call).isEligible c.row.id = true
  | _ => True

instance (s : ReviewState) (a : ReviewAction) : Decidable (s.SparesAwaited a) := by
  cases a with
  | advance i step => cases step <;> unfold SparesAwaited <;> infer_instance
  | _ => unfold SparesAwaited; infer_instance

theorem awaits_of (hx : x ∈ s.runs) (hc : c ∈ x.awaited) (hid : x.reportId = reportId)
    (heligible : (s.reports reportId).isEligible c.row.id = true) :
    s.awaits reportId c.row.id = true := by
  unfold awaits
  rw [heligible, Bool.true_and, any_eq_true]
  refine ⟨x, hx, ?_⟩
  rw [decide_eq_true hid, Bool.true_and, any_eq_true]
  exact ⟨c, hc, decide_eq_true rfl⟩

theorem isEligible_of_awaits {id : ℕ} (h : s.awaits reportId id = true) :
    (s.reports reportId).isEligible id = true := by
  exact (Bool.and_eq_true _ _ ▸ h).1

end ReviewState

/-- The copies of all runs are sound, and what has been created was eligible. -/
structure ReviewInv (stored : StorageIdentity → StorageIdentity) (s : ReviewState) : Prop where
  wellFormed : ∀ reportId, (s.reports reportId).WellFormed
  exclusive : s.Exclusive
  sound : ∀ x ∈ s.runs, x.Sound stored s
  eligible : ∀ x ∈ s.creations, x.eligible = true

namespace ReviewInv

section

variable (h : ReviewInv stored s)
include h

/-- A run goes on. -/
theorem setRun (locks : List ℕ) (hexclusive : ({ s with locks := locks }.setRun i y).Exclusive)
    (hy : y.Sound stored s) :
    ReviewInv stored ({ s with locks := locks }.setRun i y) where
  wellFormed := h.wellFormed
  exclusive := hexclusive
  sound := by
    intro z hz
    have hgrows : s.Grows ({ s with locks := locks }.setRun i y) := ReviewState.Grows.refl s
    rcases mem_or_eq_of_mem_set hz with hold | rfl
    · exact (h.sound z hold).of_grows rfl hgrows
    · exact hy.of_grows rfl hgrows
  eligible := h.eligible

/-- A run goes on within the loop, or before it. -/
theorem setStage (hx : s.runs[i]? = some x) (hid : y.reportId = x.reportId)
    (hholds : y.stage.holds = true → x.stage.holds = true) (hy : y.Sound stored s) :
    ReviewInv stored (s.setRun i y) := by
  refine h.setRun s.locks (h.exclusive.setRun hx hid (fun hy => ?_) ?_) hy
  · exact ⟨hholds hy, h.exclusive.locked x (mem_of_getElem? hx) (hholds hy)⟩
  · exact fun _ hlocked _ => hlocked

/-- A run starts. -/
theorem start (hholds : y.stage.holds = false) (hy : y.Sound stored s) :
    ReviewInv stored (s.start y) where
  wellFormed := h.wellFormed
  exclusive := h.exclusive.start hholds
  sound := by
    intro z hz
    have hgrows : s.Grows (s.start y) := ReviewState.Grows.refl s
    rcases mem_append.mp hz with hold | hone
    · exact (h.sound z hold).of_grows rfl hgrows
    · obtain rfl := mem_singleton.mp hone
      exact hy.of_grows rfl hgrows
  eligible := h.eligible

/-- A report changes. -/
theorem setReport (hkeeps : (s.reports reportId).KeepsIdentities report)
    (hkept : ∀ x ∈ s.runs, x.reportId = reportId → ∀ c ∈ x.awaited, (s.reports reportId).isEligible c.row.id = true → (report.isEligible c.row.id = true ∨ ∃ k, iocStorageIdentity c.row.identity = some k ∧ s.HasIoc stored k))
    (hcreating : ∀ x ∈ s.runs, x.reportId = reportId → x.stage = .creating → ∀ c ∈ x.awaited, (s.reports reportId).isEligible c.row.id = true → report.isEligible c.row.id = true) :
    ReviewInv stored (s.setReport reportId report) where
  wellFormed := by
    intro id
    unfold ReviewState.setReport
    dsimp only
    by_cases hid : id = reportId
    · subst hid
      rw [Function.update_self]
      exact hkeeps.wellFormed
    · rw [Function.update_of_ne hid]
      exact h.wellFormed id
  exclusive := h.exclusive.of_same rfl rfl
  sound := fun x hx => (h.sound x hx).setReport hkeeps (hkept x hx) (hcreating x hx)
  eligible := h.eligible

/-- A change of a report that keeps eligible what runs are yet to create. -/
theorem setReport_of_eligible (hkeeps : (s.reports reportId).KeepsIdentities report)
    (hkept : ∀ x ∈ s.runs, ∀ c ∈ x.awaited, s.awaits reportId c.row.id = true → report.isEligible c.row.id = true) :
    ReviewInv stored (s.setReport reportId report) := by
  refine h.setReport hkeeps (fun x hx hid c hc heligible => ?_)
    (fun x hx hid _ c hc heligible => ?_)
  · exact Or.inl (hkept x hx c hc (ReviewState.awaits_of hx hc hid heligible))
  · exact hkept x hx c hc (ReviewState.awaits_of hx hc hid heligible)

end

end ReviewInv

theorem Row.persistPromotion_keeps (outcome : PromotionOutcome) (ioc : Option (ℕ × String))
    (id : ℕ) (r : Row) :
    (Rows.updateWhere (fun row => row.id = id) (Row.persistPromotion outcome ioc) r).id = r.id ∧
    (Rows.updateWhere (fun row => row.id = id) (Row.persistPromotion outcome ioc) r).identity =
      r.identity := by
  have hid : ∀ r : Row, (r.persistPromotion outcome ioc).id = r.id := fun _ => rfl
  have hidentity : ∀ r : Row, (r.persistPromotion outcome ioc).identity = r.identity := fun _ => rfl
  exact ⟨Rows.updateWhere_keeps hid r, Rows.updateWhere_keeps hidentity r⟩

/-- Recording an outcome without a link, or for another row, changes no eligibility. -/
theorem Report.isEligible_persist {id id' : ℕ} (h : report.isEligible id = true)
    (hother : ioc = none ∨ id ≠ id') :
    (report.updateId id' (Row.persistPromotion outcome ioc)).isEligible id = true := by
  refine isEligible_update (fun r => (Row.persistPromotion_keeps outcome ioc id' r).1) ?_ h
  intro r hr hid hwill
  by_cases hsame : id = id'
  · obtain rfl := hother.resolve_right fun hne => hne hsame
    rw [← hwill]
    refine LoadedRow.classify_congr ?_ rfl
    unfold Rows.updateWhere
    split <;> rfl
  · have hkept : Rows.updateWhere (fun row => row.id = id') (Row.persistPromotion outcome ioc) r =
        r := Rows.updateWhere_of_not (decide_eq_false (hid ▸ hsame))
    rw [hkept]
    exact hwill

/-- An outcome is recorded for the head of the queue, without a link, with one to a record of the
identity, or for a candidate that no run awaits. -/
theorem ReviewInv.persist (h : ReviewInv stored s) (hx : s.runs[i]? = some x)
    (hqueue : x.queue = c :: rest) (hholds : x.stage.holds = true) (hstage : x.stage ≠ .creating)
    (hawaited : ∀ d ∈ (CreateRun.mk x.reportId rest .visiting).awaited, d ∈ x.awaited)
    (hioc : ioc = none ∨ s.awaits x.reportId c.row.id = false ∨
      ∃ k, iocStorageIdentity c.row.identity = some k ∧ s.HasIoc stored k) :
    ReviewInv stored (s.persist i x c rest outcome ioc) := by
  have hxmem := mem_of_getElem? hx
  have hknown := (h.sound x hxmem).known c (hqueue ▸ mem_cons_self)
  have hkeeps := (h.wellFormed x.reportId).keeps_update
    (fun r => (Row.persistPromotion_keeps outcome ioc c.row.id r).1)
    (fun r => (Row.persistPromotion_keeps outcome ioc c.row.id r).2)
  have hreport : ReviewInv stored (s.setReport x.reportId
      ((s.reports x.reportId).updateId c.row.id (Row.persistPromotion outcome ioc))) := by
    refine h.setReport hkeeps (fun y hy hid d hd heligible => ?_)
      (fun y hy hid hcreating d hd heligible => ?_)
    · by_cases hother : ioc = none ∨ d.row.id ≠ c.row.id
      · exact Or.inl (Report.isEligible_persist heligible hother)
      · rw [not_or, not_not] at hother
        rcases hioc.resolve_left hother.1 with hfree | ⟨k, hk, hhas⟩
        · have hawaits := ReviewState.awaits_of hy hd hid heligible
          rw [hother.2, hfree] at hawaits
          cases hawaits
        · -- The two copies are of one row, so the record is of the identity of both.
          obtain ⟨r, hr, hrid, -⟩ := Report.isEligible_iff.mp heligible
          have hknown' := (h.sound y hy).known d (CreateRun.mem_queue_of_awaited hd)
          rw [hid] at hknown'
          have hsame : d.row.identity = c.row.identity :=
            (hknown'.2 r hr hrid).symm.trans (hknown.2 r hr (hrid.trans hother.2))
          exact Or.inr ⟨k, hsame ▸ hk, hhas⟩
    · -- The lock keeps other runs of the report out of the loop.
      obtain ⟨j, hj⟩ := mem_iff_getElem?.mp hy
      have hyholds : y.stage.holds = true := by
        rw [hcreating]
        rfl
      obtain rfl := h.exclusive.alone j i y x hj hx hyholds hholds hid
      rw [hj] at hx
      cases hx
      exact absurd hcreating hstage
  refine hreport.setStage hx rfl (fun _ => hholds) ?_
  refine (hreport.sound x hxmem).of_subset rfl (fun d hd => ?_) hawaited Stage.noConfusion
    (fun _ _ => Stage.noConfusion)
  rw [hqueue]
  exact mem_cons_of_mem _ hd

theorem CreateRun.mem_awaited_of_tail (hc : c ∈ x.queue.tail)
    (hwill : c.classifyCreateEligibility = .willCreate) : c ∈ x.awaited := by
  refine mem_filter.mpr ⟨?_, decide_eq_true hwill⟩
  unfold remaining
  split
  · exact hc
  · exact hc
  · exact mem_of_mem_tail hc

/-- In the loop, what is left after the head is awaited. -/
theorem CreateRun.awaited_rest (hqueue : x.queue = c :: rest) :
    ∀ d ∈ (CreateRun.mk x.reportId rest .visiting).awaited, d ∈ x.awaited := by
  intro d hd
  obtain ⟨hmem, hwill⟩ := mem_filter.mp hd
  refine mem_awaited_of_tail ?_ (of_decide_eq_true hwill)
  rw [hqueue]
  exact hmem

/-- The outcome of the head is about to be recorded. -/
theorem CreateRun.Sound.settle (h : x.Sound stored s)
    (hioc : ∀ link ∈ ioc, ∀ c ∈ x.queue.head?,
      ∃ k, iocStorageIdentity c.row.identity = some k ∧ s.HasIoc stored k) :
    ({ x with stage := .settling outcome ioc } : CreateRun).Sound stored s where
  known := h.known
  kept := by
    intro c hc
    obtain ⟨hmem, hwill⟩ := mem_filter.mp hc
    exact h.kept c (CreateRun.mem_awaited_of_tail hmem (of_decide_eq_true hwill))
  creating := fun hstage => Stage.noConfusion hstage
  settling := by
    intro outcome' link hstage c hc
    obtain ⟨-, hlink⟩ := Stage.settling.inj hstage
    exact hioc link hlink c hc

theorem CreateOutcome.recorded_eq_none {o : CreateOutcome} (h : o.recorded = none) :
    o = .willCreate := by
  cases o <;> first | rfl | cases h

theorem CreateRun.loadedRun_keeps (reportId : ℕ) (queue : List LoadedRow) :
    (ReviewState.loadedRun reportId queue).reportId = reportId ∧
      (ReviewState.loadedRun reportId queue).stage.holds = false := by
  unfold ReviewState.loadedRun
  split <;> exact ⟨rfl, rfl⟩

variable {r : Row} {links : List (ℕ × ℕ)} {ids : List ℕ}

/-- A review action keeps the id and the identity of a row. -/
theorem Row.changeStatus_keeps {action : StatusAction} :
    (r.changeStatus links ids action).id = r.id ∧
      (r.changeStatus links ids action).identity = r.identity := by
  unfold changeStatus
  cases action <;> dsimp only <;> split <;> exact ⟨rfl, rfl⟩

/-- An approved row stays as it is when it is approved again. -/
theorem Row.changeStatus_approved (h : r.columns.reviewStatus = .approved) :
    r.changeStatus links ids .approve = r := by
  unfold changeStatus
  dsimp only
  split
  · rw [← h]
  · rfl

theorem Row.changeStatus_of_not_mem {action : StatusAction} (h : r.id ∉ ids) :
    r.changeStatus links ids action = r := by
  have hfalse : ids.contains r.id = false := by
    rw [← Bool.not_eq_true, contains_iff_mem]
    exact h
  unfold changeStatus
  cases action <;> dsimp only <;> rw [hfalse] <;> rfl

namespace ReviewInv

/-- The second search, or an error. -/
theorem settle (h : ReviewInv stored s) (hx : s.runs[i]? = some x)
    (hholds : x.stage.holds = true)
    (hioc : ∀ link ∈ ioc, ∀ c ∈ x.queue.head?,
      ∃ k, iocStorageIdentity c.row.identity = some k ∧ s.HasIoc stored k) :
    ReviewInv stored (s.setRun i { x with stage := .settling outcome ioc }) :=
  h.setStage hx rfl (fun _ => hholds) ((h.sound x (mem_of_getElem? hx)).settle hioc)

/-- A search that finds a record links to it. -/
theorem hasIoc_of_found {item : IocItem} (hqueue : x.queue = c :: rest)
    (hk : iocStorageIdentity c.row.identity = some k) (hfound : s.findExisting k = some item) :
    ∀ link ∈ some (item.link k), ∀ c ∈ x.queue.head?,
      ∃ k, iocStorageIdentity c.row.identity = some k ∧ s.HasIoc stored k := by
  intro _ _ d hd
  rw [hqueue] at hd
  cases hd
  exact ⟨k, hk, Or.inl (hfound ▸ rfl)⟩

section

variable (h : ReviewInv stored s)

include h

theorem visit (hx : s.runs[i]? = some x) (hstage : x.stage = .visiting)
    (hqueue : x.queue = c :: rest)
    (hguard : c.storedMatch.isSome = true → s.awaits x.reportId c.row.id = false)
    (hstep : visitStep s i x c rest = some s') : ReviewInv stored s' := by
  have hholds : x.stage.holds = true := by
    rw [hstage]
    rfl
  have hsound := h.sound x (mem_of_getElem? hx)
  unfold visitStep at hstep
  split at hstep
  · next outcome hrecorded =>
    cases hstep
    refine h.persist hx hqueue hholds (by rw [hstage]; exact Stage.noConfusion)
      (CreateRun.awaited_rest hqueue) ?_
    cases hmatch : c.storedMatch with
    | none => exact Or.inl rfl
    | some link => exact Or.inr (Or.inl (hguard (hmatch ▸ rfl)))
  · next hrecorded =>
    have hwill := CreateOutcome.recorded_eq_none hrecorded
    obtain ⟨k, hk, rfl⟩ := Option.map_eq_some_iff.mp hstep
    split
    · next item hfound => exact h.settle hx hholds (hasIoc_of_found hqueue hk hfound)
    · next hmissing =>
      -- Nothing is found, so the candidate is eligible or the source has what would be stored.
      have hawaited : c ∈ x.awaited := by
        unfold CreateRun.awaited CreateRun.remaining
        rw [hstage, hqueue]
        exact mem_filter.mpr ⟨mem_cons_self, decide_eq_true hwill⟩
      have hkept : s.KeptBySource stored x.reportId c := by
        rcases hsound.kept c hawaited with heligible | ⟨k', hk', hfound | hlibrary⟩
        · exact Or.inl heligible
        · obtain rfl := Option.some.inj (hk.symm.trans hk')
          rw [hmissing] at hfound
          cases hfound
        · exact Or.inr ⟨k', hk', hlibrary⟩
      refine h.setStage hx rfl (fun _ => hholds) ⟨hsound.known, fun d hd => ?_, ?_, ?_⟩
      · refine hsound.kept d ?_
        unfold CreateRun.awaited CreateRun.remaining at hd ⊢
        rw [hstage]
        exact hd
      · intro _ d hd
        rw [hqueue] at hd
        cases hd
        exact ⟨hwill, hkept⟩
      · exact fun _ _ hfalse => Stage.noConfusion hfalse

/-- The candidate of a new record is eligible. -/
theorem insertIoc (heligible : (s.reports x.reportId).isEligible c.row.id = true) :
    ReviewInv stored (s.insertIoc x c k (stored k)) where
  wellFormed := h.wellFormed
  exclusive := h.exclusive.of_same rfl rfl
  sound := fun z hz => (h.sound z hz).of_grows rfl ⟨_, rfl⟩
  eligible := by
    intro z hz
    rcases mem_append.mp hz with hold | hone
    · exact h.eligible z hold
    · obtain rfl := mem_singleton.mp hone
      exact heligible

section

variable (hx : s.runs[i]? = some x)
include hx

theorem create (hstage : x.stage = .creating) (hqueue : x.queue = c :: rest)
    (hstep : createStep stored s i x c = some s') :
    ReviewInv stored s' := by
  have hholds : x.stage.holds = true := by
    rw [hstage]
    rfl
  have hsound := h.sound x (mem_of_getElem? hx)
  obtain ⟨k, hk, rfl⟩ := Option.map_eq_some_iff.mp hstep
  split
  · refine h.setStage hx rfl (fun _ => hholds) (hsound.of_subset rfl (fun _ hd => hd)
      (fun d hd => ?_) Stage.noConfusion fun _ _ => Stage.noConfusion)
    obtain ⟨hmem, hwill⟩ := mem_filter.mp hd
    exact CreateRun.mem_awaited_of_tail hmem (of_decide_eq_true hwill)
  · next hnew =>
    have heligible : (s.reports x.reportId).isEligible c.row.id = true := by
      rcases (hsound.creating hstage c (hqueue ▸ rfl)).2 with heligible | ⟨k', hk', hlibrary⟩
      · exact heligible
      · obtain rfl := Option.some.inj (hk.symm.trans hk')
        exact absurd hlibrary hnew
    refine (h.insertIoc (k := k) heligible).settle hx hholds fun _ _ d hd => ?_
    rw [hqueue] at hd
    cases hd
    refine ⟨k, hk, Or.inr ?_⟩
    unfold ReviewState.libraryHas ReviewState.insertIoc
    rw [any_append, any_cons, decide_eq_true rfl, Bool.and_self, Bool.true_or, Bool.or_true]

theorem retry (hstage : x.stage = .duplicate) (hqueue : x.queue = c :: rest)
    (hstep : retryStep s i x c = some s') : ReviewInv stored s' := by
  have hholds : x.stage.holds = true := by
    rw [hstage]
    rfl
  obtain ⟨k, hk, rfl⟩ := Option.map_eq_some_iff.mp hstep
  split
  · next item hfound => exact h.settle hx hholds (hasIoc_of_found hqueue hk hfound)
  · exact h.settle hx hholds fun link hlink => absurd hlink (Option.not_mem_none link)

/-- The run ends and gives its lock back. -/
theorem leave {locks : List ℕ}
    (hlocks : ∀ reportId ∈ s.locks, (x.stage.holds = true → reportId ≠ x.reportId) → reportId ∈ locks) :
    ReviewInv stored ({ s with locks := locks }.setRun i ⟨x.reportId, [], .done⟩) :=
  h.setRun _ (h.exclusive.setRun hx rfl (fun hfalse => Bool.noConfusion hfalse) hlocks)
    (CreateRun.Sound.of_nil rfl)

/-- A run takes a step. -/
theorem advance {step : RunStep} (hguard : s.SparesAwaited (.advance i step))
    (hstep : TalonHound.Candidates.advance stored s i x step = some s') : ReviewInv stored s' := by
  have hsound := h.sound x (mem_of_getElem? hx)
  unfold TalonHound.Candidates.advance at hstep
  cases step with
  | confirm =>
    dsimp only at hstep
    split at hstep
    · next lines hstage =>
      have hawaited : ∀ stage, Stage.holds stage = false →
          ∀ d ∈ ({ x with stage := stage } : CreateRun).awaited, d ∈ x.awaited := by
        intro stage hfree d hd
        unfold CreateRun.awaited CreateRun.remaining at hd ⊢
        rw [hstage]
        cases stage <;> first | exact hd | cases hfree
      split at hstep
      · cases hstep
        exact h.setStage hx rfl (fun hfalse => Bool.noConfusion hfalse)
          (hsound.of_subset rfl (fun _ hd => hd) (hawaited _ rfl) Stage.noConfusion
            fun _ _ => Stage.noConfusion)
      · cases hstep
        exact h.setStage hx rfl (fun hfalse => Bool.noConfusion hfalse)
          (hsound.of_subset rfl (fun _ hd => hd) (hawaited _ rfl) Stage.noConfusion
            fun _ _ => Stage.noConfusion)
    · cases hstep
  | reload =>
    dsimp only at hstep
    split at hstep
    · cases hstep
      obtain ⟨hid, hholds⟩ := CreateRun.loadedRun_keeps x.reportId _
      refine h.setStage hx hid (fun hfalse => ?_)
        (CreateRun.Sound.loadedRun (h.wellFormed x.reportId) rfl)
      rw [hholds] at hfalse
      cases hfalse
    · cases hstep
  | lock =>
    dsimp only at hstep
    split at hstep
    · cases hstep
    · next hloaded =>
      rw [not_not] at hloaded
      split at hstep
      · cases hstep
        exact h.leave hx fun _ hlocked _ => hlocked
      · next hfree =>
        cases hstep
        rw [contains_iff_mem] at hfree
        refine h.setRun _ (h.exclusive.acquire hfree rfl) (hsound.of_subset rfl (fun _ hd => hd)
          (fun d hd => ?_) Stage.noConfusion fun _ _ => Stage.noConfusion)
        unfold CreateRun.awaited CreateRun.remaining at hd ⊢
        rw [hloaded]
        exact hd
  | visit =>
    dsimp only at hstep
    split at hstep
    · next c rest hstage hqueue =>
      exact h.visit hx hstage hqueue (hguard x hx c (hqueue ▸ rfl)) hstep
    · cases hstep
  | create =>
    dsimp only at hstep
    split at hstep
    · next c rest hstage hqueue => exact h.create hx hstage hqueue hstep
    · cases hstep
  | retry =>
    dsimp only at hstep
    split at hstep
    · next c rest hstage hqueue => exact h.retry hx hstage hqueue hstep
    · cases hstep
  | fail =>
    have hfail : x.stage.holds = true →
        ReviewInv stored (s.setRun i { x with stage := .settling .failed none }) :=
      fun hholds => h.settle hx hholds fun link hlink => absurd hlink (Option.not_mem_none link)
    dsimp only at hstep
    split at hstep
    · next hstage =>
      cases hstep
      exact hfail (by rw [hstage]; rfl)
    · next hstage =>
      cases hstep
      exact hfail (by rw [hstage]; rfl)
    · next hstage =>
      cases hstep
      exact hfail (by rw [hstage]; rfl)
    · cases hstep
  | skip =>
    dsimp only at hstep
    split at hstep
    · next c rest hstage hqueue =>
      cases hstep
      refine h.setStage hx rfl (fun _ => by rw [hstage]; rfl) (hsound.of_subset rfl
        (fun d hd => ?_) (CreateRun.awaited_rest hqueue) Stage.noConfusion
        fun _ _ => Stage.noConfusion)
      rw [hqueue]
      exact mem_cons_of_mem _ hd
    · cases hstep
  | settle =>
    dsimp only at hstep
    split at hstep
    · next outcome ioc c rest hstage hqueue =>
      cases hstep
      refine h.persist hx hqueue (by rw [hstage]; rfl) (by rw [hstage]; exact Stage.noConfusion)
        (CreateRun.awaited_rest hqueue) ?_
      cases ioc with
      | none => exact Or.inl rfl
      | some link =>
        exact Or.inr (Or.inr (hsound.settling outcome link hstage c (hqueue ▸ rfl)))
    · cases hstep
  | release =>
    dsimp only at hstep
    split at hstep
    · next hstage hqueue =>
      cases hstep
      refine h.leave hx fun reportId hlocked hother => ?_
      exact (mem_erase_of_ne (hother (by rw [hstage]; rfl))).mpr hlocked
    · cases hstep
  | crash =>
    cases hstep
    refine h.leave hx fun reportId hlocked hother => ?_
    split
    · next hholds => exact (mem_erase_of_ne (hother hholds)).mpr hlocked
    · exact hlocked

end

/-- Every step that spares what is awaited keeps the invariant. -/
theorem step (hguard : s.SparesAwaited a) (hstep : reviewStep stored s a = some s') :
    ReviewInv stored s' := by
  cases a with
  | load reportId ids =>
    cases hstep
    exact h.start (CreateRun.loadedRun_keeps reportId _).2
      (CreateRun.Sound.loadedRun (h.wellFormed reportId) rfl)
  | select reportId filters excludedIds =>
    cases hstep
    exact h.start rfl (CreateRun.Sound.of_nil rfl)
  | promote reportId id promotedFrom =>
    cases hstep
    have hid : ∀ r : Row, (r.promote promotedFrom).id = r.id := fun _ => rfl
    have hidentity : ∀ r : Row, (r.promote promotedFrom).identity = r.identity := fun _ => rfl
    have hkeeps := (h.wellFormed reportId).keeps_update
      (f := Rows.updateWhere (fun row => row.id = id) (Row.promote promotedFrom))
      (Rows.updateWhere_keeps hid) (Rows.updateWhere_keeps hidentity)
    have hreport : ReviewInv stored (s.setReport reportId
        ((s.reports reportId).updateId id (Row.promote promotedFrom))) := by
      refine h.setReport_of_eligible hkeeps fun x hx c hc hawaits => ?_
      refine Report.isEligible_update (Rows.updateWhere_keeps hid) (fun r hr hrid hwill => ?_)
        (ReviewState.isEligible_of_awaits hawaits)
      unfold Rows.updateWhere
      split
      · exact LoadedRow.willCreate_promote hwill promotedFrom
      · exact hwill
    exact hreport.start (CreateRun.loadedRun_keeps reportId _).2
      (CreateRun.Sound.loadedRun (hreport.wellFormed reportId) (Function.update_self _ _ _))
  | advance i step =>
    obtain ⟨x, hx, hstep⟩ := Option.bind_eq_some_iff.mp hstep
    exact h.advance hx hguard hstep
  | changeStatus reportId ids action =>
    cases hstep
    have hid : ∀ r : Row, (r.changeStatus (s.reports reportId).links ids action).id = r.id :=
      fun r => Row.changeStatus_keeps.1
    refine h.setReport_of_eligible ((h.wellFormed reportId).keeps_update hid
      fun r => Row.changeStatus_keeps.2) fun x hx c hc hawaits => ?_
    refine Report.isEligible_update hid (fun r hr hrid hwill => ?_)
      (ReviewState.isEligible_of_awaits hawaits)
    have hsame : r.changeStatus (s.reports reportId).links ids action = r := by
      rcases hguard with rfl | hspared
      · exact Row.changeStatus_approved (LoadedRow.approved_of_willCreate hwill).1
      · refine Row.changeStatus_of_not_mem fun hmem => ?_
        rw [hrid] at hmem
        rw [hspared _ hmem] at hawaits
        cases hawaits
    rw [hsame]
    exact hwill
  | reconcile reportId call =>
    cases hstep
    exact h.setReport_of_eligible ((h.wellFormed reportId).keeps_reconcile call) hguard

end

end ReviewInv

end TalonHound.Candidates
