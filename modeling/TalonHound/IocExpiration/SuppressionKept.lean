import TalonHound.IocExpiration.SharedImport

/-!
# Suppressions beside an import

While the index of the run is current for the IOCs that the run recomputes, no step takes a row
out of `suppressed` against a committed suppression, and no recomputed row stays there without
one. An index that is older than a suppression undoes it.
-/

namespace TalonHound.IocExpiration

open TalonHound.FileArtifacts (ScopedSuppression)
open Option

section Recompute

variable {isIocSuppressed : String → String → Bool} {now : ℤ} {t : IocTables} {key : ItemKey}
  {ioc : IocItem}

/-- What a recomputation with the answer `answer` for its seed does to the status of a row. -/
inductive StatusChange (answer : Bool) (seed : IocItem) (i i' : IocItem) : Prop
  | kept (hstatus : i'.status = i.status)
      (hseed : answer = false → i.key = seed.key → i.status ≠ .suppressed)
  | suppressed (hanswer : answer = true) (hkey : i.key = seed.key)
      (hstatus : i'.status = .suppressed)
  | settled (hanswer : answer = false) (hobserved : i.observed = seed.observed)
      (hstatus : i'.status ≠ .suppressed)

theorem manualNextStatus_ne (now : ℤ) (ioc : IocItem) : manualNextStatus now ioc ≠ .suppressed := by
  unfold manualNextStatus
  split
  · decide
  · cases ioc.manualStatus.getD .active <;> decide

theorem foldStatus_ne (memberships : List Membership) : foldStatus memberships ≠ .suppressed := by
  unfold foldStatus
  split <;> decide

/-- Every row after a recomputation was there before, with the value and type it has. -/
theorem recompute_status (hioc : t.item? key = some ioc) {k : ItemKey} {i' : IocItem}
    (hi' : (recomputeIocGlobalStatus isIocSuppressed now t key).2.item? k = some i') :
    ∃ i, t.item? k = some i ∧ i'.observed = i.observed ∧
      StatusChange (isIocSuppressed ioc.observable ioc.observableType) ioc i i' := by
  obtain ⟨-, hkey⟩ := IocTables.mem_of_item? hioc
  have hseed : ∀ {i}, t.item? k = some i → i.key = ioc.key → i = ioc := by
    intro i hi hsame
    obtain ⟨-, hik⟩ := IocTables.mem_of_item? hi
    rw [← hik, hsame, hkey, hioc, Option.some.injEq] at hi
    exact hi.symm
  unfold recomputeIocGlobalStatus at hi'
  simp only [hioc] at hi'
  split at hi'
  · next hanswer =>
    split at hi'
    · exact ⟨i', hi', rfl, .kept rfl fun hno => absurd hanswer (by rw [hno]; exact Bool.false_ne_true)⟩
    · rw [IocTables.item?_updateItem] at hi'
      obtain ⟨i, hi, rfl⟩ := map_eq_some_iff.mp hi'
      refine ⟨i, hi, ?_, ?_⟩
      · split <;> rfl
      · split
        · next hrow => exact .suppressed hanswer (hrow.trans hkey.symm) rfl
        · exact .kept rfl fun hno => absurd hanswer (by rw [hno]; exact Bool.false_ne_true)
  · next hanswer =>
    rw [Bool.not_eq_true] at hanswer
    split at hi'
    · next hdisabled =>
      refine ⟨i', hi', rfl, .kept rfl fun _ hsame => ?_⟩
      rw [hseed hi' hsame, hdisabled]
      decide
    · split at hi'
      · split at hi'
        · next hsettled =>
          -- a settled manual row has the status of its override
          refine ⟨i', hi', rfl, .kept rfl fun _ hsame => ?_⟩
          have hstatus : ioc.status = manualNextStatus now ioc := (of_decide_eq_true hsettled).1
          rw [hseed hi' hsame, hstatus]
          exact manualNextStatus_ne now ioc
        · rw [IocTables.item?_updateItem] at hi'
          obtain ⟨i, hi, rfl⟩ := map_eq_some_iff.mp hi'
          refine ⟨i, hi, ?_, ?_⟩
          · split <;> rfl
          · split
            · next hrow =>
              rw [hseed hi (hrow.trans hkey.symm)]
              exact .settled hanswer rfl (manualNextStatus_ne now ioc)
            · next hrow => exact .kept rfl fun _ hsame => absurd (hsame.trans hkey) hrow
      · unfold recomputeFold at hi'
        dsimp only at hi'
        split at hi'
        · next hsettled =>
          refine ⟨i', hi', rfl, .kept rfl fun _ hsame => ?_⟩
          have hstatus : ioc.status = foldStatus (t.membershipsFor ioc) :=
            (of_decide_eq_true hsettled).1
          rw [hseed hi' hsame, hstatus]
          exact foldStatus_ne _
        · rw [IocTables.item?_updateObservable] at hi'
          obtain ⟨i, hi, rfl⟩ := map_eq_some_iff.mp hi'
          refine ⟨i, hi, ?_, ?_⟩
          · split <;> rfl
          · split
            · next hrow =>
              refine .settled hanswer ?_ (foldStatus_ne _)
              unfold IocItem.observed
              rw [hrow.1, hrow.2]
            · next hrow =>
              refine .kept rfl fun _ hsame => ?_
              rw [hseed hi hsame] at hrow
              exact absurd ⟨rfl, rfl⟩ hrow

theorem recompute_of_none (hnone : t.item? key = none) :
    (recomputeIocGlobalStatus isIocSuppressed now t key).2 = t := by
  unfold recomputeIocGlobalStatus
  rw [hnone]

end Recompute

/-- What a step of the import does to the rows: it recomputes one of them, or it only adds an
active row. -/
inductive RowEffect (s : SharedState) (step : ImportStep) (run : RunState) : Prop
  | recomputed (key : ItemKey) (tables : IocTables) (hkey : step.recomputes s = some key)
      (hitems : tables.items = s.run.tables.items)
      (htables : run.tables = (recomputeIocGlobalStatus s.inIndex s.now tables key).2)
  | added (hnone : step.recomputes s = none)
      (hrows : ∀ k i, run.tables.item? k = some i → s.run.tables.item? k = some i ∨
        s.run.tables.item? k = none ∧ i.status = .active)

theorem importStep_effect {s : SharedState} {step : ImportStep} {run : RunState}
    (h : runStep s.run (step.action s) = some run) : RowEffect s step run := by
  cases step with
  | insertItem id observed =>
    simp only [ImportStep.action, runStep] at h
    split at h
    · obtain ⟨-, rfl⟩ := Run.enabled h
      refine .added rfl ?_
      intro k i hi
      unfold IocTables.item? IocTables.insertItem at hi
      rw [Rows.lookup_append_singleton] at hi
      rcases or_eq_some_iff.mp hi with hi | ⟨hnone, hi⟩
      · exact .inl hi
      · split at hi
        · cases hi
          exact .inr ⟨hnone, rfl⟩
        · cases hi
    · cases h
  | upsert policies call id key =>
    obtain ⟨ioc, hioc, hentry⟩ := bind_eq_some_iff.mp h
    obtain ⟨⟨result, tables⟩, hupsert, rfl⟩ := map_eq_some_iff.mp hentry
    have hitems := (upsertTables_frame hupsert).1
    have hrecomputes : (ImportStep.upsert policies call id key).recomputes s =
        if result.reactivated then some key.item else none := by
      unfold ImportStep.recomputes
      dsimp only
      rw [hupsert]
      rfl
    have hsame : ∀ k i, tables.item? k = some i → s.run.tables.item? k = some i := by
      intro k i hi
      unfold IocTables.item? at hi ⊢
      rw [← hitems]
      exact hi
    unfold afterUpsert
    dsimp only
    split
    · next hreactivated =>
      rw [if_pos hreactivated] at hrecomputes
      exact .recomputed key.item tables hrecomputes hitems rfl
    · next hnot =>
      rw [if_neg hnot] at hrecomputes
      refine .added hrecomputes ?_
      intro k i hi
      left
      split at hi
      · exact hsame k i hi
      · exact hsame k i hi
  | finalize policies key =>
    obtain ⟨m, -, hwrite⟩ := bind_eq_some_iff.mp h
    obtain ⟨-, rfl⟩ := Run.enabled hwrite
    exact .added rfl fun k i hi => .inl hi
  | flush =>
    simp only [ImportStep.action, runStep] at h
    split at h
    · cases h
    · next key rest hdeferred =>
      cases h
      refine .recomputed key s.run.tables ?_ rfl rfl
      unfold ImportStep.recomputes
      rw [hdeferred, List.head?_cons]
  | fail =>
    cases h
    exact .added rfl fun k i hi => .inl hi

section Rows

variable {t t' tables : IocTables} {db isIocSuppressed : String → String → Bool} {now : ℤ}
  {key : ItemKey} {K K' : ItemKey → Prop}

/-- Every suppressed row among the keys `K` has a suppression by `db`. -/
def Caused (t : IocTables) (db : String → String → Bool) (K : ItemKey → Prop) : Prop :=
  ∀ key, K key → ∀ i, t.item? key = some i → i.status = .suppressed →
    db i.observable i.observableType = true

/-- A suppressed row with a suppression by `db` stays suppressed. -/
def Kept (t t' : IocTables) (db : String → String → Bool) : Prop :=
  ∀ key i i', t.item? key = some i → t'.item? key = some i' → i.status = .suppressed →
    db i'.observable i'.observableType = true → i'.status = .suppressed

/-- A recomputation leaves no recomputed row suppressed without a cause, when its decider finds
none without one. -/
theorem caused_recompute (hother : ∀ k, k ≠ key → K' k → K k)
    (hseed : K' key → ∀ ioc, t.item? key = some ioc →
      isIocSuppressed ioc.observable ioc.observableType = true →
        db ioc.observable ioc.observableType = true) (h : Caused t db K) :
    Caused (recomputeIocGlobalStatus isIocSuppressed now t key).2 db K' := by
  intro k hk i' hi' hstatus
  cases hioc : t.item? key with
  | none =>
    rw [recompute_of_none hioc] at hi'
    by_cases hne : k = key
    · rw [hne, hioc] at hi'
      cases hi'
    · exact h k (hother k hne hk) i' hi' hstatus
  | some ioc =>
    obtain ⟨i, hi, hobserved, hchange⟩ := recompute_status hioc hi'
    obtain ⟨-, hkey⟩ := IocTables.mem_of_item? hioc
    obtain ⟨-, hik⟩ := IocTables.mem_of_item? hi
    have hsame : i'.observable = i.observable ∧ i'.observableType = i.observableType :=
      Observed.mk.inj hobserved
    rw [hsame.1, hsame.2]
    have hcause : i.key = ioc.key → isIocSuppressed ioc.observable ioc.observableType = true →
          db i.observable i.observableType = true := by
      intro hrow hanswer
      have hkk : k = key := by rw [← hik, hrow, hkey]
      subst hkk
      obtain rfl : ioc = i := Option.some.inj (hioc.symm.trans hi)
      exact hseed hk ioc hi hanswer
    cases hchange with
    | kept hkept hfresh =>
      by_cases hrow : i.key = ioc.key
      · apply hcause hrow
        by_contra hanswer
        rw [Bool.not_eq_true] at hanswer
        exact hfresh hanswer hrow (hkept ▸ hstatus)
      · have hne : k ≠ key := by
          rw [← hik, ← hkey]
          exact hrow
        exact h k (hother k hne hk) i hi (hkept ▸ hstatus)
    | suppressed hanswer hrow _ => exact hcause hrow hanswer
    | settled _ _ hnot => exact absurd hstatus hnot

/-- A recomputation keeps suppressed rows, when its decider passes over no cause of one. -/
theorem kept_recompute
    (hseed : ∀ ioc, t.item? key = some ioc →
      isIocSuppressed ioc.observable ioc.observableType = false →
        db ioc.observable ioc.observableType = false ∨
          ∀ r ∈ t.items, r.observed = ioc.observed → r.status ≠ .suppressed) :
    Kept t (recomputeIocGlobalStatus isIocSuppressed now t key).2 db := by
  intro k i i' hi hi' hstatus hdb
  cases hioc : t.item? key with
  | none =>
    rw [recompute_of_none hioc, hi, Option.some.injEq] at hi'
    rw [← hi', hstatus]
  | some ioc =>
    obtain ⟨i₁, hi₁, hobserved, hchange⟩ := recompute_status hioc hi'
    obtain rfl : i = i₁ := Option.some.inj (hi.symm.trans hi₁)
    cases hchange with
    | kept hkept _ => rw [hkept, hstatus]
    | suppressed _ _ hsuppressed => exact hsuppressed
    | settled hanswer hrow _ =>
      rcases hseed ioc hioc hanswer with hno | hnone
      · have hsame : i'.observable = ioc.observable ∧ i'.observableType = ioc.observableType :=
          Observed.mk.inj (hobserved.trans hrow)
        rw [hsame.1, hsame.2, hno] at hdb
        cases hdb
      · exact absurd hstatus (hnone i (IocTables.mem_of_item? hi).1 hrow)

end Rows

section Step

variable {s s' : SharedState} {a : SharedAction}

theorem suppressedWithCause_iff : SuppressedWithCause s ↔
    Caused s.run.tables s.inDatabase fun key => key ∈ s.recomputed ∧ key ∉ s.owed := by
  constructor
  · rintro h key ⟨hkey, howed⟩
    exact h key hkey howed
  · intro h key hkey howed
    exact h key ⟨hkey, howed⟩

/-- A step of the import. -/
theorem suppressed_importStep {step : ImportStep} (hs : SuppressedWithCause s)
    (hguard : DecidesCurrently s (.importStep step))
    (hstep : sharedStep s (.importStep step) = some s') :
    SuppressedWithCause s' ∧ KeepsSuppressed s s' := by
  obtain ⟨run, hrun, rfl⟩ := map_eq_some_iff.mp hstep
  cases importStep_effect hrun with
  | recomputed key tables hkey hitems htables =>
    have hcurrent := hguard key hkey
    have hitem : ∀ k, tables.item? k = s.run.tables.item? k := by
      intro k
      unfold IocTables.item?
      rw [hitems]
    constructor
    · rw [suppressedWithCause_iff] at hs ⊢
      rw [hkey]
      rw [htables]
      refine caused_recompute (K := fun key => key ∈ s.recomputed ∧ key ∉ s.owed) ?_ ?_ ?_
      · rintro k hne ⟨hmem, howed⟩
        exact ⟨(List.mem_cons.mp hmem).resolve_left hne, howed⟩
      · rintro ⟨-, howed⟩ ioc hioc hanswer
        rw [hitem] at hioc
        have hcause := hcurrent ioc hioc
        rw [if_pos hanswer] at hcause
        exact hcause.resolve_right howed
      · intro k hk i hi
        rw [hitem] at hi
        exact hs k hk i hi
    · have hkept : Kept tables run.tables s.inDatabase := by
        rw [htables]
        apply kept_recompute
        intro ioc hioc hanswer
        rw [hitem] at hioc
        have hno := hcurrent ioc hioc
        rw [if_neg (by rw [SharedState.inIndex] at hanswer ⊢; rw [hanswer]; exact Bool.false_ne_true)]
          at hno
        rw [hitems]
        exact hno
      intro k i i' hi
      rw [← hitem] at hi
      exact hkept k i i' hi
  | added hnone hrows =>
    constructor
    · intro key hkey howed i hi hstatus
      rw [hnone] at hkey
      rcases hrows key i hi with hi | ⟨-, hactive⟩
      · exact hs key hkey howed i hi hstatus
      · rw [hactive] at hstatus
        cases hstatus
    · intro key i i' hi hi' hstatus _
      rcases hrows key i' hi' with hi' | ⟨hfresh, -⟩
      · obtain rfl := Option.some.inj (hi.symm.trans hi')
        exact hstatus
      · rw [hfresh] at hi
        cases hi

/-- One step keeps the causes of suppressed rows, and the rows that have one. -/
theorem suppressed_step (hs : SuppressedWithCause s) (hguard : DecidesCurrently s a)
    (hstep : sharedStep s a = some s') : SuppressedWithCause s' ∧ KeepsSuppressed s s' := by
  have hunwritten : s'.run.tables = s.run.tables → KeepsSuppressed s s' := by
    intro hsame key i i' hi hi' hstatus _
    rw [hsame] at hi'
    obtain rfl := Option.some.inj (hi.symm.trans hi')
    exact hstatus
  cases a with
  | importStep step => exact suppressed_importStep hs hguard hstep
  | commit suppressions affected =>
    obtain ⟨hnamed, rfl⟩ := Run.enabled hstep
    refine ⟨?_, hunwritten rfl⟩
    intro key hkey howed i hi hstatus
    rw [List.mem_append, not_or] at howed
    obtain ⟨hmem, rfl⟩ := IocTables.mem_of_item? hi
    -- the operation does not name the row, so it changes no suppression of it
    have hsame := (hnamed i hmem).resolve_right howed.1
    change SharedState.inDatabase { s with suppressions := suppressions } _ _ = true
    rw [hsame]
    exact hs i.key hkey howed.2 i hi hstatus
  | recompute key =>
    cases hstep
    constructor
    · rw [suppressedWithCause_iff] at hs ⊢
      refine caused_recompute (K := fun key => key ∈ s.recomputed ∧ key ∉ s.owed) ?_ ?_ hs
      · rintro k hne ⟨hmem, howed⟩
        refine ⟨(List.mem_cons.mp hmem).resolve_left hne, fun hk => howed ?_⟩
        exact List.mem_filter.mpr ⟨hk, decide_eq_true hne⟩
      · intro _ ioc _ hanswer
        exact hanswer
    · apply kept_recompute
      intro ioc _ hanswer
      exact .inl hanswer
  | drift now files =>
    obtain ⟨-, rfl⟩ := Run.enabled hstep
    refine ⟨?_, hunwritten rfl⟩
    intro key hkey howed i hi hstatus
    exact hguard key hkey howed i hi hstatus (hs key hkey howed i hi hstatus)

end Step

/-- The status of a row, and whether an active suppression of it is committed. -/
def statusAndCause (s : SharedState) (key : ItemKey) : Option (IocStatus × Bool) :=
  (s.run.tables.item? key).map fun i => (i.status, s.inDatabase i.observable i.observableType)

theorem not_keepsSuppressed {s s' : SharedState} {key : ItemKey} {cause : Bool}
    (h : statusAndCause s key = some (.suppressed, cause))
    (h' : statusAndCause s' key = some (.active, true)) : ¬ KeepsSuppressed s s' := by
  obtain ⟨i, hi, hvalues⟩ := map_eq_some_iff.mp h
  obtain ⟨i', hi', hvalues'⟩ := map_eq_some_iff.mp h'
  obtain ⟨hactive, hcause⟩ := Prod.mk.inj hvalues'
  intro hkeeps
  have hstatus := hkeeps key i i' hi hi' (Prod.mk.inj hvalues).1 hcause
  rw [hactive] at hstatus
  cases hstatus

theorem not_suppressedWithCause {s : SharedState} {key : ItemKey} (hkey : key ∈ s.recomputed)
    (howed : key ∉ s.owed) (h : statusAndCause s key = some (.suppressed, false)) :
    ¬ SuppressedWithCause s := by
  obtain ⟨i, hi, hvalues⟩ := map_eq_some_iff.mp h
  obtain ⟨hstatus, hnone⟩ := Prod.mk.inj hvalues
  intro hcause
  have hdb := hcause key hkey howed i hi hstatus
  rw [hnone] at hdb
  cases hdb

/-- An IOC of a status, without memberships. -/
def aloneWith (status : IocStatus) : IocTables where
  items := [{ newItem 1 ⟨"evil.example", "domain"⟩ with status := status }]
  memberships := []
  unique_item := List.nodup_singleton _
  unique_membership := List.nodup_nil
  unique_id := List.nodup_nil

/-- A suppression of that IOC. -/
def evilSuppression : ScopedSuppression :=
  ⟨⟨"evil.example", "domain", true, none, none, none⟩, "global", none⟩

/-- The import of a first membership of that IOC. -/
def evilUpsert : SharedAction :=
  .importStep (.upsert ⟨[], []⟩ ⟨5, none, none, none, none, false⟩ 1 ⟨⟨1, "domain"⟩, 1⟩)

end TalonHound.IocExpiration
