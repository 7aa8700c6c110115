import TalonHound.Usom.BulkImport

/-!
# IOCs in the bulk import

The memberships of a staged or newly missing observable after `finalizeUsomImport`, and what a
recomputation would make of its rows.
-/

namespace TalonHound.Usom

open List TalonHound.IocExpiration

variable {createdAt : ItemKey → Option ℤ} {feedId : ℕ} {call : FinalizeCall} {db : UsomDb}
  {priorSnapshotHash : Option String} {isIocSuppressed : String → String → Bool} {t : IocTables}
  {i : IocItem} {m : Membership} {e : StageEntry} {c : CanonicalRow}

theorem isRefreshable_refreshStep (i : IocItem) :
    isRefreshable (refreshStep call t i) = isRefreshable i := by
  unfold refreshStep refreshItem
  split
  · split
    · next hrefreshes =>
      unfold refreshes at hrefreshes
      rw [Bool.and_eq_true] at hrefreshes
      rw [hrefreshes.1]
      have hmanual : i.manualStatusOverride = false := by
        have hplain := hrefreshes.1
        unfold isRefreshable at hplain
        simp only [Bool.and_eq_true, Bool.not_eq_true'] at hplain
        exact hplain.1.1
      unfold isRefreshable IocItem.withFields refreshedFields
      rw [hmanual]
      split <;> rfl
    · rfl
  · rfl

theorem isStaged_refreshStep (call : FinalizeCall) (i : IocItem) :
    isStaged call (refreshStep call t i) = isStaged call i := by
  unfold isStaged
  rw [refreshStep_observed]

/-- A staged plain row gets the fields of its memberships. -/
theorem fields_refreshStep (hstaged : isStaged call i = true) (hplain : isRefreshable i = true) :
    (refreshStep call t i).fields = refreshedFields call.seenAt (t.membershipsFor i) i := by
  unfold isStaged at hstaged
  unfold refreshStep refreshItem
  rw [if_pos hstaged]
  split
  · rfl
  · next hnot =>
    unfold refreshes at hnot
    rw [hplain] at hnot
    simpa using hnot

theorem refreshStep_of_not_isStaged (h : isStaged call i = false) : refreshStep call t i = i := by
  unfold isStaged at h
  unfold refreshStep
  rw [h]
  rfl

/-- The refreshed fields are those of the fold, but for the expiry of an expired row. -/
theorem refreshedFields_iff (seenAt : ℤ) {memberships : List Membership}
    (hsome : memberships ≠ []) :
    ((refreshedFields seenAt memberships i).status = foldStatus memberships ∧
        (refreshedFields seenAt memberships i).expiresAt = minExpires memberships) ↔
      i.expiresAt = none ∨ memberships.any (·.isLive) = true := by
  have hempty : memberships.isEmpty = false := by simpa using hsome
  unfold refreshedFields foldStatus
  rw [hempty, Bool.false_or]
  cases hlive : memberships.any (·.isLive) with
  | true => simp
  | false =>
    have hnone : memberships.filter (·.isLive) = [] := by
      rw [filter_eq_nil_iff]
      intro m hm hm'
      rw [Bool.eq_false_iff] at hlive
      exact hlive (any_eq_true.mpr ⟨m, hm, hm'⟩)
    unfold minExpires
    rw [hnone]
    simp

/-- Which memberships count is decided by keys, values and types. -/
theorem membershipsFor_eq (t : IocTables) (i : IocItem) :
    t.membershipsFor i = t.memberships.filter fun m =>
      t.items.any fun i₀ => i₀.key = m.itemKey && i₀.observed = i.observed := by
  unfold IocTables.membershipsFor IocTables.membershipsOf
  congr 1
  funext m
  congr 1
  funext i₀
  simp [IocItem.observed]

section Items

variable {createdAt : ItemKey → Option ℤ} {feedId : ℕ} {call : FinalizeCall} {db : UsomDb}
  {priorSnapshotHash : Option String}

variable (createdAt feedId call db priorSnapshotHash) in
/-- The refresh moves no membership. -/
theorem membershipsFor_finalizeUsomImport (i : IocItem) :
    (finalizeUsomImport createdAt feedId call db priorSnapshotHash).db.tables.membershipsFor
        (refreshStep call (markedDb createdAt feedId call db priorSnapshotHash).tables i) =
      (markedDb createdAt feedId call db priorSnapshotHash).tables.membershipsFor i := by
  rw [membershipsFor_eq, membershipsFor_eq, memberships_finalizeUsomImport,
    items_finalizeUsomImport, items_markedDb]
  congr 1
  funext m
  rw [any_map]
  congr 1
  funext i₀
  simp only [Function.comp, refreshStep_key, refreshStep_observed]

/-- A staged row has a membership after an import. -/
theorem membershipsFor_ne_nil (hstaged : isStaged call i = true) :
    (markedDb createdAt feedId call db priorSnapshotHash).tables.membershipsFor i ≠ [] := by
  obtain ⟨e, he, hobserved⟩ := isStaged_eq_true.mp hstaged
  have hc : (⟨e, oldest createdAt
      (itemKeys (insertNewIocs createdAt call db).tables e.observed)⟩ : CanonicalRow) ∈
        canonicalRows createdAt call db := mem_map_of_mem he
  obtain ⟨i₀, hi₀, hkey, hobserved₀⟩ := canonicalRows_item hc
  obtain ⟨m, hm, hmkey⟩ := mem_map.mp (present_markedDb hc hkey)
  refine ne_nil_of_mem (a := m) (mem_membershipsFor.mpr ⟨hm, i₀, ?_, ?_, ?_⟩)
  · rw [items_markedDb]
    exact hi₀
  · exact (congrArg MembershipKey.item hmkey).symm
  · exact hobserved₀.trans hobserved

/-- What a recomputation would leave on a staged plain row. -/
theorem staged_recomputed_iff (hi : i ∈ (insertNewIocs createdAt call db).tables.items)
    (hstaged : isStaged call i = true) (hplain : isRefreshable i = true)
    (hnot : isIocSuppressed i.observable i.observableType = false) :
    HasRecomputedStatus isIocSuppressed call.now
        (finalizeUsomImport createdAt feedId call db priorSnapshotHash).db.tables
        (refreshStep call (markedDb createdAt feedId call db priorSnapshotHash).tables i) ↔
      i.expiresAt = none ∨
        ((markedDb createdAt feedId call db priorSnapshotHash).tables.membershipsFor i).any
          (·.isLive) = true := by
  have hobserved : (refreshStep call
      (markedDb createdAt feedId call db priorSnapshotHash).tables i).observed = i.observed :=
    refreshStep_observed i
  have hfields := fields_refreshStep
    (t := (markedDb createdAt feedId call db priorSnapshotHash).tables) hstaged hplain
  have hmem : refreshStep call (markedDb createdAt feedId call db priorSnapshotHash).tables i ∈
      (finalizeUsomImport createdAt feedId call db priorSnapshotHash).db.tables.items := by
    rw [items_finalizeUsomImport]
    exact mem_map_of_mem hi
  rw [hasRecomputedStatus_iff hmem ((isRefreshable_refreshStep i).trans hplain) ?_,
    membershipsFor_finalizeUsomImport,
    ← refreshedFields_iff call.seenAt (membershipsFor_ne_nil hstaged),
    ← hfields]
  · rfl
  · have hvalue := congrArg Observed.observable hobserved
    have htype := congrArg Observed.observableType hobserved
    rw [← hnot]
    exact congrArg₂ isIocSuppressed hvalue htype

/-- The canonical row of an observable with a row from before is the one from before. -/
theorem mem_canonicalRows_iff (hi : i ∈ db.tables.items) (hobserved : c.entry.observed = i.observed) :
    c ∈ canonicalRows createdAt call db ↔ c ∈ canonicalBefore createdAt call db := by
  have hkeys : itemKeys (insertNewIocs createdAt call db).tables c.entry.observed =
      itemKeys db.tables c.entry.observed := by
    rcases itemKeys_insertNewIocs createdAt call db c.entry.observed with hsame | ⟨hempty, -⟩
    · exact hsame
    · have hmem : i.key ∈ itemKeys db.tables c.entry.observed :=
        mem_itemKeys.mpr ⟨i, hi, hobserved.symm, rfl⟩
      rw [hempty] at hmem
      cases hmem
  unfold canonicalRows canonicalBefore buildStageCanonical
  simp only [mem_map]
  constructor
  · rintro ⟨e, he, rfl⟩
    exact ⟨e, he, by rw [hkeys]⟩
  · rintro ⟨e, he, rfl⟩
    exact ⟨e, he, by rw [← hkeys]⟩

theorem isLive_markAbsent (m : Membership) : (markAbsent feedId call t m).isLive = m.isLive := by
  unfold markAbsent
  split
  · split <;> rfl
  · rfl

/-- Which memberships from before are live after an import. -/
theorem isLive_finalMembership (hm : m ∈ db.tables.memberships) :
    (finalMembership createdAt feedId call db priorSnapshotHash m).isLive =
      endsLive createdAt feedId call db m := by
  unfold finalMembership endsLive
  rw [stagedEntry_canonicalBefore hm]
  cases stagedEntry feedId (canonicalBefore createdAt call db) m with
  | some e => exact isLive_settle feedId call e m
  | none =>
    dsimp only
    split
    · exact isLive_markAbsent m
    · rfl

/-- A staged row from before has a live membership after an import in the two cases. -/
theorem endsActive_iff (hi : i ∈ db.tables.items) :
    ((markedDb createdAt feedId call db priorSnapshotHash).tables.membershipsFor i).any
        (·.isLive) = true ↔ EndsActive createdAt feedId call db i := by
  obtain ⟨news, hmemberships, hnews⟩ := memberships_markedDb
  have hkeys := fun m => (finalMembership_same createdAt feedId call db priorSnapshotHash m).2
  have hitemKey : ∀ m, (finalMembership createdAt feedId call db priorSnapshotHash m).itemKey =
      m.itemKey := fun m => congrArg MembershipKey.item (hkeys m)
  rw [any_eq_true]
  constructor
  · rintro ⟨m', hm', hlive⟩
    obtain ⟨hmem, i₀, hi₀, hkey, hobserved⟩ := mem_membershipsFor.mp hm'
    rw [hmemberships] at hmem
    rw [items_markedDb] at hi₀
    obtain ⟨m, hm, rfl⟩ := mem_map.mp hmem
    rw [hitemKey] at hkey
    rcases mem_append.mp hm with hold | hnew
    · refine .inr ⟨m, ?_, ?_⟩
      · exact mem_membershipsFor.mpr ⟨hold, i₀, item_of_membership hold hi₀ hkey, hkey, hobserved⟩
      · rwa [isLive_finalMembership hold] at hlive
    · obtain ⟨c, hc, key, id, hitem, hfresh, rfl⟩ := hnews m hnew
      obtain ⟨i₁, hi₁, hitem', hobserved'⟩ := canonicalRows_item hc
      have hsame : i₁ = i₀ := by
        refine inj_on_of_nodup_map (insertNewIocs createdAt call db).tables.unique_item hi₁ hi₀ ?_
        exact (Option.some.inj (hitem'.symm.trans hitem)).trans hkey.symm
      have hentry : c.entry.observed = i.observed := by
        rw [← hobserved', hsame]
        exact hobserved
      exact .inl ⟨c, (mem_canonicalRows_iff hi hentry).mp hc, hentry, key, hitem, hfresh⟩
  · rintro (⟨c, hc, hentry, key, hitem, hfresh⟩ | ⟨m, hm, hlive⟩)
    · have hc := (mem_canonicalRows_iff hi hentry).mpr hc
      obtain ⟨m', hm', hkey⟩ := mem_map.mp (present_markedDb hc hitem)
      obtain ⟨i₀, hi₀, hitem', hobserved⟩ := canonicalRows_item hc
      refine ⟨m', mem_membershipsFor.mpr ⟨hm', i₀, ?_, ?_, hobserved.trans hentry⟩, ?_⟩
      · rw [items_markedDb]
        exact hi₀
      · exact (Option.some.inj (hitem'.symm.trans hitem)).trans
          (congrArg MembershipKey.item hkey).symm
      · rw [hmemberships] at hm'
        obtain ⟨m, hm, rfl⟩ := mem_map.mp hm'
        rcases mem_append.mp hm with hold | hnew
        · refine absurd (mem_map.mpr ⟨m, hold, ?_⟩) hfresh
          exact (hkeys m).symm.trans hkey
        · obtain ⟨c', hc', key', id, hitem₂, -, rfl⟩ := hnews m hnew
          rw [finalMembership_staged (stagedEntry_inserted feedId hc' hitem₂ id call.seenAt),
            isLive_settle]
          exact inserted_staysLive feedId call id key' c'.entry
    · obtain ⟨hold, i₀, hi₀, hkey, hobserved⟩ := mem_membershipsFor.mp hm
      refine ⟨finalMembership createdAt feedId call db priorSnapshotHash m,
        mem_membershipsFor.mpr ⟨?_, i₀, ?_, ?_, hobserved⟩, ?_⟩
      · rw [hmemberships]
        exact mem_map_of_mem (mem_append_left _ hold)
      · rw [items_markedDb]
        exact item_insertNewIocs createdAt call db hi₀
      · rw [hitemKey]
        exact hkey
      · rwa [isLive_finalMembership hold]

section

variable (hm : m ∈ db.tables.memberships)
include hm

/-- The insertion adds no row with the key of a membership from before. -/
theorem any_insertNewIocs (q : IocItem → Bool) :
    ((insertNewIocs createdAt call db).tables.items.any fun i => i.key = m.itemKey && q i) =
      db.tables.items.any fun i => i.key = m.itemKey && q i := by
  rw [Bool.eq_iff_iff, any_eq_true, any_eq_true]
  constructor
  · rintro ⟨i, hi, hboth⟩
    have hkey : i.key = m.itemKey := by
      rw [Bool.and_eq_true, decide_eq_true_eq] at hboth
      exact hboth.1
    exact ⟨i, item_of_membership hm hi hkey, hboth⟩
  · rintro ⟨i, hi, hboth⟩
    exact ⟨i, item_insertNewIocs createdAt call db hi, hboth⟩

/-- Absence of a membership from before is decided by the rows from before. -/
theorem isAbsent_insertNewIocs : isAbsent feedId call (insertNewIocs createdAt call db).tables m =
      isAbsent feedId call db.tables m := by
  unfold isAbsent
  rw [any_insertNewIocs hm]

theorem markAbsent_insertNewIocs :
    markAbsent feedId call (insertNewIocs createdAt call db).tables m =
      markAbsent feedId call db.tables m := by
  unfold markAbsent
  rw [isAbsent_insertNewIocs hm]

end

/-- The memberships that an import marks for the first time are old ones that are not staged. -/
theorem newlyMissing_iff : m ∈ absentRows createdAt feedId call db priorSnapshotHash ↔
    marksAbsence call priorSnapshotHash = true ∧ m ∈ db.tables.memberships ∧
      isAbsent feedId call db.tables m = true := by
  obtain ⟨news, hpoliced, hnews⟩ := memberships_policedDb
  unfold absentRows
  cases marksAbsence call priorSnapshotHash with
  | false => simp
  | true =>
    rw [if_pos rfl, mem_filter, hpoliced, isAbsent_congr items_policedDb]
    simp only [true_and]
    constructor
    · rintro ⟨hmem, habsent⟩
      obtain ⟨m₀, hm₀, rfl⟩ := mem_map.mp hmem
      cases hstaged : stagedEntry feedId (canonicalRows createdAt call db) m₀ with
      | some e =>
        simp only [settledMembership, hstaged] at habsent
        obtain ⟨-, -, he, i, hi, hkey, hobserved⟩ := staged_facts hstaged
        have hitem : (settle feedId call e m₀).itemKey = m₀.itemKey :=
          congrArg MembershipKey.item (settle_same m₀).2
        rw [isAbsent_of_staged hi (hkey.trans hitem.symm) he hobserved] at habsent
        cases habsent
      | none =>
        simp only [settledMembership, hstaged] at habsent ⊢
        rcases mem_append.mp hm₀ with hold | hnew
        · exact ⟨hold, (isAbsent_insertNewIocs hold).symm.trans habsent⟩
        · obtain ⟨c, hc, key, id, hitem, -, rfl⟩ := hnews m₀ hnew
          rw [stagedEntry_inserted feedId hc hitem] at hstaged
          cases hstaged
    · rintro ⟨hold, habsent⟩
      rw [← isAbsent_insertNewIocs hold] at habsent
      refine ⟨mem_map.mpr ⟨m, mem_append_left _ hold, ?_⟩, habsent⟩
      cases hstaged : stagedEntry feedId (canonicalRows createdAt call db) m with
      | none => simp only [settledMembership, hstaged]
      | some e =>
        obtain ⟨-, -, he, i, hi, hkey, hobserved⟩ := staged_facts hstaged
        rw [isAbsent_of_staged hi hkey he hobserved] at habsent
        cases habsent

/-- On a row that is not staged, the memberships after an import are those from before, marked. -/
theorem membershipsFor_of_not_isStaged (hmarks : marksAbsence call priorSnapshotHash = true)
    (hunstaged : isStaged call i = false) :
    (markedDb createdAt feedId call db priorSnapshotHash).tables.membershipsFor i =
      (db.tables.membershipsFor i).map (markAbsent feedId call db.tables) := by
  obtain ⟨news, hmemberships, hnews⟩ := memberships_markedDb
  -- A staged membership is on another observable.
  have helsewhere : ∀ m e, stagedEntry feedId (canonicalRows createdAt call db) m = some e →
      ((insertNewIocs createdAt call db).tables.items.any fun i₀ =>
        i₀.key = m.itemKey && i₀.observed = i.observed) = false := by
    intro m e hstaged
    obtain ⟨-, -, he, i₁, hi₁, hkey₁, hobserved₁⟩ := staged_facts hstaged
    rw [any_eq_false]
    intro i₀ hi₀ hboth
    simp only [Bool.and_eq_true, decide_eq_true_eq] at hboth
    have hsame : i₁ = i₀ := inj_on_of_nodup_map
      (insertNewIocs createdAt call db).tables.unique_item hi₁ hi₀ (hkey₁.trans hboth.1.symm)
    rw [Bool.eq_false_iff] at hunstaged
    refine hunstaged (isStaged_eq_true.mpr ⟨e, he, ?_⟩)
    rw [← hobserved₁, hsame]
    exact hboth.2
  have hitemKey : ∀ m, (finalMembership createdAt feedId call db priorSnapshotHash m).itemKey =
      m.itemKey := fun m => congrArg MembershipKey.item (finalMembership_same _ _ _ _ _ m).2
  have hnone : (news.filter fun m => (insertNewIocs createdAt call db).tables.items.any fun i₀ =>
      i₀.key = m.itemKey && i₀.observed = i.observed) = [] := by
    rw [filter_eq_nil_iff]
    intro m hm
    obtain ⟨c, hc, key, id, hitem, -, rfl⟩ := hnews m hm
    rw [helsewhere _ _ (stagedEntry_inserted feedId hc hitem id call.seenAt)]
    exact Bool.false_ne_true
  rw [membershipsFor_eq, membershipsFor_eq, hmemberships, items_markedDb, filter_map]
  simp only [Function.comp_def, hitemKey]
  rw [filter_append, hnone, append_nil]
  have hfilter : (db.tables.memberships.filter fun m =>
      (insertNewIocs createdAt call db).tables.items.any fun i₀ =>
        i₀.key = m.itemKey && i₀.observed = i.observed) =
      db.tables.memberships.filter fun m => db.tables.items.any fun i₀ =>
        i₀.key = m.itemKey && i₀.observed = i.observed :=
    filter_congr fun m hm =>
      any_insertNewIocs hm fun i₀ => i₀.observed = i.observed
  rw [hfilter]
  refine map_congr_left fun m hm => ?_
  obtain ⟨hold, hon⟩ := mem_filter.mp hm
  unfold finalMembership
  cases hstaged : stagedEntry feedId (canonicalRows createdAt call db) m with
  | none =>
    rw [if_pos hmarks, markAbsent_insertNewIocs hold]
  | some e =>
    have hoff := helsewhere m e hstaged
    rw [any_insertNewIocs hold fun i₀ => i₀.observed = i.observed, hon] at hoff
    cases hoff

end Items

end TalonHound.Usom
