import TalonHound.IocExpiration.Coherence
import TalonHound.Usom.BulkRow

/-!
# The bulk import and the row importer

After `finalizeUsomImport`, staged memberships against `computeMembershipFieldPatch`, and staged and
newly missing IOCs against `recomputeIocGlobalStatus`.
-/

namespace TalonHound.Usom

open TalonHound.IocExpiration

/-- A recomputation leaves the status and the expiry of a row. -/
def HasRecomputedStatus (isIocSuppressed : String → String → Bool) (now : ℤ) (t : IocTables)
    (i : IocItem) : Prop :=
  ((recomputeIocGlobalStatus isIocSuppressed now t i.key).2.item? i.key).map
    (fun i' => (i'.status, i'.expiresAt)) = some (i.status, i.expiresAt)

/-- The observable of a row is staged. -/
def isStaged (call : FinalizeCall) (i : IocItem) : Bool :=
  call.kept.entries.any (·.observed = i.observed)

section Property

variable (createdAt : ItemKey → Option ℤ) (feedId : ℕ) (call : FinalizeCall) (db : UsomDb)
  (priorSnapshotHash : Option String) (isIocSuppressed : String → String → Bool)

/-- The import marked a membership of the observable of a row as missing, for the first time. -/
def IsNewlyMissing (i : IocItem) : Prop :=
  ∃ m ∈ absentRows createdAt feedId call db priorSnapshotHash, m.missingSince = none ∧
    ∃ i₀ ∈ (policedDb createdAt feedId call db).tables.items,
      i₀.key = m.itemKey ∧ i₀.observed = i.observed

/-- The tables after an import are those that the rules of the row importer give. -/
structure AppliesRowRules : Prop where
  memberships : ∀ m ∈ (finalizeUsomImport createdAt feedId call db priorSnapshotHash).db.tables.memberships,
    m.feedId = feedId →
      (∃ i ∈ (finalizeUsomImport createdAt feedId call db priorSnapshotHash).db.tables.items,
        i.key = m.itemKey ∧ isStaged call i = true) →
      AgreesWithRowImporter (call.policyFor feedId m) call.seenAt m
  items : ∀ i ∈ (finalizeUsomImport createdAt feedId call db priorSnapshotHash).db.tables.items,
    isStaged call i = true ∨ IsNewlyMissing createdAt feedId call db priorSnapshotHash i →
      isRefreshable i = true → isIocSuppressed i.observable i.observableType = false →
        HasRecomputedStatus isIocSuppressed call.now
          (finalizeUsomImport createdAt feedId call db priorSnapshotHash).db.tables i

/-- A membership of a staged observable is live after the import. -/
def endsLive (m : Membership) : Bool :=
  match stagedEntry feedId (canonicalBefore createdAt call db) m with
  | some e => staysLive (call.policyFor feedId m) call.seenAt e m
  | none => m.isLive

/-- Some membership of a staged row is live after the import: one that the import inserts on the
oldest row of the observable, or one from before. -/
def EndsActive (i : IocItem) : Prop :=
  (∃ c ∈ canonicalBefore createdAt call db, c.entry.observed = i.observed ∧
    ∃ key, c.item = some key ∧ ⟨key, feedId⟩ ∉ db.tables.memberships.map Membership.key) ∨
  ∃ m ∈ db.tables.membershipsFor i, endsLive createdAt feedId call db m = true

/-- Overrides of staged memberships have columns that both importers read alike; memberships on
other rows of a staged observable already agree; staged IOCs that end expired have no expiry; and
IOCs that newly miss a membership already have their status and the earliest of the new dates. -/
structure RulesAgree : Prop where
  overrides : ∀ m ∈ db.tables.memberships,
    (stagedEntry feedId (canonicalBefore createdAt call db) m).isSome = true →
      OverrideAgrees (call.policyFor feedId m) call.seenAt m
  siblings : ∀ m ∈ db.tables.memberships, m.feedId = feedId →
    stagedEntry feedId (canonicalBefore createdAt call db) m = none →
      (∃ i ∈ db.tables.items, i.key = m.itemKey ∧ isStaged call i = true) →
        AgreesWithRowImporter (call.policyFor feedId m) call.seenAt m
  expired : ∀ i ∈ db.tables.items, isStaged call i = true → isRefreshable i = true →
    isIocSuppressed i.observable i.observableType = false →
      i.expiresAt = none ∨ EndsActive createdAt feedId call db i
  missing : marksAbsence call priorSnapshotHash = true → ∀ i ∈ db.tables.items,
    isRefreshable i = true → isIocSuppressed i.observable i.observableType = false →
      (∃ m ∈ db.tables.membershipsFor i, isAbsent feedId call db.tables m = true ∧
        m.missingSince = none) →
      i.status = foldStatus (db.tables.membershipsFor i) ∧ i.expiresAt =
          minExpires ((db.tables.membershipsFor i).map (markAbsent feedId call db.tables))

end Property

variable {createdAt : ItemKey → Option ℤ} {feedId : ℕ} {call : FinalizeCall} {db : UsomDb}
  {priorSnapshotHash : Option String} {isIocSuppressed : String → String → Bool} {now : ℤ}
  {t : IocTables} {i : IocItem} {m : Membership} {e : StageEntry} {c : CanonicalRow}

/-- A recomputation of a plain row leaves the fold. -/
theorem hasRecomputedStatus_iff (hi : i ∈ t.items) (hplain : isRefreshable i = true)
    (hnot : isIocSuppressed i.observable i.observableType = false) :
    HasRecomputedStatus isIocSuppressed now t i ↔
      i.status = foldStatus (t.membershipsFor i) ∧ i.expiresAt = minExpires (t.membershipsFor i) := by
  have hitem := IocTables.item?_of_mem hi
  obtain ⟨⟨hmanual, hdisabled⟩, -⟩ : (i.manualStatusOverride = false ∧ i.status ≠ .disabled) ∧
      i.status ≠ .suppressed := by
    simpa [isRefreshable] using hplain
  unfold HasRecomputedStatus recomputeIocGlobalStatus
  rw [hitem]
  dsimp only
  rw [hnot, if_neg Bool.false_ne_true, if_neg hdisabled, hmanual, if_neg Bool.false_ne_true]
  unfold recomputeFold
  cases hsettled : foldSettled now (t.membershipsFor i) i with
  | true =>
    rw [if_pos hsettled, hitem]
    unfold foldSettled at hsettled
    simp only [decide_eq_true_eq] at hsettled
    exact ⟨fun _ => ⟨hsettled.1, hsettled.2.1⟩, fun _ => rfl⟩
  | false =>
    rw [if_neg (by rw [hsettled]; exact Bool.false_ne_true),
      IocTables.item?_updateObservable, hitem]
    simp only [Option.map_some, and_self, if_true, IocItem.withFields, foldFields,
      Option.some.injEq, Prod.mk.injEq]
    exact ⟨fun h => ⟨h.1.symm, h.2.symm⟩, fun h => ⟨h.1.symm, h.2.symm⟩⟩

/-- The memberships that count for a row. -/
theorem mem_membershipsFor : m ∈ t.membershipsFor i ↔
    m ∈ t.memberships ∧ ∃ i₀ ∈ t.items, i₀.key = m.itemKey ∧ i₀.observed = i.observed := by
  simp [IocTables.membershipsFor, IocTables.membershipsOf, IocItem.observed]

theorem isStaged_eq_true : isStaged call i = true ↔
    ∃ e ∈ call.kept.entries, e.observed = i.observed := by
  simp [isStaged]

/-- An import marks no membership of a staged observable. -/
theorem finalMembership_of_isStaged {i : IocItem}
    (hi : i ∈ (insertNewIocs createdAt call db).tables.items) (hkey : i.key = m.itemKey)
    (hstaged : isStaged call i = true)
    (hnone : stagedEntry feedId (canonicalRows createdAt call db) m = none) :
    finalMembership createdAt feedId call db priorSnapshotHash m = m := by
  obtain ⟨e, he, hobserved⟩ := isStaged_eq_true.mp hstaged
  unfold finalMembership
  rw [hnone]
  rw [markAbsent_of_not (isAbsent_of_staged hi hkey he hobserved.symm)]
  exact ite_self _

theorem policyFor_finalMembership (m : Membership) :
    call.policyFor feedId (finalMembership createdAt feedId call db priorSnapshotHash m) =
      call.policyFor feedId m := by
  have hkey := (finalMembership_same createdAt feedId call db priorSnapshotHash m).2
  have htype : (finalMembership createdAt feedId call db priorSnapshotHash m).iocObservableType =
      m.iocObservableType := congrArg (fun k => k.item.observableType) hkey
  unfold FinalizeCall.policyFor
  rw [htype]

/-- A staged membership agrees after the import under the condition on its override. -/
theorem finalMembership_agrees_iff
    (hstaged : stagedEntry feedId (canonicalRows createdAt call db) m = some e) :
    AgreesWithRowImporter (call.policyFor feedId m) call.seenAt
        (finalMembership createdAt feedId call db priorSnapshotHash m) ↔
      OverrideAgrees (call.policyFor feedId m) call.seenAt m := by
  rw [finalMembership_staged hstaged]
  exact settle_agrees_iff feedId call e m

/-- The rows after an import have the keys and observables of the rows before the statements on
memberships. -/
theorem exists_item_finalizeUsomImport {key : ItemKey} :
    (∃ i ∈ (finalizeUsomImport createdAt feedId call db priorSnapshotHash).db.tables.items,
        i.key = key ∧ isStaged call i = true) ↔
      ∃ i ∈ (insertNewIocs createdAt call db).tables.items, i.key = key ∧ isStaged call i = true := by
  rw [items_finalizeUsomImport]
  constructor
  · rintro ⟨i', hi', hkey, hstaged⟩
    obtain ⟨i, hi, rfl⟩ := List.mem_map.mp hi'
    unfold isStaged at hstaged ⊢
    rw [refreshStep_observed] at hstaged
    exact ⟨i, hi, (refreshStep_key i).symm.trans hkey, hstaged⟩
  · rintro ⟨i, hi, hkey, hstaged⟩
    refine ⟨_, List.mem_map_of_mem hi, (refreshStep_key i).trans hkey, ?_⟩
    unfold isStaged at hstaged ⊢
    rw [refreshStep_observed]
    exact hstaged

/-- The memberships of staged observables agree exactly under the two conditions on them. -/
theorem memberships_agree_iff :
    (∀ m ∈ (finalizeUsomImport createdAt feedId call db priorSnapshotHash).db.tables.memberships,
      m.feedId = feedId →
        (∃ i ∈ (finalizeUsomImport createdAt feedId call db priorSnapshotHash).db.tables.items,
          i.key = m.itemKey ∧ isStaged call i = true) →
        AgreesWithRowImporter (call.policyFor feedId m) call.seenAt m) ↔
      (∀ m ∈ db.tables.memberships,
        (stagedEntry feedId (canonicalBefore createdAt call db) m).isSome = true →
          OverrideAgrees (call.policyFor feedId m) call.seenAt m) ∧
      ∀ m ∈ db.tables.memberships, m.feedId = feedId →
        stagedEntry feedId (canonicalBefore createdAt call db) m = none →
          (∃ i ∈ db.tables.items, i.key = m.itemKey ∧ isStaged call i = true) →
            AgreesWithRowImporter (call.policyFor feedId m) call.seenAt m := by
  obtain ⟨news, hmemberships, hnews⟩ := memberships_markedDb
  rw [memberships_finalizeUsomImport, hmemberships]
  have hkeys := fun m => (finalMembership_same createdAt feedId call db priorSnapshotHash m).2
  have hitemKey : ∀ m, (finalMembership createdAt feedId call db priorSnapshotHash m).itemKey =
      m.itemKey := fun m => congrArg MembershipKey.item (hkeys m)
  have hfeedId : ∀ m, (finalMembership createdAt feedId call db priorSnapshotHash m).feedId =
      m.feedId := fun m => congrArg MembershipKey.feedId (hkeys m)
  constructor
  · intro h
    have hold : ∀ m ∈ db.tables.memberships, m.feedId = feedId →
        (∃ i ∈ (insertNewIocs createdAt call db).tables.items,
          i.key = m.itemKey ∧ isStaged call i = true) →
        AgreesWithRowImporter (call.policyFor feedId m) call.seenAt
          (finalMembership createdAt feedId call db priorSnapshotHash m) := by
      intro m hm hfeed hitem
      rw [← policyFor_finalMembership]
      refine h _ (List.mem_map_of_mem (List.mem_append_left _ hm)) ((hfeedId m).trans hfeed) ?_
      rw [hitemKey]
      exact exists_item_finalizeUsomImport.mpr hitem
    refine ⟨fun m hm hsome => ?_, fun m hm hfeed hnone hitem => ?_⟩
    · obtain ⟨e, hstaged⟩ := Option.isSome_iff_exists.mp hsome
      rw [← stagedEntry_canonicalBefore hm] at hstaged
      obtain ⟨hfeed, -, he, i, hi, hkey, hobserved⟩ := staged_facts hstaged
      exact (finalMembership_agrees_iff hstaged).mp
        (hold m hm hfeed ⟨i, hi, hkey, isStaged_eq_true.mpr ⟨e, he, hobserved.symm⟩⟩)
    · obtain ⟨i, hi, hkey, hstaged⟩ := hitem
      rw [← stagedEntry_canonicalBefore hm] at hnone
      have hi := item_insertNewIocs createdAt call db hi
      have hagrees := hold m hm hfeed ⟨i, hi, hkey, hstaged⟩
      rwa [finalMembership_of_isStaged hi hkey hstaged hnone] at hagrees
  · rintro ⟨hoverrides, hsiblings⟩ m' hm' hfeed hitem
    obtain ⟨m, hm, rfl⟩ := List.mem_map.mp hm'
    rw [hitemKey] at hitem
    rw [hfeedId] at hfeed
    obtain ⟨i, hi, hkey, hstagedItem⟩ := exists_item_finalizeUsomImport.mp hitem
    rw [policyFor_finalMembership]
    rcases List.mem_append.mp hm with hold | hnew
    · cases hstaged : stagedEntry feedId (canonicalRows createdAt call db) m with
      | some e =>
        refine (finalMembership_agrees_iff hstaged).mpr (hoverrides m hold ?_)
        rw [← stagedEntry_canonicalBefore hold, hstaged]
        rfl
      | none =>
        rw [finalMembership_of_isStaged hi hkey hstagedItem hstaged]
        refine hsiblings m hold hfeed ?_ ⟨i, item_of_membership hold hi hkey, hkey, hstagedItem⟩
        rw [← stagedEntry_canonicalBefore hold, hstaged]
    · obtain ⟨c, hc, key, id, hcanonical, -, rfl⟩ := hnews m hnew
      exact (finalMembership_agrees_iff
        (stagedEntry_inserted feedId hc hcanonical id call.seenAt)).mpr
          (inserted_agrees feedId call id key c.entry)

end TalonHound.Usom
