import TalonHound.Usom.BulkItems

/-!
# The rules of the row importer

When the bulk import leaves what the row importer would leave.
-/

namespace TalonHound.Usom

open TalonHound.IocExpiration

variable {createdAt : ItemKey → Option ℤ} {feedId : ℕ} {call : FinalizeCall} {db : UsomDb}
  {priorSnapshotHash : Option String} {isIocSuppressed : String → String → Bool} {t : IocTables}
  {i : IocItem} {m : Membership} {e : StageEntry}

section Items

variable {createdAt : ItemKey → Option ℤ} {feedId : ℕ} {call : FinalizeCall} {db : UsomDb}
  {priorSnapshotHash : Option String}

/-- The absence step leaves the status that memberships fold to. -/
theorem foldStatus_markAbsent (memberships : List Membership) :
    foldStatus (memberships.map (markAbsent feedId call t)) = foldStatus memberships := by
  have hlive : (memberships.map (markAbsent feedId call t)).any (·.isLive) =
      memberships.any (·.isLive) := by
    rw [List.any_map]
    congr 1
    funext m
    exact isLive_markAbsent m
  have hempty : (memberships.map (markAbsent feedId call t)).isEmpty = memberships.isEmpty := by
    cases memberships <;> rfl
  unfold foldStatus
  rw [hlive, hempty]

/-- A row of an observable with an absent membership is not staged. -/
theorem isStaged_of_isAbsent {i₀ : IocItem} (hi₀ : i₀ ∈ db.tables.items)
    (hkey : i₀.key = m.itemKey) (hobserved : i₀.observed = i.observed)
    (habsent : isAbsent feedId call db.tables m = true) : isStaged call i = false := by
  rw [Bool.eq_false_iff]
  intro hstaged
  obtain ⟨e, he, hsame⟩ := isStaged_eq_true.mp hstaged
  rw [isAbsent_of_staged hi₀ hkey he (hobserved.trans hsame.symm)] at habsent
  cases habsent

/-- A row that the insertion adds is staged and has no expiry. -/
theorem new_item (hi : i ∈ (insertNewIocs createdAt call db).tables.items)
    (hnew : i ∉ db.tables.items) : isStaged call i = true ∧ i.expiresAt = none := by
  obtain ⟨news, hitems, hnews⟩ := (insertNewIocs_spec createdAt call db).items
  rw [hitems] at hi
  rcases List.mem_append.mp hi with hold | hadded
  · exact absurd hold hnew
  · obtain ⟨⟨id, -, hitem⟩, hentry, -⟩ := hnews i hadded
    refine ⟨isStaged_eq_true.mpr hentry, ?_⟩
    rw [hitem]
    rfl

theorem suppressed_refreshStep (isIocSuppressed : String → String → Bool) (i : IocItem) :
    isIocSuppressed (refreshStep call t i).observable (refreshStep call t i).observableType =
      isIocSuppressed i.observable i.observableType := by
  have hobserved : (refreshStep call t i).observed = i.observed := refreshStep_observed i
  exact congrArg₂ isIocSuppressed (congrArg Observed.observable hobserved)
    (congrArg Observed.observableType hobserved)

/-- What a recomputation would leave on a plain row that newly misses a membership. -/
theorem missing_recomputed_iff (hi : i ∈ db.tables.items)
    (hmarks : marksAbsence call priorSnapshotHash = true) (hunstaged : isStaged call i = false)
    (hplain : isRefreshable i = true)
    (hnot : isIocSuppressed i.observable i.observableType = false) :
    HasRecomputedStatus isIocSuppressed call.now
        (finalizeUsomImport createdAt feedId call db priorSnapshotHash).db.tables i ↔
      i.status = foldStatus (db.tables.membershipsFor i) ∧ i.expiresAt =
        minExpires ((db.tables.membershipsFor i).map (markAbsent feedId call db.tables)) := by
  have hsame : refreshStep call (markedDb createdAt feedId call db priorSnapshotHash).tables i = i :=
    refreshStep_of_not_isStaged hunstaged
  have hmem : i ∈ (finalizeUsomImport createdAt feedId call db priorSnapshotHash).db.tables.items := by
    rw [items_finalizeUsomImport]
    exact List.mem_map.mpr ⟨i, item_insertNewIocs createdAt call db hi, hsame⟩
  have hmemberships := membershipsFor_finalizeUsomImport createdAt feedId call db priorSnapshotHash i
  rw [hsame, membershipsFor_of_not_isStaged hmarks hunstaged] at hmemberships
  rw [hasRecomputedStatus_iff hmem hplain hnot, hmemberships, foldStatus_markAbsent]

variable (createdAt feedId call db priorSnapshotHash) in
/-- The bulk import applies the rules of the row importer exactly under the condition on
overrides, expired rows and newly missing rows. -/
theorem appliesRowRules_iff (isIocSuppressed : String → String → Bool) :
    AppliesRowRules createdAt feedId call db priorSnapshotHash isIocSuppressed ↔
      RulesAgree createdAt feedId call db priorSnapshotHash isIocSuppressed := by
  have hresult := items_finalizeUsomImport createdAt feedId call db priorSnapshotHash
  constructor
  · rintro ⟨hmemberships, hitems⟩
    obtain ⟨hoverrides, hsiblings⟩ := memberships_agree_iff.mp hmemberships
    refine ⟨hoverrides, hsiblings, fun i hi hstaged hplain hnot => ?_,
      fun hmarks i hi hplain hnot habsent => ?_⟩
    · have hi' := item_insertNewIocs createdAt call db hi
      have hrecomputed := hitems _ (by rw [hresult]; exact List.mem_map_of_mem hi')
        (.inl ((isStaged_refreshStep call i).trans hstaged))
        ((isRefreshable_refreshStep i).trans hplain)
        ((suppressed_refreshStep isIocSuppressed i).trans hnot)
      rwa [staged_recomputed_iff hi' hstaged hplain hnot, endsActive_iff hi] at hrecomputed
    · obtain ⟨m, hm, hmissing, hnew⟩ := habsent
      obtain ⟨hold, i₀, hi₀, hkey, hobserved⟩ := mem_membershipsFor.mp hm
      have hunstaged := isStaged_of_isAbsent hi₀ hkey hobserved hmissing
      refine (missing_recomputed_iff hi hmarks hunstaged
        hplain hnot).mp (hitems i ?_ (.inr ⟨m, ?_, hnew, i₀, ?_, hkey, hobserved⟩) hplain hnot)
      · rw [hresult]
        exact List.mem_map.mpr ⟨i, item_insertNewIocs createdAt call db hi,
          refreshStep_of_not_isStaged hunstaged⟩
      · exact newlyMissing_iff.mpr ⟨hmarks, hold, hmissing⟩
      · rw [items_policedDb]
        exact item_insertNewIocs createdAt call db hi₀
  · rintro ⟨hoverrides, hsiblings, hexpired, hmissing⟩
    refine ⟨memberships_agree_iff.mpr ⟨hoverrides, hsiblings⟩, fun i' hi' htouched hplain hnot => ?_⟩
    rw [hresult] at hi'
    obtain ⟨i, hi, rfl⟩ := List.mem_map.mp hi'
    rw [isRefreshable_refreshStep] at hplain
    rw [suppressed_refreshStep isIocSuppressed i] at hnot
    cases hstaged : isStaged call i with
    | true =>
      rw [staged_recomputed_iff hi hstaged hplain hnot]
      by_cases hold : i ∈ db.tables.items
      · rw [endsActive_iff hold]
        exact hexpired i hold hstaged hplain hnot
      · exact .inl (new_item hi hold).2
    | false =>
      rcases htouched with hin | ⟨m, hm, hnew, i₀, hi₀, hkey, hobserved⟩
      · rw [isStaged_refreshStep, hstaged] at hin
        cases hin
      · obtain ⟨hmarks, hold, habsent⟩ := newlyMissing_iff.mp hm
        rw [items_policedDb] at hi₀
        rw [refreshStep_observed] at hobserved
        have hi₀ := item_of_membership hold hi₀ hkey
        have hi : i ∈ db.tables.items := by
          by_contra hadded
          rw [(new_item hi hadded).1] at hstaged
          cases hstaged
        rw [refreshStep_of_not_isStaged hstaged]
        exact (missing_recomputed_iff hi hmarks hstaged
          hplain hnot).mpr (hmissing hmarks i hi hplain hnot
            ⟨m, mem_membershipsFor.mpr ⟨hold, i₀, hi₀, hkey, hobserved⟩, habsent, hnew⟩)

end Items

/-- A domain whose membership is held active until a date. -/
def heldUntil (date : ℤ) : UsomDb :=
  (importUsom (fun _ => none) 1 (importOf "a.test" 1) emptyDb).db.updateMemberships
    (fun m => { m with
      overrideEnabled := true
      overrideStatus := some .active
      overrideExpiresAt := some date
      expiresAt := some date })
    (fun _ => ⟨rfl, rfl⟩)

/-- The next import of the domain drops the date from `expires_at`. -/
theorem override_date_lost :
    ¬ AppliesRowRules (fun _ => none) 1 (importOf "a.test" 2) (heldUntil 9) none
      fun _ _ => false := by
  intro h
  have hoverrides := (memberships_agree_iff.mp h.memberships).1
  exact absurd hoverrides (by decide)

end TalonHound.Usom
