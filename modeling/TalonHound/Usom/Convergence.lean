import TalonHound.Usom.Counters
import TalonHound.Usom.Reimport

/-!
# Imports of an unchanged snapshot

When the second of two imports with the same entries writes nothing and counts nothing, and the
counters of an import against the memberships that it wrote.
-/

namespace TalonHound.Usom

open List TalonHound.IocExpiration

/-- The second of two imports wrote no row and counted every entry as unchanged. -/
structure IsNoOp (first second : FinalizeResult) : Prop where
  outcomes : ∀ o ∈ second.outcomes, o = .unchanged
  counts : second.count .created = 0 ∧ second.count .changed = 0 ∧ second.count .reactivated = 0
  removed : second.newlyMissing = 0
  items : second.db.tables.items = first.db.tables.items
  memberships : second.db.tables.memberships = first.db.tables.memberships
  evidence : second.db.evidence = first.db.evidence
  observables : second.db.observables = first.db.observables
  writes : ∀ n ∈ second.writes, n = 0

/-- Every staged observable has a row already, staged memberships are live after the import, and
no membership is absent where the next import would mark absence. -/
structure Converges (createdAt : ItemKey → Option ℤ) (feedId : ℕ) (call : FinalizeCall)
    (db : UsomDb) : Prop where
  known : ∀ e ∈ call.kept.entries, ∃ i ∈ db.tables.items, i.observed = e.observed
  live : ∀ m ∈ db.tables.memberships, ∀ e ∈ stagedEntry feedId (canonicalBefore createdAt call db) m,
    staysLive (call.policyFor feedId m) call.seenAt e m = true
  present : marksAbsence call call.snapshotHash = true →
    ∀ m ∈ db.tables.memberships, isAbsent feedId call db.tables m = false

variable {createdAt : ItemKey → Option ℤ} {feedId : ℕ} {call : FinalizeCall} {db : UsomDb}
  {e : StageEntry} {m : Membership} {i : IocItem} {key : ItemKey} {c : CanonicalRow}

section Second

variable {after : UsomDb} (hafter : after = afterImport createdAt feedId call db)

include hafter

/-- The staged memberships are live after an import exactly under the condition on the ones from
before. -/
theorem live_iff :
    (∀ m ∈ after.tables.memberships,
      (stagedEntry feedId (canonicalRows createdAt call db) m).isSome = true → m.isLive = true) ↔
      ∀ m ∈ db.tables.memberships, ∀ e ∈ stagedEntry feedId (canonicalBefore createdAt call db) m,
        staysLive (call.policyFor feedId m) call.seenAt e m = true := by
  obtain ⟨news, hmemberships, hnews⟩ := memberships_markedDb
  rw [memberships_afterImport hafter, hmemberships, forall_mem_map]
  have hstaged : ∀ m, stagedEntry feedId (canonicalRows createdAt call db)
      (finalMembership createdAt feedId call db db.fullSnapshotHash m) =
        stagedEntry feedId (canonicalRows createdAt call db) m := fun m =>
    stagedEntry_congr (finalMembership_same _ _ _ _ _ m).2
  constructor
  · intro h m hm e he
    rw [← stagedEntry_canonicalBefore hm] at he
    have hlive := h m (mem_append_left _ hm) (by rw [hstaged, Option.mem_def.mp he]; rfl)
    rwa [finalMembership_staged he, isLive_settle] at hlive
  · intro h m hm hsome
    rw [hstaged] at hsome
    obtain ⟨e, he⟩ := Option.isSome_iff_exists.mp hsome
    rw [finalMembership_staged he, isLive_settle]
    rcases mem_append.mp hm with hold | hnew
    · refine h m hold e ?_
      rw [← stagedEntry_canonicalBefore hold]
      exact he
    · obtain ⟨c, hc, key, id, hitem, -, rfl⟩ := hnews m hnew
      rw [stagedEntry_inserted feedId hc hitem] at he
      cases he
      exact inserted_staysLive feedId call id key c.entry

theorem isAbsent_afterImport_tables (m : Membership) :
    isAbsent feedId call after.tables m =
      isAbsent feedId call (insertNewIocs createdAt call db).tables m := by
  unfold isAbsent
  rw [items_afterImport hafter, any_map]
  congr 3
  funext i
  simp only [Function.comp, refreshStep_key, refreshStep_observed]

/-- Absence after an import is absence before it. -/
theorem isAbsent_afterImport (hm : m ∈ db.tables.memberships) :
    isAbsent feedId call after.tables
        (finalMembership createdAt feedId call db db.fullSnapshotHash m) =
      isAbsent feedId call db.tables m := by
  rw [isAbsent_afterImport_tables hafter, ← isAbsent_insertNewIocs hm]
  have hkey := (finalMembership_same createdAt feedId call db db.fullSnapshotHash m).2
  cases hstaged : stagedEntry feedId (canonicalRows createdAt call db) m with
  | some e =>
    obtain ⟨-, -, he, i, hi, hitem, hobserved⟩ := staged_facts hstaged
    rw [isAbsent_of_staged hi (hitem.trans (congrArg MembershipKey.item hkey).symm) he hobserved,
      isAbsent_of_staged hi hitem he hobserved]
  | none =>
    refine isAbsent_of_columns ?_ hkey
    unfold finalMembership
    rw [hstaged]
    dsimp only
    split
    · exact (markAbsent_columns feedId call _ m).1
    · rfl

/-- The second import marks absence under its own hash. -/
theorem marksAbsence_afterImport : marksAbsence call after.fullSnapshotHash =
      marksAbsence call call.snapshotHash := by
  have hhash : after.fullSnapshotHash =
      if call.mode = .fullReconciliation ∧ call.snapshotStable then call.snapshotHash
      else db.fullSnapshotHash := by
    subst hafter
    rfl
  rw [hhash]
  split
  · rfl
  · next hnot =>
    unfold marksAbsence
    cases hstable : call.snapshotStable with
    | false => simp
    | true =>
      have hmode : call.mode ≠ .fullReconciliation := fun hmode => hnot ⟨hmode, hstable⟩
      simp [hmode]

theorem present_iff :
    (marksAbsence call after.fullSnapshotHash = true → ∀ m ∈ after.tables.memberships,
        isAbsent feedId call after.tables m = false) ↔
      (marksAbsence call call.snapshotHash = true →
        ∀ m ∈ db.tables.memberships, isAbsent feedId call db.tables m = false) := by
  obtain ⟨news, hmemberships, hnews⟩ := memberships_markedDb
  rw [marksAbsence_afterImport hafter, memberships_afterImport hafter, hmemberships, forall_mem_map]
  refine imp_congr_right fun _ => ⟨fun h m hm => ?_, fun h m hm => ?_⟩
  · rw [← isAbsent_afterImport hafter hm]
    exact h m (mem_append_left _ hm)
  · rcases mem_append.mp hm with hold | hnew
    · rw [isAbsent_afterImport hafter hold]
      exact h m hold
    · obtain ⟨c, hc, key, id, hitem, -, rfl⟩ := hnews m hnew
      have hstaged := stagedEntry_inserted feedId hc hitem id call.seenAt
      obtain ⟨-, -, he, i, hi, hikey, hobserved⟩ := staged_facts hstaged
      have hkey := (finalMembership_same createdAt feedId call db db.fullSnapshotHash
        (insertedMembership id feedId key c.entry call.seenAt)).2
      rw [isAbsent_afterImport_tables hafter]
      exact isAbsent_of_staged hi (hikey.trans (congrArg MembershipKey.item hkey).symm) he hobserved

/-- The second import inserts no observable exactly when every staged observable had a row. -/
theorem observables_iff : (insertNewIocs createdAt call after).observables = after.observables ↔
      ∀ e ∈ call.kept.entries, ∃ i ∈ db.tables.items, i.observed = e.observed := by
  -- The observables of the two imports.
  have hsecond : insertNewIocs createdAt call after =
      insertObservables (canonicalRows createdAt call db) after := by
    have hitems : insertNewItems call.kept after = after :=
      insertNewItems_of_known fun e he => known_afterImport hafter he
    unfold insertNewIocs
    rw [canonicalBefore_afterImport hafter, hitems]
  have hfirst : after.observables =
      (insertObservables (canonicalBefore createdAt call db)
        (insertNewItems call.kept db)).observables := observables_afterImport hafter
  obtain ⟨news₁, hobservables₁, hnews₁, hall₁⟩ :=
    insertObservables_spec (canonicalBefore createdAt call db) (insertNewItems call.kept db)
  obtain ⟨news₂, hobservables₂, hnews₂, hall₂⟩ :=
    insertObservables_spec (canonicalRows createdAt call db) after
  have hbase : (insertNewItems call.kept db).observables = db.observables :=
    observables_insertNewItems call.kept.entries db
  rw [hbase] at hobservables₁
  rw [hsecond]
  constructor
  · intro hsame e he
    by_contra hunknown
    rcases itemKeys_insertNewIocs createdAt call db e.observed with hold | ⟨-, hnew⟩
    · obtain ⟨i, hi, hobserved⟩ := (insertNewIocs_spec createdAt call db).staged e he
      have hmem : i.key ∈ itemKeys (insertNewIocs createdAt call db).tables e.observed :=
        mem_itemKeys.mpr ⟨i, hi, hobserved, rfl⟩
      rw [hold] at hmem
      obtain ⟨i', hi', hobserved', -⟩ := mem_itemKeys.mp hmem
      exact hunknown ⟨i', hi', hobserved'⟩
    · -- The row of a new IOC has a new id.
      have hc : (⟨e, oldest createdAt
          (itemKeys (insertNewIocs createdAt call db).tables e.observed)⟩ : CanonicalRow) ∈
            canonicalRows createdAt call db := mem_map_of_mem he
      obtain ⟨i, hi, hitem, -⟩ := canonicalRows_item hc
      have hid : db.nextItem ≤ i.key.id := hnew i.key (oldest_mem hitem)
      have hrow := hall₂ _ hc i.key hitem (by
        rw [nextItem_afterImport hafter]
        exact (insertNewIocs createdAt call db).items_lt i hi)
      rw [hsame, hfirst, hobservables₁] at hrow
      rcases mem_append.mp hrow with hin | hin
      · have hlt := db.observables_lt _ hin
        change i.key.id < db.nextItem at hlt
        omega
      · obtain ⟨-, c', hc', key', hitem', hsame'⟩ := hnews₁ _ hin
        obtain ⟨-, holdest⟩ := mem_buildStageCanonical hc'
        obtain ⟨i', hi', -, rfl⟩ := mem_itemKeys.mp (oldest_mem (holdest.symm.trans hitem'))
        have hlt := db.items_lt i' hi'
        have hkey : i.key.id = i'.id := congrArg (fun o => o.item.id) hsame'
        omega
  · intro hknown
    have hnone : news₂ = [] := by
      rw [eq_nil_iff_forall_not_mem]
      intro row hrow
      obtain ⟨hfresh, c, hc, key, hitem, rfl⟩ := hnews₂ row hrow
      obtain ⟨he, -⟩ := mem_buildStageCanonical hc
      obtain ⟨i, hi, hobserved⟩ := hknown c.entry he
      have hc₁ := (mem_canonicalRows_iff hi hobserved.symm).mp hc
      rw [hfirst] at hfresh
      refine hfresh (hall₁ c hc₁ key hitem ?_)
      obtain ⟨-, holdest⟩ := mem_buildStageCanonical hc₁
      obtain ⟨i', hi', -, rfl⟩ := mem_itemKeys.mp (oldest_mem (holdest.symm.trans hitem))
      have hlt := db.items_lt i' hi'
      have hnext := (insertNewItems_spec call.kept.entries db).nextItem
      exact lt_of_lt_of_le hlt hnext
    rw [hobservables₂, hnone, append_nil]

/-- The row counts of a second import that finds the staged memberships live, no absent membership
and all observables. -/
theorem writes_afterImport
    (hlive : ∀ m ∈ after.tables.memberships,
      (stagedEntry feedId (canonicalRows createdAt call db) m).isSome = true → m.isLive = true)
    (habsent : marksAbsence call after.fullSnapshotHash = true → ∀ m ∈ after.tables.memberships,
        isAbsent feedId call after.tables m = false)
    (hobservables : (insertNewIocs createdAt call after).observables = after.observables) :
    ∀ n ∈ writes createdAt feedId call after after.fullSnapshotHash, n = 0 := by
  obtain ⟨htables, hcanonical⟩ := insertNewIocs_afterImport hafter
  obtain ⟨hadopted, hadopts⟩ := adoptedDb_afterImport hafter
  have hupserted := upsertedDb_afterImport hafter hlive
  have hsettled : ∀ c ∈ canonicalRows createdAt call db, EvidenceSettled feedId
      (upsertEvidence feedId (canonicalRows createdAt call db) db.evidence) c :=
    evidenceSettled_upsertEvidence
      (fun c hc c' hc' key hkey hkey' => canonical_inj hc hc' hkey hkey') db.evidence
  have hevidence : (upsertedDb createdAt feedId call after).evidence =
      upsertEvidence feedId (canonicalRows createdAt call db) db.evidence :=
    evidence_upsertedDb.trans (evidence_afterImport hafter)
  have hitems : (markedDb createdAt feedId call after after.fullSnapshotHash).tables.items =
        after.tables.items := by
    rw [items_markedDb, htables]
  unfold writes
  simp only [forall_mem_cons, not_mem_nil, false_implies, implies_true, and_true]
  rw [hcanonical, htables, hobservables, hadopted, hupserted, hevidence, hitems,
    absentRows_afterImport habsent]
  refine ⟨Nat.sub_self _, Nat.sub_self _, ?_, ?_, Nat.sub_self _, evidenceWrites_of_settled hsettled,
    ?_, rfl, ?_⟩
  · rw [countP_eq_zero]
    intro m hm hboth
    rw [Bool.and_eq_true] at hboth
    rw [hadopts m hm hboth.1] at hboth
    cases hboth.2
  · rw [countP_eq_zero]
    intro m hm hany
    obtain ⟨e, hstaged, hupserts⟩ := (Option.any_eq_true _ _).mp hany
    rw [upserts_afterImport hafter hlive hm hstaged] at hupserts
    cases hupserts
  · rw [countP_eq_zero]
    intro m hm hall
    rw [Bool.and_eq_true, Bool.and_eq_true] at hall
    obtain ⟨e, hstaged⟩ := Option.isSome_iff_exists.mp hall.1.1
    obtain ⟨m₀, rfl⟩ := staged_afterImport hafter hm hstaged
    rw [policyChanges_settle feedId call e m₀] at hall
    cases hall.2
  · rw [countP_eq_zero]
    intro i hi hboth
    have hnot := refreshes_afterImport hafter (markedDb_afterImport hafter hlive habsent) hi
    rw [Bool.eq_false_iff] at hnot
    exact hnot hboth

omit hafter in
/-- The second import is a no-op exactly when it finds the staged memberships live, no absent
membership and all observables. -/
theorem isNoOp_iff {first : FinalizeResult} (hfirst : first = importUsom createdAt feedId call db) :
    IsNoOp first (importUsom createdAt feedId call first.db) ↔
      (∀ e ∈ call.kept.entries, ∃ i ∈ db.tables.items, i.observed = e.observed) ∧
      (∀ m ∈ db.tables.memberships, ∀ e ∈ stagedEntry feedId (canonicalBefore createdAt call db) m,
        staysLive (call.policyFor feedId m) call.seenAt e m = true) ∧
      (marksAbsence call call.snapshotHash = true →
        ∀ m ∈ db.tables.memberships, isAbsent feedId call db.tables m = false) := by
  have hafter : first.db = afterImport createdAt feedId call db := congrArg FinalizeResult.db hfirst
  rw [← observables_iff hafter, ← live_iff hafter, ← present_iff hafter]
  constructor
  · intro h
    refine ⟨?_, (outcomes_afterImport hafter).mp h.outcomes, fun hmarks m hm => ?_⟩
    · rw [← observables_afterImport rfl]
      exact h.observables
    · have hrows : (absentRows createdAt feedId call first.db first.db.fullSnapshotHash).length = 0 :=
        h.writes _ (by simp [importUsom, finalizeUsomImport, writes])
      rw [length_eq_zero_iff] at hrows
      rw [Bool.eq_false_iff]
      intro hmissing
      have hin : m ∈ absentRows createdAt feedId call _ _ :=
        newlyMissing_iff.mpr ⟨hmarks, hm, hmissing⟩
      rw [hrows] at hin
      cases hin
  · rintro ⟨hobservables, hlive, habsent⟩
    have houtcomes := (outcomes_afterImport hafter).mpr hlive
    have hmarked := markedDb_afterImport hafter hlive habsent
    have hnone : ∀ o ≠ .unchanged, (outcomes createdAt feedId call first.db).count o = 0 := by
      intro o ho
      rw [count_eq_zero]
      exact fun hmem => ho (houtcomes o hmem)
    refine ⟨houtcomes, ⟨hnone _ (by decide), hnone _ (by decide), hnone _ (by decide)⟩, ?_,
      refreshStep_afterImport hafter hmarked, hmarked, ?_, ?_,
      writes_afterImport hafter hlive habsent hobservables⟩
    · have hremoved : (importUsom createdAt feedId call first.db).newlyMissing =
        (absentRows createdAt feedId call first.db first.db.fullSnapshotHash).countP
            (·.missingSince.isNone) := rfl
      rw [hremoved, absentRows_afterImport habsent]
      rfl
    · have hsecond : (importUsom createdAt feedId call first.db).db.evidence = _ :=
        evidence_afterImport rfl
      rw [hsecond, (insertNewIocs_afterImport hafter).2, evidence_afterImport hafter]
      refine upsertEvidence_of_settled ?_
      exact evidenceSettled_upsertEvidence
        (fun c hc c' hc' key hkey hkey' => canonical_inj hc hc' hkey hkey') db.evidence
    · have hsecond : (importUsom createdAt feedId call first.db).db.observables = _ :=
        observables_afterImport rfl
      exact hsecond.trans hobservables

/-- Where the second import is a no-op, its counters are right as well. -/
theorem countsMemberships_afterImport (h : Converges createdAt feedId call db) :
    CountsMemberships after (importUsom createdAt feedId call after) := by
  have hlive := (live_iff hafter).mpr h.live
  refine ⟨count_created, count_reactivated ?_, count_changed⟩
  intro m hm e hstaged
  rw [canonicalBefore_afterImport hafter] at hstaged
  have hisLive := hlive m hm (by rw [Option.mem_def.mp hstaged]; rfl)
  obtain ⟨m₀, rfl⟩ := staged_afterImport hafter hm hstaged
  rw [← isLive_settle, settle_settle hisLive]
  exact hisLive

end Second

variable (createdAt feedId call db) in
/-- Imported twice, a stage is a no-op the second time and both imports count the memberships that
they wrote, exactly when the first import converges. -/
theorem reimport_iff {now' : ℤ}
    (hkept : FinalizeCall.kept { call with now := now' } = call.kept) :
    (IsNoOp (importUsom createdAt feedId call db)
        (importUsom createdAt feedId { call with now := now' }
          (importUsom createdAt feedId call db).db) ∧
      CountsMemberships db (importUsom createdAt feedId call db) ∧
      CountsMemberships (importUsom createdAt feedId call db).db
        (importUsom createdAt feedId { call with now := now' }
          (importUsom createdAt feedId call db).db)) ↔
      Converges createdAt feedId call db := by
  rw [importUsom_now hkept]
  constructor
  · rintro ⟨hnoop, -, -⟩
    obtain ⟨hknown, hlive, hpresent⟩ := (isNoOp_iff rfl).mp hnoop
    exact ⟨hknown, hlive, hpresent⟩
  · intro h
    refine ⟨(isNoOp_iff rfl).mpr ⟨h.known, h.live, h.present⟩,
      ⟨count_created, count_reactivated h.live, count_changed⟩, ?_⟩
    exact countsMemberships_afterImport rfl h

/-- A domain that was imported before: the next two imports agree, whatever the time. -/
theorem reimport_iff_known :
    IsNoOp (importUsom (fun _ => none) 1 (importOf "a.test" 2)
        (importUsom (fun _ => none) 1 (importOf "a.test" 1) emptyDb).db)
      (importUsom (fun _ => none) 1 { importOf "a.test" 2 with now := 3 }
        (importUsom (fun _ => none) 1 (importOf "a.test" 2)
          (importUsom (fun _ => none) 1 (importOf "a.test" 1) emptyDb).db).db) :=
  ((reimport_iff (fun _ => none) 1 (importOf "a.test" 2)
    (importUsom (fun _ => none) 1 (importOf "a.test" 1) emptyDb).db rfl).mpr
      ⟨by decide, by decide, by decide⟩).1

/-- A new domain: only the second import inserts its row of `ioc_observables`. -/
theorem new_domain_reimport : ¬ IsNoOp (importUsom (fun _ => none) 1 (importOf "a.test" 1) emptyDb)
      (importUsom (fun _ => none) 1 (importOf "a.test" 1)
        (importUsom (fun _ => none) 1 (importOf "a.test" 1) emptyDb).db) :=
  fun h => absurd h.observables (by decide)

end TalonHound.Usom
