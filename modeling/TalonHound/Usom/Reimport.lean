import TalonHound.Usom.SecondRun

/-!
# The tables after an import, imported again

What the stages of a second import of the same entries find and write.
-/

namespace TalonHound.Usom

open TalonHound.IocExpiration

variable {createdAt : ItemKey → Option ℤ} {feedId : ℕ} {call : FinalizeCall} {db : UsomDb}
  {e : StageEntry} {m : Membership} {i : IocItem} {key : ItemKey} {c : CanonicalRow}

/-- The tables after an import. -/
def afterImport (createdAt : ItemKey → Option ℤ) (feedId : ℕ) (call : FinalizeCall) (db : UsomDb) :
    UsomDb := (importUsom createdAt feedId call db).db

/-- The statements on memberships leave the evidence alone. -/
theorem evidence_upsertedDb : (upsertedDb createdAt feedId call db).evidence = db.evidence := by
  have hspec := upsertedDb_spec createdAt feedId call db
  exact hspec.evidence.trans (insertNewIocs_spec createdAt call db).evidence

/-- The observables and the evidence after an import, and the next id. -/
theorem frame_markedDb {priorSnapshotHash : Option String} :
    (markedDb createdAt feedId call db priorSnapshotHash).observables =
        (insertNewIocs createdAt call db).observables ∧
      (markedDb createdAt feedId call db priorSnapshotHash).evidence =
        upsertEvidence feedId (canonicalRows createdAt call db) db.evidence ∧
      (markedDb createdAt feedId call db priorSnapshotHash).nextItem =
        (insertNewIocs createdAt call db).nextItem := by
  have hspec := upsertedDb_spec createdAt feedId call db
  have hpoliced : (policedDb createdAt feedId call db).evidence =
      upsertEvidence feedId (canonicalRows createdAt call db)
        (upsertedDb createdAt feedId call db).evidence := rfl
  rw [evidence_upsertedDb] at hpoliced
  unfold markedDb
  split
  · exact ⟨hspec.observables, hpoliced, hspec.nextItem⟩
  · exact ⟨hspec.observables, hpoliced, hspec.nextItem⟩

/-- Where every entry has a row, none is inserted. -/
theorem insertNewItems_of_known {entries : List StageEntry}
    (h : ∀ e ∈ entries, ∃ i ∈ db.tables.items, i.observed = e.observed) :
    entries.foldl insertNewItem db = db := by
  induction entries with
  | nil => rfl
  | cons e entries ih =>
    obtain ⟨i, hi, hobserved⟩ := h e List.mem_cons_self
    have hstep : insertNewItem db e = db :=
      if_pos (List.any_eq_true.mpr ⟨i, hi, decide_eq_true hobserved⟩)
    rw [List.foldl_cons, hstep]
    exact ih fun e' he' => h e' (List.mem_cons_of_mem _ he')

theorem tables_insertNewIocs_of_known
    (h : ∀ e ∈ call.kept.entries, ∃ i ∈ db.tables.items, i.observed = e.observed) :
    (insertNewIocs createdAt call db).tables = db.tables ∧
      canonicalRows createdAt call db = canonicalBefore createdAt call db := by
  have htables : (insertNewIocs createdAt call db).tables = db.tables := by
    have hsame : insertNewItems call.kept db = db := insertNewItems_of_known h
    unfold insertNewIocs
    rw [(insertObservables_frame (canonicalBefore createdAt call db)
      (insertNewItems call.kept db)).1, hsame]
  refine ⟨htables, ?_⟩
  unfold canonicalRows canonicalBefore
  rw [htables]

/-- An update that passes over staged memberships passes over all. -/
theorem map_onStaged_eq_self {canonical : List CanonicalRow} {memberships : List Membership}
    {f : StageEntry → Membership → Membership}
    (h : ∀ m ∈ memberships, ∀ e, stagedEntry feedId canonical m = some e → f e m = m) :
    memberships.map (onStaged feedId canonical f) = memberships := by
  refine Rows.map_eq_self fun m hm => ?_
  unfold onStaged
  split
  · next e hstaged => exact h m hm e hstaged
  · rfl

/-- The refresh passes over what it has written. -/
theorem refreshes_refreshItem (seenAt : ℤ) (memberships : List Membership) (i : IocItem) :
    refreshes seenAt memberships (refreshItem seenAt memberships i) = false := by
  unfold refreshItem
  cases hrefreshes : refreshes seenAt memberships i with
  | false =>
    rw [if_neg Bool.false_ne_true]
    exact hrefreshes
  | true =>
    rw [if_pos rfl]
    have hfields : (i.withFields (refreshedFields seenAt memberships i)).fields =
        refreshedFields seenAt memberships i := rfl
    have hsame : refreshedFields seenAt memberships
        (i.withFields (refreshedFields seenAt memberships i)) =
          refreshedFields seenAt memberships i := by
      unfold refreshedFields IocItem.withFields
      split
      · rfl
      · cases i.expiredAt <;> cases i.expirationReason <;> rfl
    unfold refreshes
    rw [hsame, hfields]
    simp

section Second

variable {after : UsomDb} (hafter : after = afterImport createdAt feedId call db)

include hafter

theorem items_afterImport : after.tables.items = (insertNewIocs createdAt call db).tables.items.map
      (refreshStep call (markedDb createdAt feedId call db db.fullSnapshotHash).tables) := by
  subst hafter
  exact items_finalizeUsomImport createdAt feedId call db db.fullSnapshotHash

theorem memberships_afterImport : after.tables.memberships =
    (markedDb createdAt feedId call db db.fullSnapshotHash).tables.memberships := by
  subst hafter
  rfl

theorem observables_afterImport : after.observables =
    (insertNewIocs createdAt call db).observables := by
  subst hafter
  exact frame_markedDb.1

theorem evidence_afterImport : after.evidence =
    upsertEvidence feedId (canonicalRows createdAt call db) db.evidence := by
  subst hafter
  exact frame_markedDb.2.1

theorem nextItem_afterImport : after.nextItem = (insertNewIocs createdAt call db).nextItem := by
  subst hafter
  exact frame_markedDb.2.2

theorem itemKeys_afterImport (o : Observed) :
    itemKeys after.tables o = itemKeys (insertNewIocs createdAt call db).tables o := by
  unfold itemKeys
  rw [items_afterImport hafter, List.filter_map, List.map_map]
  have hkey : IocItem.key ∘ refreshStep call
      (markedDb createdAt feedId call db db.fullSnapshotHash).tables = IocItem.key :=
    funext refreshStep_key
  have hobserved : (fun i : IocItem => decide (i.observed = o)) ∘ refreshStep call
      (markedDb createdAt feedId call db db.fullSnapshotHash).tables =
        fun i => decide (i.observed = o) := by
    funext i
    simp only [Function.comp, refreshStep_observed]
  rw [hkey, hobserved]

/-- The second import classifies with the canonical rows that the first one wrote with. -/
theorem canonicalBefore_afterImport : canonicalBefore createdAt call after =
      canonicalRows createdAt call db :=
  buildStageCanonical_congr (itemKeys_afterImport hafter)

/-- Every staged observable has a row after an import. -/
theorem known_afterImport (he : e ∈ call.kept.entries) :
    ∃ i ∈ after.tables.items, i.observed = e.observed := by
  obtain ⟨i, hi, hobserved⟩ := (insertNewIocs_spec createdAt call db).staged e he
  subst hafter
  obtain ⟨i', hi', -, hobserved'⟩ := item_finalizeUsomImport hi
  exact ⟨i', hi', hobserved'.trans hobserved⟩

/-- The second import inserts no IOC, and all its statements join the same canonical rows. -/
theorem insertNewIocs_afterImport : (insertNewIocs createdAt call after).tables = after.tables ∧
      canonicalRows createdAt call after = canonicalRows createdAt call db := by
  obtain ⟨htables, hcanonical⟩ := tables_insertNewIocs_of_known
    fun _ he => known_afterImport hafter he
  exact ⟨htables, hcanonical.trans (canonicalBefore_afterImport hafter)⟩

/-- What the second import finds of a staged membership. -/
theorem staged_afterImport (hm : m ∈ after.tables.memberships)
    (hstaged : stagedEntry feedId (canonicalRows createdAt call db) m = some e) :
    ∃ m₀, m = settle feedId call e m₀ := by
  obtain ⟨news, hmemberships, -⟩ := memberships_markedDb
  rw [memberships_afterImport hafter, hmemberships] at hm
  obtain ⟨m₀, -, rfl⟩ := List.mem_map.mp hm
  rw [stagedEntry_congr
    (finalMembership_same createdAt feedId call db db.fullSnapshotHash m₀).2] at hstaged
  exact ⟨m₀, finalMembership_staged hstaged⟩

/-- The membership of a canonical row after an import. -/
theorem membership?_afterImport (hc : c ∈ canonicalRows createdAt call db)
    (hkey : c.item = some key) :
    ∃ m ∈ after.tables.memberships, after.tables.membership? ⟨key, feedId⟩ = some m ∧
        stagedEntry feedId (canonicalRows createdAt call db) m = some c.entry := by
  obtain ⟨m, hm, hsame⟩ := List.mem_map.mp (present_markedDb hc hkey)
  rw [← memberships_afterImport hafter] at hm
  refine ⟨m, hm, ?_, ?_⟩
  · rw [← hsame]
    exact Rows.lookup_key after.tables.unique_membership hm
  · refine stagedEntry_eq_some.mpr ⟨congrArg MembershipKey.feedId hsame, c, hc, ?_, rfl⟩
    rw [hkey]
    exact congrArg some (congrArg MembershipKey.item hsame).symm

/-- The second import finds every entry unchanged exactly when the staged memberships are live. -/
theorem outcomes_afterImport : (∀ o ∈ outcomes createdAt feedId call after, o = .unchanged) ↔
      ∀ m ∈ after.tables.memberships,
        (stagedEntry feedId (canonicalRows createdAt call db) m).isSome = true →
          m.isLive = true := by
  have houtcomes : outcomes createdAt feedId call after =
      (canonicalRows createdAt call db).map fun c => classify c.entry (c.item.bind fun key =>
        after.tables.membership? ⟨key, feedId⟩) := by
    unfold outcomes
    rw [canonicalBefore_afterImport hafter]
  have hclassify : ∀ m ∈ after.tables.memberships, ∀ e,
      stagedEntry feedId (canonicalRows createdAt call db) m = some e →
        (classify e (some m) = .unchanged ↔ m.isLive = true) := by
    intro m hm e hstaged
    obtain ⟨m₀, rfl⟩ := staged_afterImport hafter hm hstaged
    unfold classify
    dsimp only
    rw [isHealthy_settle, (settle_columns feedId call e m₀).1]
    cases (settle feedId call e m₀).isLive <;> simp
  rw [houtcomes, List.forall_mem_map]
  constructor
  · intro h m hm hsome
    obtain ⟨e, hstaged⟩ := Option.isSome_iff_exists.mp hsome
    obtain ⟨hfeed, c, hc, hitem, rfl⟩ := stagedEntry_eq_some.mp hstaged
    have hmkey : m.key = ⟨m.itemKey, feedId⟩ := congrArg (MembershipKey.mk m.itemKey) hfeed
    have hlookup : after.tables.membership? ⟨m.itemKey, feedId⟩ = some m := by
      rw [← hmkey]
      exact Rows.lookup_key after.tables.unique_membership hm
    have hunchanged := h c hc
    rw [hitem, Option.bind_some, hlookup] at hunchanged
    exact (hclassify m hm c.entry hstaged).mp hunchanged
  · intro h c hc
    obtain ⟨i, -, hitem, -⟩ := canonicalRows_item hc
    obtain ⟨m, hm, hlookup, hstaged⟩ := membership?_afterImport hafter hc hitem
    rw [hitem, Option.bind_some, hlookup]
    refine (hclassify m hm c.entry hstaged).mpr (h m hm ?_)
    rw [hstaged]
    rfl

/-- The second import adopts no fingerprint. -/
theorem adoptedDb_afterImport : (adoptedDb createdAt feedId call after).tables.memberships =
        after.tables.memberships ∧
      ∀ m ∈ after.tables.memberships,
        (stagedEntry feedId (canonicalRows createdAt call db) m).isSome = true →
          adopts m = false := by
  obtain ⟨htables, hcanonical⟩ := insertNewIocs_afterImport hafter
  have hadopts : ∀ m ∈ after.tables.memberships, ∀ e,
      stagedEntry feedId (canonicalRows createdAt call db) m = some e → adopts m = false := by
    intro m hm e hstaged
    obtain ⟨m₀, rfl⟩ := staged_afterImport hafter hm hstaged
    unfold adopts
    rw [(settle_columns feedId call e m₀).1]
    rfl
  constructor
  · have hmap : (adoptedDb createdAt feedId call after).tables.memberships =
        (insertNewIocs createdAt call after).tables.memberships.map
          (onStaged feedId (canonicalRows createdAt call after) adoptMissingFingerprint) := rfl
    rw [hmap, htables, hcanonical]
    refine map_onStaged_eq_self fun m hm e hstaged => ?_
    unfold adoptMissingFingerprint
    rw [hadopts m hm e hstaged]
    rfl
  · intro m hm hsome
    obtain ⟨e, hstaged⟩ := Option.isSome_iff_exists.mp hsome
    exact hadopts m hm e hstaged

section Live

variable (hlive : ∀ m ∈ after.tables.memberships,
  (stagedEntry feedId (canonicalRows createdAt call db) m).isSome = true → m.isLive = true)

include hlive

theorem upserts_afterImport (hm : m ∈ after.tables.memberships)
    (hstaged : stagedEntry feedId (canonicalRows createdAt call db) m = some e) :
    upserts e m = false := by
  have hlive := hlive m hm (by rw [hstaged]; rfl)
  obtain ⟨m₀, rfl⟩ := staged_afterImport hafter hm hstaged
  exact upserts_settle hlive

/-- Where staged memberships are live, the second import writes and inserts none of them. -/
theorem upsertedDb_afterImport : (upsertedDb createdAt feedId call after).tables.memberships =
      after.tables.memberships := by
  obtain ⟨-, hcanonical⟩ := insertNewIocs_afterImport hafter
  have hspec := upsertedDb_spec createdAt feedId call after
  obtain ⟨news, hmemberships, hnews⟩ := hspec.memberships
  have hold : (updatedDb createdAt feedId call after).tables.memberships =
        after.tables.memberships := by
    have hmap : (updatedDb createdAt feedId call after).tables.memberships =
          (adoptedDb createdAt feedId call after).tables.memberships.map
              (onStaged feedId (canonicalRows createdAt call after)
                fun e => upsertMembership e call.seenAt) := rfl
    rw [hmap, (adoptedDb_afterImport hafter).1, hcanonical]
    refine map_onStaged_eq_self fun m hm e hstaged => ?_
    unfold upsertMembership
    rw [upserts_afterImport hafter hlive hm hstaged]
    rfl
  have hnone : news = [] := by
    rw [List.eq_nil_iff_forall_not_mem]
    intro m hm
    obtain ⟨c, hc, key, id, hitem, hfresh, -⟩ := hnews m hm
    rw [hcanonical] at hc
    rw [hold, memberships_afterImport hafter] at hfresh
    exact hfresh (present_markedDb hc hitem)
  rw [hnone, List.append_nil, hold] at hmemberships
  exact hmemberships

/-- The policy statement writes no membership then. -/
theorem policedDb_afterImport : (policedDb createdAt feedId call after).tables.memberships =
      after.tables.memberships := by
  obtain ⟨-, hcanonical⟩ := insertNewIocs_afterImport hafter
  have hmap : (policedDb createdAt feedId call after).tables.memberships =
      (upsertedDb createdAt feedId call after).tables.memberships.map
        (policyStep feedId call (canonicalRows createdAt call after)) := rfl
  rw [hmap, upsertedDb_afterImport hafter hlive, hcanonical]
  refine map_onStaged_eq_self fun m hm e hstaged => ?_
  obtain ⟨m₀, rfl⟩ := staged_afterImport hafter hm hstaged
  split
  · unfold applyPolicy
    rw [policyChanges_settle feedId call e m₀]
    rfl
  · rfl

variable (habsent : marksAbsence call after.fullSnapshotHash = true →
  ∀ m ∈ after.tables.memberships, isAbsent feedId call after.tables m = false)

include habsent

/-- Where no membership is absent, the second import marks none. -/
theorem markedDb_afterImport :
    (markedDb createdAt feedId call after after.fullSnapshotHash).tables.memberships =
      after.tables.memberships := by
  have hpoliced := policedDb_afterImport hafter hlive
  unfold markedDb
  split
  · next hmarks =>
    have hmap : ((policedDb createdAt feedId call after).updateMemberships
        (markAbsent feedId call (policedDb createdAt feedId call
          after).tables) markAbsent_same).tables.memberships =
        (policedDb createdAt feedId call after).tables.memberships.map
            (markAbsent feedId call (policedDb createdAt feedId call after).tables) := rfl
    rw [hmap, hpoliced]
    refine Rows.map_eq_self fun m hm => markAbsent_of_not ?_
    rw [isAbsent_congr (items_policedDb), (insertNewIocs_afterImport hafter).1]
    exact habsent hmarks m hm
  · exact hpoliced

omit hafter hlive in
theorem absentRows_afterImport : absentRows createdAt feedId call after
      after.fullSnapshotHash = [] := by
  rw [List.eq_nil_iff_forall_not_mem]
  intro m hm
  obtain ⟨hmarks, hmem, hmissing⟩ := newlyMissing_iff.mp hm
  rw [habsent hmarks m hmem] at hmissing
  cases hmissing

end Live

section Items

variable (hsame : (markedDb createdAt feedId call after after.fullSnapshotHash).tables.memberships =
  after.tables.memberships)

include hsame

/-- With the same memberships the second import refreshes no IOC. -/
theorem refreshes_afterImport (hi : i ∈ after.tables.items) :
    (isStaged call i && refreshes call.seenAt ((markedDb createdAt feedId call after
      after.fullSnapshotHash).tables.membershipsFor i) i) = false := by
  have hitems : (markedDb createdAt feedId call after after.fullSnapshotHash).tables.items =
        after.tables.items := by
    rw [items_markedDb, (insertNewIocs_afterImport hafter).1]
  have hmemberships : (markedDb createdAt feedId call after
      after.fullSnapshotHash).tables.membershipsFor i = after.tables.membershipsFor i := by
    rw [membershipsFor_eq, membershipsFor_eq, hsame, hitems]
  rw [hmemberships]
  rw [items_afterImport hafter] at hi
  obtain ⟨i₀, hi₀, rfl⟩ := List.mem_map.mp hi
  have hfor : after.tables.membershipsFor
      (refreshStep call (markedDb createdAt feedId call db db.fullSnapshotHash).tables i₀) =
        (markedDb createdAt feedId call db db.fullSnapshotHash).tables.membershipsFor i₀ := by
    subst hafter
    exact membershipsFor_finalizeUsomImport createdAt feedId call db db.fullSnapshotHash i₀
  rw [hfor, isStaged_refreshStep call i₀]
  cases hstaged : isStaged call i₀ with
  | false => rfl
  | true =>
    have hstep : refreshStep call (markedDb createdAt feedId call db db.fullSnapshotHash).tables i₀ =
        refreshItem call.seenAt
          ((markedDb createdAt feedId call db db.fullSnapshotHash).tables.membershipsFor i₀) i₀ :=
      if_pos hstaged
    rw [hstep, refreshes_refreshItem]
    rfl

theorem refreshStep_afterImport : (importUsom createdAt feedId call after).db.tables.items =
      after.tables.items := by
  have hresult : (importUsom createdAt feedId call after).db.tables.items = _ :=
    items_finalizeUsomImport createdAt feedId call after _
  rw [hresult, (insertNewIocs_afterImport hafter).1]
  refine Rows.map_eq_self fun i hi => ?_
  have hnot := refreshes_afterImport hafter hsame hi
  unfold refreshStep refreshItem
  split
  · next hstaged =>
    have hon : isStaged call i = true := hstaged
    rw [hon, Bool.true_and] at hnot
    rw [hnot]
    rfl
  · rfl

end Items

end Second

end TalonHound.Usom
