import TalonHound.Usom.Finalize

/-!
# What a USOM import does to each row

A membership of the feed on a canonical row is settled, one whose IOC is not staged may be marked
missing, and every other one stays as it is. New memberships are settled the same way.
-/

namespace TalonHound.Usom

open List TalonHound.IocExpiration

variable {createdAt : ItemKey → Option ℤ} {feedId : ℕ} {call : FinalizeCall} {db : UsomDb}
  {canonical : List CanonicalRow} {priorSnapshotHash : Option String} {e : StageEntry}
  {m : Membership} {i : IocItem} {key : ItemKey} {c : CanonicalRow} {seenAt : ℤ} {stage : Stage}
  {t : IocTables} {o : Observed}

/-- What an insertion of IOCs does to the tables. -/
structure ItemsInserted (entries : List StageEntry) (db db' : UsomDb) : Prop where
  items : ∃ news, db'.tables.items = db.tables.items ++ news ∧
    ∀ i ∈ news, (∃ id, db.nextItem ≤ id ∧ i = newItem id i.observed) ∧
      (∃ e ∈ entries, e.observed = i.observed) ∧ ∀ i₀ ∈ db.tables.items, i₀.observed ≠ i.observed
  staged : ∀ e ∈ entries, ∃ i ∈ db'.tables.items, i.observed = e.observed
  memberships : db'.tables.memberships = db.tables.memberships
  evidence : db'.evidence = db.evidence
  nextItem : db.nextItem ≤ db'.nextItem
  nextMembership : db'.nextMembership = db.nextMembership

theorem insertNewItems_spec (entries : List StageEntry) (db : UsomDb) :
    ItemsInserted entries db (entries.foldl insertNewItem db) := by
  induction entries generalizing db with
  | nil => exact ⟨⟨[], by simp, by simp⟩, by simp, rfl, rfl, le_refl _, rfl⟩
  | cons e entries ih =>
    rw [foldl_cons]
    by_cases hknown : db.tables.items.any (·.observed = e.observed) = true
    · have hstep : insertNewItem db e = db := if_pos hknown
      rw [hstep]
      obtain ⟨⟨news, hitems, hnews⟩, hall, hmemberships, hevidence, hnext, hnextM⟩ := ih db
      refine ⟨⟨news, hitems, fun i hi => ?_⟩, ?_, hmemberships, hevidence, hnext, hnextM⟩
      · obtain ⟨hnew, ⟨e', he', hsame⟩, hother⟩ := hnews i hi
        exact ⟨hnew, ⟨e', mem_cons_of_mem _ he', hsame⟩, hother⟩
      · intro e' he'
        rcases mem_cons.mp he' with rfl | hold
        · obtain ⟨i, hi, hsame⟩ := any_eq_true.mp hknown
          refine ⟨i, ?_, of_decide_eq_true hsame⟩
          rw [hitems]
          exact mem_append_left _ hi
        · exact hall e' hold
    · have hstep : insertNewItem db e = db.insertItem e.observed := if_neg hknown
      rw [hstep]
      obtain ⟨⟨news, hitems, hnews⟩, hall, hmemberships, hevidence, hnext, hnextM⟩ :=
        ih (db.insertItem e.observed)
      have hfirst : (db.insertItem e.observed).tables.items =
          db.tables.items ++ [newItem db.nextItem e.observed] := rfl
      have hnextItem : (db.insertItem e.observed).nextItem = db.nextItem + 1 := rfl
      refine ⟨⟨newItem db.nextItem e.observed :: news, ?_, fun i hi => ?_⟩, ?_, hmemberships,
        hevidence, by omega, hnextM⟩
      · rw [hitems, hfirst, append_assoc]
        rfl
      · rcases mem_cons.mp hi with rfl | hlater
        · refine ⟨⟨db.nextItem, le_refl _, rfl⟩, ⟨e, mem_cons_self, rfl⟩, ?_⟩
          intro i₀ hi₀ hsame
          refine hknown (any_eq_true.mpr ⟨i₀, hi₀, ?_⟩)
          exact decide_eq_true hsame
        · obtain ⟨⟨id, hid, hnew⟩, ⟨e', he', hsame⟩, hother⟩ := hnews i hlater
          refine ⟨⟨id, by omega, hnew⟩, ⟨e', mem_cons_of_mem _ he', hsame⟩, ?_⟩
          intro i₀ hi₀
          refine hother i₀ ?_
          rw [hfirst]
          exact mem_append_left _ hi₀
      · intro e' he'
        rcases mem_cons.mp he' with rfl | hold
        · refine ⟨newItem db.nextItem e'.observed, ?_, rfl⟩
          rw [hitems, hfirst]
          exact mem_append_left _ (mem_append_right _ (mem_singleton_self _))
        · exact hall e' hold

theorem insertObservableOf_frame (db : UsomDb) (c : CanonicalRow) :
    (insertObservableOf db c).tables = db.tables ∧
      (insertObservableOf db c).evidence = db.evidence ∧
      (insertObservableOf db c).nextItem = db.nextItem ∧
      (insertObservableOf db c).nextMembership = db.nextMembership := by
  unfold insertObservableOf UsomDb.insertObservable
  split
  · split <;> exact ⟨rfl, rfl, rfl, rfl⟩
  · exact ⟨rfl, rfl, rfl, rfl⟩

/-- The insertion of observables leaves all other tables alone. -/
theorem insertObservables_frame (canonical : List CanonicalRow) (db : UsomDb) :
    (insertObservables canonical db).tables = db.tables ∧
      (insertObservables canonical db).evidence = db.evidence ∧
      (insertObservables canonical db).nextItem = db.nextItem ∧
      (insertObservables canonical db).nextMembership = db.nextMembership := by
  unfold insertObservables
  induction canonical generalizing db with
  | nil => exact ⟨rfl, rfl, rfl, rfl⟩
  | cons c canonical ih =>
    obtain ⟨htables, hevidence, hnext, hnextM⟩ := ih (insertObservableOf db c)
    obtain ⟨htables', hevidence', hnext', hnextM'⟩ := insertObservableOf_frame db c
    rw [foldl_cons]
    exact ⟨htables.trans htables', hevidence.trans hevidence', hnext.trans hnext',
      hnextM.trans hnextM'⟩

/-- The insertion of IOCs leaves the observables alone. -/
theorem observables_insertNewItems (entries : List StageEntry) (db : UsomDb) :
    (entries.foldl insertNewItem db).observables = db.observables := by
  induction entries generalizing db with
  | nil => rfl
  | cons e entries ih =>
    have hstep : (insertNewItem db e).observables = db.observables := by
      unfold insertNewItem
      split <;> rfl
    rw [foldl_cons, ih, hstep]

/-- What an insertion of memberships does to the tables. -/
structure MembershipsInserted (feedId : ℕ) (seenAt : ℤ) (canonical : List CanonicalRow)
    (db db' : UsomDb) : Prop where
  items : db'.tables.items = db.tables.items
  evidence : db'.evidence = db.evidence
  observables : db'.observables = db.observables
  nextItem : db'.nextItem = db.nextItem
  memberships : ∃ news, db'.tables.memberships = db.tables.memberships ++ news ∧
    ∀ m ∈ news, ∃ c ∈ canonical, ∃ key id, c.item = some key ∧
      ⟨key, feedId⟩ ∉ db.tables.memberships.map Membership.key ∧
        m = insertedMembership id feedId key c.entry seenAt
  present : ∀ c ∈ canonical, ∀ key, c.item = some key → key.id < db.nextItem →
    ⟨key, feedId⟩ ∈ db'.tables.memberships.map Membership.key

theorem insertMemberships_spec (feedId : ℕ) (seenAt : ℤ) (canonical : List CanonicalRow)
    (db : UsomDb) :
    MembershipsInserted feedId seenAt canonical db
      (insertMemberships feedId canonical seenAt db) := by
  unfold insertMemberships
  induction canonical generalizing db with
  | nil => exact ⟨rfl, rfl, rfl, rfl, ⟨[], by simp, by simp⟩, by simp⟩
  | cons c canonical ih =>
    rw [foldl_cons]
    obtain ⟨hitems, hevidence, hobservables, hnext, ⟨news, hmemberships, hnews⟩, hpresent⟩ :=
      ih (insertMembershipOf feedId seenAt db c)
    -- The first canonical row inserts at most one membership.
    have hfirst : (insertMembershipOf feedId seenAt db c = db ∧
          ∀ key, c.item = some key → key.id < db.nextItem →
            ⟨key, feedId⟩ ∈ db.tables.memberships.map Membership.key) ∨
        ∃ key, c.item = some key ∧ ⟨key, feedId⟩ ∉ db.tables.memberships.map Membership.key ∧
          (insertMembershipOf feedId seenAt db c).tables.items = db.tables.items ∧
          (insertMembershipOf feedId seenAt db c).evidence = db.evidence ∧
          (insertMembershipOf feedId seenAt db c).observables = db.observables ∧
          (insertMembershipOf feedId seenAt db c).nextItem = db.nextItem ∧
          (insertMembershipOf feedId seenAt db c).tables.memberships = db.tables.memberships ++
            [insertedMembership db.nextMembership feedId key c.entry seenAt] := by
      unfold insertMembershipOf
      split
      · next key hkey =>
        unfold UsomDb.insertMembership
        dsimp only
        split
        · next hnew => exact .inr ⟨key, hkey, hnew.1, rfl, rfl, rfl, rfl, rfl⟩
        · next hnot =>
          refine .inl ⟨rfl, fun key' hkey' hlt => ?_⟩
          obtain rfl := Option.some.inj (hkey.symm.trans hkey')
          by_contra habsent
          exact hnot ⟨habsent, hlt⟩
      · next hnone =>
        refine .inl ⟨rfl, fun key hkey => ?_⟩
        rw [hnone] at hkey
        cases hkey
    rcases hfirst with ⟨hsame, hthere⟩ | ⟨key, hkey, habsent, hitems', hevidence', hobservables',
      hnext', hmemberships'⟩
    · rw [hsame] at hitems hevidence hobservables hnext hmemberships hnews hpresent ⊢
      refine ⟨hitems, hevidence, hobservables, hnext, ⟨news, hmemberships, fun m hm => ?_⟩, ?_⟩
      · obtain ⟨c', hc', hrest⟩ := hnews m hm
        exact ⟨c', mem_cons_of_mem _ hc', hrest⟩
      · intro c' hc' key hkey hlt
        rcases mem_cons.mp hc' with rfl | hlater
        · rw [hmemberships, map_append]
          exact mem_append_left _ (hthere key hkey hlt)
        · exact hpresent c' hlater key hkey hlt
    · refine ⟨hitems.trans hitems', hevidence.trans hevidence', hobservables.trans hobservables',
        hnext.trans hnext',
        ⟨insertedMembership db.nextMembership feedId key c.entry seenAt :: news, ?_, fun m hm => ?_⟩,
        ?_⟩
      · rw [hmemberships, hmemberships', append_assoc]
        rfl
      · rcases mem_cons.mp hm with rfl | hlater
        · exact ⟨c, mem_cons_self, key, db.nextMembership, hkey, habsent, rfl⟩
        · obtain ⟨c', hc', key', id, hkey', hnot, hm'⟩ := hnews m hlater
          refine ⟨c', mem_cons_of_mem _ hc', key', id, hkey', fun hmem => hnot ?_, hm'⟩
          rw [hmemberships', map_append]
          exact mem_append_left _ hmem
      · intro c' hc' key' hkey' hlt
        rcases mem_cons.mp hc' with rfl | hlater
        · obtain rfl := Option.some.inj (hkey.symm.trans hkey')
          rw [hmemberships, hmemberships', map_append, map_append]
          exact mem_append_left _ (mem_append_right _ (mem_singleton_self _))
        · exact hpresent c' hlater key' hkey' (by omega)

theorem insertNewIocs_spec (createdAt : ItemKey → Option ℤ) (call : FinalizeCall) (db : UsomDb) :
    ItemsInserted call.kept.entries db (insertNewIocs createdAt call db) := by
  obtain ⟨htables, hevidence, hnext, hnextM⟩ :=
    insertObservables_frame (canonicalBefore createdAt call db) (insertNewItems call.kept db)
  have hspec : ItemsInserted call.kept.entries db (insertNewItems call.kept db) :=
    insertNewItems_spec call.kept.entries db
  unfold insertNewIocs
  refine ⟨?_, ?_, ?_, hevidence.trans hspec.evidence, hnext.symm ▸ hspec.nextItem,
    hnextM.trans hspec.nextMembership⟩
  · rw [htables]
    exact hspec.items
  · rw [htables]
    exact hspec.staged
  · rw [htables]
    exact hspec.memberships

/-- Every canonical row has the key of an IOC with its value and type. -/
theorem canonicalRows_item (hc : c ∈ canonicalRows createdAt call db) :
    ∃ i ∈ (insertNewIocs createdAt call db).tables.items, c.item = some i.key ∧
      i.observed = c.entry.observed := by
  obtain ⟨he, holdest⟩ := mem_buildStageCanonical hc
  obtain ⟨i, hi, hsame⟩ := (insertNewIocs_spec createdAt call db).staged c.entry he
  cases hitem : c.item with
  | none =>
    rw [hitem] at holdest
    have hnil := oldest_eq_none.mp holdest.symm
    have hmem : i.key ∈ itemKeys (insertNewIocs createdAt call db).tables c.entry.observed :=
      mem_itemKeys.mpr ⟨i, hi, hsame, rfl⟩
    rw [hnil] at hmem
    cases hmem
  | some key =>
    rw [hitem] at holdest
    obtain ⟨i', hi', hobserved, rfl⟩ := mem_itemKeys.mp (oldest_mem holdest.symm)
    exact ⟨i', hi', rfl, hobserved⟩

/-- A membership is joined with the entry of its canonical row. -/
theorem stagedEntry_build : stagedEntry feedId (buildStageCanonical createdAt t stage) m = some e ↔
    m.feedId = feedId ∧
      ∃ c ∈ buildStageCanonical createdAt t stage, c.item = some m.itemKey ∧ c.entry = e := by
  unfold stagedEntry
  constructor
  · intro h
    split at h
    · next hfeed =>
      obtain ⟨c, hc, rfl⟩ := Option.map_eq_some_iff.mp h
      exact ⟨hfeed, c, mem_of_find?_eq_some hc, by simpa using find?_some hc, rfl⟩
    · cases h
  · rintro ⟨hfeed, c, hc, hitem, rfl⟩
    rw [if_pos hfeed]
    cases hfind : (buildStageCanonical createdAt t stage).find? fun c =>
        c.item = some m.itemKey with
    | none =>
      have hnot := find?_eq_none.mp hfind c hc
      simp [hitem] at hnot
    | some c' =>
      have hitem' : c'.item = some m.itemKey := by simpa using find?_some hfind
      rw [canonical_inj (mem_of_find?_eq_some hfind) hc hitem' hitem]
      rfl

theorem stagedEntry_eq_some : stagedEntry feedId (canonicalRows createdAt call db) m = some e ↔
      m.feedId = feedId ∧
        ∃ c ∈ canonicalRows createdAt call db, c.item = some m.itemKey ∧ c.entry = e :=
  stagedEntry_build

/-- The join looks at the key only. -/
theorem stagedEntry_congr {m' : Membership} (h : m'.key = m.key) :
    stagedEntry feedId canonical m' = stagedEntry feedId canonical m := by
  have hitem : m'.itemKey = m.itemKey := congrArg MembershipKey.item h
  have hfeed : m'.feedId = m.feedId := congrArg MembershipKey.feedId h
  unfold stagedEntry
  rw [hitem, hfeed]

/-- A staged membership has a stored type, and its IOC is staged. -/
theorem staged_facts (h : stagedEntry feedId (canonicalRows createdAt call db) m = some e) :
    m.feedId = feedId ∧ m.iocObservableType ∈ storedIocTypes ∧ e ∈ call.kept.entries ∧
      ∃ i ∈ (insertNewIocs createdAt call db).tables.items, i.key = m.itemKey ∧
        i.observed = e.observed := by
  obtain ⟨hfeed, c, hc, hitem, rfl⟩ := stagedEntry_eq_some.mp h
  obtain ⟨he, -⟩ := mem_buildStageCanonical hc
  obtain ⟨i, hi, hkey, hobserved⟩ := canonicalRows_item hc
  have hsame : i.key = m.itemKey := Option.some.inj (hkey.symm.trans hitem)
  refine ⟨hfeed, ?_, he, i, hi, hsame, hobserved⟩
  have htype : m.iocObservableType = c.entry.observableType :=
    (congrArg ItemKey.observableType hsame).symm.trans (congrArg Observed.observableType hobserved)
  rw [htype]
  exact call.kept.stored c.entry he

/-- The rows of an observable after the insertion: those from before, or only new ones. -/
theorem itemKeys_insertNewIocs (createdAt : ItemKey → Option ℤ) (call : FinalizeCall) (db : UsomDb)
    (o : Observed) :
    itemKeys (insertNewIocs createdAt call db).tables o = itemKeys db.tables o ∨
      (itemKeys db.tables o = [] ∧
        ∀ key ∈ itemKeys (insertNewIocs createdAt call db).tables o, db.nextItem ≤ key.id) := by
  obtain ⟨news, hitems, hnews⟩ := (insertNewIocs_spec createdAt call db).items
  have hsplit : itemKeys (insertNewIocs createdAt call db).tables o =
      itemKeys db.tables o ++ (news.filter fun i => i.observed = o).map IocItem.key := by
    unfold itemKeys
    rw [hitems, filter_append, map_append]
  by_cases hnew : ∃ i ∈ news, i.observed = o
  · obtain ⟨i, hi, hobserved⟩ := hnew
    obtain ⟨-, -, hother⟩ := hnews i hi
    have hempty : itemKeys db.tables o = [] := by
      rw [eq_nil_iff_forall_not_mem]
      intro key hkey
      obtain ⟨i₀, hi₀, hobserved₀, -⟩ := mem_itemKeys.mp hkey
      exact hother i₀ hi₀ (hobserved₀.trans hobserved.symm)
    refine .inr ⟨hempty, fun key hkey => ?_⟩
    rw [hsplit, hempty, nil_append] at hkey
    obtain ⟨i', hi', rfl⟩ := mem_map.mp hkey
    obtain ⟨⟨id, hid, hnewItem⟩, -⟩ := hnews i' (mem_of_mem_filter hi')
    rw [hnewItem]
    exact hid
  · refine .inl ?_
    have hempty : (news.filter fun i => i.observed = o) = [] := by
      rw [filter_eq_nil_iff]
      intro i hi
      simp only [decide_eq_true_eq]
      exact fun hobserved => hnew ⟨i, hi, hobserved⟩
    rw [hsplit, hempty, map_nil, append_nil]

/-- A membership from before is joined as the canonical rows from before say. -/
theorem stagedEntry_canonicalBefore (hm : m ∈ db.tables.memberships) :
    stagedEntry feedId (canonicalRows createdAt call db) m =
      stagedEntry feedId (canonicalBefore createdAt call db) m := by
  have hlt := (db.memberships_lt m hm).2
  refine Option.ext fun e => ?_
  unfold canonicalRows canonicalBefore
  rw [stagedEntry_build, stagedEntry_build]
  refine and_congr_right fun _ => ?_
  have hsame : ∀ e : StageEntry,
      oldest createdAt (itemKeys (insertNewIocs createdAt call db).tables e.observed) =
          some m.itemKey ↔
        oldest createdAt (itemKeys db.tables e.observed) = some m.itemKey := by
    intro e
    rcases itemKeys_insertNewIocs createdAt call db e.observed with hold | ⟨hempty, hnew⟩
    · rw [hold]
    · rw [hempty]
      constructor
      · intro h
        have hid : db.nextItem ≤ m.iocItemId := hnew _ (oldest_mem h)
        omega
      · intro h
        cases h
  unfold buildStageCanonical
  simp only [mem_map]
  constructor
  · rintro ⟨c, ⟨e', he', rfl⟩, hitem, rfl⟩
    exact ⟨_, ⟨e', he', rfl⟩, (hsame e').mp hitem, rfl⟩
  · rintro ⟨c, ⟨e', he', rfl⟩, hitem, rfl⟩
    exact ⟨_, ⟨e', he', rfl⟩, (hsame e').mpr hitem, rfl⟩

/-- The rows with the key of a membership from before are rows from before. -/
theorem item_of_membership (hm : m ∈ db.tables.memberships)
    (hi : i ∈ (insertNewIocs createdAt call db).tables.items) (hkey : i.key = m.itemKey) :
    i ∈ db.tables.items := by
  obtain ⟨news, hitems, hnews⟩ := (insertNewIocs_spec createdAt call db).items
  rw [hitems] at hi
  rcases mem_append.mp hi with hold | hnew
  · exact hold
  · obtain ⟨⟨id, hid, hnewItem⟩, -⟩ := hnews i hnew
    have hlt := (db.memberships_lt m hm).2
    have hsame : i.id = m.iocItemId := congrArg ItemKey.id hkey
    rw [hnewItem] at hsame
    change id = m.iocItemId at hsame
    omega

/-- What the statements make of a membership that is joined with a staged entry. -/
def settle (feedId : ℕ) (call : FinalizeCall) (e : StageEntry) (m : Membership) : Membership :=
  applyPolicy (call.policyFor feedId m) call.seenAt
    (upsertMembership e call.seenAt (adoptMissingFingerprint e m))

/-- What an import makes of a membership. -/
def finalMembership (createdAt : ItemKey → Option ℤ) (feedId : ℕ) (call : FinalizeCall)
    (db : UsomDb) (priorSnapshotHash : Option String) (m : Membership) : Membership :=
  match stagedEntry feedId (canonicalRows createdAt call db) m with
  | some e => settle feedId call e m
  | none =>
    if marksAbsence call priorSnapshotHash then
      markAbsent feedId call (insertNewIocs createdAt call db).tables m
    else m

theorem settle_same (m : Membership) :
    (settle feedId call e m).id = m.id ∧ (settle feedId call e m).key = m.key := by
  have hadopt := adoptMissingFingerprint_same e m
  have hupsert := upsertMembership_same call.seenAt e (adoptMissingFingerprint e m)
  have hpolicy := applyPolicy_same (call.policyFor feedId m) call.seenAt
    (upsertMembership e call.seenAt (adoptMissingFingerprint e m))
  exact ⟨hpolicy.1.trans (hupsert.1.trans hadopt.1), hpolicy.2.trans (hupsert.2.trans hadopt.2)⟩

theorem finalMembership_staged {priorSnapshotHash : Option String}
    (hstaged : stagedEntry feedId (canonicalRows createdAt call db) m = some e) :
    finalMembership createdAt feedId call db priorSnapshotHash m = settle feedId call e m := by
  unfold finalMembership
  rw [hstaged]

theorem finalMembership_same (createdAt : ItemKey → Option ℤ) (feedId : ℕ) (call : FinalizeCall)
    (db : UsomDb) (priorSnapshotHash : Option String) (m : Membership) :
    (finalMembership createdAt feedId call db priorSnapshotHash m).id = m.id ∧
      (finalMembership createdAt feedId call db priorSnapshotHash m).key = m.key := by
  unfold finalMembership
  split
  · exact settle_same m
  · split
    · exact markAbsent_same m
    · exact ⟨rfl, rfl⟩

/-- Absence is decided by values, types and keys of the IOCs. -/
theorem isAbsent_congr {t' : IocTables} (h : t'.items = t.items) (m : Membership) :
    isAbsent feedId call t' m = isAbsent feedId call t m := by
  unfold isAbsent
  rw [h]

theorem markAbsent_congr {t' : IocTables} (h : t'.items = t.items) (m : Membership) :
    markAbsent feedId call t' m = markAbsent feedId call t m := by
  unfold markAbsent
  simp only [isAbsent_congr h]

/-- A membership whose IOC is staged is not absent. -/
theorem isAbsent_of_staged {i : IocItem} (hi : i ∈ t.items) (hkey : i.key = m.itemKey)
    (he : e ∈ call.kept.entries) (hobserved : i.observed = e.observed) :
    isAbsent feedId call t m = false := by
  unfold isAbsent
  have hany : (t.items.any fun i => i.key = m.itemKey &&
      call.kept.entries.any (·.observed = i.observed)) = true := by
    refine any_eq_true.mpr ⟨i, hi, ?_⟩
    simp only [hkey, decide_true, Bool.true_and, any_eq_true, decide_eq_true_eq]
    exact ⟨e, he, hobserved.symm⟩
  rw [hany]
  simp

theorem markAbsent_of_not (h : isAbsent feedId call t m = false) :
    markAbsent feedId call t m = m := by
  unfold markAbsent
  split
  · rw [h]
    rfl
  · rfl

theorem markAbsent_columns (feedId : ℕ) (call : FinalizeCall) (t : IocTables) (m : Membership) :
    (markAbsent feedId call t m).status = m.status ∧
      (markAbsent feedId call t m).feedId = m.feedId ∧
      (markAbsent feedId call t m).iocObservableType = m.iocObservableType := by
  unfold markAbsent
  split
  · split <;> exact ⟨rfl, rfl, rfl⟩
  · exact ⟨rfl, rfl, rfl⟩

/-- Absence looks at the key, the feed and the status of a membership. -/
theorem isAbsent_of_columns {m' : Membership} (hstatus : m'.status = m.status)
    (hkey : m'.key = m.key) : isAbsent feedId call t m' = isAbsent feedId call t m := by
  have hitem : m'.itemKey = m.itemKey := congrArg MembershipKey.item hkey
  have hfeed : m'.feedId = m.feedId := congrArg MembershipKey.feedId hkey
  have htype : m'.iocObservableType = m.iocObservableType :=
    congrArg (fun k => k.item.observableType) hkey
  unfold isAbsent FinalizeCall.policyFor
  rw [hstatus, hitem, hfeed, htype]

section Lists

variable {createdAt : ItemKey → Option ℤ} {feedId : ℕ} {call : FinalizeCall} {db : UsomDb}
  {priorSnapshotHash : Option String}

theorem items_policedDb : (policedDb createdAt feedId call db).tables.items =
    (insertNewIocs createdAt call db).tables.items :=
  (insertMemberships_spec feedId call.seenAt (canonicalRows createdAt call db) _).items

theorem items_markedDb : (markedDb createdAt feedId call db priorSnapshotHash).tables.items =
    (insertNewIocs createdAt call db).tables.items := by
  unfold markedDb
  split
  · exact items_policedDb
  · exact items_policedDb

variable (createdAt feedId call db) in
/-- The tables after the update of `upsertMemberships`. -/
def updatedDb : UsomDb :=
  (adoptedDb createdAt feedId call db).updateMemberships
    (onStaged feedId (canonicalRows createdAt call db) fun e => upsertMembership e call.seenAt)
    (onStaged_same fun e => upsertMembership_same call.seenAt e)

variable (createdAt feedId call db) in
theorem upsertedDb_spec : MembershipsInserted feedId call.seenAt (canonicalRows createdAt call db)
      (updatedDb createdAt feedId call db) (upsertedDb createdAt feedId call db) :=
  insertMemberships_spec feedId call.seenAt _ _

variable (createdAt feedId call db) in
/-- A membership after adoption and upsert. -/
def upsertedMembership (m : Membership) : Membership :=
  onStaged feedId (canonicalRows createdAt call db) (fun e => upsertMembership e call.seenAt)
    (onStaged feedId (canonicalRows createdAt call db) adoptMissingFingerprint m)

variable (createdAt feedId call db) in
/-- The memberships that an import inserts, before its policies. -/
def AreInserted (news : List Membership) : Prop :=
  ∀ m ∈ news, ∃ c ∈ canonicalRows createdAt call db, ∃ key id, c.item = some key ∧
    ⟨key, feedId⟩ ∉ db.tables.memberships.map Membership.key ∧
      m = insertedMembership id feedId key c.entry call.seenAt

/-- The memberships before the policies: old ones adopted and upserted, then new ones. -/
theorem memberships_upsertedDb : ∃ news, (upsertedDb createdAt feedId call db).tables.memberships =
      db.tables.memberships.map (upsertedMembership createdAt feedId call db) ++ news ∧
      AreInserted createdAt feedId call db news := by
  have hspec := upsertedDb_spec createdAt feedId call db
  obtain ⟨news, hmemberships, hnews⟩ := hspec.memberships
  have hold : (updatedDb createdAt feedId call db).tables.memberships =
      db.tables.memberships.map (upsertedMembership createdAt feedId call db) := by
    unfold updatedDb adoptedDb UsomDb.updateMemberships
    dsimp only
    rw [(insertNewIocs_spec createdAt call db).memberships, map_map]
    rfl
  rw [hold] at hmemberships hnews
  refine ⟨news, hmemberships, fun m hm => ?_⟩
  obtain ⟨c, hc, key, id, hkey, hnot, rfl⟩ := hnews m hm
  refine ⟨c, hc, key, id, hkey, fun hmem => hnot ?_, rfl⟩
  have hkeys : (db.tables.memberships.map (upsertedMembership createdAt feedId call db)).map
      Membership.key = db.tables.memberships.map Membership.key := by
    refine Rows.map_update fun m => ?_
    exact ((onStaged_same fun e => upsertMembership_same call.seenAt e) _).2.trans
      (onStaged_same adoptMissingFingerprint_same m).2
  rw [hkeys]
  exact hmem

/-- A new membership is neither adopted nor updated. -/
theorem inserted_settled (id : ℕ) (key : ItemKey) (e : StageEntry) :
    upsertMembership e call.seenAt (adoptMissingFingerprint e
      (insertedMembership id feedId key e call.seenAt)) =
        insertedMembership id feedId key e call.seenAt := by
  unfold adoptMissingFingerprint
  rw [if_neg (by simp [adopts, insertedMembership])]
  unfold upsertMembership
  rw [if_neg (by simp [upserts, insertedMembership])]

/-- The memberships of the feed on canonical rows are the staged ones. -/
theorem stagedEntry_inserted (feedId : ℕ) {c : CanonicalRow} (hc : c ∈ canonicalRows createdAt call db)
    {key : ItemKey} (hkey : c.item = some key) (id : ℕ) (seenAt : ℤ) :
    stagedEntry feedId (canonicalRows createdAt call db)
      (insertedMembership id feedId key c.entry seenAt) = some c.entry :=
  stagedEntry_eq_some.mpr ⟨rfl, c, hc, hkey, rfl⟩

variable (createdAt feedId call db) in
/-- A membership after the policies, by the entry that it has in the stage. -/
def settledMembership (m : Membership) : Membership :=
  match stagedEntry feedId (canonicalRows createdAt call db) m with
  | some e => settle feedId call e m
  | none => m

variable (createdAt feedId call db) in
/-- The policy step after adoption and upsert, by the entry of the membership. -/
theorem policyStep_upserted (m : Membership) :
    policyStep feedId call (canonicalRows createdAt call db)
        (upsertedMembership createdAt feedId call db m) =
      settledMembership createdAt feedId call db m := by
  unfold settledMembership upsertedMembership
  cases hstaged : stagedEntry feedId (canonicalRows createdAt call db) m with
  | none =>
    have hone : ∀ f : StageEntry → Membership → Membership,
        onStaged feedId (canonicalRows createdAt call db) f m = m := by
      intro f
      unfold onStaged
      rw [hstaged]
    rw [hone, hone]
    exact hone _
  | some e =>
    obtain ⟨-, htype, -, -⟩ := staged_facts hstaged
    have hadopt := (adoptMissingFingerprint_same e m).2
    have hupsert := (upsertMembership_same call.seenAt e (adoptMissingFingerprint e m)).2.trans hadopt
    have hfirst : onStaged feedId (canonicalRows createdAt call db) adoptMissingFingerprint m =
        adoptMissingFingerprint e m := by
      unfold onStaged
      rw [hstaged]
    have hsecond : onStaged feedId (canonicalRows createdAt call db)
        (fun e => upsertMembership e call.seenAt) (adoptMissingFingerprint e m) =
          upsertMembership e call.seenAt (adoptMissingFingerprint e m) := by
      unfold onStaged
      rw [stagedEntry_congr hadopt, hstaged]
    rw [hfirst, hsecond]
    unfold policyStep onStaged
    rw [stagedEntry_congr hupsert, hstaged]
    have hsameType : (upsertMembership e call.seenAt
        (adoptMissingFingerprint e m)).iocObservableType = m.iocObservableType :=
      congrArg (fun k => k.item.observableType) hupsert
    dsimp only
    rw [hsameType, if_pos htype]
    unfold settle FinalizeCall.policyFor
    rw [hsameType]

/-- The memberships before the absence step: the staged ones are settled. -/
theorem memberships_policedDb : ∃ news, (policedDb createdAt feedId call db).tables.memberships =
      (db.tables.memberships ++ news).map (settledMembership createdAt feedId call db) ∧
      AreInserted createdAt feedId call db news := by
  obtain ⟨news, hupserted, hnews⟩ := memberships_upsertedDb
  refine ⟨news, ?_, hnews⟩
  have hmap : (policedDb createdAt feedId call db).tables.memberships =
      (upsertedDb createdAt feedId call db).tables.memberships.map
        (policyStep feedId call (canonicalRows createdAt call db)) := rfl
  rw [hmap, hupserted, map_append, map_append, map_map]
  congr 1
  · exact map_congr_left fun m _ => policyStep_upserted createdAt feedId call db m
  · refine map_congr_left fun m hm => ?_
    obtain ⟨c, hc, key, id, hkey, -, rfl⟩ := hnews m hm
    have hstaged := stagedEntry_inserted feedId hc hkey id call.seenAt
    have hsettled := policyStep_upserted createdAt feedId call db
      (insertedMembership id feedId key c.entry call.seenAt)
    have hnoop : upsertedMembership createdAt feedId call db
        (insertedMembership id feedId key c.entry call.seenAt) =
          insertedMembership id feedId key c.entry call.seenAt := by
      have hadopt := (adoptMissingFingerprint_same c.entry
        (insertedMembership id feedId key c.entry call.seenAt)).2
      unfold upsertedMembership onStaged
      rw [hstaged]
      rw [stagedEntry_congr hadopt, hstaged]
      exact inserted_settled id key c.entry
    rw [hnoop] at hsettled
    exact hsettled

/-- The memberships after an import: old and new ones, each as the import leaves it. -/
theorem memberships_markedDb : ∃ news,
    (markedDb createdAt feedId call db priorSnapshotHash).tables.memberships =
      (db.tables.memberships ++ news).map
        (finalMembership createdAt feedId call db priorSnapshotHash) ∧
      AreInserted createdAt feedId call db news := by
  obtain ⟨news, hpoliced, hnews⟩ := memberships_policedDb
  refine ⟨news, ?_, hnews⟩
  have hstep : ∀ m, (if marksAbsence call priorSnapshotHash then
      markAbsent feedId call (policedDb createdAt feedId call db).tables
        (settledMembership createdAt feedId call db m)
      else settledMembership createdAt feedId call db m) =
        finalMembership createdAt feedId call db priorSnapshotHash m := by
    intro m
    unfold finalMembership settledMembership
    cases hstaged : stagedEntry feedId (canonicalRows createdAt call db) m with
    | none =>
      rw [markAbsent_congr items_policedDb]
    | some e =>
      obtain ⟨-, -, he, i, hi, hkey, hobserved⟩ := staged_facts hstaged
      have hitem : (settle feedId call e m).itemKey = m.itemKey :=
        congrArg MembershipKey.item (settle_same m).2
      rw [markAbsent_congr (items_policedDb),
        markAbsent_of_not (isAbsent_of_staged hi (hkey.trans hitem.symm) he hobserved)]
      exact ite_self _
  unfold markedDb
  split
  · next hmarks =>
    have hmap : ((policedDb createdAt feedId call db).updateMemberships
        (markAbsent feedId call (policedDb createdAt feedId call db).tables)
        markAbsent_same).tables.memberships =
        (policedDb createdAt feedId call db).tables.memberships.map
          (markAbsent feedId call (policedDb createdAt feedId call db).tables) := rfl
    rw [hmap, hpoliced, map_map]
    refine map_congr_left fun m _ => ?_
    have hm := hstep m
    rw [if_pos hmarks] at hm
    exact hm
  · next hmarks =>
    rw [hpoliced]
    refine map_congr_left fun m _ => ?_
    have hm := hstep m
    rw [if_neg hmarks] at hm
    exact hm

/-- Every canonical row has a membership of the feed after an import. -/
theorem present_markedDb (hc : c ∈ canonicalRows createdAt call db) (hkey : c.item = some key) :
    ⟨key, feedId⟩ ∈ (markedDb createdAt feedId call db priorSnapshotHash).tables.memberships.map
        Membership.key := by
  have hspec := upsertedDb_spec createdAt feedId call db
  have hlt : key.id < (insertNewIocs createdAt call db).nextItem := by
    obtain ⟨i, hi, hitem, -⟩ := canonicalRows_item hc
    obtain rfl := Option.some.inj (hitem.symm.trans hkey)
    exact (insertNewIocs createdAt call db).items_lt i hi
  have hupserted : ⟨key, feedId⟩ ∈
      (upsertedDb createdAt feedId call db).tables.memberships.map Membership.key :=
    hspec.present c hc key hkey hlt
  have hpoliced : (policedDb createdAt feedId call db).tables.memberships.map Membership.key =
      (upsertedDb createdAt feedId call db).tables.memberships.map Membership.key :=
    Rows.map_update fun m => (policyStep_same m).2
  unfold markedDb
  split
  · have hmarked : ((policedDb createdAt feedId call db).tables.memberships.map
        (markAbsent feedId call (policedDb createdAt feedId call db).tables)).map Membership.key =
        (policedDb createdAt feedId call db).tables.memberships.map Membership.key :=
      Rows.map_update fun m => (markAbsent_same m).2
    exact (hmarked.trans hpoliced) ▸ hupserted
  · exact hpoliced ▸ hupserted

end Lists

theorem refreshStep_observed (i : IocItem) : (refreshStep call t i).observed = i.observed := by
  unfold refreshStep refreshItem
  split
  · split <;> rfl
  · rfl

section Result

variable {createdAt : ItemKey → Option ℤ} {feedId : ℕ} {call : FinalizeCall} {db : UsomDb}
  {priorSnapshotHash : Option String}

theorem memberships_finalizeUsomImport :
    (finalizeUsomImport createdAt feedId call db priorSnapshotHash).db.tables.memberships =
      (markedDb createdAt feedId call db priorSnapshotHash).tables.memberships := rfl

variable (createdAt feedId call db priorSnapshotHash) in
theorem items_finalizeUsomImport :
    (finalizeUsomImport createdAt feedId call db priorSnapshotHash).db.tables.items =
      (insertNewIocs createdAt call db).tables.items.map
        (refreshStep call (markedDb createdAt feedId call db priorSnapshotHash).tables) := by
  rw [← items_markedDb]
  rfl

/-- The IOCs that an import found or inserted are still there, under key, value and type. -/
theorem item_finalizeUsomImport {i : IocItem}
    (hi : i ∈ (insertNewIocs createdAt call db).tables.items) :
    ∃ i' ∈ (finalizeUsomImport createdAt feedId call db priorSnapshotHash).db.tables.items,
      i'.key = i.key ∧ i'.observed = i.observed := by
  rw [items_finalizeUsomImport]
  exact ⟨_, mem_map_of_mem hi, refreshStep_key i, refreshStep_observed i⟩

variable (createdAt call db) in
theorem item_insertNewIocs {i : IocItem} (hi : i ∈ db.tables.items) :
    i ∈ (insertNewIocs createdAt call db).tables.items := by
  obtain ⟨news, hitems, -⟩ := (insertNewIocs_spec createdAt call db).items
  rw [hitems]
  exact mem_append_left _ hi

end Result

end TalonHound.Usom
