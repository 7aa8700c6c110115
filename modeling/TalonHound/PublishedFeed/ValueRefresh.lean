import TalonHound.PublishedFeed.Refresh

/-!
# Incremental refresh of feeds that publish values

Feeds without hash canonicalization publish one row for each folded value. For feeds of
one observable type the scope of an update follows the identities, so every scoped
winner is a winner of the whole query. What remains are rows whose published value was
changed, and rows of which only the confidence was changed.
-/

namespace TalonHound

open List DistinctOn KeyedTable KeyedView

/-- The projection row of a winner of the value query. -/
def presentValue (rt : Runtime) (feed : Feed) (itemJson : ItemJson) (i : IocItem) :
    Option ProjectionRow :=
  buildProjectionRow rt feed itemJson i.toStreamRow

/-- All winners of the value query. -/
abbrev allValueWinners (rt : Runtime) (feed : Feed) (now : ℤ) (db : Db) : List IocItem :=
  distinctOn (valueIdentity rt) (valueBefore rt) (matchedItems rt feed .all now db)

variable {rt : Runtime} {feed : Feed} {itemJson : ItemJson} {now : ℤ} {db : Db} {t : Projection}
  {dirty : Dirty}

variable {r : ProjectionRow} {i j : IocItem}

theorem mem_newRows_value (hvalue : shouldCanonicalizePublishedHashFeed rt feed = false) :
    r ∈ newRows rt feed itemJson now db t dirty ↔
      ∃ u ∈ valueWinners rt feed .all now db (keepCandidate rt db t dirty),
        presentValue rt feed itemJson u = some r := by
  simp only [newRows, matchedCandidates_eq, buildStreamingBase, hvalue, Bool.false_eq_true,
    if_false, mem_filterMap, mem_orderOutput, mem_map, presentValue, exists_exists_and_eq_and]

theorem mem_fullEvaluation_value (hvalue : shouldCanonicalizePublishedHashFeed rt feed = false) :
    r ∈ fullEvaluation rt feed itemJson now db ↔
      ∃ w ∈ allValueWinners rt feed now db, presentValue rt feed itemJson w = some r := by
  simp only [fullEvaluation, buildStreamingBase, hvalue, Bool.false_eq_true, if_false,
    valueWinners, filter_true, mem_filterMap, mem_orderOutput, mem_map, presentValue,
    exists_exists_and_eq_and]

theorem names_presentValue : Names (presentValue rt feed itemJson) ProjectionRow.iocItemId
      (matchedItems rt feed .all now db) := by
  intro i hi j hj a b ha hb hid
  rw [(buildProjectionRow_eq_some ha).2.2.1, (buildProjectionRow_eq_some hb).2.2.1] at hid
  exact db.eq_of_id_eq (mem_matchedItems.mp hi).1 (mem_matchedItems.mp hj).1 hid

/-- The stored columns of a published row do not depend on the structured item. -/
theorem projectionColumns_presentValue {itemJson' : ItemJson} {i : IocItem} {r s : ProjectionRow}
    (hr : presentValue rt feed itemJson i = some r)
    (hs : presentValue rt feed itemJson' i = some s) :
    r.identityKey = s.identityKey ∧ projectionColumns r = projectionColumns s := by
  obtain ⟨hline, hkey, hid, -, -, hrecency, hconfidence, hpartition⟩ := buildProjectionRow_eq_some hr
  obtain ⟨hline', hkey', hid', -, -, hrecency', hconfidence', hpartition'⟩ :=
    buildProjectionRow_eq_some hs
  have htxt : r.txtValue = s.txtValue := Option.some.inj (hline.symm.trans hline')
  refine ⟨by rw [hkey, hkey', htxt], ?_⟩
  simp only [projectionColumns, hid, hid', htxt, hrecency, hrecency', hconfidence, hconfidence',
    hpartition, hpartition']

/-- The scope depends on the folded value and the type of a row only. -/
theorem keepCandidate_congr (hvalue : rt.lower i.observable = rt.lower j.observable)
    (htype : i.observableType = j.observableType) :
    keepCandidate rt db t dirty i = keepCandidate rt db t dirty j := by
  simp only [keepCandidate, Restriction.holds, hvalue, htype]

/-- The types a poll supplies are the types of the live rows. -/
def TypesTrue (db : Db) (dirty : Dirty) : Prop :=
  ∀ i ∈ db.iocItems, ∀ entry ∈ dirty.typeById, entry.1 = i.id → entry.2 = i.observableType

/-- A listed value and type put a row into the scope. -/
theorem keepCandidate_of_listed
    (hvalue : rt.lower i.observable ∈ (updateRestriction rt db t dirty).lowerValues)
    (htype : i.observableType ∈ (updateRestriction rt db t dirty).types) :
    keepCandidate rt db t dirty i = true := by
  have hne : (updateRestriction rt db t dirty).lowerValues.isEmpty = false := by
    simpa using ne_nil_of_mem hvalue
  simp only [keepCandidate, Restriction.holds, hne, Bool.not_false, Bool.true_and,
    Bool.or_eq_true, Bool.and_eq_true, contains_iff_mem]
  exact Or.inr ⟨hvalue, htype⟩

/-- A row that carries the value and type of a tombstone is in the scope. -/
theorem keepCandidate_of_tombstone {d : Tombstone} (hd : d ∈ dirty.deletes)
    (hvalue : rt.lower i.observable = rt.lower d.observable)
    (htype : i.observableType = d.observableType) : keepCandidate rt db t dirty i = true := by
  refine keepCandidate_of_listed ?_ ?_
  · simp only [updateRestriction, candidateRestriction, mem_dedup, mem_append, mem_map]
    exact Or.inr ⟨d, hd, hvalue.symm⟩
  · simp only [updateRestriction, candidateRestriction, mem_dedup, mem_append, mem_map]
    exact Or.inr ⟨d, hd, htype.symm⟩

theorem mem_of_lookup_eq_some {types : TypeById} {id : ℕ} {type : ObservableType}
    (h : types.lookup id = some type) : (id, type) ∈ types := by
  obtain ⟨l₁, l₂, rfl, -⟩ := lookup_eq_some_iff.mp h
  simp

/-- The types the update goes by are the types of the live rows. -/
theorem lookup_evalTypes (htrue : TypesTrue db dirty) (hi : i ∈ db.iocItems) {type : ObservableType}
    (h : ((dirtyContext rt db t dirty).siblingTypeById ++ dirty.typeById).lookup i.id = some type) :
    type = i.observableType := by
  rcases mem_append.mp (mem_of_lookup_eq_some h) with hmem | hmem
  · simp only [dirtyContext, expandCandidateContext, mem_reverse, mem_append,
      mem_map, Prod.mk.injEq] at hmem
    rcases hmem with ⟨j, hj, hid, rfl⟩ | ⟨l, hl, hid, rfl⟩
    · rw [db.eq_of_id_eq (mem_filter.mp hj).1 hi hid]
    · obtain ⟨j, hj, hjid, hjtype⟩ := db.links_reference l (mem_filter.mp hl).1
      rw [← hjtype, db.eq_of_id_eq hj hi (hjid.trans hid)]
  · exact htrue i hi _ hmem rfl

/-- Every live row whose id is evaluated is in the scope. -/
theorem keepCandidate_of_evalIds (htrue : TypesTrue db dirty) (hi : i ∈ db.iocItems)
    (hid : i.id ∈ evalIds dirty (dirtyContext rt db t dirty)) :
    keepCandidate rt db t dirty i = true := by
  have hident : (rt.lower i.observable, i.observableType) ∈
      resolveDirtyIdentities rt db (evalIds dirty (dirtyContext rt db t dirty))
        ((dirtyContext rt db t dirty).siblingTypeById ++ dirty.typeById) := by
    simp only [resolveDirtyIdentities, mem_dedup, mem_map, mem_filter]
    refine ⟨i, ⟨hi, ?_⟩, rfl⟩
    simp only [Bool.and_eq_true, Bool.or_eq_true, contains_iff_mem, hid, true_and,
      all_eq_true, Bool.not_eq_true', ← Bool.not_eq_true, not_and]
    by_cases hknown : (((dirtyContext rt db t dirty).siblingTypeById ++ dirty.typeById).lookup
        i.id).isSome = true
    · obtain ⟨type, htype⟩ := Option.isSome_iff_exists.mp hknown
      refine Or.inr (mem_filterMap.mpr ⟨i.id, hid, ?_⟩)
      rw [htype, lookup_evalTypes htrue hi htype]
    · exact Or.inl fun _ hall => hknown (hall i.id hid)
  refine keepCandidate_of_listed ?_ ?_
  · simp only [updateRestriction, candidateRestriction, mem_dedup, mem_append]
    exact Or.inl (mem_map_of_mem hident)
  · simp only [updateRestriction, candidateRestriction, mem_dedup, mem_append]
    exact Or.inl (mem_map_of_mem hident)

theorem mem_evalIds_of_dirty {id : ℕ} (h : id ∈ dirty.ids) :
    id ∈ evalIds dirty (dirtyContext rt db t dirty) :=
  mem_dedup.mpr (mem_append_left _ h)

/-- A Basic feed whose IOC types resolve to exactly one of `ip`, `domain` and `url`. -/
structure PublishesOnly (feed : Feed) (type : FeedIocType) : Prop where
  mode : resolveFeedFilterMode feed = .basic
  types : resolveFeedIocTypes feed = [type]
  not_hash : type ≠ .hash

/-- No observable of the state contains white space. -/
def WhitespaceFree (db : Db) : Prop :=
  ∀ i ∈ db.iocItems, ∀ c ∈ i.observable.toList, isJsWhitespace c = false
  deriving Decidable

section SingleType

variable {type : FeedIocType}

section

variable (h : PublishesOnly feed type)
include h

theorem PublishesOnly.value (rt : Runtime) :
    shouldCanonicalizePublishedHashFeed rt feed = false := by
  have hne : type ≠ FeedIocType.hash := h.not_hash
  simp [shouldCanonicalizePublishedHashFeed, h.types, Ne.symm hne]

theorem PublishesOnly.lineType (observableType : ObservableType) :
    lineTypeFor (formatTypesFor feed) observableType = some type := by
  have hnormal : normalizeFeedIocTypes [type] = some [type] := by cases type <;> rfl
  simp [lineTypeFor, formatTypesFor, h.mode, h.types, hnormal]

/-- All rows such a feed selects have one type. -/
theorem PublishesOnly.type_eq {now now' : ℤ} {db db' : Db}
    (hi : i ∈ matchedItems rt feed .all now db) (hj : j ∈ matchedItems rt feed .all now' db') :
    i.observableType = j.observableType := by
  have hnormal : normalizeFeedIocTypes [type] = some [type] := by cases type <;> rfl
  have hsole : ∀ {now : ℤ} {db : Db} {k : IocItem}, k ∈ matchedItems rt feed .all now db →
      k.observableType ∈ observableTypesForFeedIocType type := by
    intro now db k hk
    have hmatch := (mem_matchedItems.mp hk).2
    simp only [matchesFeed, h.mode, h.types, observableTypesForFeedIocTypes, hnormal,
      flatMap_cons, flatMap_nil, append_nil, Bool.and_eq_true,
      contains_iff_mem] at hmatch
    exact hmatch.1.1
  have hi' := hsole hi
  have hj' := hsole hj
  have hne := h.not_hash
  cases type <;> simp_all [observableTypesForFeedIocType]

end

/-- The key of a published row is its type and folded value. -/
theorem presentValue_key (hclean : ∀ c ∈ i.observable.toList, isJsWhitespace c = false)
    (h : presentValue rt feed itemJson i = some r) :
    r.identityKey = .observable i.observableType (rt.lower i.observable) := by
  obtain ⟨hline, hkey, -⟩ := buildProjectionRow_eq_some h
  have hfold := lower_of_normalizeFeedLine hline
  simp only [IocItem.toStreamRow, trim_eq_self hclean] at hfold
  rw [hkey, projectionIdentityKey, hfold]
  rfl

/-- Whether a row is published depends on its folded value only. -/
theorem PublishesOnly.presentValue_isSome (h : PublishesOnly feed type) {itemJson' : ItemJson}
    (hi : ∀ c ∈ i.observable.toList, isJsWhitespace c = false)
    (hj : ∀ c ∈ j.observable.toList, isJsWhitespace c = false)
    (hvalue : rt.lower i.observable = rt.lower j.observable)
    (hsome : (presentValue rt feed itemJson i).isSome = true) :
    (presentValue rt feed itemJson' j).isSome = true := by
  have hempty : j.observable = "" → i.observable = "" := fun hj =>
    rt.lower_empty _ (hvalue.trans (congrArg rt.lower hj))
  have hprivate := rt.lower_private _ _ hvalue
  rw [presentValue, buildProjectionRow_isSome, h.lineType] at hsome ⊢
  simp only [normalizeFeedLine, IocItem.toStreamRow, trim_eq_self hi, trim_eq_self hj] at hsome ⊢
  by_cases hblank : i.observable = ""
  · simp [hblank] at hsome
  · rw [if_neg hblank] at hsome
    rw [if_neg (fun hj => hblank (hempty hj))]
    cases type with
    | ip =>
      simp only at hsome ⊢
      rw [← hprivate]
      split at hsome
      · cases hsome
      · next hpublic => simp [hpublic]
    | domain => rfl
    | url => rfl
    | hash => rfl

/-- When the update of `dirty` carries the full evaluation of the state `dbBefore` over to
the state `db`. -/
structure ValueRefreshSound (rt : Runtime) (feed : Feed) (itemJson : ItemJson) (now : ℤ)
    (nowBefore : ℤ) (dbBefore db : Db) (t : Projection) (dirty : Dirty) : Prop where
  /-- Where a published representative is dirty and rows of the feed still carry its old
  value, that value is re-evaluated. -/
  renamed : ∀ s ∈ allValueWinners rt feed nowBefore dbBefore,
    (presentValue rt feed itemJson s).isSome → s.id ∈ dirty.ids →
      ∀ w ∈ matchedItems rt feed .all now db, rt.lower w.observable = rt.lower s.observable →
        keepCandidate rt db t dirty w = true
  /-- No re-evaluated winner differs from its stored row in its confidence only. -/
  written : ∀ w ∈ allValueWinners rt feed now db, keepCandidate rt db t dirty w = true →
    ∀ r, presentValue rt feed itemJson w = some r → ∀ s, t.find? r.identityKey = some s →
      differs s r = false → s.txtValue = r.txtValue ∧ s.confidence = r.confidence

variable {dbBefore : Db} {nowBefore : ℤ}

/-- A row that is not dirty was there before, and is still there. -/
theorem mem_iff_of_not_dirty (rt : Runtime) (feed : Feed) (nowBefore now : ℤ)
    (hcovers : CoversChanges dbBefore db dirty) (hid : i.id ∉ dirty.ids) :
    i ∈ matchedItems rt feed .all nowBefore dbBefore ↔ i ∈ matchedItems rt feed .all now db := by
  have hsame : i ∈ dbBefore.iocItems ↔ i ∈ db.iocItems :=
    Decidable.byContradiction fun h => hid (hcovers i h)
  rw [mem_matchedItems, mem_matchedItems, hsame, matchesFeed_all rt feed nowBefore now]

variable {w : IocItem}

/-- The feeds of one type have no winner outside the scope of a scoped sibling. -/
theorem PublishesOnly.scope_whole (h : PublishesOnly feed type) {u : IocItem}
    (hu : u ∈ valueWinners rt feed .all now db (keepCandidate rt db t dirty))
    (hw : w ∈ allValueWinners rt feed now db) (hvalue : valueIdentity rt w = valueIdentity rt u) :
    keepCandidate rt db t dirty w = true := by
  obtain ⟨humem, hukeep⟩ := mem_filter.mp (distinctOn_subset hu)
  rw [keepCandidate_congr hvalue (h.type_eq (distinctOn_subset hw) humem)]
  exact hukeep

/-- The lookups of an update do not reach the key of a row outside the scope. -/
theorem not_mem_reachedKeys (htrue : TypesTrue db dirty) (hw : w ∈ db.iocItems)
    (hkeep : keepCandidate rt db t dirty w = false) {k : IdentityKey}
    (hk : k = .observable w.observableType (rt.lower w.observable)) {s : ProjectionRow}
    (hfind : t.find? k = some s) (hs : s.iocItemId = w.id) :
    k ∉ reachedKeys rt feed now db t dirty := by
  have hnot : ¬ keepCandidate rt db t dirty w = true := by simp [hkeep]
  have hsame : ∀ r ∈ t.rows, r.identityKey = k → r.iocItemId = w.id := by
    rintro r hr rfl
    rw [find?_key_of_mem hr] at hfind
    rw [Option.some.inj hfind, hs]
  intro hmem
  simp only [reachedKeys, dirtyContext, expandCandidateContext, mem_append,
    mem_dedup, mem_storedKeysOfIds, mem_storedKeys, mem_filter] at hmem
  rcases hmem with ((⟨r, hr, hkey, hid⟩ | ⟨hident, -⟩) | ⟨hdelete, -⟩) | ⟨r, hr, hkey, hid, -⟩
  · exact hnot (keepCandidate_of_evalIds htrue hw (mem_evalIds_of_dirty (hsame r hr hkey ▸ hid)))
  · simp only [mem_map, resolveDirtyIdentities, mem_dedup, mem_filter] at hident
    obtain ⟨_, ⟨j, ⟨hj, hjdirty⟩, rfl⟩, hkey⟩ := hident
    rw [hk, projectionIdentityKey, rt.lower_lower, IdentityKey.observable.injEq] at hkey
    rw [keepCandidate_congr hkey.2.symm hkey.1.symm] at hnot
    simp only [Bool.and_eq_true, contains_iff_mem] at hjdirty
    exact hnot (keepCandidate_of_evalIds htrue hj (mem_evalIds_of_dirty hjdirty.1))
  · obtain ⟨d, hd, hkey⟩ := mem_flatMap.mp hdelete
    simp only [tombstoneKeys, mem_append, mem_singleton, Option.mem_toList,
      Option.map_eq_some_iff] at hkey
    rcases hkey with ⟨id, -, hkey⟩ | hkey
    · rw [hk] at hkey
      cases hkey
    · rw [hk, projectionIdentityKey, IdentityKey.observable.injEq] at hkey
      exact hnot (keepCandidate_of_tombstone hd hkey.2 hkey.1)
  · rw [hsame r hr hkey] at hid
    exact hnot (keepCandidate_of_evalIds htrue hw hid)

/-- An unchanged winner of the new state was the winner of its value before, unless the
old winner of the value is dirty. -/
theorem winner_before (hcovers : CoversChanges dbBefore db dirty) {w : IocItem}
    (hw : w ∈ allValueWinners rt feed now db) (hid : w.id ∉ dirty.ids)
    (hold : ∀ s ∈ allValueWinners rt feed nowBefore dbBefore,
      valueIdentity rt s = valueIdentity rt w → s.id ∉ dirty.ids) :
    w ∈ allValueWinners rt feed nowBefore dbBefore := by
  have hwmem := (mem_iff_of_not_dirty rt feed nowBefore now hcovers hid).mpr (distinctOn_subset hw)
  obtain ⟨s, hs, hident, hle⟩ := exists_leader (valueIdentity rt) sorts_matchedItems hwmem
  rcases hle with rfl | hbefore
  · exact hs
  · have hsmem := (mem_iff_of_not_dirty rt feed nowBefore now hcovers (hold s hs hident)).mp
      (distinctOn_subset hs)
    rw [(mem_distinctOn.mp hw).2 s hsmem hident] at hbefore
    exact absurd hbefore Bool.false_ne_true

variable {itemJsonBefore : ItemJson}

section

variable (hfeed : PublishesOnly feed type) (hcleanBefore : WhitespaceFree dbBefore)
  (hclean : WhitespaceFree db)
include hfeed hcleanBefore hclean

/-- Over a projection that reflects the old state, the two conditions make the update exact. -/
theorem ValueRefreshSound.updateExact (hcovers : CoversChanges dbBefore db dirty)
    (htrue : TypesTrue db dirty) (hbefore : Reflects rt feed itemJsonBefore nowBefore dbBefore t)
    (h : ValueRefreshSound rt feed itemJson now nowBefore dbBefore db t dirty) :
    UpdateExact rt feed itemJson now db t dirty := by
  have hvalue := hfeed.value rt
  have hsort : Sorts (valueBefore rt) (matchedItems rt feed .all now db) := sorts_matchedItems
  have hnames : Names (presentValue rt feed itemJson) ProjectionRow.iocItemId
      (matchedItems rt feed .all now db) := names_presentValue
  have hitem : ∀ {i}, i ∈ matchedItems rt feed .all now db → i ∈ db.iocItems :=
    fun hi => (mem_matchedItems.mp hi).1
  have hitemBefore : ∀ {i}, i ∈ matchedItems rt feed .all nowBefore dbBefore →
      i ∈ dbBefore.iocItems := fun hi => (mem_matchedItems.mp hi).1
  have hsound : ∀ r ∈ newRows rt feed itemJson now db t dirty,
      r ∈ fullEvaluation rt feed itemJson now db := by
    intro r hr
    rw [mem_fullEvaluation_value hvalue]
    exact (presented_sound_iff hsort hnames).mpr
      (fun u hu _ w hw hident => hfeed.scope_whole hu hw hident) r
      ((mem_newRows_value hvalue).mp hr)
  refine ⟨hsound, ?_, ?_, ?_, ?_⟩
  · intro r hr s hs hkey
    obtain ⟨v, hv, hvr⟩ := (mem_fullEvaluation_value hvalue).mp hr
    obtain ⟨w, hw, hws⟩ := (mem_fullEvaluation_value hvalue).mp hs
    rw [presentValue_key (hclean v (hitem (distinctOn_subset hv))) hvr,
      presentValue_key (hclean w (hitem (distinctOn_subset hw))) hws,
      IdentityKey.observable.injEq] at hkey
    obtain rfl := leader_unique hsort hv hw hkey.2
    exact Option.some.inj (hvr.symm.trans hws)
  · intro r hr hnew
    obtain ⟨w, hw, hwr⟩ := (mem_fullEvaluation_value hvalue).mp hr
    have hwmem := hitem (distinctOn_subset hw)
    have hwsome : (presentValue rt feed itemJson w).isSome = true := by simp [hwr]
    have hkeep : keepCandidate rt db t dirty w = false := by
      rw [← Bool.not_eq_true, ← presented_restricted_iff hnames hw hwr]
      exact fun hscoped => hnew ((mem_newRows_value hvalue).mpr hscoped)
    have hid : w.id ∉ dirty.ids := by
      intro hid
      rw [keepCandidate_of_evalIds htrue hwmem (mem_evalIds_of_dirty hid)] at hkeep
      cases hkeep
    -- An old winner of the value that is dirty would put the value into the scope.
    have hwBefore : w ∈ allValueWinners rt feed nowBefore dbBefore := by
      refine winner_before hcovers hw hid fun s hs hident hsid => ?_
      have hsome : (presentValue rt feed itemJson s).isSome = true :=
        hfeed.presentValue_isSome (hclean w hwmem)
          (hcleanBefore s (hitemBefore (distinctOn_subset hs))) hident.symm hwsome
      rw [h.renamed s hs hsome hsid w (distinctOn_subset hw) hident.symm] at hkeep
      cases hkeep
    have hwsome' : (presentValue rt feed itemJsonBefore w).isSome = true :=
      hfeed.presentValue_isSome (hclean w hwmem) (hclean w hwmem) rfl hwsome
    obtain ⟨r', hwr'⟩ := Option.isSome_iff_exists.mp hwsome'
    obtain ⟨hkey, hcols⟩ := projectionColumns_presentValue hwr hwr'
    obtain ⟨s, hfind, hcols'⟩ := hbefore.1 r' ((mem_fullEvaluation_value hvalue).mpr
      ⟨w, hwBefore, hwr'⟩)
    rw [← hkey] at hfind
    refine ⟨?_, s, hfind, hcols'.trans hcols.symm⟩
    refine not_mem_reachedKeys htrue hwmem hkeep (presentValue_key (hclean w hwmem) hwr) hfind ?_
    rw [iocItemId_eq_of_columns (hcols'.trans hcols.symm), (buildProjectionRow_eq_some hwr).2.2.1]
    rfl
  · intro r hr s hfind hsame
    obtain ⟨u, hu, hur⟩ := (mem_newRows_value hvalue).mp hr
    obtain ⟨w, hw, hwr⟩ := (mem_fullEvaluation_value hvalue).mp (hsound r hr)
    obtain rfl := hnames.source hu hw hur hwr
    rw [differs_and_rewrites] at hsame
    exact (columns_eq_iff_of_not_differs hsame).mpr
      (h.written u hw (mem_filter.mp (distinctOn_subset hu)).2 r hwr s hfind hsame)
  · intro k s hfind hreached
    obtain ⟨r', hr', rfl, hcols⟩ := hbefore.2 k s hfind
    obtain ⟨v, hv, hvr⟩ := (mem_fullEvaluation_value hvalue).mp hr'
    have hvmem := hitemBefore (distinctOn_subset hv)
    have hsid : s.iocItemId = v.id := by
      rw [← iocItemId_eq_of_columns hcols, (buildProjectionRow_eq_some hvr).2.2.1]
      rfl
    have hid : v.id ∉ dirty.ids := by
      intro hid
      refine hreached (mem_append_left _ ?_)
      rw [find?_eq_some] at hfind
      simp only [dirtyContext, expandCandidateContext, mem_dedup, mem_append, mem_storedKeysOfIds]
      exact Or.inl (Or.inl ⟨s, hfind.1, hfind.2, hsid ▸ hid⟩)
    have hvnow := (mem_iff_of_not_dirty rt feed nowBefore now hcovers hid).mp (distinctOn_subset hv)
    obtain ⟨w, hw, hident, -⟩ := exists_leader (valueIdentity rt) sorts_matchedItems hvnow
    have hsome : (presentValue rt feed itemJson w).isSome = true :=
      hfeed.presentValue_isSome (hcleanBefore v hvmem) (hclean w (hitem (distinctOn_subset hw)))
        hident.symm (Option.isSome_iff_exists.mpr ⟨r', hvr⟩)
    obtain ⟨r, hwr⟩ := Option.isSome_iff_exists.mp hsome
    refine ⟨r, (mem_fullEvaluation_value hvalue).mpr ⟨w, hw, hwr⟩, ?_⟩
    rw [presentValue_key (hclean w (hitem (distinctOn_subset hw))) hwr,
      presentValue_key (hcleanBefore v hvmem) hvr, hfeed.type_eq (distinctOn_subset hw) hvnow]
    exact congrArg _ hident

/-- An exact update meets the two conditions. -/
theorem ValueRefreshSound.of_updateExact
    (hbefore : Reflects rt feed itemJsonBefore nowBefore dbBefore t)
    (h : UpdateExact rt feed itemJson now db t dirty) :
    ValueRefreshSound rt feed itemJson now nowBefore dbBefore db t dirty := by
  have hvalue := hfeed.value rt
  have hnames : Names (presentValue rt feed itemJson) ProjectionRow.iocItemId
      (matchedItems rt feed .all now db) := names_presentValue
  have hitem : ∀ {i}, i ∈ matchedItems rt feed .all now db → i ∈ db.iocItems :=
    fun hi => (mem_matchedItems.mp hi).1
  have hscope : ∀ w ∈ allValueWinners rt feed now db, ∀ r, presentValue rt feed itemJson w = some r →
      (r ∈ newRows rt feed itemJson now db t dirty ↔ keepCandidate rt db t dirty w = true) := by
    intro w hw r hr
    rw [mem_newRows_value hvalue]
    exact presented_restricted_iff hnames hw hr
  constructor
  · intro s hs hsome hid w hw hident
    have hsmem := (mem_matchedItems.mp (distinctOn_subset hs)).1
    obtain ⟨v, hv, hvident, -⟩ := exists_leader (valueIdentity rt) sorts_matchedItems hw
    have hvmem := hitem (distinctOn_subset hv)
    have hvs : rt.lower s.observable = rt.lower v.observable := hident.symm.trans hvident.symm
    rw [keepCandidate_congr hvident.symm (hfeed.type_eq hw (distinctOn_subset hv))]
    by_contra hkeep
    obtain ⟨r, hvr⟩ := Option.isSome_iff_exists.mp
      (hfeed.presentValue_isSome (hcleanBefore s hsmem) (hclean v hvmem) hvs hsome :
        (presentValue rt feed itemJson v).isSome = true)
    have hnew : r ∉ newRows rt feed itemJson now db t dirty := by
      rw [hscope v hv r hvr]
      exact hkeep
    have hunreached := (h.kept r ((mem_fullEvaluation_value hvalue).mpr ⟨v, hv, hvr⟩) hnew).1
    -- The stored row of the old winner carries the same key and a dirty id.
    obtain ⟨a, hsa⟩ := Option.isSome_iff_exists.mp
      (hfeed.presentValue_isSome (hcleanBefore s hsmem) (hcleanBefore s hsmem) rfl hsome :
        (presentValue rt feed itemJsonBefore s).isSome = true)
    obtain ⟨b, hfind, hcols⟩ := hbefore.1 a ((mem_fullEvaluation_value hvalue).mpr ⟨s, hs, hsa⟩)
    have hbid : b.iocItemId = s.id := by
      rw [iocItemId_eq_of_columns hcols, (buildProjectionRow_eq_some hsa).2.2.1]
      rfl
    have hkey : a.identityKey = r.identityKey := by
      rw [presentValue_key (hcleanBefore s hsmem) hsa, presentValue_key (hclean v hvmem) hvr,
        hfeed.type_eq (distinctOn_subset hs) (distinctOn_subset hv), hvs]
    refine hunreached (mem_append_left _ ?_)
    rw [find?_eq_some] at hfind
    simp only [dirtyContext, expandCandidateContext, mem_dedup, mem_append, mem_storedKeysOfIds]
    exact Or.inl (Or.inl ⟨b, hfind.1, hfind.2.trans hkey, hbid ▸ hid⟩)
  · intro w hw hkeep r hwr s hfind hsame
    refine (columns_eq_iff_of_not_differs hsame).mp ?_
    exact h.written r ((hscope w hw r hwr).mpr hkeep) s hfind (by rw [differs_and_rewrites, hsame])

end

/-- Two re-evaluated rows of such a feed never share a key. -/
theorem PublishesOnly.nodup_newRows_keys (hfeed : PublishesOnly feed type)
    (hclean : WhitespaceFree db) :
    ((newRows rt feed itemJson now db t dirty).map ProjectionRow.identityKey).Nodup := by
  have hsort : Sorts (valueBefore rt) (matchedItems rt feed .all now db) := sorts_matchedItems
  refine nodup_newRows.map_on fun a ha b hb hkey => ?_
  obtain ⟨u, hu, hua⟩ := (mem_newRows_value (hfeed.value rt)).mp ha
  obtain ⟨v, hv, hvb⟩ := (mem_newRows_value (hfeed.value rt)).mp hb
  have humem := (mem_filter.mp (distinctOn_subset hu)).1
  have hvmem := (mem_filter.mp (distinctOn_subset hv)).1
  rw [presentValue_key (hclean u (mem_matchedItems.mp humem).1) hua,
    presentValue_key (hclean v (mem_matchedItems.mp hvmem).1) hvb,
    IdentityKey.observable.injEq] at hkey
  obtain rfl := leader_unique (hsort.of_subset fun r hr => (mem_filter.mp hr).1) hu hv hkey.2
  exact Option.some.inj (hua.symm.trans hvb)

end SingleType

/-- Two rows of one domain. -/
def twinDb : Db :=
  plainDb [plainIoc 1 .domain "a.com" 20, plainIoc 2 .domain "a.com" 10] (by simp [plainIoc])

/-- The projection of the two rows: the newer one represents the domain. -/
def twinProjection : Projection where
  rows := fullEvaluation plainRuntime (plainFeed [.domain]) (fun _ _ => none) 0 twinDb
  nodup := by decide +kernel

theorem twinProjection_reflects :
    Reflects plainRuntime (plainFeed [.domain]) (fun _ _ => none) 0 twinDb twinProjection :=
  agrees_of_rows_eq projectionColumns rfl

/-- The newer row was given another value. -/
def renamedDb : Db :=
  plainDb [plainIoc 1 .domain "b.com" 20, plainIoc 2 .domain "a.com" 10] (by simp [plainIoc])

/-- The newer row was deleted. -/
def deletedDb : Db := plainDb [plainIoc 2 .domain "a.com" 10] (by simp [plainIoc])

theorem publishesOnly_domain : PublishesOnly (plainFeed [.domain]) .domain :=
  ⟨rfl, by decide, by decide⟩

/-- A value that differs between the twin state and a later one belongs to the first row. -/
theorem covers_twinDb {db : Db} {dirty : Dirty} (hfirst : 1 ∈ dirty.ids)
    (hall : ∀ i ∈ db.iocItems, i.id = 1 ∨ i = plainIoc 2 .domain "a.com" 10)
    (hsecond : plainIoc 2 .domain "a.com" 10 ∈ db.iocItems) : CoversChanges twinDb db dirty := by
  have htwin : ∀ i ∈ twinDb.iocItems, i.id = 1 ∨ i = plainIoc 2 .domain "a.com" 10 := by decide
  intro i hi
  have hid : i.id = 1 := by
    by_contra hne
    refine hi ⟨fun hmem => ?_, fun hmem => ?_⟩
    · rw [(htwin i hmem).resolve_left hne]
      exact hsecond
    · rw [(hall i hmem).resolve_left hne]
      decide
  rw [hid]
  exact hfirst

end TalonHound
