import Mathlib.Data.List.Dedup
import TalonHound.PublishedFeed.Projection

/-!
# The incremental projection update

`applyIncrementalProjectionUpdate` re-evaluates the identities of the dirty rows against
the feed, deletes the projection rows that left and upserts those that entered or
changed. The last section shows that on the stored table it is a keyed view refresh.
-/

namespace TalonHound

open List KeyedTable

/-- A row of `published_feed_ioc_deletes`. -/
structure Tombstone where
  iocItemId : ℕ
  observable : String
  observableType : ObservableType
  artifactId : Option String
  deletedAt : ℤ
  deriving DecidableEq

/-- The types known for some ids; the first entry of an id counts. -/
abbrev TypeById := List (ℕ × ObservableType)

/-- What the dirty poll hands to the update. -/
structure Dirty where
  ids : List ℕ
  deletes : List Tombstone
  typeById : TypeById
  forceFull : Bool
  deriving DecidableEq

/-- `resolveDirtyIdentities`: the folded values and types of the live rows with these ids,
read from the known partitions when every id has a known type. -/
def resolveDirtyIdentities (rt : Runtime) (db : Db) (ids : List ℕ) (typeById : TypeById) :
    List (String × ObservableType) :=
  let knownTypes := ids.filterMap fun id => typeById.lookup id
  let knowAllTypes := !knownTypes.isEmpty && ids.all fun id => (typeById.lookup id).isSome
  ((db.iocItems.filter fun i =>
    ids.contains i.id && (!knowAllTypes || knownTypes.contains i.observableType)).map fun i =>
      (rt.lower i.observable, i.observableType)).dedup

/-- The identity scope `evaluateCandidatesAgainstFeed` builds from ids and tombstones. -/
def candidateRestriction (rt : Runtime) (db : Db) (candidateIds : List ℕ)
    (deletes : List Tombstone) (typeById : TypeById) : Restriction :=
  let idents := resolveDirtyIdentities rt db candidateIds typeById
  { lowerValues := (idents.map Prod.fst ++ deletes.map fun d => rt.lower d.observable).dedup
    types := (idents.map Prod.snd ++ deletes.map Tombstone.observableType).dedup }

/-- `evaluateCandidatesAgainstFeed` under the window `all`. -/
def evaluateCandidatesAgainstFeed (rt : Runtime) (feed : Feed) (now : ℤ) (db : Db)
    (candidateIds : List ℕ) (deletes : List Tombstone) (typeById : TypeById) : List StreamRow :=
  let restrict := candidateRestriction rt db candidateIds deletes typeById
  if restrict.lowerValues = [] then []
  else buildStreamingBase rt feed .all now db (restrict.holds rt)

/-- The result of `expandCandidateContext`. -/
structure CandidateContext where
  projectedKeys : List IdentityKey
  siblingIds : List ℕ
  siblingTypeById : TypeById

/-- The stored keys among `keys`. -/
def storedKeys (t : Projection) (keys : List IdentityKey) : List IdentityKey :=
  (t.rows.filter fun r => keys.contains r.identityKey).map ProjectionRow.identityKey

/-- The keys of the stored rows whose representative is one of `ids`. -/
def storedKeysOfIds (t : Projection) (ids : List ℕ) : List IdentityKey :=
  (t.rows.filter fun r => ids.contains r.iocItemId).map ProjectionRow.identityKey

/-- The keys under which a tombstone may be projected. -/
def tombstoneKeys (rt : Runtime) (d : Tombstone) : List IdentityKey :=
  (d.artifactId.map IdentityKey.artifact).toList ++
    [projectionIdentityKey rt d.observable d.observableType]

/-- The live rows that carry the value and type of a tombstone. -/
def tombstoneSiblings (rt : Runtime) (db : Db) (deletes : List Tombstone) : List IocItem :=
  db.iocItems.filter fun i => deletes.any fun d =>
    decide (rt.lower i.observable = rt.lower d.observable ∧ i.observableType = d.observableType)

/-- The links of the artifacts that tombstones name. -/
def tombstoneLinks (db : Db) (deletes : List Tombstone) : List ArtifactLink :=
  db.artifactLinks.filter fun l => (deletes.filterMap Tombstone.artifactId).contains l.artifactId

/-- `expandCandidateContext`. -/
def expandCandidateContext (rt : Runtime) (db : Db) (t : Projection) (ids : List ℕ)
    (deletes : List Tombstone) (dirtyIdentities : List (String × ObservableType)) :
    CandidateContext :=
  let dirtyKeys := dirtyIdentities.map fun p => projectionIdentityKey rt p.1 p.2
  let siblings := (tombstoneSiblings rt db deletes).map (fun i => (i.id, i.observableType)) ++
    (tombstoneLinks db deletes).map (fun l => (l.iocItemId, l.iocObservableType))
  { projectedKeys := (storedKeysOfIds t ids ++ storedKeys t dirtyKeys ++
      storedKeys t (deletes.flatMap (tombstoneKeys rt))).dedup
    siblingIds := (siblings.map Prod.fst).dedup
    siblingTypeById := siblings.reverse }

/-- A row of `touchedRows`: the key that was written or left, with its chunk and recency. -/
structure TouchedRow where
  identityKey : IdentityKey
  chunkKey : Option ℕ
  (recencyTs prevRecencyTs : Option ℤ)

/-- What an update reports. -/
structure ProjectionDelta where
  (entered updated removed unchanged : ℕ)
  (artifactDirty forceFull : Bool)
  affectedChunkKeys : List ℕ
  touchedRows : List TouchedRow

/-- The report of an update that did nothing. -/
def ProjectionDelta.none (forceFull : Bool) : ProjectionDelta :=
  ⟨0, 0, 0, 0, false, forceFull, [], []⟩

/-- The comparison that decides whether a stored row counts as updated. -/
def differs (prev row : ProjectionRow) : Bool :=
  prev.contentFingerprint != row.contentFingerprint || prev.iocItemId != row.iocItemId ||
    prev.recencyTs != row.recencyTs || prev.partitionIdentity != row.partitionIdentity ||
    prev.chunkKey.getD 0 != row.chunkKey.getD 0

/-- The ids that the update evaluates: the dirty ones and the siblings of tombstones. -/
def evalIds (dirty : Dirty) (ctx : CandidateContext) : List ℕ :=
  (dirty.ids ++ ctx.siblingIds).dedup

/-- The context of the dirty candidates. -/
def dirtyContext (rt : Runtime) (db : Db) (t : Projection) (dirty : Dirty) : CandidateContext :=
  expandCandidateContext rt db t dirty.ids dirty.deletes
    (resolveDirtyIdentities rt db dirty.ids dirty.typeById)

/-- The rows of the feed among the evaluated identities. -/
def matchedCandidates (rt : Runtime) (feed : Feed) (now : ℤ) (db : Db) (t : Projection)
    (dirty : Dirty) : List StreamRow :=
  let ctx := dirtyContext rt db t dirty
  evaluateCandidatesAgainstFeed rt feed now db (evalIds dirty ctx) dirty.deletes
    (ctx.siblingTypeById ++ dirty.typeById)

/-- `buildProjectionRowsForMatched` on the matched candidates. -/
def newRows (rt : Runtime) (feed : Feed) (itemJson : ItemJson) (now : ℤ) (db : Db)
    (t : Projection) (dirty : Dirty) : List ProjectionRow :=
  (matchedCandidates rt feed now db t dirty).filterMap (buildProjectionRow rt feed itemJson)

/-- The stored rows the update looks at. -/
def existingRows (rt : Runtime) (feed : Feed) (itemJson : ItemJson) (now : ℤ) (db : Db)
    (t : Projection) (dirty : Dirty) : List ProjectionRow :=
  let ctx := dirtyContext rt db t dirty
  let ids := evalIds dirty ctx
  let newKeys := (newRows rt feed itemJson now db t dirty).map ProjectionRow.identityKey
  t.rows.filter fun r =>
    (if ids = [] then [0] else ids).contains r.iocItemId ||
      (newKeys ++ ctx.projectedKeys).contains r.identityKey

/-- The two leave rules. -/
def projectionLeaveKeys (rt : Runtime) (feed : Feed) (itemJson : ItemJson) (now : ℤ) (db : Db)
    (t : Projection) (dirty : Dirty) : List IdentityKey :=
  let ctx := dirtyContext rt db t dirty
  let ids := evalIds dirty ctx
  let matchedIds := (matchedCandidates rt feed now db t dirty).map StreamRow.id
  let newKeys := (newRows rt feed itemJson now db t dirty).map ProjectionRow.identityKey
  let leaving := ((existingRows rt feed itemJson now db t dirty).filter fun e =>
    !newKeys.contains e.identityKey && !matchedIds.contains e.iocItemId &&
      (ids.contains e.iocItemId || ctx.projectedKeys.contains e.identityKey)).map
        ProjectionRow.identityKey
  leaving ++ ctx.projectedKeys.filter fun k => !newKeys.contains k && !leaving.contains k

/-- The touched row of a new row: nothing when it is stored unchanged. -/
def touchNew (existing : List ProjectionRow) (row : ProjectionRow) : Option TouchedRow :=
  match existing.find? fun e => decide (e.identityKey = row.identityKey) with
  | .none => some ⟨row.identityKey, row.chunkKey, some row.recencyTs, .none⟩
  | some prev =>
    if differs prev row then
      some ⟨row.identityKey, row.chunkKey.or prev.chunkKey, some row.recencyTs, some prev.recencyTs⟩
    else .none

/-- The touched row of a key that left. -/
def touchLeft (existing : List ProjectionRow) (k : IdentityKey) : TouchedRow :=
  let prev := existing.find? fun e => decide (e.identityKey = k)
  ⟨k, prev.bind ProjectionRow.chunkKey, .none, prev.map ProjectionRow.recencyTs⟩

/-- `applyIncrementalProjectionUpdate` for the base window. -/
def applyIncrementalProjectionUpdate (rt : Runtime) (feed : Feed) (itemJson : ItemJson) (now : ℤ)
    (db : Db) (t : Projection) (dirty : Dirty) :
    Except UpsertError (Projection × ProjectionDelta) :=
  if dirty.forceFull then .ok (t, .none true)
  else if dirty.ids = [] ∧ dirty.deletes = [] then .ok (t, .none false)
  else do
    let rows := newRows rt feed itemJson now db t dirty
    let existing := existingRows rt feed itemJson now db t dirty
    let leaveKeys := projectionLeaveKeys rt feed itemJson now db t dirty
    let prevOf := fun k => existing.find? fun e => decide (e.identityKey = k)
    let enters := rows.filter fun r => (prevOf r.identityKey).isNone
    let toUpsert := rows.filter fun r =>
      match prevOf r.identityKey with
      | .none => true
      | some prev => differs prev r
    let removed := t.rows.countP fun r => leaveKeys.contains r.identityKey
    let updated := toUpsert.length - enters.length
    let t' ← (t.delete leaveKeys).upsertBatches rewrites (inBatches rt.dirtyBatch toUpsert)
    let chunks := existing.filterMap ProjectionRow.chunkKey ++
      rows.filterMap ProjectionRow.chunkKey ++
      leaveKeys.filterMap fun k => (prevOf k).bind ProjectionRow.chunkKey
    return (t', {
      entered := enters.length
      updated := updated
      removed := removed
      unchanged := rows.length - toUpsert.length
      artifactDirty := decide (0 < enters.length + updated + removed)
      forceFull := false
      affectedChunkKeys := chunks.dedup.insertionSort (· ≤ ·)
      touchedRows := rows.filterMap (touchNew existing) ++ leaveKeys.map (touchLeft existing) })

/-- The identity scope of the update. -/
def updateRestriction (rt : Runtime) (db : Db) (t : Projection) (dirty : Dirty) : Restriction :=
  let ctx := dirtyContext rt db t dirty
  candidateRestriction rt db (evalIds dirty ctx) dirty.deletes (ctx.siblingTypeById ++ dirty.typeById)

/-- The rows the update lets through to the feed predicate. -/
def keepCandidate (rt : Runtime) (db : Db) (t : Projection) (dirty : Dirty) (i : IocItem) : Bool :=
  !(updateRestriction rt db t dirty).lowerValues.isEmpty &&
    (updateRestriction rt db t dirty).holds rt i

/-- The stored keys that the lookups of the update reach. -/
def reachedKeys (rt : Runtime) (feed : Feed) (now : ℤ) (db : Db) (t : Projection)
    (dirty : Dirty) : List IdentityKey :=
  let ctx := dirtyContext rt db t dirty
  let matchedIds := (matchedCandidates rt feed now db t dirty).map StreamRow.id
  ctx.projectedKeys ++ storedKeysOfIds t ((evalIds dirty ctx).filter fun id => id ∉ matchedIds)

variable {rt : Runtime} {feed : Feed} {itemJson : ItemJson} {now : ℤ} {db : Db} {t : Projection}
  {dirty : Dirty}

variable {k : IdentityKey}

theorem mem_storedKeys {keys : List IdentityKey} :
    k ∈ storedKeys t keys ↔ k ∈ keys ∧ ∃ r ∈ t.rows, r.identityKey = k := by
  simp only [storedKeys, mem_map, mem_filter, contains_iff_mem]
  constructor
  · rintro ⟨r, ⟨hr, hk⟩, rfl⟩
    exact ⟨hk, r, hr, rfl⟩
  · rintro ⟨hk, r, hr, rfl⟩
    exact ⟨r, ⟨hr, hk⟩, rfl⟩

theorem mem_storedKeysOfIds {ids : List ℕ} :
    k ∈ storedKeysOfIds t ids ↔ ∃ r ∈ t.rows, r.identityKey = k ∧ r.iocItemId ∈ ids := by
  simp only [storedKeysOfIds, mem_map, mem_filter, contains_iff_mem]
  constructor
  · rintro ⟨r, ⟨hr, hid⟩, rfl⟩
    exact ⟨r, hr, rfl, hid⟩
  · rintro ⟨r, hr, rfl, hid⟩
    exact ⟨r, ⟨hr, hid⟩, rfl⟩

/-- Keeping no row gives an empty result. -/
theorem buildStreamingBase_nil (rt : Runtime) (feed : Feed) (now : ℤ) (db : Db) :
    buildStreamingBase rt feed .all now db (fun _ => false) = [] := by
  simp only [buildStreamingBase, buildStreamingHashBase, hashWinners, valueWinners,
    DistinctOn.distinctOn, filter_false, filter_nil, map_nil]
  split <;> rfl

/-- The candidates are the base query scoped to `keepCandidate`. -/
theorem matchedCandidates_eq : matchedCandidates rt feed now db t dirty =
      buildStreamingBase rt feed .all now db (keepCandidate rt db t dirty) := by
  have hkeep : keepCandidate rt db t dirty = fun i =>
      !(updateRestriction rt db t dirty).lowerValues.isEmpty &&
        (updateRestriction rt db t dirty).holds rt i := rfl
  change (if (updateRestriction rt db t dirty).lowerValues = [] then []
    else buildStreamingBase rt feed .all now db ((updateRestriction rt db t dirty).holds rt)) = _
  rw [hkeep]
  by_cases hvalues : (updateRestriction rt db t dirty).lowerValues = []
  · simp only [hvalues, if_true, isEmpty_nil, Bool.not_true, Bool.false_and, buildStreamingBase_nil]
  · have hsome : (updateRestriction rt db t dirty).lowerValues.isEmpty = false := by
      simpa using hvalues
    simp only [hvalues, if_false, hsome, Bool.not_false, Bool.true_and]

/-- A stored row of a new or projected key is among the rows the update looks at. -/
theorem find?_existingRows {k : IdentityKey}
    (hk : k ∈ (newRows rt feed itemJson now db t dirty).map ProjectionRow.identityKey ∨
      k ∈ (dirtyContext rt db t dirty).projectedKeys) :
    (existingRows rt feed itemJson now db t dirty).find? (fun e => decide (e.identityKey = k)) =
      t.find? k := by
  rw [existingRows, find?_filter, KeyedTable.find?]
  congr 1
  funext r
  by_cases hkey : r.identityKey = k
  · subst hkey
    have hmem := contains_iff_mem.mpr (mem_append.mpr hk)
    simp only [hmem, Bool.or_true, decide_true, and_self]
  · simp [hkey]

/-- The two leave rules together delete the reached keys that no new row carries. -/
theorem mem_projectionLeaveKeys : k ∈ projectionLeaveKeys rt feed itemJson now db t dirty ↔
      k ∈ KeyedView.leaveKeys ProjectionRow.identityKey (reachedKeys rt feed now db t dirty)
        (newRows rt feed itemJson now db t dirty) := by
  have hexisting : ∀ r, r ∈ existingRows rt feed itemJson now db t dirty → r ∈ t.rows :=
    fun r hr => (mem_filter.mp hr).1
  simp only [projectionLeaveKeys, KeyedView.mem_leaveKeys, reachedKeys, mem_append,
    mem_map, mem_filter, mem_storedKeysOfIds, Bool.and_eq_true, Bool.not_eq_true',
    Bool.or_eq_true, contains_iff_mem, ← Bool.not_eq_true, decide_eq_true_eq]
  constructor
  · rintro (⟨e, ⟨he, ⟨hnew, hmatched⟩, hids | hprojected⟩, rfl⟩ | ⟨hprojected, hnew, -⟩)
    · exact ⟨Or.inr ⟨e, hexisting e he, rfl, hids, hmatched⟩, hnew⟩
    · exact ⟨Or.inl hprojected, hnew⟩
    · exact ⟨Or.inl hprojected, hnew⟩
  · rintro ⟨hprojected | ⟨r, hr, rfl, hids, hmatched⟩, hnew⟩
    · rw [or_iff_not_imp_left]
      exact fun hleaving => ⟨hprojected, hnew, hleaving⟩
    · refine Or.inl ⟨r, ⟨?_, ⟨hnew, hmatched⟩, Or.inl hids⟩, rfl⟩
      have hne : evalIds dirty (dirtyContext rt db t dirty) ≠ [] := ne_nil_of_mem hids
      simp only [existingRows, mem_filter, if_neg hne, hr, true_and, Bool.or_eq_true,
        contains_iff_mem]
      exact Or.inl hids

/-- On the stored table the update is a refresh of a keyed view. -/
theorem applyIncrementalProjectionUpdate_table (hforce : dirty.forceFull = false) :
    (applyIncrementalProjectionUpdate rt feed itemJson now db t dirty).map Prod.fst =
      KeyedView.refresh rt.dirtyBatch differs rewrites t (reachedKeys rt feed now db t dirty)
        (newRows rt feed itemJson now db t dirty) := by
  unfold applyIncrementalProjectionUpdate
  rw [if_neg (by simp [hforce])]
  split
  · next hempty =>
    have hkeep : keepCandidate rt db t dirty = fun _ => false := by
      funext i
      simp [keepCandidate, updateRestriction, candidateRestriction, resolveDirtyIdentities, dirtyContext,
        expandCandidateContext, evalIds, tombstoneSiblings, tombstoneLinks, hempty.1, hempty.2]
    have hnew : newRows rt feed itemJson now db t dirty = [] := by
      rw [newRows, matchedCandidates_eq, hkeep, buildStreamingBase_nil, filterMap_nil]
    have hreached : reachedKeys rt feed now db t dirty = [] := by
      simp [reachedKeys, dirtyContext, expandCandidateContext, evalIds, tombstoneSiblings,
        tombstoneLinks, storedKeysOfIds, storedKeys, resolveDirtyIdentities, hempty.1, hempty.2]
    simp [KeyedView.refresh, hnew, hreached, KeyedView.leaveKeys, KeyedView.toUpsert, inBatches,
      upsertBatches, Except.map]
    rfl
  · have hupsert : ((newRows rt feed itemJson now db t dirty).filter fun r =>
        match (existingRows rt feed itemJson now db t dirty).find?
          fun e => decide (e.identityKey = r.identityKey) with
        | .none => true
        | some prev => differs prev r) =
        KeyedView.toUpsert differs t (newRows rt feed itemJson now db t dirty) := by
      refine filter_congr fun r hr => ?_
      rw [find?_existingRows (Or.inl (mem_map_of_mem hr))]
      cases t.find? r.identityKey <;> rfl
    have hdelete : t.delete (projectionLeaveKeys rt feed itemJson now db t dirty) = _ :=
      t.delete_congr fun _ => mem_projectionLeaveKeys
    simp only [hupsert, hdelete, KeyedView.refresh]
    cases (t.delete (KeyedView.leaveKeys ProjectionRow.identityKey
      (reachedKeys rt feed now db t dirty)
      (newRows rt feed itemJson now db t dirty))).upsertBatches rewrites (inBatches rt.dirtyBatch
        (KeyedView.toUpsert differs t (newRows rt feed itemJson now db t dirty))) <;> rfl

end TalonHound
