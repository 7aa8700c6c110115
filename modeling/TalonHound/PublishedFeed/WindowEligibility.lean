import TalonHound.PublishedFeed.Incremental

/-!
# Window eligibility

One base projection serves every window: a sliding window shows the rows whose recency
lies within its interval before a bound. Rows leave a window when the bound advances, and
`computeAffectedChunksByWindow` collects the chunk keys that an update and the advance of
the bound touch.
-/

namespace TalonHound

open List KeyedTable

/-- `isRecencyVisibleInWindow`. -/
def isRecencyVisibleInWindow (recencyTs : Option ℤ) (window : FeedWindow) (bound : ℤ) : Bool :=
  match windowInterval window with
  | none => true
  | some interval =>
    match recencyTs with
    | none => false
    | some ts => decide (bound - interval ≤ ts)

/-- `collectBoundaryDepartures`: the rows that leave a window because the bound advances. -/
def collectBoundaryDepartures (t : Projection) (prevCutoff curCutoff : ℤ) (window : FeedWindow) :
    List ProjectionRow :=
  match windowInterval window with
  | none => []
  | some interval => t.rows.filter fun r =>
      decide (prevCutoff - interval ≤ r.recencyTs ∧ r.recencyTs < curCutoff - interval)

/-- A set of keys as an ascending list. -/
def sortedKeys (keys : List ℕ) : List ℕ := keys.dedup.insertionSort (· ≤ ·)

/-- Whether a touched row was or is visible in a window. -/
def TouchedRow.visible (row : TouchedRow) (window : FeedWindow) (bound : ℤ) : Bool :=
  (row.prevRecencyTs.isSome && isRecencyVisibleInWindow row.prevRecencyTs window bound) ||
    isRecencyVisibleInWindow row.recencyTs window bound

/-- `computeAffectedChunksByWindow`. -/
def computeAffectedChunksByWindow (delta : ProjectionDelta)
    (boundaries : FeedWindow → List ProjectionRow) (touchedRows : List TouchedRow) (bound : ℤ) :
    FeedWindow → List ℕ
  | .all => sortedKeys delta.affectedChunkKeys
  | window => sortedKeys ((boundaries window).filterMap ProjectionRow.chunkKey ++
      (touchedRows.filter fun row => row.visible window bound).filterMap TouchedRow.chunkKey)

/-- The rows of a chunk that a window shows at a bound. -/
def visibleInChunk (t : Projection) (window : FeedWindow) (bound : ℤ) (chunkKey : ℕ) :
    List ProjectionRow :=
  t.rows.filter fun r => decide (r.chunkKey = some chunkKey) &&
    isRecencyVisibleInWindow (some r.recencyTs) window bound

variable {t t' : Projection} {window : FeedWindow} {bound later : ℤ} {r : ProjectionRow} {c : ℕ}

@[simp] theorem mem_sortedKeys {keys : List ℕ} {k : ℕ} : k ∈ sortedKeys keys ↔ k ∈ keys := by
  rw [sortedKeys, (perm_insertionSort _ _).mem_iff, mem_dedup]

theorem mem_visibleInChunk : r ∈ visibleInChunk t window bound c ↔
    r ∈ t.rows ∧ r.chunkKey = some c ∧
      isRecencyVisibleInWindow (some r.recencyTs) window bound = true := by
  simp [visibleInChunk]

@[simp] theorem isRecencyVisibleInWindow_all (recencyTs : Option ℤ) :
    isRecencyVisibleInWindow recencyTs .all bound = true := rfl

/-- What is visible at a bound was visible at every earlier one. -/
theorem isRecencyVisibleInWindow_mono {recencyTs : Option ℤ} (hle : bound ≤ later)
    (h : isRecencyVisibleInWindow recencyTs window later = true) :
    isRecencyVisibleInWindow recencyTs window bound = true := by
  unfold isRecencyVisibleInWindow at h ⊢
  split
  · rfl
  · next interval hinterval =>
    rw [hinterval] at h
    cases recencyTs with
    | none => cases h
    | some ts =>
      simp only [decide_eq_true_eq] at h ⊢
      omega

/-- A stored row that a window shows at a bound and no more at a later one departs. -/
theorem mem_collectBoundaryDepartures_iff : r ∈ collectBoundaryDepartures t bound later window ↔
    r ∈ t.rows ∧ isRecencyVisibleInWindow (some r.recencyTs) window bound = true ∧
      isRecencyVisibleInWindow (some r.recencyTs) window later = false := by
  unfold collectBoundaryDepartures isRecencyVisibleInWindow
  cases windowInterval window with
  | none => simp
  | some interval =>
    simp only [mem_filter, decide_eq_true_eq, decide_eq_false_iff_not]
    constructor
    · rintro ⟨hr, hlow, hhigh⟩
      exact ⟨hr, hlow, by omega⟩
    · rintro ⟨hr, hlow, hhigh⟩
      exact ⟨hr, hlow, by omega⟩

/-- The update reports a key: its touched row carries the new chunk, or the old one where
there is no new one, with both recencies, and both chunks are affected keys. -/
def Reported (delta : ProjectionDelta) (prev cur : Option ProjectionRow) : Prop :=
  (∃ row ∈ delta.touchedRows,
    row.chunkKey = (cur.bind ProjectionRow.chunkKey).or (prev.bind ProjectionRow.chunkKey) ∧
      row.recencyTs = cur.map ProjectionRow.recencyTs ∧
      row.prevRecencyTs = prev.map ProjectionRow.recencyTs) ∧
  (∀ c, cur.bind ProjectionRow.chunkKey = some c → c ∈ delta.affectedChunkKeys) ∧
  ∀ c, prev.bind ProjectionRow.chunkKey = some c → c ∈ delta.affectedChunkKeys

variable {rt : Runtime} {feed : Feed} {itemJson : ItemJson} {now : ℤ} {db : Db} {dirty : Dirty}
  {delta : ProjectionDelta}

/-- The row the update sees under a key that leaves is the stored one. -/
theorem find?_existingRows_of_leave {k : IdentityKey}
    (hk : k ∈ projectionLeaveKeys rt feed itemJson now db t dirty) :
    (existingRows rt feed itemJson now db t dirty).find? (fun e => decide (e.identityKey = k)) =
      t.find? k := by
  have hexisting : ∀ e, e ∈ existingRows rt feed itemJson now db t dirty → e ∈ t.rows :=
    fun e he => (mem_filter.mp he).1
  rw [projectionLeaveKeys, mem_append] at hk
  rcases hk with hk | hk
  · obtain ⟨e, he, rfl⟩ := mem_map.mp hk
    have hmem := (mem_filter.mp he).1
    rw [find?_key_of_mem (hexisting e hmem)]
    cases hfind : (existingRows rt feed itemJson now db t dirty).find?
        (fun a => decide (a.identityKey = e.identityKey)) with
    | none => simpa using find?_eq_none.mp hfind e hmem
    | some a =>
      have hkey : a.identityKey = e.identityKey := by simpa using find?_some hfind
      have ha := hexisting a (mem_of_find?_eq_some hfind)
      rw [inj_on_of_nodup_map t.nodup ha (hexisting e hmem) hkey]
  · exact find?_existingRows (Or.inr (mem_filter.mp hk).1)

/-- Under each key the update leaves the stored row as it was, or reports the key. -/
theorem applyIncrementalProjectionUpdate_reports
    (hok : applyIncrementalProjectionUpdate rt feed itemJson now db t dirty = .ok (t', delta))
    (k : IdentityKey) : t'.find? k = t.find? k ∨ Reported delta (t.find? k) (t'.find? k) := by
  unfold applyIncrementalProjectionUpdate at hok
  split at hok
  · obtain ⟨rfl, -⟩ := Prod.mk.inj (Except.ok.inj hok)
    exact Or.inl rfl
  split at hok
  · obtain ⟨rfl, -⟩ := Prod.mk.inj (Except.ok.inj hok)
    exact Or.inl rfl
  dsimp only at hok
  obtain ⟨t₁, hwrite, hok⟩ := eq_ok_of_bind hok
  obtain ⟨rfl, rfl⟩ := Prod.mk.inj (Except.ok.inj hok)
  have hwritten := upsertAll_of_upsertBatches hwrite
  rw [flatten_inBatches rt.dirtyBatch_pos] at hwritten
  have haffected : ∀ (prev : ProjectionRow) (c : ℕ),
      (existingRows rt feed itemJson now db t dirty).find?
        (fun e => decide (e.identityKey = k)) = some prev → prev.chunkKey = some c →
      ∀ rest, c ∈ ((existingRows rt feed itemJson now db t dirty).filterMap ProjectionRow.chunkKey ++
        rest).dedup.insertionSort (· ≤ ·) := by
    intro prev c hfind hc rest
    rw [(perm_insertionSort _ _).mem_iff, mem_dedup, mem_append]
    exact Or.inl (mem_filterMap.mpr ⟨prev, mem_of_find?_eq_some hfind, hc⟩)
  rcases find?_delete_upsertAll_cases hwritten k with hsame | ⟨r, hr, rfl, hcur⟩ | ⟨hleave, hcur⟩
  · exact Or.inl hsame
  · refine Or.inr ?_
    obtain ⟨hnew, hwrites⟩ := mem_filter.mp hr
    have hprev := find?_existingRows (Or.inl (mem_map_of_mem hnew))
    have htouched : ∃ row, touchNew (existingRows rt feed itemJson now db t dirty) r = some row ∧
        row.chunkKey = r.chunkKey.or ((t.find? r.identityKey).bind ProjectionRow.chunkKey) ∧
        row.recencyTs = some r.recencyTs ∧
        row.prevRecencyTs = (t.find? r.identityKey).map ProjectionRow.recencyTs := by
      unfold touchNew
      rw [hprev] at hwrites ⊢
      cases hstored : t.find? r.identityKey with
      | none => exact ⟨_, rfl, by simp, rfl, rfl⟩
      | some prev =>
        rw [hstored] at hwrites
        exact ⟨_, if_pos hwrites, rfl, rfl, rfl⟩
    obtain ⟨row, hrow, hchunk, hrecency, hprevRecency⟩ := htouched
    rw [hcur]
    refine ⟨⟨row, mem_append_left _ (mem_filterMap.mpr ⟨r, hnew, hrow⟩), hchunk,
      hrecency, hprevRecency⟩, ?_, ?_⟩
    · intro c hc
      rw [(perm_insertionSort _ _).mem_iff, mem_dedup, append_assoc]
      refine mem_append_right _ (mem_append_left _ ?_)
      exact mem_filterMap.mpr ⟨r, hnew, hc⟩
    · intro c hc
      rw [← hprev] at hc
      obtain ⟨prev, hfind, hc⟩ := Option.bind_eq_some_iff.mp hc
      simp only [append_assoc]
      exact haffected prev c hfind hc _
  · refine Or.inr ?_
    have hprev := find?_existingRows_of_leave hleave
    rw [hcur, ← hprev]
    refine ⟨⟨_, mem_append_right _ (mem_map_of_mem hleave), rfl, rfl, rfl⟩, ?_, ?_⟩
    · nofun
    · intro c hc
      obtain ⟨prev, hfind, hc⟩ := Option.bind_eq_some_iff.mp hc
      simp only [append_assoc]
      exact haffected prev c hfind hc _

end TalonHound
