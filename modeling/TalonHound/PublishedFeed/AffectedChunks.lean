import TalonHound.PublishedFeed.WindowEligibility

/-!
# Which chunks a tick must regenerate

A tick moves the bound from the previous cutoff to the new one and updates the base
projection. A chunk that is not among the affected ones is reused as it is, so its visible
rows must be the same before and after. The touched row of an updated row carries its new
chunk only; the chunk that a row moved away from is affected only for another reason.
-/

namespace TalonHound

open KeyedTable

/-- The affected chunks of a tick from the cutoff `C` to the bound `W`. -/
def affectedChunks (t : Projection) (delta : ProjectionDelta) (C W : ℤ) : FeedWindow → List ℕ :=
  computeAffectedChunksByWindow delta (collectBoundaryDepartures t C W) delta.touchedRows W

/-- What a reader of a chunk tells apart: the identity and the content of a row. -/
def chunkEntry (r : ProjectionRow) : IdentityKey × String := (r.identityKey, r.contentFingerprint)

/-- Every chunk that is not affected shows the same entries after the tick as before. -/
def AffectedComplete (t t' : Projection) (delta : ProjectionDelta) (C W : ℤ)
    (window : FeedWindow) : Prop :=
  ∀ c, c ∉ affectedChunks t delta C W window → ∀ entry,
    entry ∈ (visibleInChunk t' window W c).map chunkEntry ↔
      entry ∈ (visibleInChunk t window C c).map chunkEntry

/-- The chunk `c` is marked in a sliding window: a row of it departs with the bound, or a
touched row that carries it is visible. -/
def Marked (t : Projection) (delta : ProjectionDelta) (C W : ℤ) (window : FeedWindow)
    (c : ℕ) : Prop :=
  (∃ r ∈ collectBoundaryDepartures t C W window, r.chunkKey = some c) ∨
    ∃ row ∈ delta.touchedRows, row.chunkKey = some c ∧ row.visible window W = true

/-- Every stored row that is still visible at the new bound and moves to another chunk
leaves a chunk that something else marks. -/
def MovesMarked (t t' : Projection) (delta : ProjectionDelta) (C W : ℤ)
    (window : FeedWindow) : Prop :=
  window = .all ∨ ∀ p ∈ t.rows, ∀ q ∈ t'.rows, p.identityKey = q.identityKey →
    ∀ c c', p.chunkKey = some c → q.chunkKey = some c' → c ≠ c' →
      isRecencyVisibleInWindow (some p.recencyTs) window W = true → Marked t delta C W window c

variable {rt : Runtime} {feed : Feed} {itemJson : ItemJson} {now : ℤ} {db : Db} {dirty : Dirty}
  {t t' : Projection} {delta : ProjectionDelta} {C W : ℤ} {window : FeedWindow} {c : ℕ}

theorem mem_affectedChunks_all : c ∈ affectedChunks t delta C W .all ↔ c ∈ delta.affectedChunkKeys := by
  simp only [affectedChunks, computeAffectedChunksByWindow, mem_sortedKeys]

/-- In a sliding window the affected chunks are the marked ones. -/
theorem mem_affectedChunks_sliding (hsliding : window ≠ .all) :
    c ∈ affectedChunks t delta C W window ↔ Marked t delta C W window c := by
  cases window with
  | all => exact absurd rfl hsliding
  | d1 | d3 | d7 =>
    simp only [affectedChunks, computeAffectedChunksByWindow, mem_sortedKeys, List.mem_append,
      List.mem_filterMap, List.mem_filter, Marked]
    constructor
    · rintro (h | ⟨row, ⟨hrow, hvisible⟩, hc⟩)
      · exact Or.inl h
      · exact Or.inr ⟨row, hrow, hc, hvisible⟩
    · rintro (h | ⟨row, hrow, hc, hvisible⟩)
      · exact Or.inl h
      · exact Or.inr ⟨row, ⟨hrow, hvisible⟩, hc⟩

theorem mem_chunkEntries {entry : IdentityKey × String} :
    entry ∈ (visibleInChunk t window W c).map chunkEntry ↔
      ∃ r, t.find? entry.1 = some r ∧ r.chunkKey = some c ∧
        isRecencyVisibleInWindow (some r.recencyTs) window W = true ∧
        r.contentFingerprint = entry.2 := by
  simp only [List.mem_map, mem_visibleInChunk, chunkEntry, find?_eq_some]
  constructor
  · rintro ⟨r, ⟨hr, hc, hvisible⟩, rfl⟩
    exact ⟨r, ⟨hr, rfl⟩, hc, hvisible, rfl⟩
  · rintro ⟨r, ⟨hr, hkey⟩, hc, hvisible, hfp⟩
    exact ⟨r, ⟨hr, hc, hvisible⟩, Prod.ext hkey hfp⟩

/-- A row whose chunk is not affected and that the tick leaves alone is visible before
exactly if it is visible after. -/
theorem visible_iff_of_not_affected {r : ProjectionRow} (hle : C ≤ W) (hr : r ∈ t.rows)
    (hc : r.chunkKey = some c) (hnot : c ∉ affectedChunks t delta C W window) :
    isRecencyVisibleInWindow (some r.recencyTs) window W = true ↔
      isRecencyVisibleInWindow (some r.recencyTs) window C = true := by
  refine ⟨isRecencyVisibleInWindow_mono hle, fun hvisible => ?_⟩
  by_contra hgone
  rw [Bool.not_eq_true] at hgone
  have hdeparts := mem_collectBoundaryDepartures_iff.mpr ⟨hr, hvisible, hgone⟩
  by_cases hall : window = .all
  · subst hall
    rw [isRecencyVisibleInWindow_all] at hgone
    cases hgone
  · exact hnot ((mem_affectedChunks_sliding hall).mpr (Or.inl ⟨r, hdeparts, hc⟩))

/-- The entry that a reported key had in a chunk that is not affected is still there. -/
theorem entry_after_of_reported {k : IdentityKey} {p : ProjectionRow} (hle : C ≤ W)
    (hmoves : MovesMarked t t' delta C W window) (hreported : Reported delta (t.find? k) (t'.find? k))
    (hnot : c ∉ affectedChunks t delta C W window) (hfind : t.find? k = some p)
    (hc : p.chunkKey = some c) :
    ¬ isRecencyVisibleInWindow (some p.recencyTs) window C = true := by
  intro hvisible
  obtain ⟨hp, hkey⟩ := find?_eq_some.mp hfind
  obtain ⟨⟨row, hrow, hchunk, hrecency, hprev⟩, hcurChunk, hprevChunk⟩ := hreported
  rw [hfind] at hchunk hprev hprevChunk
  rcases hmoves with rfl | hmoves
  · exact hnot (mem_affectedChunks_all.mpr (hprevChunk c hc))
  by_cases hall : window = .all
  · subst hall
    exact hnot (mem_affectedChunks_all.mpr (hprevChunk c hc))
  rw [mem_affectedChunks_sliding hall] at hnot
  have hlater : isRecencyVisibleInWindow (some p.recencyTs) window W = true :=
    (visible_iff_of_not_affected hle hp hc
      (fun h => hnot ((mem_affectedChunks_sliding hall).mp h))).mpr hvisible
  have hrowVisible : row.visible window W = true := by
    rw [TouchedRow.visible, hprev]
    simp [hlater]
  cases hcur : (t'.find? k).bind ProjectionRow.chunkKey with
  | none =>
    -- the row left, or has no chunk any more: the touched row carries the old chunk
    rw [hcur, Option.none_or] at hchunk
    exact hnot (Or.inr ⟨row, hrow, hchunk.trans hc, hrowVisible⟩)
  | some c' =>
    obtain ⟨q, hq, hqc⟩ := Option.bind_eq_some_iff.mp hcur
    obtain ⟨hqmem, hqkey⟩ := find?_eq_some.mp hq
    by_cases hsame : c = c'
    · subst hsame
      rw [hcur, Option.some_or] at hchunk
      exact hnot (Or.inr ⟨row, hrow, hchunk, hrowVisible⟩)
    · exact hnot (hmoves p hp q hqmem (hkey.trans hqkey.symm) c c' hc hqc hsame hlater)

/-- A reported key has no entry after the tick in a chunk that is not affected. -/
theorem no_entry_after_of_reported {k : IdentityKey} {q : ProjectionRow}
    (hreported : Reported delta (t.find? k) (t'.find? k))
    (hnot : c ∉ affectedChunks t delta C W window) (hfind : t'.find? k = some q)
    (hc : q.chunkKey = some c) :
    ¬ isRecencyVisibleInWindow (some q.recencyTs) window W = true := by
  intro hvisible
  obtain ⟨⟨row, hrow, hchunk, hrecency, -⟩, hcurChunk, -⟩ := hreported
  rw [hfind] at hchunk hrecency hcurChunk
  by_cases hall : window = .all
  · subst hall
    exact hnot (mem_affectedChunks_all.mpr (hcurChunk c hc))
  · rw [mem_affectedChunks_sliding hall] at hnot
    have hchunk' : row.chunkKey = some c := by
      rw [hchunk]
      change q.chunkKey.or _ = some c
      rw [hc, Option.some_or]
    have hrowVisible : row.visible window W = true := by
      rw [TouchedRow.visible, hrecency]
      simp [hvisible]
    exact hnot (Or.inr ⟨row, hrow, hchunk', hrowVisible⟩)

/-- The affected chunks of an update are complete for a window exactly if every row that
moves to another chunk while it is visible leaves a chunk that something else marks. -/
theorem affectedChunks_complete_iff (hle : C ≤ W)
    (hok : applyIncrementalProjectionUpdate rt feed itemJson now db t dirty = .ok (t', delta)) :
    AffectedComplete t t' delta C W window ↔ MovesMarked t t' delta C W window := by
  constructor
  · intro hcomplete
    refine or_iff_not_imp_left.mpr fun hall => ?_
    intro p hp q hq hkey c c' hc hc' hmove hvisible
    rw [← mem_affectedChunks_sliding hall]
    by_contra hnot
    have hbefore : chunkEntry p ∈ (visibleInChunk t window C c).map chunkEntry :=
      List.mem_map_of_mem (mem_visibleInChunk.mpr
        ⟨hp, hc, isRecencyVisibleInWindow_mono hle hvisible⟩)
    obtain ⟨s, hs, hsc, -, -⟩ := mem_chunkEntries.mp ((hcomplete c hnot _).mpr hbefore)
    have hfind : t'.find? p.identityKey = some q := find?_eq_some.mpr ⟨hq, hkey.symm⟩
    obtain rfl : q = s := Option.some.inj (hfind.symm.trans hs)
    exact hmove (Option.some.inj (hsc.symm.trans hc'))
  · intro hmoves c hnot entry
    rw [mem_chunkEntries, mem_chunkEntries]
    rcases applyIncrementalProjectionUpdate_reports hok entry.1 with hsame | hreported
    · rw [hsame]
      refine exists_congr fun r => and_congr_right fun hfind => and_congr_right fun hc => ?_
      rw [visible_iff_of_not_affected hle (find?_eq_some.mp hfind).1 hc hnot]
    · constructor
      · rintro ⟨q, hfind, hc, hvisible, -⟩
        exact absurd hvisible (no_entry_after_of_reported hreported hnot hfind hc)
      · rintro ⟨p, hfind, hc, hvisible, -⟩
        exact absurd hvisible (entry_after_of_reported hle hmoves hreported hnot hfind hc)

/-- A chunked hash feed under the window of seven days. -/
def chunkedHashFeed : Feed :=
  { plainFeed [.hash] with timeWindow := .d7, chunkCount := some .least }

/-- A SHA-256 row, with the file artifact it is linked to or without. -/
def artifactDb (linked : Bool) : Db where
  iocItems := [plainIoc 1 .sha256 "c0ffee" 10]
  fileArtifacts := [⟨"f1", false, none⟩]
  artifactLinks := if linked then [⟨"f1", 1, .sha256⟩] else []
  primaryHashes := []
  ids_nodup := by simp [plainIoc]
  links_reference := by cases linked <;> simp [plainIoc]

/-- The projection of the hash before it is linked. -/
def unlinkedProjection : Projection where
  rows := fullEvaluation plainRuntime chunkedHashFeed (fun _ _ => none) 0 (artifactDb false)
  nodup := by decide +kernel

/-- The update after the hash was linked. -/
def linkUpdate : Except UpsertError (Projection × ProjectionDelta) :=
  applyIncrementalProjectionUpdate plainRuntime chunkedHashFeed (fun _ _ => none) 0
    (artifactDb true) unlinkedProjection ⟨[1], [], [(1, .sha256)], false⟩

/-- The row moves from the chunk of its value to the chunk of the artifact, and the chunk it
left is not affected in the window of seven days. -/
theorem affectedChunks_not_complete :
    ¬ ∀ (rt : Runtime) (feed : Feed) (itemJson : ItemJson) (now : ℤ) (db : Db)
      (t t' : Projection) (dirty : Dirty) (delta : ProjectionDelta) (C W : ℤ)
      (window : FeedWindow), C < W →
      applyIncrementalProjectionUpdate rt feed itemJson now db t dirty = .ok (t', delta) →
      AffectedComplete t t' delta C W window := by
  intro h
  have hleft : linkUpdate.toOption.any (fun result =>
      decide (6 ∉ affectedChunks unlinkedProjection result.2 20 30 .d7 ∧
        (visibleInChunk result.1 .d7 30 6).map chunkEntry = [])) = true := by
    decide +kernel
  have hbefore : (visibleInChunk unlinkedProjection .d7 20 6).map chunkEntry ≠ [] := by
    decide +kernel
  obtain ⟨entry, hentry⟩ := List.exists_mem_of_ne_nil _ hbefore
  cases hok : linkUpdate with
  | error e =>
    rw [hok] at hleft
    cases hleft
  | ok result =>
    rw [hok] at hleft
    obtain ⟨hnot, hafter⟩ := of_decide_eq_true hleft
    have hstill := (h _ _ _ _ _ _ result.1 _ result.2 20 30 .d7 (by decide) hok 6 hnot entry).mpr
      hentry
    rw [hafter] at hstill
    cases hstill

/-- The update succeeds, and its affected chunks are complete exactly if its moves are marked. -/
theorem affectedChunks_complete_iff_link : ∃ t' delta, linkUpdate = .ok (t', delta) ∧
    (AffectedComplete unlinkedProjection t' delta 20 30 .d7 ↔
      MovesMarked unlinkedProjection t' delta 20 30 .d7) := by
  have hsome : linkUpdate.toOption.isSome = true := by decide +kernel
  cases hok : linkUpdate with
  | error e =>
    rw [hok] at hsome
    cases hsome
  | ok result => exact ⟨_, _, rfl, affectedChunks_complete_iff (by decide) hok⟩

end TalonHound
