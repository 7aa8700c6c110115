import TalonHound.PublishedFeed.ChunkWriting

/-!
# An incremental generation is a full one

The chunks a window should have are read off its rows: one for each key with an item, in
key order. A generation that writes only the affected keys, and links the chunks of a
complete parent for the others, holds exactly these chunks, like a full rebuild.
-/

namespace TalonHound

open List KeyedTable

/-- The chunks that the rows of a window call for: one for each key with an item. -/
def expectedChunks (rt : Runtime) (ser : Serializers) (rows : List ProjectionRow)
    (chunkCount : ℕ) (format : FeedFormat) : List ChunkFile :=
  (List.range chunkCount).filterMap fun key =>
    let items := emittedItems ser format (chunkRows rt rows key)
    if items = [] then none else some ⟨format, key, items⟩

/-- A generation is a complete snapshot of the rows of a window: it holds the chunks that
they call for, and each row of a chunk could be written. -/
structure CompleteSnapshot (rt : Runtime) (ser : Serializers) (g : Generation)
    (formats : List FeedFormat) (chunkCount : ℕ) (rows : List ProjectionRow) : Prop where
  formats_eq : g.formats = formats
  chunkCount_eq : g.chunkCount = chunkCount
  refs_eq : ∀ format ∈ formats, g.refs format = expectedChunks rt ser rows chunkCount format
  renders : ∀ r ∈ rows, ∀ key, r.chunkKey = some key → key < chunkCount → Renders ser formats r

variable {rt : Runtime} {ser : Serializers} {formats : List FeedFormat} {rows : List ProjectionRow}
  {format : FeedFormat} {chunkCount : ℕ} {g parent : Generation} {c : ChunkFile}

theorem mem_refs : c ∈ g.refs format ↔ c ∈ g.manifest ∧ c.format = format := by
  rw [Generation.refs, (perm_insertionSort _ _).mem_iff]
  simp

theorem mem_expectedChunks : c ∈ expectedChunks rt ser rows chunkCount format ↔
    c.format = format ∧ c.chunkKey < chunkCount ∧
      c.items = emittedItems ser format (chunkRows rt rows c.chunkKey) ∧ c.items ≠ [] := by
  simp only [expectedChunks, mem_filterMap, mem_range]
  constructor
  · rintro ⟨k, hk, hc⟩
    split at hc
    · cases hc
    · next hne =>
      cases hc
      exact ⟨rfl, hk, rfl, hne⟩
  · rintro ⟨rfl, hk, hitems, hne⟩
    refine ⟨c.chunkKey, hk, ?_⟩
    rw [← hitems, if_neg hne]

/-- The expected chunks stand in key order, each key once. -/
theorem pairwise_expectedChunks : (expectedChunks rt ser rows chunkCount format).Pairwise
    fun a b => a.chunkKey < b.chunkKey := by
  refine List.Pairwise.filterMap _ ?_ pairwise_lt_range
  intro k l hkl a ha b hb
  have hkey : ∀ k (a : ChunkFile), a ∈ (let items := emittedItems ser format (chunkRows rt rows k)
      if items = [] then none else some (⟨format, k, items⟩ : ChunkFile)) → a.chunkKey = k := by
    intro k a ha
    simp only [Option.mem_def] at ha
    split at ha
    · cases ha
    · exact (Option.some.inj ha) ▸ rfl
  rw [hkey k a ha, hkey l b hb]
  exact hkl

section

variable
  (hnodup : ((g.manifest.filter fun c => decide (c.format = format)).map ChunkFile.chunkKey).Nodup)
include hnodup

/-- A manifest of distinct keys is read in strictly ascending order. -/
theorem pairwise_refs : (g.refs format).Pairwise fun a b => a.chunkKey < b.chunkKey := by
  have hperm := perm_insertionSort (fun a b : ChunkFile => a.chunkKey ≤ b.chunkKey)
    (g.manifest.filter fun c => decide (c.format = format))
  have hdistinct : (g.refs format).Pairwise fun a b => a.chunkKey ≠ b.chunkKey :=
    pairwise_map.mp ((hperm.map ChunkFile.chunkKey).nodup_iff.mpr hnodup)
  have hsorted : (g.refs format).Pairwise fun a b => a.chunkKey ≤ b.chunkKey :=
    pairwise_insertionSort _ _
  exact (hsorted.and hdistinct).imp fun h => by
    obtain ⟨hle, hne⟩ := h
    omega

/-- A sorted manifest with the expected chunks is the list of the expected chunks. -/
theorem refs_eq_expectedChunks
    (hmem : ∀ c, c ∈ g.refs format ↔ c ∈ expectedChunks rt ser rows chunkCount format) :
    g.refs format = expectedChunks rt ser rows chunkCount format := by
  exact List.Pairwise.eq_of_mem_iff (pairwise_refs hnodup) pairwise_expectedChunks hmem

end

/-- The links of a format under distinct formats are those that are made for it. -/
theorem filter_flatMap_format {links : FeedFormat → List ChunkFile}
    (hlinks : ∀ f, ∀ c ∈ links f, c.format = f) (hnodup : formats.Nodup)
    (hformat : format ∈ formats) :
    (formats.flatMap links).filter (fun c => decide (c.format = format)) = links format := by
  induction formats with
  | nil => cases hformat
  | cons f rest ih =>
    rw [nodup_cons] at hnodup
    rw [flatMap_cons, filter_append]
    by_cases hsame : f = format
    · subst hsame
      have hrest : (rest.flatMap links).filter (fun c => decide (c.format = f)) = [] := by
        refine filter_eq_nil_iff.mpr fun c hc => ?_
        obtain ⟨f', hf', hc⟩ := mem_flatMap.mp hc
        have hne : c.format ≠ f := by
          rw [hlinks f' c hc]
          exact fun h => hnodup.1 (h ▸ hf')
        simpa using hne
      rw [hrest, append_nil]
      exact filter_eq_self.mpr fun c hc => by simpa using hlinks f c hc
    · have hfirst : (links f).filter (fun c => decide (c.format = format)) = [] := by
        refine filter_eq_nil_iff.mpr fun c hc => ?_
        rw [hlinks f c hc]
        simpa using hsame
      rw [hfirst, nil_append]
      exact ih hnodup.2 ((mem_cons.mp hformat).resolve_left fun h => hsame h.symm)

/-- The chunk a link of an affected key points to. -/
theorem find?_chunk_eq_some {chunks : List ChunkFile} {key : ℕ}
    (h : chunks.find? (fun c => decide (c.format = format ∧ c.chunkKey = key)) = some c) :
    c ∈ chunks ∧ c.format = format ∧ c.chunkKey = key := by
  have hc := find?_some h
  simp only [decide_eq_true_eq] at hc
  exact ⟨mem_of_find?_eq_some h, hc⟩

theorem nodup_resolvePublishedFeedFormats (feed : Feed) :
    (resolvePublishedFeedFormats feed).Nodup := by
  unfold resolvePublishedFeedFormats
  split
  · exact nodup_singleton _
  · exact List.Nodup.filter _ (by decide)

theorem nodup_sortedKeys (keys : List ℕ) : (sortedKeys keys).Nodup :=
  (perm_insertionSort _ _).nodup_iff.mpr (nodup_dedup _)

variable {feed : Feed} {active : Option Generation} {options : GenerationOptions}
  {affected : List ℕ} {chunks : List ChunkFile} {store : ProjectionStore} {now : ℤ}

/-- The chunks of a format under the written keys. -/
def writtenLinks (affected : List ℕ) (chunks : List ChunkFile) (format : FeedFormat) :
    List ChunkFile :=
  affected.filterMap fun key =>
    chunks.find? fun c => decide (c.format = format ∧ c.chunkKey = key)

/-- The links kept from the parent. -/
def keptLinks (active : Option Generation) (affected : List ℕ) : List ChunkFile :=
  match active with
  | some parent => parent.manifest.filter fun c => !affected.contains c.chunkKey
  | none => []

theorem mem_keptLinks : c ∈ keptLinks active affected ↔
    (∃ parent, active = some parent ∧ c ∈ parent.manifest) ∧ c.chunkKey ∉ affected := by
  cases active with
  | none => simp [keptLinks]
  | some parent => simp [keptLinks]

/-- The links of one format. -/
theorem filter_manifest (hformat : format ∈ resolvePublishedFeedFormats feed) :
    (linkGeneration feed active options affected chunks).manifest.filter
        (fun c => decide (c.format = format)) =
      (keptLinks active affected).filter (fun c => decide (c.format = format)) ++
        writtenLinks affected chunks format := by
  have hlinks : ∀ f, ∀ c ∈ writtenLinks affected chunks f, c.format = f := by
    intro f c hc
    obtain ⟨key, -, hfind⟩ := mem_filterMap.mp hc
    exact (find?_chunk_eq_some hfind).2.1
  change (keptLinks active affected ++
    (resolvePublishedFeedFormats feed).flatMap (writtenLinks affected chunks)).filter _ = _
  rw [filter_append, filter_flatMap_format hlinks (nodup_resolvePublishedFeedFormats feed) hformat]

/-- The written links are the written chunks of the format. -/
theorem mem_writtenLinks (hkeyed : (rows.map ProjectionRow.identityKey).Nodup)
    (hok : generateChunkFiles rt ser formats rows affected = .ok chunks) :
    c ∈ writtenLinks affected chunks format ↔ c ∈ chunks ∧ c.format = format := by
  simp only [writtenLinks, mem_filterMap]
  constructor
  · rintro ⟨key, -, hfind⟩
    obtain ⟨hc, hformat, -⟩ := find?_chunk_eq_some hfind
    exact ⟨hc, hformat⟩
  · rintro ⟨hc, rfl⟩
    have hspec := (mem_generateChunkFiles hkeyed hok).mp hc
    refine ⟨c.chunkKey, hspec.2.1, ?_⟩
    cases hfind : chunks.find? (fun a => decide (a.format = c.format ∧ a.chunkKey = c.chunkKey)) with
    | none =>
      have hnone := find?_eq_none.mp hfind c hc
      simp at hnone
    | some a =>
      -- the format and the key determine a written chunk
      obtain ⟨ha, hformat, hkey⟩ := find?_chunk_eq_some hfind
      have hitems := ((mem_generateChunkFiles hkeyed hok).mp ha).2.2.1
      rw [hformat, hkey, ← hspec.2.2.1] at hitems
      obtain ⟨af, ak, ai⟩ := a
      obtain ⟨cf, ck, ci⟩ := c
      simp only at hformat hkey hitems
      rw [hformat, hkey, hitems]

/-- No key occurs twice among the links of a format. -/
theorem nodup_link_keys (hformat : format ∈ resolvePublishedFeedFormats feed)
    (haffected : affected.Nodup)
    (hparent : ∀ parent, active = some parent →
      ((parent.manifest.filter fun c => decide (c.format = format)).map ChunkFile.chunkKey).Nodup) :
    (((linkGeneration feed active options affected chunks).manifest.filter
      fun c => decide (c.format = format)).map ChunkFile.chunkKey).Nodup := by
  rw [filter_manifest hformat, map_append, nodup_append]
  refine ⟨?_, ?_, ?_⟩
  · cases active with
    | none => exact nodup_nil
    | some parent =>
      refine (hparent parent rfl).sublist (List.Sublist.map _ ?_)
      exact List.Sublist.filter _ filter_sublist
  · have hkeys : (writtenLinks affected chunks format).Pairwise
        fun a b => a.chunkKey ≠ b.chunkKey := by
      refine List.Pairwise.filterMap _ ?_ haffected
      intro k l hkl a ha b hb
      rw [(find?_chunk_eq_some ha).2.2, (find?_chunk_eq_some hb).2.2]
      exact hkl
    exact pairwise_map.mpr hkeys
  · intro k hk l hl heq
    subst heq
    obtain ⟨a, ha, rfl⟩ := mem_map.mp hk
    obtain ⟨b, hb, hkey⟩ := mem_map.mp hl
    obtain ⟨key, hlisted, hfind⟩ := mem_filterMap.mp hb
    rw [(find?_chunk_eq_some hfind).2.2] at hkey
    exact (mem_keptLinks.mp (mem_filter.mp ha).1).2 (hkey ▸ hlisted)

/-- The linked generation holds the expected chunks, if the links kept from the parent are the
expected ones outside the written keys. -/
theorem refs_linkGeneration (hkeyed : (rows.map ProjectionRow.identityKey).Nodup)
    (hok : generateChunkFiles rt ser (resolvePublishedFeedFormats feed) rows affected = .ok chunks)
    (hformat : format ∈ resolvePublishedFeedFormats feed) (haffected : affected.Nodup)
    (hrange : ∀ c ∈ chunks, c.chunkKey < resolveChunkCount feed options)
    (hparent : ∀ parent, active = some parent →
      ((parent.manifest.filter fun c => decide (c.format = format)).map ChunkFile.chunkKey).Nodup)
    (hkept : ∀ c : ChunkFile, c.chunkKey ∉ affected →
      ((∃ parent, active = some parent ∧ c ∈ parent.refs format) ↔
        c ∈ expectedChunks rt ser rows (resolveChunkCount feed options) format)) :
    (linkGeneration feed active options affected chunks).refs format =
      expectedChunks rt ser rows (resolveChunkCount feed options) format := by
  refine refs_eq_expectedChunks (nodup_link_keys hformat haffected hparent) fun c => ?_
  have hmem : c ∈ (linkGeneration feed active options affected chunks).refs format ↔
      (c ∈ keptLinks active affected ∧ c.format = format) ∨ (c ∈ chunks ∧ c.format = format) := by
    rw [← mem_writtenLinks hkeyed hok, Generation.refs, (perm_insertionSort _ _).mem_iff,
      filter_manifest hformat, mem_append, mem_filter, decide_eq_true_iff]
  rw [hmem]
  constructor
  · rintro (⟨hc, rfl⟩ | ⟨hc, rfl⟩)
    · obtain ⟨⟨parent, hactive, hc⟩, hnot⟩ := mem_keptLinks.mp hc
      exact (hkept c hnot).mp ⟨parent, hactive, mem_refs.mpr ⟨hc, rfl⟩⟩
    · obtain ⟨-, -, hitems, hne⟩ := (mem_generateChunkFiles hkeyed hok).mp hc
      exact mem_expectedChunks.mpr ⟨rfl, hrange c hc, hitems, hne⟩
  · intro hc
    by_cases hlisted : c.chunkKey ∈ affected
    · obtain ⟨rfl, -, hitems, hne⟩ := mem_expectedChunks.mp hc
      exact Or.inr ⟨(mem_generateChunkFiles hkeyed hok).mpr ⟨hformat, hlisted, hitems, hne⟩, rfl⟩
    · obtain ⟨parent, hactive, hrefs⟩ := (hkept c hlisted).mpr hc
      obtain ⟨hmanifest, hf⟩ := mem_refs.mp hrefs
      exact Or.inl ⟨mem_keptLinks.mpr ⟨⟨parent, hactive, hmanifest⟩, hlisted⟩, hf⟩

theorem upsertChunkRows_eq_ok {chunks' : List ChunkFile} :
    upsertChunkRows chunkCount chunks = .ok chunks' ↔
      (∀ c ∈ chunks, c.chunkKey < chunkCount) ∧ chunks = chunks' := by
  unfold upsertChunkRows
  cases hfind : chunks.find? fun c => !decide (c.chunkKey < chunkCount) with
  | some c =>
    have hc := find?_some hfind
    have hmem := mem_of_find?_eq_some hfind
    simp only [Bool.not_eq_true', decide_eq_false_iff_not] at hc
    simp only [reduceCtorEq, false_iff, not_and]
    exact fun hall => absurd (hall c hmem) hc
  | none =>
    have hall : ∀ c ∈ chunks, c.chunkKey < chunkCount := fun c hc => by
      simpa using find?_eq_none.mp hfind c hc
    simp only [Except.ok.injEq]
    exact ⟨fun h => ⟨hall, h⟩, And.right⟩

theorem checkManifest_eq_ok {g' : Generation} :
    checkManifest g = .ok g' ↔ (∀ format ∈ g.formats, countMatches g format = true) ∧ g = g' := by
  unfold checkManifest
  cases hfind : g.formats.find? fun format => !countMatches g format with
  | some format =>
    have hformat := find?_some hfind
    have hmem := mem_of_find?_eq_some hfind
    simp only [Bool.not_eq_true'] at hformat
    simp only [reduceCtorEq, false_iff, not_and]
    intro hall
    rw [hall format hmem] at hformat
    cases hformat
  | none =>
    have hall : ∀ format ∈ g.formats, countMatches g format = true := fun f hf => by
      simpa using find?_eq_none.mp hfind f hf
    simp only [Except.ok.injEq]
    exact ⟨fun h => ⟨hall, h⟩, And.right⟩

variable {backfillReady : Bool}

/-- What a successful build has done. -/
theorem buildAndActivate_eq_ok :
    buildAndActivate rt ser feed backfillReady store now active options = .ok g ↔
      backfillReady = true ∧ ∃ chunks, generateChunkFiles rt ser (resolvePublishedFeedFormats feed)
          (generationRows rt store options.window options.candidateCutoff now)
          (affectedKeys feed store now active options) = .ok chunks ∧
        (∀ c ∈ chunks, c.chunkKey < resolveChunkCount feed options) ∧
        linkGeneration feed active options (affectedKeys feed store now active options) chunks = g ∧
        ∀ format ∈ resolvePublishedFeedFormats feed, countMatches g format = true := by
  unfold buildAndActivate
  cases backfillReady with
  | false => simp
  | true =>
    simp only [Bool.not_true, Bool.false_eq_true, if_false, true_and]
    constructor
    · intro hok
      obtain ⟨generated, hgenerated, hok⟩ := eq_ok_of_bind hok
      obtain ⟨chunks, hupsert, hok⟩ := eq_ok_of_bind hok
      obtain ⟨hrange, rfl⟩ := upsertChunkRows_eq_ok.mp hupsert
      obtain ⟨hcounts, rfl⟩ := checkManifest_eq_ok.mp hok
      exact ⟨generated, hgenerated, hrange, rfl, hcounts⟩
    · rintro ⟨chunks, hgenerated, hrange, rfl, hcounts⟩
      rw [hgenerated]
      change upsertChunkRows _ chunks >>= _ = _
      rw [upsertChunkRows_eq_ok.mpr ⟨hrange, rfl⟩]
      exact checkManifest_eq_ok.mpr ⟨hcounts, rfl⟩

/-- The rows a generation reads come from one projection. -/
theorem nodup_generationRows (rt : Runtime) (store : ProjectionStore) (window : FeedWindow)
    (asOf : Option ℤ) (now : ℤ) :
    ((generationRows rt store window asOf now).map ProjectionRow.identityKey).Nodup := by
  unfold generationRows windowRows
  split
  · exact (store .all).nodup.sublist (filter_sublist.map _)
  · exact (store window).nodup

/-- A complete snapshot holds no key twice in a format. -/
theorem CompleteSnapshot.nodup_keys (h : CompleteSnapshot rt ser g formats chunkCount rows)
    (hformat : format ∈ formats) :
    ((g.manifest.filter fun c => decide (c.format = format)).map ChunkFile.chunkKey).Nodup := by
  have hperm := perm_insertionSort (fun a b : ChunkFile => a.chunkKey ≤ b.chunkKey)
    (g.manifest.filter fun c => decide (c.format = format))
  rw [← (hperm.map ChunkFile.chunkKey).nodup_iff]
  change ((g.refs format).map ChunkFile.chunkKey).Nodup
  rw [h.refs_eq format hformat]
  exact pairwise_map.mpr (pairwise_expectedChunks.imp fun hlt => ne_of_lt hlt)

/-- A chunk of a key with the same rows is expected of both projections or of neither. -/
theorem mem_expectedChunks_congr {rows' : List ProjectionRow}
    (hkeyed : (rows.map ProjectionRow.identityKey).Nodup)
    (hkeyed' : (rows'.map ProjectionRow.identityKey).Nodup)
    (h : ∀ r : ProjectionRow, r.chunkKey = some c.chunkKey → (r ∈ rows' ↔ r ∈ rows)) :
    c ∈ expectedChunks rt ser rows' chunkCount format ↔
      c ∈ expectedChunks rt ser rows chunkCount format := by
  rw [mem_expectedChunks, mem_expectedChunks, chunkRows_congr hkeyed hkeyed' h]

/-- The keys of an incremental generation are those it was given. -/
theorem incrementalKeys_eq_some (h : incrementalKeys feed store now active options = some affected) :
    ∃ keys, options.affectedChunkKeys = some keys ∧ sortedKeys keys = affected := by
  unfold incrementalKeys at h
  split at h
  · next parent keys hkeys =>
    split at h
    · exact ⟨keys, hkeys, Option.some.inj h⟩
    · cases h
  · cases h

/-- Every generation of a feed under a complete parent is a complete snapshot of the current
rows, if the rows of the keys it was not given are those of the parent. -/
theorem completeSnapshot_of_build {backfillReady : Bool} {keys : List ℕ}
    {parentRows : List ProjectionRow}
    (hkeyed : (parentRows.map ProjectionRow.identityKey).Nodup)
    (hparent : CompleteSnapshot rt ser parent (resolvePublishedFeedFormats feed)
      (resolveChunkCount feed options) parentRows)
    (hkeys : ∀ keys', options.affectedChunkKeys = some keys' → keys' = keys)
    (hunchanged : ∀ key, key ∉ keys → ∀ r : ProjectionRow, r.chunkKey = some key →
      (r ∈ parentRows ↔ r ∈ generationRows rt store options.window options.candidateCutoff now))
    (hok : buildAndActivate rt ser feed backfillReady store now (some parent) options = .ok g) :
    CompleteSnapshot rt ser g (resolvePublishedFeedFormats feed) (resolveChunkCount feed options)
      (generationRows rt store options.window options.candidateCutoff now) := by
  obtain ⟨-, chunks, hgenerated, hrange, rfl, -⟩ := buildAndActivate_eq_ok.mp hok
  have hrows := nodup_generationRows rt store options.window options.candidateCutoff now
  -- A key is written, or its rows are those of the parent, or it is out of range.
  have hcases : (affectedKeys feed store now (some parent) options).Nodup ∧
      ∀ key, key ∉ affectedKeys feed store now (some parent) options →
        key ∉ keys ∨ resolveChunkCount feed options ≤ key := by
    unfold affectedKeys
    cases hinc : incrementalKeys feed store now (some parent) options with
    | none =>
      refine ⟨nodup_range, fun key hnot => Or.inr ?_⟩
      simpa using hnot
    | some affected =>
      obtain ⟨keys', hgiven, rfl⟩ := incrementalKeys_eq_some hinc
      obtain rfl := hkeys keys' hgiven
      exact ⟨nodup_sortedKeys _, fun key hnot => Or.inl (by simpa using hnot)⟩
  obtain ⟨haffected, hcases⟩ := hcases
  refine ⟨rfl, rfl, fun format hformat => ?_, ?_⟩
  · refine refs_linkGeneration hrows hgenerated hformat haffected hrange ?_ ?_
    · intro parent' hparent'
      rw [← Option.some.inj hparent']
      exact hparent.nodup_keys hformat
    · intro c hnot
      simp only [Option.some.injEq, exists_eq_left', hparent.refs_eq format hformat]
      rcases hcases c.chunkKey hnot with hkey | hout
      · exact mem_expectedChunks_congr hrows hkeyed (hunchanged c.chunkKey hkey)
      · rw [mem_expectedChunks, mem_expectedChunks]
        omega
  · intro r hr key hchunk hlt
    by_cases hlisted : key ∈ affectedKeys feed store now (some parent) options
    · exact renders_of_generateChunkFiles hgenerated hr hlisted hchunk
    · have hkey := (hcases key hlisted).resolve_right (by omega)
      exact hparent.renders r ((hunchanged key hkey r hchunk).mpr hr) key hchunk hlt

/-- The same options without affected keys call for a full generation. -/
def GenerationOptions.full (options : GenerationOptions) : GenerationOptions :=
  { options with affectedChunkKeys := none }

/-- A full generation of rows that render succeeds where the counts match. -/
theorem full_isOk {backfillReady : Bool} (hready : backfillReady = true)
    (hsnapshot : CompleteSnapshot rt ser g (resolvePublishedFeedFormats feed)
      (resolveChunkCount feed options)
      (generationRows rt store options.window options.candidateCutoff now))
    (hparent : ∀ parent, active = some parent → ∃ parentRows,
      CompleteSnapshot rt ser parent (resolvePublishedFeedFormats feed)
        (resolveChunkCount feed options) parentRows)
    (hitemCount : g.itemCount = resolveItemCount active options)
    (hcounts : ∀ format ∈ resolvePublishedFeedFormats feed, countMatches g format = true) :
    ∃ full, buildAndActivate rt ser feed backfillReady store now active options.full = .ok full ∧
      ∀ format ∈ resolvePublishedFeedFormats feed, full.refs format = g.refs format := by
  have hrows := nodup_generationRows rt store options.window options.candidateCutoff now
  have haffected : affectedKeys feed store now active options.full =
      List.range (resolveChunkCount feed options) := by
    cases active <;> rfl
  have hrenders : ∀ r ∈ chunkCursor rt
      (generationRows rt store options.window options.candidateCutoff now)
      (List.range (resolveChunkCount feed options)),
      Renders ser (resolvePublishedFeedFormats feed) r := by
    intro r hr
    obtain ⟨hmem, key, hkey, hchunk⟩ := mem_chunkCursor.mp hr
    exact hsnapshot.renders r hmem key hchunk (mem_range.mp hkey)
  obtain ⟨chunks, hgenerated⟩ := generateChunkFiles_isOk hrenders
  have hrange : ∀ c ∈ chunks, c.chunkKey < resolveChunkCount feed options := fun c hc =>
    mem_range.mp ((mem_generateChunkFiles hrows hgenerated).mp hc).2.1
  have hrefs : ∀ format ∈ resolvePublishedFeedFormats feed,
      (linkGeneration feed active options.full (List.range (resolveChunkCount feed options))
        chunks).refs format = g.refs format := by
    intro format hformat
    rw [hsnapshot.refs_eq format hformat]
    refine refs_linkGeneration hrows hgenerated hformat nodup_range hrange ?_ ?_
    · intro parent hactive
      obtain ⟨parentRows, hcomplete⟩ := hparent parent hactive
      exact hcomplete.nodup_keys hformat
    · intro c hnot
      rw [mem_expectedChunks]
      constructor
      · rintro ⟨parent, hactive, hc⟩
        obtain ⟨parentRows, hcomplete⟩ := hparent parent hactive
        rw [hcomplete.refs_eq format hformat, mem_expectedChunks] at hc
        exact absurd (mem_range.mpr hc.2.1) hnot
      · rintro ⟨-, hlt, -⟩
        exact absurd (mem_range.mpr hlt) hnot
  refine ⟨_, buildAndActivate_eq_ok.mpr ⟨hready, chunks, ?_, hrange, rfl, ?_⟩, ?_⟩
  · rw [haffected]
    exact hgenerated
  · intro format hformat
    rw [haffected]
    have hg := hcounts format hformat
    unfold countMatches at hg ⊢
    rw [hrefs format hformat]
    rw [hitemCount] at hg
    exact hg
  · rw [haffected]
    exact hrefs

/-- A successful generation under a complete parent and keys that contain every key whose
visible rows changed holds, for each format, exactly one chunk for each key with an item, in
key order, with the items of the visible rows; and a full rebuild at the same bound
succeeds with the same chunks. -/
theorem incrementalGeneration_eq_full {backfillReady : Bool} {keys : List ℕ}
    {parentStore : ProjectionStore} {parentNow : ℤ}
    (hparent : CompleteSnapshot rt ser parent (resolvePublishedFeedFormats feed)
      (resolveChunkCount feed options)
      (generationRows rt parentStore options.window parent.candidateCutoff parentNow))
    (hkeys : options.affectedChunkKeys = some keys)
    (hunchanged : ∀ key, key ∉ keys → ∀ r : ProjectionRow, r.chunkKey = some key →
      (r ∈ generationRows rt parentStore options.window parent.candidateCutoff parentNow ↔
        r ∈ generationRows rt store options.window options.candidateCutoff now))
    (hok : buildAndActivate rt ser feed backfillReady store now (some parent) options = .ok g) :
    (∀ format ∈ resolvePublishedFeedFormats feed,
      ((g.refs format).Pairwise fun a b => a.chunkKey < b.chunkKey) ∧
      ∀ key items, (⟨format, key, items⟩ : ChunkFile) ∈ g.refs format ↔
        key < resolveChunkCount feed options ∧ items ≠ [] ∧
        items = emittedItems ser format (chunkRows rt
          (generationRows rt store options.window options.candidateCutoff now) key)) ∧
    ∃ full, buildAndActivate rt ser feed backfillReady store now (some parent) options.full =
        .ok full ∧
      ∀ format ∈ resolvePublishedFeedFormats feed, full.refs format = g.refs format := by
  have hsnapshot := completeSnapshot_of_build (nodup_generationRows _ _ _ _ _) hparent
    (fun keys' hkeys' => Option.some.inj (hkeys'.symm.trans hkeys)) hunchanged hok
  obtain ⟨hready, chunks, -, -, rfl, hcounts⟩ := buildAndActivate_eq_ok.mp hok
  constructor
  · intro format hformat
    rw [hsnapshot.refs_eq format hformat]
    refine ⟨pairwise_expectedChunks, fun key items => ?_⟩
    rw [mem_expectedChunks]
    simp only [true_and]
    rw [and_comm (a := items = _)]
  · refine full_isOk hready hsnapshot ?_ rfl hcounts
    intro parent' hparent'
    rw [← Option.some.inj hparent']
    exact ⟨_, hparent⟩

/-- A chunked domain feed. -/
def chunkedFeed : Feed := { plainFeed [.domain] with chunkCount := some .least }

/-- A projection of domains, stored under every window. -/
def domainStore (iocItems : List IocItem) (h : (iocItems.map IocItem.id).Nodup)
    (hkeys : ((fullEvaluation plainRuntime chunkedFeed (fun _ _ => none) 0
      (plainDb iocItems h)).map ProjectionRow.identityKey).Nodup) : ProjectionStore :=
  fun _ => ⟨fullEvaluation plainRuntime chunkedFeed (fun _ _ => none) 0 (plainDb iocItems h), hkeys⟩

theorem nodup_oneDomain : ([plainIoc 1 .domain "a.com" 10].map IocItem.id).Nodup := by
  simp [plainIoc]

theorem nodup_twoDomains :
    ([plainIoc 1 .domain "a.com" 10, plainIoc 2 .domain "bb.com" 12].map IocItem.id).Nodup := by
  simp [plainIoc]

/-- The projection of one domain. -/
def oneDomain : ProjectionStore :=
  domainStore [plainIoc 1 .domain "a.com" 10] nodup_oneDomain (by decide +kernel)

/-- The projection after a second domain came in. -/
def twoDomains : ProjectionStore :=
  domainStore [plainIoc 1 .domain "a.com" 10, plainIoc 2 .domain "bb.com" 12] nodup_twoDomains
    (by decide +kernel)

/-- The generation of the one domain. -/
def oneDomainGeneration : Generation := ⟨some 10, 1, 64, [.txt], [⟨.txt, 5, ["a.com\n"]⟩]⟩

/-- The generation that links the first domain and writes the chunk of the second. -/
def twoDomainsGeneration : Generation :=
  ⟨some 20, 2, 64, [.txt], [⟨.txt, 5, ["a.com\n"]⟩, ⟨.txt, 6, ["bb.com\n"]⟩]⟩

/-- The incremental generation of the second domain equals a full one. -/
theorem incrementalGeneration_eq_full_domains :
    ∃ full, buildAndActivate plainRuntime plainSerializers chunkedFeed true twoDomains 20
        (some oneDomainGeneration) ⟨.all, some 20, none, some 2⟩ = .ok full ∧
      ∀ format ∈ resolvePublishedFeedFormats chunkedFeed,
        full.refs format = twoDomainsGeneration.refs format := by
  have hparent : CompleteSnapshot plainRuntime plainSerializers oneDomainGeneration
      (resolvePublishedFeedFormats chunkedFeed)
      (resolveChunkCount chunkedFeed ⟨.all, some 20, some [6], some 2⟩)
      (generationRows plainRuntime oneDomain .all (some 10) 10) := by
    refine ⟨by decide, rfl, by decide +kernel, ?_⟩
    intro r _ key _ _ format hformat
    obtain rfl : format = .txt := mem_singleton.mp hformat
    exact ⟨_, rfl⟩
  have hrows : generationRows plainRuntime twoDomains .all (some 20) 20 =
      (generationRows plainRuntime twoDomains .all (some 20) 20).take 1 ++
        generationRows plainRuntime oneDomain .all (some 10) 10 := by
    decide +kernel
  have hnew : ∀ r ∈ (generationRows plainRuntime twoDomains .all (some 20) 20).take 1,
      r.chunkKey = some 6 := by
    decide +kernel
  refine (incrementalGeneration_eq_full hparent rfl ?_ (by decide +kernel)).2
  intro key hkey r hchunk
  rw [hrows, mem_append]
  refine ⟨Or.inr, fun h => h.resolve_left fun hr => hkey ?_⟩
  rw [hnew r hr] at hchunk
  exact mem_singleton.mpr (Option.some.inj hchunk).symm

end TalonHound
