import TalonHound.ChunkStore.Store

/-!
# The files of active generations

Deletions of chunk rows spare what a manifest references, and a build references only rows of
its parent and rows whose parts it committed. So the file of an active chunk can only go when
a purge unlinks a path that a build took up after the purge had deleted its row.
-/

namespace TalonHound.ChunkStore

open Bool Function List

namespace ChunkTables

/-- What the constraints and the code keep of the tables. -/
structure WellFormed (t : ChunkTables) : Prop where
  chunk_id : (t.chunks.map ChunkRow.id).Nodup
  chunk_next : ∀ c ∈ t.chunks, c.id < t.nextChunkId
  storage_path : (t.chunks.map ChunkRow.address).Nodup
  manifest_chunk : ∀ l ∈ t.manifests, l.chunkId ∈ t.chunks.map ChunkRow.id
  generation_id : (t.generations.map GenerationRow.id).Nodup
  active_feed : ∀ a ∈ t.actives, ∀ g ∈ t.generations, g.id = a.generationId → g.feedId = a.feedId

variable {t t' : ChunkTables} {a : ChunkAddress} {now before : ℤ} {feedId : Option ℕ} {b : Build}

/-- The rows that were there, and rows that no manifest references yet. -/
structure Extends (t t' : ChunkTables) : Prop where
  generations : t'.generations = t.generations
  actives : t'.actives = t.actives
  manifests : t'.manifests = t.manifests
  chunks : ∀ c ∈ t.chunks, c ∈ t'.chunks
  next : t.nextChunkId ≤ t'.nextChunkId
  new : ∀ c ∈ t'.chunks, c ∈ t.chunks ∨ t.nextChunkId ≤ c.id

theorem Extends.refl (t : ChunkTables) : t.Extends t :=
  ⟨rfl, rfl, rfl, fun _ hc => hc, le_rfl, fun _ hc => .inl hc⟩

theorem Extends.trans {t'' : ChunkTables} (h : t.Extends t') (h' : t'.Extends t'') :
    t.Extends t'' where
  generations := h'.generations.trans h.generations
  actives := h'.actives.trans h.actives
  manifests := h'.manifests.trans h.manifests
  chunks c hc := h'.chunks c (h.chunks c hc)
  next := h.next.trans h'.next
  new c hc := by
    rcases h'.new c hc with hc | hc
    · exact h.new c hc
    · exact .inr (h.next.trans hc)

/-- New rows are not referenced. -/
theorem Extends.referenced (hwell : t.WellFormed) (h : t.Extends t') (href : t'.Referenced a) :
    t.Referenced a := by
  obtain ⟨g, hg, hactive, l, hl, hlg, c, hc, hcl, haddress⟩ := href
  rw [h.generations] at hg
  rw [h.manifests] at hl
  obtain ⟨c', hc', hid⟩ := mem_map.mp (hwell.manifest_chunk l hl)
  have hnext := hwell.chunk_next c' hc'
  have hold : c ∈ t.chunks := (h.new c hc).resolve_right (by omega)
  exact ⟨g, hg, hactive, l, hl, hlg, c, hold, hcl, haddress⟩

/-- A statement of `upsertChunkRows` adds a row where there is none. -/
theorem upsertChunk_extends (hwell : t.WellFormed) (now : ℤ) (a : ChunkAddress) :
    (t.upsertChunk now a).WellFormed ∧ t.Extends (t.upsertChunk now a) := by
  unfold upsertChunk
  cases hrow : t.chunkAt? a with
  | some c => exact ⟨hwell, .refl t⟩
  | none =>
    have hfresh : a ∉ t.chunks.map ChunkRow.address := Rows.lookup_eq_none.mp hrow
    have hnext : t.nextChunkId ∉ t.chunks.map ChunkRow.id := by
      intro hmem
      obtain ⟨c, hc, hid⟩ := mem_map.mp hmem
      have hlt := hwell.chunk_next c hc
      omega
    constructor
    · exact {
        chunk_id := Rows.nodup_map_append hwell.chunk_id hnext
        chunk_next := by
          intro c hc
          rcases mem_append.mp hc with hc | hc
          · exact Nat.lt_succ_of_lt (hwell.chunk_next c hc)
          · rw [mem_singleton.mp hc]
            exact Nat.lt_succ_self _
        storage_path := Rows.nodup_map_append hwell.storage_path hfresh
        manifest_chunk := by
          intro l hl
          rw [map_append]
          exact mem_append_left _ (hwell.manifest_chunk l hl)
        generation_id := hwell.generation_id
        active_feed := hwell.active_feed }
    · exact {
        generations := rfl
        actives := rfl
        manifests := rfl
        chunks := fun c hc => mem_append_left _ hc
        next := Nat.le_succ _
        new := by
          intro c hc
          rcases mem_append.mp hc with hc | hc
          · exact .inl hc
          · rw [mem_singleton.mp hc]
            exact .inr le_rfl }

theorem upsertChunkRows_extends (hwell : t.WellFormed) (now : ℤ) (written : List WrittenChunk) :
    (t.upsertChunkRows now written).WellFormed ∧ t.Extends (t.upsertChunkRows now written) := by
  unfold upsertChunkRows
  generalize written.map WrittenChunk.address = paths
  induction paths generalizing t with
  | nil => exact ⟨hwell, .refl t⟩
  | cons a paths ih =>
    obtain ⟨hwell₁, hextends⟩ := upsertChunk_extends hwell now a
    obtain ⟨hwell₂, hrest⟩ := ih hwell₁
    exact ⟨hwell₂, hextends.trans hrest⟩

/-- A build commits links to rows of its parent and to rows at paths that it wrote. -/
theorem activate_links {l : ManifestRow} (hl : l ∈ (t.activate b).manifests) :
    l ∈ (t.upsertChunkRows b.startedAt b.written).manifests ∨ l.generationId = b.generationId ∧
      ((∃ l₀ ∈ (t.upsertChunkRows b.startedAt b.written).manifests,
          b.parent = some l₀.generationId ∧ l.chunkId = l₀.chunkId) ∨
        ∃ w ∈ b.written, ∃ c ∈ (t.activate b).chunks, c.id = l.chunkId ∧
          c.address = w.address) := by
  unfold activate at hl ⊢
  simp only at hl ⊢
  generalize t.upsertChunkRows b.startedAt b.written = u at hl ⊢
  rcases mem_append.mp hl with hl | hl
  · rcases mem_append.mp hl with hl | hl
    · exact .inl hl
    · -- copied from the parent
      unfold copiedLinks at hl
      cases hparent : b.parent with
      | none =>
        rw [hparent] at hl
        cases hl
      | some parent =>
        rw [hparent] at hl
        obtain ⟨l₀, hl₀, rfl⟩ := mem_map.mp hl
        obtain ⟨hmem, hcond⟩ := mem_filter.mp hl₀
        rw [and_eq_true, decide_eq_true_eq] at hcond
        exact .inr ⟨rfl, .inl ⟨l₀, hmem, by rw [hcond.1], rfl⟩⟩
  · -- written by the build
    obtain ⟨format, -, hl⟩ := mem_flatMap.mp hl
    obtain ⟨key, -, hlink⟩ := mem_filterMap.mp hl
    obtain ⟨c, hc, rfl⟩ := Option.map_eq_some_iff.mp hlink
    obtain ⟨w, hw, hrow⟩ := Option.bind_eq_some_iff.mp hc
    obtain ⟨hcmem, haddress⟩ := Rows.mem_of_lookup hrow
    exact .inr ⟨rfl, .inr ⟨w, mem_of_find?_eq_some hw, c, hcmem, rfl, haddress⟩⟩

/-- A generation of the committed tables is the new one, or an old one. -/
theorem activate_generations {g : GenerationRow} (hg : g ∈ (t.activate b).generations) :
    g.id = b.generationId ∧ g.feedId = b.feedId ∨
      ∃ g₀ ∈ (t.upsertChunkRows b.startedAt b.written).generations, g = supersede b g₀ := by
  unfold activate at hg
  simp only at hg
  rcases mem_append.mp hg with hg | hg
  · obtain ⟨g₀, hg₀, rfl⟩ := mem_map.mp hg
    exact .inr ⟨g₀, hg₀, rfl⟩
  · rw [mem_singleton.mp hg]
    exact .inl ⟨rfl, rfl⟩

theorem supersede_id (b : Build) (g : GenerationRow) : (supersede b g).id = g.id := by
  unfold supersede
  split <;> rfl

theorem supersede_feedId (b : Build) (g : GenerationRow) : (supersede b g).feedId = g.feedId := by
  unfold supersede
  split <;> rfl

/-- A generation that is active after its parent was superseded is untouched. -/
theorem supersede_of_active {g : GenerationRow} (hactive : (supersede b g).state = .active) :
    supersede b g = g := by
  unfold supersede at hactive ⊢
  split at hactive
  · cases hactive
  · next hnot => rw [if_neg hnot]

/-- A generation that is not the parent is not superseded. -/
theorem supersede_of_ne {g : GenerationRow} (hne : b.parent ≠ some g.id) : supersede b g = g := by
  unfold supersede
  rw [if_neg fun h => hne h.1.symm]

variable {g : GenerationRow}

/-- What a build brings under the manifests of active generations: paths that it wrote. -/
theorem activate_referenced (hwell : t.WellFormed)
    (hfresh : ∀ l ∈ t.manifests, l.generationId ≠ b.generationId)
    (hparent : ∀ p, b.parent = some p → ∃ g ∈ t.generations, g.id = p ∧ g.state = .active)
    (href : (t.activate b).Referenced a) :
    t.Referenced a ∨ ∃ w ∈ b.written, w.address = a := by
  obtain ⟨hwell', hextends⟩ := upsertChunkRows_extends hwell b.startedAt b.written
  obtain ⟨g, hg, hactive, l, hl, hlg, c, hc, hcl, haddress⟩ := href
  have hchunks : c ∈ (t.upsertChunkRows b.startedAt b.written).chunks := hc
  rcases activate_links hl with hold | ⟨hnew, ⟨l₀, hl₀, hl₀p, hid⟩ | ⟨w, hw, c', hc', hid, hwa⟩⟩
  · -- an old link: its generation is an old one
    left
    apply hextends.referenced hwell
    rcases activate_generations hg with ⟨hgnew, -⟩ | ⟨g₀, hg₀, rfl⟩
    · rw [hextends.manifests] at hold
      exact absurd (hlg.trans hgnew) (hfresh l hold)
    · have hsame := supersede_of_active hactive
      rw [hsame] at hactive hlg
      exact ⟨g₀, hg₀, hactive, l, hold, hlg, c, hchunks, hcl, haddress⟩
  · -- a copied link: the parent is active
    left
    obtain ⟨p, hp, hpid, hpactive⟩ := hparent _ hl₀p
    apply hextends.referenced hwell
    rw [← hextends.generations] at hp
    exact ⟨p, hp, hpactive, l₀, hl₀, hpid.symm, c, hchunks, hcl.trans hid, haddress⟩
  · right
    refine ⟨w, hw, ?_⟩
    have hsame : c' = c := inj_on_of_nodup_map hwell'.chunk_id hc' hchunks (hid.trans hcl.symm)
    rw [← haddress, ← hsame, hwa]

/-- Tables stay well-formed when a build commits. -/
theorem activate_wellFormed (hwell : t.WellFormed)
    (hfresh : ∀ g ∈ t.generations, g.id ≠ b.generationId)
    (hactive : ∀ a ∈ t.actives, a.generationId ≠ b.generationId) :
    (t.activate b).WellFormed := by
  obtain ⟨hwell', hextends⟩ := upsertChunkRows_extends hwell b.startedAt b.written
  have hids : ((t.activate b).generations.map GenerationRow.id) =
      t.generations.map GenerationRow.id ++ [b.generationId] := by
    change ((t.upsertChunkRows b.startedAt b.written).generations.map (supersede b) ++ _).map _ = _
    rw [map_append, map_map, hextends.generations]
    congr 1
    exact map_congr_left fun g _ => supersede_id b g
  exact {
    chunk_id := hwell'.chunk_id
    chunk_next := hwell'.chunk_next
    storage_path := hwell'.storage_path
    manifest_chunk := by
      intro l hl
      rcases activate_links hl with hold | ⟨-, ⟨l₀, hl₀, -, hid⟩ | ⟨w, -, c, hc, hid, -⟩⟩
      · exact hwell'.manifest_chunk l hold
      · rw [hid]
        exact hwell'.manifest_chunk l₀ hl₀
      · exact hid ▸ mem_map_of_mem hc
    generation_id := by
      rw [hids]
      apply nodup_append.mpr
      refine ⟨hwell.generation_id, nodup_singleton _, ?_⟩
      intro id hid id' hid' heq
      obtain ⟨g, hg, rfl⟩ := mem_map.mp hid
      exact hfresh g hg (heq.trans (mem_singleton.mp hid'))
    active_feed := by
      intro row hrow g hg hgrow
      have hrows : row ∈ t.actives ∨ row.generationId = b.generationId ∧ row.feedId = b.feedId := by
        rcases mem_append.mp hrow with hrow | hrow
        · left
          rw [← hextends.actives]
          exact (mem_filter.mp hrow).1
        · right
          rw [mem_singleton.mp hrow]
          exact ⟨rfl, rfl⟩
      rcases activate_generations hg with ⟨hgid, hgfeed⟩ | ⟨g₀, hg₀, rfl⟩
      · rcases hrows with hold | ⟨-, hfeed⟩
        · exact absurd (hgrow.symm.trans hgid) (hactive row hold)
        · rw [hgfeed, hfeed]
      · rw [hextends.generations] at hg₀
        rw [supersede_id] at hgrow
        rw [supersede_feedId]
        rcases hrows with hold | ⟨hid, -⟩
        · exact hwell.active_feed row hold g₀ hg₀ hgrow
        · exact absurd (hgrow.trans hid) (hfresh g₀ hg₀) }

theorem deleteUnreachable_referenced (href : (t.deleteUnreachable feedId before).Referenced a) :
    t.Referenced a := by
  obtain ⟨g, hg, hactive, l, hl, hlg, c, hc, hcl, haddress⟩ := href
  exact ⟨g, hg, hactive, l, hl, hlg, c, (mem_filter.mp hc).1, hcl, haddress⟩

/-- The paths that the statement returns are not referenced. -/
theorem not_referenced_of_unreachable (hwell : t.WellFormed)
    (ha : a ∈ t.unreachablePaths feedId before) : ¬ t.Referenced a := by
  rintro ⟨g, -, -, l, hl, -, c, hc, hcl, haddress⟩
  obtain ⟨c', hc', haddress'⟩ := mem_map.mp ha
  obtain ⟨hmem, hunreachable⟩ := mem_filter.mp hc'
  have hsame : c' = c := inj_on_of_nodup_map hwell.storage_path hmem hc
    (haddress'.trans haddress.symm)
  subst hsame
  unfold isUnreachable at hunreachable
  rw [and_eq_true, and_eq_true, not_eq_true', any_eq_false] at hunreachable
  exact hunreachable.1.2 l hl (decide_eq_true hcl.symm)

/-- The paths that it returns are of the feed that was given. -/
theorem feedId_of_unreachable {feed : ℕ} (ha : a ∈ t.unreachablePaths (some feed) before) :
    a.feedId = feed := by
  obtain ⟨c, hc, rfl⟩ := mem_map.mp ha
  have hunreachable := (mem_filter.mp hc).2
  unfold isUnreachable at hunreachable
  rw [and_eq_true] at hunreachable
  simpa using hunreachable.2

theorem deleteUnreachable_wellFormed (hwell : t.WellFormed) :
    (t.deleteUnreachable feedId before).WellFormed where
  chunk_id := hwell.chunk_id.sublist (filter_sublist.map _)
  chunk_next c hc := hwell.chunk_next c (mem_filter.mp hc).1
  storage_path := hwell.storage_path.sublist (filter_sublist.map _)
  manifest_chunk l hl := by
    obtain ⟨c, hc, hid⟩ := mem_map.mp (hwell.manifest_chunk l hl)
    refine hid ▸ mem_map_of_mem (mem_filter.mpr ⟨hc, ?_⟩)
    unfold isUnreachable
    rw [not_eq_true', and_eq_false_iff, and_eq_false_iff]
    refine .inl (.inr ?_)
    rw [not_eq_false', any_eq_true]
    exact ⟨l, hl, decide_eq_true hid.symm⟩
  generation_id := hwell.generation_id
  active_feed := hwell.active_feed

theorem deleteGeneration_referenced {id : String} (href : (t.deleteGeneration id).Referenced a) :
    t.Referenced a := by
  obtain ⟨g, hg, hactive, l, hl, hlg, c, hc, hcl, haddress⟩ := href
  exact ⟨g, (mem_filter.mp hg).1, hactive, l, (mem_filter.mp hl).1, hlg, c, hc, hcl, haddress⟩

theorem deleteGeneration_wellFormed (hwell : t.WellFormed) (id : String) :
    (t.deleteGeneration id).WellFormed where
  chunk_id := hwell.chunk_id
  chunk_next := hwell.chunk_next
  storage_path := hwell.storage_path
  manifest_chunk l hl := hwell.manifest_chunk l (mem_filter.mp hl).1
  generation_id := hwell.generation_id.sublist (filter_sublist.map _)
  active_feed row hrow g hg := hwell.active_feed row hrow g (mem_filter.mp hg).1

theorem reconcileOrphanLinks_referenced (href : t.reconcileOrphanLinks.Referenced a) :
    t.Referenced a := by
  obtain ⟨g, hg, hactive, l, hl, hlg, c, hc, hcl, haddress⟩ := href
  exact ⟨g, hg, hactive, l, (mem_filter.mp hl).1, hlg, c, hc, hcl, haddress⟩

theorem reconcileOrphanLinks_wellFormed (hwell : t.WellFormed) :
    t.reconcileOrphanLinks.WellFormed :=
  { hwell with manifest_chunk := fun l hl => hwell.manifest_chunk l (mem_filter.mp hl).1 }

/-- The parent of a build is an active generation of its feed. -/
theorem activeGeneration?_spec (hwell : t.WellFormed) {feed : ℕ} {window : FeedWindow}
    {iocTypeKey : String} (h : t.activeGeneration? feed window iocTypeKey = some g) :
    g ∈ t.generations ∧ g.state = .active ∧ g.feedId = feed := by
  obtain ⟨row, hrow, hg⟩ := Option.bind_eq_some_iff.mp h
  have hfound := find?_some hrow
  have hkey := of_decide_eq_true hfound
  have hactive := find?_some hg
  have hmatch := of_decide_eq_true hactive
  have hmem := mem_of_find?_eq_some hg
  refine ⟨hmem, hmatch.2, ?_⟩
  rw [hwell.active_feed row (mem_of_find?_eq_some hrow) g hmem hmatch.1, hkey.1]

end ChunkTables

namespace ChunkSystem

variable {ι : Type} [DecidableEq ι] {σ σ' : ChunkSystem ι} {i : ι} {b : Build}

/-- What an open build relies on. -/
structure BuildSound (σ : ChunkSystem ι) (b : Build) : Prop where
  feed : ∀ w ∈ b.written, w.address.feedId = b.feedId
  parent : ∀ p, b.parent = some p →
    ∃ g ∈ σ.tables.generations, g.id = p ∧ g.state = .active ∧ g.feedId = b.feedId
  kept : ∀ w ∈ b.written, w.address ∉ b.overlapped → w.address ∈ σ.files ∧ ¬ σ.Pending w.address
  created : ∀ w ∈ b.written, w.created = true → ¬ σ.tables.Referenced w.address

/-- The invariant: referenced files exist and are not about to be unlinked, and two sessions
never hold one lock. -/
structure Sound (σ : ChunkSystem ι) : Prop where
  tables : σ.tables.WellFormed
  files : ∀ a, σ.tables.Referenced a → a ∈ σ.files
  pending : ∀ a, σ.Pending a → ¬ σ.tables.Referenced a
  locks : ∀ i j feed, (σ.sessions i).lockedFeed = some feed →
    (σ.sessions j).lockedFeed = some feed → i = j
  builds : ∀ i b, σ.sessions i = .building b → σ.BuildSound b
  cleanings : ∀ i feed paths, σ.sessions i = .cleaning feed paths → ∀ a ∈ paths, a.feedId = feed

omit [DecidableEq ι] in
/-- A build keeps what it relies on when its parent, its files and its created paths do. -/
theorem BuildSound.mono (h : σ.BuildSound b)
    (hgenerations : ∀ g ∈ σ.tables.generations, g.state = .active → b.parent = some g.id →
      g.feedId = b.feedId → g ∈ σ'.tables.generations)
    (hkept : ∀ w ∈ b.written, w.address ∉ b.overlapped → w.address ∈ σ.files →
      ¬ σ.Pending w.address → w.address ∈ σ'.files ∧ ¬ σ'.Pending w.address)
    (hcreated : ∀ w ∈ b.written, σ'.tables.Referenced w.address →
      σ.tables.Referenced w.address) : σ'.BuildSound b where
  feed := h.feed
  parent p hp := by
    obtain ⟨g, hg, rfl, hactive, hfeed⟩ := h.parent p hp
    exact ⟨g, hgenerations g hg hactive hp hfeed, rfl, hactive, hfeed⟩
  kept w hw hnot := by
    obtain ⟨hfile, hpending⟩ := h.kept w hw hnot
    exact hkept w hw hnot hfile hpending
  created w hw hcreated' href := h.created w hw hcreated' (hcreated w hw href)

variable {op : Operation}

/-- A session that is not set is as before. -/
theorem pending_cases (hsessions : σ'.sessions = Function.update σ.sessions i op) {a : ChunkAddress}
    (h : σ'.Pending a) : a ∈ op.pending ∨ σ.Pending a := by
  obtain ⟨j, hj⟩ := h
  rw [hsessions] at hj
  by_cases hji : j = i
  · subst hji
    rw [update_self] at hj
    exact .inl hj
  · rw [update_of_ne hji] at hj
    exact .inr ⟨j, hj⟩

/-- One session changes what it does. -/
theorem Sound.setSession (h : σ.Sound) {op : Operation}
    (hsessions : σ'.sessions = Function.update σ.sessions i op)
    (htables : σ'.tables.WellFormed)
    (hfiles : ∀ a, σ'.tables.Referenced a → a ∈ σ'.files)
    (hpending : ∀ a, a ∈ op.pending ∨ σ.Pending a → ¬ σ'.tables.Referenced a)
    (hlock : ∀ feed, op.lockedFeed = some feed →
      (σ.sessions i).lockedFeed = some feed ∨ σ.LockFree feed)
    (hbuild : ∀ b, op = .building b → σ'.BuildSound b)
    (hothers : ∀ j b, j ≠ i → σ.sessions j = .building b → σ'.BuildSound b)
    (hcleaning : ∀ feed paths, op = .cleaning feed paths → ∀ a ∈ paths, a.feedId = feed) :
    σ'.Sound where
  tables := htables
  files := hfiles
  pending a ha := hpending a (pending_cases hsessions ha)
  locks j k feed hj hk := by
    rw [hsessions] at hj hk
    by_cases hji : j = i
    · by_cases hki : k = i
      · exact hji.trans hki.symm
      · rw [hji, update_self] at hj
        rw [update_of_ne hki] at hk
        rcases hlock feed hj with hown | hfree
        · exact hji.trans (h.locks i k feed hown hk)
        · exact absurd hk (hfree k)
    · rw [update_of_ne hji] at hj
      by_cases hki : k = i
      · rw [hki, update_self] at hk
        rcases hlock feed hk with hown | hfree
        · exact (h.locks j i feed hj hown).trans hki.symm
        · exact absurd hj (hfree j)
      · rw [update_of_ne hki] at hk
        exact h.locks j k feed hj hk
  builds j b' hj := by
    rw [hsessions] at hj
    by_cases hji : j = i
    · rw [hji, update_self] at hj
      exact hbuild b' hj
    · rw [update_of_ne hji] at hj
      exact hothers j b' hji hj
  cleanings j feed paths hj := by
    rw [hsessions] at hj
    by_cases hji : j = i
    · rw [hji, update_self] at hj
      exact hcleaning feed paths hj
    · rw [update_of_ne hji] at hj
      exact h.cleanings j feed paths hj

omit [DecidableEq ι] in
/-- Builds of two sessions are of different feeds. -/
theorem Sound.feeds_ne (h : σ.Sound) {j : ι} {b' : Build} (hi : σ.sessions i = .building b)
    (hj : σ.sessions j = .building b') (hne : j ≠ i) : b'.feedId ≠ b.feedId := by
  intro hfeed
  apply hne
  apply h.locks j i b.feedId
  · rw [hj, ← hfeed]
    rfl
  · rw [hi]
    rfl

section Build

variable (h : σ.Sound)

include h

theorem Sound.startBuild {generationId : String} {feedId : ℕ}
    {window : FeedWindow} {iocTypeKey : String} {formats : List FeedFormat} {chunkCount : ℕ}
    {affectedChunkKeys : Option (List ℕ)} {reusable : Bool} {now : ℤ} (hfree : σ.LockFree feedId) :
    (σ.setSession i (.building (σ.openBuild generationId feedId window iocTypeKey formats
      chunkCount affectedChunkKeys reusable now))).Sound := by
  have hsame : ∀ a, (σ.setSession i (.building (σ.openBuild generationId feedId window iocTypeKey
      formats chunkCount affectedChunkKeys reusable now))).Pending a → σ.Pending a := by
    intro a ha
    exact (pending_cases rfl ha).resolve_left not_mem_nil
  refine h.setSession rfl h.tables h.files ?_ ?_ ?_ ?_ nofun
  · intro a ha
    exact h.pending a (ha.resolve_left not_mem_nil)
  · intro feed hfeed
    cases hfeed
    exact .inr hfree
  · rintro _ ⟨⟩
    refine ⟨nofun, ?_, nofun, nofun⟩
    intro p hp
    obtain ⟨g, hg, rfl⟩ := Option.map_eq_some_iff.mp hp
    obtain ⟨hmem, hactive, hfeed⟩ := ChunkTables.activeGeneration?_spec h.tables hg
    exact ⟨g, hmem, rfl, hactive, hfeed⟩
  · intro j b' _ hj
    exact (h.builds j b' hj).mono (fun _ hg _ _ _ => hg)
      (fun _ _ _ hfile hpending => ⟨hfile, fun hp => hpending (hsame _ hp)⟩) (fun _ _ href => href)

section

variable (hi : σ.sessions i = .building b)
include hi

theorem Sound.commitPart [Fintype ι] {a : ChunkAddress} (hfeed : a.feedId = b.feedId) :
    (σ.commitPart i b a).Sound := by
  have hsame : ∀ a', (σ.commitPart i b a).Pending a' → σ.Pending a' := by
    intro a' ha'
    exact (pending_cases rfl ha').resolve_left not_mem_nil
  have hb := h.builds i b hi
  refine h.setSession rfl h.tables ?_ ?_ ?_ ?_ ?_ nofun
  · exact fun a' ha' => Finset.mem_insert_of_mem (h.files a' ha')
  · intro a' ha'
    exact h.pending a' (ha'.resolve_left not_mem_nil)
  · intro feed hlocked
    left
    rw [hi]
    exact hlocked
  · rintro _ ⟨⟩
    refine ⟨?_, hb.parent, ?_, ?_⟩
    · intro w hw
      rcases mem_append.mp hw with hw | hw
      · exact hb.feed w hw
      · rw [mem_singleton.mp hw]
        exact hfeed
    · intro w hw hnot
      have hnot' : w.address ∉ b.overlapped := by
        intro hmem
        apply hnot
        split
        · exact mem_append_left _ hmem
        · exact hmem
      rcases mem_append.mp hw with hw | hw
      · obtain ⟨hfile, hpending⟩ := hb.kept w hw hnot'
        exact ⟨Finset.mem_insert_of_mem hfile, fun hp => hpending (hsame _ hp)⟩
      · rw [mem_singleton.mp hw] at hnot ⊢
        refine ⟨Finset.mem_insert_self _ _, fun hp => hnot ?_⟩
        rw [if_pos (hsame a hp)]
        exact mem_append_right _ (mem_singleton_self a)
    · intro w hw hcreated
      rcases mem_append.mp hw with hw | hw
      · exact hb.created w hw hcreated
      · rw [mem_singleton.mp hw] at hcreated ⊢
        exact fun href => of_decide_eq_true hcreated (h.files a href)
  · intro j b' _ hj
    exact (h.builds j b' hj).mono (fun _ hg _ _ _ => hg)
      (fun _ _ _ hfile hpending =>
        ⟨Finset.mem_insert_of_mem hfile, fun hp => hpending (hsame _ hp)⟩)
      (fun _ _ href => href)

theorem Sound.upsertChunkRows : (σ.setSession i (.building { b with upserted := true })).Sound := by
  have hsame : ∀ a, (σ.setSession i (.building { b with upserted := true })).Pending a →
      σ.Pending a := by
    intro a ha
    exact (pending_cases rfl ha).resolve_left not_mem_nil
  have hkeeps : ∀ b', σ.BuildSound b' →
      (σ.setSession i (.building { b with upserted := true })).BuildSound b' := by
    intro b' hb'
    exact hb'.mono (fun _ hg _ _ _ => hg)
      (fun _ _ _ hfile hpending => ⟨hfile, fun hp => hpending (hsame _ hp)⟩) (fun _ _ href => href)
  refine h.setSession rfl h.tables h.files ?_ ?_ ?_ ?_ nofun
  · intro a ha
    exact h.pending a (ha.resolve_left not_mem_nil)
  · intro feed hlocked
    left
    rw [hi]
    exact hlocked
  · rintro _ ⟨⟩
    have hb := hkeeps b (h.builds i b hi)
    exact ⟨hb.feed, hb.parent, hb.kept, hb.created⟩
  · exact fun j b' _ hj => hkeeps b' (h.builds j b' hj)

/-- A build that no purge overlapped commits. -/
theorem Sound.activate (hfresh : σ.IdFresh b) (hapart : b.overlapped = []) :
    ({ σ.setSession i .idle with tables := σ.tables.activate b } : ChunkSystem ι).Sound := by
  have hb := h.builds i b hi
  have hnot : ∀ w ∈ b.written, w.address ∉ b.overlapped := by
    rw [hapart]
    exact fun _ _ => not_mem_nil
  have href : ∀ a, (σ.tables.activate b).Referenced a →
      σ.tables.Referenced a ∨ ∃ w ∈ b.written, w.address = a := by
    intro a ha
    refine ChunkTables.activate_referenced h.tables hfresh.2.1 ?_ ha
    intro p hp
    obtain ⟨g, hg, hid, hactive, -⟩ := hb.parent p hp
    exact ⟨g, hg, hid, hactive⟩
  have hsame : ∀ a, ({ σ.setSession i .idle with
      tables := σ.tables.activate b } : ChunkSystem ι).Pending a → σ.Pending a := by
    intro a ha
    exact (pending_cases rfl ha).resolve_left not_mem_nil
  refine h.setSession rfl
    (ChunkTables.activate_wellFormed h.tables hfresh.1 hfresh.2.2) ?_ ?_ nofun nofun ?_ nofun
  · intro a ha
    rcases href a ha with hold | ⟨w, hw, rfl⟩
    · exact h.files a hold
    · exact (hb.kept w hw (hnot w hw)).1
  · intro a hpending ha
    have hpending := hpending.resolve_left not_mem_nil
    rcases href a ha with hold | ⟨w, hw, rfl⟩
    · exact h.pending a hpending hold
    · exact (hb.kept w hw (hnot w hw)).2 hpending
  · intro j b' hne hj
    have hfeeds := h.feeds_ne hi hj hne
    have hb' := h.builds j b' hj
    refine hb'.mono ?_ (fun _ _ _ hfile hpending => ⟨hfile, fun hp => hpending (hsame _ hp)⟩) ?_
    · intro g hg hactive hparent hfeed
      have hkept : ChunkTables.supersede b g = g := by
        apply ChunkTables.supersede_of_ne
        intro hparent'
        obtain ⟨g', hg', hid, -, hfeed'⟩ := hb.parent _ hparent'
        have hsame : g' = g := inj_on_of_nodup_map h.tables.generation_id hg' hg hid
        exact hfeeds (hfeed.symm.trans (hsame ▸ hfeed'))
      change g ∈ (σ.tables.upsertChunkRows b.startedAt b.written).generations.map
        (ChunkTables.supersede b) ++ _
      rw [(ChunkTables.upsertChunkRows_extends h.tables b.startedAt b.written).2.generations]
      exact mem_append_left _ (mem_map.mpr ⟨g, hg, hkept⟩)
    · intro w' hw' ha
      rcases href _ ha with hold | ⟨w, hw, heq⟩
      · exact hold
      · have hsameFeed := congrArg ChunkAddress.feedId heq
        rw [hb.feed w hw, hb'.feed w' hw'] at hsameFeed
        exact absurd hsameFeed.symm hfeeds

/-- A build that fails removes only files that it created. -/
theorem Sound.failBuild (removeCreated : Bool) :
    ({ σ.setSession i .idle with files :=
        if removeCreated then σ.files.filter fun a => a ∉ createdFiles b else σ.files } :
      ChunkSystem ι).Sound := by
  have hb := h.builds i b hi
  have hmem : ∀ a, a ∉ createdFiles b → a ∈ σ.files →
      a ∈ if removeCreated then σ.files.filter fun a => a ∉ createdFiles b else σ.files := by
    intro a hnot hfile
    split
    · exact Finset.mem_filter.mpr ⟨hfile, hnot⟩
    · exact hfile
  have hcreated : ∀ a ∈ createdFiles b, ¬ σ.tables.Referenced a ∧ a.feedId = b.feedId := by
    intro a ha
    obtain ⟨w, hw, rfl⟩ := mem_map.mp ha
    obtain ⟨hw, hwcreated⟩ := mem_filter.mp hw
    exact ⟨hb.created w hw hwcreated, hb.feed w hw⟩
  refine h.setSession rfl h.tables ?_ ?_ nofun nofun ?_ nofun
  · exact fun a ha => hmem a (fun hmem' => (hcreated a hmem').1 ha) (h.files a ha)
  · intro a ha
    exact h.pending a (ha.resolve_left not_mem_nil)
  · intro j b' hne hj
    have hfeeds := h.feeds_ne hi hj hne
    have hb' := h.builds j b' hj
    refine hb'.mono (fun _ hg _ _ _ => hg) ?_ (fun _ _ href => href)
    intro w hw _ hfile hpending
    refine ⟨hmem _ ?_ hfile, fun hp => hpending ?_⟩
    · intro hmem'
      exact hfeeds ((hb'.feed w hw).symm.trans (hcreated _ hmem').2)
    · exact (pending_cases rfl hp).resolve_left not_mem_nil

end

end Build

omit [DecidableEq ι] in
/-- A purge notes the paths that it takes from open builds. -/
theorem Sound.note (h : σ.Sound) (paths : List ChunkAddress) :
    ({ σ with sessions := fun j => (σ.sessions j).note paths } : ChunkSystem ι).Sound := by
  have hlocked : ∀ op : Operation, (op.note paths).lockedFeed = op.lockedFeed := by
    rintro (_ | _ | _ | _) <;> rfl
  have hpending : ∀ op : Operation, (op.note paths).pending = op.pending := by
    rintro (_ | _ | _ | _) <;> rfl
  have hsame : ∀ a, ({ σ with sessions := fun j => (σ.sessions j).note paths } :
      ChunkSystem ι).Pending a → σ.Pending a := by
    rintro a ⟨j, hj⟩
    rw [hpending] at hj
    exact ⟨j, hj⟩
  refine ⟨h.tables, h.files, fun a ha => h.pending a (hsame a ha), ?_, ?_, ?_⟩
  · intro j k feed hj hk
    rw [hlocked] at hj hk
    exact h.locks j k feed hj hk
  · intro j b' hj
    change (σ.sessions j).note paths = .building b' at hj
    cases hop : σ.sessions j with
    | idle | purging | cleaning =>
      rw [hop] at hj
      cases hj
    | building b =>
      rw [hop] at hj
      cases hj
      have hb := h.builds j b hop
      refine ⟨hb.feed, hb.parent, ?_, hb.created⟩
      intro w hw hnot
      obtain ⟨hfile, hnotPending⟩ := hb.kept w hw fun hmem => hnot (mem_append_left _ hmem)
      exact ⟨hfile, fun hp => hnotPending (hsame _ hp)⟩
  · intro j feed paths' hj
    change (σ.sessions j).note paths = .cleaning feed paths' at hj
    cases hop : σ.sessions j with
    | idle | purging | building =>
      rw [hop] at hj
      cases hj
    | cleaning =>
      rw [hop] at hj
      cases hj
      exact h.cleanings j feed paths' hop

omit [DecidableEq ι] in
/-- After a purge noted its paths, no build that wrote one of them relies on it. -/
theorem overlapped_of_note {paths : List ChunkAddress} {j : ι}
    (hj : (σ.sessions j).note paths = .building b) {w : WrittenChunk} (hw : w ∈ b.written)
    (hmem : w.address ∈ paths) : w.address ∈ b.overlapped := by
  cases hop : σ.sessions j with
  | idle | purging | cleaning =>
    rw [hop] at hj
    cases hj
  | building b₀ =>
    rw [hop] at hj
    cases hj
    apply mem_append_right
    exact mem_filter.mpr ⟨mem_map_of_mem hw, decide_eq_true hmem⟩

section Deletion

variable (h : σ.Sound)

include h

theorem Sound.purge (feedId : Option ℕ) (before : ℤ) :
    ({ σ with
      tables := σ.tables.deleteUnreachable feedId before
      sessions := Function.update
        (fun j => (σ.sessions j).note (σ.tables.unreachablePaths feedId before)) i
        (.purging (σ.tables.unreachablePaths feedId before)) } : ChunkSystem ι).Sound := by
  have hnoted := h.note (σ.tables.unreachablePaths feedId before)
  refine hnoted.setSession rfl (ChunkTables.deleteUnreachable_wellFormed h.tables) ?_ ?_ nofun
    nofun ?_ nofun
  · exact fun a ha => h.files a (ChunkTables.deleteUnreachable_referenced ha)
  · rintro a (ha | ha) href
    · exact ChunkTables.not_referenced_of_unreachable h.tables ha
        (ChunkTables.deleteUnreachable_referenced href)
    · exact hnoted.pending a ha (ChunkTables.deleteUnreachable_referenced href)
  · intro j b' _ hj
    refine (hnoted.builds j b' hj).mono (fun _ hg _ _ _ => hg) ?_
      (fun _ _ href => ChunkTables.deleteUnreachable_referenced href)
    intro w hw hnot hfile hpending
    refine ⟨hfile, fun hp => ?_⟩
    obtain ⟨k, hk⟩ := hp
    by_cases hki : k = i
    · simp only [hki, update_self] at hk
      exact hnot (overlapped_of_note hj hw hk)
    · simp only [update_of_ne hki] at hk
      exact hpending ⟨k, hk⟩

theorem Sound.cleanup {g : GenerationRow} (hg : g ∈ σ.tables.generations) {before : ℤ}
    (hcandidate : ChunkTables.isCandidate before g = true) (hfree : σ.LockFree g.feedId) :
    ({ σ.setSession i (.cleaning g.feedId
          ((σ.tables.deleteGeneration g.id).unreachablePaths (some g.feedId) before)) with
      tables := (σ.tables.deleteGeneration g.id).deleteUnreachable (some g.feedId) before } :
      ChunkSystem ι).Sound := by
  have hwell := ChunkTables.deleteGeneration_wellFormed h.tables g.id
  have href : ∀ a, ((σ.tables.deleteGeneration g.id).deleteUnreachable (some g.feedId)
      before).Referenced a → σ.tables.Referenced a := fun a ha =>
    ChunkTables.deleteGeneration_referenced (ChunkTables.deleteUnreachable_referenced ha)
  refine h.setSession rfl (ChunkTables.deleteUnreachable_wellFormed hwell) ?_ ?_ ?_ nofun ?_ ?_
  · exact fun a ha => h.files a (href a ha)
  · rintro a (ha | ha) hreferenced
    · exact ChunkTables.not_referenced_of_unreachable hwell ha
        (ChunkTables.deleteUnreachable_referenced hreferenced)
    · exact h.pending a ha (href a hreferenced)
  · intro feed hfeed
    cases hfeed
    exact .inr hfree
  · intro j b' _ hj
    have hb' := h.builds j b' hj
    refine hb'.mono ?_ ?_ (fun _ _ hreferenced => href _ hreferenced)
    · intro g' hg' hactive _ _
      -- the candidate is not active, so the parent is another generation
      apply mem_filter.mpr
      refine ⟨hg', ?_⟩
      rw [not_eq_true', decide_eq_false_iff_not]
      intro hid
      obtain rfl := inj_on_of_nodup_map h.tables.generation_id hg' hg hid
      unfold ChunkTables.isCandidate at hcandidate
      rw [and_eq_true, decide_eq_true_eq, hactive] at hcandidate
      rcases hcandidate.1 with hstate | hstate <;> cases hstate
    · intro w hw _ hfile hpending
      refine ⟨hfile, fun hp => ?_⟩
      rcases pending_cases rfl hp with hmem | hp
      · apply hfree j
        rw [hj, ← ChunkTables.feedId_of_unreachable hmem, hb'.feed w hw]
        rfl
      · exact hpending hp
  · rintro _ _ ⟨⟩ a ha
    exact ChunkTables.feedId_of_unreachable ha

/-- A file that a session had to unlink goes, and the session has less to unlink. -/
theorem Sound.unlink {a : ChunkAddress} (ha : a ∈ (σ.sessions i).pending)
    (hop : ∀ a' ∈ op.pending, a' ∈ (σ.sessions i).pending)
    (hlocked : op.lockedFeed = (σ.sessions i).lockedFeed) (hbuild : ∀ b, op ≠ .building b)
    (hcleaning : ∀ feed paths, op = .cleaning feed paths → ∀ a ∈ paths, a.feedId = feed) :
    ({ σ.setSession i op with files := σ.files.erase a } : ChunkSystem ι).Sound := by
  have hsame : ∀ a', a' ∈ op.pending ∨ σ.Pending a' → σ.Pending a' := by
    rintro a' (ha' | ha')
    · exact ⟨i, hop a' ha'⟩
    · exact ha'
  refine h.setSession rfl h.tables ?_ ?_ ?_ ?_ ?_ hcleaning
  · intro a' ha'
    refine Finset.mem_erase.mpr ⟨?_, h.files a' ha'⟩
    rintro rfl
    exact h.pending a' ⟨i, ha⟩ ha'
  · exact fun a' ha' => h.pending a' (hsame a' ha')
  · intro feed hfeed
    exact .inl (hlocked ▸ hfeed)
  · exact fun b' hb' => absurd hb' (hbuild b')
  · intro j b' _ hj
    refine (h.builds j b' hj).mono (fun _ hg _ _ _ => hg) ?_ (fun _ _ href => href)
    intro w hw _ hfile hpending
    refine ⟨Finset.mem_erase.mpr ⟨?_, hfile⟩, fun hp => hpending (hsame _ (pending_cases rfl hp))⟩
    rintro rfl
    exact hpending ⟨i, ha⟩

/-- A purge or a cleanup can end at any time. -/
theorem Sound.stop : (σ.setSession i .idle).Sound := by
  have hsame : ∀ a, (σ.setSession i .idle).Pending a → σ.Pending a := by
    intro a ha
    exact (pending_cases rfl ha).resolve_left not_mem_nil
  refine h.setSession rfl h.tables h.files ?_ nofun nofun ?_ nofun
  · intro a ha
    exact h.pending a (ha.resolve_left not_mem_nil)
  · intro j b' _ hj
    exact (h.builds j b' hj).mono (fun _ hg _ _ _ => hg)
      (fun _ _ _ hfile hpending => ⟨hfile, fun hp => hpending (hsame _ hp)⟩) (fun _ _ href => href)

end Deletion

omit [DecidableEq ι] in
theorem Sound.reconcileOrphanLinks (h : σ.Sound) :
    ({ σ with tables := σ.tables.reconcileOrphanLinks } : ChunkSystem ι).Sound where
  tables := ChunkTables.reconcileOrphanLinks_wellFormed h.tables
  files a ha := h.files a (ChunkTables.reconcileOrphanLinks_referenced ha)
  pending a ha href := h.pending a ha (ChunkTables.reconcileOrphanLinks_referenced href)
  locks := h.locks
  builds j b' hj := (h.builds j b' hj).mono (fun _ hg _ _ _ => hg)
    (fun _ _ _ hfile hpending => ⟨hfile, hpending⟩)
    (fun _ _ href => ChunkTables.reconcileOrphanLinks_referenced href)
  cleanings := h.cleanings

/-- A step that keeps commits apart from purges keeps the invariant. -/
theorem Sound.step [Fintype ι] (h : σ.Sound) {action : StoreAction} (hguard : σ.CommitsApart (i, action))
    (hstep : σ.step (i, action) = some σ') : σ'.Sound := by
  unfold ChunkSystem.step at hstep
  simp only at hstep
  cases action with
  | startBuild generationId feedId window iocTypeKey formats chunkCount keys reusable now =>
    cases hop : σ.sessions i with
    | idle =>
      simp only [hop] at hstep
      split at hstep
      · next hfree =>
        cases hstep
        exact h.startBuild hfree
      · cases hstep
    | building | purging | cleaning => simp [hop] at hstep
  | commitPart chunkKey format contentHash =>
    cases hop : σ.sessions i with
    | building b =>
      simp only [hop] at hstep
      split at hstep
      · cases hstep
        exact h.commitPart hop rfl
      · cases hstep
    | idle | purging | cleaning => simp [hop] at hstep
  | upsertChunkRows =>
    cases hop : σ.sessions i with
    | building b =>
      simp only [hop] at hstep
      split at hstep
      · cases hstep
        exact h.upsertChunkRows hop
      · cases hstep
    | idle | purging | cleaning => simp [hop] at hstep
  | activate =>
    cases hop : σ.sessions i with
    | building b =>
      simp only [hop] at hstep
      split at hstep
      · next hcommit =>
        cases hstep
        have hapart := hguard rfl
        rw [hop] at hapart
        exact h.activate hop hcommit.2 hapart
      · cases hstep
    | idle | purging | cleaning => simp [hop] at hstep
  | failBuild removeCreated =>
    cases hop : σ.sessions i with
    | building b =>
      simp only [hop] at hstep
      cases hstep
      exact h.failBuild hop removeCreated
    | idle | purging | cleaning => simp [hop] at hstep
  | purge feedId before =>
    cases hop : σ.sessions i with
    | idle =>
      simp only [hop] at hstep
      split at hstep
      · cases hstep
        exact h.purge feedId before
      · cases hstep
    | building | purging | cleaning => simp [hop] at hstep
  | cleanup generationId before =>
    cases hop : σ.sessions i with
    | idle =>
      simp only [hop] at hstep
      obtain ⟨g, hg, hstep⟩ := Option.bind_eq_some_iff.mp hstep
      have hfound := find?_some hg
      obtain rfl : g.id = generationId := of_decide_eq_true hfound
      split at hstep
      · next hcommit =>
        cases hstep
        exact h.cleanup (mem_of_find?_eq_some hg) hcommit.1 hcommit.2.1
      · cases hstep
    | building | purging | cleaning => simp [hop] at hstep
  | reconcileOrphanLinks =>
    cases hop : σ.sessions i with
    | idle =>
      simp only [hop] at hstep
      cases hstep
      exact h.reconcileOrphanLinks
    | building | purging | cleaning => simp [hop] at hstep
  | unlink =>
    cases hop : σ.sessions i with
    | purging paths =>
      cases paths with
      | nil => simp [hop] at hstep
      | cons a paths =>
        simp only [hop] at hstep
        cases hstep
        apply h.unlink
        · rw [hop]
          exact mem_cons_self
        · intro a' ha'
          rw [hop]
          exact mem_cons_of_mem _ ha'
        · rw [hop]
          rfl
        · exact nofun
        · exact nofun
    | cleaning feedId paths =>
      cases paths with
      | nil => simp [hop] at hstep
      | cons a paths =>
        simp only [hop] at hstep
        cases hstep
        apply h.unlink
        · rw [hop]
          exact mem_cons_self
        · intro a' ha'
          rw [hop]
          exact mem_cons_of_mem _ ha'
        · rw [hop]
          rfl
        · exact nofun
        · rintro _ _ ⟨⟩ a' ha'
          exact h.cleanings i feedId _ hop a' (.tail _ ha')
    | idle | building => simp [hop] at hstep
  | stop =>
    cases hop : σ.sessions i with
    | purging | cleaning =>
      simp only [hop] at hstep
      cases hstep
      exact h.stop
    | idle | building => simp [hop] at hstep

omit [DecidableEq ι] in
/-- The invariant gives the property. -/
theorem Sound.activeFilesExist (h : σ.Sound) : σ.ActiveFilesExist := by
  intro g hg hactive l hl hlg
  obtain ⟨c, hc, hid⟩ := mem_map.mp (h.tables.manifest_chunk l hl)
  exact ⟨c, hc, hid, h.files c.address ⟨g, hg, hactive, l, hl, hlg, c, hc, hid, rfl⟩⟩

/-- A store on which nobody works and whose active files exist. -/
structure AtRest (σ : ChunkSystem ι) : Prop where
  idle : ∀ i, σ.sessions i = .idle
  tables : σ.tables.WellFormed
  files : σ.ActiveFilesExist

omit [DecidableEq ι] in
theorem AtRest.sound (h : σ.AtRest) : σ.Sound where
  tables := h.tables
  files a ha := by
    obtain ⟨g, hg, hactive, l, hl, hlg, c, hc, hcl, rfl⟩ := ha
    obtain ⟨c', hc', hid, hfile⟩ := h.files g hg hactive l hl hlg
    have hsame : c' = c := inj_on_of_nodup_map h.tables.chunk_id hc' hc (hid.trans hcl.symm)
    exact hsame ▸ hfile
  pending a ha := by
    obtain ⟨j, hj⟩ := ha
    rw [h.idle j] at hj
    cases hj
  locks j k feed hj := by
    rw [h.idle j] at hj
    cases hj
  builds j b hj := by
    rw [h.idle j] at hj
    cases hj
  cleanings j feed paths hj := by
    rw [h.idle j] at hj
    cases hj

end ChunkSystem

/-- Whatever the order of steps, the chunks of active generations have their files, when no build
commits a path that it took up between a purge's deletion of the row and its unlinking. -/
theorem activeChunkFiles_exist {ι : Type} [DecidableEq ι] [Fintype ι] {σ σ' : ChunkSystem ι}
    {actions : List (ι × StoreAction)} (hstart : σ.AtRest)
    (hrun : Run ChunkSystem.step ChunkSystem.CommitsApart σ actions σ') : σ'.ActiveFilesExist := by
  have hsound : σ'.Sound := by
    refine Run.invariant (I := ChunkSystem.Sound) ?_ hrun hstart.sound
    rintro σ₁ ⟨i, action⟩ σ₂ hsound hguard hstep
    exact hsound.step hguard hstep
  exact hsound.activeFilesExist

/-- A chunk of feed 1. -/
def plainChunk : ChunkAddress := ⟨1, .all, 1, 64, 0, .txt, "c0ffee"⟩

/-- A store with one old chunk row that no manifest references, and its file. -/
def staleStore : ChunkSystem Bool where
  tables := ⟨[], [], [], [⟨1, plainChunk, 1, 0⟩], 2⟩
  files := {plainChunk}
  sessions _ := .idle

/-- A build of the first session that writes the chunk, and a purge of the second: the row, the
part, the commit, the unlink. -/
def racingBuild : List (Bool × StoreAction) :=
  [(true, .purge none 10), (false, .startBuild "first" 1 .all "domain" [.txt] 64 none true 11),
    (false, .commitPart 0 .txt "c0ffee"),
    (false, .upsertChunkRows),
    (false, .activate),
    (true, .unlink)]

theorem staleStore_atRest : staleStore.AtRest where
  idle _ := rfl
  tables := ⟨by decide, by decide, by decide, nofun, by decide, nofun⟩
  files := nofun

/-- The build alone leaves its file. -/
theorem activeChunkFiles_exist_alone : ∃ σ, Run ChunkSystem.step ChunkSystem.CommitsApart staleStore
      [(false, .startBuild "first" 1 .all "domain" [.txt] 64 none true 11),
        (false, .commitPart 0 .txt "c0ffee"), (false, .upsertChunkRows), (false, .activate)] σ ∧
      σ.tables.manifests ≠ [] ∧ σ.ActiveFilesExist := by
  have hexec : (Run.exec ChunkSystem.step ChunkSystem.CommitsApart staleStore
      [(false, .startBuild "first" 1 .all "domain" [.txt] 64 none true 11),
        (false, .commitPart 0 .txt "c0ffee"), (false, .upsertChunkRows),
        (false, .activate)]).map (fun σ => decide (σ.tables.manifests ≠ [])) = some true := by
    decide
  obtain ⟨σ, hrun, hmanifests⟩ := Option.map_eq_some_iff.mp hexec
  have hrun := Run.of_exec hrun
  exact ⟨σ, hrun, of_decide_eq_true hmanifests, activeChunkFiles_exist staleStore_atRest hrun⟩

/-- The build reuses the file that the purge is about to unlink. -/
theorem activeChunkFiles_lost :
    staleStore.AtRest ∧ ∃ σ, Run ChunkSystem.step (fun _ _ => True) staleStore racingBuild σ ∧
      ¬ σ.ActiveFilesExist := by
  have hlost : (Run.exec ChunkSystem.step (fun _ _ => True) staleStore racingBuild).map
      (fun σ => decide σ.ActiveFilesExist) = some false := by decide
  obtain ⟨σ, hexec, hfalse⟩ := Option.map_eq_some_iff.mp hlost
  exact ⟨staleStore_atRest, σ, .of_exec hexec, of_decide_eq_false hfalse⟩

end TalonHound.ChunkStore
