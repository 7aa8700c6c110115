import TalonHound.PublishedFeed.ChunkGeneration

/-!
# What a pass over the cursor writes

The cursor reads the rows of the listed chunks in an order that depends only on which rows
they are. The pass writes, for each format and each listed chunk with an item, one chunk
with the items of its rows.
-/

namespace TalonHound

open List KeyedTable

/-- The visible rows of a chunk, in the order of the cursor. -/
def chunkRows (rt : Runtime) (rows : List ProjectionRow) (key : ℕ) : List ProjectionRow :=
  (rows.filter fun r => decide (r.chunkKey = some key)).insertionSort
    fun a b => chunkRowKey rt a ≤ chunkRowKey rt b

/-- What a row adds to a format, if it can be serialized. -/
def emitted (ser : Serializers) (format : FeedFormat) (row : ProjectionRow) : Option String :=
  match itemFor ser row format with
  | .ok item => item
  | .error _ => none

/-- The items of some rows in a format. -/
def emittedItems (ser : Serializers) (format : FeedFormat) (rows : List ProjectionRow) :
    List String :=
  rows.filterMap (emitted ser format)

/-- A row can be written in all formats. -/
def Renders (ser : Serializers) (formats : List FeedFormat) (row : ProjectionRow) : Prop :=
  ∀ format ∈ formats, ∃ item, itemFor ser row format = .ok item

variable {rt : Runtime} {ser : Serializers} {formats : List FeedFormat} {rows : List ProjectionRow}
  {keys : List ℕ} {format : FeedFormat} {key : ℕ}

/-- The order tells identity keys apart. -/
theorem identityKeyOrder_injective : Function.Injective identityKeyOrder := by
  intro a b h
  cases a with
  | artifact x =>
    cases b with
    | artifact y =>
      simp only [identityKeyOrder, toLex_inj, Prod.mk.injEq] at h
      rw [h.2.2.2]
    | observable type value =>
      simp only [identityKeyOrder, toLex_inj, Prod.mk.injEq] at h
      exact absurd h.1 (by decide)
  | observable type value =>
    cases b with
    | artifact y =>
      simp only [identityKeyOrder, toLex_inj, Prod.mk.injEq] at h
      exact absurd h.1 (by decide)
    | observable type' value' =>
      simp only [identityKeyOrder, toLex_inj, Prod.mk.injEq, true_and] at h
      obtain ⟨hname, hindex, rfl⟩ := h
      have htype : type = type' := by
        cases type <;> cases type' <;> simp_all [identityKeyOrder.typeName]
      rw [htype]

/-- Rows of one projection that sort alike are the same row. -/
theorem eq_of_chunkRowKey_eq (hkeyed : (rows.map ProjectionRow.identityKey).Nodup)
    {a b : ProjectionRow} (ha : a ∈ rows) (hb : b ∈ rows)
    (h : chunkRowKey rt a = chunkRowKey rt b) : a = b := by
  simp only [chunkRowKey, toLex_inj, Prod.mk.injEq] at h
  exact inj_on_of_nodup_map hkeyed ha hb (identityKeyOrder_injective h.2.2.2)

variable {r row : ProjectionRow} {slots slots' : ChunkSlots}

theorem mem_chunkRows : r ∈ chunkRows rt rows key ↔ r ∈ rows ∧ r.chunkKey = some key := by
  rw [chunkRows, (perm_insertionSort _ _).mem_iff]
  simp

theorem pairwise_chunkRows : (chunkRows rt rows key).Pairwise
    fun a b => chunkRowKey rt a ≤ chunkRowKey rt b :=
  pairwise_insertionSort _ _

section

variable (hkeyed : (rows.map ProjectionRow.identityKey).Nodup)

include hkeyed

theorem nodup_chunkRows : (chunkRows rt rows key).Nodup :=
  (perm_insertionSort _ _).nodup_iff.mpr ((hkeyed.of_map _).filter _)

/-- Sorted rows of one chunk are determined by which rows they are. -/
theorem chunkRows_unique {sorted : List ProjectionRow} (hnodup : sorted.Nodup)
    (hsorted : sorted.Pairwise fun a b => chunkRowKey rt a ≤ chunkRowKey rt b)
    (hmem : ∀ r, r ∈ sorted ↔ r ∈ rows ∧ r.chunkKey = some key) :
    sorted = chunkRows rt rows key := by
  refine List.Perm.eq_of_pairwise ?_ hsorted pairwise_chunkRows ?_
  · intro a b ha hb hab hba
    exact eq_of_chunkRowKey_eq hkeyed ((hmem a).mp ha).1 (mem_chunkRows.mp hb).1
      (le_antisymm hab hba)
  · refine (perm_ext_iff_of_nodup hnodup (nodup_chunkRows hkeyed)).mpr fun r => ?_
    rw [hmem, mem_chunkRows]

/-- A chunk with the same rows in two projections is read in the same order from both. -/
theorem chunkRows_congr {rows' : List ProjectionRow}
    (hkeyed' : (rows'.map ProjectionRow.identityKey).Nodup)
    (h : ∀ r : ProjectionRow, r.chunkKey = some key → (r ∈ rows' ↔ r ∈ rows)) :
    chunkRows rt rows' key = chunkRows rt rows key := by
  refine chunkRows_unique hkeyed (nodup_chunkRows hkeyed') pairwise_chunkRows fun r => ?_
  rw [mem_chunkRows]
  exact and_congr_left (h r)

end

theorem mem_chunkCursor :
    r ∈ chunkCursor rt rows keys ↔ r ∈ rows ∧ ∃ k ∈ keys, r.chunkKey = some k := by
  rw [chunkCursor, (perm_insertionSort _ _).mem_iff, mem_filter]
  refine and_congr_right fun _ => ?_
  cases hkey : r.chunkKey <;> simp

/-- The cursor runs through the chunks by key. -/
theorem pairwise_chunkCursor : (chunkCursor rt rows keys).Pairwise
    fun a b => a.chunkKey.getD 0 ≤ b.chunkKey.getD 0 := by
  have hsorted : (chunkCursor rt rows keys).Pairwise fun a b =>
      chunkCursorKey rt a ≤ chunkCursorKey rt b := pairwise_insertionSort _ _
  refine hsorted.imp fun {a b} h => ?_
  simp only [chunkCursorKey, Prod.Lex.toLex_le_toLex] at h
  omega

/-- Under a listed key the cursor reads the rows of that chunk. -/
theorem bucket_chunkCursor (hkeyed : (rows.map ProjectionRow.identityKey).Nodup)
    (hkey : key ∈ keys) :
    Buckets.bucket (fun r : ProjectionRow => r.chunkKey.getD 0) (chunkCursor rt rows keys) key =
      chunkRows rt rows key := by
  have hnodup : (chunkCursor rt rows keys).Nodup :=
    (perm_insertionSort _ _).nodup_iff.mpr ((hkeyed.of_map _).filter _)
  refine chunkRows_unique hkeyed (hnodup.filter _) ?_ ?_
  · have hsorted : (chunkCursor rt rows keys).Pairwise fun a b =>
        chunkCursorKey rt a ≤ chunkCursorKey rt b := pairwise_insertionSort _ _
    refine (hsorted.filter _).imp_of_mem fun {a b} ha hb h => ?_
    have hakey := (Buckets.mem_bucket.mp ha).2
    have hbkey := (Buckets.mem_bucket.mp hb).2
    simp only [chunkCursorKey, Prod.Lex.toLex_le_toLex, hakey, hbkey, lt_irrefl, true_and,
      false_or] at h
    exact h
  · intro r
    rw [Buckets.mem_bucket, mem_chunkCursor]
    constructor
    · rintro ⟨⟨hr, k, hk, hchunk⟩, hgetD⟩
      rw [hchunk, Option.getD_some] at hgetD
      exact ⟨hr, hgetD ▸ hchunk⟩
    · rintro ⟨hr, hchunk⟩
      exact ⟨⟨hr, key, hkey, hchunk⟩, by rw [hchunk, Option.getD_some]⟩

theorem addProjectionRow_cons (slot : FeedFormat × List String) (rest : ChunkSlots)
    (row : ProjectionRow) : addProjectionRow ser (slot :: rest) row =
      ((itemFor ser row slot.1).map fun item => (slot.1, slot.2 ++ item.toList)) >>= fun first =>
        addProjectionRow ser rest row >>= fun others => .ok (first :: others) :=
  mapM_cons

/-- A row that was added gave each open writer what it emits. -/
theorem addProjectionRow_eq_ok (hok : addProjectionRow ser slots row = .ok slots') :
    slots' = slots.map fun slot => (slot.1, slot.2 ++ (emitted ser slot.1 row).toList) := by
  induction slots generalizing slots' with
  | nil => exact (Except.ok.inj hok).symm
  | cons slot rest ih =>
    rw [addProjectionRow_cons] at hok
    obtain ⟨first, hfirst, hok⟩ := eq_ok_of_bind hok
    obtain ⟨others, hothers, hok⟩ := eq_ok_of_bind hok
    obtain rfl := Except.ok.inj hok
    cases hitem : itemFor ser row slot.1 with
    | error e => simp [hitem, Except.map] at hfirst
    | ok item =>
      simp only [hitem, Except.map, Except.ok.injEq] at hfirst
      rw [map_cons, ih hothers, ← hfirst]
      simp only [emitted, hitem]

/-- A row that renders can be added. -/
theorem addProjectionRow_isOk (hrenders : Renders ser formats row)
    (hslots : ∀ slot ∈ slots, slot.1 ∈ formats) :
    ∃ slots', addProjectionRow ser slots row = .ok slots' := by
  induction slots with
  | nil => exact ⟨[], rfl⟩
  | cons slot rest ih =>
    obtain ⟨others, hothers⟩ := ih fun s hs => hslots s (.tail _ hs)
    obtain ⟨item, hitem⟩ := hrenders slot.1 (hslots slot mem_cons_self)
    refine ⟨(slot.1, slot.2 ++ item.toList) :: others, ?_⟩
    rw [addProjectionRow_cons, hitem, hothers]
    rfl

/-- A row that was added to writers of some formats renders in them. -/
theorem renders_of_addProjectionRow (hok : addProjectionRow ser slots row = .ok slots') :
    Renders ser (slots.map Prod.fst) row := by
  induction slots generalizing slots' with
  | nil =>
    nofun
  | cons slot rest ih =>
    rw [addProjectionRow_cons] at hok
    obtain ⟨first, hfirst, hok⟩ := eq_ok_of_bind hok
    obtain ⟨others, hothers, -⟩ := eq_ok_of_bind hok
    intro format hformat
    rcases mem_cons.mp hformat with rfl | hformat
    · exact exists_ok_of_map hfirst
    · exact ih hothers format hformat

/-- The writers of a chunk after its rows. -/
theorem fill_eq_ok (hok : Buckets.fill (addProjectionRow ser) slots rows = .ok slots') :
    slots' = slots.map fun slot => (slot.1, slot.2 ++ emittedItems ser slot.1 rows) := by
  induction rows generalizing slots with
  | nil =>
    obtain rfl := Except.ok.inj hok
    simp [emittedItems]
  | cons r rest ih =>
    rw [Buckets.fill] at hok
    split at hok
    · cases hok
    · next next_ hadd =>
      rw [ih hok, addProjectionRow_eq_ok hadd, map_map]
      refine map_congr_left fun slot _ => ?_
      simp only [Function.comp_apply, emittedItems, filterMap_cons, append_assoc]
      cases emitted ser slot.1 r <;> rfl

theorem emitted_ne {item : String} (h : emitted ser format row = some item) : item ≠ "" := by
  unfold emitted itemFor at h
  cases format with
  | txt =>
    cases h
    intro hempty
    have hlength := congrArg String.length hempty
    rw [String.length_append] at hlength
    simp at hlength
  | json =>
    cases hjson : row.itemJson with
    | none => simp [hjson] at h
    | some text =>
      simp only [hjson, Option.some.injEq] at h
      exact h ▸ ser.json_ne text
  | stix =>
    cases hjson : row.itemJson with
    | none => simp [hjson] at h
    | some text =>
      simp only [hjson] at h
      exact ser.stix_ne text item h

/-- A fragment is empty exactly if it has no item. -/
theorem fragmentLength_eq_zero_iff : fragmentLength format (emittedItems ser format rows) = 0 ↔
      emittedItems ser format rows = [] := by
  constructor
  · intro hlength
    by_contra hne
    obtain ⟨item, hitem⟩ := exists_mem_of_ne_nil _ hne
    have hpos : item.utf8ByteSize ≠ 0 := by
      obtain ⟨r, -, hr⟩ := mem_filterMap.mp hitem
      rw [Ne, String.utf8ByteSize_eq_zero_iff]
      exact emitted_ne hr
    have hsum : ((emittedItems ser format rows).map String.utf8ByteSize).sum = 0 := by
      unfold fragmentLength at hlength
      omega
    exact hpos (List.sum_eq_zero_iff_forall_eq_nat.mp hsum _ (List.mem_map_of_mem hitem))
  · intro hnil
    rw [hnil]
    cases format <;> rfl

/-- Filling the writers of some formats shows that the rows render in them. -/
theorem renders_of_fill (hslots : slots.map Prod.fst = formats)
    (hok : Buckets.fill (addProjectionRow ser) slots rows = .ok slots') :
    ∀ r ∈ rows, Renders ser formats r := by
  induction rows generalizing slots with
  | nil =>
    intro r hr
    cases hr
  | cons a rest ih =>
    rw [Buckets.fill] at hok
    split at hok
    · cases hok
    · next slots₁ hadd =>
      have hslots₁ : slots₁.map Prod.fst = formats := by
        rw [addProjectionRow_eq_ok hadd, map_map, ← hslots]
        rfl
      intro r hr
      rcases mem_cons.mp hr with rfl | hr
      · exact hslots ▸ renders_of_addProjectionRow hadd
      · exact ih hslots₁ hok r hr

theorem mem_finishChunkWriters {c : ChunkFile} :
    c ∈ finishChunkWriters key (formats.map fun f => (f, emittedItems ser f rows)) ↔
      c.format ∈ formats ∧ c.chunkKey = key ∧ c.items = emittedItems ser c.format rows ∧
        c.items ≠ [] := by
  simp only [finishChunkWriters, mem_filterMap, mem_map]
  constructor
  · rintro ⟨slot, ⟨f, hf, rfl⟩, hc⟩
    split at hc
    · cases hc
    · next hne =>
      rw [fragmentLength_eq_zero_iff] at hne
      cases hc
      exact ⟨hf, rfl, rfl, hne⟩
  · rintro ⟨hf, rfl, hitems, hne⟩
    refine ⟨(c.format, emittedItems ser c.format rows), ⟨c.format, hf, rfl⟩, ?_⟩
    rw [hitems] at hne
    simp only [fragmentLength_eq_zero_iff, if_neg hne, Option.some.injEq]
    rw [← hitems]

/-- The writers of a listed chunk after the pass. -/
theorem fill_chunkCursor (hkeyed : (rows.map ProjectionRow.identityKey).Nodup)
    (hkey : key ∈ keys) {slots : ChunkSlots}
    (hfill : Buckets.fill (addProjectionRow ser) (openChunkWriters formats)
      (Buckets.bucket (fun r : ProjectionRow => r.chunkKey.getD 0) (chunkCursor rt rows keys)
        key) = .ok slots) :
    slots = formats.map fun f => (f, emittedItems ser f (chunkRows rt rows key)) := by
  rw [bucket_chunkCursor hkeyed hkey] at hfill
  rw [fill_eq_ok hfill, openChunkWriters, map_map]
  exact map_congr_left fun f _ => by simp

/-- The keys of the rows of the cursor are listed. -/
theorem mem_keys_of_mem_chunkCursor
    (hkey : key ∈ (chunkCursor rt rows keys).map fun r => r.chunkKey.getD 0) : key ∈ keys := by
  obtain ⟨r, hr, rfl⟩ := mem_map.mp hkey
  obtain ⟨-, k, hk, hchunk⟩ := mem_chunkCursor.mp hr
  rwa [hchunk, Option.getD_some]

/-- The chunks a pass writes: for each format and each listed key with an item, one. -/
theorem mem_generateChunkFiles (hkeyed : (rows.map ProjectionRow.identityKey).Nodup)
    {chunks : List ChunkFile} (hok : generateChunkFiles rt ser formats rows keys = .ok chunks)
    {c : ChunkFile} : c ∈ chunks ↔ c.format ∈ formats ∧ c.chunkKey ∈ keys ∧
      c.items = emittedItems ser c.format (chunkRows rt rows c.chunkKey) ∧ c.items ≠ [] := by
  rw [Buckets.mem_writeBuckets pairwise_chunkCursor hok]
  constructor
  · rintro ⟨k, hk, slots, hfill, hc⟩
    have hlisted := mem_keys_of_mem_chunkCursor hk
    rw [fill_chunkCursor hkeyed hlisted hfill, mem_finishChunkWriters] at hc
    obtain ⟨hformat, rfl, hitems, hne⟩ := hc
    exact ⟨hformat, hlisted, hitems, hne⟩
  · rintro ⟨hformat, hlisted, hitems, hne⟩
    have hrow : ∃ r, r ∈ chunkRows rt rows c.chunkKey := by
      refine exists_mem_of_ne_nil _ fun hnil => hne ?_
      rw [hitems, hnil]
      rfl
    obtain ⟨r, hr⟩ := hrow
    obtain ⟨hr, hchunk⟩ := mem_chunkRows.mp hr
    have hk : c.chunkKey ∈ (chunkCursor rt rows keys).map fun r => r.chunkKey.getD 0 :=
      mem_map.mpr ⟨r, mem_chunkCursor.mpr ⟨hr, _, hlisted, hchunk⟩, by rw [hchunk]; rfl⟩
    obtain ⟨slots, hfill⟩ := Buckets.exists_fill_of_writeBuckets pairwise_chunkCursor hok hk
    refine ⟨_, hk, slots, hfill, ?_⟩
    rw [fill_chunkCursor hkeyed hlisted hfill, mem_finishChunkWriters]
    exact ⟨hformat, rfl, hitems, hne⟩

/-- A pass over rows that all render succeeds. -/
theorem generateChunkFiles_isOk
    (hrenders : ∀ r ∈ chunkCursor rt rows keys, Renders ser formats r) :
    ∃ chunks, generateChunkFiles rt ser formats rows keys = .ok chunks := by
  have hopen : ∀ _ : ℕ, (openChunkWriters formats).map Prod.fst = formats := fun _ => by
    simp [openChunkWriters, Function.comp_def]
  refine Buckets.writeBuckets_isOk (fun slots => slots.map Prod.fst = formats) hopen
    fun r hr slots hslots => ?_
  obtain ⟨slots', hadd⟩ := addProjectionRow_isOk (hrenders r hr) fun slot hslot =>
    hslots ▸ mem_map_of_mem hslot
  refine ⟨slots', hadd, ?_⟩
  rw [addProjectionRow_eq_ok hadd, map_map, ← hslots]
  rfl

/-- A pass that succeeds shows that the rows of the listed chunks render. -/
theorem renders_of_generateChunkFiles {chunks : List ChunkFile}
    (hok : generateChunkFiles rt ser formats rows keys = .ok chunks) (hr : r ∈ rows)
    (hkey : key ∈ keys) (hchunk : r.chunkKey = some key) : Renders ser formats r := by
  have hcursor : r ∈ chunkCursor rt rows keys := mem_chunkCursor.mpr ⟨hr, key, hkey, hchunk⟩
  have hk : key ∈ (chunkCursor rt rows keys).map fun r => r.chunkKey.getD 0 :=
    mem_map.mpr ⟨r, hcursor, by rw [hchunk]; rfl⟩
  obtain ⟨slots, hfill⟩ := Buckets.exists_fill_of_writeBuckets pairwise_chunkCursor hok hk
  have hopen : (openChunkWriters formats).map Prod.fst = formats := by
    simp [openChunkWriters, Function.comp_def]
  refine renders_of_fill hopen hfill r (Buckets.mem_bucket.mpr ⟨hcursor, ?_⟩)
  rw [hchunk, Option.getD_some]

end TalonHound
