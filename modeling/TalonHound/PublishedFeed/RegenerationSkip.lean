import Mathlib.Data.Finset.Card
import TalonHound.Library.Greatest
import TalonHound.PublishedFeed.FullGeneration

/-!
# Skipping a regeneration

Outside the incremental path a tick regenerates a window unless a digest of its inputs is
the one stored with the snapshots: the watermark of the partitions, or the export
fingerprint of the matching rows. Digests are taken as what they digest. The section says
what each digest does not see, and that a skip is sound when what it does not see is unchanged
too: the settings, the rows that match with their files, and their items.
-/

namespace TalonHound

open List Greatest

/-- The keys of the payload that depend on the formats; a plain text feed has none. -/
inductive FormatKeys where
  | plain
  | jsonOnly (flags : JsonIncludeFlags)
  | several (formats : List FeedFormat) (flags : Option JsonIncludeFlags)
  deriving DecidableEq

/-- The keys of the payload that depend on the filter mode. -/
inductive BaseKeys where
  | query (advancedQuery : String)
  | basic (iocTypes : List FeedIocType) (window : FeedWindow) (minConfidence : Option ℤ)
      (includeFeedKeys : List FeedKey)
  deriving DecidableEq

/-- The payload that `filtersHash` digests. -/
structure FiltersPayload where
  filterMode : FilterMode
  formatKeys : FormatKeys
  baseKeys : BaseKeys
  (includeTags excludeTags : List String)
  (excludeFalsePositive excludeExpired : Bool)
  maxItems : Option ℕ
  artifactCanonical : Bool
  chunkCount : Option ℕ
  deriving DecidableEq

/-- The format keys of a feed. -/
def formatKeysOf (feed : Feed) : FormatKeys :=
  let formats := resolvePublishedFeedFormats feed
  if formats = [.txt] then .plain
  else if formats = [.json] then .jsonOnly (resolveJsonIncludeFlags feed)
  else .several formats
    (if formats.contains .json || formats.contains .stix then some (resolveJsonIncludeFlags feed)
      else none)

/-- `filtersHash`. -/
def filtersHash (rt : Runtime) (feed : Feed) (window : FeedWindow) : FiltersPayload where
  filterMode := resolveFeedFilterMode feed
  formatKeys := formatKeysOf feed
  baseKeys := match resolveFeedFilterMode feed with
    | .query => .query (trim (feed.advancedQuery.getD ""))
    | .basic => .basic (resolveFeedIocTypes feed) window feed.minConfidence feed.includeFeedKeys
  includeTags := feed.includeTags
  excludeTags := feed.excludeTags
  excludeFalsePositive := feed.excludeFalsePositive
  excludeExpired := feed.excludeExpired
  maxItems := feed.maxItems
  artifactCanonical := shouldCanonicalizePublishedHashFeed rt feed
  chunkCount := feed.chunkCount.map ChunkCount.count

/-- The watermark columns that are compared. -/
structure IocWatermark where
  maxId : ℕ
  maxTs : Option ℤ
  activeCount : ℕ
  deriving DecidableEq

/-- The active rows of a category. -/
def activeRows (db : Db) (type : FeedIocType) : List IocItem :=
  db.iocItems.filter fun i =>
    i.status == .active && (observableTypesForFeedIocType type).contains i.observableType

/-- One category added to the watermark: its newest row and its active rows. -/
def addCategory (db : Db) (w : IocWatermark) (type : FeedIocType) : IocWatermark :=
  let newest := (activeRows db type).argmax IocItem.id
  { maxId := max w.maxId ((newest.map IocItem.id).getD 0)
    maxTs := max w.maxTs (newest.map IocItem.recencyTs)
    activeCount := w.activeCount + (activeRows db type).length }

/-- `fetchCheapIocWatermark`. -/
def fetchCheapIocWatermark (feed : Feed) (db : Db) : IocWatermark :=
  (resolveFeedIocTypes feed).foldl (addCategory db) ⟨0, none, 0⟩

/-- `feedHasSourceFilters`. -/
def feedHasSourceFilters (feed : Feed) : Bool :=
  resolveFeedFilterMode feed == .query || !feed.includeFeedKeys.isEmpty ||
    !feed.includeTags.isEmpty || !feed.excludeTags.isEmpty || feed.minConfidence.isSome

/-- `exportFingerprintKey`. -/
structure ExportFingerprint where
  itemCount : ℕ
  maxRecency : Option ℤ
  filtersHash : FiltersPayload
  deriving DecidableEq

/-- `COUNT(DISTINCT column)`. -/
def countDistinct {α : Type} [DecidableEq α] (column : List α) : ℕ := column.dedup.length

section Fingerprint

variable (rt : Runtime) (window : FeedWindow) (s : GenerationState)

/-- The rows a fingerprint counts; with stale keys only, none. -/
def fingerprintRows : List IocItem :=
  if s.allKeysStale then [] else matchedItems rt s.feed window s.now s.db

/-- `fetchIocExportFingerprint`. -/
def fetchIocExportFingerprint : ExportFingerprint where
  itemCount := if shouldCanonicalizePublishedHashFeed rt s.feed then
      countDistinct ((fingerprintRows rt window s).map fun i => (annotate s.db i).identityKey rt)
    else countDistinct ((fingerprintRows rt window s).map (valueIdentity rt))
  maxRecency := ((fingerprintRows rt window s).map IocItem.recencyTs).max?
  filtersHash := filtersHash rt s.feed window

/-- `fetchQueryModeFingerprint`. -/
def fetchQueryModeFingerprint : ExportFingerprint where
  itemCount := countDistinct ((fingerprintRows rt window s).map (valueIdentity rt))
  maxRecency := ((fingerprintRows rt window s).map IocItem.recencyTs).max?
  filtersHash := filtersHash rt s.feed .all

/-- The fingerprint a tick compares. -/
def currentFingerprint : ExportFingerprint :=
  match resolveFeedFilterMode s.feed with
  | .query => fetchQueryModeFingerprint rt window s
  | .basic => fetchIocExportFingerprint rt window s

end Fingerprint

/-- A successful snapshot of one format, with the parameters stored with it. -/
structure FeedSnapshot where
  content : FeedContent
  filtersHash : FiltersPayload
  exportFingerprint : ExportFingerprint
  feedUpdatedAt : ℤ
  iocWatermark : Option IocWatermark
  generatedAt : ℤ

/-- `getCheapWatermark`: a forced generation takes none. -/
def getCheapWatermark (s : GenerationState) : Option IocWatermark :=
  if s.force then none else some (fetchCheapIocWatermark s.feed s.db)

/-- The state in which a snapshot was stored, and `generated_at`, which stays what it was
where a generation finds the content unchanged. -/
structure SnapshotOrigin where
  state : GenerationState
  generatedAt : ℤ

/-- The snapshot a generation stores for a format. -/
def snapshotOf (rt : Runtime) (host : GenerationHost) (window : FeedWindow) (format : FeedFormat)
    (o : SnapshotOrigin) : FeedSnapshot where
  content := regenerate rt host window o.state format
  filtersHash := filtersHash rt o.state.feed window
  exportFingerprint := currentFingerprint rt window o.state
  feedUpdatedAt := o.state.updatedAt
  iocWatermark := getCheapWatermark o.state
  generatedAt := o.generatedAt

/-- `canSkipPublishedFeedRegeneration`. -/
def canSkipPublishedFeedRegeneration (rt : Runtime) (window : FeedWindow) (s : GenerationState)
    (latestSnapshot : Option FeedSnapshot) : Bool :=
  match latestSnapshot with
  | none => false
  | some latest =>
    !s.force && latest.filtersHash == filtersHash rt s.feed window &&
      latest.feedUpdatedAt == s.updatedAt && !feedHasSourceFilters s.feed &&
      latest.iocWatermark == getCheapWatermark s &&
      !s.latestIntegrationFinishedAt.any (decide <| latest.generatedAt < ·)

/-- The check of a further format beside the watermark. -/
def sameConfig (rt : Runtime) (window : FeedWindow) (s : GenerationState)
    (latestSnapshot : Option FeedSnapshot) : Bool :=
  latestSnapshot.any fun latest =>
    latest.filtersHash == filtersHash rt s.feed window && latest.feedUpdatedAt == s.updatedAt

/-- `allFormatsMatchFingerprint`. -/
def allFormatsMatchFingerprint (rt : Runtime) (window : FeedWindow) (s : GenerationState)
    (latest : FeedFormat → Option FeedSnapshot) : Bool :=
  (resolvePublishedFeedFormats s.feed).all fun format => (latest format).any fun snapshot =>
    snapshot.filtersHash == filtersHash rt s.feed window &&
      snapshot.exportFingerprint == currentFingerprint rt window s

/-- Why a window is skipped. -/
inductive SkipReason where
  | unchangedWatermark | unchangedFingerprint
  deriving DecidableEq

/-- The decision of a tick for a window, before it generates. -/
def skipReason (rt : Runtime) (window : FeedWindow) (s : GenerationState)
    (latest : FeedFormat → Option FeedSnapshot) : Option SkipReason :=
  let formats := resolvePublishedFeedFormats s.feed
  if s.force then none
  else if canSkipPublishedFeedRegeneration rt window s (latest (formats.headD .txt)) &&
      formats.tail.all fun format => sameConfig rt window s (latest format) then
    some .unchangedWatermark
  else if allFormatsMatchFingerprint rt window s latest then some .unchangedFingerprint
  else none

/-- A skip is sound when every enabled format has a snapshot of the content that a
regeneration would give now. -/
def SkipSound (rt : Runtime) (host : GenerationHost) (window : FeedWindow) (s : GenerationState)
    (latest : FeedFormat → Option FeedSnapshot) : Prop :=
  skipReason rt window s latest ≠ none →
    ∀ format ∈ resolvePublishedFeedFormats s.feed, ∃ snapshot, latest format = some snapshot ∧
      snapshot.content = regenerate rt host window s format

/-- The active rows of all categories of a feed. -/
def selectedActive (s : GenerationState) : List IocItem :=
  (resolveFeedIocTypes s.feed).flatMap (activeRows s.db)

/-- The active row with the highest id of some category of the feed. -/
def NewestOfCategory (s : GenerationState) (i : IocItem) : Prop :=
  ∃ type ∈ resolveFeedIocTypes s.feed, i ∈ activeRows s.db type ∧
    ∀ j ∈ activeRows s.db type, j.id ≤ i.id

/-- The number of identities among the matching rows. -/
def identityCount (rt : Runtime) (window : FeedWindow) (s : GenerationState) : ℕ :=
  if shouldCanonicalizePublishedHashFeed rt s.feed then
    ((fingerprintRows rt window s).map fun i => (annotate s.db i).identityKey rt).toFinset.card
  else ((fingerprintRows rt window s).map (valueIdentity rt)).toFinset.card

/-- Nothing the watermark looks at has changed since a snapshot was generated: the settings,
the last edit, the number of active rows, their highest id, the recency of the newest row
of each category, and the imports. -/
structure WatermarkUnchanged (rt : Runtime) (window : FeedWindow) (o : SnapshotOrigin)
    (s : GenerationState) : Prop where
  not_forced : o.state.force = false
  settings : filtersHash rt o.state.feed window = filtersHash rt s.feed window
  updatedAt : o.state.updatedAt = s.updatedAt
  unfiltered : feedHasSourceFilters s.feed = false
  count : (selectedActive o.state).length = (selectedActive s).length
  newest : ∀ n, (∃ i ∈ selectedActive o.state, n < i.id) ↔ ∃ i ∈ selectedActive s, n < i.id
  recency : ∀ t, (∃ i, NewestOfCategory o.state i ∧ t ≤ i.recencyTs) ↔
    ∃ i, NewestOfCategory s i ∧ t ≤ i.recencyTs
  imports : ∀ t, s.latestIntegrationFinishedAt = some t → t ≤ o.generatedAt

/-- Nothing the fingerprint looks at has changed: the settings, the number of identities that
match, and the newest recency among the matching rows. -/
structure FingerprintUnchanged (rt : Runtime) (window : FeedWindow) (o s : GenerationState) :
    Prop where
  settings : filtersHash rt o.feed window = filtersHash rt s.feed window
  count : identityCount rt window o = identityCount rt window s
  recency : ∀ t, (∃ i ∈ fingerprintRows rt window o, t ≤ i.recencyTs) ↔
    ∃ i ∈ fingerprintRows rt window s, t ≤ i.recencyTs

variable {rt : Runtime} {host : GenerationHost} {window : FeedWindow} {o s : GenerationState}
  {db : Db}

/-- The id of the newest row exceeds what some row of the category exceeds. -/
theorem lt_newestId_iff {type : FeedIocType} {n : ℕ} :
    n < (((activeRows db type).argmax IocItem.id).map IocItem.id).getD 0 ↔
      ∃ i ∈ activeRows db type, n < i.id := by
  cases hnewest : (activeRows db type).argmax IocItem.id with
  | none =>
    have hempty : activeRows db type = [] := argmax_eq_none.mp hnewest
    simp [hempty]
  | some i =>
    have hmem : i ∈ activeRows db type := argmax_mem hnewest
    change n < i.id ↔ _
    constructor
    · intro hlt
      exact ⟨i, hmem, hlt⟩
    · rintro ⟨j, hj, hlt⟩
      have hle : j.id ≤ i.id := le_of_mem_argmax hj hnewest
      omega

/-- The newest row of a category is the one with the highest id. -/
theorem le_newestTs_iff {type : FeedIocType} {t : ℤ} :
    (∃ m ∈ ((activeRows db type).argmax IocItem.id).map IocItem.recencyTs, t ≤ m) ↔
      ∃ i ∈ activeRows db type, (∀ j ∈ activeRows db type, j.id ≤ i.id) ∧ t ≤ i.recencyTs := by
  cases hnewest : (activeRows db type).argmax IocItem.id with
  | none =>
    have hempty : activeRows db type = [] := argmax_eq_none.mp hnewest
    simp [hempty]
  | some i =>
    have hmem : i ∈ activeRows db type := argmax_mem hnewest
    have hle : ∀ j ∈ activeRows db type, j.id ≤ i.id := fun j hj =>
      le_of_mem_argmax hj hnewest
    simp only [Option.map_some, Option.mem_some_iff, exists_eq_left']
    constructor
    · intro ht
      exact ⟨i, hmem, hle, ht⟩
    · rintro ⟨j, hj, hnewest', ht⟩
      have hid : j.id = i.id := Nat.le_antisymm (hle j hj) (hnewest' i hmem)
      have hji := db.eq_of_id_eq (mem_filter.mp hj).1 (mem_filter.mp hmem).1 hid
      rwa [← hji]

section

variable (types : List FeedIocType) (w : IocWatermark)
include types w

/-- The loop over the categories counts their active rows. -/
theorem foldl_addCategory_activeCount : (types.foldl (addCategory db) w).activeCount =
      w.activeCount + (types.flatMap (activeRows db)).length := by
  induction types generalizing w with
  | nil => rfl
  | cons type types ih =>
    rw [foldl_cons, ih, flatMap_cons, length_append]
    simp only [addCategory]
    omega

/-- The loop over the categories keeps the highest id. -/
theorem lt_foldl_addCategory_maxId (n : ℕ) :
    n < (types.foldl (addCategory db) w).maxId ↔
      n < w.maxId ∨ ∃ i ∈ types.flatMap (activeRows db), n < i.id := by
  induction types generalizing w with
  | nil => simp
  | cons type types ih =>
    rw [foldl_cons, ih, flatMap_cons]
    simp only [addCategory, lt_max_iff, lt_newestId_iff, mem_append, or_and_right,
      exists_or, or_assoc]

/-- The loop over the categories keeps the latest recency of their newest rows. -/
theorem le_foldl_addCategory_maxTs (t : ℤ) :
    (∃ m ∈ (types.foldl (addCategory db) w).maxTs, t ≤ m) ↔
      (∃ m ∈ w.maxTs, t ≤ m) ∨ ∃ type ∈ types, ∃ i ∈ activeRows db type,
        (∀ j ∈ activeRows db type, j.id ≤ i.id) ∧ t ≤ i.recencyTs := by
  induction types generalizing w with
  | nil => simp
  | cons type types ih =>
    rw [foldl_cons, ih]
    simp only [addCategory, le_max_iff_of_option, le_newestTs_iff, mem_cons,
      exists_eq_or_imp, or_assoc]

end

/-- Two watermarks are equal exactly when nothing the watermark looks at differs. -/
theorem watermark_eq_iff : fetchCheapIocWatermark o.feed o.db = fetchCheapIocWatermark s.feed s.db ↔
      (selectedActive o).length = (selectedActive s).length ∧
      (∀ n, (∃ i ∈ selectedActive o, n < i.id) ↔ ∃ i ∈ selectedActive s, n < i.id) ∧
      ∀ t, (∃ i, NewestOfCategory o i ∧ t ≤ i.recencyTs) ↔
        ∃ i, NewestOfCategory s i ∧ t ≤ i.recencyTs := by
  have hcount : ∀ g : GenerationState,
      (fetchCheapIocWatermark g.feed g.db).activeCount = (selectedActive g).length := by
    intro g
    rw [fetchCheapIocWatermark, foldl_addCategory_activeCount, Nat.zero_add]
    rfl
  have hid : ∀ (g : GenerationState) n, n < (fetchCheapIocWatermark g.feed g.db).maxId ↔
      ∃ i ∈ selectedActive g, n < i.id := by
    intro g n
    rw [fetchCheapIocWatermark, lt_foldl_addCategory_maxId]
    simp only [Nat.not_lt_zero, false_or]
    rfl
  have hts : ∀ (g : GenerationState) t, (∃ m ∈ (fetchCheapIocWatermark g.feed g.db).maxTs, t ≤ m) ↔
        ∃ i, NewestOfCategory g i ∧ t ≤ i.recencyTs := by
    intro g t
    rw [fetchCheapIocWatermark, le_foldl_addCategory_maxTs]
    simp only [Option.not_mem_none, false_and, exists_false, false_or, NewestOfCategory]
    constructor
    · rintro ⟨type, htype, i, hi, hnewest, ht⟩
      exact ⟨i, ⟨type, htype, hi, hnewest⟩, ht⟩
    · rintro ⟨i, ⟨type, htype, hi, hnewest⟩, ht⟩
      exact ⟨type, htype, i, hi, hnewest, ht⟩
  have hext : fetchCheapIocWatermark o.feed o.db = fetchCheapIocWatermark s.feed s.db ↔
      (fetchCheapIocWatermark o.feed o.db).activeCount =
        (fetchCheapIocWatermark s.feed s.db).activeCount ∧
      (fetchCheapIocWatermark o.feed o.db).maxId = (fetchCheapIocWatermark s.feed s.db).maxId ∧
      (fetchCheapIocWatermark o.feed o.db).maxTs = (fetchCheapIocWatermark s.feed s.db).maxTs := by
    constructor
    · intro h
      rw [h]
      exact ⟨rfl, rfl, rfl⟩
    · rintro ⟨hactive, hmaxId, hmaxTs⟩
      cases hw : fetchCheapIocWatermark o.feed o.db
      cases hw' : fetchCheapIocWatermark s.feed s.db
      simp_all
  rw [hext, hcount, hcount, option_eq_iff]
  simp only [hts]
  refine and_congr_right fun _ => and_congr_left fun _ => ?_
  simp only [← hid]
  constructor
  · intro h n
    rw [h]
  · intro h
    have hge := (h (fetchCheapIocWatermark s.feed s.db).maxId).mp
    have hle := (h (fetchCheapIocWatermark o.feed o.db).maxId).mpr
    omega

/-- A query feed has one digest for all windows. -/
theorem filtersHash_query {feed : Feed} (h : resolveFeedFilterMode feed = .query)
    (window window' : FeedWindow) : filtersHash rt feed window = filtersHash rt feed window' := by
  simp only [filtersHash, h]

/-- Both modes count identities, keep the newest recency and digest the settings. -/
theorem currentFingerprint_eq : currentFingerprint rt window s =
      ⟨identityCount rt window s, ((fingerprintRows rt window s).map IocItem.recencyTs).max?,
        filtersHash rt s.feed window⟩ := by
  unfold currentFingerprint
  cases hmode : resolveFeedFilterMode s.feed with
  | query =>
    have hcanonical : shouldCanonicalizePublishedHashFeed rt s.feed = false := by
      simp [shouldCanonicalizePublishedHashFeed, hmode]
    simp only [fetchQueryModeFingerprint, identityCount, hcanonical, Bool.false_eq_true, if_false,
      countDistinct, card_toFinset]
    rw [filtersHash_query hmode .all window]
  | basic =>
    simp only [fetchIocExportFingerprint, identityCount, countDistinct, card_toFinset]

/-- The stored settings and fingerprint are the current ones exactly when nothing the
fingerprint looks at differs. -/
theorem fingerprintUnchanged_iff : FingerprintUnchanged rt window o s ↔
      filtersHash rt o.feed window = filtersHash rt s.feed window ∧
        currentFingerprint rt window o = currentFingerprint rt window s := by
  have hrecency : ((fingerprintRows rt window o).map IocItem.recencyTs).max? =
      ((fingerprintRows rt window s).map IocItem.recencyTs).max? ↔
      ∀ t, (∃ i ∈ fingerprintRows rt window o, t ≤ i.recencyTs) ↔
        ∃ i ∈ fingerprintRows rt window s, t ≤ i.recencyTs := by
    rw [max?_eq_iff]
    simp only [mem_map, exists_exists_and_eq_and]
  rw [currentFingerprint_eq, currentFingerprint_eq, ExportFingerprint.mk.injEq, hrecency]
  constructor
  · intro h
    exact ⟨h.settings, h.count, h.recency, h.settings⟩
  · rintro ⟨hsettings, hcount, hrows, _⟩
    exact ⟨hsettings, hcount, hrows⟩

/-- The snapshots stored by earlier generations, of each format the latest. -/
def storedSnapshots (rt : Runtime) (host : GenerationHost) (window : FeedWindow)
    (origin : FeedFormat → Option SnapshotOrigin) (format : FeedFormat) : Option FeedSnapshot :=
  (origin format).map (snapshotOf rt host window format)

/-- The watermark gives no reason to generate: it is unchanged since the first format was
generated, and the other formats were generated under the same settings. -/
def WatermarkBlind (rt : Runtime) (window : FeedWindow)
    (origin : FeedFormat → Option SnapshotOrigin) (s : GenerationState) : Prop :=
  (∃ o, origin ((resolvePublishedFeedFormats s.feed).headD .txt) = some o ∧
    WatermarkUnchanged rt window o s) ∧
  ∀ format ∈ (resolvePublishedFeedFormats s.feed).tail, ∃ o, origin format = some o ∧
    filtersHash rt o.state.feed window = filtersHash rt s.feed window ∧
      o.state.updatedAt = s.updatedAt

/-- The fingerprint gives no reason to generate any format. -/
def FingerprintBlind (rt : Runtime) (window : FeedWindow)
    (origin : FeedFormat → Option SnapshotOrigin) (s : GenerationState) : Prop :=
  ∀ format ∈ resolvePublishedFeedFormats s.feed, ∃ o, origin format = some o ∧
    FingerprintUnchanged rt window o.state s

/-- A generation of a format reads the same in two states: the settings, the rows that match
at the time, with their files, and the items of the rows the query returns. -/
structure SameReading (rt : Runtime) (window : FeedWindow) (format : FeedFormat)
    (o s : GenerationState) : Prop where
  settings : o.feed = s.feed
  header : headerOf o format = headerOf s format
  stale : o.allKeysStale = s.allKeysStale
  rows : matchedItems rt o.feed window o.now o.db = matchedItems rt s.feed window s.now s.db
  files : ∀ i ∈ matchedItems rt s.feed window s.now s.db, annotate o.db i = annotate s.db i
  items : ∀ r ∈ pickedRows rt window s, ∀ value, o.item r value = s.item r value

variable {origin : FeedFormat → Option SnapshotOrigin}

variable {format : FeedFormat}

/-- The query returns the same rows. -/
theorem SameReading.pickedRows_eq (h : SameReading rt window format o s) :
    pickedRows rt window o = pickedRows rt window s := by
  have hmatched : matchedRows rt s.feed window o.now o.db =
      matchedRows rt s.feed window s.now s.db := by
    have hrows := h.rows
    rw [h.settings] at hrows
    rw [matchedRows, matchedRows, hrows]
    exact map_congr_left h.files
  have hrows := h.rows
  rw [h.settings] at hrows
  simp only [pickedRows, h.stale, h.settings, hashWinners, valueWinners, hmatched, hrows]

/-- The items of the returned rows have the same texts, in every format. -/
theorem SameReading.render_eq (h : SameReading rt window format o s) {it : FeedItem}
    (hit : it.row ∈ pickedRows rt window s) (f : FeedFormat) :
    render host o f it = render host s f it := by
  cases f <;> simp only [render, h.items it.row hit]

/-- The same items are written. -/
theorem SameReading.feedItems_eq (h : SameReading rt window format o s) :
    feedItems rt host window o = feedItems rt host window s := by
  have hline : lineOf rt o = lineOf rt s := by
    funext row
    rw [lineOf, lineOf, h.settings]
  have hmax : genMax o host = genMax s host := by
    rw [genMax, genMax, h.settings]
  simp only [feedItems, fetchIocRows, h.pickedRows_eq, hline, hmax, h.settings]
  split
  · refine streamItems_congr fun it hit => ?_
    rw [h.render_eq (mem_orderOutput.mp hit)]
  · rfl

/-- A generation that reads the same gives the same content. -/
theorem SameReading.regenerate_eq (h : SameReading rt window format o s) :
    regenerate rt host window o format = regenerate rt host window s format := by
  have hentries : (feedItems rt host window s).filterMap (render host o format) =
      (feedItems rt host window s).filterMap (render host s format) :=
    filterMap_congr fun it hit => h.render_eq (row_mem_pickedRows hit) format
  rw [regenerate, regenerate, h.feedItems_eq, hentries, h.header]

/-- The watermark check passes exactly when nothing it looks at differs. -/
theorem canSkip_iff :
    canSkipPublishedFeedRegeneration rt window s (storedSnapshots rt host window origin format) =
        true ↔
      s.force = false ∧ ∃ o, origin format = some o ∧ WatermarkUnchanged rt window o s := by
  cases horigin : origin format with
  | none => simp [storedSnapshots, horigin, canSkipPublishedFeedRegeneration]
  | some o =>
    simp only [storedSnapshots, horigin, Option.map_some, canSkipPublishedFeedRegeneration,
      snapshotOf, getCheapWatermark, Bool.and_eq_true, Bool.not_eq_true', beq_iff_eq,
      Option.some.injEq, exists_eq_left']
    constructor
    · rintro ⟨⟨⟨⟨⟨hforce, hsettings⟩, hupdated⟩, hfilters⟩, hwatermark⟩, himports⟩
      rw [hforce] at hwatermark
      have hforced : o.state.force = false := by
        by_contra h
        simp [h] at hwatermark
      simp only [hforced, Bool.false_eq_true, if_false, Option.some.injEq] at hwatermark
      obtain ⟨hcount, hnewest, hrecency⟩ := watermark_eq_iff.mp hwatermark
      refine ⟨hforce, hforced, hsettings, hupdated, hfilters, hcount, hnewest, hrecency, ?_⟩
      intro t ht
      rw [ht] at himports
      simpa using himports
    · rintro ⟨hforce, h⟩
      refine ⟨⟨⟨⟨⟨hforce, h.settings⟩, h.updatedAt⟩, h.unfiltered⟩, ?_⟩, ?_⟩
      · rw [h.not_forced, hforce]
        simp only [Bool.false_eq_true, if_false, Option.some.injEq]
        exact watermark_eq_iff.mpr ⟨h.count, h.newest, h.recency⟩
      · cases hlatest : s.latestIntegrationFinishedAt with
        | none => rfl
        | some t =>
          have hle := h.imports t hlatest
          simpa using hle

theorem sameConfig_iff :
    sameConfig rt window s (storedSnapshots rt host window origin format) = true ↔
      ∃ o, origin format = some o ∧
        filtersHash rt o.state.feed window = filtersHash rt s.feed window ∧
          o.state.updatedAt = s.updatedAt := by
  cases horigin : origin format with
  | none => simp [storedSnapshots, horigin, sameConfig]
  | some o => simp [storedSnapshots, horigin, sameConfig, snapshotOf]

/-- The fingerprint check passes exactly when nothing it looks at differs. -/
theorem allFormatsMatch_iff :
    allFormatsMatchFingerprint rt window s (storedSnapshots rt host window origin) = true ↔
      FingerprintBlind rt window origin s := by
  simp only [allFormatsMatchFingerprint, all_eq_true, FingerprintBlind]
  refine forall₂_congr fun format _ => ?_
  cases horigin : origin format with
  | none => simp [storedSnapshots, horigin]
  | some o =>
    simp only [storedSnapshots, horigin, Option.map_some, Option.any_some, snapshotOf,
      Bool.and_eq_true, beq_iff_eq, Option.some.injEq, exists_eq_left', fingerprintUnchanged_iff]

/-- A window is skipped exactly when one of the digests sees no difference. -/
theorem skipReason_ne_none_iff :
    skipReason rt window s (storedSnapshots rt host window origin) ≠ none ↔
      s.force = false ∧ (WatermarkBlind rt window origin s ∨ FingerprintBlind rt window origin s) := by
  have hwatermark : (canSkipPublishedFeedRegeneration rt window s (storedSnapshots rt host window
        origin ((resolvePublishedFeedFormats s.feed).headD .txt)) &&
      (resolvePublishedFeedFormats s.feed).tail.all fun format =>
        sameConfig rt window s (storedSnapshots rt host window origin format)) = true ↔
      s.force = false ∧ WatermarkBlind rt window origin s := by
    rw [Bool.and_eq_true, canSkip_iff, all_eq_true, WatermarkBlind, and_assoc]
    simp only [sameConfig_iff]
  simp only [skipReason]
  cases hforce : s.force with
  | true => simp
  | false =>
    simp only [Bool.false_eq_true, if_false, true_and]
    split
    · next h => simp [(hwatermark.mp h).2]
    · next h =>
      have hblind : ¬ WatermarkBlind rt window origin s := fun hblind =>
        h (hwatermark.mpr ⟨hforce, hblind⟩)
      split
      · next hmatch => simp [allFormatsMatch_iff.mp hmatch]
      · next hmatch =>
        have hdiffers : ¬ FingerprintBlind rt window origin s := fun hblind =>
          hmatch (allFormatsMatch_iff.mpr hblind)
        simp [hblind, hdiffers]

/-- A deployment that streams. -/
def plainHost : GenerationHost where
  streamingEnabled := true
  exportMaxLimit := 100000
  collationKey := id
  numberOf _ := none
  serializers := plainSerializers

/-- A domain feed over the last seven days as it stands at a time. -/
def weekState (db : Db) (now : ℤ) : GenerationState where
  feed := { plainFeed [.domain] with timeWindow := .d7 }
  name := "week"
  slug := "week"
  updatedAt := 0
  allKeysStale := false
  db := db
  item _ value := value
  now := now
  latestIntegrationFinishedAt := none
  force := false

/-- Two domains, last seen six days apart. -/
def weekDb : Db :=
  plainDb [plainIoc 1 .domain "old.com" 0, plainIoc 2 .domain "new.com" (6 * dayMs)] (by decide)

end TalonHound
