import TalonHound.Library.KeyedView
import TalonHound.PublishedFeed.BaseQuery

/-!
# The base projection

`published_feed_items` stores one row for each published identity of a feed under the
window `all`. A row is built from a row of the streaming query by `normalizeFeedLine`,
`projectionIdentityKey`, `projectionPartitionMetadata` and `projectionContentFingerprint`,
in the same way by the bootstrap and by the incremental refresh.
-/

namespace TalonHound

open KeyedTable

/-- `normalizeFeedLine`: the published text of an observable, or nothing. -/
def normalizeFeedLine (rt : Runtime) (observable : String) (lineType : Option FeedIocType) :
    Option String :=
  let value := trim observable
  if value = "" then none
  else
    match lineType with
    | some .ip => if isPrivateOrReservedIp value then none else some value
    | some .domain => some (rt.lower value)
    | some .hash => some (rt.lower value)
    | some .url => some value
    | none => some value

/-- The line rules of a row: the single type of the feed, or the category of the row. -/
def lineTypeFor (formatTypes : List FeedIocType) (type : ObservableType) : Option FeedIocType :=
  match normalizeFeedIocTypes formatTypes with
  | some [single] => some single
  | some types =>
    match feedCategoryForObservableType type with
    | some category => some category
    | none => types.head?
  | none => feedCategoryForObservableType type

/-- The format types a generation passes on: all four in query mode. -/
def formatTypesFor (feed : Feed) : List FeedIocType :=
  match resolveFeedFilterMode feed with
  | .query => [.ip, .domain, .url, .hash]
  | .basic => resolveFeedIocTypes feed

/-- A row of `published_feed_items` under the base window. -/
structure ProjectionRow where
  identityKey : IdentityKey
  iocItemId : ℕ
  observable : String
  observableType : ObservableType
  recencyTs : ℤ
  confidence : String
  category : Option String
  txtValue : String
  itemJson : Option String
  contentFingerprint : String
  partitionIdentity : IdentityKey
  chunkKey : Option ℕ
  deriving DecidableEq

/-- The rows of one feed under the base window; the identity key is the primary key. -/
abbrev Projection := KeyedTable ProjectionRow.identityKey

/-- `projectionIdentityKey` of an observable. -/
def projectionIdentityKey (rt : Runtime) (observable : String) (type : ObservableType) :
    IdentityKey :=
  .observable type (rt.lower observable)

/-- `partitionIdentityForProjectionRow`: the identity the query supplied, without
trailing white space, or the typed value. -/
def partitionIdentityForProjectionRow (rt : Runtime) (supplied : Option IdentityKey)
    (observable : String) (type : ObservableType) : IdentityKey :=
  match supplied with
  | some (.artifact id) => .artifact id
  | some (.observable type value) =>
    .observable type (String.ofList (value.toList.reverse.dropWhile isJsWhitespace).reverse)
  | none => .observable type (rt.lower (trim observable))

/-- `publishedFeedChunkKey`: the low bits of the digest. -/
def publishedFeedChunkKey (rt : Runtime) (identity : IdentityKey) (chunkCount : ChunkCount) : ℕ :=
  rt.partitionDigest identity % chunkCount.count

/-- The structured item of a row, as the metadata at hand renders it. -/
abbrev ItemJson := StreamRow → String → Option String

/-- The projection row of a streaming row, unless its line is dropped. -/
def buildProjectionRow (rt : Runtime) (feed : Feed) (itemJson : ItemJson) (row : StreamRow) :
    Option ProjectionRow := do
  let value ← normalizeFeedLine rt row.observable
    (lineTypeFor (formatTypesFor feed) row.observableType)
  let item := itemJson row value
  let partition :=
    partitionIdentityForProjectionRow rt row.partitionIdentity value row.observableType
  return {
    identityKey := projectionIdentityKey rt value row.observableType
    iocItemId := row.id
    observable := value
    observableType := row.observableType
    recencyTs := row.recencyTs
    confidence := row.confidence
    category := row.category
    txtValue := value
    itemJson := item
    contentFingerprint := rt.contentDigest value item
    partitionIdentity := partition
    chunkKey := feed.chunkCount.map (publishedFeedChunkKey rt partition) }

/-- The conflict clause of `upsertProjectionBatch`: whether a stored row is overwritten. -/
def rewrites (stored row : ProjectionRow) : Bool :=
  stored.contentFingerprint != row.contentFingerprint || stored.iocItemId != row.iocItemId ||
    stored.recencyTs != row.recencyTs || stored.txtValue != row.txtValue ||
    stored.partitionIdentity != row.partitionIdentity || stored.chunkKey != row.chunkKey

/-- `PROJECTION_UPSERT_MAX_ROWS`. -/
def projectionUpsertMaxRows : ℕ := 4000

/-- The rows a full evaluation of the feed gives: the unrestricted base query under the
window `all`, row by row. -/
def fullEvaluation (rt : Runtime) (feed : Feed) (itemJson : ItemJson) (now : ℤ) (db : Db) :
    List ProjectionRow :=
  (buildStreamingBase rt feed .all now db fun _ => true).filterMap
    (buildProjectionRow rt feed itemJson)

/-- The rows a generation scans: all of the base query, or its first `rowLimit` rows when
the feed is capped. -/
def scannedRows (rt : Runtime) (feed : Feed) (now : ℤ) (db : Db) (rowLimit : Option ℕ) :
    List StreamRow :=
  let rows := buildStreamingBase rt feed .all now db fun _ => true
  match rowLimit with
  | some limit => rows.take limit
  | none => rows

/-- The bootstrap: `generateFeedArtifact` fills a cleared projection page by page. -/
def bootstrapProjection (rt : Runtime) (feed : Feed) (itemJson : ItemJson) (now : ℤ) (db : Db)
    (rowLimit : Option ℕ) : Except UpsertError Projection :=
  empty.upsertBatches rewrites
    ((inBatches rt.cursorBatch (scannedRows rt feed now db rowLimit)).flatMap fun page =>
      inBatches projectionUpsertMaxRows (page.filterMap (buildProjectionRow rt feed itemJson)))

/-- The pages together hold every row built from the scan. -/
theorem flatten_bootstrapBatches {n m : ℕ} (hn : 0 < n) (hm : 0 < m)
    (build : StreamRow → Option ProjectionRow) (rows : List StreamRow) :
    ((inBatches n rows).flatMap fun page => inBatches m (page.filterMap build)).flatten =
      rows.filterMap build := by
  have hpages : ∀ pages : List (List StreamRow),
      (pages.flatMap fun page => inBatches m (page.filterMap build)).flatten =
        pages.flatten.filterMap build := by
    intro pages
    induction pages with
    | nil => rfl
    | cons page pages ih =>
      rw [List.flatMap_cons, List.flatten_append, flatten_inBatches hm, ih, List.flatten_cons,
        List.filterMap_append]
  rw [hpages, flatten_inBatches hn]

variable {rt : Runtime} {feed : Feed} {itemJson : ItemJson} {row : StreamRow} {r : ProjectionRow}

/-- The columns of a built row that do not depend on the structured item. -/
theorem buildProjectionRow_eq_some (h : buildProjectionRow rt feed itemJson row = some r) :
    normalizeFeedLine rt row.observable
        (lineTypeFor (formatTypesFor feed) row.observableType) = some r.txtValue ∧
      r.identityKey = projectionIdentityKey rt r.txtValue row.observableType ∧
      r.iocItemId = row.id ∧ r.observable = r.txtValue ∧ r.observableType = row.observableType ∧
      r.recencyTs = row.recencyTs ∧ r.confidence = row.confidence ∧
      r.partitionIdentity = partitionIdentityForProjectionRow rt row.partitionIdentity
        r.txtValue row.observableType := by
  simp only [buildProjectionRow, bind, Option.bind_eq_some_iff, pure, Option.some.injEq] at h
  obtain ⟨value, hvalue, rfl⟩ := h
  exact ⟨hvalue, rfl, rfl, rfl, rfl, rfl, rfl, rfl⟩

/-- Whether a line is published at all does not depend on the structured item. -/
theorem buildProjectionRow_isSome (itemJson : ItemJson) (row : StreamRow) :
    (buildProjectionRow rt feed itemJson row).isSome =
      (normalizeFeedLine rt row.observable
        (lineTypeFor (formatTypesFor feed) row.observableType)).isSome := by
  unfold buildProjectionRow
  cases normalizeFeedLine rt row.observable
    (lineTypeFor (formatTypesFor feed) row.observableType) <;> rfl

/-- The published text folds to the trimmed observable. -/
theorem lower_of_normalizeFeedLine {observable value : String} {lineType : Option FeedIocType}
    (h : normalizeFeedLine rt observable lineType = some value) :
    rt.lower value = rt.lower (trim observable) := by
  simp only [normalizeFeedLine] at h
  split at h
  · cases h
  · split at h
    · split at h
      · cases h
      · rw [← Option.some.inj h]
    all_goals rw [← Option.some.inj h]
    all_goals simp

end TalonHound
