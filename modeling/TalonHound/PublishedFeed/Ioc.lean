import TalonHound.PublishedFeed.Text

/-!
# IOC rows, feeds and their surroundings

The data the published-feed code reads: `ioc_items` with the tags and feed memberships
that the feed predicates join, the file-artifact tables, and the configuration of a
published feed. Timestamps are milliseconds, as the code compares them.
-/

namespace TalonHound

/-- The `observable_type` of an IOC row. -/
inductive ObservableType where
  | ip | ipv6 | domain | url | md5 | sha1 | sha256 | ssdeep | imphash | tlsh
  | other (name : String)
  deriving DecidableEq

/-- `FEED_IOC_TYPES`: the categories a feed can select. -/
inductive FeedIocType where
  | ip | domain | url | hash
  deriving DecidableEq

/-- `HASH_TYPES`. -/
def hashTypes : List ObservableType := [.md5, .sha1, .sha256, .ssdeep, .imphash, .tlsh]

/-- `observableTypesForFeedIocType`. -/
def observableTypesForFeedIocType : FeedIocType → List ObservableType
  | .ip => [.ip]
  | .domain => [.domain]
  | .url => [.url]
  | .hash => hashTypes

/-- `feedCategoryForObservableType`: the category whose line rules apply. -/
def feedCategoryForObservableType : ObservableType → Option FeedIocType
  | .ip => some .ip
  | .domain => some .domain
  | .url => some .url
  | .md5 | .sha1 | .sha256 | .ssdeep | .imphash | .tlsh => some .hash
  | .other name => if name = "file_hash" ∨ name = "hash" then some .hash else none
  | .ipv6 => none

/-- `normalizeFeedIocTypes`: refuses an empty list and duplicates, sorts the rest by
their position in `FEED_IOC_TYPES`. -/
def normalizeFeedIocTypes (raw : List FeedIocType) : Option (List FeedIocType) :=
  if raw = [] ∨ ¬ raw.Nodup then none
  else some ([.ip, .domain, .url, .hash].filter fun t => decide (t ∈ raw))

/-- `observableTypesForFeedIocTypes`. -/
def observableTypesForFeedIocTypes (types : List FeedIocType) : List ObservableType :=
  match normalizeFeedIocTypes types with
  | none => []
  | some types => types.flatMap observableTypesForFeedIocType

/-- `ioc_items.status`, by its check constraint. -/
inductive IocStatus where
  | active | expired | disabled | suppressed
  deriving DecidableEq

/-- A row of `ioc_tags` joined with its `tags` row. -/
structure Tag where
  name : String
  enabled : Bool
  deriving DecidableEq

/-- A row of `ioc_feed_memberships` joined with the key of its integration feed. -/
structure Membership where
  feedKey : String
  (active purged : Bool)
  deriving DecidableEq

/-- A row of `ioc_items` with the rows that the feed predicates join to it. -/
structure IocItem where
  id : ℕ
  observable : String
  observableType : ObservableType
  confidence : String
  category : Option String
  sourceName : String
  iocSourceId : Option ℕ
  (createdAt lastSeenAt : ℤ)
  lastSeenLog : Option ℤ
  status : IocStatus
  tags : List Tag
  memberships : List Membership
  deriving DecidableEq

/-- `COALESCE(last_seen_log, last_seen_at, created_at)`; `last_seen_at` is `NOT NULL`. -/
def IocItem.recencyTs (i : IocItem) : ℤ := i.lastSeenLog.getD i.lastSeenAt

/-- A row of `file_artifacts`. -/
structure FileArtifact where
  id : String
  merged : Bool
  mergedInto : Option String

/-- A row of `file_artifact_ioc_links`. -/
structure ArtifactLink where
  artifactId : String
  iocItemId : ℕ
  iocObservableType : ObservableType

/-- A row of `file_artifact_hashes` with `is_primary`. -/
structure PrimaryHash where
  artifactId : String
  hashType : ObservableType
  normalizedHashValue : String

/-- The tables a feed evaluation reads. -/
structure Db where
  iocItems : List IocItem
  fileArtifacts : List FileArtifact
  artifactLinks : List ArtifactLink
  primaryHashes : List PrimaryHash
  /-- The ids of `ioc_items` come from one sequence. -/
  ids_nodup : (iocItems.map IocItem.id).Nodup
  /-- A link references an IOC row by type and id. -/
  links_reference : ∀ l ∈ artifactLinks, ∃ i ∈ iocItems,
    i.id = l.iocItemId ∧ i.observableType = l.iocObservableType

/-- An id names one row. -/
theorem Db.eq_of_id_eq (db : Db) {i j : IocItem} (hi : i ∈ db.iocItems) (hj : j ∈ db.iocItems)
    (hid : i.id = j.id) : i = j :=
  List.inj_on_of_nodup_map db.ids_nodup hi hj hid

/-- The output formats of a feed. -/
inductive FeedFormat where
  | txt | json | stix
  deriving DecidableEq

/-- `VALID_FEED_WINDOWS`. -/
inductive FeedWindow where
  | d1 | d3 | d7 | all
  deriving DecidableEq

/-- `FEED_FILTER_MODES`. -/
inductive FilterMode where
  | basic | query
  deriving DecidableEq

/-- An entry of `include_feed_keys`, told apart by its prefix. -/
inductive FeedKey where
  | custom (key : String)
  | manual (sourceId : Option ℕ)
  | integration (key : String)
  deriving DecidableEq

/-- A chunk count the database accepts: a power of two from 64 to 512. -/
structure ChunkCount where
  count : ℕ
  valid : count = 64 ∨ count = 128 ∨ count = 256 ∨ count = 512

/-- The least of them. -/
def ChunkCount.least : ChunkCount := ⟨64, Or.inl rfl⟩

/-- The configuration of a published feed. -/
structure Feed where
  iocTypes : List FeedIocType
  iocType : Option FeedIocType
  filterMode : FilterMode
  advancedQuery : Option String
  timeWindow : FeedWindow
  minConfidence : Option ℤ
  includeFeedKeys : List FeedKey
  (includeTags excludeTags : List String)
  (excludeFalsePositive excludeExpired : Bool)
  maxItems : Option ℕ
  formats : List FeedFormat
  (includeSourceMetadata includeClassification includeEnrichment : Bool)
  chunkCount : Option ChunkCount

/-- The partition identity of a projection row: a file artifact, or a typed value. -/
inductive IdentityKey where
  | artifact (id : String)
  | observable (type : ObservableType) (value : String)
  deriving DecidableEq

/-- What the feed code takes from its surroundings: the case folding of the database and
of the host, the compiled Advanced Query, the digests, and the deployment flags. -/
structure Runtime where
  /-- `lower(text)` in SQL and `toLowerCase()` in the host. -/
  lower : String → String
  /-- Folding twice changes nothing more. -/
  lower_lower : ∀ s, lower (lower s) = lower s
  /-- Only the empty text folds like the empty text. -/
  lower_empty : ∀ s, lower s = lower "" → s = ""
  /-- Folding changes letters only, so it keeps addresses apart. -/
  lower_private : ∀ s v, lower s = lower v → isPrivateOrReservedIp s = isPrivateOrReservedIp v
  /-- The predicate that `parseSearchQuery` and `buildWhereClause` compile. -/
  matchesQuery : String → IocItem → Bool
  /-- The first 32 bits of the SHA-256 of a partition identity. -/
  partitionDigest : IdentityKey → ℕ
  /-- The SHA-256 of a published value and its structured item. -/
  contentDigest : String → Option String → String
  (fileArtifactsReadEnabled slidingWindowIncrementalEnabled : Bool)
  /-- `DIRTY_BATCH`, clamped by the code to 100..4000. -/
  dirtyBatch : ℕ
  dirtyBatch_pos : 0 < dirtyBatch
  /-- `CURSOR_BATCH`, at least 100. -/
  cursorBatch : ℕ
  cursorBatch_pos : 0 < cursorBatch

attribute [simp] Runtime.lower_lower

/-- `resolveFeedIocTypes`: the type list, or the legacy scalar. -/
def resolveFeedIocTypes (feed : Feed) : List FeedIocType :=
  match normalizeFeedIocTypes feed.iocTypes with
  | some types => types
  | none =>
    match feed.iocType with
    | some type => [type]
    | none => []

/-- `resolveFeedFilterMode`: query mode needs a query that is not blank. -/
def resolveFeedFilterMode (feed : Feed) : FilterMode :=
  match feed.filterMode, feed.advancedQuery with
  | .query, some query => if trim query = "" then .basic else .query
  | _, _ => .basic

/-- `shouldCanonicalizePublishedHashFeed`. -/
def shouldCanonicalizePublishedHashFeed (rt : Runtime) (feed : Feed) : Bool :=
  rt.fileArtifactsReadEnabled && resolveFeedFilterMode feed != .query &&
    (resolveFeedIocTypes feed).contains .hash

/-- Surroundings for data that is in lower case already, with canonical hash feeds. -/
def plainRuntime : Runtime where
  lower := id
  lower_lower _ := rfl
  lower_empty _ h := h
  lower_private _ _ h := congrArg isPrivateOrReservedIp h
  matchesQuery _ _ := false
  partitionDigest
    | .artifact id => id.length
    | .observable _ value => value.length
  contentDigest value item := value ++ item.getD ""
  fileArtifactsReadEnabled := true
  slidingWindowIncrementalEnabled := true
  dirtyBatch := 4000
  dirtyBatch_pos := by decide
  cursorBatch := 5000
  cursorBatch_pos := by decide

/-- An active row without tags or memberships, last seen at `seen`. -/
def plainIoc (id : ℕ) (type : ObservableType) (observable : String) (seen : ℤ) : IocItem :=
  ⟨id, observable, type, "high", none, "manual", none, 0, seen, none, .active, [], []⟩

/-- A Basic text feed of the given types without further filters. -/
def plainFeed (types : List FeedIocType) : Feed :=
  ⟨types, none, .basic, none, .all, none, [], [], [], true, true, none, [.txt], true, true, false,
    none⟩

/-- A database of IOC rows without file artifacts. -/
def plainDb (iocItems : List IocItem) (h : (iocItems.map IocItem.id).Nodup) : Db where
  iocItems := iocItems
  fileArtifacts := []
  artifactLinks := []
  primaryHashes := []
  ids_nodup := h
  links_reference _ hl := absurd hl List.not_mem_nil

end TalonHound
