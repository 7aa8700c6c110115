import TalonHound.PublishedFeed.ChunkGeneration

/-!
# Generation outside the incremental path

A feed that does not take the dirty path evaluates its whole query and writes every enabled
format anew: `generateFeedArtifact` streams the rows in the order of the query, and the
in-memory path selects its items with `selectFeedItems`. The content of a format is what
its `content_hash` digests: a header and the text of every item.
-/

namespace TalonHound

open DistinctOn

/-- The deployment and the host functions a generation uses. -/
structure GenerationHost where
  /-- `PUBLISHED_FEED_STREAMING_ENABLED`. -/
  streamingEnabled : Bool
  /-- `FEED_EXPORT_MAX_LIMIT`. -/
  exportMaxLimit : ℕ
  /-- The sort key of a text under `localeCompare`. -/
  collationKey : String → String
  /-- `Math.floor(Number(text))`, where that is a finite number. -/
  numberOf : String → Option ℤ
  serializers : Serializers

/-- What a generation of a feed reads. -/
structure GenerationState where
  feed : Feed
  (name slug : String)
  updatedAt : ℤ
  /-- The feed has source keys and none of them is known any more. -/
  allKeysStale : Bool
  db : Db
  /-- The structured item of a row and its value, with the metadata at hand. -/
  item : StreamRow → String → String
  now : ℤ
  latestIntegrationFinishedAt : Option ℤ
  force : Bool

/-- A published item with the row it comes from. -/
structure FeedItem where
  value : String
  row : StreamRow
  deriving DecidableEq

/-- The include flags of structured items. -/
structure JsonIncludeFlags where
  (includeSourceMetadata includeClassification includeEnrichment : Bool)
  deriving DecidableEq

/-- `resolveJsonIncludeFlags`. -/
def resolveJsonIncludeFlags (feed : Feed) : JsonIncludeFlags where
  includeSourceMetadata := feed.includeSourceMetadata
  includeClassification := feed.includeClassification
  includeEnrichment := feed.includeEnrichment

/-- What the hash of a format covers before the items. -/
inductive ContentHeader where
  | txt
  | json (name : String) (flags : JsonIncludeFlags)
  | stix (slug : String)
  deriving DecidableEq

/-- The content of a format, as its hash covers it. -/
structure FeedContent where
  header : ContentHeader
  entries : List String
  deriving DecidableEq

section Rows

variable (rt : Runtime) (window : FeedWindow) (s : GenerationState)

/-- The rows `DISTINCT ON` returns, before the outer order. -/
def pickedRows : List StreamRow :=
  if s.allKeysStale then []
  else if shouldCanonicalizePublishedHashFeed rt s.feed then
    (hashWinners rt s.feed window s.now s.db fun _ => true).map (MatchedRow.toStreamRow rt)
  else (valueWinners rt s.feed window s.now s.db fun _ => true).map IocItem.toStreamRow

/-- The line of a row under the format types of the feed. -/
def lineOf (row : StreamRow) : Option String :=
  normalizeFeedLine rt row.observable (lineTypeFor (formatTypesFor s.feed) row.observableType)

/-- `genMax`: the configured limit under the limit of the deployment. -/
def genMax (host : GenerationHost) : Option ℕ := s.feed.maxItems.map (min · host.exportMaxLimit)

/-- Whether a count of written items reaches the limit. -/
def reaches (limit : Option ℕ) (count : ℕ) : Bool := limit.any (decide <| · ≤ count)

end Rows

/-- `shouldStreamPublishedFeed`: always with the STIX format. -/
def shouldStreamPublishedFeed (host : GenerationHost) (feed : Feed) : Bool :=
  (resolvePublishedFeedFormats feed).contains .stix || host.streamingEnabled

/-- The text of an item in a format, where it has one. -/
def render (host : GenerationHost) (s : GenerationState) (format : FeedFormat) (it : FeedItem) :
    Option String :=
  match format with
  | .txt => some it.value
  | .json => some (host.serializers.json (s.item it.row it.value))
  | .stix => host.serializers.stix (s.item it.row it.value)

/-- The format whose writer counts the items: plain text, else JSON, else STIX. -/
def countingFormat (feed : Feed) : FeedFormat :=
  let formats := resolvePublishedFeedFormats feed
  if formats.contains .txt then .txt else if formats.contains .json then .json else .stix

/-- The loop of `generateFeedArtifact` over the fetched rows. -/
def streamItems (line : StreamRow → Option String) (counts : FeedItem → Bool)
    (limit : Option ℕ) : List StreamRow → ℕ → List FeedItem
  | [], _ => []
  | row :: rows, count =>
    match line row with
    | none => streamItems line counts limit rows count
    | some value =>
      let it : FeedItem := ⟨value, row⟩
      let count := if counts it then count + 1 else count
      it :: if reaches limit count then [] else streamItems line counts limit rows count

/-- `confidenceToScore`. -/
def confidenceToScore (rt : Runtime) (host : GenerationHost) (confidence : String) : ℤ :=
  match rt.lower (trim confidence) with
  | "high" => 100
  | "medium" => 50
  | "low" => 25
  | raw =>
    match host.numberOf raw with
    | some n => max 0 (min 100 n)
    | none => 0

/-- The comparison of `sortFeedRows`: recency, then confidence, then the value. -/
def feedRowKey (rt : Runtime) (host : GenerationHost) (r : StreamRow) : ℤ ×ₗ ℤ ×ₗ String :=
  toLex (-r.recencyTs,
    toLex (-confidenceToScore rt host r.confidence, host.collationKey r.observable))

/-- `sortFeedRows`. -/
def sortFeedRows (rt : Runtime) (host : GenerationHost) (rows : List StreamRow) :
    List StreamRow :=
  rows.insertionSort fun a b => feedRowKey rt host a ≤ feedRowKey rt host b

/-- `fetchIocRows` and `fetchQueryModeIocRows`: both check the confidence once more. -/
def fetchIocRows (rt : Runtime) (host : GenerationHost) (window : FeedWindow)
    (s : GenerationState) : List StreamRow :=
  (pickedRows rt window s).filter fun r =>
    s.feed.minConfidence.all (decide <| · ≤ confidenceToScore rt host r.confidence)

/-- The loop of `selectFeedItems` over the sorted rows. -/
def selectItems (rt : Runtime) (line : StreamRow → Option String) (limit : Option ℕ) :
    List StreamRow → List String → ℕ → List FeedItem
  | [], _, _ => []
  | row :: rows, seen, count =>
    match line row with
    | none => selectItems rt line limit rows seen count
    | some value =>
      if seen.contains (rt.lower value) then selectItems rt line limit rows seen count
      else ⟨value, row⟩ :: if reaches limit (count + 1) then []
        else selectItems rt line limit rows (rt.lower value :: seen) (count + 1)

/-- `selectFeedItems`. -/
def selectFeedItems (rt : Runtime) (host : GenerationHost) (line : StreamRow → Option String)
    (limit : Option ℕ) (rows : List StreamRow) : List FeedItem :=
  selectItems rt line limit (sortFeedRows rt host rows) [] 0

section Content

variable (rt : Runtime) (host : GenerationHost) (window : FeedWindow) (s : GenerationState)

/-- The items a generation writes, in order. -/
def feedItems : List FeedItem :=
  if shouldStreamPublishedFeed host s.feed then
    streamItems (lineOf rt s) (fun it => (render host s (countingFormat s.feed) it).isSome)
      (genMax s host) (orderOutput rt (pickedRows rt window s)) 0
  else selectFeedItems rt host (lineOf rt s) (genMax s host) (fetchIocRows rt host window s)

/-- The header of a format. -/
def headerOf (format : FeedFormat) : ContentHeader :=
  match format with
  | .txt => .txt
  | .json => .json s.name (resolveJsonIncludeFlags s.feed)
  | .stix => .stix s.slug

/-- The content a generation gives a format. -/
def regenerate (format : FeedFormat) : FeedContent where
  header := headerOf s format
  entries := (feedItems rt host window s).filterMap (render host s format)

end Content

variable {rt : Runtime} {host : GenerationHost} {window : FeedWindow} {s : GenerationState}
  {line : StreamRow → Option String} {limit : Option ℕ} {rows : List StreamRow}

/-- The streamed items come from the rows, in order. -/
theorem streamItems_sublist (counts : FeedItem → Bool) (count : ℕ) :
    ((streamItems line counts limit rows count).map FeedItem.row).Sublist rows := by
  induction rows generalizing count with
  | nil => exact List.Sublist.refl _
  | cons row rows ih =>
    have hrest : ∀ next, (((if reaches limit next then []
        else streamItems line counts limit rows next)).map FeedItem.row).Sublist rows := by
      intro next
      split
      · exact List.nil_sublist rows
      · exact ih next
    unfold streamItems
    split
    · exact (ih count).cons row
    · exact (hrest _).cons_cons row

/-- The selected items come from the rows, in order. -/
theorem selectItems_sublist (seen : List String) (count : ℕ) :
    ((selectItems rt line limit rows seen count).map FeedItem.row).Sublist rows := by
  induction rows generalizing seen count with
  | nil => exact List.Sublist.refl _
  | cons row rows ih =>
    unfold selectItems
    split
    · exact (ih seen count).cons row
    · split
      · exact (ih seen count).cons row
      · refine List.Sublist.cons_cons row ?_
        split
        · exact List.nil_sublist rows
        · exact ih _ _

/-- Every written item comes from a row that the query returns. -/
theorem row_mem_pickedRows {it : FeedItem} (h : it ∈ feedItems rt host window s) :
    it.row ∈ pickedRows rt window s := by
  unfold feedItems at h
  split at h
  · exact mem_orderOutput.mp ((streamItems_sublist _ 0).subset (List.mem_map_of_mem h))
  · have hrow := (selectItems_sublist [] 0).subset (List.mem_map_of_mem h)
    have hfetched := (List.perm_insertionSort _ _).mem_iff.mp hrow
    exact List.mem_of_mem_filter hfetched

/-- The loop asks only about items of its rows whether they count. -/
theorem streamItems_congr {counts counts' : FeedItem → Bool} {count : ℕ}
    (h : ∀ it : FeedItem, it.row ∈ rows → counts it = counts' it) :
    streamItems line counts limit rows count = streamItems line counts' limit rows count := by
  induction rows generalizing count with
  | nil => rfl
  | cons row rows ih =>
    have hrest : ∀ {next}, streamItems line counts limit rows next =
        streamItems line counts' limit rows next :=
      ih fun it hit => h it (List.mem_cons_of_mem row hit)
    simp only [streamItems, hrest]
    split
    · rfl
    · rw [h _ List.mem_cons_self]

end TalonHound
