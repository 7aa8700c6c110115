import Mathlib.Algebra.GroupWithZero.Nat
import Mathlib.Data.Nat.Log
import TalonHound.Library.Buckets
import TalonHound.PublishedFeed.WindowEligibility

/-!
# Chunk generations

A generation is an immutable manifest: for each format the chunks of a window in the order
of their keys. `buildAndActivate` writes the chunks of the affected keys from the
projection, links the chunks of the parent generation for the other keys, checks the item
counts and activates the result. A chunk file is named by the digest of its content, so a
chunk is its content here.
-/

namespace TalonHound

open KeyedTable

/-- The texts of structured items. -/
structure Serializers where
  /-- `JSON.stringify` of an item. -/
  json : String → String
  json_ne : ∀ item, json item ≠ ""
  /-- `JSON.stringify` of the indicator of an item, where it has one. -/
  stix : String → Option String
  stix_ne : ∀ item text, stix item = some text → text ≠ ""

/-- Items as they are, in angle brackets, and no indicators. -/
def plainSerializers : Serializers where
  json item := "<" ++ item ++ ">"
  json_ne item h := by
    have hlength := congrArg String.length h
    simp [String.length_append] at hlength
  stix _ := none
  stix_ne _ _ h := by cases h

/-- How a generation can fail. -/
inductive GenerationError where
  | backfillNotReady
  | missingSerializerInput (identityKey : IdentityKey) (format : FeedFormat)
  /-- The check constraint of `published_feed_chunks`. -/
  | chunkKeyOutOfRange (chunkKey : ℕ)
  | chunkManifestCountMismatch (format : FeedFormat)
  deriving DecidableEq

/-- A chunk, by its content. -/
structure ChunkFile where
  format : FeedFormat
  chunkKey : ℕ
  items : List String
  deriving DecidableEq

/-- `item_count` of a chunk. -/
def ChunkFile.itemCount (c : ChunkFile) : ℕ := c.items.length

/-- A generation with its manifest. -/
structure Generation where
  candidateCutoff : Option ℤ
  (itemCount chunkCount : ℕ)
  formats : List FeedFormat
  manifest : List ChunkFile
  deriving DecidableEq

/-- The manifest of a format, `ORDER BY gc.ordinal`; the ordinal is the chunk key. -/
def Generation.refs (g : Generation) (format : FeedFormat) : List ChunkFile :=
  (g.manifest.filter fun c => decide (c.format = format)).insertionSort
    fun a b => a.chunkKey ≤ b.chunkKey

/-- `resolvePublishedFeedFormats`: in the fixed order, plain text by default. -/
def resolvePublishedFeedFormats (feed : Feed) : List FeedFormat :=
  if feed.formats = [] then [.txt]
  else [.txt, .json, .stix].filter fun f => decide (f ∈ feed.formats)

/-- `clampPowerOfTwo`: the power of two nearest to a value, the larger on a tie. -/
def clampPowerOfTwo (value least most : ℕ) : ℕ :=
  let n := 2 ^ Nat.clog 2 value
  let lower := if 1 < n then n / 2 else 1
  let nearest := if value - lower < n - value then lower else n
  max least (min most nearest)

/-- `choosePublishedFeedChunkCount`: about 5000 rows in a chunk. -/
def choosePublishedFeedChunkCount (itemCount : ℕ) : ℕ :=
  clampPowerOfTwo (max 1 ((itemCount + 4999) / 5000)) 64 512

/-- The rows of `published_feed_items` of a feed, by `snapshot_window`. -/
abbrev ProjectionStore := FeedWindow → Projection

section Reading

variable (rt : Runtime) (store : ProjectionStore) (window : FeedWindow) (asOf : Option ℤ) (now : ℤ)

/-- The base projection under `projectionWindowFilter`; without a bound the clock counts. -/
def windowRows : List ProjectionRow :=
  (store .all).rows.filter fun r =>
    isRecencyVisibleInWindow (some r.recencyTs) window (asOf.getD now)

/-- The rows a generation reads: the filtered base projection, or the rows stored under the
window itself where sliding windows are not incremental. -/
def generationRows : List ProjectionRow :=
  if rt.slidingWindowIncrementalEnabled then windowRows store window asOf now
  else (store window).rows

/-- `countProjectionItemsInChunks`. -/
def countProjectionItemsInChunks (chunkKeys : List ℕ) : ℕ :=
  (windowRows store window asOf now).countP fun r => r.chunkKey.any chunkKeys.contains

/-- `countProjectionItemsOutsideChunks`; a row without a chunk key is not outside either. -/
def countProjectionItemsOutsideChunks (excludeChunkKeys : List ℕ) : ℕ :=
  (windowRows store window asOf now).countP fun r => r.chunkKey.any fun k =>
    !excludeChunkKeys.contains k

/-- `sumGenerationChunkItemsOutside`. -/
def sumGenerationChunkItemsOutside (g : Generation) (format : FeedFormat)
    (excludeChunkKeys : List ℕ) : ℕ :=
  ((g.manifest.filter fun c => decide (c.format = format) &&
    !excludeChunkKeys.contains c.chunkKey).map ChunkFile.itemCount).sum

/-- `canReuseUnaffectedChunks`. -/
def canReuseUnaffectedChunks (parent : Generation) (format : FeedFormat)
    (excludeChunkKeys : List ℕ) (expectedTotal : ℕ) : Bool :=
  let parentReused := sumGenerationChunkItemsOutside parent format excludeChunkKeys
  let projectionReused := if window = .all
    then expectedTotal - countProjectionItemsInChunks store window asOf now excludeChunkKeys
    else countProjectionItemsOutsideChunks store window asOf now excludeChunkKeys
  !excludeChunkKeys.isEmpty && decide (projectionReused = parentReused)

end Reading

/-- A total order of the identity keys, for the last column of the sort. -/
def identityKeyOrder : IdentityKey → ℕ ×ₗ String ×ₗ ℕ ×ₗ String
  | .artifact id => toLex (0, toLex ("", toLex (0, id)))
  | .observable type value =>
    let (name, index) := typeName type
    toLex (1, toLex (name, toLex (index, value)))
where
  /-- The text of a type; the number tells a listed type from another of the same name. -/
  typeName : ObservableType → String × ℕ
    | .ip => ("ip", 1)
    | .ipv6 => ("ipv6", 1)
    | .domain => ("domain", 1)
    | .url => ("url", 1)
    | .md5 => ("md5", 1)
    | .sha1 => ("sha1", 1)
    | .sha256 => ("sha256", 1)
    | .ssdeep => ("ssdeep", 1)
    | .imphash => ("imphash", 1)
    | .tlsh => ("tlsh", 1)
    | .other name => (name, 0)

/-- `recency_ts DESC, confidence_rank DESC, observable ASC, identity_key ASC`. -/
def chunkRowKey (rt : Runtime) (r : ProjectionRow) :
    ℤ ×ₗ ℤ ×ₗ String ×ₗ ℕ ×ₗ String ×ₗ ℕ ×ₗ String :=
  toLex (-r.recencyTs, toLex (-confRank rt r.confidence, toLex (r.observable,
    identityKeyOrder r.identityKey)))

/-- `chunk_key` and the columns after it. -/
def chunkCursorKey (rt : Runtime) (r : ProjectionRow) :
    ℕ ×ₗ ℤ ×ₗ ℤ ×ₗ String ×ₗ ℕ ×ₗ String ×ₗ ℕ ×ₗ String :=
  toLex (r.chunkKey.getD 0, chunkRowKey rt r)

/-- The cursor `pf_chunk_cur`: the rows of the listed chunks in order. -/
def chunkCursor (rt : Runtime) (rows : List ProjectionRow) (keys : List ℕ) : List ProjectionRow :=
  (rows.filter fun r => r.chunkKey.any keys.contains).insertionSort
    fun a b => chunkCursorKey rt a ≤ chunkCursorKey rt b

/-- The open writers of a chunk: what each format has been given. -/
abbrev ChunkSlots := List (FeedFormat × List String)

/-- What a row gives the writer of a format: a line, an item, or an indicator or nothing. -/
def itemFor (ser : Serializers) (row : ProjectionRow) :
    FeedFormat → Except GenerationError (Option String)
  | .txt => .ok (some (row.txtValue ++ "\n"))
  | .json =>
    match row.itemJson with
    | none => .error (.missingSerializerInput row.identityKey .json)
    | some item => .ok (some (ser.json item))
  | .stix =>
    match row.itemJson with
    | none => .error (.missingSerializerInput row.identityKey .stix)
    | some item => .ok (ser.stix item)

/-- `addProjectionRow`. -/
def addProjectionRow (ser : Serializers) (slots : ChunkSlots) (row : ProjectionRow) :
    Except GenerationError ChunkSlots :=
  slots.mapM fun (format, items) =>
    (itemFor ser row format).map fun item => (format, items ++ item.toList)

/-- `byte_length` of what a writer was given: lines as they are, items with commas between. -/
def fragmentLength (format : FeedFormat) (items : List String) : ℕ :=
  (items.map String.utf8ByteSize).sum + match format with
    | .txt => 0
    | .json | .stix => items.length - 1

/-- `finishChunkWriters`: an empty fragment leaves no chunk. -/
def finishChunkWriters (chunkKey : ℕ) (slots : ChunkSlots) : List ChunkFile :=
  slots.filterMap fun (format, items) =>
    if fragmentLength format items = 0 then none else some ⟨format, chunkKey, items⟩

/-- `openChunkWriters`. -/
def openChunkWriters (formats : List FeedFormat) : ChunkSlots := formats.map fun f => (f, [])

/-- `generateChunkFiles`: one pass over the cursor, a chunk at a time. -/
def generateChunkFiles (rt : Runtime) (ser : Serializers) (formats : List FeedFormat)
    (rows : List ProjectionRow) (keys : List ℕ) : Except GenerationError (List ChunkFile) :=
  Buckets.writeBuckets (fun r : ProjectionRow => r.chunkKey.getD 0)
    (fun _ => openChunkWriters formats) (addProjectionRow ser) finishChunkWriters
    (chunkCursor rt rows keys)

/-- `upsertChunkRows`: the table accepts a chunk key below the chunk count. -/
def upsertChunkRows (chunkCount : ℕ) (chunks : List ChunkFile) :
    Except GenerationError (List ChunkFile) :=
  match chunks.find? fun c => !decide (c.chunkKey < chunkCount) with
  | some c => .error (.chunkKeyOutOfRange c.chunkKey)
  | none => .ok chunks

/-- The links of a new generation: those of the parent outside the affected keys, and the
written chunks; an affected key without a chunk became empty. -/
def generationLinks (parent : Option Generation) (formats : List FeedFormat)
    (affected : List ℕ) (chunks : List ChunkFile) : List ChunkFile :=
  (match parent with
    | some parent => parent.manifest.filter fun c => !affected.contains c.chunkKey
    | none => []) ++
  formats.flatMap fun format => affected.filterMap fun key =>
    chunks.find? fun c => decide (c.format = format ∧ c.chunkKey = key)

/-- The count guard of a format; indicators are not counted. -/
def countMatches (g : Generation) (format : FeedFormat) : Bool :=
  format == .stix || ((g.refs format).map ChunkFile.itemCount).sum == g.itemCount

/-- What the caller passes to a generation. -/
structure GenerationOptions where
  window : FeedWindow
  candidateCutoff : Option ℤ
  affectedChunkKeys : Option (List ℕ)
  expectedItemCount : Option ℕ

/-- `chunkCount`. -/
def resolveChunkCount (feed : Feed) (options : GenerationOptions) : ℕ :=
  match feed.chunkCount with
  | some chunkCount => chunkCount.count
  | none => choosePublishedFeedChunkCount (options.expectedItemCount.getD 0)

/-- `generationItemCount`. -/
def resolveItemCount (active : Option Generation) (options : GenerationOptions) : ℕ :=
  options.expectedItemCount.getD ((active.map Generation.itemCount).getD 0)

/-- `reuseFormat`: the format whose counts are compared. -/
def reuseFormat (feed : Feed) : FeedFormat :=
  if (resolvePublishedFeedFormats feed).contains .txt then .txt
  else (resolvePublishedFeedFormats feed).headD .txt

/-- The keys an incremental generation writes, or nothing for a full one: without a parent,
without keys, or where the parent cannot be reused. -/
def incrementalKeys (feed : Feed) (store : ProjectionStore) (now : ℤ)
    (active : Option Generation) (options : GenerationOptions) : Option (List ℕ) :=
  match active, options.affectedChunkKeys with
  | some parent, some keys =>
    if canReuseUnaffectedChunks store options.window options.candidateCutoff now parent
        (reuseFormat feed) (sortedKeys keys) (resolveItemCount active options)
    then some (sortedKeys keys) else none
  | _, _ => none

/-- `affected`: in a full generation every key. -/
def affectedKeys (feed : Feed) (store : ProjectionStore) (now : ℤ) (active : Option Generation)
    (options : GenerationOptions) : List ℕ :=
  (incrementalKeys feed store now active options).getD (List.range (resolveChunkCount feed options))

/-- The generation that links the written chunks. -/
def linkGeneration (feed : Feed) (active : Option Generation) (options : GenerationOptions)
    (affected : List ℕ) (chunks : List ChunkFile) : Generation where
  candidateCutoff := options.candidateCutoff
  itemCount := resolveItemCount active options
  chunkCount := resolveChunkCount feed options
  formats := resolvePublishedFeedFormats feed
  manifest := generationLinks active (resolvePublishedFeedFormats feed) affected chunks

/-- The count guards of all formats. -/
def checkManifest (g : Generation) : Except GenerationError Generation :=
  match g.formats.find? fun format => !countMatches g format with
  | some format => .error (.chunkManifestCountMismatch format)
  | none => .ok g

/-- `buildAndActivate`: the generation that becomes the active one. -/
def buildAndActivate (rt : Runtime) (ser : Serializers) (feed : Feed) (backfillReady : Bool)
    (store : ProjectionStore) (now : ℤ) (active : Option Generation)
    (options : GenerationOptions) : Except GenerationError Generation :=
  if !backfillReady then .error .backfillNotReady
  else do
    let affected := affectedKeys feed store now active options
    let rows := generationRows rt store options.window options.candidateCutoff now
    let generated ← generateChunkFiles rt ser (resolvePublishedFeedFormats feed) rows affected
    let chunks ← upsertChunkRows (resolveChunkCount feed options) generated
    checkManifest (linkGeneration feed active options affected chunks)

end TalonHound
