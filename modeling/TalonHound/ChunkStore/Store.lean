import Mathlib.Data.Fintype.Basic
import TalonHound.Library.Rows
import TalonHound.Library.Run
import TalonHound.PublishedFeed.Ioc

/-!
# The chunk store

Chunk rows, manifests and generations in the database, and the content-addressed files beside
it. Builds, cleanups and purges take their steps one by one; a build writes its rows in a
transaction that nobody sees before it commits.
-/

namespace TalonHound.ChunkStore

/-- The parts of `chunks/feed-…/…/key-hash.ext`, the path of a chunk file. -/
structure ChunkAddress where
  feedId : ℕ
  window : FeedWindow
  (algoVersion chunkCount chunkKey : ℕ)
  format : FeedFormat
  contentHash : String
  deriving DecidableEq

/-- A row of `published_feed_chunks`. Its `storage_path` is the address. -/
structure ChunkRow where
  id : ℕ
  address : ChunkAddress
  serializerVersion : ℕ
  createdAt : ℤ

/-- `chk_pf_generations_state`. -/
inductive GenerationState where
  | building | ready | active | superseded | failed
  deriving DecidableEq

/-- A row of `published_feed_generations`. -/
structure GenerationRow where
  id : String
  feedId : ℕ
  window : FeedWindow
  iocTypeKey : String
  state : GenerationState
  supersededAt : Option ℤ
  createdAt : ℤ

/-- A row of `published_feed_generation_chunks`. -/
structure ManifestRow where
  generationId : String
  format : FeedFormat
  (chunkKey chunkId : ℕ)

/-- A row of `published_feed_active_generations`. -/
structure ActiveRow where
  feedId : ℕ
  window : FeedWindow
  (iocTypeKey generationId : String)

/-- The tables, and the next value of the sequence of chunk ids. -/
structure ChunkTables where
  generations : List GenerationRow
  actives : List ActiveRow
  manifests : List ManifestRow
  chunks : List ChunkRow
  nextChunkId : ℕ

/-- `PUBLISHED_FEED_CHUNK_ALGO_VERSION`. -/
def chunkAlgoVersion : ℕ := 1

/-- `PUBLISHED_FEED_CHUNK_SERIALIZER_VERSION`. -/
def chunkSerializerVersion : FeedFormat → ℕ
  | .txt => 1
  | .json => 1
  | .stix => 1

/-- A chunk of a build whose part was committed. -/
structure WrittenChunk where
  address : ChunkAddress
  created : Bool

/-- An open transaction of `buildAndActivateChunkGeneration`. -/
structure Build where
  generationId : String
  feedId : ℕ
  window : FeedWindow
  iocTypeKey : String
  formats : List FeedFormat
  chunkCount : ℕ
  parent : Option String
  affected : List ℕ
  startedAt : ℤ
  written : List WrittenChunk
  /-- `upsertChunkRows` ran: the transaction holds the locks of its chunk rows. -/
  upserted : Bool
  /-- What no statement reads: the paths of the build that a purge deletes the rows of and
  has not yet unlinked at the time that the build commits the part, or afterwards. -/
  overlapped : List ChunkAddress

/-- What a session is doing. -/
inductive Operation where
  | idle
  | building (build : Build)
  /-- `purgeUnreachablePublishedFeedChunks` deleted the rows of the paths. -/
  | purging (paths : List ChunkAddress)
  /-- `cleanupPublishedFeedChunkGenerations` did, under the lock of the feed. -/
  | cleaning (feedId : ℕ) (paths : List ChunkAddress)

namespace Operation

/-- The feed whose advisory lock the session holds. -/
def lockedFeed : Operation → Option ℕ
  | building b => some b.feedId
  | cleaning feedId _ => some feedId
  | _ => none

/-- The files that the session is about to unlink. -/
def pending : Operation → List ChunkAddress
  | purging paths => paths
  | cleaning _ paths => paths
  | _ => []

/-- The rows that an open transaction locked. -/
def lockedRows : Operation → List ChunkAddress
  | building b => if b.upserted then b.written.map WrittenChunk.address else []
  | _ => []

/-- The paths that a purge took from the build of the session. -/
def overlapped : Operation → List ChunkAddress
  | building b => b.overlapped
  | _ => []

/-- Note the paths that a purge takes from an open build. -/
def note (paths : List ChunkAddress) : Operation → Operation
  | building b => building { b with
      overlapped := b.overlapped ++
        (b.written.map WrittenChunk.address).filter fun a => decide (a ∈ paths) }
  | operation => operation

end Operation

/-- The committed tables, the files and the sessions. -/
structure ChunkSystem (ι : Type) where
  tables : ChunkTables
  files : Finset ChunkAddress
  sessions : ι → Operation

namespace ChunkTables

/-- The chunk row at a path. -/
def chunkAt? (t : ChunkTables) (a : ChunkAddress) : Option ChunkRow :=
  Rows.lookup ChunkRow.address t.chunks a

/-- The generation that is served for a key: `getActiveChunkGeneration`. -/
def activeGeneration? (t : ChunkTables) (feedId : ℕ) (window : FeedWindow) (iocTypeKey : String) :
    Option GenerationRow :=
  (t.actives.find? fun a =>
    decide (a.feedId = feedId ∧ a.window = window ∧ a.iocTypeKey = iocTypeKey)).bind fun a =>
      t.generations.find? fun g => decide (g.id = a.generationId ∧ g.state = .active)

/-- One statement of `upsertChunkRows`. -/
def upsertChunk (now : ℤ) (t : ChunkTables) (a : ChunkAddress) : ChunkTables :=
  match t.chunkAt? a with
  | some _ => t
  | none => { t with
    chunks := t.chunks ++ [⟨t.nextChunkId, a, chunkSerializerVersion a.format, now⟩]
    nextChunkId := t.nextChunkId + 1 }

/-- `upsertChunkRows`. -/
def upsertChunkRows (now : ℤ) (t : ChunkTables) (written : List WrittenChunk) : ChunkTables :=
  (written.map WrittenChunk.address).foldl (upsertChunk now) t

/-- The links that a generation takes over from its parent. -/
def copiedLinks (t : ChunkTables) (b : Build) : List ManifestRow :=
  match b.parent with
  | none => []
  | some parent =>
    (t.manifests.filter fun l =>
      decide (l.generationId = parent) && decide (l.chunkKey ∉ b.affected)).map
        fun l => { l with generationId := b.generationId }

/-- The links to the chunks that a build wrote; an empty bucket has none. -/
def writtenLinks (t : ChunkTables) (b : Build) : List ManifestRow :=
  b.formats.flatMap fun format => b.affected.filterMap fun key =>
    ((b.written.find? fun w =>
        decide (w.address.format = format ∧ w.address.chunkKey = key)).bind fun w =>
      t.chunkAt? w.address).map fun c => ⟨b.generationId, format, key, c.id⟩

/-- Supersede the parent of a generation. -/
def supersede (b : Build) (g : GenerationRow) : GenerationRow :=
  if some g.id = b.parent ∧ g.state = .active then
    { g with state := .superseded, supersededAt := some b.startedAt }
  else g

/-- What the transaction of a build commits. -/
def activate (t : ChunkTables) (b : Build) : ChunkTables :=
  let t := t.upsertChunkRows b.startedAt b.written
  { t with
    manifests := t.manifests ++ t.copiedLinks b ++ t.writtenLinks b
    generations := t.generations.map (supersede b) ++
      [⟨b.generationId, b.feedId, b.window, b.iocTypeKey, .active, none, b.startedAt⟩]
    actives := (t.actives.filter fun a =>
        !decide (a.feedId = b.feedId ∧ a.window = b.window ∧ a.iocTypeKey = b.iocTypeKey)) ++
      [⟨b.feedId, b.window, b.iocTypeKey, b.generationId⟩] }

/-- No manifest references the row, it is old enough, and of the feed, if one is given. -/
def isUnreachable (t : ChunkTables) (feedId : Option ℕ) (before : ℤ) (c : ChunkRow) : Bool :=
  decide (c.createdAt < before) && !(t.manifests.any fun l => decide (l.chunkId = c.id)) &&
    feedId.all fun feedId => decide (c.address.feedId = feedId)

/-- `DELETE FROM published_feed_chunks … RETURNING storage_path`: the returned paths. -/
def unreachablePaths (t : ChunkTables) (feedId : Option ℕ) (before : ℤ) : List ChunkAddress :=
  (t.chunks.filter (t.isUnreachable feedId before)).map ChunkRow.address

/-- The tables after that statement. -/
def deleteUnreachable (t : ChunkTables) (feedId : Option ℕ) (before : ℤ) : ChunkTables :=
  { t with chunks := t.chunks.filter fun c => !t.isUnreachable feedId before c }

/-- The first statements of a cleanup: the manifest and the row of a generation. -/
def deleteGeneration (t : ChunkTables) (id : String) : ChunkTables :=
  { t with
    manifests := t.manifests.filter fun l => !decide (l.generationId = id)
    generations := t.generations.filter fun g => !decide (g.id = id) }

/-- `reconcileOrphanGenerationChunkLinks`. -/
def reconcileOrphanLinks (t : ChunkTables) : ChunkTables :=
  { t with manifests := t.manifests.filter fun l =>
      t.generations.any fun g => decide (g.id = l.generationId) }

/-- The generation is a candidate of a cleanup. -/
def isCandidate (before : ℤ) (g : GenerationRow) : Bool :=
  decide (g.state = .superseded ∨ g.state = .failed) &&
    decide (g.supersededAt.getD g.createdAt < before)

/-- A manifest of an active generation references the chunk row at a path. -/
def Referenced (t : ChunkTables) (a : ChunkAddress) : Prop :=
  ∃ g ∈ t.generations, g.state = .active ∧ ∃ l ∈ t.manifests, l.generationId = g.id ∧
    ∃ c ∈ t.chunks, c.id = l.chunkId ∧ c.address = a

end ChunkTables

/-- A step of one session. -/
inductive StoreAction where
  /-- The build gets the lock of its feed and opens its transaction. `reusable` is the result
  of `canReuseUnaffectedChunks`. -/
  | startBuild (generationId : String) (feedId : ℕ) (window : FeedWindow) (iocTypeKey : String)
      (formats : List FeedFormat) (chunkCount : ℕ) (affectedChunkKeys : Option (List ℕ))
      (reusable : Bool) (now : ℤ)
  /-- `commitContentAddressedPart` for one chunk. -/
  | commitPart (chunkKey : ℕ) (format : FeedFormat) (contentHash : String)
  | upsertChunkRows
  /-- `COMMIT` of the build, with the activation. -/
  | activate
  /-- `ROLLBACK` of the build, after `removeCreatedChunkFiles` when it raised itself. -/
  | failBuild (removeCreated : Bool)
  /-- The statement of `purgeUnreachablePublishedFeedChunks`. -/
  | purge (feedId : Option ℕ) (before : ℤ)
  /-- The transaction of `cleanupPublishedFeedChunkGenerations` for one candidate. -/
  | cleanup (generationId : String) (before : ℤ)
  | reconcileOrphanLinks
  /-- `removeFileQuiet` of the next file. -/
  | unlink
  /-- A purge or a cleanup ends, or its process does. -/
  | stop
  deriving DecidableEq

namespace ChunkSystem

variable {ι : Type} [DecidableEq ι] [Fintype ι]

/-- Replace what a session is doing. -/
def setSession (σ : ChunkSystem ι) (i : ι) (operation : Operation) : ChunkSystem ι :=
  { σ with sessions := Function.update σ.sessions i operation }

/-- `pg_try_advisory_lock` succeeds. -/
def LockFree (σ : ChunkSystem ι) (feedId : ℕ) : Prop :=
  ∀ j, (σ.sessions j).lockedFeed ≠ some feedId

instance (σ : ChunkSystem ι) (feedId : ℕ) : Decidable (σ.LockFree feedId) :=
  Fintype.decidableForallFintype

/-- A session is about to unlink a file. -/
def Pending (σ : ChunkSystem ι) (a : ChunkAddress) : Prop := ∃ j, a ∈ (σ.sessions j).pending

instance (σ : ChunkSystem ι) (a : ChunkAddress) : Decidable (σ.Pending a) :=
  Fintype.decidableExistsFintype

/-- No open transaction locked one of the rows. -/
def RowsFree (σ : ChunkSystem ι) (paths : List ChunkAddress) : Prop :=
  ∀ j, ∀ a ∈ (σ.sessions j).lockedRows, a ∉ paths

instance (σ : ChunkSystem ι) (paths : List ChunkAddress) : Decidable (σ.RowsFree paths) :=
  Fintype.decidableForallFintype

/-- The start of `buildAndActivate`. -/
def openBuild (σ : ChunkSystem ι) (generationId : String) (feedId : ℕ) (window : FeedWindow)
    (iocTypeKey : String) (formats : List FeedFormat) (chunkCount : ℕ)
    (affectedChunkKeys : Option (List ℕ)) (reusable : Bool) (now : ℤ) : Build :=
  let parent := σ.tables.activeGeneration? feedId window iocTypeKey
  { generationId := generationId
    feedId := feedId
    window := window
    iocTypeKey := iocTypeKey
    formats := formats
    chunkCount := chunkCount
    parent := parent.map GenerationRow.id
    affected := match parent, affectedChunkKeys with
      | some _, some keys => if reusable then keys else List.range chunkCount
      | _, _ => List.range chunkCount
    startedAt := now
    written := []
    upserted := false
    overlapped := [] }

/-- The path of a chunk of a build. -/
def pathOf (b : Build) (chunkKey : ℕ) (format : FeedFormat) (contentHash : String) :
    ChunkAddress where
  feedId := b.feedId
  window := b.window
  algoVersion := chunkAlgoVersion
  chunkCount := b.chunkCount
  chunkKey := chunkKey
  format := format
  contentHash := contentHash

/-- `commitContentAddressedPart`, and its entry in the list of chunks. -/
def commitPart (σ : ChunkSystem ι) (i : ι) (b : Build) (a : ChunkAddress) : ChunkSystem ι :=
  { σ.setSession i (.building { b with
      written := b.written ++ [⟨a, decide (a ∉ σ.files)⟩]
      overlapped := if σ.Pending a then b.overlapped ++ [a] else b.overlapped }) with
    files := insert a σ.files }

/-- The rows can be written: their keys are in range, and no row has a path of theirs under
another serializer version. -/
def RowsFit (σ : ChunkSystem ι) (b : Build) : Prop :=
  ∀ w ∈ b.written, w.address.chunkKey < w.address.chunkCount ∧
    ∀ c ∈ σ.tables.chunks, c.address = w.address →
      c.serializerVersion = chunkSerializerVersion w.address.format
  deriving Decidable

/-- The id of a build is unused. -/
def IdFresh (σ : ChunkSystem ι) (b : Build) : Prop :=
  (∀ g ∈ σ.tables.generations, g.id ≠ b.generationId) ∧
    (∀ l ∈ σ.tables.manifests, l.generationId ≠ b.generationId) ∧
    ∀ a ∈ σ.tables.actives, a.generationId ≠ b.generationId
  deriving Decidable

/-- The files that a build created. -/
def createdFiles (b : Build) : List ChunkAddress :=
  (b.written.filter WrittenChunk.created).map WrittenChunk.address

/-- A session takes a step, if it is enabled. -/
def step (σ : ChunkSystem ι) : ι × StoreAction → Option (ChunkSystem ι)
  | (i, action) =>
    match action, σ.sessions i with
    | .startBuild generationId feedId window iocTypeKey formats chunkCount affectedChunkKeys
        reusable now, .idle =>
      if σ.LockFree feedId then
        some (σ.setSession i (.building (σ.openBuild generationId feedId window iocTypeKey formats
          chunkCount affectedChunkKeys reusable now)))
      else none
    | .commitPart chunkKey format contentHash, .building b =>
      if b.upserted = false ∧ format ∈ b.formats ∧ chunkKey ∈ b.affected ∧
          ∀ w ∈ b.written, w.address.format = format → w.address.chunkKey ≠ chunkKey then
        some (σ.commitPart i b (pathOf b chunkKey format contentHash))
      else none
    | .upsertChunkRows, .building b =>
      if b.upserted = false ∧ σ.RowsFit b then
        some (σ.setSession i (.building { b with upserted := true }))
      else none
    | .activate, .building b =>
      if b.upserted = true ∧ σ.IdFresh b then
        some { σ.setSession i .idle with tables := σ.tables.activate b }
      else none
    | .failBuild removeCreated, .building b =>
      some { σ.setSession i .idle with
        files := if removeCreated then σ.files.filter fun a => a ∉ createdFiles b else σ.files }
    | .purge feedId before, .idle =>
      let paths := σ.tables.unreachablePaths feedId before
      -- the statement waits for the locks of the rows that it deletes
      if σ.RowsFree paths then
        some { σ with
          tables := σ.tables.deleteUnreachable feedId before
          sessions := Function.update (fun j => (σ.sessions j).note paths) i (.purging paths) }
      else none
    | .cleanup generationId before, .idle =>
      (σ.tables.generations.find? fun g => decide (g.id = generationId)).bind fun g =>
        if ChunkTables.isCandidate before g ∧ σ.LockFree g.feedId ∧
            ∀ a ∈ σ.tables.actives, a.generationId ≠ generationId then
          let t := σ.tables.deleteGeneration generationId
          some { σ.setSession i
              (.cleaning g.feedId (t.unreachablePaths (some g.feedId) before)) with
            tables := t.deleteUnreachable (some g.feedId) before }
        else none
    | .reconcileOrphanLinks, .idle => some { σ with tables := σ.tables.reconcileOrphanLinks }
    | .unlink, .purging (a :: paths) =>
      some { σ.setSession i (.purging paths) with files := σ.files.erase a }
    | .unlink, .cleaning feedId (a :: paths) =>
      some { σ.setSession i (.cleaning feedId paths) with files := σ.files.erase a }
    | .stop, .purging _ => some (σ.setSession i .idle)
    | .stop, .cleaning _ _ => some (σ.setSession i .idle)
    | _, _ => none

/-- No build commits while a purge is between the deletion of a row and the unlinking of its
path, when the build committed a part at that path in between. -/
def CommitsApart (σ : ChunkSystem ι) (x : ι × StoreAction) : Prop :=
  x.2 = .activate → (σ.sessions x.1).overlapped = []
  deriving Decidable

/-- Every link of an active generation leads to a chunk row whose file is on disk. -/
def ActiveFilesExist (σ : ChunkSystem ι) : Prop :=
  ∀ g ∈ σ.tables.generations, g.state = .active → ∀ l ∈ σ.tables.manifests,
    l.generationId = g.id → ∃ c ∈ σ.tables.chunks, c.id = l.chunkId ∧ c.address ∈ σ.files
  deriving Decidable

end ChunkSystem

end TalonHound.ChunkStore
