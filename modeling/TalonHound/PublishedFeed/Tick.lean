import TalonHound.PublishedFeed.AffectedChunks
import TalonHound.PublishedFeed.DirtyCollection
import TalonHound.PublishedFeed.IncrementalGeneration
import TalonHound.PublishedFeed.RegenerationSkip

/-!
# The generation tick

`runPublishedFeedGeneration` for one feed and its configured window. A tick on the dirty
path first polls for changes and updates the base projection, then decides what to do with
the window: leave it, write chunks, write artifacts from the projection, or write them from
the query. Several of these move `projection_cutoff`, with or without rebuilding the
projection. A tick reads the database at one instant.
-/

namespace TalonHound

open KeyedTable

/-- The deployment of the generator. -/
structure Deployment where
  host : GenerationHost
  /-- `isIncrementalEnabledForFeed`. -/
  incrementalEnabled : Bool
  /-- `isPublishedFeedChunkedEnabledForFeed`. -/
  chunkedEnabled : Bool
  /-- An Advanced Query with a relative date, or on the field `classification`. -/
  rollingQuery : String → Bool
  /-- The row limit of the dirty poll. -/
  dirtyLimit : ℕ

/-- What snapshots and generations are stored under; query feeds share one type key. -/
structure SnapshotKey where
  iocTypeKey : Option (List FeedIocType)
  window : FeedWindow
  deriving DecidableEq

/-- An active chunk generation with its `config_hash`. -/
structure ActiveGeneration where
  generation : Generation
  configHash : FiltersPayload

/-- Why a window is reported as a success and skipped. -/
inductive TickSkip where
  | noopIncremental | noopIncrementalWindow
  | unchanged (reason : SkipReason)
  deriving DecidableEq

/-- How a tick ended for the window. -/
inductive TickOutcome where
  | skipped (reason : TickSkip)
  | generated
  | failed
  deriving DecidableEq

/-- What a tick reports, and whether it moved `projection_cutoff`. -/
structure TickReport where
  outcome : TickOutcome
  advanced : Bool
  deriving DecidableEq

/-- A published feed with everything its generation reads and writes. -/
structure FeedState where
  feed : Feed
  (name slug : String)
  updatedAt : ℤ
  /-- The source keys that exist in the catalogs. -/
  knownFeedKeys : List FeedKey
  db : ChangeDb
  projection : Projection
  /-- `projection_status` is `ready`. -/
  projectionReady : Bool
  (projectionCutoff projectionPendingCutoff : Option ℤ)
  chunkBackfillReady : Bool
  /-- The latest successful snapshot of a format. -/
  snapshots : SnapshotKey → FeedFormat → Option FeedSnapshot
  activeGenerations : SnapshotKey → Option ActiveGeneration
  lastTick : Option TickReport

/-- The points at which the work of a window can fail. -/
inductive FailPoint where
  | artifact | persist
  deriving DecidableEq

/-- What a tick is given from outside. -/
structure TickInput where
  /-- `captureCutoffNow` and `NOW()`. -/
  now : ℤ
  force : Bool
  /-- The structured item of a row and its value. -/
  item : StreamRow → String → String
  latestIntegrationFinishedAt : Option ℤ
  /-- The keys of the reconciliation batch; none where reconciliation is off. -/
  reconciliationBatch : List IdentityKey
  failure : Option FailPoint

section Tick

variable (rt : Runtime) (dep : Deployment) (s : FeedState) (i : TickInput)

/-- `feed` with the source keys that are known; query feeds have none. -/
def FeedState.effectiveFeed : Feed :=
  { s.feed with includeFeedKeys := match resolveFeedFilterMode s.feed with
      | .query => []
      | .basic => s.feed.includeFeedKeys.filter s.knownFeedKeys.contains }

/-- `allKeysStale`. -/
def FeedState.allKeysStale : Bool :=
  resolveFeedFilterMode s.feed == .basic && !s.feed.includeFeedKeys.isEmpty &&
    s.effectiveFeed.includeFeedKeys.isEmpty

/-- `resolveConfiguredFeedWindow`. -/
def FeedState.window : FeedWindow :=
  match resolveFeedFilterMode s.feed with
  | .query => .all
  | .basic => s.feed.timeWindow

/-- The key of the snapshots a tick writes. -/
def FeedState.snapshotKey : SnapshotKey where
  iocTypeKey := match resolveFeedFilterMode s.feed with
    | .query => none
    | .basic => some (resolveFeedIocTypes s.effectiveFeed)
  window := s.window

/-- The digest of the current settings. -/
def FeedState.filtersHash : FiltersPayload := TalonHound.filtersHash rt s.effectiveFeed s.window

/-- The enabled formats. -/
def FeedState.formats : List FeedFormat := resolvePublishedFeedFormats s.effectiveFeed

/-- What a generation from the query reads. -/
def FeedState.view : GenerationState where
  feed := s.effectiveFeed
  name := s.name
  slug := s.slug
  updatedAt := s.updatedAt
  allKeysStale := s.allKeysStale
  db := s.db.toDb
  item := i.item
  now := i.now
  latestIntegrationFinishedAt := if i.force then none else i.latestIntegrationFinishedAt
  force := i.force

/-- The structured items as the projection stores them. -/
def TickInput.itemJson : ItemJson := fun row value => some (i.item row value)

/-- `feedSupportsIncrementalProjection`. -/
def feedSupportsIncrementalProjection (feed : Feed) : Bool :=
  match feed.filterMode, feed.advancedQuery with
  | .query, some query => trim query = "" || !dep.rollingQuery (trim query)
  | _, _ => true

/-- `canUseIncrementalRefresh` for settings that did not change. -/
def canUseIncrementalRefresh : Bool :=
  feedSupportsIncrementalProjection dep s.effectiveFeed && s.projectionReady &&
    s.effectiveFeed.maxItems.isNone &&
    (s.window == .all || rt.slidingWindowIncrementalEnabled)

/-- `incrementalPreferDirtyPath`. -/
def prefersDirtyPath : Bool :=
  !i.force && shouldStreamPublishedFeed dep.host s.effectiveFeed && dep.incrementalEnabled &&
    s.projectionReady && feedSupportsIncrementalProjection dep s.effectiveFeed

/-- `useIncrementalDirtyPath`. -/
def usesDirtyPath : Bool := prefersDirtyPath dep s i && canUseIncrementalRefresh rt dep s

/-- The dirty poll of a tick. -/
def polledDirty : Dirty × Bool :=
  collectDirtyIocIds rt s.effectiveFeed s.db s.projectionCutoff i.now dep.dirtyLimit

/-- A full evaluation is forced: no cutoff, a changed tag catalog, a truncated poll, or a
publication that was not finished. -/
def forcesFull : Bool :=
  (polledDirty rt dep s i).1.forceFull || (polledDirty rt dep s i).2 ||
    s.projectionPendingCutoff.isSome

/-- The boundary departures of a window; collected only for the configured one. -/
def boundaryDepartures (window : FeedWindow) : List ProjectionRow :=
  match s.projectionCutoff with
  | some cutoff =>
    if rt.slidingWindowIncrementalEnabled ∧ window = s.window then
      collectBoundaryDepartures s.projection cutoff i.now window
    else []
  | none => []

/-- Neither a dirty row nor a tombstone nor a departure. -/
def isQuiet : Bool :=
  (polledDirty rt dep s i).1.ids.isEmpty && (polledDirty rt dep s i).1.deletes.isEmpty &&
    (boundaryDepartures rt s i s.window).isEmpty

/-- `runReconciliationSlice`: the stored rows of the batch count as dirty. -/
def reconciliationDirty : Option Dirty :=
  let rows := s.projection.rows.filter fun r => i.reconciliationBatch.contains r.identityKey
  if !rt.slidingWindowIncrementalEnabled || rows.isEmpty then none
  else some ⟨rows.map ProjectionRow.iocItemId, [],
    rows.map fun r => (r.iocItemId, r.observableType), false⟩

/-- What the projection is updated with before the window is looked at. -/
def tickDirty : Option Dirty :=
  let dirty := (polledDirty rt dep s i).1
  if !prefersDirtyPath dep s i || forcesFull rt dep s i then none
  else if isQuiet rt dep s i then reconciliationDirty rt s i
  else if dirty.ids.isEmpty && dirty.deletes.isEmpty then none
  else some dirty

/-- What `prepareIncrementalFeedTick` and the reconciliation after it hand on. -/
inductive PreparedTick where
  | forceFull | noop
  | update (delta : ProjectionDelta) (refreshNeeded : Bool) (chunkKeys : List ℕ)

/-- `windowNeedsArtifactRefresh`. -/
def windowNeedsArtifactRefresh (window : FeedWindow) (delta : ProjectionDelta)
    (boundaries : FeedWindow → List ProjectionRow) (affected : FeedWindow → List ℕ) : Bool :=
  if window = .all then delta.artifactDirty
  else !(boundaries window).isEmpty || !(affected window).isEmpty

/-- The report of an update for the configured window. -/
def preparedUpdate (delta : ProjectionDelta) : PreparedTick :=
  let boundaries := boundaryDepartures rt s i
  let affected := computeAffectedChunksByWindow delta boundaries delta.touchedRows i.now
  .update delta (windowNeedsArtifactRefresh s.window delta boundaries affected) (affected s.window)

/-- The preparation of a tick on the dirty path, with the updated projection. -/
def prepareTick : Except UpsertError (Projection × PreparedTick) :=
  match tickDirty rt dep s i with
  | none => .ok (s.projection,
      if forcesFull rt dep s i then .forceFull
      else if isQuiet rt dep s i then .noop
      else preparedUpdate rt s i (.none false))
  | some dirty =>
    (applyIncrementalProjectionUpdate rt s.effectiveFeed i.itemJson i.now s.db.toDb s.projection
      dirty).map fun (t, delta) => (t, if isQuiet rt dep s i then
          if delta.artifactDirty then .update delta true delta.affectedChunkKeys else .noop
        else preparedUpdate rt s i delta)

/-- `decideRefreshMode`. -/
inductive RefreshMode where
  | incremental | full | bootstrap
  deriving DecidableEq

/-- What happens to the projection when a window is written from the query. -/
inductive ProjectionRebuild where
  | keep | clear | populate

/-- What a tick does with its window. -/
inductive TickPlan where
  | noop
  | unchanged (reason : SkipReason)
  | windowSkip
  /-- Chunks, on top of an active generation. -/
  | chunked (parent : ActiveGeneration) (chunkKeys : List ℕ)
  /-- Artifacts from the projection, and a first chunk generation if `activates`. -/
  | fromProjection (activates : Bool)
  /-- Artifacts from the query; the cutoff moves if `advances`. -/
  | fromQuery (rebuild : ProjectionRebuild) (advances activates : Bool)

/-- The latest snapshots of the window. -/
def FeedState.latest (format : FeedFormat) : Option FeedSnapshot :=
  s.snapshots s.snapshotKey format

/-- `filtersChanged`: forced, a format is missing, or the first format has other settings. -/
def filtersChanged : Bool :=
  i.force || s.formats.any (fun format => (s.latest format).isNone) ||
    (s.latest (s.formats.headD .txt)).any fun latest => latest.filtersHash != s.filtersHash rt

/-- `decideRefreshMode`. -/
def decideRefreshMode : RefreshMode :=
  let incrementalEnabled :=
    dep.incrementalEnabled && feedSupportsIncrementalProjection dep s.effectiveFeed
  if !feedSupportsIncrementalProjection dep s.effectiveFeed then .full
  else if filtersChanged rt s i then
    if s.projectionReady then .full else if incrementalEnabled then .bootstrap else .full
  else if !incrementalEnabled then .full
  else if !s.projectionReady then .bootstrap
  else if !canUseIncrementalRefresh rt dep s then .full
  else .incremental

/-- Chunk generations apply: enabled, not capped, backfilled. -/
def chunksApply : Bool :=
  dep.chunkedEnabled && (genMax (s.view i) dep.host).isNone && s.chunkBackfillReady

/-- `getActiveChunkGeneration` for the first format. -/
def FeedState.activeForFirst : Option ActiveGeneration :=
  (s.activeGenerations s.snapshotKey).filter fun g =>
    g.generation.formats.contains (s.formats.headD .txt)

/-- The plan for a window in incremental mode. -/
def planIncremental (prepared : PreparedTick) : TickPlan :=
  let chunkedEligible :=
    chunksApply dep s i && (s.window == .all || rt.slidingWindowIncrementalEnabled)
  match prepared with
  | .forceFull =>
    .fromQuery (if s.window = .all then .populate else .keep) true
      (chunkedEligible && s.window == .all)
  | .noop => .noop
  | .update _ refreshNeeded chunkKeys =>
    if !refreshNeeded then .windowSkip
    else
      match if chunkedEligible then s.activeForFirst else none with
      | some parent => .chunked parent chunkKeys
      | none => .fromProjection chunkedEligible

/-- The plan for a window that is written from the query. -/
def planFull : TickPlan :=
  let populate := dep.incrementalEnabled && feedSupportsIncrementalProjection dep s.effectiveFeed &&
    s.window == .all
  .fromQuery (if populate then .populate else .keep) populate (populate && chunksApply dep s i)

/-- The plan for a window. -/
def planWindow (prepared : PreparedTick) : TickPlan :=
  match if i.force || usesDirtyPath rt dep s i then none
    else skipReason rt s.window (s.view i) s.latest with
  | some reason => .unchanged reason
  | none =>
    if !shouldStreamPublishedFeed dep.host s.effectiveFeed then .fromQuery .keep false false
    else if s.allKeysStale then
      .fromQuery .clear true (chunksApply dep s i && s.window == .all)
    else if decideRefreshMode rt dep s i = .incremental then planIncremental rt dep s i prepared
    else planFull dep s i

/-- The whole decision, with the projection as updated before it. -/
def planTick : Except UpsertError (Projection × TickPlan) :=
  if prefersDirtyPath dep s i then
    (prepareTick rt dep s i).map fun (t, prepared) => (t, match prepared with
      | .noop => .noop
      | prepared => planWindow rt dep s i prepared)
  else .ok (s.projection, planWindow rt dep s i .forceFull)

/-- The base projection as the only stored window. -/
def FeedState.store : ProjectionStore := fun window =>
  if window = .all then s.projection else empty

/-- The text of a stored row in a format, where it has one. -/
def renderStored (format : FeedFormat) (r : ProjectionRow) : Option String :=
  match format with
  | .txt => some r.txtValue
  | .json => r.itemJson.map dep.host.serializers.json
  | .stix => r.itemJson.bind dep.host.serializers.stix

/-- The content `generateFeedArtifactFromProjection` gives a format. -/
def projectionContent (format : FeedFormat) : FeedContent where
  header := headerOf (s.view i) format
  entries :=
    ((generationRows rt s.store s.window (some i.now) i.now).insertionSort
      fun a b => chunkRowKey rt a ≤ chunkRowKey rt b).filterMap (renderStored dep format)

/-- The rows `generateFeedArtifact` reads until the limit is reached. -/
def consumedRows (line : StreamRow → Option String) (counts : FeedItem → Bool)
    (limit : Option ℕ) : List StreamRow → ℕ → ℕ
  | [], _ => 0
  | row :: rows, count =>
    match line row with
    | none => consumedRows line counts limit rows count + 1
    | some value =>
      let count := if counts ⟨value, row⟩ then count + 1 else count
      if reaches limit count then 1 else consumedRows line counts limit rows count + 1

/-- The number of rows a populating generation reads, where the feed is capped. -/
def rowLimit : Option ℕ :=
  (genMax (s.view i) dep.host).map fun _ =>
    consumedRows (lineOf rt (s.view i))
      (fun it => (render dep.host (s.view i) (countingFormat s.effectiveFeed) it).isSome)
      (genMax (s.view i) dep.host)
      (buildStreamingBase rt s.effectiveFeed .all i.now s.db.toDb fun _ => true) 0

/-- The projection a populating generation leaves. -/
def populated : Except UpsertError Projection :=
  bootstrapProjection rt s.effectiveFeed i.itemJson i.now s.db.toDb (rowLimit rt dep s i)

/-- `export_fingerprint` of the snapshots a tick writes; the dirty path hands on the old one. -/
def writtenFingerprint : ExportFingerprint :=
  if usesDirtyPath rt dep s i then
    (([.txt, .json, .stix].findSome? s.latest).map FeedSnapshot.exportFingerprint).getD
      ⟨0, none, s.filtersHash rt⟩
  else currentFingerprint rt s.window (s.view i)

/-- The snapshot stored for a format; `generated_at` stays where the content does. -/
def writtenSnapshot (fingerprint : ExportFingerprint) (content : FeedContent)
    (prev : Option FeedSnapshot) : FeedSnapshot where
  content := content
  filtersHash := s.filtersHash rt
  exportFingerprint := fingerprint
  feedUpdatedAt := s.updatedAt
  iocWatermark := getCheapWatermark (s.view i)
  generatedAt := match prev with
    | some prev => if prev.content = content then prev.generatedAt else i.now
    | none => i.now

/-- `persistPublishedFeedArtifactSnapshots`: one snapshot for each enabled format. -/
def persistSnapshots (fingerprint : ExportFingerprint) (contents : FeedFormat → FeedContent) :
    SnapshotKey → FeedFormat → Option FeedSnapshot := fun key format =>
  if key = s.snapshotKey ∧ format ∈ s.formats then
    some (writtenSnapshot rt s i fingerprint (contents format) (s.snapshots key format))
  else s.snapshots key format

/-- The cutoff moves to the bound of the tick. -/
def FeedState.advance : FeedState :=
  { s with projectionCutoff := some i.now, projectionPendingCutoff := none }

/-- `retireObsoletePublicWindowGenerations`: nothing is kept for other windows. -/
def FeedState.retire : FeedState :=
  { s with
    snapshots := fun key format => if key.window = s.window then s.snapshots key format else none
    activeGenerations := fun key =>
      if key.window = s.window then s.activeGenerations key else none }

/-- A tick that succeeds. -/
def FeedState.finish (outcome : TickOutcome) (advanced : Bool) : FeedState :=
  { s.retire with lastTick := some ⟨outcome, advanced⟩ }

/-- A tick that fails. -/
def FeedState.fail : FeedState := { s with lastTick := some ⟨.failed, false⟩ }

/-- `buildAndActivateChunkGeneration`; the new generation takes the place of the active one. -/
def activateChunks (affectedChunkKeys : Option (List ℕ)) (expectedItemCount : ℕ) :
    Except GenerationError FeedState :=
  (buildAndActivate rt dep.host.serializers s.effectiveFeed s.chunkBackfillReady s.store i.now
    ((s.activeGenerations s.snapshotKey).map ActiveGeneration.generation)
    ⟨s.window, some i.now, affectedChunkKeys, some expectedItemCount⟩).map fun g =>
      ({ s with activeGenerations := fun key =>
          if key = s.snapshotKey then some ⟨g, s.filtersHash rt⟩ else s.activeGenerations key } :
        FeedState).advance i

/-- Artifacts are persisted as snapshots, in one transaction with what follows them: a chunk
generation, or the cutoff. -/
def publish (fingerprint : ExportFingerprint) (contents : FeedFormat → FeedContent)
    (advances activates : Bool) : FeedState :=
  if i.failure = some .persist then s.fail
  else
    let written := { s with snapshots := persistSnapshots rt s i fingerprint contents }
    if activates then
      match activateChunks rt dep written i none
          (contents (countingFormat s.effectiveFeed)).entries.length with
      | .ok activated => activated.finish .generated true
      | .error _ => s.fail
    else if advances then (written.advance i).finish .generated true
    else written.finish .generated false

/-- The chunks to write on top of the active generation, or all of them. -/
def chunksToWrite (parent : ActiveGeneration) (chunkKeys : List ℕ) : Option (List ℕ) :=
  if chunkKeys = [] ∨ parent.generation.chunkCount ≤ chunkKeys.length then none
  else some chunkKeys

/-- The plan is carried out on the updated projection. -/
def runPlan (plan : TickPlan) : FeedState :=
  let fingerprint := writtenFingerprint rt dep s i
  match plan with
  | .noop => (s.advance i).finish (.skipped .noopIncremental) true
  | .unchanged reason => s.finish (.skipped (.unchanged reason)) false
  | .windowSkip => (s.advance i).finish (.skipped .noopIncrementalWindow) true
  | .chunked parent chunkKeys =>
    if i.failure.isSome then s.fail
    else
      match activateChunks rt dep s i (chunksToWrite parent chunkKeys)
          (windowRows s.store s.window (some i.now) i.now).length with
      | .ok activated => activated.finish .generated true
      | .error _ => s.fail
  | .fromProjection activates =>
    let s := { s with projectionPendingCutoff := some i.now }
    if i.failure = some .artifact then s.fail
    else publish rt dep s i fingerprint (projectionContent rt dep s i) true activates
  | .fromQuery .keep advances activates =>
    if i.failure = some .artifact then s.fail
    else publish rt dep s i fingerprint (regenerate rt dep.host s.window (s.view i)) advances
      activates
  | .fromQuery .clear advances activates =>
    if i.failure = some .artifact then s.fail
    else publish rt dep { s with
      projection := empty, projectionReady := true, projectionPendingCutoff := some i.now } i
        fingerprint (regenerate rt dep.host s.window (s.view i)) advances activates
  | .fromQuery .populate advances activates =>
    let cleared := { s with
      projection := empty, projectionReady := false, projectionPendingCutoff := some i.now }
    if i.failure = some .artifact then cleared.fail
    else
      match populated rt dep s i with
      | .error _ => cleared.fail
      | .ok t =>
        publish rt dep { cleared with projection := t, projectionReady := true } i
          fingerprint (regenerate rt dep.host s.window (s.view i)) advances activates

/-- `runPublishedFeedGeneration`. An update that throws ends the tick. -/
def runTick : FeedState :=
  match planTick rt dep s i with
  | .error _ => s.fail
  | .ok (t, plan) => runPlan rt dep { s with projection := t } i plan

end Tick

/-- What happens to a feed. -/
inductive FeedAction where
  /-- The database or the catalogs change. -/
  | change (db : ChangeDb) (knownFeedKeys : List FeedKey)
  /-- `PATCH /api/published-feeds/:id`. -/
  | patch (feed : Feed) (name : String) (updatedAt : ℤ)
  | tick (input : TickInput)

/-- One step. A change and a `PATCH` leave the projection, its cutoffs and everything that
was generated as they are. -/
def FeedState.step (rt : Runtime) (dep : Deployment) (s : FeedState) : FeedAction → Option FeedState
  | .change db knownFeedKeys =>
    some { s with db := db, knownFeedKeys := knownFeedKeys, lastTick := none }
  | .patch feed name updatedAt =>
    some { s with feed := feed, name := name, updatedAt := updatedAt, lastTick := none }
  | .tick input => some (runTick rt dep s input)

/-- A feed for which nothing has been published yet. -/
structure FeedState.New (s : FeedState) : Prop where
  snapshots : ∀ key format, s.snapshots key format = none
  activeGenerations : ∀ key, s.activeGenerations key = none
  lastTick : s.lastTick = none

/-- The plan publishes snapshots without a chunk generation. -/
def TickPlan.leavesGeneration : TickPlan → Bool
  | .fromProjection activates => !activates
  | .fromQuery _ _ activates => !activates
  | _ => false

/-- The plan skips the window without a comparison of `filters_hash` for every format. -/
def TickPlan.skipsUnchecked : TickPlan → Bool
  | .noop | .windowSkip => true
  | _ => false

section Cases

variable {rt : Runtime} {dep : Deployment} {s s' : FeedState} {i : TickInput}

/-- Why a tick comes to a plan. -/
inductive PlanReason (rt : Runtime) (dep : Deployment) (s : FeedState) (i : TickInput) :
    TickPlan → Prop
  | noop : PlanReason rt dep s i .noop
  | unchanged {reason : SkipReason} (hreason : skipReason rt s.window (s.view i) s.latest = some reason) :
      PlanReason rt dep s i (.unchanged reason)
  | windowSkip (hmode : decideRefreshMode rt dep s i = .incremental) :
      PlanReason rt dep s i .windowSkip
  | chunked {parent : ActiveGeneration} {chunkKeys : List ℕ}
      (hmode : decideRefreshMode rt dep s i = .incremental) (hactive : s.activeForFirst = some parent) :
      PlanReason rt dep s i (.chunked parent chunkKeys)
  | fromProjection {activates : Bool} (hmode : decideRefreshMode rt dep s i = .incremental) :
      PlanReason rt dep s i (.fromProjection activates)
  | fromQuery {rebuild : ProjectionRebuild} {advances activates : Bool} :
      PlanReason rt dep s i (.fromQuery rebuild advances activates)

/-- The plan of a window in incremental mode. -/
theorem planIncremental_reason (prepared : PreparedTick)
    (hmode : decideRefreshMode rt dep s i = .incremental) :
    PlanReason rt dep s i (planIncremental rt dep s i prepared) := by
  cases prepared with
  | forceFull => exact .fromQuery
  | noop => exact .noop
  | update delta refreshNeeded chunkKeys =>
    simp only [planIncremental]
    split
    · exact .windowSkip hmode
    · split
      · next parent hactive =>
        split at hactive
        · exact .chunked hmode hactive
        · cases hactive
      · exact .fromProjection hmode

/-- The plan of a window. -/
theorem planWindow_reason (prepared : PreparedTick) :
    PlanReason rt dep s i (planWindow rt dep s i prepared) := by
  unfold planWindow
  split
  · next reason hskip =>
    split at hskip
    · cases hskip
    · exact .unchanged hskip
  · split
    · exact .fromQuery
    · split
      · exact .fromQuery
      · split
        · next hmode => exact planIncremental_reason prepared hmode
        · exact .fromQuery

/-- The plan of a tick. -/
theorem planTick_reason {t : Projection} {plan : TickPlan}
    (h : planTick rt dep s i = .ok (t, plan)) : PlanReason rt dep s i plan := by
  unfold planTick at h
  split at h
  · cases hprepare : prepareTick rt dep s i with
    | error e =>
      rw [hprepare] at h
      cases h
    | ok prepared =>
      rw [hprepare] at h
      obtain ⟨t', prepared⟩ := prepared
      obtain ⟨-, rfl⟩ := Prod.mk.inj (Except.ok.inj h)
      cases prepared with
      | noop => exact .noop
      | forceFull => exact planWindow_reason _
      | update => exact planWindow_reason _
  · obtain ⟨-, rfl⟩ := Prod.mk.inj (Except.ok.inj h)
    exact planWindow_reason _

/-- A new chunk generation carries the enabled formats and the current settings. -/
theorem activateChunks_eq_ok {affectedChunkKeys : Option (List ℕ)} {count : ℕ}
    (h : activateChunks rt dep s i affectedChunkKeys count = .ok s') :
    ∃ g, g.formats = s.formats ∧
      s' = ({ s with activeGenerations := fun key =>
        if key = s.snapshotKey then some ⟨g, s.filtersHash rt⟩ else s.activeGenerations key } :
          FeedState).advance i := by
  unfold activateChunks at h
  cases hbuild : buildAndActivate rt dep.host.serializers s.effectiveFeed s.chunkBackfillReady
      s.store i.now ((s.activeGenerations s.snapshotKey).map ActiveGeneration.generation)
      ⟨s.window, some i.now, affectedChunkKeys, some count⟩ with
  | error e =>
    rw [hbuild] at h
    cases h
  | ok g =>
    rw [hbuild] at h
    obtain ⟨-, chunks, -, -, rfl, -⟩ := buildAndActivate_eq_ok.mp hbuild
    exact ⟨_, rfl, (Except.ok.inj h).symm⟩

/-- Publishing fails without a trace, or stores snapshots, and with them the cutoff or a
chunk generation. -/
theorem publish_cases {fingerprint : ExportFingerprint} {contents : FeedFormat → FeedContent}
    {advances activates : Bool} (h : publish rt dep s i fingerprint contents advances activates = s') :
    s' = s.fail ∨
    (activates = false ∧
      s' = (if advances then
          ({ s with snapshots := persistSnapshots rt s i fingerprint contents } :
            FeedState).advance i
        else { s with snapshots := persistSnapshots rt s i fingerprint contents }).finish
          .generated advances) ∨
    (activates = true ∧ ∃ g, g.formats = s.formats ∧
      s' = (({ s with
        snapshots := persistSnapshots rt s i fingerprint contents
        activeGenerations := fun key =>
          if key = s.snapshotKey then some ⟨g, s.filtersHash rt⟩ else s.activeGenerations key } :
            FeedState).advance i).finish .generated true) := by
  subst h
  unfold publish
  split
  · exact Or.inl rfl
  · cases activates with
    | true =>
      simp only [if_true]
      split
      · next activated hok =>
        obtain ⟨g, hformats, rfl⟩ := activateChunks_eq_ok hok
        exact Or.inr (Or.inr ⟨trivial, g, hformats, rfl⟩)
      · exact Or.inl rfl
    | false =>
      refine Or.inr (Or.inl ⟨rfl, ?_⟩)
      cases advances <;> rfl

/-- Another projection, with its status. -/
def FeedState.SameButProjection (s s' : FeedState) : Prop :=
  ∃ t ready pending, s' = { s with
    projection := t, projectionReady := ready, projectionPendingCutoff := pending }

/-- What carrying a plan out can lead to. -/
inductive PlanResult (rt : Runtime) (dep : Deployment) (s : FeedState) (i : TickInput) :
    TickPlan → FeedState → Prop
  | failed {plan : TickPlan} {s₁ : FeedState} (hsame : s.SameButProjection s₁) :
      PlanResult rt dep s i plan s₁.fail
  | skipped {plan : TickPlan} (reason : TickSkip) (hskips : plan.skipsUnchecked = true) :
      PlanResult rt dep s i plan ((s.advance i).finish (.skipped reason) true)
  | unchanged (reason : SkipReason) :
      PlanResult rt dep s i (.unchanged reason) (s.finish (.skipped (.unchanged reason)) false)
  | chunked (parent : ActiveGeneration) (chunkKeys : List ℕ) {g : Generation}
      (hformats : g.formats = s.formats) :
      PlanResult rt dep s i (.chunked parent chunkKeys)
        ((({ s with activeGenerations := fun key =>
          if key = s.snapshotKey then some ⟨g, s.filtersHash rt⟩ else s.activeGenerations key } :
            FeedState).advance i).finish .generated true)
  | published {plan : TickPlan} {s₁ : FeedState} (contents : FeedFormat → FeedContent)
      (advances activates : Bool) (hsame : s.SameButProjection s₁)
      (hleaves : plan.leavesGeneration = !activates) :
      PlanResult rt dep s i plan
        (publish rt dep s₁ i (writtenFingerprint rt dep s i) contents advances activates)

variable (rt dep s i) in
/-- Carrying a plan out fails, skips with or without a move of the cutoff, activates chunks on
top of a generation, or publishes artifacts. -/
theorem runPlan_result (plan : TickPlan) : PlanResult rt dep s i plan (runPlan rt dep s i plan) := by
  have hkept : s.SameButProjection s := ⟨_, _, _, rfl⟩
  cases plan with
  | noop => exact .skipped _ rfl
  | unchanged reason => exact .unchanged reason
  | windowSkip => exact .skipped _ rfl
  | chunked parent chunkKeys =>
    simp only [runPlan]
    split
    · exact .failed hkept
    · split
      · next activated hok =>
        obtain ⟨g, hformats, rfl⟩ := activateChunks_eq_ok hok
        exact .chunked parent chunkKeys hformats
      · exact .failed hkept
  | fromProjection activates =>
    simp only [runPlan]
    split
    · exact .failed ⟨_, _, _, rfl⟩
    · exact .published _ _ _ ⟨_, _, _, rfl⟩ rfl
  | fromQuery rebuild advances activates =>
    cases rebuild with
    | keep =>
      simp only [runPlan]
      split
      · exact .failed hkept
      · exact .published _ _ _ hkept rfl
    | clear =>
      simp only [runPlan]
      split
      · exact .failed hkept
      · exact .published _ _ _ ⟨_, _, _, rfl⟩ rfl
    | populate =>
      simp only [runPlan]
      split
      · exact .failed ⟨_, _, _, rfl⟩
      · split
        · exact .failed ⟨_, _, _, rfl⟩
        · exact .published _ _ _ ⟨_, _, _, rfl⟩ rfl

end Cases

/-- A deployment without chunk generations. -/
def plainDeployment : Deployment where
  host := plainHost
  incrementalEnabled := true
  chunkedEnabled := false
  rollingQuery _ := false
  dirtyLimit := 10

/-- What the scheduler gives a tick at a time. -/
def plainInput (now : ℤ) : TickInput where
  now := now
  force := false
  item _ value := value
  latestIntegrationFinishedAt := none
  reconciliationBatch := []
  failure := none

/-- The scheduler runs at a time. -/
def plainTick (now : ℤ) : FeedAction := .tick (plainInput now)

/-- A database of IOC rows that were written when they were last seen. -/
def plainChanges (iocItems : List IocItem) (h : (iocItems.map IocItem.id).Nodup) : ChangeDb where
  toDb := plainDb iocItems h
  updatedAt id := (iocItems.find? fun i => decide (i.id = id)).map IocItem.lastSeenAt
  iocDeletes := []
  membershipChanges := []
  artifactUpdatedAt _ := 0
  iocEnrichments := []
  ipEnrichment := []
  abuseipdbEnrichment := []
  domainEnrichment := []
  spamhausDropEnrichment := []
  tagsCatalog := none

/-- A feed without publications over a database. -/
def plainState (feed : Feed) (db : ChangeDb) : FeedState where
  feed := feed
  name := "plain"
  slug := "plain"
  updatedAt := 0
  knownFeedKeys := []
  db := db
  projection := empty
  projectionReady := false
  projectionCutoff := none
  projectionPendingCutoff := none
  chunkBackfillReady := false
  snapshots _ _ := none
  activeGenerations _ := none
  lastTick := none

/-- A domain feed with one domain of medium confidence that was last seen at 5. -/
def domainState : FeedState :=
  plainState (plainFeed [.domain])
    (plainChanges [{ plainIoc 1 .domain "a.com" 5 with confidence := "medium" }] (by decide))

theorem plainState_new {feed : Feed} {db : ChangeDb} : (plainState feed db).New :=
  ⟨fun _ _ => rfl, fun _ => rfl, rfl⟩

end TalonHound
