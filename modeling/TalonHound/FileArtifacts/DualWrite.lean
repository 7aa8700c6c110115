import TalonHound.FileArtifacts.Attach
import TalonHound.FileArtifacts.Merge

/-!
# Dual writing an IOC into the file artifacts

`ensureArtifactForFileHashIoc` with the sibling pass of a provider record, and
`dualWriteFileArtifactForObservable`, which merges the artifacts that the record spans.
-/

namespace TalonHound.FileArtifacts

/-- What `attachProviderExactHashSet` returns. -/
inductive SiblingResult where
  /-- `needs_merge_with_ids` -/
  | needsMergeWith (ids : List ArtifactId)
  | attached (results : List AttachResult)

/-- The argument of `attachProviderExactHashSet`. -/
structure ProviderInput where
  artifactId : ArtifactId
  primaryHash : ExactHash
  note : String
  sourceName : Option String
  feedId : Option ℕ
  providerMapping : Bool

/-- The artifacts that the hashes of a record resolve to. -/
def findHits : List ExactHash → Db (List ArtifactId)
  | [] => pure []
  | hash :: hashes => do
    let found ← findArtifactByHash hash
    let hits ← findHits hashes
    pure (match found with
      | some found => found.artifactId :: hits
      | none => hits)

/-- `[...new Set(ids)]`. -/
def distinctIds (ids : List ArtifactId) : List ArtifactId :=
  ids.foldl (fun seen id => if id ∈ seen then seen else seen ++ [id]) []

/-- The attachment of a sibling, as `attachProviderExactHashSet` asks for it. -/
def siblingInput (input : ProviderInput) : AttachInput where
  artifactId := some input.artifactId
  verificationSource := some ((input.sourceName.filter (· ≠ "")).getD "provider_exact_hash_set")
  firstSeenAt := none
  lastSeenAt := none
  fileName := none
  fileType := none
  mimeType := none
  sizeBytes := none

/-- Link every IOC row of an attached hash. -/
def linkIocsOfHash (artifactId : ArtifactId) (hash : ExactHash) (hashId : ℕ) : Db Unit := do
  let iocs ← query fun t => t.iocItems.filter fun ioc =>
    decide (ioc.observableType = hash.hashType.text ∧ ioc.observable = hash.value)
  iocs.forM fun ioc => do
    let _ ← linkIocToArtifact artifactId ioc.id ioc.observableType ioc.publicId (some hashId)

/-- The observation of a sibling. -/
def observeSibling (host : Host) (input : ProviderInput) (hash : ExactHash) (hashId : ℕ) :
    Db Unit :=
  match input.sourceName.filter (· ≠ "") with
  | some sourceName =>
    if hash ≠ input.primaryHash ∧ input.providerMapping then
      upsertSourceObservation host {
        artifactId := input.artifactId
        sourceName := sourceName
        feedId := input.feedId
        observedHashId := some hashId
        observedHash := hash
        observationType := .providerMapping
        relationMethod := .providerExactHashSet
        confidence := none
        firstSeenInSource := none
        lastSeenInSource := none
        rawRef := [("role", "\"sibling_in_provider_record\"")] }
    else pure ()
  | none => pure ()

/-- One turn of the loop of `attachProviderExactHashSet`. -/
def attachSibling (host : Host) (input : ProviderInput) (hash : ExactHash) : Db AttachResult := do
  let attached ← attachHash host (siblingInput input) hash
  match attached with
  | .attached _ hashId _ _ => do
    observeSibling host input hash hashId
    linkIocsOfHash input.artifactId hash hashId
    pure attached
  | _ => pure attached

/-- The loop of `attachProviderExactHashSet`. -/
def attachSiblings (host : Host) (input : ProviderInput) : List ExactHash → Db (List AttachResult)
  | [] => pure []
  | hash :: hashes => do
    let attached ← attachSibling host input hash
    let results ← attachSiblings host input hashes
    pure (attached :: results)

/-- `attachProviderExactHashSet`. -/
def attachProviderExactHashSet (host : Host) (input : ProviderInput) : Db SiblingResult := do
  let hashes := extractExactHashesFromNote input.primaryHash input.note
  let hits ← findHits hashes
  let otherArtifactIds := distinctIds (hits.filter fun id => decide (id ≠ input.artifactId))
  if otherArtifactIds ≠ [] then pure (.needsMergeWith otherArtifactIds)
  else do
    let results ← attachSiblings host input hashes
    let _ ← recomputePrimaryHash input.artifactId
    pure (.attached results)

/-- The argument of `ensureArtifactForFileHashIoc`. -/
structure EnsureInput where
  (iocItemId iocPublicId : ℕ)
  (observableType observable : String)
  sourceName : Option String
  feedId : Option ℕ
  note : String
  (firstSeenAt lastSeenAt : Option ℤ)
  confidence : Option String
  observationType : ObservationType
  relationMethod : RelationMethod
  (attachNoteSiblings providerMapping : Bool)

/-- What `ensureArtifactForFileHashIoc` returns. -/
inductive EnsureResult where
  | invalidOrNonExactHash
  | notAttached (attach : AttachResult)
  | ensured (artifactId : ArtifactId) (hashId : ℕ) (link : LinkResult)
      (siblings : Option SiblingResult)

/-- The attachment of the IOC's own hash. -/
def ensureAttachInput (input : EnsureInput) : AttachInput where
  artifactId := none
  verificationSource := input.sourceName
  firstSeenAt := input.firstSeenAt
  lastSeenAt := input.lastSeenAt
  fileName := none
  fileType := none
  mimeType := none
  sizeBytes := none

/-- The observation of the IOC's own hash. -/
def observeIoc (host : Host) (input : EnsureInput) (primary : ExactHash) (artifactId : ArtifactId)
    (hashId : ℕ) : Db Unit :=
  match input.sourceName.filter (· ≠ "") with
  | some sourceName =>
    upsertSourceObservation host {
      artifactId := artifactId
      sourceName := sourceName
      feedId := input.feedId
      observedHashId := some hashId
      observedHash := primary
      observationType := input.observationType
      relationMethod := input.relationMethod
      confidence := input.confidence
      firstSeenInSource := input.firstSeenAt
      lastSeenInSource := input.lastSeenAt <|> input.firstSeenAt
      rawRef := [("ioc_public_id", toString input.iocPublicId),
        ("ioc_item_id", toString input.iocItemId)] }
  | none => pure ()

/-- The sibling pass, for a call that asks for it. -/
def ensureSiblings (host : Host) (input : EnsureInput) (primary : ExactHash)
    (artifactId : ArtifactId) : Db (Option SiblingResult) :=
  if input.attachNoteSiblings || input.providerMapping then do
    let siblings ← attachProviderExactHashSet host {
      artifactId := artifactId
      primaryHash := primary
      note := input.note
      sourceName := input.sourceName
      feedId := input.feedId
      providerMapping := input.providerMapping }
    pure (some siblings)
  else pure none

/-- `ensureArtifactForFileHashIoc` for a normalised hash. -/
def ensureForHash (host : Host) (input : EnsureInput) (primary : ExactHash) :
    Db EnsureResult := do
  match ← attachHash host (ensureAttachInput input) primary with
  | .attached artifactId hashId _ _ => do
    let link ← linkIoc artifactId input.iocItemId primary.hashType input.iocPublicId (some hashId)
    observeIoc host input primary artifactId hashId
    upsertNonIdentityAttrs artifactId (extractNonIdentityAttrsFromNote input.note)
      (input.sourceName.filter (· ≠ ""))
    let siblings ← ensureSiblings host input primary artifactId
    pure (.ensured artifactId hashId link siblings)
  | attach => pure (.notAttached attach)

/-- `ensureArtifactForFileHashIoc`. -/
def ensureArtifactForFileHashIoc (host : Host) (input : EnsureInput) : Db EnsureResult :=
  match normalizeExactHash input.observableType input.observable with
  | none => pure .invalidOrNonExactHash
  | some primary => ensureForHash host input primary

/-- A candidate of `selectCanonicalArtifact`. -/
structure CanonicalCandidate where
  id : ArtifactId
  createdAt : ℤ
  hasSha256 : Bool
  linkCount : ℕ

/-- The order of `selectCanonicalArtifact`: a SHA256, then age, then more links, then the id. -/
def CanonicalCandidate.rank (c : CanonicalCandidate) : ℕ ×ₗ ℤ ×ₗ ℤ ×ₗ ℕ :=
  toLex (if c.hasSha256 then 0 else 1, toLex (c.createdAt, toLex (-(c.linkCount : ℤ), c.id)))

/-- `selectCanonicalArtifact`. -/
def selectCanonicalArtifact (candidates : List CanonicalCandidate) : Option CanonicalCandidate :=
  (candidates.insertionSort fun a b => a.rank ≤ b.rank).head?

/-- The candidates among a list of ids: the active artifacts. -/
def Tables.canonicalCandidates (t : Tables) (ids : List ArtifactId) : List CanonicalCandidate :=
  (t.artifacts.filter fun a => decide (a.id ∈ ids ∧ a.status = .active)).map fun a =>
    { id := a.id
      createdAt := a.createdAt
      hasSha256 := (t.hashesOf a.id).any fun r => r.hash.hashType = .sha256
      linkCount := (t.linksOf a.id).length }

/-- `collectProviderMergeTargetIds`. -/
def collectProviderMergeTargetIds (artifactId : ArtifactId) : Option SiblingResult → List ArtifactId
  | some (.needsMergeWith ids) => (distinctIds ids).filter fun id => decide (id ≠ artifactId)
  | _ => []

/-- `resolveOpenProviderHashSetConflicts`. -/
def resolveOpenProviderHashSetConflicts (hashType hashValue : String) : Db Unit :=
  if hashValue = "" then pure ()
  else write fun t => { t with
    conflicts := t.conflicts.map (Rows.updateWhere
      (fun c => c.isOpen && c.hashType = hashType && c.hashValue = hashValue &&
        (c.reason = "provider_hash_set_maps_to_multiple_artifacts" ||
          c.reason = "provider_hash_set_multiple_artifacts"))
      fun c => { c with isOpen := false }) }

/-- The argument of `dualWriteFileArtifactForObservable`. -/
structure DualWriteInput where
  (observable observableType : String)
  sourceName : Option String
  feedId : Option ℕ
  (note confidence : Option String)
  (firstSeenAt lastSeenAt : Option ℤ)
  (attachNoteSiblings providerMapping : Bool)
  observationType : Option ObservationType
  relationMethod : Option RelationMethod
  mergedAt : String

/-- What `dualWriteFileArtifactForObservable` returns. -/
inductive DualWriteResult where
  | dualWriteDisabled | notExactHash | iocNotFound
  | notEnsured (result : EnsureResult)
  | written (artifactId : ArtifactId)

/-- The oldest IOC row with an observable and type. -/
def Tables.iocRow? (t : Tables) (observable observableType : String) : Option IocRow :=
  ((t.iocItems.filter fun ioc =>
    decide (ioc.observable = observable ∧ ioc.observableType = observableType)).insertionSort
      fun a b => a.createdAt ≤ b.createdAt).head?

/-- The lookup of `dualWriteFileArtifactForObservable`: lower case first, then as given. -/
def Tables.iocRowFor? (t : Tables) (observable observableType : String) : Option IocRow :=
  t.iocRow? (lowerCase observable) (lowerCase observableType) <|>
    t.iocRow? observable observableType

/-- The argument that the call passes to `ensureArtifactForFileHashIoc`. -/
def DualWriteInput.toEnsure (input : DualWriteInput) (feedId : Option ℕ) (row : IocRow) :
    EnsureInput where
  iocItemId := row.id
  iocPublicId := row.publicId
  observableType := row.observableType
  observable := row.observable
  sourceName := input.sourceName.filter (· ≠ "") <|> row.sourceName
  feedId := feedId
  note := input.note.getD row.note
  firstSeenAt := input.firstSeenAt <|> some row.firstSeenAt
  lastSeenAt := input.lastSeenAt <|> some row.lastSeenAt
  confidence := input.confidence
  observationType := input.observationType.getD .direct
  relationMethod := input.relationMethod.getD .sameSourceRecord
  attachNoteSiblings := input.attachNoteSiblings
  providerMapping := input.providerMapping

/-- One turn of the loop that merges the candidates into the canonical artifact. -/
def mergeCandidate (input : DualWriteInput) (canonicalId id : ArtifactId) : Db Unit :=
  if id = canonicalId then pure ()
  else do
    let _ ← mergeFileArtifacts {
      canonicalArtifactId := some canonicalId
      duplicateArtifactId := some id
      evidence := none
      method := some "\"provider_exact_hash_set\""
      mergedAt := input.mergedAt }

/-- The part of `dualWriteFileArtifactForObservable` after the hash was ensured: the artifact
that the call returns. -/
def mergeProviderTargets (input : DualWriteInput) (artifactId : ArtifactId)
    (siblings : Option SiblingResult) : Db ArtifactId := do
  let mergeIds := collectProviderMergeTargetIds artifactId siblings
  if mergeIds = [] then pure artifactId
  else do
    let candidateIds := artifactId :: mergeIds
    let candidates ← query fun t => t.canonicalCandidates candidateIds
    match selectCanonicalArtifact candidates with
    | none => pure artifactId
    | some canonical => do
      candidateIds.forM (mergeCandidate input canonical.id)
      let _ ← attempt (resolveOpenProviderHashSetConflicts (lowerCase input.observableType)
        (lowerCase input.observable))
      pure canonical.id

/-- The body that `dualWriteFileArtifactForObservable` runs under its savepoint. Sources are
resolved to feeds by `resolveFeed`. -/
def dualWriteBody (resolveFeed : String → Option ℕ) (host : Host) (input : DualWriteInput) :
    Db DualWriteResult := do
  match ← query fun t => t.iocRowFor? input.observable input.observableType with
  | none => pure .iocNotFound
  | some row => do
    let feedId := input.feedId <|> (input.sourceName.filter (· ≠ "")).bind resolveFeed
    match ← ensureArtifactForFileHashIoc host (input.toEnsure feedId row) with
    | .ensured artifactId _ _ siblings => do
      let artifactId ← mergeProviderTargets input artifactId siblings
      pure (.written artifactId)
    | result => pure (.notEnsured result)

/-- `dualWriteFileArtifactForObservable` inside an open transaction. -/
def dualWriteFileArtifactForObservable (dualWriteEnabled : Bool) (resolveFeed : String → Option ℕ)
    (host : Host) (input : DualWriteInput) : Db DualWriteResult :=
  if !dualWriteEnabled then pure .dualWriteDisabled
  else if normalizeHashType input.observableType = none then pure .notExactHash
  else withSavepoint (dualWriteBody resolveFeed host input)

end TalonHound.FileArtifacts
