import TalonHound.FileArtifacts.Primary

/-!
# Attaching hashes and IOC rows to artifacts

`attachExactHash`, `linkIocToArtifact`, `ensureArtifactForFileHashIoc` and
`attachProviderExactHashSet`, statement by statement. A hash that is already normalised is
passed on as such; what a call takes from its surroundings (the clock and the uuid of an
artifact it may create) is an argument.
-/

namespace TalonHound.FileArtifacts

/-- The time of a call and the uuid that the database generates in it. -/
structure Host where
  now : ℤ
  uuid : ArtifactId

/-- A bound on the number of tombstones that a chain of `t` can have before it repeats one. -/
def Tables.chainBound (t : Tables) : ℕ := t.artifacts.length + 1

/-- `findActiveArtifact`; the fuel bounds the depth of the recursion. -/
def findActiveArtifact : ℕ → ArtifactId → Db (Option Artifact)
  | 0, _ => throw .endlessRecursion
  | fuel + 1, artifactId => do
    match ← query fun t => t.artifact? artifactId with
    | none => pure none
    | some a =>
      match a.status with
      | .merged into => findActiveArtifact fuel into
      | .active => pure (some a)

/-- What `findArtifactByHash` returns: the active artifact and the row of the hash, which may
still sit on a tombstone. -/
structure FoundHash where
  artifactId : ArtifactId
  row : HashRow

/-- `findArtifactByHash` for a normalised hash. -/
def findArtifactByHash (hash : ExactHash) : Db (Option FoundHash) := do
  match ← query fun t => t.hashRow? hash with
  | none => pure none
  | some row =>
    match ← query fun t => t.artifact? row.artifactId with
    | none => pure none
    | some a =>
      match a.status with
      | .merged into => do
        let bound ← query Tables.chainBound
        let active ← findActiveArtifact bound into
        pure (active.map fun a => ⟨a.id, row⟩)
      | .active => pure (some ⟨a.id, row⟩)

/-- `recordMergeConflict`. -/
def recordMergeConflict (type : HashType) (value : String) (candidates : List ArtifactId)
    (reason : String) : Db Unit := do
  let t ← query id
  if t.conflicts.any fun c => c.isOpen && c.hashType = type.text && c.hashValue = value &&
      c.reason = reason then pure ()
  else
    write fun t => { t with
      conflicts := t.conflicts ++ [{
        id := nextId (t.conflicts.map ConflictRow.id)
        hashType := type.text
        hashValue := value
        candidateArtifactIds := candidates
        reason := reason
        isOpen := true }] }

/-- `exact_hash_already_bound_to_other_artifact`. -/
def recordBoundElsewhere (hash : ExactHash) (existing requested : ArtifactId) : Db Unit :=
  recordMergeConflict hash.hashType hash.value [existing, requested]
    "exact_hash_already_bound_to_other_artifact"

/-- The optional columns of an attached hash and of the artifact made for it. -/
structure AttachInput where
  artifactId : Option ArtifactId
  verificationSource : Option String
  (firstSeenAt lastSeenAt : Option ℤ)
  (fileName fileType mimeType : Option String)
  sizeBytes : Option ℕ

/-- What `attachExactHash` returns. -/
inductive AttachResult where
  | invalidHash
  | attached (artifactId : ArtifactId) (hashId : ℕ) (createdArtifact createdHash : Bool)
  | conflict (artifactId : ArtifactId) (hashId : ℕ)
  | uniqueViolation (orphanCleaned : Bool)

/-- Run a statement under a savepoint and look at its error. -/
def attempt {α : Type} (x : Db α) : Db (Except DbError α) := fun s =>
  match x s with
  | .ok a s' => .ok (.ok a) s'
  | .error e _ => .ok (.error e) s

/-- `deleteEmptyOrphanArtifactIfSafe`. -/
def deleteEmptyOrphanArtifactIfSafe (artifactId : ArtifactId) : Db Bool := do
  let t ← query id
  if t.hashes.any (fun r => r.artifactId = artifactId) ||
      t.links.any (fun l => l.artifactId = artifactId) ||
      t.observations.any (fun o => o.artifactId = artifactId) ||
      t.attrs.any (fun a => a.artifactId = artifactId) then pure false
  else do
    write fun t => { t with
      artifacts := t.artifacts.filter fun a => !(a.id = artifactId && a.status = .active) }
    pure true

/-- Delete the artifact of a call that created one. -/
def deleteIfCreated (createdArtifact : Bool) (artifactId : ArtifactId) : Db Bool :=
  if createdArtifact then deleteEmptyOrphanArtifactIfSafe artifactId else pure false

/-- The row of an artifact that is made for a hash. -/
def newArtifact (host : Host) (input : AttachInput) : Artifact where
  id := host.uuid
  primaryHashId := none
  status := .active
  file := {
    fileName := input.fileName.filter (· ≠ "")
    fileType := input.fileType.filter (· ≠ "")
    mimeType := input.mimeType.filter (· ≠ "")
    sizeBytes := input.sizeBytes
    firstSeenAt := some (input.firstSeenAt.getD host.now)
    lastSeenAt := some ((input.lastSeenAt <|> input.firstSeenAt).getD host.now)
    metadata := [] }
  createdAt := host.now

/-- `INSERT INTO file_artifacts`. -/
def Tables.insertArtifact (a : Artifact) (t : Tables) : Tables :=
  { t with artifacts := t.artifacts ++ [a] }

/-- The row of a hash that is attached for the first time. -/
def newHash (host : Host) (input : AttachInput) (id : ℕ) (artifactId : ArtifactId)
    (hash : ExactHash) : HashRow where
  id := id
  artifactId := artifactId
  hash := hash
  isPrimary := false
  firstSeenAt := input.firstSeenAt.getD host.now
  lastSeenAt := (input.lastSeenAt <|> input.firstSeenAt).getD host.now
  verificationSource := input.verificationSource.filter (· ≠ "")

/-- `INSERT INTO file_artifact_hashes`. -/
def Tables.insertHash (row : HashRow) (t : Tables) : Tables :=
  { t with hashes := t.hashes ++ [row] }

/-- `attachExactHashInTx` when the hash has a row. -/
def attachExisting (host : Host) (input : AttachInput) (hash : ExactHash) (existing : FoundHash) :
    Db AttachResult := do
  let lastSeenAt := input.lastSeenAt.getD host.now
  if existing.row.artifactId ≠ existing.artifactId ∧
      input.artifactId.all (fun id => decide (id = existing.artifactId)) then do
    -- the row still sits on a tombstone of the artifact
    write (Tables.updateHashes (Rows.updateWhere (fun r => decide (r.id = existing.row.id))
      fun r => { r.moveTo existing.artifactId with
        lastSeenAt := max r.lastSeenAt lastSeenAt }))
    let _ ← recomputePrimaryHash existing.artifactId
    pure (.attached existing.artifactId existing.row.id false false)
  else
    match input.artifactId.filter fun id => decide (id ≠ existing.artifactId) with
    | some requested => do
      recordBoundElsewhere hash existing.artifactId requested
      pure (.conflict existing.artifactId existing.row.id)
    | none => do
      write (Tables.updateHashes (Rows.updateWhere (fun r => decide (r.id = existing.row.id))
        fun r => { r with lastSeenAt := max r.lastSeenAt lastSeenAt }))
      pure (.attached existing.artifactId existing.row.id false false)

/-- `attachExactHashInTx` when the insertion of the hash was refused by a unique key. -/
def attachRefused (input : AttachInput) (hash : ExactHash) (artifactId : ArtifactId)
    (createdArtifact : Bool) : Db AttachResult := do
  let cleaned ← deleteIfCreated createdArtifact artifactId
  match ← findArtifactByHash hash with
  | some again =>
    match input.artifactId.filter fun id => decide (id ≠ again.artifactId) with
    | some requested => do
      recordBoundElsewhere hash again.artifactId requested
      pure (.conflict again.artifactId again.row.id)
    | none => pure (.attached again.artifactId again.row.id false false)
  | none => do
    let _ ← deleteIfCreated createdArtifact artifactId
    pure (.uniqueViolation cleaned)

/-- The insertion of a hash into its artifact, in `attachExactHashInTx`. -/
def insertNewHash (host : Host) (input : AttachInput) (hash : ExactHash)
    (artifactId : ArtifactId) (createdArtifact : Bool) : Db AttachResult := do
  let hashId ← query fun t => nextId (t.hashes.map HashRow.id)
  match ← attempt (write (Tables.insertHash (newHash host input hashId artifactId hash))) with
  | .ok () => do
    let _ ← recomputePrimaryHash artifactId
    pure (.attached artifactId hashId createdArtifact true)
  | .error .uniqueViolation => attachRefused input hash artifactId createdArtifact
  | .error e => do
    let _ ← deleteIfCreated createdArtifact artifactId
    throw e

/-- `attachExactHashInTx` when the hash has no row. -/
def attachNew (host : Host) (input : AttachInput) (hash : ExactHash) : Db AttachResult :=
  match input.artifactId with
  | none => do
    write (Tables.insertArtifact (newArtifact host input))
    insertNewHash host input hash host.uuid true
  | some requested => insertNewHash host input hash requested false

/-- `attachExactHash` for a normalised hash. -/
def attachHash (host : Host) (input : AttachInput) (hash : ExactHash) : Db AttachResult := do
  match ← findArtifactByHash hash with
  | some existing => attachExisting host input hash existing
  | none => attachNew host input hash

/-- `attachExactHash`. -/
def attachExactHash (host : Host) (input : AttachInput) (hashType hashValue : String) :
    Db AttachResult :=
  match normalizeExactHash hashType hashValue with
  | none => pure .invalidHash
  | some hash => attachHash host input hash

/-- What `linkIocToArtifact` returns. -/
inductive LinkResult where
  | notExactHashIoc
  | linked (linkId : ℕ) (created : Bool)
  | conflict (linkId : ℕ) (artifactId : ArtifactId)

/-- The link of an IOC row. -/
def Tables.linkRow? (t : Tables) (type : HashType) (iocItemId : ℕ) : Option LinkRow :=
  Rows.lookup (fun l : LinkRow => (l.iocObservableType, l.iocItemId)) t.links (type, iocItemId)

/-- `INSERT INTO file_artifact_ioc_links`. -/
def Tables.insertLink (row : LinkRow) (t : Tables) : Tables :=
  { t with links := t.links ++ [row] }

/-- `linkIocToArtifact` for an IOC of an exact hash type. -/
def linkIoc (artifactId : ArtifactId) (iocItemId : ℕ) (type : HashType) (iocPublicId : ℕ)
    (linkedHashId : Option ℕ) : Db LinkResult := do
  match ← query fun t => t.linkRow? type iocItemId with
  | some row =>
    if row.artifactId ≠ artifactId then do
      recordMergeConflict type (toString iocPublicId) [row.artifactId, artifactId]
        "ioc_already_linked_to_other_artifact"
      pure (.conflict row.id row.artifactId)
    else do
      write (Tables.updateLinks (Rows.updateWhere
        (fun l => decide (l.id = row.id ∧ l.linkedHashId = none))
        fun l => { l with linkedHashId := linkedHashId }))
      let _ ← syncCanonicalIocFlag artifactId
      pure (.linked row.id false)
  | none => do
    let linkId ← query fun t => nextId (t.links.map LinkRow.id)
    write (Tables.insertLink {
      id := linkId
      artifactId := artifactId
      iocItemId := iocItemId
      iocObservableType := type
      iocPublicId := iocPublicId
      linkedHashId := linkedHashId
      isCanonicalIoc := false })
    let _ ← syncCanonicalIocFlag artifactId
    pure (.linked linkId true)

/-- `linkIocToArtifact`. -/
def linkIocToArtifact (artifactId : ArtifactId) (iocItemId : ℕ) (iocObservableType : String)
    (iocPublicId : ℕ) (linkedHashId : Option ℕ) : Db LinkResult :=
  match normalizeHashType iocObservableType with
  | none => pure .notExactHashIoc
  | some type => linkIoc artifactId iocItemId type iocPublicId linkedHashId

/-- The argument of `upsertSourceObservation` for a normalised hash. -/
structure ObservationInput where
  artifactId : ArtifactId
  sourceName : String
  (feedId observedHashId : Option ℕ)
  observedHash : ExactHash
  observationType : ObservationType
  relationMethod : RelationMethod
  confidence : Option String
  (firstSeenInSource lastSeenInSource : Option ℤ)
  rawRef : List (String × String)

/-- The order in which `jsonb` keeps the keys of an object: shorter keys first. -/
def jsonbOrder (properties : List (String × String)) : List (String × String) :=
  properties.insertionSort fun p q => toLex (p.1.length, p.1) ≤ toLex (q.1.length, q.1)

/-- The row that `upsertSourceObservation` looks for. -/
def ObservationInput.matchesRow (input : ObservationInput) (o : ObservationRow) : Bool :=
  decide (o.artifactId = input.artifactId ∧ o.sourceName = trim input.sourceName ∧
    o.observedHash = input.observedHash ∧ o.observationType = input.observationType ∧
    o.feedId = input.feedId)

/-- The row that `upsertSourceObservation` updates, as it is afterwards. The comparison of the
two JSON texts sees the order of the keys. -/
def ObservationInput.updateRow (input : ObservationInput) (now : ℤ) (o : ObservationRow) :
    ObservationRow :=
  let changed := decide (o.rawRef ≠ input.rawRef)
  { o with
    lastSeenInSource := max o.lastSeenInSource now
    lastChangedInSource := if changed then now else o.lastChangedInSource
    observedHashId := input.observedHashId <|> o.observedHashId
    confidence := input.confidence <|> o.confidence
    rawRef := if changed then jsonbOrder input.rawRef else o.rawRef }

/-- `upsertSourceObservation`. -/
def upsertSourceObservation (host : Host) (input : ObservationInput) : Db Unit := do
  if trim input.sourceName = "" then pure ()
  else
    let now := input.lastSeenInSource.getD host.now
    match ← query fun t => t.observations.find? input.matchesRow with
    | some row =>
      write (Tables.updateObservations (Rows.updateWhere (fun o => decide (o.id = row.id))
        (input.updateRow now)))
    | none =>
      write fun t => { t with
        observations := t.observations ++ [{
          id := nextId (t.observations.map ObservationRow.id)
          artifactId := input.artifactId
          sourceName := trim input.sourceName
          feedId := input.feedId
          observedHashId := input.observedHashId
          observedHash := input.observedHash
          observationType := input.observationType
          relationMethod := input.relationMethod
          confidence := input.confidence
          firstSeenInSource := input.firstSeenInSource.getD now
          lastSeenInSource := now
          lastChangedInSource := now
          rawRef := jsonbOrder input.rawRef }] }

/-- One `INSERT … ON CONFLICT DO UPDATE` of `upsertNonIdentityAttrs`. -/
def Tables.upsertAttr (row : AttrRow) (t : Tables) : Tables :=
  if row.key ∈ t.attrs.map AttrRow.key then
    { t with attrs := t.attrs.map (Rows.updateWhere (fun a => decide (a.key = row.key))
      fun a => { a with sourceName := a.sourceName <|> row.sourceName }) }
  else { t with attrs := t.attrs ++ [row] }

/-- `upsertNonIdentityAttrs`. -/
def upsertNonIdentityAttrs (artifactId : ArtifactId) (attrs : List (String × String))
    (sourceName : Option String) : Db Unit :=
  attrs.forM fun attr => write (Tables.upsertAttr ⟨artifactId, attr.1, attr.2, sourceName⟩)

end TalonHound.FileArtifacts
