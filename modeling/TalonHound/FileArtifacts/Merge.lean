import TalonHound.FileArtifacts.Primary

/-!
# Merging two artifacts

`mergeFileArtifacts`: both rows are read, tombstones are followed, and then the rows of
the duplicate move to the canonical artifact, which becomes the duplicate's parent.
-/

namespace TalonHound.FileArtifacts

/-- `FILE_METADATA_PLACEHOLDERS`. -/
def fileMetadataPlaceholders : List String := ["", "-", "n/a", "na", "null", "none", "unknown"]

/-- A text that says something. -/
def isInformative (value : String) : Bool :=
  decide (lowerCase (trim value) ∉ fileMetadataPlaceholders)

/-- `pickFileMetadataValue`. -/
def pickFileMetadataValue (current next : Option String) : Option String :=
  (current.filter isInformative <|> next.filter isInformative) <|>
    (current.filter (· ≠ "") <|> next.filter (· ≠ ""))

/-- `{ ...a, ...b }`, and `a || b` on `jsonb`. -/
def spread (a b : List (String × String)) : List (String × String) :=
  a.map (fun p => (p.1, ((b.find? (·.1 = p.1)).map Prod.snd).getD p.2)) ++
    b.filter fun p => decide (p.1 ∉ a.map Prod.fst)

/-- The JSON text of `size_conflict`. -/
def sizeConflict (canonical duplicate : ℕ) : String :=
  "\x7b\"canonical\":" ++ toString canonical ++ ",\"duplicate\":" ++ toString duplicate ++ "\x7d"

/-- `mergeArtifactMetadata`. -/
def mergeArtifactMetadata (canonical duplicate : FileMetadata) : FileMetadata where
  fileName := pickFileMetadataValue canonical.fileName duplicate.fileName
  fileType := pickFileMetadataValue canonical.fileType duplicate.fileType
  mimeType := pickFileMetadataValue canonical.mimeType duplicate.mimeType
  sizeBytes := canonical.sizeBytes <|> duplicate.sizeBytes
  firstSeenAt := Option.merge min canonical.firstSeenAt duplicate.firstSeenAt
  lastSeenAt := Option.merge max canonical.lastSeenAt duplicate.lastSeenAt
  metadata := let merged := spread canonical.metadata duplicate.metadata
    match canonical.sizeBytes, duplicate.sizeBytes with
    | some a, some b => if a ≠ b then spread merged [("size_conflict", sizeConflict a b)] else merged
    | _, _ => merged

/-- The argument of `mergeFileArtifacts`. Evidence and the time of the merge are JSON texts. -/
structure MergeInput where
  (canonicalArtifactId duplicateArtifactId : Option ArtifactId)
  (evidence method : Option String)
  mergedAt : String

/-- What `mergeFileArtifacts` returns. -/
inductive MergeResult where
  /-- `ok: false`, `missing_ids` -/
  | missingIds
  /-- `ok: false`, `artifact_not_found` -/
  | artifactNotFound
  /-- `ok: true, noop: true`, `same_artifact` -/
  | sameArtifact
  /-- `ok: true, noop: true`, `already_merged` -/
  | alreadyMerged
  /-- `ok: true, noop: false` -/
  | merged (canonicalArtifactId duplicateArtifactId : ArtifactId) (primary : PrimaryResult)

/-- `ok`. -/
def MergeResult.ok : MergeResult → Bool
  | .missingIds | .artifactNotFound => false
  | .sameArtifact | .alreadyMerged | .merged .. => true

/-- `noop`. -/
def MergeResult.noop : MergeResult → Bool
  | .sameArtifact | .alreadyMerged => true
  | .missingIds | .artifactNotFound | .merged .. => false

/-- What the two rows, read under the lock, let the call do. -/
inductive MergeDecision (ρ : Type) where
  | artifactNotFound | alreadyMerged
  | follow (canonicalId duplicateId : ArtifactId)
  | proceed (canonical duplicate : ρ)

/-- The tests of `mergeFileArtifacts` on the two rows. -/
def mergeDecision {ρ : Type} (status : ρ → Status) (canonicalId duplicateId : ArtifactId)
    (canonical duplicate : Option ρ) : MergeDecision ρ :=
  match canonical, duplicate with
  | some canonical, some duplicate =>
    match status canonical with
    | .merged into => .follow into duplicateId
    | .active =>
      match status duplicate with
      | .merged into => if into = canonicalId then .alreadyMerged else .follow canonicalId into
      | .active => .proceed canonical duplicate
  | _, _ => .artifactNotFound

/-- `DELETE FROM file_artifact_hashes`; the columns that refer to the row become null. -/
def Tables.deleteHash (id : ℕ) (t : Tables) : Tables :=
  { t with
    artifacts := t.artifacts.map fun a =>
      if a.primaryHashId = some id then { a with primaryHashId := none } else a
    hashes := t.hashes.filter fun r => decide (r.id ≠ id)
    links := t.links.map fun l =>
      if l.linkedHashId = some id then { l with linkedHashId := none } else l
    observations := t.observations.map fun o =>
      if o.observedHashId = some id then { o with observedHashId := none } else o }

/-- `DELETE FROM file_artifact_ioc_links`. -/
def Tables.deleteLink (id : ℕ) (t : Tables) : Tables :=
  { t with links := t.links.filter fun l => decide (l.id ≠ id) }

/-- One turn of the loop over the duplicate's hashes. -/
def moveHash (canonicalId : ArtifactId) (h : HashRow) : Db Unit := do
  let existing ← query fun t => t.hashRow? h.hash
  match existing.filter fun ex => decide (ex.id ≠ h.id) with
  | some ex =>
    if ex.artifactId = canonicalId then do
      write (Tables.updateLinks fun l =>
        if l.linkedHashId = some h.id then { l with linkedHashId := some ex.id } else l)
      write (Tables.updateObservations fun o =>
        if o.observedHashId = some h.id then { o with observedHashId := some ex.id } else o)
      write (Tables.deleteHash h.id)
    else pure ()
  | none =>
    write (Tables.updateHashes
      (Rows.updateWhere (fun r => decide (r.id = h.id)) (HashRow.moveTo canonicalId)))

/-- One turn of the loop over the duplicate's links. -/
def moveLink (canonicalId : ArtifactId) (link : LinkRow) : Db Unit := do
  let existing ← query fun t =>
    Rows.lookup (fun l : LinkRow => (l.iocObservableType, l.iocItemId)) t.links
      (link.iocObservableType, link.iocItemId)
  match existing.filter fun ex => decide (ex.id ≠ link.id) with
  | some ex =>
    if ex.artifactId = canonicalId then write (Tables.deleteLink link.id) else pure ()
  | none =>
    write (Tables.updateLinks
      (Rows.updateWhere (fun l => decide (l.id = link.id)) (LinkRow.moveTo canonicalId)))

/-- `INSERT … ON CONFLICT DO NOTHING`. -/
def insertAttrRow (attrs : List AttrRow) (a : AttrRow) : List AttrRow :=
  if a.key ∈ attrs.map AttrRow.key then attrs else attrs ++ [a]

/-- `INSERT INTO file_artifact_non_identity_attrs … ON CONFLICT DO NOTHING`. -/
def Tables.insertAttr (a : AttrRow) (t : Tables) : Tables :=
  { t with attrs := insertAttrRow t.attrs a }

/-- The rows of `file_artifact_non_identity_attrs` of an artifact. -/
def Tables.attrsOf (t : Tables) (id : ArtifactId) : List AttrRow :=
  t.attrs.filter fun a => decide (a.artifactId = id)

/-- `DELETE FROM file_artifact_non_identity_attrs` of an artifact. -/
def Tables.deleteAttrsOf (id : ArtifactId) (t : Tables) : Tables :=
  { t with attrs := t.attrs.filter fun a => decide (a.artifactId ≠ id) }

/-- One turn of the loop over the duplicate's attributes. -/
def moveAttr (canonicalId : ArtifactId) (a : AttrRow) : Db Unit :=
  write (Tables.insertAttr (a.moveTo canonicalId))

/-- The metadata that a tombstone gets on top of its own. -/
def mergeStamp (input : MergeInput) : List (String × String) :=
  [("merged_at", input.mergedAt), ("merge_method", input.method.getD "\"automatic\""),
    ("merge_evidence", input.evidence.getD "\x7b\x7d")]

/-- `UPDATE file_artifacts` of the canonical row with the merged metadata. -/
def setFileMetadata (canonicalId : ArtifactId) (file : FileMetadata) : Artifact → Artifact :=
  Rows.updateWhere (fun a => decide (a.id = canonicalId)) fun a => { a with file := file }

/-- `UPDATE file_artifacts` of the duplicate row into a tombstone. -/
def setTombstone (duplicateId canonicalId : ArtifactId) (stamp : List (String × String)) :
    Artifact → Artifact :=
  Rows.updateWhere (fun a => decide (a.id = duplicateId)) fun a =>
    { a with
      status := .merged canonicalId
      primaryHashId := none
      file := { a.file with metadata := spread a.file.metadata stamp } }

/-- The part of `mergeFileArtifacts` that moves the rows. -/
def performMerge (input : MergeInput) (canonical duplicate : Artifact) : Db MergeResult := do
  let dupHashes ← query fun t => t.hashesOf duplicate.id
  dupHashes.forM (moveHash canonical.id)
  let dupLinks ← query fun t => t.linksOf duplicate.id
  dupLinks.forM (moveLink canonical.id)
  write (Tables.updateObservations (Rows.updateWhere
    (fun o => decide (o.artifactId = duplicate.id)) (ObservationRow.moveTo canonical.id)))
  let attrs ← query fun t => t.attrsOf duplicate.id
  attrs.forM (moveAttr canonical.id)
  write (Tables.deleteAttrsOf duplicate.id)
  write (Tables.updateArtifacts (setFileMetadata canonical.id
    (mergeArtifactMetadata canonical.file duplicate.file)))
  write (Tables.updateArtifacts (setTombstone duplicate.id canonical.id (mergeStamp input)))
  let primary ← recomputePrimaryHash canonical.id
  let _ ← syncCanonicalIocFlag canonical.id
  pure (.merged canonical.id duplicate.id primary)

/-- `mergeFileArtifacts` between two ids; the fuel bounds the depth of the recursion. -/
def mergeArtifacts (input : MergeInput) : ℕ → ArtifactId → ArtifactId → Db MergeResult
  | 0, _, _ => throw .endlessRecursion
  | fuel + 1, canonicalId, duplicateId =>
    if canonicalId = duplicateId then pure .sameArtifact
    else do
      let t ← query id
      match mergeDecision Artifact.status canonicalId duplicateId (t.artifact? canonicalId)
          (t.artifact? duplicateId) with
      | .artifactNotFound => pure .artifactNotFound
      | .alreadyMerged => pure .alreadyMerged
      | .follow canonicalId duplicateId => mergeArtifacts input fuel canonicalId duplicateId
      | .proceed canonical duplicate => performMerge input canonical duplicate

/-- The number of nested calls within which every recursion along tombstones of `t` that
returns has returned: each of them follows one tombstone. -/
def Tables.recursionBound (t : Tables) : ℕ := 2 * t.artifacts.length + 1

/-- `mergeFileArtifacts`. -/
def mergeFileArtifacts (input : MergeInput) : Db MergeResult :=
  match input.canonicalArtifactId, input.duplicateArtifactId with
  | some canonicalId, some duplicateId => do
    let bound ← query Tables.recursionBound
    mergeArtifacts input bound canonicalId duplicateId
  | _, _ => pure .missingIds

end TalonHound.FileArtifacts
