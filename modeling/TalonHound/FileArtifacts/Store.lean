import TalonHound.Library.Returns
import TalonHound.Library.Rows
import TalonHound.FileArtifacts.Hash
import Mathlib.Tactic.MkIffOfInductiveProp

/-!
# The file-artifact tables

The rows of the tables, the unique and foreign keys over them, and the statements that
run against them. A database value carries its constraints, so a statement that would
break one is refused; it then changes nothing.
-/

namespace TalonHound.FileArtifacts

/-- A uuid of `file_artifacts`, in the order of its text. -/
abbrev ArtifactId := ℕ

/-- `file_artifacts.status` with `merged_into_artifact_id`, which
`file_artifacts_merged_requires_target` ties together. -/
inductive Status where
  | active
  | merged (into : ArtifactId)
  deriving DecidableEq

/-- The descriptive columns of `file_artifacts`; the values of `metadata` are JSON texts. -/
structure FileMetadata where
  (fileName fileType mimeType : Option String)
  sizeBytes : Option ℕ
  (firstSeenAt lastSeenAt : Option ℤ)
  metadata : List (String × String)

/-- A row of `file_artifacts`. -/
structure Artifact where
  id : ArtifactId
  primaryHashId : Option ℕ
  status : Status
  file : FileMetadata
  createdAt : ℤ

/-- `merged_into_artifact_id`. -/
def Artifact.mergedInto (a : Artifact) : Option ArtifactId :=
  match a.status with
  | .active => none
  | .merged into => some into

/-- A row of `file_artifact_hashes`. -/
structure HashRow where
  id : ℕ
  artifactId : ArtifactId
  hash : ExactHash
  isPrimary : Bool
  (firstSeenAt lastSeenAt : ℤ)
  verificationSource : Option String

/-- A row of `file_artifact_ioc_links`. -/
structure LinkRow where
  id : ℕ
  artifactId : ArtifactId
  iocItemId : ℕ
  iocObservableType : HashType
  iocPublicId : ℕ
  linkedHashId : Option ℕ
  isCanonicalIoc : Bool

/-- `OBSERVATION_TYPE`. -/
inductive ObservationType where
  | direct | providerMapping | enrichment | manual | backfill
  deriving DecidableEq

/-- `RELATION_METHOD`. -/
inductive RelationMethod where
  | sameSourceRecord | providerExactHashSet | enrichmentResult | manualMerge | migrationSeed

/-- A row of `file_artifact_source_observations`; `rawRef` lists the properties of an object. -/
structure ObservationRow where
  id : ℕ
  artifactId : ArtifactId
  sourceName : String
  (feedId observedHashId : Option ℕ)
  observedHash : ExactHash
  observationType : ObservationType
  relationMethod : RelationMethod
  confidence : Option String
  (firstSeenInSource lastSeenInSource lastChangedInSource : ℤ)
  rawRef : List (String × String)

/-- A row of `file_artifact_non_identity_attrs`. -/
structure AttrRow where
  artifactId : ArtifactId
  (attrType attrValue : String)
  sourceName : Option String

/-- A row of `file_artifact_merge_conflicts`. -/
structure ConflictRow where
  id : ℕ
  (hashType hashValue : String)
  candidateArtifactIds : List ArtifactId
  reason : String
  isOpen : Bool

/-- The columns of `ioc_items` that the file-artifact code reads. -/
structure IocRow where
  (id publicId : ℕ)
  (observable observableType : String)
  sourceName : Option String
  note : String
  (firstSeenAt lastSeenAt createdAt : ℤ)
  deriving DecidableEq

/-- The tables. -/
structure Tables where
  artifacts : List Artifact
  hashes : List HashRow
  links : List LinkRow
  observations : List ObservationRow
  attrs : List AttrRow
  conflicts : List ConflictRow
  iocItems : List IocRow

namespace Tables

/-- The row of `file_artifacts` with an id. -/
def artifact? (t : Tables) (id : ArtifactId) : Option Artifact :=
  Rows.lookup Artifact.id t.artifacts id

/-- Where a tombstone points. -/
def mergedInto (t : Tables) (id : ArtifactId) : Option ArtifactId :=
  (t.artifact? id).bind Artifact.mergedInto

/-- The artifact exists and is not a tombstone. -/
def IsActive (t : Tables) (id : ArtifactId) : Prop :=
  ∃ a, t.artifact? id = some a ∧ a.status = .active

/-- The row of an exact hash. -/
def hashRow? (t : Tables) (hash : ExactHash) : Option HashRow :=
  Rows.lookup HashRow.hash t.hashes hash

/-- The rows of `file_artifact_hashes` of an artifact. -/
def hashesOf (t : Tables) (id : ArtifactId) : List HashRow :=
  t.hashes.filter fun row => decide (row.artifactId = id)

/-- The rows of `file_artifact_ioc_links` of an artifact. -/
def linksOf (t : Tables) (id : ArtifactId) : List LinkRow :=
  t.links.filter fun row => decide (row.artifactId = id)

/-- The primary and unique keys. -/
@[mk_iff]
structure Unique (t : Tables) : Prop where
  artifact_id : (t.artifacts.map Artifact.id).Nodup
  hash_id : (t.hashes.map HashRow.id).Nodup
  hash_value : (t.hashes.map HashRow.hash).Nodup
  hash_type : (t.hashes.map fun row => (row.artifactId, row.hash.hashType)).Nodup
  one_primary : ((t.hashes.filter HashRow.isPrimary).map HashRow.artifactId).Nodup
  link_id : (t.links.map LinkRow.id).Nodup
  link_ioc : (t.links.map fun row => (row.iocObservableType, row.iocItemId)).Nodup
  one_canonical : ((t.links.filter LinkRow.isCanonicalIoc).map LinkRow.artifactId).Nodup
  observation_id : (t.observations.map ObservationRow.id).Nodup
  attr_value : (t.attrs.map fun row => (row.artifactId, row.attrType, row.attrValue)).Nodup
  conflict_id : (t.conflicts.map ConflictRow.id).Nodup
  ioc_id : (t.iocItems.map fun row => (row.observableType, row.id)).Nodup

/-- The foreign keys. -/
@[mk_iff]
structure References (t : Tables) : Prop where
  merged_into : ∀ a ∈ t.artifacts, ∀ into ∈ a.mergedInto, into ∈ t.artifacts.map Artifact.id
  primary_hash : ∀ a ∈ t.artifacts, ∀ id ∈ a.primaryHashId, id ∈ t.hashes.map HashRow.id
  hash_artifact : ∀ row ∈ t.hashes, row.artifactId ∈ t.artifacts.map Artifact.id
  link_artifact : ∀ row ∈ t.links, row.artifactId ∈ t.artifacts.map Artifact.id
  link_hash : ∀ row ∈ t.links, ∀ id ∈ row.linkedHashId, id ∈ t.hashes.map HashRow.id
  link_ioc : ∀ row ∈ t.links, (row.iocObservableType.text, row.iocItemId) ∈
    t.iocItems.map fun ioc => (ioc.observableType, ioc.id)
  observation_artifact : ∀ row ∈ t.observations, row.artifactId ∈ t.artifacts.map Artifact.id
  observation_hash : ∀ row ∈ t.observations, ∀ id ∈ row.observedHashId, id ∈ t.hashes.map HashRow.id
  attr_artifact : ∀ row ∈ t.attrs, row.artifactId ∈ t.artifacts.map Artifact.id

instance (t : Tables) : Decidable t.Unique := decidable_of_iff _ (Tables.unique_iff t).symm

instance (t : Tables) : Decidable t.References := decidable_of_iff _ (Tables.references_iff t).symm

end Tables

/-- Tables that meet their constraints. -/
structure Database where
  tables : Tables
  unique : tables.Unique
  references : tables.References

/-- A database is determined by its tables. -/
theorem Database.ext {s s' : Database} (h : s.tables = s'.tables) : s = s' := by
  cases s
  cases s'
  congr

/-- The tables without rows. -/
def Tables.empty : Tables := ⟨[], [], [], [], [], [], []⟩

/-- The database without rows. -/
def Database.empty : Database := ⟨Tables.empty, by decide, by decide⟩

/-- What a call can raise. `endlessRecursion` stands for a recursion that never returns. -/
inductive DbError where
  | uniqueViolation | foreignKeyViolation | endlessRecursion

/-- A program over the database: it returns a value, or raises and leaves what it had
written. -/
abbrev Db := EStateM DbError Database

/-- A query. -/
def query {α : Type} (read : Tables → α) : Db α := fun s => .ok (read s.tables) s

/-- A writing statement. One that breaks a constraint raises and changes nothing; unique
keys are checked before foreign keys. -/
def write (change : Tables → Tables) : Db Unit := fun s =>
  if hunique : (change s.tables).Unique then
    if hreferences : (change s.tables).References then
      .ok () ⟨change s.tables, hunique, hreferences⟩
    else .error .foreignKeyViolation s
  else .error .uniqueViolation s

/-- A query returns what it reads. -/
@[simp] theorem returns_query {α : Type} {read : Tables → α} {s s' : Database} {a : α} :
    Returns (query read) s a s' ↔ read s.tables = a ∧ s = s' := by
  constructor
  · intro h
    cases h
    exact ⟨rfl, rfl⟩
  · rintro ⟨rfl, rfl⟩
    rfl

/-- A statement that returns made its change. -/
theorem returns_write {f : Tables → Tables} {s s' : Database} :
    Returns (write f) s ⟨⟩ s' ↔ s'.tables = f s.tables := by
  unfold Returns write
  constructor
  · intro h
    split at h
    · split at h
      · cases h
        rfl
      · cases h
    · cases h
  · intro h
    have hunique : (f s.tables).Unique := h ▸ s'.unique
    have hreferences : (f s.tables).References := h ▸ s'.references
    rw [dif_pos hunique, dif_pos hreferences]
    congr 1
    exact Database.ext h.symm

/-- A statement returns when its change meets the constraints. -/
theorem exists_returns_write {f : Tables → Tables} {s : Database}
    (hunique : (f s.tables).Unique) (hreferences : (f s.tables).References) :
    ∃ s', Returns (write f) s ⟨⟩ s' ∧ s'.tables = f s.tables :=
  ⟨⟨_, hunique, hreferences⟩, returns_write.mpr rfl, rfl⟩

/-- `withSavepoint` inside an open transaction: what `fn` wrote before it raised is
rolled back. -/
def withSavepoint {α : Type} (fn : Db α) : Db α := fun s =>
  match fn s with
  | .ok result s' => .ok result s'
  | .error e _ => .error e s

/-- The next value of a sequence over a column. -/
def nextId (ids : List ℕ) : ℕ := ids.foldr max 0 + 1

/-- The next value is not in use. -/
theorem nextId_notMem (ids : List ℕ) : nextId ids ∉ ids := by
  have hle : ∀ id ∈ ids, id ≤ ids.foldr max 0 := by
    induction ids with
    | nil => exact fun _ h => nomatch h
    | cons a ids ih =>
      intro id hid
      rcases List.mem_cons.mp hid with rfl | hid
      · exact le_max_left _ _
      · exact le_trans (ih id hid) (le_max_right _ _)
  intro hmem
  have := hle _ hmem
  unfold nextId at this
  omega

end TalonHound.FileArtifacts
