import TalonHound.FileArtifacts.Chains

/-!
# Reading the artifact of an IOC

The resolvers from an IOC row to its artifact. Some follow every tombstone, some at most
five, and the SQL fragments one.
-/

namespace TalonHound.FileArtifacts

/-- The `while` loop of `findArtifactByIocPublicId` and `findArtifactLinkedIocsByIocId`, with
the turns that are left. -/
def followGuarded (t : Tables) : ℕ → ArtifactId × Status → ArtifactId × Status
  | 0, row => row
  | turns + 1, (artifactId, status) =>
    match status with
    | .active => (artifactId, status)
    | .merged into =>
      match t.artifact? into with
      | none => (artifactId, status)
      | some next => followGuarded t turns (next.id, next.status)

/-- The guard of the loop. -/
def followGuard : ℕ := 5

/-- The row that `findArtifactByIocPublicId` returns. -/
structure LinkedArtifact where
  artifactId : ArtifactId
  (iocPublicId iocItemId : ℕ)
  iocObservableType : HashType
  isCanonicalIoc : Bool
  linkedHashId : Option ℕ
  status : Status

/-- `findArtifactByIocPublicId`. -/
def findArtifactByIocPublicId (publicId : ℕ) (t : Tables) : Option LinkedArtifact := do
  let l ← t.links.find? fun l => decide (l.iocPublicId = publicId)
  let a ← t.artifact? l.artifactId
  let resolved := followGuarded t followGuard (a.id, a.status)
  some {
    artifactId := resolved.1
    iocPublicId := l.iocPublicId
    iocItemId := l.iocItemId
    iocObservableType := l.iocObservableType
    isCanonicalIoc := l.isCanonicalIoc
    linkedHashId := l.linkedHashId
    status := resolved.2 }

/-- The links of an artifact and of the tombstones that point at it. -/
def Tables.scopeLinks (t : Tables) (artifactId : ArtifactId) : List LinkRow :=
  t.links.filter fun l =>
    decide (l.artifactId = artifactId ∨ t.mergedInto l.artifactId = some artifactId)

/-- What `loadArtifactDetail` returns. -/
structure ArtifactDetail where
  artifact : Artifact
  primaryHash : Option HashRow
  knownHashes : List HashRow
  links : List LinkRow
  canonicalLink : Option LinkRow
  (isCanonicalIoc isLegacyAlias : Bool)
  nonIdentityAttrs : List AttrRow

/-- The part of `loadArtifactDetail` after the active row was found. -/
def Tables.artifactDetail (t : Tables) (requestedPublicId : Option ℕ) (artifact : Artifact) :
    ArtifactDetail :=
  let hashes := (t.hashesOf artifact.id).insertionSort fun a b =>
    primaryPriorityRank a.hash.hashType ≤ primaryPriorityRank b.hash.hashType
  let links := (t.scopeLinks artifact.id).insertionSort fun a b =>
    toLex (!a.isCanonicalIoc, a.iocObservableType.text) ≤
      toLex (!b.isCanonicalIoc, b.iocObservableType.text)
  let canonicalLink := links.find? LinkRow.isCanonicalIoc <|> links.head?
  let canonicalPublicId := canonicalLink.map LinkRow.iocPublicId
  { artifact := artifact
    primaryHash := hashes.find? HashRow.isPrimary <|>
      selectPrimaryHash (fun r : HashRow => r.hash.hashType) hashes
    knownHashes := hashes
    links := links
    canonicalLink := canonicalLink
    isCanonicalIoc := requestedPublicId.isSome && decide (canonicalPublicId = requestedPublicId)
    isLegacyAlias := requestedPublicId.isSome && canonicalPublicId.isSome &&
      decide (canonicalPublicId ≠ requestedPublicId)
    nonIdentityAttrs := (t.attrsOf artifact.id).insertionSort fun a b =>
      a.attrType ≤ b.attrType }

/-- `loadArtifactDetail`; the fuel bounds the depth of the recursion. -/
def loadArtifactDetail (requestedPublicId : Option ℕ) :
    ℕ → ArtifactId → Db (Option ArtifactDetail)
  | 0, _ => throw .endlessRecursion
  | fuel + 1, artifactId => do
    match ← query fun t => t.artifact? artifactId with
    | none => pure none
    | some a =>
      match a.status with
      | .merged into => loadArtifactDetail requestedPublicId fuel into
      | .active => query fun t => some (t.artifactDetail requestedPublicId a)

/-- `loadArtifactDetail` describes the row at the end of the chain. -/
theorem loadArtifactDetail_eq {s : Database} {id root : ArtifactId} {n fuel : ℕ}
    (requestedPublicId : Option ℕ) (hlead : LeadsTo s.tables.mergedInto n id root)
    (hfuel : n < fuel) :
    Returns (loadArtifactDetail requestedPublicId fuel id) s
      ((s.tables.artifact? root).map (s.tables.artifactDetail requestedPublicId)) s := by
  refine follows_eq (Option.map (s.tables.artifactDetail requestedPublicId)) ?_ ?_ ?_ hlead hfuel
  all_goals
    intros
    rw [loadArtifactDetail, Returns.bind_of (returns_query.mpr ⟨rfl, rfl⟩)]
    simp_all

/-- `SURVIVOR_ARTIFACT_ID_SQL_FA`. -/
def survivorArtifactId (fa : Artifact) : ArtifactId :=
  match fa.status with
  | .merged into => into
  | .active => fa.id

/-- `artifactAnnotateJoinSql`: the link and artifact that an IOC row is joined with. -/
def Tables.annotateJoin (t : Tables) (ioc : IocRow) : Option Artifact := do
  let fal ← t.links.find? fun l =>
    decide (l.iocItemId = ioc.id ∧ l.iocObservableType.text = ioc.observableType)
  t.artifact? fal.artifactId

/-- `resolvedArtifactIdSql`. -/
def resolvedArtifactId (fa : Option Artifact) : Option ArtifactId :=
  fa.map fun fa =>
    match fa.status with
    | .merged into => into
    | .active => fa.id

/-- The artifact whose primary hash `artifactAnnotateJoinSql` joins. -/
def annotateHashArtifactId (fa : Option Artifact) : Option ArtifactId :=
  fa.map fun fa => fa.mergedInto.getD fa.id

/-- The primary hash that `artifactAnnotateJoinSql` joins. -/
def Tables.annotatePrimaryHash (t : Tables) (fa : Option Artifact) : Option HashRow :=
  t.hashes.find? fun faph =>
    decide (some faph.artifactId = annotateHashArtifactId fa ∧ faph.isPrimary = true)

/-- `resolveSurvivorArtifactIdForIoc`. -/
def resolveSurvivorArtifactIdForIoc (iocItemId : ℕ) (t : Tables) : Option ArtifactId :=
  if iocItemId = 0 then none
  else do
    let l ← t.links.find? fun l => decide (l.iocItemId = iocItemId)
    let fa ← t.artifact? l.artifactId
    some (survivorArtifactId fa)

/-- `mapPublicIdsToArtifactIds`. A later row with the same public id replaces an earlier one. -/
def mapPublicIdsToArtifactIds (readEnabled : Bool) (publicIds : List ℕ) (t : Tables) :
    ℕ → Option ArtifactId := fun publicId =>
  if publicIds = [] ∨ readEnabled = false then none
  else
    let rows := t.links.filterMap fun l =>
      if l.iocPublicId ∈ publicIds then
        (t.artifact? l.artifactId).map fun a => (l.iocPublicId, survivorArtifactId a)
      else none
    (rows.reverse.find? fun row => decide (row.1 = publicId)).map Prod.snd

/-- What `findArtifactLinkedIocsByIocId` returns. -/
structure LinkedIocs where
  artifactId : ArtifactId
  (linkedIocIds linkedIocPublicIds : List ℕ)

/-- `SELECT DISTINCT ON (ioc_item_id)` over the links of an artifact, its own before those on
its tombstones. -/
def Tables.distinctScopeLinks (t : Tables) (artifactId : ArtifactId) : List LinkRow :=
  let rank := fun l : LinkRow =>
    toLex (l.iocItemId, if l.artifactId = artifactId then 0 else 1)
  Rows.firstOfEach LinkRow.iocItemId
    ((t.scopeLinks artifactId).insertionSort fun a b => rank a ≤ rank b)

/-- `findArtifactLinkedIocsByIocId`. -/
def findArtifactLinkedIocsByIocId (readEnabled : Bool) (iocItemId : ℕ) (t : Tables) :
    Option LinkedIocs :=
  if readEnabled = false ∨ iocItemId = 0 then none
  else do
    let l ← t.links.find? fun l => decide (l.iocItemId = iocItemId)
    let a ← t.artifact? l.artifactId
    let artifactId := (followGuarded t followGuard (a.id, a.status)).1
    let links := t.distinctScopeLinks artifactId
    some {
      artifactId := artifactId
      linkedIocIds := links.map LinkRow.iocItemId
      linkedIocPublicIds := links.map LinkRow.iocPublicId }

/-- `resolveArtifactScopedIocIds`. -/
def resolveArtifactScopedIocIds (readEnabled : Bool) (iocItemId : ℕ) (t : Tables) : List ℕ :=
  if iocItemId = 0 then []
  else
    let ids := (((findArtifactLinkedIocsByIocId readEnabled iocItemId t).map
      LinkedIocs.linkedIocIds).getD []).filter fun id => decide (0 < id)
    if ids = [] then [iocItemId] else (iocItemId :: ids).dedup

/-- `seed_resolved`: the artifact of every link of the seed, one hop along. -/
def Tables.seedArtifacts (t : Tables) (seed : ℕ) : List ArtifactId :=
  (t.links.filter fun l => decide (l.iocItemId = seed)).map fun l =>
    ((t.artifact? l.artifactId).map survivorArtifactId).getD l.artifactId

/-- The rows that the query of `mapIocIdsToArtifactScopedIocIds` returns for a seed. -/
def Tables.scopedIocIds (t : Tables) (seed : ℕ) : List ℕ :=
  ((t.seedArtifacts seed).flatMap fun artifactId =>
    (t.scopeLinks artifactId).map LinkRow.iocItemId).dedup

/-- One turn of the loop of `mapIocIdsToArtifactScopedIocIds` over the rows of a seed. -/
def addScoped (seed : ℕ) (bucket : List ℕ) (linked : ℕ) : List ℕ :=
  let bucket := if linked ∈ bucket then bucket else bucket ++ [linked]
  if seed ∈ bucket then bucket else seed :: bucket

/-- `mapIocIdsToArtifactScopedIocIds`. -/
def mapIocIdsToArtifactScopedIocIds (readEnabled : Bool) (iocIds : List ℕ) (t : Tables) :
    ℕ → Option (List ℕ) := fun seed =>
  if seed ∈ iocIds ∧ 0 < seed then
    if readEnabled = false then some [seed]
    else some ((t.scopedIocIds seed).foldl (addScoped seed) [seed])
  else none

end TalonHound.FileArtifacts
