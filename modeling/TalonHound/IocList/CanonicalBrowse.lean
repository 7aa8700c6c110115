import TalonHound.Library.GroupRanking
import TalonHound.FileArtifacts.Read
import TalonHound.IocExpiration.Membership

/-!
# The canonical browse page

The active IOC list with the file-artifact reader on. A page takes a window of the newest rows
of `ioc_items`, keeps the active ones with a source, groups them by identity and returns the
identities between its offset and its limit.
-/

namespace TalonHound.IocList

open GroupRanking
open TalonHound.FileArtifacts (ArtifactId HashRow lowerCase)
open TalonHound.IocExpiration (Membership)

/-- The parameters of a page. -/
structure PageRequest where
  (limit offset browseCap : ℕ)

/-- `Math.max(Number(browseCap) || 2000, 1)`. -/
def browseWindow (browseCap : ℕ) : ℕ := max (if browseCap = 0 then 2000 else browseCap) 1

/-- `canonicalBrowseRankLimit`. -/
def canonicalBrowseRankLimit (p : PageRequest) : ℕ := max (min (p.offset + p.limit) (browseWindow p.browseCap)) 1

/-- `canonicalBrowseCandidateLimit`. -/
def canonicalBrowseCandidateLimit (p : PageRequest) : ℕ :=
  let rankLimit := canonicalBrowseRankLimit p
  min (max (max (rankLimit * 8) (rankLimit * 16)) 200) 50000

/-- A row of `ioc_items`, with the columns of the browse query. -/
structure BrowseRow extends FileArtifacts.IocRow where
  status : Option String
  iocSourceId : Option ℕ
  (confidence category : Option String)
  deriving DecidableEq

/-- The tables of the browse query. -/
structure BrowseTables where
  items : List BrowseRow
  memberships : List Membership
  files : FileArtifacts.Tables

/-- A row of `ann`. -/
structure AnnotatedRow extends BrowseRow where
  artifactId : Option ArtifactId
  primaryHash : Option HashRow
  identityKey : String

namespace BrowseTables

variable (t : BrowseTables)

/-- `ORDER BY created_at DESC` on `ioc_items`. -/
def newestFirst : List BrowseRow := t.items.insertionSort fun a b => b.createdAt ≤ a.createdAt

/-- `recent`. -/
def recent (candidateLimit : ℕ) : List BrowseRow := t.newestFirst.take candidateLimit

/-- The `WHERE` of `filtered`. -/
def isFiltered (r : BrowseRow) : Bool :=
  decide (r.status.getD "active" = "active") &&
    (r.iocSourceId.isSome || t.memberships.any fun m =>
      decide (m.iocItemId = r.id ∧ m.iocObservableType = r.observableType ∧
        m.status = .active ∧ m.purgedAt = none))

/-- `identityKeySql`. -/
def identityKey (r : BrowseRow) (artifactId : Option ArtifactId) : String :=
  match artifactId with
  | some id => "a:" ++ toString id
  | none => "o:" ++ r.observableType ++ ":" ++ lowerCase r.observable

/-- `buildAnnotatedSelectSql`, for one row. -/
def annotate (r : BrowseRow) : AnnotatedRow :=
  let fa := t.files.annotateJoin r.toIocRow
  let artifactId := FileArtifacts.resolvedArtifactId fa
  { r with
    artifactId := artifactId
    primaryHash := t.files.annotatePrimaryHash fa
    identityKey := identityKey r artifactId }

/-- `ann`, for rows of `recent`. -/
def ann (rows : List BrowseRow) : List AnnotatedRow := (rows.filter t.isFiltered).map t.annotate

end BrowseTables

/-- `hashTypeRankSql`. -/
def hashTypeRank (observableType : String) : ℕ :=
  let type := lowerCase observableType
  if type = "sha256" then 0 else if type = "sha1" then 1 else if type = "md5" then 2 else 9

/-- `created_at` of an annotated row. -/
def AnnotatedRow.importedAt (r : AnnotatedRow) : ℤ := r.createdAt

/-- The row is the one of the primary hash of its file. -/
def AnnotatedRow.isPrimary (r : AnnotatedRow) : Bool :=
  r.primaryHash.any fun hash =>
    decide (lowerCase r.observable = lowerCase hash.hash.value ∧
      lowerCase r.observableType = lowerCase hash.hash.hashType.text)

/-- The order in which the winner row of an identity is chosen. -/
def winnerOrder (r : AnnotatedRow) : Lex (Bool × Lex (ℕ × Lex (ℤ × ℕ))) :=
  toLex (!r.isPrimary, toLex (hashTypeRank r.observableType, toLex (r.createdAt, r.id)))

/-- The order of the observables of an identity without a primary hash. -/
def observableOrder (r : AnnotatedRow) : Lex (ℕ × Lex (ℤ × ℕ)) :=
  toLex (hashTypeRank r.observableType, toLex (r.createdAt, r.id))

/-- `(ARRAY_AGG(… ORDER BY …))[1]`. -/
def firstBy {β γ : Type*} [LinearOrder γ] (order : AnnotatedRow → γ) (column : AnnotatedRow → β)
    (rows : List AnnotatedRow) : Option β :=
  ((rows.insertionSort fun a b => order a ≤ order b).head?).map column

/-- `ARRAY_AGG(DISTINCT … ORDER BY …)`, without nulls. -/
def distinctTexts (column : AnnotatedRow → Option String) (rows : List AnnotatedRow) :
    List String :=
  (rows.filterMap column).dedup.insertionSort (· ≤ ·)

/-- A row of `grouped`, as the page returns it. -/
structure GroupedRow where
  identityKey : String
  platformImportedAt : ℤ
  (id publicId : Option ℕ)
  (observable observableType : Option String)
  artifactId : Option ArtifactId
  status : Option String
  sourceCount : ℕ
  (sourceNames confidenceSet categorySet : List String)

/-- `buildIdentityGroupedSelectSql`, for one identity. -/
def groupedRow (rows : List AnnotatedRow) (k : String) : GroupedRow :=
  let members := rows.filter fun r => decide (r.identityKey = k)
  let primaryHash := firstBy (·.id) id
    (members.filter fun r => r.primaryHash.isSome) >>= AnnotatedRow.primaryHash
  { identityKey := k
    platformImportedAt := oldest AnnotatedRow.importedAt AnnotatedRow.identityKey rows k
    id := firstBy winnerOrder (·.id) members
    publicId := firstBy winnerOrder (·.publicId) members
    observable := primaryHash.map (·.hash.value) <|> firstBy observableOrder (·.observable) members
    observableType := primaryHash.map (·.hash.hashType.text) <|>
      firstBy observableOrder (·.observableType) members
    artifactId := (firstBy (·.id) id
      (members.filter fun r => r.artifactId.isSome)) >>= AnnotatedRow.artifactId
    status := firstBy (fun r => OrderDual.toDual r.createdAt)
      (fun r => r.status.getD "active") members
    sourceCount := members.length
    sourceNames := distinctTexts (·.sourceName) members
    confidenceSet := distinctTexts (·.confidence) members
    categorySet := distinctTexts (fun r => r.category.filter (· ≠ "")) members }

/-- The rank of a grouped row. -/
def GroupedRow.entry (g : GroupedRow) : Entry String := ⟨g.identityKey, g.platformImportedAt⟩

/-- `ranked`, without its limit. -/
def rankedIdentities (rows : List AnnotatedRow) : List (Entry String) :=
  ranking AnnotatedRow.importedAt AnnotatedRow.identityKey rows

/-- `grouped`, in the order of the result. -/
def groupedRows (rows : List AnnotatedRow) : List GroupedRow :=
  ((rows.map AnnotatedRow.identityKey).dedup.map (groupedRow rows)).insertionSort
    fun a b => Precedes a.entry b.entry

namespace BrowseTables

variable (t : BrowseTables)

/-- `buildCanonicalActiveBrowsePageSql`. -/
def canonicalActiveBrowsePage (candidateLimit rankLimit pageLimit pageOffset : ℕ) :
    List GroupedRow :=
  let ann := t.ann (t.recent candidateLimit)
  let ranked := (rankedIdentities ann).take rankLimit
  let pageIdentities :=
    (((ranked.insertionSort Precedes).drop pageOffset).take pageLimit).map Entry.key
  groupedRows (ann.filter fun r => decide (r.identityKey ∈ pageIdentities))

/-- `queryActiveIocCanonicalBrowsePage`. -/
def queryActiveIocCanonicalBrowsePage (p : PageRequest) : List GroupedRow :=
  t.canonicalActiveBrowsePage (canonicalBrowseCandidateLimit p) (canonicalBrowseRankLimit p)
    p.limit p.offset

end BrowseTables

end TalonHound.IocList
