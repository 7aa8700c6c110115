import Mathlib.Data.List.AList
import TalonHound.FileArtifacts.Suppression

/-!
# Suppression indexes

Imports and batch lookups decide suppressions in memory: an index maps the key of a pair to
an entry, and file-scoped suppressions are expanded to the hashes of their file. One index
holds every live suppression, the other those that a list of pairs asks for. The database folds
texts with `lower`, the keys of an index with `toLowerCase`.
-/

namespace TalonHound.FileArtifacts

/-- `makeSuppressionKey`. -/
def makeSuppressionKey (jsLower : String → String) (iocValue iocType : String) : String :=
  let value := jsLower (trim iocValue)
  let type := jsLower (trim iocType)
  if value = "" ∨ type = "" then "" else type ++ "\t" ++ value

/-- A row of `ioc_suppressions` with the columns of its scope. -/
structure ScopedSuppression extends SuppressionRow where
  scope : String
  sourceName : Option String

/-- A row as the queries select it. -/
structure SelectedSuppression where
  (iocValue iocType scope : String)
  sourceName : Option String
  fileArtifactId : Option ArtifactId

/-- The select list of the queries: texts are folded to lower case. -/
def ScopedSuppression.selected (sqlLower : String → String) (s : ScopedSuppression) :
    SelectedSuppression where
  iocValue := sqlLower s.iocValue
  iocType := sqlLower s.iocType
  scope := s.scope
  sourceName := s.sourceName.map sqlLower
  fileArtifactId := s.fileArtifactId

/-- What the index holds for a key; `sources` lists a set. -/
structure IndexEntry where
  global : Bool
  sources : List String

/-- `emptyIndexEntry`. -/
def emptyIndexEntry : IndexEntry := ⟨false, []⟩

/-- A `Map` from suppression keys. -/
abbrev SuppressionIndex := AList fun _ : String => IndexEntry

/-- The entry of a key, or a fresh one. -/
def SuppressionIndex.entry (index : SuppressionIndex) (key : String) : IndexEntry :=
  (index.lookup key).getD emptyIndexEntry

section Build

variable (sqlLower jsLower : String → String)

/-- The body of the loop of `buildSuppressionIndex`. -/
def addSuppression (index : SuppressionIndex) (row : SelectedSuppression) : SuppressionIndex :=
  let key := makeSuppressionKey jsLower row.iocValue row.iocType
  if key = "" then index
  else
    let source := jsLower (trim (row.sourceName.getD ""))
    let sources := (index.entry key).sources
    index.insert key ⟨true, if source = "" then sources else sources.insert source⟩

/-- `buildSuppressionIndex`. -/
def buildSuppressionIndex (rows : List SelectedSuppression) : SuppressionIndex :=
  rows.foldl (addSuppression jsLower) ∅

/-- The hashes whose artifact has the survivor of one of `artifactIds`. -/
def Tables.hashesOfFiles (t : Tables) (artifactIds : List ArtifactId) : List HashRow :=
  t.hashes.filter fun h =>
    match t.artifact? h.artifactId with
    | some fa => artifactIds.any fun artifactId =>
        (t.artifact? artifactId).any fun sfa =>
          decide (survivorArtifactId fa = survivorArtifactId sfa)
    | none => false

/-- The body of the loop of `buildSuppressionIndexWithFileScope`. -/
def addFileHash (index : SuppressionIndex) (h : HashRow) : SuppressionIndex :=
  let key := makeSuppressionKey jsLower h.hash.value h.hash.hashType.text
  if key = "" then index
  else index.insert key { index.entry key with global := true }

/-- `buildSuppressionIndexWithFileScope`. -/
def Tables.buildSuppressionIndexWithFileScope (t : Tables) (rows : List SelectedSuppression) :
    SuppressionIndex :=
  let index := buildSuppressionIndex jsLower rows
  let artifactIds := (rows.filterMap (·.fileArtifactId)).dedup
  if artifactIds = [] then index else (t.hashesOfFiles artifactIds).foldl (addFileHash jsLower) index

/-- What `isPairSuppressed` returns, apart from `false`. -/
structure PairSuppression where
  (suppressed byGlobal : Bool)

/-- `isPairSuppressed`; `none` stands for `false`. -/
def isPairSuppressed (index : SuppressionIndex) (iocValue iocType : String)
    (sourceName : Option String) : Option PairSuppression :=
  let key := makeSuppressionKey jsLower iocValue iocType
  if key = "" then none
  else
    (index.lookup key).map fun entry =>
      let source := jsLower (trim (sourceName.getD ""))
      if entry.global then ⟨true, true⟩
      else if source ≠ "" ∧ source ∈ entry.sources then ⟨true, false⟩
      else ⟨false, false⟩

/-- `Boolean(hit?.suppressed)`. -/
def isHit (hit : Option PairSuppression) : Bool := hit.any (·.suppressed)

/-- `loadActiveSuppressionIndex`. -/
def Tables.loadActiveSuppressionIndex (t : Tables) (now : ℤ)
    (suppressions : List ScopedSuppression) : SuppressionIndex :=
  t.buildSuppressionIndexWithFileScope jsLower
    ((suppressions.filter (·.isLive now)).map (·.selected sqlLower))

/-- `isIocSuppressedFromIndex`. -/
def isIocSuppressedFromIndex (index : SuppressionIndex) (observable observableType : String) :
    Bool :=
  if index.entries = [] then false
  else isHit (isPairSuppressed jsLower index observable observableType none)

/-- A pair of a lookup. -/
structure SuppressionPair where
  (iocValue iocType : String)
  sourceName : Option String

/-- The pairs by key, trimmed: a later pair replaces an earlier one of its key. -/
def uniquePairs (pairs : List SuppressionPair) : AList fun _ : String => String × String :=
  pairs.foldl (fun uniq p =>
    let v := trim p.iocValue
    let t := trim p.iocType
    if v = "" ∨ t = "" then uniq else uniq.insert (makeSuppressionKey jsLower v t) (v, t)) ∅

/-- What `seen` holds of a row. -/
def SelectedSuppression.seenKey (r : SelectedSuppression) : String × Option ArtifactId :=
  (r.iocType ++ "\t" ++ r.iocValue, r.fileArtifactId)

/-- The rows of the second query that are not yet among those of the first. -/
def addUnseen (rows more : List SelectedSuppression) : List SelectedSuppression :=
  more.foldl (fun rows r =>
    if r.seenKey ∈ rows.map (·.seenKey) then rows else rows ++ [r]) rows

/-- The live suppressions of exactly one of the pairs `values`. -/
def exactSuppressions (now : ℤ) (suppressions : List ScopedSuppression)
    (values : List (String × String)) : List SelectedSuppression :=
  (suppressions.filter fun s => s.isLive now && values.any fun u =>
    decide (sqlLower s.iocValue = sqlLower u.1 ∧ sqlLower s.iocType = sqlLower u.2)).map
      (·.selected sqlLower)

/-- The live file-scoped suppressions whose file owns one of the pairs `values`. -/
def Tables.aliasSuppressions (t : Tables) (now : ℤ) (suppressions : List ScopedSuppression)
    (values : List (String × String)) : List SelectedSuppression :=
  (suppressions.filter fun s => s.isLive now && s.fileArtifactId.any fun artifactId =>
    values.any fun u => t.fileScopedSuppressionExists sqlLower artifactId u.1 u.2).map
      (·.selected sqlLower)

/-- `fetchActiveSuppressionIndex`. -/
def Tables.fetchActiveSuppressionIndex (t : Tables) (now : ℤ)
    (suppressions : List ScopedSuppression) (pairs : List SuppressionPair) : SuppressionIndex :=
  let values := (uniquePairs jsLower pairs).entries.map (·.2)
  if values = [] then ∅
  else
    let rows := exactSuppressions sqlLower now suppressions values
    let hasFileHashPair := values.any fun u => (normalizeHashType u.2).isSome
    t.buildSuppressionIndexWithFileScope jsLower
      (if hasFileHashPair then addUnseen rows (t.aliasSuppressions sqlLower now suppressions values)
        else rows)

end Build

variable {jsLower : String → String}

/-- An entry found after an insertion is the new one, or was there before. -/
theorem lookup_insert_cases {α : Type*} {entries : AList fun _ : String => α} {key k : String}
    {a b : α} (h : (entries.insert key a).lookup k = some b) :
    k = key ∧ b = a ∨ entries.lookup k = some b := by
  by_cases hk : k = key
  · subst hk
    rw [AList.lookup_insert, Option.some.injEq] at h
    exact .inl ⟨rfl, h.symm⟩
  · rw [AList.lookup_insert_ne hk] at h
    exact .inr h

namespace SuppressionIndex

/-- An index whose entries are all global. -/
def AllGlobal (index : SuppressionIndex) : Prop :=
  ∀ key entry, index.lookup key = some entry → entry.global = true

variable {τ : Type*} {add : SuppressionIndex → τ → SuppressionIndex} {key : τ → String}

/-- `add` inserts a global entry for the key of its argument, if that is not empty. -/
def Inserts (add : SuppressionIndex → τ → SuppressionIndex) (key : τ → String) : Prop :=
  ∀ index r, key r = "" ∧ add index r = index ∨
    key r ≠ "" ∧ ∃ entry : IndexEntry, entry.global = true ∧ add index r = index.insert (key r) entry

/-- One step of the loop. -/
theorem inserts_step (hadd : Inserts add key) (index : SuppressionIndex) (r : τ)
    (hglobal : index.AllGlobal) :
    (add index r).AllGlobal ∧ ∀ k, k ∈ add index r ↔ k ∈ index ∨ key r = k ∧ k ≠ "" := by
  rcases hadd index r with ⟨hempty, hsame⟩ | ⟨hkey, entry, hentry, hinsert⟩
  · rw [hsame]
    refine ⟨hglobal, fun k => ?_⟩
    rw [hempty]
    constructor
    · exact .inl
    · rintro (hk | ⟨rfl, hne⟩)
      · exact hk
      · exact absurd rfl hne
  · rw [hinsert]
    refine ⟨?_, fun k => ?_⟩
    · intro k e hlookup
      rcases lookup_insert_cases hlookup with ⟨-, rfl⟩ | hlookup
      · exact hentry
      · exact hglobal k e hlookup
    · rw [AList.mem_insert]
      constructor
      · rintro (rfl | hk)
        · exact .inr ⟨rfl, hkey⟩
        · exact .inl hk
      · rintro (hk | ⟨rfl, -⟩)
        · exact .inr hk
        · exact .inl rfl

/-- The whole loop. -/
theorem inserts_foldl (hadd : Inserts add key) (rows : List τ) (index : SuppressionIndex)
    (hglobal : index.AllGlobal) :
    (rows.foldl add index).AllGlobal ∧
      ∀ k, k ∈ rows.foldl add index ↔ k ∈ index ∨ ∃ r ∈ rows, key r = k ∧ k ≠ "" := by
  induction rows generalizing index with
  | nil => exact ⟨hglobal, fun k => by simp⟩
  | cons r rows ih =>
    obtain ⟨hstep, hmem⟩ := inserts_step hadd index r hglobal
    obtain ⟨hrest, hkeys⟩ := ih (add index r) hstep
    refine ⟨hrest, fun k => ?_⟩
    rw [List.foldl_cons, hkeys k, hmem k, or_assoc, List.exists_mem_cons_iff]

end SuppressionIndex

theorem addSuppression_inserts : SuppressionIndex.Inserts (addSuppression jsLower)
    fun row => makeSuppressionKey jsLower row.iocValue row.iocType := by
  intro index row
  unfold addSuppression
  dsimp only
  split
  · next hempty => exact .inl ⟨hempty, rfl⟩
  · next hkey => exact .inr ⟨hkey, _, rfl, rfl⟩

theorem addFileHash_inserts : SuppressionIndex.Inserts (addFileHash jsLower)
    fun h => makeSuppressionKey jsLower h.hash.value h.hash.hashType.text := by
  intro index h
  unfold addFileHash
  dsimp only
  split
  · next hempty => exact .inl ⟨hempty, rfl⟩
  · next hkey => exact .inr ⟨hkey, _, rfl, rfl⟩

/-- The index of the rows is global and has their keys. -/
theorem buildSuppressionIndex_spec (jsLower : String → String) (rows : List SelectedSuppression) :
    (buildSuppressionIndex jsLower rows).AllGlobal ∧ ∀ k, k ∈ buildSuppressionIndex jsLower rows ↔
      ∃ r ∈ rows, makeSuppressionKey jsLower r.iocValue r.iocType = k ∧ k ≠ "" := by
  have hempty : (∅ : SuppressionIndex).AllGlobal := by
    intro key entry h
    rw [AList.lookup_empty] at h
    cases h
  obtain ⟨hglobal, hkeys⟩ := SuppressionIndex.inserts_foldl addSuppression_inserts rows ∅ hempty
  refine ⟨hglobal, fun k => ?_⟩
  rw [buildSuppressionIndex, hkeys k, or_iff_right (AList.notMem_empty k)]

/-- The expanded index is global and has the keys of the rows and of the hashes of their
files. -/
theorem buildSuppressionIndexWithFileScope_spec (jsLower : String → String) (t : Tables) (rows : List SelectedSuppression) :
    (t.buildSuppressionIndexWithFileScope jsLower rows).AllGlobal ∧
      ∀ k, k ∈ t.buildSuppressionIndexWithFileScope jsLower rows ↔
        (∃ r ∈ rows, makeSuppressionKey jsLower r.iocValue r.iocType = k ∧ k ≠ "") ∨
          ∃ h ∈ t.hashesOfFiles (rows.filterMap (·.fileArtifactId)).dedup,
            makeSuppressionKey jsLower h.hash.value h.hash.hashType.text = k ∧ k ≠ "" := by
  obtain ⟨hglobal, hkeys⟩ := buildSuppressionIndex_spec jsLower rows
  unfold Tables.buildSuppressionIndexWithFileScope
  dsimp only
  split
  · next hnone =>
    refine ⟨hglobal, fun k => ?_⟩
    have hno : t.hashesOfFiles (rows.filterMap (·.fileArtifactId)).dedup = [] := by
      rw [hnone]
      apply List.filter_eq_nil_iff.mpr
      intro h _
      split <;> simp
    rw [hkeys k, hno]
    simp
  · obtain ⟨hglobal', hkeys'⟩ := SuppressionIndex.inserts_foldl addFileHash_inserts
      (t.hashesOfFiles (rows.filterMap (·.fileArtifactId)).dedup) _ hglobal
    refine ⟨hglobal', fun k => ?_⟩
    rw [hkeys' k, hkeys k]

/-- In a global index a pair is suppressed when the index has its key. -/
theorem isHit_isPairSuppressed {index : SuppressionIndex} (hglobal : index.AllGlobal)
    {iocValue iocType : String} {sourceName : Option String} :
    isHit (isPairSuppressed jsLower index iocValue iocType sourceName) = true ↔
      makeSuppressionKey jsLower iocValue iocType ≠ "" ∧
        makeSuppressionKey jsLower iocValue iocType ∈ index := by
  unfold isHit isPairSuppressed
  dsimp only
  split
  · next hempty => simp [hempty]
  · next hkey =>
    rw [← AList.lookup_isSome]
    cases hlookup : index.lookup (makeSuppressionKey jsLower iocValue iocType) with
    | none => simp
    | some entry => simp [hglobal _ _ hlookup, hkey]

/-- The test for an empty index makes no difference. -/
theorem isIocSuppressedFromIndex_eq (index : SuppressionIndex) (observable observableType : String) :
    isIocSuppressedFromIndex jsLower index observable observableType =
      isHit (isPairSuppressed jsLower index observable observableType none) := by
  unfold isIocSuppressedFromIndex
  split
  · next hempty =>
    obtain rfl : index = ∅ := AList.ext hempty
    unfold isPairSuppressed
    simp [isHit]
  · rfl

end TalonHound.FileArtifacts
