import Mathlib.Data.List.Dedup
import TalonHound.FileArtifacts.SuppressionIndex

/-!
# The deciders of a suppression

The query asks for a live suppression of the pair or of a file that owns it. The two indexes answer
the same where their keys tell rows, hashes and pairs apart as the query does. They do not for
texts that the database and JavaScript fold to different lower case, such as a final sigma.
-/

namespace TalonHound.FileArtifacts

open List

section Hashes

variable {sqlLower : String → String} {t : Tables} {h : HashRow} {a : ArtifactId}
  {value type : String}

/-- The hash sits in the file of the artifact. -/
def Tables.InFile (t : Tables) (h : HashRow) (a : ArtifactId) : Prop :=
  ∃ fa sfa, t.artifact? h.artifactId = some fa ∧ t.artifact? a = some sfa ∧
    survivorArtifactId fa = survivorArtifactId sfa

theorem mem_hashesOfFiles {artifactIds : List ArtifactId} :
    h ∈ t.hashesOfFiles artifactIds ↔ h ∈ t.hashes ∧ ∃ a ∈ artifactIds, t.InFile h a := by
  unfold Tables.hashesOfFiles Tables.InFile
  rw [mem_filter]
  apply and_congr_right
  intro _
  cases t.artifact? h.artifactId with
  | none => simp
  | some fa => simp [Option.any_eq_true]

/-- The `EXISTS` of a file-scoped suppression, over the hashes of its file. -/
theorem fileScopedSuppressionExists_iff_inFile :
    t.fileScopedSuppressionExists sqlLower a value type = true ↔
      ∃ h ∈ t.hashes, (h.hash.value = sqlLower value ∧ h.hash.hashType.text = sqlLower type) ∧
        t.InFile h a := by
  unfold Tables.fileScopedSuppressionExists Tables.InFile
  simp only [Bool.and_eq_true, decide_eq_true_eq, any_eq_true]
  constructor
  · rintro ⟨-, h, hmem, ⟨htype, hvalue⟩, hsame⟩
    refine ⟨h, hmem, ⟨hvalue, htype⟩, ?_⟩
    split at hsame
    · next fa sfa hfa hsfa => exact ⟨fa, sfa, hfa, hsfa, of_decide_eq_true hsame⟩
    · cases hsame
  · rintro ⟨h, hmem, ⟨hvalue, htype⟩, fa, sfa, hfa, hsfa, hsame⟩
    refine ⟨?_, h, hmem, ⟨htype, hvalue⟩, ?_⟩
    · rw [← htype]
      cases h.hash.hashType <;> decide
    · rw [hfa, hsfa]
      exact decide_eq_true hsame

end Hashes

section Select

variable {sqlLower jsLower : String → String} {now : ℤ} {suppressions : List ScopedSuppression}
  {t : Tables} {value type : String} {rows : List SelectedSuppression} {sourceName : Option String}
  {s : ScopedSuppression}

/-- A live suppression matches the pair. -/
theorem queryIocSuppressedFromDb_iff :
    queryIocSuppressedFromDb sqlLower now (suppressions.map (·.toSuppressionRow)) value type t =
        true ↔
      ∃ s ∈ suppressions, s.isLive now = true ∧
        ((sqlLower s.iocValue = sqlLower value ∧ sqlLower s.iocType = sqlLower type) ∨
          ∃ a, s.fileArtifactId = some a ∧
            t.fileScopedSuppressionExists sqlLower a value type = true) := by
  unfold queryIocSuppressedFromDb SuppressionRow.covers
  simp only [any_map, any_eq_true, Function.comp, Bool.and_eq_true, Bool.or_eq_true,
    decide_eq_true_eq, Option.any_eq_true]

/-- An index has the pair under the key of two texts. -/
def SameKey (jsLower : String → String) (iocValue iocType value type : String) : Prop :=
  makeSuppressionKey jsLower iocValue iocType = makeSuppressionKey jsLower value type ∧
    makeSuppressionKey jsLower value type ≠ ""

/-- The query finds the pair in a row exactly if the row gives it a key of the index. -/
def RowToldAlike (sqlLower jsLower : String → String) (s : ScopedSuppression)
    (value type : String) : Prop :=
  sqlLower s.iocValue = sqlLower value ∧ sqlLower s.iocType = sqlLower type ↔
    SameKey jsLower (sqlLower s.iocValue) (sqlLower s.iocType) value type

/-- The query finds the pair in a hash exactly if the hash has its key. -/
def HashToldAlike (sqlLower jsLower : String → String) (h : ExactHash) (value type : String) :
    Prop :=
  h.value = sqlLower value ∧ h.hashType.text = sqlLower type ↔
    SameKey jsLower h.value h.hashType.text value type

/-- A pair of the list with the key of another is the same pair for the query, and a hash for the
list if it is one for the query. -/
def PairToldAlike (sqlLower jsLower : String → String) (p' p : SuppressionPair) : Prop :=
  makeSuppressionKey jsLower p'.iocValue p'.iocType = makeSuppressionKey jsLower p.iocValue p.iocType →
    sqlLower (trim p'.iocValue) = sqlLower p.iocValue ∧
      sqlLower (trim p'.iocType) = sqlLower p.iocType ∧
        (sqlLower p.iocType ∈ ["md5", "sha1", "sha256"] → (normalizeHashType (trim p'.iocType)).isSome)

/-- The rows are live suppressions, among them those of the pair, and for each file-scoped
one that covers it one of the same artifact. -/
structure Selects (sqlLower : String → String) (now : ℤ) (suppressions : List ScopedSuppression)
    (t : Tables) (value type : String) (rows : List SelectedSuppression) : Prop where
  live : ∀ r ∈ rows, ∃ s ∈ suppressions, s.isLive now = true ∧ s.selected sqlLower = r
  exact : ∀ s ∈ suppressions, s.isLive now = true →
    sqlLower s.iocValue = sqlLower value ∧ sqlLower s.iocType = sqlLower type →
      s.selected sqlLower ∈ rows
  file : ∀ s ∈ suppressions, s.isLive now = true → ∀ a, s.fileArtifactId = some a →
    t.fileScopedSuppressionExists sqlLower a value type = true →
      ∃ r ∈ rows, r.fileArtifactId = some a

/-- The index of such rows decides the pair as the query does. -/
theorem isPairSuppressed_of_selects
    (hsuppressions : ∀ s ∈ suppressions, s.isLive now = true →
      RowToldAlike sqlLower jsLower s value type)
    (hhashes : ∀ h ∈ t.hashes, HashToldAlike sqlLower jsLower h.hash value type)
    (hrows : Selects sqlLower now suppressions t value type rows) :
    isHit (isPairSuppressed jsLower (t.buildSuppressionIndexWithFileScope jsLower rows) value type
        sourceName) =
      queryIocSuppressedFromDb sqlLower now (suppressions.map (·.toSuppressionRow)) value type t := by
  obtain ⟨hglobal, hkeys⟩ := buildSuppressionIndexWithFileScope_spec jsLower t rows
  apply Bool.eq_iff_iff.mpr
  rw [isHit_isPairSuppressed hglobal, hkeys, queryIocSuppressedFromDb_iff]
  constructor
  · rintro ⟨-, ⟨r, hr, hkey⟩ | ⟨h, hh, hkey⟩⟩
    · -- a row with the key of the pair
      obtain ⟨s, hs, hlive, rfl⟩ := hrows.live r hr
      exact ⟨s, hs, hlive, .inl ((hsuppressions s hs hlive).mpr hkey)⟩
    · -- a hash of the file of a row
      obtain ⟨hmem, a, ha, hfile⟩ := mem_hashesOfFiles.mp hh
      rw [mem_dedup, mem_filterMap] at ha
      obtain ⟨r, hr, ha⟩ := ha
      obtain ⟨s, hs, hlive, rfl⟩ := hrows.live r hr
      have hsame := (hhashes h hmem).mpr hkey
      have hexists := fileScopedSuppressionExists_iff_inFile.mpr ⟨h, hmem, hsame, hfile⟩
      exact ⟨s, hs, hlive, .inr ⟨a, ha, hexists⟩⟩
  · rintro ⟨s, hs, hlive, hexact | ⟨a, ha, hexists⟩⟩
    · have hkey := (hsuppressions s hs hlive).mp hexact
      exact ⟨hkey.2, .inl ⟨s.selected sqlLower, hrows.exact s hs hlive hexact, hkey⟩⟩
    · obtain ⟨h, hmem, hsame, hfile⟩ := fileScopedSuppressionExists_iff_inFile.mp hexists
      obtain ⟨r, hr, hra⟩ := hrows.file s hs hlive a ha hexists
      have hkey := (hhashes h hmem).mp hsame
      refine ⟨hkey.2, .inr ⟨h, mem_hashesOfFiles.mpr ⟨hmem, a, ?_, hfile⟩, hkey⟩⟩
      rw [mem_dedup, mem_filterMap]
      exact ⟨r, hr, hra⟩

/-- Every live suppression is among the rows of the import index. -/
theorem selects_live : Selects sqlLower now suppressions t value type
    ((suppressions.filter (·.isLive now)).map (·.selected sqlLower)) where
  live := by
    intro r hr
    obtain ⟨s, hs, rfl⟩ := mem_map.mp hr
    obtain ⟨hs, hlive⟩ := mem_filter.mp hs
    exact ⟨s, hs, hlive, rfl⟩
  exact := by
    intro s hs hlive _
    exact mem_map_of_mem (mem_filter.mpr ⟨hs, hlive⟩)
  file := by
    intro s hs hlive a ha _
    exact ⟨s.selected sqlLower, mem_map_of_mem (mem_filter.mpr ⟨hs, hlive⟩), ha⟩

/-- A live row that is not file-scoped decides alone as the query does exactly if it is told alike. -/
theorem deciders_agree_alone_iff (hlive : s.isLive now = true) (hfile : s.fileArtifactId = none) :
    isIocSuppressedFromIndex jsLower (t.loadActiveSuppressionIndex sqlLower jsLower now [s]) value
        type = queryIocSuppressedFromDb sqlLower now [s.toSuppressionRow] value type t ↔
      RowToldAlike sqlLower jsLower s value type := by
  have hquery : queryIocSuppressedFromDb sqlLower now ([s].map (·.toSuppressionRow)) value type t =
      true ↔ _ := queryIocSuppressedFromDb_iff
  simp only [map_cons, map_nil, mem_singleton, exists_eq_left, hlive, hfile, true_and, reduceCtorEq,
    false_and, exists_false, or_false] at hquery
  obtain ⟨hglobal, hkeys⟩ := buildSuppressionIndexWithFileScope_spec jsLower t
    [s.selected sqlLower]
  have hfiles : [s.selected sqlLower].filterMap (·.fileArtifactId) = [] := by
    simp [ScopedSuppression.selected, hfile]
  have hindex : isIocSuppressedFromIndex jsLower
      (t.loadActiveSuppressionIndex sqlLower jsLower now [s]) value type = true ↔
        SameKey jsLower (sqlLower s.iocValue) (sqlLower s.iocType) value type := by
    unfold Tables.loadActiveSuppressionIndex
    rw [isIocSuppressedFromIndex_eq, filter_singleton, hlive, cond_true, map_singleton,
      isHit_isPairSuppressed hglobal, hkeys, hfiles]
    simp [mem_hashesOfFiles, SameKey, ScopedSuppression.selected, and_comm]
  rw [Bool.eq_iff_iff, hindex, hquery]
  exact ⟨Iff.symm, Iff.symm⟩

/-- The rows of the first query stay, and each row of the second has one with its texts and
its artifact. -/
theorem addUnseen_spec (rows more : List SelectedSuppression) :
    (∀ r ∈ addUnseen rows more, r ∈ rows ∨ r ∈ more) ∧ (∀ r ∈ rows, r ∈ addUnseen rows more) ∧
      ∀ r ∈ more, ∃ r' ∈ addUnseen rows more, r'.seenKey = r.seenKey := by
  unfold addUnseen
  induction more generalizing rows with
  | nil => exact ⟨fun r hr => .inl hr, fun r hr => hr, nofun⟩
  | cons r more ih =>
    rw [foldl_cons]
    split
    · next hseen =>
      obtain ⟨hfrom, hkeeps, hmore⟩ := ih rows
      refine ⟨fun r' hr' => (hfrom r' hr').imp id (mem_cons_of_mem r), hkeeps, ?_⟩
      intro r' hr'
      rcases mem_cons.mp hr' with rfl | hr'
      · obtain ⟨seen, hmem, hkey⟩ := mem_map.mp hseen
        exact ⟨seen, hkeeps seen hmem, hkey⟩
      · exact hmore r' hr'
    · obtain ⟨hfrom, hkeeps, hmore⟩ := ih (rows ++ [r])
      refine ⟨?_, fun r' hr' => hkeeps r' (mem_append_left _ hr'), ?_⟩
      · intro r' hr'
        rcases hfrom r' hr' with hr' | hr'
        · rcases mem_append.mp hr' with hr' | hr'
          · exact .inl hr'
          · exact .inr (mem_cons.mpr (.inl (mem_singleton.mp hr')))
        · exact .inr (mem_cons_of_mem r hr')
      · intro r' hr'
        rcases mem_cons.mp hr' with rfl | hr'
        · exact ⟨r', hkeeps r' (mem_append_right _ (mem_singleton_self r')), rfl⟩
        · exact hmore r' hr'

end Select

section Pairs

variable {jsLower : String → String} {pairs : List SuppressionPair} {p : SuppressionPair}

/-- A value that the queries ask for: a trimmed pair, under its key. -/
def Requested (jsLower : String → String) (pairs : List SuppressionPair) (key : String)
    (u : String × String) : Prop :=
  key = makeSuppressionKey jsLower u.1 u.2 ∧ u.1 ≠ "" ∧ u.2 ≠ "" ∧
    ∃ p ∈ pairs, u = (trim p.iocValue, trim p.iocType)

/-- Every entry is requested, and every pair with two texts has its key. -/
theorem uniquePairs_spec (jsLower : String → String) (pairs : List SuppressionPair) :
    (∀ key u, (uniquePairs jsLower pairs).lookup key = some u → Requested jsLower pairs key u) ∧
      ∀ p ∈ pairs, trim p.iocValue ≠ "" → trim p.iocType ≠ "" →
        makeSuppressionKey jsLower (trim p.iocValue) (trim p.iocType) ∈
          uniquePairs jsLower pairs := by
  unfold uniquePairs
  induction pairs using List.reverseRecOn with
  | nil => exact ⟨fun key u h => (by cases h), nofun⟩
  | append_singleton pairs p ih =>
    obtain ⟨hentries, hmem⟩ := ih
    rw [foldl_append, foldl_cons, foldl_nil]
    dsimp only
    have hwider : ∀ {key u}, Requested jsLower pairs key u →
        Requested jsLower (pairs ++ [p]) key u := by
      rintro key u ⟨hkey, hvalue, htype, p', hp', hu⟩
      exact ⟨hkey, hvalue, htype, p', mem_append_left _ hp', hu⟩
    split
    · next hempty =>
      refine ⟨fun key u h => hwider (hentries key u h), ?_⟩
      intro p' hp' hvalue htype
      rcases mem_append.mp hp' with hp' | hp'
      · exact hmem p' hp' hvalue htype
      · rw [mem_singleton.mp hp'] at hvalue htype
        exact absurd hempty (not_or.mpr ⟨hvalue, htype⟩)
    · next hfull =>
      rw [not_or] at hfull
      constructor
      · intro key u h
        rcases lookup_insert_cases h with ⟨hkey, hu⟩ | h
        · rw [hkey, hu]
          exact ⟨rfl, hfull.1, hfull.2, p, mem_append_right _ (mem_singleton_self p), rfl⟩
        · exact hwider (hentries key u h)
      · intro p' hp' hvalue htype
        rw [AList.mem_insert]
        rcases mem_append.mp hp' with hp' | hp'
        · exact .inr (hmem p' hp' hvalue htype)
        · rw [mem_singleton.mp hp']
          exact .inl rfl

/-- A pair with two texts has a value of its key among those that the queries ask for. -/
theorem exists_requested (jsLower : String → String) (hp : p ∈ pairs)
    (hvalue : trim p.iocValue ≠ "") (htype : trim p.iocType ≠ "") :
    ∃ u ∈ (uniquePairs jsLower pairs).entries.map (·.2), ∃ p' ∈ pairs,
      u = (trim p'.iocValue, trim p'.iocType) ∧
        makeSuppressionKey jsLower p'.iocValue p'.iocType =
          makeSuppressionKey jsLower p.iocValue p.iocType := by
  obtain ⟨hentries, hmem⟩ := uniquePairs_spec jsLower pairs
  have htrim : ∀ v t, makeSuppressionKey jsLower (trim v) (trim t) = makeSuppressionKey jsLower v t :=
    fun v t => by rw [makeSuppressionKey, trim_trim, trim_trim, ← makeSuppressionKey]
  obtain ⟨u, hu⟩ := Option.isSome_iff_exists.mp (AList.lookup_isSome.mpr (hmem p hp hvalue htype))
  obtain ⟨hsame, -, -, p', hp', rfl⟩ := hentries _ u hu
  rw [htrim, htrim] at hsame
  exact ⟨_, mem_map.mpr ⟨_, AList.mem_lookup_iff.mp hu, rfl⟩, p', hp', rfl, hsame.symm⟩

end Pairs

section Fetch

variable {sqlLower jsLower : String → String} {now : ℤ} {suppressions : List ScopedSuppression}
  {t : Tables} {p : SuppressionPair} {pairs : List SuppressionPair} {sourceName : Option String}

/-- The two queries select for each pair of the list. -/
theorem selects_fetch {values : List (String × String)} {u : String × String} (hu : u ∈ values)
    {value type : String}
    (hsame : sqlLower u.1 = sqlLower value ∧ sqlLower u.2 = sqlLower type)
    (hfileType : ∀ a, t.fileScopedSuppressionExists sqlLower a value type = true →
      values.any (fun u => (normalizeHashType u.2).isSome) = true) :
    Selects sqlLower now suppressions t value type
      (if values.any (fun u => (normalizeHashType u.2).isSome) then
        addUnseen (exactSuppressions sqlLower now suppressions values)
          (t.aliasSuppressions sqlLower now suppressions values)
      else exactSuppressions sqlLower now suppressions values) := by
  obtain ⟨hfrom, hkeeps, hmore⟩ := addUnseen_spec
    (exactSuppressions sqlLower now suppressions values)
    (t.aliasSuppressions sqlLower now suppressions values)
  have hexactLive : ∀ r ∈ exactSuppressions sqlLower now suppressions values,
      ∃ s ∈ suppressions, s.isLive now = true ∧ s.selected sqlLower = r := by
    intro r hr
    obtain ⟨s, hs, rfl⟩ := mem_map.mp hr
    obtain ⟨hs, hmatch⟩ := mem_filter.mp hs
    exact ⟨s, hs, (Bool.and_eq_true_iff.mp hmatch).1, rfl⟩
  have haliasLive : ∀ r ∈ t.aliasSuppressions sqlLower now suppressions values,
      ∃ s ∈ suppressions, s.isLive now = true ∧ s.selected sqlLower = r := by
    intro r hr
    obtain ⟨s, hs, rfl⟩ := mem_map.mp hr
    obtain ⟨hs, hmatch⟩ := mem_filter.mp hs
    exact ⟨s, hs, (Bool.and_eq_true_iff.mp hmatch).1, rfl⟩
  have hexact : ∀ s ∈ suppressions, s.isLive now = true →
      sqlLower s.iocValue = sqlLower value ∧ sqlLower s.iocType = sqlLower type →
        s.selected sqlLower ∈ exactSuppressions sqlLower now suppressions values := by
    intro s hs hlive hmatch
    refine mem_map_of_mem (mem_filter.mpr ⟨hs, Bool.and_eq_true_iff.mpr ⟨hlive, ?_⟩⟩)
    rw [any_eq_true]
    refine ⟨u, hu, decide_eq_true ?_⟩
    rw [hsame.1, hsame.2]
    exact hmatch
  constructor
  · intro r hr
    split at hr
    · exact (hfrom r hr).elim (hexactLive r) (haliasLive r)
    · exact hexactLive r hr
  · intro s hs hlive hmatch
    split
    · exact hkeeps _ (hexact s hs hlive hmatch)
    · exact hexact s hs hlive hmatch
  · intro s hs hlive a ha hexists
    rw [if_pos (hfileType a hexists)]
    have hmem : s.selected sqlLower ∈ t.aliasSuppressions sqlLower now suppressions values := by
      refine mem_map_of_mem (mem_filter.mpr ⟨hs, Bool.and_eq_true_iff.mpr ⟨hlive, ?_⟩⟩)
      rw [ha, Option.any_some, any_eq_true]
      refine ⟨u, hu, ?_⟩
      obtain ⟨h, hh, hhash, hfile⟩ := fileScopedSuppressionExists_iff_inFile.mp hexists
      rw [← hsame.1, ← hsame.2] at hhash
      exact fileScopedSuppressionExists_iff_inFile.mpr ⟨h, hh, hhash, hfile⟩
    obtain ⟨r, hr, hseen⟩ := hmore _ hmem
    exact ⟨r, hr, (Prod.mk.inj hseen).2.trans ha⟩

variable (sourceName) in
/-- The three deciders agree on a trimmed pair of a list when the keys of an index tell the live rows
and the hashes apart from the pair, and it from the pairs of the list, as the query does. A single
row that is not file-scoped decides alike exactly then. -/
theorem suppression_deciders_agree (hempty : jsLower "" = "") (hp : p ∈ pairs)
    (hvalue : trim p.iocValue = p.iocValue) (htype : trim p.iocType = p.iocType) :
    ((∀ s ∈ suppressions, s.isLive now = true →
        RowToldAlike sqlLower jsLower s p.iocValue p.iocType) →
      (∀ h ∈ t.hashes, HashToldAlike sqlLower jsLower h.hash p.iocValue p.iocType) →
      (∀ p' ∈ pairs, PairToldAlike sqlLower jsLower p' p) →
      isIocSuppressedFromIndex jsLower
          (t.loadActiveSuppressionIndex sqlLower jsLower now suppressions) p.iocValue p.iocType =
        queryIocSuppressedFromDb sqlLower now (suppressions.map (·.toSuppressionRow)) p.iocValue
          p.iocType t ∧
      isHit (isPairSuppressed jsLower
          (t.fetchActiveSuppressionIndex sqlLower jsLower now suppressions pairs) p.iocValue
          p.iocType sourceName) =
        queryIocSuppressedFromDb sqlLower now (suppressions.map (·.toSuppressionRow)) p.iocValue
          p.iocType t) ∧
    ∀ s : ScopedSuppression, s.isLive now = true → s.fileArtifactId = none →
      (isIocSuppressedFromIndex jsLower (t.loadActiveSuppressionIndex sqlLower jsLower now [s])
          p.iocValue p.iocType =
        queryIocSuppressedFromDb sqlLower now [s.toSuppressionRow] p.iocValue p.iocType t ↔
        RowToldAlike sqlLower jsLower s p.iocValue p.iocType) := by
  refine ⟨fun hsuppressions hhashes hpairs => ?_, fun s => deciders_agree_alone_iff⟩
  have hload : isIocSuppressedFromIndex jsLower
      (t.loadActiveSuppressionIndex sqlLower jsLower now suppressions) p.iocValue p.iocType =
        queryIocSuppressedFromDb sqlLower now (suppressions.map (·.toSuppressionRow)) p.iocValue
          p.iocType t := by
    rw [isIocSuppressedFromIndex_eq]
    exact isPairSuppressed_of_selects hsuppressions hhashes selects_live
  refine ⟨hload, ?_⟩
  by_cases hnone : p.iocValue = "" ∨ p.iocType = ""
  · have hkey : makeSuppressionKey jsLower p.iocValue p.iocType = "" := by
      unfold makeSuppressionKey
      rw [hvalue, htype, if_pos (hnone.imp (fun h => by rw [h, hempty]) fun h => by rw [h, hempty])]
    have hmiss : ∀ index, isHit (isPairSuppressed jsLower index p.iocValue p.iocType sourceName) =
        isHit (isPairSuppressed jsLower index p.iocValue p.iocType none) := by
      intro index
      unfold isPairSuppressed
      rw [if_pos hkey, if_pos hkey]
    rw [← hload, isIocSuppressedFromIndex_eq, hmiss]
    unfold isPairSuppressed
    rw [if_pos hkey, if_pos hkey]
  · obtain ⟨hvalueNe, htypeNe⟩ := not_or.mp hnone
    rw [← hvalue] at hvalueNe
    rw [← htype] at htypeNe
    obtain ⟨u, hu, p', hp', rfl, hkey⟩ := exists_requested jsLower hp hvalueNe htypeNe
    obtain ⟨hsameValue, hsameType, hhash⟩ := hpairs p' hp' hkey
    unfold Tables.fetchActiveSuppressionIndex
    rw [if_neg (ne_nil_of_mem hu)]
    apply isPairSuppressed_of_selects hsuppressions hhashes
    apply selects_fetch hu ⟨hsameValue, hsameType⟩
    intro a hexists
    -- the pair is a file hash, so its representative is one
    obtain ⟨h, -, ⟨-, htypes⟩, -⟩ := fileScopedSuppressionExists_iff_inFile.mp hexists
    rw [any_eq_true]
    refine ⟨_, hu, hhash ?_⟩
    rw [← htypes]
    cases h.hash.hashType <;> decide

end Fetch

/-- Two files in one, a hash of the first, an expired suppression of a domain and a
source-scoped one of the file. -/
theorem suppression_deciders_agree_file :
    let t : Tables := { Tables.empty with
      artifacts := [plainArtifact 1 (.merged 2), plainArtifact 2 .active]
      hashes := [plainHash 1 1 plainMd5] }
    let suppressions : List ScopedSuppression :=
      [⟨⟨"evil.test", "domain", true, none, some 5, none⟩, "global", none⟩,
        ⟨⟨"sample", "sha256", true, none, none, some 2⟩, "source", some "feed"⟩]
    let pairs : List SuppressionPair :=
      [⟨"evil.test", "domain", none⟩, ⟨plainMd5.value, "MD5", none⟩]
    isHit (isPairSuppressed lowerCase
        (t.fetchActiveSuppressionIndex lowerCase lowerCase 9 suppressions pairs) plainMd5.value
          "MD5" none) =
        queryIocSuppressedFromDb lowerCase 9 (suppressions.map (·.toSuppressionRow)) plainMd5.value
          "MD5" t := by
  intro t suppressions pairs
  have hp : ⟨plainMd5.value, "MD5", none⟩ ∈ pairs := mem_cons_of_mem _ mem_cons_self
  refine ((@suppression_deciders_agree lowerCase lowerCase 9 suppressions t _ pairs none (by decide)
    hp (by decide +kernel) (by decide +kernel)).1 ?_ ?_ ?_).2
  · unfold RowToldAlike SameKey
    decide +kernel
  · unfold HashToldAlike SameKey
    decide +kernel
  · unfold PairToldAlike
    decide +kernel

/-- Lower case letter by letter, as `lower` of the database folds Greek. -/
def greekLower (s : String) : String :=
  String.ofList (s.toList.map fun c => if c = 'Α' then 'α' else if c = 'Σ' then 'σ' else c.toLower)

/-- `toLowerCase`, where a sigma at the end of a word becomes a final one. -/
def finalSigmaLower (s : String) : String :=
  if ['Α', 'Σ'] <:+ s.toList then
    String.ofList ((greekLower s).toList.dropLast ++ ['ς'])
  else greekLower s

/-- A URL that is suppressed as it stands is not in the index. -/
theorem suppression_deciders_differ :
    let s : ScopedSuppression := ⟨⟨"x.gr/ΑΣ", "url", true, none, none, none⟩, "global", none⟩
    queryIocSuppressedFromDb greekLower 0 [s.toSuppressionRow] "x.gr/ΑΣ" "url" Tables.empty = true ∧
      isIocSuppressedFromIndex finalSigmaLower (Tables.empty.loadActiveSuppressionIndex greekLower
        finalSigmaLower 0 [s]) "x.gr/ΑΣ" "url" = false ∧
      isHit (isPairSuppressed finalSigmaLower (Tables.empty.fetchActiveSuppressionIndex greekLower
        finalSigmaLower 0 [s] [⟨"x.gr/ΑΣ", "url", none⟩]) "x.gr/ΑΣ" "url" none) = false := by
  decide +kernel

end TalonHound.FileArtifacts
