import TalonHound.FileArtifacts.Constraints
import Mathlib.Data.Prod.Lex
import Mathlib.Data.List.Sort

/-!
# Primary hash and canonical link

`recomputePrimaryHash` and `syncCanonicalIocFlag`: both always return, and what they do
to the tables is a function of the tables.
-/

namespace TalonHound.FileArtifacts

open Returns Rows List

/-- Set `is_primary`. -/
def HashRow.setPrimary (b : Bool) (r : HashRow) : HashRow := { r with isPrimary := b }

/-- Set `is_canonical_ioc`. -/
def LinkRow.setCanonical (b : Bool) (l : LinkRow) : LinkRow := { l with isCanonicalIoc := b }

/-- `UPDATE file_artifacts SET primary_hash_id` of one artifact. -/
def setPrimaryHashId (artifactId : ArtifactId) (primary : Option ℕ) : Artifact → Artifact :=
  Rows.updateWhere (fun a => decide (a.id = artifactId)) fun a => { a with primaryHashId := primary }

namespace Tables

/-- The sort key of `syncCanonicalIocFlag`: the link of the primary hash first, then by the
rank of the type. -/
def linkRank (t : Tables) (l : LinkRow) : ℕ ×ₗ ℕ :=
  let linked := l.linkedHashId.bind (Rows.lookup HashRow.id t.hashes)
  toLex (if linked.any HashRow.isPrimary then 0 else 1,
    primaryPriorityRank ((linked.map fun h => h.hash.hashType).getD l.iocObservableType))

/-- The link that `syncCanonicalIocFlag` chooses. -/
def canonicalLink (t : Tables) (artifactId : ArtifactId) : Option LinkRow :=
  ((t.linksOf artifactId).insertionSort fun l m => t.linkRank l ≤ t.linkRank m).head?

/-- The hash that `recomputePrimaryHash` chooses. -/
def primaryHash (t : Tables) (artifactId : ArtifactId) : Option HashRow :=
  selectPrimaryHash (fun r : HashRow => r.hash.hashType) (t.hashesOf artifactId)

/-- The tables after `syncCanonicalIocFlag`. -/
def syncCanonical (artifactId : ArtifactId) (t : Tables) : Tables :=
  t.updateLinks (Rows.flagOnly LinkRow.id LinkRow.artifactId LinkRow.setCanonical artifactId
    ((t.canonicalLink artifactId).map LinkRow.id))

/-- The tables after `recomputePrimaryHash`. -/
def recomputePrimary (artifactId : ArtifactId) (t : Tables) : Tables :=
  match t.primaryHash artifactId with
  | none => t.updateArtifacts (setPrimaryHashId artifactId none)
  | some primary =>
    ((t.updateHashes (Rows.flagOnly HashRow.id HashRow.artifactId HashRow.setPrimary artifactId
      (some primary.id))).updateArtifacts
        (setPrimaryHashId artifactId (some primary.id))).syncCanonical artifactId

end Tables

/-- `syncCanonicalIocFlag`. -/
def syncCanonicalIocFlag (artifactId : ArtifactId) : Db (Option ℕ) := do
  let t ← query id
  match t.canonicalLink artifactId with
  | none => pure none
  | some canonical =>
    if ((t.linksOf artifactId).filter LinkRow.isCanonicalIoc).map LinkRow.id = [canonical.id] then
      pure (some canonical.id)
    else do
      write (Tables.updateLinks (Rows.clearOthers LinkRow.id LinkRow.artifactId
        LinkRow.isCanonicalIoc LinkRow.setCanonical artifactId canonical.id))
      write (Tables.updateLinks (Rows.mark LinkRow.id LinkRow.setCanonical canonical.id))
      pure (some canonical.id)

/-- What `recomputePrimaryHash` returns. -/
structure PrimaryResult where
  primary : Option (ℕ × ExactHash)
  promoted : Bool

/-- `recomputePrimaryHash`. -/
def recomputePrimaryHash (artifactId : ArtifactId) : Db PrimaryResult := do
  let rows ← query fun t => t.hashesOf artifactId
  match selectPrimaryHash (fun r : HashRow => r.hash.hashType) rows with
  | none =>
    write (Tables.updateArtifacts (setPrimaryHashId artifactId none))
    pure { primary := none, promoted := false }
  | some primary =>
    if (rows.find? HashRow.isPrimary).map HashRow.id = some primary.id then do
      write (Tables.updateArtifacts (setPrimaryHashId artifactId (some primary.id)))
      let _ ← syncCanonicalIocFlag artifactId
      pure { primary := some (primary.id, primary.hash), promoted := false }
    else do
      write (Tables.updateHashes (Rows.clearOthers HashRow.id HashRow.artifactId
        HashRow.isPrimary HashRow.setPrimary artifactId primary.id))
      write (Tables.updateHashes (Rows.mark HashRow.id HashRow.setPrimary primary.id))
      write (Tables.updateArtifacts (setPrimaryHashId artifactId (some primary.id)))
      let _ ← syncCanonicalIocFlag artifactId
      pure { primary := some (primary.id, primary.hash), promoted := true }

variable {r : HashRow} {l : LinkRow}

namespace Tables

variable {t : Tables} {artifactId : ArtifactId}

theorem mem_hashesOf : r ∈ t.hashesOf artifactId ↔ r ∈ t.hashes ∧ r.artifactId = artifactId := by
  simp [hashesOf]

theorem mem_linksOf : l ∈ t.linksOf artifactId ↔ l ∈ t.links ∧ l.artifactId = artifactId := by
  simp [linksOf]

/-- The chosen link is one of the artifact's. -/
theorem canonicalLink_mem (h : t.canonicalLink artifactId = some l) :
    l ∈ t.links ∧ l.artifactId = artifactId := by
  apply mem_linksOf.mp
  exact (mem_insertionSort _).mp (mem_of_mem_head? h)

/-- A link is chosen whenever the artifact has one. -/
theorem canonicalLink_eq_none : t.canonicalLink artifactId = none ↔ t.linksOf artifactId = [] := by
  unfold canonicalLink
  rw [head?_eq_none_iff]
  constructor
  · intro h
    exact perm_nil.mp (h ▸ (perm_insertionSort _ (t.linksOf artifactId)).symm)
  · intro h
    rw [h]
    rfl

/-- The chosen hash is one of the artifact's. -/
theorem primaryHash_mem (h : t.primaryHash artifactId = some r) :
    r ∈ t.hashes ∧ r.artifactId = artifactId :=
  mem_hashesOf.mp (selectPrimaryHash_spec h).1

/-- The chosen link is marked only among its artifact's links. -/
theorem syncCanonical_eq (hunique : t.Unique) (h : t.canonicalLink artifactId = some l) :
    (t.updateLinks (Rows.clearOthers LinkRow.id LinkRow.artifactId LinkRow.isCanonicalIoc
      LinkRow.setCanonical artifactId l.id)).updateLinks
        (Rows.mark LinkRow.id LinkRow.setCanonical l.id) = t.syncCanonical artifactId := by
  obtain ⟨hl, hart⟩ := canonicalLink_mem h
  have hgroup : ∀ r ∈ t.links, r.id = l.id → r.artifactId = artifactId := by
    intro r hr hid
    rw [inj_on_of_nodup_map hunique.link_id hr hl hid, hart]
  have hkeep : ∀ r : LinkRow, LinkRow.setCanonical (LinkRow.isCanonicalIoc r) r = r := fun _ => rfl
  have hmap := map_mark_clearOthers hkeep (fun _ _ => rfl) hgroup
  unfold syncCanonical
  rw [h]
  exact congrArg (fun links => { t with links := links }) hmap

/-- Flags that are already right are left as they are. -/
theorem syncCanonical_of_synced (hunique : t.Unique) (h : t.canonicalLink artifactId = some l)
    (hflags : ((t.linksOf artifactId).filter LinkRow.isCanonicalIoc).map LinkRow.id = [l.id]) :
    t.syncCanonical artifactId = t := by
  have hmap : t.links.map (Rows.flagOnly LinkRow.id LinkRow.artifactId LinkRow.setCanonical
      artifactId (some l.id)) = t.links := by
    apply map_eq_self
    intro r hr
    unfold Rows.flagOnly
    by_cases hart : r.artifactId = artifactId
    · have hiff : r.isCanonicalIoc = true ↔ r.id = l.id := by
        have hmem : r.id ∈ [l.id] ↔ r.id = l.id := mem_singleton
        rw [← hmem, ← hflags]
        simp only [mem_map, mem_filter, mem_linksOf]
        constructor
        · exact fun hc => ⟨r, ⟨⟨hr, hart⟩, hc⟩, rfl⟩
        · rintro ⟨r', ⟨⟨hr', -⟩, hc⟩, hid⟩
          rwa [← inj_on_of_nodup_map hunique.link_id hr' hr hid]
      rw [if_pos hart]
      have hflag : decide (some l.id = some r.id) = r.isCanonicalIoc := by
        rw [Bool.eq_iff_iff, hiff, decide_eq_true_eq, Option.some.injEq]
        exact eq_comm
      rw [hflag]
      rfl
    · rw [if_neg hart]
  unfold syncCanonical
  rw [h]
  exact congrArg (fun links => { t with links := links }) hmap

/-- Without links there is nothing to flag. -/
theorem syncCanonical_of_none (h : t.canonicalLink artifactId = none) :
    t.syncCanonical artifactId = t := by
  have hnone : ∀ r ∈ t.links, r.artifactId ≠ artifactId := by
    intro r hr hart
    have hmem : r ∈ t.linksOf artifactId := mem_linksOf.mpr ⟨hr, hart⟩
    rw [canonicalLink_eq_none.mp h] at hmem
    cases hmem
  have hmap : t.links.map (Rows.flagOnly LinkRow.id LinkRow.artifactId LinkRow.setCanonical
      artifactId none) = t.links := by
    apply map_eq_self
    intro r hr
    unfold Rows.flagOnly
    rw [if_neg (hnone r hr)]
  unfold syncCanonical
  rw [h]
  exact congrArg (fun links => { t with links := links }) hmap

end Tables

open Tables

/-- The columns of a link that flag updates leave alone. -/
structure SameLink (l l' : LinkRow) : Prop where
  id : l'.id = l.id
  artifactId : l'.artifactId = l.artifactId
  ioc : (l'.iocObservableType, l'.iocItemId) = (l.iocObservableType, l.iocItemId)
  iocPublicId : l'.iocPublicId = l.iocPublicId
  linkedHashId : l'.linkedHashId = l.linkedHashId

theorem sameLink_clearOthers (g : ArtifactId) (c : ℕ) (l : LinkRow) :
    SameLink l (Rows.clearOthers LinkRow.id LinkRow.artifactId LinkRow.isCanonicalIoc
      LinkRow.setCanonical g c l) := by
  unfold Rows.clearOthers
  split <;> exact ⟨rfl, rfl, rfl, rfl, rfl⟩

theorem sameLink_flagOnly (g : ArtifactId) (c : Option ℕ) (l : LinkRow) :
    SameLink l (Rows.flagOnly LinkRow.id LinkRow.artifactId LinkRow.setCanonical g c l) := by
  unfold Rows.flagOnly
  split <;> exact ⟨rfl, rfl, rfl, rfl, rfl⟩

/-- A flag update of links keeps the foreign keys. -/
theorem Tables.References.updateLinkFlags {t : Tables} {f : LinkRow → LinkRow} (h : t.References)
    (hf : ∀ l, SameLink l (f l)) : (t.updateLinks f).References := by
  refine h.updateLinks (fun l => (hf l).ioc) ?_ ?_
  · intro l hl
    rw [(hf l).artifactId]
    exact h.link_artifact l hl
  · intro l hl
    rw [(hf l).linkedHashId]
    exact h.link_hash l hl

/-- The constraints hold after the canonical flag was moved. -/
theorem Tables.Unique.syncCanonical {t : Tables} (h : t.Unique) (artifactId : ArtifactId) :
    (t.syncCanonical artifactId).Unique :=
  h.updateLinks (fun l => (sameLink_flagOnly _ _ l).id) (fun l => (sameLink_flagOnly _ _ l).ioc)
    (oneFlag_flagOnly h.link_id (fun _ _ => rfl) (fun _ _ => rfl) h.oneCanonical)

theorem Tables.References.syncCanonical {t : Tables} (h : t.References) (artifactId : ArtifactId) :
    (t.syncCanonical artifactId).References :=
  h.updateLinkFlags fun l => sameLink_flagOnly _ _ l

/-- `syncCanonicalIocFlag` returns the chosen link and flags it alone. -/
theorem syncCanonicalIocFlag_returns (artifactId : ArtifactId) (s : Database) :
    ∃ s', Returns (syncCanonicalIocFlag artifactId) s
        ((s.tables.canonicalLink artifactId).map LinkRow.id) s' ∧
      s'.tables = s.tables.syncCanonical artifactId := by
  unfold syncCanonicalIocFlag
  simp only [bind_of (returns_query.mpr ⟨rfl, rfl⟩), id_eq]
  cases hcanonical : s.tables.canonicalLink artifactId with
  | none =>
    refine ⟨s, pure_iff.mpr ⟨rfl, rfl⟩, ?_⟩
    exact (syncCanonical_of_none hcanonical).symm
  | some l =>
    obtain ⟨hl, hart⟩ := canonicalLink_mem hcanonical
    by_cases hflags :
        ((s.tables.linksOf artifactId).filter LinkRow.isCanonicalIoc).map LinkRow.id = [l.id]
    · simp only [if_pos hflags]
      refine ⟨s, pure_iff.mpr ⟨rfl, rfl⟩, ?_⟩
      exact (syncCanonical_of_synced s.unique hcanonical hflags).symm
    · simp only [if_neg hflags]
      -- first no other link of the artifact is canonical, then the chosen one is
      have heq := syncCanonical_eq s.unique hcanonical
      obtain ⟨s₁, hclear, ht₁⟩ := exists_returns_write (s := s)
        (f := Tables.updateLinks (Rows.clearOthers LinkRow.id LinkRow.artifactId
          LinkRow.isCanonicalIoc LinkRow.setCanonical artifactId l.id))
        (s.unique.updateLinks (fun l => (sameLink_clearOthers _ _ l).id)
          (fun l => (sameLink_clearOthers _ _ l).ioc)
          (oneFlag_clearOthers (fun _ _ => rfl) (fun _ _ => rfl) s.unique.oneCanonical))
        (s.references.updateLinkFlags fun l => sameLink_clearOthers _ _ l)
      obtain ⟨s₂, hmark, ht₂⟩ := exists_returns_write (s := s₁)
        (f := Tables.updateLinks (Rows.mark LinkRow.id LinkRow.setCanonical l.id))
        (by rw [ht₁, heq]; exact s.unique.syncCanonical artifactId)
        (by rw [ht₁, heq]; exact s.references.syncCanonical artifactId)
      refine ⟨s₂, ?_, ?_⟩
      · rw [bind_of hclear, bind_of hmark]
        exact pure_iff.mpr ⟨rfl, rfl⟩
      · rw [ht₂, ht₁]
        exact heq

/-- The columns of a hash row that flag updates leave alone. -/
structure SameHash (r r' : HashRow) : Prop where
  id : r'.id = r.id
  artifactId : r'.artifactId = r.artifactId
  hash : r'.hash = r.hash

theorem sameHash_clearOthers (g : ArtifactId) (c : ℕ) (r : HashRow) :
    SameHash r (Rows.clearOthers HashRow.id HashRow.artifactId HashRow.isPrimary
      HashRow.setPrimary g c r) := by
  unfold Rows.clearOthers
  split <;> exact ⟨rfl, rfl, rfl⟩

theorem sameHash_flagOnly (g : ArtifactId) (c : Option ℕ) (r : HashRow) :
    SameHash r (Rows.flagOnly HashRow.id HashRow.artifactId HashRow.setPrimary g c r) := by
  unfold Rows.flagOnly
  split <;> exact ⟨rfl, rfl, rfl⟩

namespace Tables

variable {t : Tables} {artifactId : ArtifactId}

/-- A flag update of hash rows keeps the unique keys when no artifact gets two primary hashes. -/
theorem Unique.updateHashFlags {f : HashRow → HashRow} (h : t.Unique)
    (hf : ∀ r, SameHash r (f r))
    (hprimary : Rows.OneFlag HashRow.artifactId HashRow.isPrimary f t.hashes) :
    (t.updateHashes f).Unique := by
  refine h.updateHashes (fun r => (hf r).id) (fun r => (hf r).hash) ?_ hprimary
  intro r hr s hs hartifact htype
  rw [(hf r).artifactId, (hf s).artifactId] at hartifact
  exact inj_on_of_nodup_map h.hash_type hr hs (Prod.ext hartifact htype)

/-- A flag update of hash rows keeps the foreign keys. -/
theorem References.updateHashFlags {f : HashRow → HashRow} (h : t.References)
    (hf : ∀ r, SameHash r (f r)) : (t.updateHashes f).References := by
  refine h.updateHashes (fun r => (hf r).id) ?_
  intro r hr
  rw [(hf r).artifactId]
  exact h.hash_artifact r hr

/-- `UPDATE file_artifacts SET primary_hash_id` keeps the unique keys. -/
theorem Unique.setPrimaryHashId (h : t.Unique) (primary : Option ℕ) :
    (t.updateArtifacts (setPrimaryHashId artifactId primary)).Unique :=
  h.updateArtifacts (updateWhere_keeps fun _ => rfl)

/-- `UPDATE file_artifacts SET primary_hash_id` keeps the foreign keys when it points at a hash. -/
theorem References.setPrimaryHashId (h : t.References) {primary : Option ℕ}
    (hprimary : ∀ id ∈ primary, id ∈ t.hashes.map HashRow.id) :
    (t.updateArtifacts (setPrimaryHashId artifactId primary)).References := by
  refine h.updateArtifacts (updateWhere_keeps fun _ => rfl) ?_ ?_
  · intro a ha
    have hinto : (FileArtifacts.setPrimaryHashId artifactId primary a).mergedInto =
        a.mergedInto := by
      apply updateWhere_keeps (c := Artifact.mergedInto)
      exact fun _ => rfl
    rw [hinto]
    exact h.merged_into a ha
  · intro a ha
    unfold FileArtifacts.setPrimaryHashId Rows.updateWhere
    split
    · exact hprimary
    · exact h.primary_hash a ha

/-- The chosen hash is marked only among its artifact's hashes. -/
theorem markPrimary_eq (hunique : t.Unique) (h : t.primaryHash artifactId = some r) :
    (t.updateHashes (Rows.clearOthers HashRow.id HashRow.artifactId HashRow.isPrimary
      HashRow.setPrimary artifactId r.id)).updateHashes
        (Rows.mark HashRow.id HashRow.setPrimary r.id) =
      t.updateHashes (Rows.flagOnly HashRow.id HashRow.artifactId HashRow.setPrimary artifactId
        (some r.id)) := by
  obtain ⟨hr, hart⟩ := primaryHash_mem h
  have hgroup : ∀ r' ∈ t.hashes, r'.id = r.id → r'.artifactId = artifactId := by
    intro r' hr' hid
    rw [inj_on_of_nodup_map hunique.hash_id hr' hr hid, hart]
  have hkeep : ∀ r : HashRow, HashRow.setPrimary (HashRow.isPrimary r) r = r := fun _ => rfl
  exact congrArg (fun hashes => { t with hashes := hashes })
    (map_mark_clearOthers hkeep (fun _ _ => rfl) hgroup)

/-- A primary flag that is already right is left as it is. -/
theorem flagOnly_of_primary (hunique : t.Unique) (hr : r ∈ t.hashes)
    (hart : r.artifactId = artifactId) (hprimary : r.isPrimary = true) :
    t.updateHashes (Rows.flagOnly HashRow.id HashRow.artifactId HashRow.setPrimary artifactId
      (some r.id)) = t := by
  have hmap : t.hashes.map (Rows.flagOnly HashRow.id HashRow.artifactId HashRow.setPrimary
      artifactId (some r.id)) = t.hashes := by
    apply map_eq_self
    intro r' hr'
    unfold Rows.flagOnly
    by_cases hart' : r'.artifactId = artifactId
    · rw [if_pos hart']
      have hflag : decide (some r.id = some r'.id) = r'.isPrimary := by
        rw [Bool.eq_iff_iff, decide_eq_true_eq, Option.some.injEq]
        constructor
        · intro hid
          rwa [← inj_on_of_nodup_map hunique.hash_id hr hr' hid]
        · intro hp
          rw [hunique.onePrimary r hr r' hr' hprimary hp (hart.trans hart'.symm)]
      rw [hflag]
      rfl
    · rw [if_neg hart']
  exact congrArg (fun hashes => { t with hashes := hashes }) hmap

end Tables

/-- `recomputePrimaryHash` returns, and the artifact's best hash is its primary one. -/
theorem recomputePrimaryHash_returns (artifactId : ArtifactId) (s : Database) :
    ∃ r s', Returns (recomputePrimaryHash artifactId) s r s' ∧
      s'.tables = s.tables.recomputePrimary artifactId := by
  unfold recomputePrimaryHash
  simp only [bind_of (returns_query.mpr ⟨rfl, rfl⟩)]
  unfold recomputePrimary
  cases hprimary : s.tables.primaryHash artifactId with
  | none =>
    rw [primaryHash] at hprimary
    simp only [hprimary]
    obtain ⟨s₁, hset, ht₁⟩ := exists_returns_write (s := s)
      (f := Tables.updateArtifacts (setPrimaryHashId artifactId none))
      (s.unique.setPrimaryHashId none) (s.references.setPrimaryHashId nofun)
    exact ⟨_, s₁, (bind_of hset).mpr (pure_iff.mpr ⟨rfl, rfl⟩), ht₁⟩
  | some r =>
    obtain ⟨hr, hart⟩ := primaryHash_mem hprimary
    have hmark := markPrimary_eq s.unique hprimary
    have hunique := s.unique.updateHashFlags (sameHash_flagOnly artifactId (some r.id))
      (oneFlag_flagOnly s.unique.hash_id (fun _ _ => rfl) (fun _ _ => rfl) s.unique.onePrimary)
    have hreferences := s.references.updateHashFlags (sameHash_flagOnly artifactId (some r.id))
    have hid : ∀ id ∈ some r.id, id ∈ (s.tables.updateHashes (Rows.flagOnly HashRow.id
        HashRow.artifactId HashRow.setPrimary artifactId (some r.id))).hashes.map HashRow.id := by
      rintro _ ⟨⟩
      have hids : (s.tables.updateHashes (Rows.flagOnly HashRow.id HashRow.artifactId
          HashRow.setPrimary artifactId (some r.id))).hashes.map HashRow.id =
            s.tables.hashes.map HashRow.id :=
        map_update fun x => (sameHash_flagOnly artifactId (some r.id) x).id
      rw [hids]
      exact mem_map_of_mem hr
    rw [primaryHash] at hprimary
    simp only [hprimary]
    by_cases hcurrent :
        ((s.tables.hashesOf artifactId).find? HashRow.isPrimary).map HashRow.id = some r.id
    · simp only [if_pos hcurrent]
      obtain ⟨r', hfind, hid'⟩ := Option.map_eq_some_iff.mp hcurrent
      obtain ⟨hr', hart'⟩ := mem_hashesOf.mp (mem_of_find?_eq_some hfind)
      have hsame := flagOnly_of_primary s.unique hr' hart' (find?_some hfind)
      rw [hid'] at hsame
      rw [hsame] at hid hunique hreferences ⊢
      obtain ⟨s₁, hset, ht₁⟩ := exists_returns_write (s := s)
        (f := Tables.updateArtifacts (setPrimaryHashId artifactId (some r.id)))
        (s.unique.setPrimaryHashId _) (s.references.setPrimaryHashId hid)
      obtain ⟨s₂, hsync, ht₂⟩ := syncCanonicalIocFlag_returns artifactId s₁
      refine ⟨{ primary := some (r.id, r.hash), promoted := false }, s₂, ?_, ?_⟩
      · rw [bind_of hset, bind_of hsync]
        exact pure_iff.mpr ⟨rfl, rfl⟩
      · rw [ht₂, ht₁]
    · simp only [if_neg hcurrent]
      obtain ⟨s₁, hclear, ht₁⟩ := exists_returns_write (s := s)
        (f := Tables.updateHashes (Rows.clearOthers HashRow.id HashRow.artifactId
          HashRow.isPrimary HashRow.setPrimary artifactId r.id))
        (s.unique.updateHashFlags (sameHash_clearOthers _ _)
          (oneFlag_clearOthers (fun _ _ => rfl) (fun _ _ => rfl) s.unique.onePrimary))
        (s.references.updateHashFlags (sameHash_clearOthers _ _))
      obtain ⟨s₂, hset, ht₂⟩ := exists_returns_write (s := s₁)
        (f := Tables.updateHashes (Rows.mark HashRow.id HashRow.setPrimary r.id))
        (by rw [ht₁, hmark]; exact hunique) (by rw [ht₁, hmark]; exact hreferences)
      rw [ht₁, hmark] at ht₂
      obtain ⟨s₃, hpoint, ht₃⟩ := exists_returns_write (s := s₂)
        (f := Tables.updateArtifacts (setPrimaryHashId artifactId (some r.id)))
        (s₂.unique.setPrimaryHashId _) (s₂.references.setPrimaryHashId (by rw [ht₂]; exact hid))
      obtain ⟨s₄, hsync, ht₄⟩ := syncCanonicalIocFlag_returns artifactId s₃
      refine ⟨{ primary := some (r.id, r.hash), promoted := true }, s₄, ?_, ?_⟩
      · rw [bind_of hclear, bind_of hset, bind_of hpoint, bind_of hsync]
        exact pure_iff.mpr ⟨rfl, rfl⟩
      · rw [ht₄, ht₃, ht₂]

end TalonHound.FileArtifacts
