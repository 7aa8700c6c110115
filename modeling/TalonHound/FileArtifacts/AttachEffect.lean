import TalonHound.FileArtifacts.Placement

/-!
# What attaching does

The outcomes of `attachExactHash`, stated on the placement, and the statements under
which it and the other attaching calls return.
-/

namespace TalonHound.FileArtifacts

open Returns Rows Option List

variable {s s' : Database} {id : ArtifactId}

/-- A call of `findActiveArtifact` that returned reached the end of the chain. -/
theorem findActiveArtifact_returns {fuel : ℕ} {found : Option Artifact}
    (h : Returns (findActiveArtifact fuel id) s found s') :
    s' = s ∧ ∃ n root, LeadsTo s.tables.mergedInto n id root ∧ found = s.tables.artifact? root := by
  induction fuel generalizing id with
  | zero => exact absurd h throw_iff
  | succ fuel ih =>
    unfold findActiveArtifact at h
    rw [bind_of (returns_query.mpr ⟨rfl, rfl⟩)] at h
    cases hrow : s.tables.artifact? id with
    | none =>
      simp only [hrow] at h
      obtain ⟨rfl, rfl⟩ := pure_iff.mp h
      exact ⟨rfl, 0, id, .root (by rw [Tables.mergedInto, hrow, bind_none]), hrow.symm⟩
    | some a =>
      simp only [hrow] at h
      cases hstatus : a.status with
      | active =>
        simp only [hstatus] at h
        obtain ⟨rfl, rfl⟩ := pure_iff.mp h
        refine ⟨rfl, 0, id, .root ?_, hrow.symm⟩
        rw [Tables.mergedInto_of_row hrow, Artifact.mergedInto, hstatus]
      | merged into =>
        simp only [hstatus] at h
        obtain ⟨hs, n, root, hlead, hfound⟩ := ih h
        exact ⟨hs, n + 1, root,
          .step (Tables.mergedInto_eq_some.mpr ⟨a, hrow, hstatus⟩) hlead, hfound⟩

/-- A call of `findArtifactByHash` that returned found the end of the chain of the row. -/
theorem findArtifactByHash_returns {hash : ExactHash} {found : Option FoundHash}
    (h : Returns (findArtifactByHash hash) s found s') :
    s' = s ∧ (s.tables.hashRow? hash = none ∧ found = none ∨
      ∃ row n root, s.tables.hashRow? hash = some row ∧
        LeadsTo s.tables.mergedInto n row.artifactId root ∧ found = some ⟨root, row⟩) := by
  cases hrow : s.tables.hashRow? hash with
  | none =>
    obtain ⟨rfl, rfl⟩ := h.unique (findArtifactByHash_of_none hrow)
    exact ⟨rfl, .inl ⟨rfl, rfl⟩⟩
  | some row =>
    have hlead : ∃ n root, LeadsTo s.tables.mergedInto n row.artifactId root := by
      unfold findArtifactByHash at h
      rw [bind_of (returns_query.mpr ⟨rfl, rfl⟩)] at h
      simp only [hrow] at h
      rw [bind_of (returns_query.mpr ⟨rfl, rfl⟩)] at h
      cases ha : s.tables.artifact? row.artifactId with
      | none => exact ⟨0, _, .root (by rw [Tables.mergedInto, ha, bind_none])⟩
      | some a =>
        simp only [ha] at h
        cases hstatus : a.status with
        | active =>
          refine ⟨0, _, .root ?_⟩
          rw [Tables.mergedInto_of_row ha, Artifact.mergedInto, hstatus]
        | merged into =>
          simp only [hstatus] at h
          rw [bind_of (returns_query.mpr ⟨rfl, rfl⟩)] at h
          obtain ⟨found', s₁, hfind, -⟩ := bind_iff.mp h
          obtain ⟨-, n, root, hrest, -⟩ := findActiveArtifact_returns hfind
          exact ⟨n + 1, root, .step (Tables.mergedInto_eq_some.mpr ⟨a, ha, hstatus⟩) hrest⟩
    obtain ⟨n, root, hlead⟩ := hlead
    obtain ⟨rfl, rfl⟩ := h.unique (findArtifactByHash_of_row hrow hlead)
    exact ⟨rfl, .inr ⟨row, n, root, rfl, hlead, rfl⟩⟩

/-- A refused statement broke a constraint. -/
theorem write_error {change : Tables → Tables} {e : DbError}
    (h : write change s = .error e s') :
    s' = s ∧ (e = .uniqueViolation ∧ ¬ (change s.tables).Unique ∨
      e = .foreignKeyViolation ∧ ¬ (change s.tables).References) := by
  unfold write at h
  split at h
  · split at h
    · cases h
    · next hreferences =>
      cases h
      exact ⟨rfl, .inr ⟨rfl, hreferences⟩⟩
  · next hunique =>
    cases h
    exact ⟨rfl, .inl ⟨rfl, hunique⟩⟩

/-- A statement under a savepoint returns its result or its error. -/
theorem returns_attempt {α : Type} {x : Db α} {result : Except DbError α} :
    Returns (attempt x) s result s' ↔ (∃ a, result = .ok a ∧ Returns x s a s') ∨
      ∃ e s₁, result = .error e ∧ x s = .error e s₁ ∧ s' = s := by
  unfold Returns attempt
  constructor
  · intro h
    cases hx : x s with
    | ok a s₁ =>
      simp only [hx] at h
      cases h
      exact .inl ⟨a, rfl, rfl⟩
    | error e s₁ =>
      simp only [hx] at h
      cases h
      exact .inr ⟨e, s₁, rfl, rfl, rfl⟩
  · rintro (⟨a, rfl, hx⟩ | ⟨e, s₁, rfl, hx, rfl⟩)
    · simp [hx]
    · simp [hx]

/-- A body under a savepoint returns what it returns without. -/
theorem returns_withSavepoint {α : Type} {fn : Db α} {a : α} :
    Returns (withSavepoint fn) s a s' ↔ Returns fn s a s' := by
  unfold Returns withSavepoint
  cases hfn : fn s <;> simp

namespace Tables

variable {t : Tables}

theorem hashRow?_eq_none {hash : ExactHash} :
    t.hashRow? hash = none ↔ hash ∉ t.hashes.map HashRow.hash := lookup_eq_none

/-- The row of a hash after an update. -/
theorem hashRow?_updateHashes {f : HashRow → HashRow} {hash : ExactHash}
    (hf : ∀ r, (f r).hash = r.hash) :
    (t.updateHashes f).hashRow? hash = (t.hashRow? hash).map f := lookup_map hf

theorem artifact?_eq_none : t.artifact? id = none ↔ id ∉ t.artifacts.map Artifact.id :=
  lookup_eq_none

/-- A row for a new artifact. -/
theorem Unique.insertArtifact (h : t.Unique) {a : Artifact} (hfresh : t.artifact? a.id = none) :
    (t.insertArtifact a).Unique :=
  { h with artifact_id := nodup_map_append h.artifact_id (artifact?_eq_none.mp hfresh) }

theorem References.insertArtifact (h : t.References) {a : Artifact} (hinto : a.mergedInto = none)
    (hprimary : a.primaryHashId = none) : (t.insertArtifact a).References := by
  have hids : ∀ id ∈ t.artifacts.map Artifact.id,
      id ∈ (t.insertArtifact a).artifacts.map Artifact.id := by
    intro id hid
    rw [Tables.insertArtifact, map_append]
    exact mem_append_left _ hid
  refine
    { merged_into := ?_, primary_hash := ?_, link_hash := h.link_hash, link_ioc := h.link_ioc,
      observation_hash := h.observation_hash
      hash_artifact := fun row hrow => hids _ (h.hash_artifact row hrow)
      link_artifact := fun row hrow => hids _ (h.link_artifact row hrow)
      observation_artifact := fun row hrow => hids _ (h.observation_artifact row hrow)
      attr_artifact := fun row hrow => hids _ (h.attr_artifact row hrow) }
  · intro b hb into hmem
    rcases mem_append.mp hb with hb | hb
    · exact hids _ (h.merged_into b hb into hmem)
    · rw [mem_singleton.mp hb, hinto] at hmem
      cases hmem
  · intro b hb id hmem
    rcases mem_append.mp hb with hb | hb
    · exact h.primary_hash b hb id hmem
    · rw [mem_singleton.mp hb, hprimary] at hmem
      cases hmem

/-- The artifact holds no hash of a type. -/
def TypeFree (t : Tables) (id : ArtifactId) (type : HashType) : Prop :=
  ∀ r ∈ t.hashes, r.artifactId = id → r.hash.hashType ≠ type

/-- A row for a new hash of a type that its artifact does not hold. -/
theorem Unique.insertHash (h : t.Unique) {r : HashRow} (hid : r.id ∉ t.hashes.map HashRow.id)
    (hfresh : t.hashRow? r.hash = none) (htype : t.TypeFree r.artifactId r.hash.hashType)
    (hprimary : r.isPrimary = false) : (t.insertHash r).Unique := by
  refine { h with
    hash_id := nodup_map_append h.hash_id hid
    hash_value := nodup_map_append h.hash_value (hashRow?_eq_none.mp hfresh)
    hash_type := nodup_map_append h.hash_type ?_
    one_primary := ?_ }
  · intro hmem
    obtain ⟨r', hr', heq⟩ := mem_map.mp hmem
    exact htype r' hr' (congrArg Prod.fst heq) (congrArg Prod.snd heq)
  · change (((t.hashes ++ [r]).filter HashRow.isPrimary).map HashRow.artifactId).Nodup
    simpa [hprimary] using h.one_primary

theorem References.insertHash (h : t.References) {r : HashRow}
    (hartifact : r.artifactId ∈ t.artifacts.map Artifact.id) : (t.insertHash r).References := by
  have hids : ∀ id ∈ t.hashes.map HashRow.id, id ∈ (t.insertHash r).hashes.map HashRow.id := by
    intro id hid
    rw [Tables.insertHash, map_append]
    exact mem_append_left _ hid
  refine { h with
    primary_hash := fun a ha id hid => hids id (h.primary_hash a ha id hid)
    link_hash := fun l hl id hid => hids id (h.link_hash l hl id hid)
    observation_hash := fun o ho id hid => hids id (h.observation_hash o ho id hid)
    hash_artifact := ?_ }
  intro r' hr'
  rcases mem_append.mp hr' with hr' | hr'
  · exact h.hash_artifact r' hr'
  · rw [mem_singleton.mp hr']
    exact hartifact

/-- Nothing sits on an artifact that does not exist. -/
theorem References.typeFree (h : t.References) (hfresh : t.artifact? id = none) (type : HashType) :
    t.TypeFree id type := by
  intro r hr hart
  exact absurd (hart ▸ h.hash_artifact r hr) (artifact?_eq_none.mp hfresh)

end Tables

/-- What a call of `attachExactHash` did that returned a result. -/
inductive AttachOutcome (host : Host) (input : AttachInput) (hash : ExactHash) (t : Tables) :
    AttachResult → Placement → Prop
  /-- the hash is new and gets a new artifact -/
  | created (hashId : ℕ) (hnone : input.artifactId = none) (hfree : t.hashRow? hash = none)
      (hfresh : t.artifact? host.uuid = none) :
      AttachOutcome host input hash t (.attached host.uuid hashId true true)
        ((t.placement.create host.uuid).place hash host.uuid)
  /-- the hash is new and goes to the requested artifact -/
  | added (hashId : ℕ) (requested : ArtifactId) (hrequested : input.artifactId = some requested)
      (hfree : t.hashRow? hash = none) (htype : t.TypeFree requested hash.hashType) :
      AttachOutcome host input hash t (.attached requested hashId false true)
        (t.placement.place hash requested)
  /-- the requested artifact holds another hash of the type -/
  | refused (requested : ArtifactId) (hrequested : input.artifactId = some requested)
      (hfree : t.hashRow? hash = none) (htype : ¬ t.TypeFree requested hash.hashType) :
      AttachOutcome host input hash t (.uniqueViolation false) t.placement
  /-- the row was parked on a tombstone -/
  | healed (row : HashRow) (n : ℕ) (root : ArtifactId) (hrow : t.hashRow? hash = some row)
      (hlead : LeadsTo t.mergedInto n row.artifactId root) (hparked : row.artifactId ≠ root)
      (htype : t.TypeFree root hash.hashType)
      (hrequested : ∀ requested ∈ input.artifactId, requested = root) :
      AttachOutcome host input hash t (.attached root row.id false false)
        (t.placement.place hash root)
  /-- the row sits on the active artifact -/
  | kept (row : HashRow) (hrow : t.hashRow? hash = some row)
      (hactive : t.mergedInto row.artifactId = none)
      (hrequested : ∀ requested ∈ input.artifactId, requested = row.artifactId) :
      AttachOutcome host input hash t (.attached row.artifactId row.id false false) t.placement
  /-- the row belongs to another artifact than the requested one -/
  | elsewhere (row : HashRow) (n : ℕ) (root requested : ArtifactId)
      (hrow : t.hashRow? hash = some row)
      (hlead : LeadsTo t.mergedInto n row.artifactId root)
      (hrequested : input.artifactId = some requested) (hne : requested ≠ root) :
      AttachOutcome host input hash t (.conflict root row.id) t.placement

/-- `recordMergeConflict` returns and writes conflicts only. -/
theorem recordMergeConflict_returns (type : HashType) (value : String)
    (candidates : List ArtifactId) (reason : String) (s : Database) :
    ∃ s' conflicts, Returns (recordMergeConflict type value candidates reason) s ⟨⟩ s' ∧
      s'.tables = { s.tables with conflicts := conflicts } := by
  unfold recordMergeConflict
  simp only [bind_of (returns_query.mpr ⟨rfl, rfl⟩), id]
  split
  · exact ⟨s, s.tables.conflicts, pure_iff.mpr ⟨rfl, rfl⟩, rfl⟩
  · have hids : ∀ row : ConflictRow, row.id = nextId (s.tables.conflicts.map ConflictRow.id) →
        ((s.tables.conflicts ++ [row]).map ConflictRow.id).Nodup := by
      intro row hid
      apply nodup_map_append s.unique.conflict_id
      rw [hid]
      exact nextId_notMem _
    obtain ⟨s', hwrite, htables⟩ := @exists_returns_write
      (fun t => { t with
        conflicts := t.conflicts ++ [⟨nextId (t.conflicts.map ConflictRow.id), type.text, value,
          candidates, reason, true⟩] }) s
      { s.unique with conflict_id := hids _ rfl } { s.references with }
    exact ⟨s', _, hwrite, htables⟩

/-- What a call that returned keeps for its callers: the IOC rows, and the row of the hash. -/
structure AttachKeeps (hash : ExactHash) (t t' : Tables) (result : AttachResult) : Prop where
  iocItems : t'.iocItems = t.iocItems
  row : ∀ artifactId hashId createdArtifact createdHash,
    result = .attached artifactId hashId createdArtifact createdHash →
      ∃ row, t'.hashRow? hash = some row ∧ row.id = hashId

variable {host : Host} {input : AttachInput} {hash : ExactHash} {result : AttachResult}

theorem iocItems_recomputePrimary (t : Tables) : (t.recomputePrimary id).iocItems = t.iocItems := by
  unfold Tables.recomputePrimary
  cases t.primaryHash id <;> rfl

/-- The rows of hashes keep their id when flags are set. -/
theorem hashRow?_recomputePrimary {t : Tables} {row : HashRow} (h : t.hashRow? hash = some row) :
    ∃ row', (t.recomputePrimary id).hashRow? hash = some row' ∧ row'.id = row.id := by
  unfold Tables.recomputePrimary
  cases t.primaryHash id with
  | none => exact ⟨row, h, rfl⟩
  | some p =>
    refine ⟨_, ?_, (sameHash_flagOnly id (some p.id) row).id⟩
    change (t.updateHashes (Rows.flagOnly HashRow.id HashRow.artifactId HashRow.setPrimary id
      (some p.id))).hashRow? hash = _
    rw [Tables.hashRow?_updateHashes fun r => (sameHash_flagOnly _ _ r).hash, h, map_some]

/-- A row that could move to an artifact found no other hash of its type there. -/
theorem moved_typeFree {t : Tables} {row : HashRow} {f : HashRow → HashRow} (hunique : t.Unique)
    (hmem : row ∈ t.hashes) (hne : row.artifactId ≠ id)
    (hmoved : (t.updateHashes (Rows.updateWhere (fun r => decide (r.id = row.id)) f)).Unique)
    (hf : ∀ r, (f r).hash = r.hash ∧ (f r).artifactId = id) (hhash : row.hash = hash) :
    t.TypeFree id hash.hashType := by
  intro r hr hart htype
  have hrow : r.id ≠ row.id := by
    intro hid
    obtain rfl := inj_on_of_nodup_map hunique.hash_id hr hmem hid
    exact hne hart
  have hkept : Rows.updateWhere (fun r => decide (r.id = row.id)) f r = r :=
    updateWhere_of_not (decide_eq_false hrow)
  have hthere : Rows.updateWhere (fun r => decide (r.id = row.id)) f row = f row :=
    updateWhere_of (p := fun r : HashRow => decide (r.id = row.id)) (decide_eq_true rfl)
  have hsame := inj_on_of_nodup_map hmoved.hash_type (mem_map_of_mem hr)
    (mem_map_of_mem hmem) (by
      rw [hkept, hthere, (hf row).1, (hf row).2, hart, htype, hhash])
  rw [hkept, hthere] at hsame
  have hrr : r = row := by
    apply inj_on_of_nodup_map hunique.hash_value hr hmem
    rw [hsame, (hf row).1]
  exact hrow (congrArg HashRow.id hrr)

/-- A hash that has a row is brought to its artifact, kept there, or refused to another. -/
theorem attachExisting_outcome {row : HashRow} {n : ℕ} {root : ArtifactId}
    (hrow : s.tables.hashRow? hash = some row)
    (hlead : LeadsTo s.tables.mergedInto n row.artifactId root)
    (h : Returns (attachExisting host input hash ⟨root, row⟩) s result s') :
    AttachOutcome host input hash s.tables result s'.tables.placement ∧
      AttachKeeps hash s.tables s'.tables result := by
  obtain ⟨hmem, hhash⟩ := mem_of_lookup hrow
  unfold attachExisting at h
  by_cases hheal : row.artifactId ≠ root ∧ input.artifactId.all (fun id => decide (id = root))
  · rw [if_pos hheal] at h
    obtain ⟨⟨⟩, s₁, hwrite, h⟩ := bind_iff.mp h
    obtain ⟨primary, s₂, hrecompute, h⟩ := bind_iff.mp h
    obtain ⟨rfl, rfl⟩ := pure_iff.mp h
    rw [returns_write] at hwrite
    obtain ⟨primary', s₃, hrecompute', htables⟩ := recomputePrimaryHash_returns root s₁
    obtain ⟨-, rfl⟩ := hrecompute.unique hrecompute'
    have hplacement : s₂.tables.placement = s.tables.placement.place hash root := by
      rw [htables, Tables.placement_recomputePrimary, hwrite, ← hhash]
      apply Tables.placement_moveHash s.unique hmem
      · exact fun _ => rfl
      · exact fun _ => rfl
    have htype : s.tables.TypeFree root hash.hashType := by
      apply moved_typeFree s.unique hmem hheal.1 (hwrite ▸ s₁.unique)
      · exact fun _ => ⟨rfl, rfl⟩
      · exact hhash
    refine ⟨?_, ?_, ?_⟩
    · rw [hplacement]
      refine .healed row n root hrow hlead hheal.1 htype fun requested hrequested => ?_
      have hall := hheal.2
      rw [mem_def.mp hrequested] at hall
      simpa using hall
    · rw [htables, iocItems_recomputePrimary, hwrite]
      rfl
    · intro artifactId hashId _ _ hresult
      cases hresult
      have hmoved : ∃ row', s₁.tables.hashRow? hash = some row' ∧ row'.id = row.id := by
        rw [hwrite, Tables.hashRow?_updateHashes, hrow]
        · refine ⟨_, rfl, ?_⟩
          apply updateWhere_keeps (c := HashRow.id)
          exact fun _ => rfl
        · apply updateWhere_keeps (c := HashRow.hash)
          exact fun _ => rfl
      obtain ⟨row', hrow', hid⟩ := hmoved
      obtain ⟨row'', hrow'', hid'⟩ := @hashRow?_recomputePrimary root _ _ _ hrow'
      rw [htables]
      exact ⟨row'', hrow'', hid'.trans hid⟩
  · rw [if_neg hheal] at h
    cases hfilter : input.artifactId.filter fun id => decide (id ≠ root) with
    | some requested =>
      simp only [hfilter] at h
      obtain ⟨⟨⟩, s₁, hrecord, h⟩ := bind_iff.mp h
      obtain ⟨rfl, rfl⟩ := pure_iff.mp h
      obtain ⟨s₂, conflicts, hrecord', htables⟩ := recordMergeConflict_returns hash.hashType
        hash.value [root, requested] "exact_hash_already_bound_to_other_artifact" s
      obtain ⟨-, rfl⟩ := Returns.unique hrecord hrecord'
      obtain ⟨hrequested, hne⟩ := filter_eq_some_iff.mp hfilter
      refine ⟨?_, ?_, nofun⟩
      · rw [htables]
        exact .elsewhere row n root requested hrow hlead hrequested (by simpa using hne)
      · rw [htables]
    | none =>
      simp only [hfilter] at h
      obtain ⟨⟨⟩, s₁, hwrite, h⟩ := bind_iff.mp h
      obtain ⟨rfl, rfl⟩ := pure_iff.mp h
      rw [returns_write] at hwrite
      have hrequested : ∀ requested ∈ input.artifactId, requested = root := by
        intro requested hmem
        simpa using filter_eq_none_iff.mp hfilter requested hmem
      have hroot : row.artifactId = root := by
        by_contra hne
        apply hheal
        refine ⟨hne, ?_⟩
        cases hid : input.artifactId with
        | none => rfl
        | some requested => simpa using hrequested requested hid
      subst hroot
      have htouch : ∀ r : HashRow, SameHash r (Rows.updateWhere (fun r => decide (r.id = row.id))
          (fun r => { r with lastSeenAt := max r.lastSeenAt (input.lastSeenAt.getD host.now) }) r) := by
        intro r
        unfold Rows.updateWhere
        split <;> exact ⟨rfl, rfl, rfl⟩
      refine ⟨?_, ?_, ?_⟩
      · rw [hwrite, Tables.placement_updateHashes htouch]
        exact .kept row hrow hlead.isRoot hrequested
      · rw [hwrite]
        rfl
      · intro artifactId hashId _ _ hresult
        cases hresult
        rw [hwrite, Tables.hashRow?_updateHashes fun r => (htouch r).hash, hrow]
        exact ⟨_, rfl, (htouch row).id⟩

/-- The row of a newly inserted hash. -/
theorem hashRow?_insertHash {t : Tables} {row : HashRow} (hfree : t.hashRow? row.hash = none) :
    (t.insertHash row).hashRow? row.hash = some row := by
  change Rows.lookup HashRow.hash (t.hashes ++ [row]) row.hash = _
  rw [lookup_append_singleton]
  change (t.hashRow? row.hash).or _ = _
  simp [hfree]

/-- The insertion of a new hash is refused only over its type. -/
theorem insertHash_unique_iff {t : Tables} (hunique : t.Unique) {row : HashRow}
    (hid : row.id = nextId (t.hashes.map HashRow.id)) (hfree : t.hashRow? row.hash = none)
    (hprimary : row.isPrimary = false) :
    (t.insertHash row).Unique ↔ t.TypeFree row.artifactId row.hash.hashType := by
  constructor
  · intro h r hr hart htype
    have hnodup := h.hash_type
    rw [Tables.insertHash, map_append] at hnodup
    have hdisjoint := (nodup_append.mp hnodup).2.2
    refine hdisjoint _ (mem_map.mpr ⟨r, hr, rfl⟩) _ (mem_map.mpr ⟨row, ?_, rfl⟩) ?_
    · exact mem_singleton_self row
    · rw [hart, htype]
  · intro htype
    exact hunique.insertHash (hid ▸ nextId_notMem _) hfree htype hprimary

/-- A hash without a row goes to its artifact, or the artifact holds another of its type. -/
theorem insertNewHash_returns {artifactId : ArtifactId} {created : Bool}
    (hfree : s.tables.hashRow? hash = none)
    (htype : created = true → s.tables.TypeFree artifactId hash.hashType)
    (h : Returns (insertNewHash host input hash artifactId created) s result s') :
    (s.tables.TypeFree artifactId hash.hashType ∧ ∃ hashId,
        result = .attached artifactId hashId created true ∧
        s'.tables.placement = s.tables.placement.place hash artifactId ∧
        s'.tables.iocItems = s.tables.iocItems ∧
        ∃ row, s'.tables.hashRow? hash = some row ∧ row.id = hashId) ∨
      (created = false ∧ ¬ s.tables.TypeFree artifactId hash.hashType ∧
        result = .uniqueViolation false ∧ s' = s) := by
  unfold insertNewHash at h
  rw [bind_of (returns_query.mpr ⟨rfl, rfl⟩)] at h
  obtain ⟨inserted, s₁, hattempt, h⟩ := bind_iff.mp h
  have hiff := @insertHash_unique_iff s.tables s.unique
    (newHash host input (nextId (s.tables.hashes.map HashRow.id)) artifactId hash) rfl hfree rfl
  rcases returns_attempt.mp hattempt with ⟨⟨⟩, rfl, hwrite⟩ | ⟨e, s₂, rfl, hrefused, rfl⟩
  · rw [returns_write] at hwrite
    obtain ⟨primary, s₂, hrecompute, h⟩ := bind_iff.mp h
    obtain ⟨rfl, rfl⟩ := pure_iff.mp h
    obtain ⟨primary', s₃, hrecompute', htables⟩ := recomputePrimaryHash_returns artifactId s₁
    obtain ⟨-, rfl⟩ := hrecompute.unique hrecompute'
    have hunique : (s.tables.insertHash (newHash host input
        (nextId (s.tables.hashes.map HashRow.id)) artifactId hash)).Unique := hwrite ▸ s₁.unique
    refine .inl ⟨hiff.mp hunique, _, rfl, ?_, ?_, ?_⟩
    · rw [htables, Tables.placement_recomputePrimary, hwrite]
      exact Tables.placement_insertHash hfree
    · rw [htables, iocItems_recomputePrimary, hwrite]
      rfl
    · rw [htables, hwrite]
      exact hashRow?_recomputePrimary (hashRow?_insertHash hfree)
  · obtain ⟨-, ⟨rfl, hbroken⟩ | ⟨rfl, -⟩⟩ := write_error hrefused
    · have hheld := fun hfree => hbroken (hiff.mpr hfree)
      have hcreated : created = false := by
        by_contra htrue
        exact hheld (htype (by simpa using htrue))
      subst hcreated
      refine .inr ⟨rfl, hheld, ?_⟩
      obtain ⟨cleaned, s₃, hclean, h⟩ := bind_iff.mp h
      obtain ⟨rfl, rfl⟩ := pure_iff.mp hclean
      rw [bind_of (findArtifactByHash_of_none hfree)] at h
      obtain ⟨cleaned, s₃, hclean, h⟩ := bind_iff.mp h
      obtain ⟨rfl, rfl⟩ := pure_iff.mp hclean
      obtain ⟨rfl, rfl⟩ := pure_iff.mp h
      exact ⟨rfl, rfl⟩
    · obtain ⟨cleaned, s₃, -, h⟩ := bind_iff.mp h
      exact absurd h throw_iff

/-- A new hash gets a new artifact, goes to the requested one, or is refused by it. -/
theorem attachNew_outcome (hfree : s.tables.hashRow? hash = none)
    (h : Returns (attachNew host input hash) s result s') :
    AttachOutcome host input hash s.tables result s'.tables.placement ∧
      AttachKeeps hash s.tables s'.tables result := by
  unfold attachNew at h
  cases hrequested : input.artifactId with
  | none =>
    simp only [hrequested] at h
    obtain ⟨⟨⟩, s₁, hcreate, h⟩ := bind_iff.mp h
    rw [returns_write] at hcreate
    have hfresh : s.tables.artifact? host.uuid = none := by
      have hnodup : ((s.tables.insertArtifact (newArtifact host input)).artifacts.map
          Artifact.id).Nodup := hcreate ▸ s₁.unique.artifact_id
      rw [Tables.insertArtifact, map_append] at hnodup
      apply Tables.artifact?_eq_none.mpr
      intro hmem
      exact (nodup_append.mp hnodup).2.2 _ hmem _ (mem_singleton_self _) rfl
    have hfree₁ : s₁.tables.hashRow? hash = none := by
      rw [hcreate]
      exact hfree
    have htype : s₁.tables.TypeFree host.uuid hash.hashType := by
      rw [hcreate]
      exact s.references.typeFree hfresh hash.hashType
    rcases insertNewHash_returns hfree₁ (fun _ => htype) h with
      ⟨-, hashId, rfl, hplacement, hioc, hrow⟩ | ⟨hfalse, -⟩
    · refine ⟨?_, ?_, ?_⟩
      · rw [hplacement, hcreate, Tables.placement_insertArtifact hfresh rfl]
        exact .created hashId hrequested hfree hfresh
      · rw [hioc, hcreate]
        rfl
      · intro artifactId hashId' _ _ hresult
        cases hresult
        exact hrow
    · cases hfalse
  | some requested =>
    simp only [hrequested] at h
    have hnever : false = true → s.tables.TypeFree requested hash.hashType := nofun
    rcases insertNewHash_returns hfree hnever h with
      ⟨htype, hashId, rfl, hplacement, hioc, hrow⟩ | ⟨-, htype, rfl, rfl⟩
    · refine ⟨?_, hioc, ?_⟩
      · rw [hplacement]
        exact .added hashId requested hrequested hfree htype
      · intro artifactId hashId' _ _ hresult
        cases hresult
        exact hrow
    · exact ⟨.refused requested hrequested hfree htype, rfl, nofun⟩

/-- Every call of `attachExactHash` that returned had one of the outcomes. -/
theorem attachHash_outcome (h : Returns (attachHash host input hash) s result s') :
    AttachOutcome host input hash s.tables result s'.tables.placement ∧
      AttachKeeps hash s.tables s'.tables result := by
  obtain ⟨found, s₁, hfind, h⟩ := bind_iff.mp h
  obtain ⟨rfl, ⟨hfree, rfl⟩ | ⟨row, n, root, hrow, hlead, rfl⟩⟩ := findArtifactByHash_returns hfind
  · exact attachNew_outcome hfree h
  · exact attachExisting_outcome hrow hlead h

/-- Attaching only adds and brings parked hashes to the end of their chain. -/
theorem AttachOutcome.grows {t : Tables} {p : Placement} {good : HashType × ℕ → ℕ → Prop}
    (h : AttachOutcome host input hash t result p) : t.placement.Grows {hash} good p := by
  have hunplaced : t.hashRow? hash = none → t.placement.hash hash = none := fun hfree =>
    map_eq_none_iff.mpr hfree
  cases h with
  | created hashId _ hfree hfresh =>
    have hcreate : t.placement.Grows {hash} good (t.placement.create host.uuid) :=
      .create (Tables.placement_status_eq_none.mpr hfresh)
    refine hcreate.trans (.place ?_ rfl)
    exact hunplaced hfree
  | added hashId requested _ hfree _ => exact .place (hunplaced hfree) rfl
  | refused | kept | elsewhere => exact .refl _
  | healed row n root hrow hlead hparked _ _ =>
    have hhome : t.placement.hash hash = some row.artifactId :=
      Tables.placement_hash_eq_some.mpr ⟨row, hrow, rfl⟩
    rw [← Tables.placement_mergedInto] at hlead
    exact .heal hhome hlead hparked rfl

end TalonHound.FileArtifacts
