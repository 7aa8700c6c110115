import TalonHound.FileArtifacts.DualWriteEffect

/-!
# Calls that return

Which calls of the attaching functions return a result: the statements that cannot break a
constraint, and the attachment of a hash that its artifact has room for.
-/

namespace TalonHound.FileArtifacts

open Returns Rows List

variable {s s' : Database} {artifactId : ArtifactId} {host : Host}

namespace Tables

variable {t : Tables}

theorem Unique.updateObservations (h : t.Unique) {f : ObservationRow → ObservationRow}
    (hid : ∀ o, (f o).id = o.id) : (t.updateObservations f).Unique :=
  { h with observation_id := nodup_map_update hid h.observation_id }

theorem References.updateObservations (h : t.References) {f : ObservationRow → ObservationRow}
    (hartifact : ∀ o, (f o).artifactId = o.artifactId)
    (hhash : ∀ o ∈ t.observations, ∀ id ∈ (f o).observedHashId, id ∈ t.hashes.map HashRow.id) :
    (t.updateObservations f).References := by
  refine { h with observation_artifact := ?_, observation_hash := ?_ }
  all_goals
    intro o' ho'
    obtain ⟨o, ho, rfl⟩ := mem_map.mp ho'
  · rw [hartifact]
    exact h.observation_artifact o ho
  · exact hhash o ho

theorem Unique.insertLink (h : t.Unique) {l : LinkRow} (hid : l.id ∉ t.links.map LinkRow.id)
    (hfresh : t.linkRow? l.iocObservableType l.iocItemId = none) (hflag : l.isCanonicalIoc = false) :
    (t.insertLink l).Unique := by
  refine { h with
    link_id := nodup_map_append h.link_id hid
    link_ioc := nodup_map_append h.link_ioc (lookup_eq_none.mp hfresh)
    one_canonical := ?_ }
  change (((t.links ++ [l]).filter LinkRow.isCanonicalIoc).map LinkRow.artifactId).Nodup
  simpa [hflag] using h.one_canonical

theorem References.insertLink (h : t.References) {l : LinkRow}
    (hartifact : l.artifactId ∈ t.artifacts.map Artifact.id)
    (hhash : ∀ id ∈ l.linkedHashId, id ∈ t.hashes.map HashRow.id)
    (hioc : (l.iocObservableType.text, l.iocItemId) ∈
      t.iocItems.map fun ioc => (ioc.observableType, ioc.id)) : (t.insertLink l).References := by
  refine { h with link_artifact := ?_, link_hash := ?_, link_ioc := ?_ }
  all_goals
    intro l' hl'
    rcases mem_append.mp hl' with hl' | hl'
  · exact h.link_artifact l' hl'
  · rwa [mem_singleton.mp hl']
  · exact h.link_hash l' hl'
  · rwa [mem_singleton.mp hl']
  · exact h.link_ioc l' hl'
  · rwa [mem_singleton.mp hl']

/-- The hash of a link can be filled in. -/
theorem Unique.fillLinkedHash (h : t.Unique) (p : LinkRow → Bool) {hashId : Option ℕ} :
    (t.updateLinks (Rows.updateWhere p fun l => { l with linkedHashId := hashId })).Unique := by
  refine h.updateLinks (updateWhere_keeps fun _ => rfl)
    (updateWhere_keeps (c := Tables.linkKey) fun _ => rfl) ?_
  have hflag : ∀ l, (Rows.updateWhere p (fun l => { l with linkedHashId := hashId })
      l).isCanonicalIoc = l.isCanonicalIoc := updateWhere_keeps fun _ => rfl
  have howner : ∀ l, (Rows.updateWhere p (fun l => { l with linkedHashId := hashId })
      l).artifactId = l.artifactId := updateWhere_keeps fun _ => rfl
  intro l hl m hm hfl hfm hsame
  rw [hflag] at hfl hfm
  rw [howner, howner] at hsame
  exact h.oneCanonical l hl m hm hfl hfm hsame

theorem References.fillLinkedHash (h : t.References) (p : LinkRow → Bool) {hashId : Option ℕ}
    (hhash : ∀ id ∈ hashId, id ∈ t.hashes.map HashRow.id) :
    (t.updateLinks (Rows.updateWhere p fun l => { l with linkedHashId := hashId })).References := by
  refine h.updateLinks (updateWhere_keeps (c := Tables.linkKey) fun _ => rfl) ?_ ?_
  · have howner : ∀ l, (Rows.updateWhere p (fun l => { l with linkedHashId := hashId })
        l).artifactId = l.artifactId := updateWhere_keeps fun _ => rfl
    intro l hl
    rw [howner]
    exact h.link_artifact l hl
  · intro l hl id hid
    unfold Rows.updateWhere at hid
    split at hid
    · exact hhash id hid
    · exact h.link_hash l hl id hid

theorem Unique.upsertAttr (h : t.Unique) (row : AttrRow) : (t.upsertAttr row).Unique := by
  unfold Tables.upsertAttr
  split
  · refine { h with attr_value := ?_ }
    exact nodup_map_update (updateWhere_keeps (c := AttrRow.key) fun _ => rfl) h.attr_value
  · next hfresh => exact { h with attr_value := nodup_map_append h.attr_value hfresh }

theorem References.upsertAttr (h : t.References) {row : AttrRow}
    (hartifact : row.artifactId ∈ t.artifacts.map Artifact.id) :
    (t.upsertAttr row).References := by
  unfold Tables.upsertAttr
  split
  · refine { h with attr_artifact := ?_ }
    intro a' ha'
    obtain ⟨a, ha, rfl⟩ := mem_map.mp ha'
    have hkeep := updateWhere_keeps (p := fun a : AttrRow => decide (a.key = row.key))
      (g := fun a => { a with sourceName := a.sourceName <|> row.sourceName })
      (c := AttrRow.artifactId) (fun _ => rfl) a
    rw [hkeep]
    exact h.attr_artifact a ha
  · refine { h with attr_artifact := ?_ }
    intro a ha
    rcases mem_append.mp ha with ha | ha
    · exact h.attr_artifact a ha
    · rwa [mem_singleton.mp ha]

end Tables

/-- `upsertSourceObservation` returns for an artifact and a hash that exist. -/
theorem upsertSourceObservation_returns {input : ObservationInput}
    (hartifact : input.artifactId ∈ s.tables.artifacts.map Artifact.id)
    (hhash : ∀ id ∈ input.observedHashId, id ∈ s.tables.hashes.map HashRow.id) :
    ∃ s', Returns (upsertSourceObservation host input) s ⟨⟩ s' := by
  unfold upsertSourceObservation
  split
  · exact ⟨s, pure_iff.mpr ⟨rfl, rfl⟩⟩
  · simp only [bind_of (returns_query.mpr ⟨rfl, rfl⟩)]
    cases hrow : s.tables.observations.find? input.matchesRow with
    | some row =>
      refine (exists_returns_write (s.unique.updateObservations ?_)
        (s.references.updateObservations ?_ ?_)).imp fun _ => And.left
      · exact updateWhere_keeps fun _ => rfl
      · exact updateWhere_keeps fun _ => rfl
      · intro o ho id hid
        unfold Rows.updateWhere at hid
        split at hid
        · change id ∈ (input.observedHashId <|> o.observedHashId) at hid
          cases hobserved : input.observedHashId with
          | none =>
            rw [hobserved] at hid
            exact s.references.observation_hash o ho id hid
          | some observed =>
            exact hhash id (hobserved ▸ hid)
        · exact s.references.observation_hash o ho id hid
    | none =>
      refine (exists_returns_write ?_ ?_).imp fun _ => And.left
      · exact { s.unique with
          observation_id := nodup_map_append s.unique.observation_id (nextId_notMem _) }
      · refine { s.references with observation_artifact := ?_, observation_hash := ?_ }
        all_goals
          intro o ho
          rcases mem_append.mp ho with ho | ho
        · exact s.references.observation_artifact o ho
        · rwa [mem_singleton.mp ho]
        · exact s.references.observation_hash o ho
        · rwa [mem_singleton.mp ho]

/-- `upsertNonIdentityAttrs` returns for an artifact that exists. -/
theorem upsertNonIdentityAttrs_returns (attrs : List (String × String)) (sourceName : Option String)
    (hartifact : artifactId ∈ s.tables.artifacts.map Artifact.id) :
    ∃ s', Returns (upsertNonIdentityAttrs artifactId attrs sourceName) s ⟨⟩ s' := by
  refine (forM_returns (I := fun _ (s : Database) =>
    artifactId ∈ s.tables.artifacts.map Artifact.id) ?_ hartifact).imp fun _ => And.left
  intro attr _ s₁ hs₁
  obtain ⟨s₂, hwrite, htables⟩ := exists_returns_write (s₁.unique.upsertAttr
    ⟨artifactId, attr.1, attr.2, sourceName⟩) (s₁.references.upsertAttr hs₁)
  refine ⟨s₂, hwrite, ?_⟩
  rw [htables]
  unfold Tables.upsertAttr
  split
  · exact hs₁
  · exact hs₁

/-- `linkIocToArtifact` returns for an artifact, a hash and an IOC row that exist. -/
theorem linkIoc_returns {iocItemId : ℕ} {type : HashType} {linkedHashId : Option ℕ}
    (iocPublicId : ℕ) (hartifact : artifactId ∈ s.tables.artifacts.map Artifact.id)
    (hhash : ∀ id ∈ linkedHashId, id ∈ s.tables.hashes.map HashRow.id)
    (hioc : (type.text, iocItemId) ∈
      s.tables.iocItems.map fun ioc => (ioc.observableType, ioc.id)) :
    ∃ result s', Returns (linkIoc artifactId iocItemId type iocPublicId linkedHashId) s result
      s' := by
  unfold linkIoc
  simp only [bind_of (returns_query.mpr ⟨rfl, rfl⟩)]
  cases hrow : s.tables.linkRow? type iocItemId with
  | some row =>
    simp only
    split
    · obtain ⟨s₁, conflicts, hrecord, -⟩ := recordMergeConflict_returns type
        (toString iocPublicId) [row.artifactId, artifactId] "ioc_already_linked_to_other_artifact" s
      refine ⟨.conflict row.id row.artifactId, s₁, ?_⟩
      rw [bind_of hrecord]
      exact pure_iff.mpr ⟨rfl, rfl⟩
    · -- the link is there already, and only gets a missing hash
      obtain ⟨s₁, hwrite, -⟩ := exists_returns_write
        (s.unique.fillLinkedHash (fun l => decide (l.id = row.id ∧ l.linkedHashId = none)))
        (s.references.fillLinkedHash _ hhash)
      obtain ⟨s₂, hsync, -⟩ := syncCanonicalIocFlag_returns artifactId s₁
      refine ⟨.linked row.id false, s₂, ?_⟩
      rw [bind_of hwrite, bind_of hsync]
      exact pure_iff.mpr ⟨rfl, rfl⟩
  | none =>
    simp only [bind_of (returns_query.mpr ⟨rfl, rfl⟩)]
    obtain ⟨s₁, hwrite, -⟩ := @exists_returns_write (Tables.insertLink
      ⟨nextId (s.tables.links.map LinkRow.id), artifactId, iocItemId, type, iocPublicId,
        linkedHashId, false⟩) s
      (s.unique.insertLink (nextId_notMem _) hrow rfl)
      (s.references.insertLink hartifact hhash hioc)
    obtain ⟨s₂, hsync, -⟩ := syncCanonicalIocFlag_returns artifactId s₁
    refine ⟨.linked (nextId (s.tables.links.map LinkRow.id)) true, s₂, ?_⟩
    rw [bind_of hwrite, bind_of hsync]
    exact pure_iff.mpr ⟨rfl, rfl⟩

variable {input : AttachInput} {hash : ExactHash} {n : ℕ} {root : ArtifactId}

/-- A new hash goes to an artifact that exists and has room for its type. -/
theorem insertNewHash_of_typeFree {created : Bool}
    (hartifact : artifactId ∈ s.tables.artifacts.map Artifact.id)
    (hfree : s.tables.hashRow? hash = none) (htype : s.tables.TypeFree artifactId hash.hashType) :
    ∃ hashId s', Returns (insertNewHash host input hash artifactId created) s
      (.attached artifactId hashId created true) s' := by
  have hunique := (@insertHash_unique_iff s.tables s.unique
    (newHash host input (nextId (s.tables.hashes.map HashRow.id)) artifactId hash) rfl hfree
    rfl).mpr htype
  obtain ⟨s₁, hwrite, -⟩ := exists_returns_write hunique (s.references.insertHash hartifact)
  obtain ⟨primary, s₂, hrecompute, -⟩ := recomputePrimaryHash_returns artifactId s₁
  refine ⟨nextId (s.tables.hashes.map HashRow.id), s₂, ?_⟩
  unfold insertNewHash
  rw [bind_of (returns_query.mpr ⟨rfl, rfl⟩),
    bind_of (returns_attempt.mpr (.inl ⟨⟨⟩, rfl, hwrite⟩))]
  rw [bind_of hrecompute]
  exact pure_iff.mpr ⟨rfl, rfl⟩

/-- A new hash is attached to the requested artifact. -/
theorem attachHash_of_free (hrequested : input.artifactId = some artifactId)
    (hartifact : artifactId ∈ s.tables.artifacts.map Artifact.id)
    (hfree : s.tables.hashRow? hash = none) (htype : s.tables.TypeFree artifactId hash.hashType) :
    ∃ hashId s', Returns (attachHash host input hash) s (.attached artifactId hashId false true)
      s' := by
  obtain ⟨hashId, s', hinsert⟩ := insertNewHash_of_typeFree hartifact hfree htype
  refine ⟨hashId, s', ?_⟩
  unfold attachHash
  rw [bind_of (findArtifactByHash_of_none hfree)]
  unfold attachNew
  simp only [hrequested]
  exact hinsert

/-- A new hash without a requested artifact gets a new one. -/
theorem attachHash_of_new (host : Host) (hash : ExactHash) (hnone : input.artifactId = none)
    (hfresh : s.tables.artifact? host.uuid = none) (hfree : s.tables.hashRow? hash = none) :
    ∃ hashId s', Returns (attachHash host input hash) s (.attached host.uuid hashId true true)
      s' := by
  obtain ⟨s₁, hcreate, htables⟩ := @exists_returns_write
    (Tables.insertArtifact (newArtifact host input)) s
    (s.unique.insertArtifact hfresh) (s.references.insertArtifact rfl rfl)
  have hartifact : host.uuid ∈ s₁.tables.artifacts.map Artifact.id := by
    rw [htables, Tables.insertArtifact, map_append]
    exact mem_append_right _ (mem_singleton_self _)
  have hfree₁ : s₁.tables.hashRow? hash = none := by
    rw [htables]
    exact hfree
  have htype : s₁.tables.TypeFree host.uuid hash.hashType := by
    rw [htables]
    exact s.references.typeFree hfresh hash.hashType
  obtain ⟨hashId, s', hinsert⟩ := insertNewHash_of_typeFree hartifact hfree₁ htype
  refine ⟨hashId, s', ?_⟩
  unfold attachHash
  rw [bind_of (findArtifactByHash_of_none hfree)]
  unfold attachNew
  simp only [hnone]
  rw [bind_of hcreate]
  exact hinsert

/-- A parked row can move to an artifact without another hash of its type. -/
theorem Tables.Unique.healHash {t : Tables} (h : t.Unique) {row : HashRow}
    (hmem : row ∈ t.hashes) (htype : t.TypeFree root row.hash.hashType) {f : HashRow → HashRow}
    (hf : ∀ r, (f r).id = r.id ∧ (f r).hash = r.hash ∧ (f r).artifactId = root ∧
      (f r).isPrimary = false) :
    (t.updateHashes (Rows.updateWhere (fun r => decide (r.id = row.id)) f)).Unique := by
  have hmoved : ∀ r ∈ t.hashes, r.id = row.id → r = row := by
    intro r hr hid
    exact inj_on_of_nodup_map h.hash_id hr hmem hid
  have hcases : ∀ r, (r.id = row.id ∧ Rows.updateWhere (fun r => decide (r.id = row.id)) f r = f r)
      ∨ (r.id ≠ row.id ∧ Rows.updateWhere (fun r => decide (r.id = row.id)) f r = r) := by
    intro r
    by_cases hid : r.id = row.id
    · exact .inl ⟨hid, updateWhere_of (p := fun r : HashRow => decide (r.id = row.id))
        (decide_eq_true hid)⟩
    · exact .inr ⟨hid, updateWhere_of_not (decide_eq_false hid)⟩
  refine h.updateHashes (updateWhere_keeps fun r => (hf r).1)
    (updateWhere_keeps fun r => (hf r).2.1) ?_ ?_
  · intro r hr r' hr' hsame hsameType
    rcases hcases r with ⟨hid, hr₁⟩ | ⟨hid, hr₁⟩ <;> rcases hcases r' with ⟨hid', hr₂⟩ | ⟨hid', hr₂⟩
    · rw [hmoved r hr hid, hmoved r' hr' hid']
    · rw [hr₁, hr₂, (hf r).2.2.1] at hsame
      rw [hmoved r hr hid] at hsameType
      exact absurd hsameType.symm (htype r' hr' hsame.symm)
    · rw [hr₁, hr₂, (hf r').2.2.1] at hsame
      rw [hmoved r' hr' hid'] at hsameType
      exact absurd hsameType (htype r hr hsame)
    · rw [hr₁, hr₂] at hsame
      apply inj_on_of_nodup_map h.hash_type hr hr'
      exact Prod.ext hsame hsameType
  · intro r hr r' hr' hfr hfr' hsame
    rcases hcases r with ⟨hid, hr₁⟩ | ⟨hid, hr₁⟩
    · rw [hr₁, (hf r).2.2.2] at hfr
      cases hfr
    · rcases hcases r' with ⟨hid', hr₂⟩ | ⟨hid', hr₂⟩
      · rw [hr₂, (hf r').2.2.2] at hfr'
        cases hfr'
      · rw [hr₁] at hfr hsame
        rw [hr₂] at hfr' hsame
        exact h.onePrimary r hr r' hr' hfr hfr' hsame

/-- A hash that has a row is attached to the artifact at the end of its chain, when that has
room for it. -/
theorem attachHash_of_row (host : Host) {row : HashRow} (hrow : s.tables.hashRow? hash = some row)
    (hlead : LeadsTo s.tables.mergedInto n row.artifactId root)
    (hrequested : ∀ requested ∈ input.artifactId, requested = root)
    (hroom : row.artifactId ≠ root → s.tables.TypeFree root hash.hashType) :
    ∃ s', Returns (attachHash host input hash) s (.attached root row.id false false) s' := by
  obtain ⟨hmem, hhash⟩ := mem_of_lookup hrow
  unfold attachHash
  simp only [bind_of (findArtifactByHash_of_row hrow hlead)]
  unfold attachExisting
  by_cases hheal : row.artifactId ≠ root ∧ input.artifactId.all (fun id => decide (id = root))
  · rw [if_pos hheal]
    have hroot : root ∈ s.tables.artifacts.map Artifact.id := by
      obtain ⟨a, ha, -⟩ := s.references.isActive_root (Tables.isSome_artifact?.mpr
        (s.references.hash_artifact row hmem)) hlead
      obtain ⟨hamem, haid⟩ := mem_of_lookup ha
      exact haid ▸ mem_map_of_mem hamem
    have hfree : s.tables.TypeFree root row.hash.hashType := hhash ▸ hroom hheal.1
    have hunique := s.unique.healHash hmem hfree (f := fun r => { r.moveTo root with
      lastSeenAt := max r.lastSeenAt (input.lastSeenAt.getD host.now) })
      fun _ => ⟨rfl, rfl, rfl, rfl⟩
    have hreferences := s.references.updateHashes (f := Rows.updateWhere
      (fun r => decide (r.id = row.id)) fun r => { r.moveTo root with
        lastSeenAt := max r.lastSeenAt (input.lastSeenAt.getD host.now) })
      (updateWhere_keeps fun _ => rfl) (by
        intro r hr
        unfold Rows.updateWhere
        split
        · exact hroot
        · exact s.references.hash_artifact r hr)
    obtain ⟨s₁, hwrite, -⟩ := exists_returns_write hunique hreferences
    obtain ⟨primary, s₂, hrecompute, -⟩ := recomputePrimaryHash_returns root s₁
    refine ⟨s₂, ?_⟩
    rw [bind_of hwrite, bind_of hrecompute]
    exact pure_iff.mpr ⟨rfl, rfl⟩
  · rw [if_neg hheal]
    have hfilter : (input.artifactId.filter fun id => decide (id ≠ root)) = none := by
      apply Option.filter_eq_none_iff.mpr
      intro requested hmem
      simpa using hrequested requested hmem
    simp only [hfilter]
    have hkeep : ∀ r : HashRow, SameHash r (Rows.updateWhere (fun r => decide (r.id = row.id))
        (fun r => { r with lastSeenAt := max r.lastSeenAt (input.lastSeenAt.getD host.now) })
          r) := by
      intro r
      unfold Rows.updateWhere
      split <;> exact ⟨rfl, rfl, rfl⟩
    have hflag : ∀ r : HashRow, (Rows.updateWhere (fun r => decide (r.id = row.id))
        (fun r => { r with lastSeenAt := max r.lastSeenAt (input.lastSeenAt.getD host.now) })
          r).isPrimary = r.isPrimary := updateWhere_keeps fun _ => rfl
    have hunique := s.unique.updateHashFlags hkeep (by
      intro r hr r' hr' hfr hfr' hsame
      rw [hflag] at hfr hfr'
      rw [(hkeep r).artifactId, (hkeep r').artifactId] at hsame
      exact s.unique.onePrimary r hr r' hr' hfr hfr' hsame)
    obtain ⟨s₁, hwrite, -⟩ := exists_returns_write hunique (s.references.updateHashFlags hkeep)
    refine ⟨s₁, ?_⟩
    rw [bind_of hwrite]
    exact pure_iff.mpr ⟨rfl, rfl⟩

end TalonHound.FileArtifacts
