import TalonHound.FileArtifacts.Store

/-!
# Updates and the constraints

The updates in place and the insertions that the file-artifact code makes, and when they
meet the unique and foreign keys.
-/

namespace TalonHound.FileArtifacts

open Rows

/-- `SET artifact_id = …, is_primary = FALSE`. -/
def HashRow.moveTo (canonicalId : ArtifactId) (r : HashRow) : HashRow :=
  { r with artifactId := canonicalId, isPrimary := false }

/-- `SET artifact_id = …, is_canonical_ioc = FALSE`. -/
def LinkRow.moveTo (canonicalId : ArtifactId) (l : LinkRow) : LinkRow :=
  { l with artifactId := canonicalId, isCanonicalIoc := false }

/-- `SET artifact_id = …`. -/
def ObservationRow.moveTo (canonicalId : ArtifactId) (o : ObservationRow) : ObservationRow :=
  { o with artifactId := canonicalId }

/-- A row for the same attribute of another artifact. -/
def AttrRow.moveTo (canonicalId : ArtifactId) (a : AttrRow) : AttrRow :=
  { a with artifactId := canonicalId }

/-- The key of `ON CONFLICT (artifact_id, attr_type, attr_value)`. -/
def AttrRow.key (a : AttrRow) : ArtifactId × String × String :=
  (a.artifactId, a.attrType, a.attrValue)

instance (a : AttrRow) (attrs : List AttrRow) : Decidable (a.key ∈ attrs.map AttrRow.key) :=
  inferInstance

namespace Tables

variable {t : Tables}

/-- An `UPDATE` of `file_artifacts`. -/
def updateArtifacts (f : Artifact → Artifact) (t : Tables) : Tables :=
  { t with artifacts := t.artifacts.map f }

/-- An `UPDATE` of `file_artifact_hashes`. -/
def updateHashes (f : HashRow → HashRow) (t : Tables) : Tables :=
  { t with hashes := t.hashes.map f }

/-- An `UPDATE` of `file_artifact_ioc_links`. -/
def updateLinks (f : LinkRow → LinkRow) (t : Tables) : Tables :=
  { t with links := t.links.map f }

/-- An `UPDATE` of `file_artifact_source_observations`. -/
def updateObservations (f : ObservationRow → ObservationRow) (t : Tables) : Tables :=
  { t with observations := t.observations.map f }

section Artifacts

variable {f : Artifact → Artifact}

theorem Unique.updateArtifacts (h : t.Unique) (hid : ∀ a, (f a).id = a.id) :
    (t.updateArtifacts f).Unique :=
  { h with artifact_id := nodup_map_update hid h.artifact_id }

theorem References.updateArtifacts (h : t.References) (hid : ∀ a, (f a).id = a.id)
    (hinto : ∀ a ∈ t.artifacts, ∀ into ∈ (f a).mergedInto, into ∈ t.artifacts.map Artifact.id)
    (hprimary : ∀ a ∈ t.artifacts, ∀ id ∈ (f a).primaryHashId, id ∈ t.hashes.map HashRow.id) :
    (t.updateArtifacts f).References := by
  have hids : (t.updateArtifacts f).artifacts.map Artifact.id = t.artifacts.map Artifact.id :=
    map_update hid
  refine
    { merged_into := ?_, primary_hash := ?_, hash_artifact := ?_, link_artifact := ?_,
      link_hash := h.link_hash, link_ioc := h.link_ioc, observation_artifact := ?_,
      observation_hash := h.observation_hash, attr_artifact := ?_ }
  · intro a' ha'
    obtain ⟨a, ha, rfl⟩ := List.mem_map.mp ha'
    rw [hids]
    exact hinto a ha
  · intro a' ha'
    obtain ⟨a, ha, rfl⟩ := List.mem_map.mp ha'
    exact hprimary a ha
  all_goals rw [hids]
  · exact h.hash_artifact
  · exact h.link_artifact
  · exact h.observation_artifact
  · exact h.attr_artifact

end Artifacts

section Hashes

variable {f : HashRow → HashRow}

/-- No two hash rows are equal. -/
theorem Unique.nodup_hashes (h : t.Unique) : t.hashes.Nodup := h.hash_id.of_map

/-- An update of hash rows keeps the unique keys when it leaves at most one hash of a type
and one primary hash to an artifact. -/
theorem Unique.updateHashes (h : t.Unique) (hid : ∀ r, (f r).id = r.id)
    (hhash : ∀ r, (f r).hash = r.hash)
    (htype : ∀ r ∈ t.hashes, ∀ s ∈ t.hashes, (f r).artifactId = (f s).artifactId →
      r.hash.hashType = s.hash.hashType → r = s)
    (hprimary : Rows.OneFlag HashRow.artifactId HashRow.isPrimary f t.hashes) :
    (t.updateHashes f).Unique := by
  refine { h with
    hash_id := nodup_map_update hid h.hash_id
    hash_value := nodup_map_update hhash h.hash_value
    hash_type := ?_
    one_primary := ?_ }
  · change ((t.hashes.map f).map _).Nodup
    rw [List.map_map, List.nodup_map_iff_inj_on h.nodup_hashes]
    intro r hr s hs hrs
    obtain ⟨hart, hty⟩ := Prod.mk.inj hrs
    exact htype r hr s hs hart (by rwa [hhash, hhash] at hty)
  · have hnodup : (t.hashes.map f).Nodup := (nodup_map_update hid h.hash_id).of_map
    refine (nodup_map_filter_iff hnodup).mpr ?_
    intro r' hr' s' hs' hpr hps hart
    obtain ⟨r, hr, rfl⟩ := List.mem_map.mp hr'
    obtain ⟨s, hs, rfl⟩ := List.mem_map.mp hs'
    rw [hprimary r hr s hs hpr hps hart]

theorem References.updateHashes (h : t.References) (hid : ∀ r, (f r).id = r.id)
    (hartifact : ∀ r ∈ t.hashes, (f r).artifactId ∈ t.artifacts.map Artifact.id) :
    (t.updateHashes f).References := by
  have hids : (t.updateHashes f).hashes.map HashRow.id = t.hashes.map HashRow.id := map_update hid
  refine
    { merged_into := h.merged_into, primary_hash := ?_, hash_artifact := ?_,
      link_artifact := h.link_artifact, link_hash := ?_, link_ioc := h.link_ioc,
      observation_artifact := h.observation_artifact, observation_hash := ?_,
      attr_artifact := h.attr_artifact }
  · rw [hids]
    exact h.primary_hash
  · intro r' hr'
    obtain ⟨r, hr, rfl⟩ := List.mem_map.mp hr'
    exact hartifact r hr
  · rw [hids]
    exact h.link_hash
  · rw [hids]
    exact h.observation_hash

/-- An artifact has at most one primary hash. -/
theorem Unique.onePrimary (h : t.Unique) :
    Rows.OneFlag HashRow.artifactId HashRow.isPrimary id t.hashes :=
  (nodup_map_filter_iff h.nodup_hashes).mp h.one_primary

end Hashes

section Links

variable {f : LinkRow → LinkRow}

/-- No two links are equal. -/
theorem Unique.nodup_links (h : t.Unique) : t.links.Nodup := h.link_id.of_map

/-- An update of links keeps the unique keys when it leaves at most one canonical link to
an artifact. -/
theorem Unique.updateLinks (h : t.Unique) (hid : ∀ r, (f r).id = r.id)
    (hioc : ∀ r, ((f r).iocObservableType, (f r).iocItemId) = (r.iocObservableType, r.iocItemId))
    (hcanonical : Rows.OneFlag LinkRow.artifactId LinkRow.isCanonicalIoc f t.links) :
    (t.updateLinks f).Unique := by
  refine { h with
    link_id := nodup_map_update hid h.link_id
    link_ioc := nodup_map_update hioc h.link_ioc
    one_canonical := ?_ }
  have hnodup : (t.links.map f).Nodup := (nodup_map_update hid h.link_id).of_map
  refine (nodup_map_filter_iff hnodup).mpr ?_
  intro r' hr' s' hs' hpr hps hart
  obtain ⟨r, hr, rfl⟩ := List.mem_map.mp hr'
  obtain ⟨s, hs, rfl⟩ := List.mem_map.mp hs'
  rw [hcanonical r hr s hs hpr hps hart]

theorem References.updateLinks (h : t.References)
    (hioc : ∀ r, ((f r).iocObservableType, (f r).iocItemId) = (r.iocObservableType, r.iocItemId))
    (hartifact : ∀ r ∈ t.links, (f r).artifactId ∈ t.artifacts.map Artifact.id)
    (hhash : ∀ r ∈ t.links, ∀ id ∈ (f r).linkedHashId, id ∈ t.hashes.map HashRow.id) :
    (t.updateLinks f).References := by
  refine { h with link_artifact := ?_, link_hash := ?_, link_ioc := ?_ }
  all_goals
    intro r' hr'
    obtain ⟨r, hr, rfl⟩ := List.mem_map.mp hr'
  · exact hartifact r hr
  · exact hhash r hr
  · obtain ⟨htype, hitem⟩ := Prod.mk.inj (hioc r)
    rw [htype, hitem]
    exact h.link_ioc r hr

/-- An artifact has at most one canonical link. -/
theorem Unique.oneCanonical (h : t.Unique) :
    Rows.OneFlag LinkRow.artifactId LinkRow.isCanonicalIoc id t.links :=
  (nodup_map_filter_iff h.nodup_links).mp h.one_canonical

end Links

end Tables

end TalonHound.FileArtifacts
