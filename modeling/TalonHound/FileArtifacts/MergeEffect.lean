import TalonHound.FileArtifacts.Merge

/-!
# What a merge does to the tables

Under the unique keys the collision branches of the loops are out of reach, so the loops
move every row of the duplicate. The tables after `performMerge` are a function of the
tables before it, and the call returns when the two artifacts have no hash type in common.
-/

namespace TalonHound.FileArtifacts

open Returns Rows List

namespace Tables

/-- Every row of the duplicate now belongs to the canonical artifact. -/
def moveRows (canonicalId duplicateId : ArtifactId) (t : Tables) : Tables :=
  ((t.updateHashes (Rows.updateWhere (fun r => decide (r.artifactId = duplicateId))
      (HashRow.moveTo canonicalId))).updateLinks
    (Rows.updateWhere (fun l => decide (l.artifactId = duplicateId))
      (LinkRow.moveTo canonicalId))).updateObservations
    (Rows.updateWhere (fun o => decide (o.artifactId = duplicateId))
      (ObservationRow.moveTo canonicalId))

/-- The attributes of the duplicate that the canonical artifact lacks are inserted, and the
duplicate's own are deleted. -/
def moveAttrs (canonicalId duplicateId : ArtifactId) (t : Tables) : Tables :=
  { t with
    attrs := (((t.attrsOf duplicateId).map (AttrRow.moveTo canonicalId)).foldl insertAttrRow
      t.attrs).filter fun a => decide (a.artifactId ≠ duplicateId) }

/-- The two rows of `file_artifacts` after the merge. -/
def setMerged (input : MergeInput) (canonical duplicate : Artifact) (t : Tables) : Tables :=
  (t.updateArtifacts (setFileMetadata canonical.id
    (mergeArtifactMetadata canonical.file duplicate.file))).updateArtifacts
      (setTombstone duplicate.id canonical.id (mergeStamp input))

/-- The tables after `performMerge`. -/
def merge (input : MergeInput) (canonical duplicate : Artifact) (t : Tables) : Tables :=
  ((((t.moveRows canonical.id duplicate.id).moveAttrs canonical.id duplicate.id).setMerged
    input canonical duplicate).recomputePrimary canonical.id).syncCanonical canonical.id

end Tables

/-- The rows after the listed ones were moved. -/
def movedRows {τ : Type} (id : τ → ℕ) (move : τ → τ) (done rows : List τ) : List τ :=
  rows.map (Rows.updateWhere (fun r => decide (id r ∈ done.map id)) move)

section MovedRows

variable {τ : Type} {id : τ → ℕ} {move : τ → τ} {rows : List τ}

theorem movedRows_nil : movedRows id move [] rows = rows := by
  apply map_eq_self
  intro r _
  rfl

/-- Moving one more row. -/
theorem movedRows_snoc (hmove : ∀ r, move (move r) = move r) (hid : ∀ r, id (move r) = id r)
    (done : List τ) (x : τ) :
    (movedRows id move done rows).map (Rows.updateWhere (fun r => decide (id r = id x)) move) =
      movedRows id move (done ++ [x]) rows := by
  unfold movedRows
  rw [map_updateWhere_updateWhere hmove (fun r => by rw [hid])]
  apply map_updateWhere_congr
  intro r _
  simp

/-- Moving all rows that meet a condition. -/
theorem movedRows_filter (hnodup : (rows.map id).Nodup) (p : τ → Bool) :
    movedRows id move (rows.filter p) rows = rows.map (Rows.updateWhere p move) := by
  apply map_updateWhere_congr
  intro r hr
  rw [Bool.eq_iff_iff, decide_eq_true_eq, mem_map]
  constructor
  · rintro ⟨s, hs, hid⟩
    obtain ⟨hs, hp⟩ := mem_filter.mp hs
    rwa [← inj_on_of_nodup_map hnodup hs hr hid]
  · exact fun hp => ⟨r, mem_filter.mpr ⟨hr, hp⟩, rfl⟩

end MovedRows

/-- A loop that moves the rows of one table: the table, its id and unique key, and the body. -/
structure MoveLoop (τ κ : Type) [DecidableEq κ] where
  rows : Tables → List τ
  set : List τ → Tables → Tables
  id : τ → ℕ
  key : τ → κ
  move : τ → τ
  body : τ → Db Unit
  rows_set : ∀ l t, rows (set l t) = l
  set_rows : ∀ t, set (rows t) t = t
  set_set : ∀ l l' t, set l (set l' t) = set l t
  move_move : ∀ r, move (move r) = move r
  move_id : ∀ r, id (move r) = id r
  move_key : ∀ r, key (move r) = key r
  nodup_id : ∀ t : Tables, t.Unique → ((rows t).map id).Nodup
  nodup_key : ∀ t : Tables, t.Unique → ((rows t).map key).Nodup
  /-- The body updates its row when the lookup by the unique key finds no other. -/
  body_iff : ∀ x s s', (Rows.lookup key (rows s.tables) (key x)).map id = some (id x) →
    (Returns (body x) s ⟨⟩ s' ↔ s'.tables =
      set ((rows s.tables).map (Rows.updateWhere (fun r => decide (id r = id x)) move)) s.tables)

namespace MoveLoop

variable {τ κ : Type} [DecidableEq κ] (L : MoveLoop τ κ) {p : τ → Bool} {s s₀ s' : Database}

/-- The tables after the listed rows were moved. -/
def after (done : List τ) (t : Tables) : Tables :=
  L.set (movedRows L.id L.move done (L.rows t)) t

/-- After some of the rows that meet `p` were moved and `rest` are left. -/
def Moved (p : τ → Bool) (t : Tables) (rest : List τ) (s : Database) : Prop :=
  ∃ done, done ++ rest = (L.rows t).filter p ∧ s.tables = L.after done t

variable {L} {x : τ} {rest : List τ}

/-- The row that a key is looked up by is the row itself. -/
theorem Moved.lookup (hs : L.Moved p s₀.tables (x :: rest) s) :
    (Rows.lookup L.key (L.rows s.tables) (L.key x)).map L.id = some (L.id x) := by
  obtain ⟨done, hdone, ht⟩ := hs
  have hx : x ∈ L.rows s₀.tables := by
    have hmem : x ∈ (L.rows s₀.tables).filter p := by
      rw [← hdone]
      simp
    exact (mem_filter.mp hmem).1
  have hrow : Rows.lookup L.key (L.rows s₀.tables) (L.key x) = some x :=
    (lookup_eq_some (L.nodup_key _ s₀.unique)).mpr ⟨hx, rfl⟩
  rw [ht, after, L.rows_set, movedRows, lookup_map (updateWhere_keeps L.move_key), hrow]
  exact congrArg some (updateWhere_keeps L.move_id x)

/-- After a turn one more row was moved. -/
theorem Moved.next (hs : L.Moved p s₀.tables (x :: rest) s)
    (hbody : Returns (L.body x) s ⟨⟩ s') : L.Moved p s₀.tables rest s' := by
  have hs' := (L.body_iff x s s' hs.lookup).mp hbody
  obtain ⟨done, hdone, ht⟩ := hs
  refine ⟨done ++ [x], by rw [← hdone]; simp, ?_⟩
  rw [hs', ht, after, L.rows_set, L.set_set, movedRows_snoc L.move_move L.move_id]
  rfl

/-- A loop over the rows that meet `p` that returned moved them all. -/
theorem effect (h : Returns (((L.rows s₀.tables).filter p).forM L.body) s₀ ⟨⟩ s) :
    s.tables = L.set ((L.rows s₀.tables).map (Rows.updateWhere p L.move)) s₀.tables := by
  have hstart : L.Moved p s₀.tables ((L.rows s₀.tables).filter p) s₀ :=
    ⟨[], rfl, by rw [after, movedRows_nil, L.set_rows]⟩
  obtain ⟨done, hdone, ht⟩ := forM_invariant (I := L.Moved p s₀.tables)
    (fun _ _ _ _ hs hbody => hs.next hbody) h hstart
  rw [append_nil] at hdone
  rw [ht, after, hdone, movedRows_filter (L.nodup_id _ s₀.unique)]

/-- The loop returns when the tables meet the constraints after each of its turns. -/
theorem returns
    (hvalid : ∀ done ⊆ (L.rows s₀.tables).filter p,
      (L.after done s₀.tables).Unique ∧ (L.after done s₀.tables).References) :
    ∃ s, Returns (((L.rows s₀.tables).filter p).forM L.body) s₀ ⟨⟩ s := by
  have hstart : L.Moved p s₀.tables ((L.rows s₀.tables).filter p) s₀ :=
    ⟨[], rfl, by rw [after, movedRows_nil, L.set_rows]⟩
  have hstep : ∀ x rest s, L.Moved p s₀.tables (x :: rest) s →
      ∃ s', Returns (L.body x) s ⟨⟩ s' ∧ L.Moved p s₀.tables rest s' := by
    intro x rest s hs
    have hmoved := hs
    obtain ⟨done, hdone, ht⟩ := hmoved
    have hnext : L.set ((L.rows s.tables).map
        (Rows.updateWhere (fun r => decide (L.id r = L.id x)) L.move)) s.tables =
          L.after (done ++ [x]) s₀.tables := by
      rw [ht, after, L.rows_set, L.set_set, movedRows_snoc L.move_move L.move_id]
      rfl
    obtain ⟨hunique, hreferences⟩ := hvalid (done ++ [x]) (by
      rw [← hdone, append_cons done x rest]
      exact subset_append_left _ _)
    let s' : Database := ⟨L.after (done ++ [x]) s₀.tables, hunique, hreferences⟩
    have hbody : Returns (L.body x) s ⟨⟩ s' := (L.body_iff x s s' hs.lookup).mpr hnext.symm
    exact ⟨s', hbody, hs.next hbody⟩
  obtain ⟨s, hs, -⟩ := forM_returns (I := L.Moved p s₀.tables) hstep hstart
  exact ⟨s, hs⟩

end MoveLoop

/-- The loop over the duplicate's hashes. -/
def hashLoop (canonicalId : ArtifactId) : MoveLoop HashRow ExactHash where
  rows := Tables.hashes
  set hashes t := { t with hashes := hashes }
  id := HashRow.id
  key := HashRow.hash
  move := HashRow.moveTo canonicalId
  body := moveHash canonicalId
  rows_set _ _ := rfl
  set_rows _ := rfl
  set_set _ _ _ := rfl
  move_move _ := rfl
  move_id _ := rfl
  move_key _ := rfl
  nodup_id _ h := h.hash_id
  nodup_key _ h := h.hash_value
  body_iff x s s' hlookup := by
    obtain ⟨ex, hex, hid⟩ := Option.map_eq_some_iff.mp hlookup
    unfold moveHash
    rw [bind_of (returns_query.mpr ⟨rfl, rfl⟩)]
    simp only [Tables.hashRow?, hex, Option.filter_some, hid, ne_eq, not_true_eq_false,
      decide_false, Bool.false_eq_true, if_false]
    exact returns_write

/-- The loop over the duplicate's links. -/
def linkLoop (canonicalId : ArtifactId) : MoveLoop LinkRow (HashType × ℕ) where
  rows := Tables.links
  set links t := { t with links := links }
  id := LinkRow.id
  key l := (l.iocObservableType, l.iocItemId)
  move := LinkRow.moveTo canonicalId
  body := moveLink canonicalId
  rows_set _ _ := rfl
  set_rows _ := rfl
  set_set _ _ _ := rfl
  move_move _ := rfl
  move_id _ := rfl
  move_key _ := rfl
  nodup_id _ h := h.link_id
  nodup_key _ h := h.link_ioc
  body_iff x s s' hlookup := by
    obtain ⟨ex, hex, hid⟩ := Option.map_eq_some_iff.mp hlookup
    unfold moveLink
    rw [bind_of (returns_query.mpr ⟨rfl, rfl⟩)]
    simp only [hex, Option.filter_some, hid, ne_eq, not_true_eq_false,
      decide_false, Bool.false_eq_true, if_false]
    exact returns_write

/-- The loop over the duplicate's attributes, when it returned. -/
theorem moveAttrs_effect {canonicalId : ArtifactId} {attrs : List AttrRow} {s s' : Database}
    (h : Returns (attrs.forM (moveAttr canonicalId)) s ⟨⟩ s') :
    s'.tables = { s.tables with
      attrs := (attrs.map (AttrRow.moveTo canonicalId)).foldl insertAttrRow s.tables.attrs } := by
  induction attrs generalizing s with
  | nil =>
    obtain ⟨-, rfl⟩ := pure_iff.mp h
    rfl
  | cons a attrs ih =>
    obtain ⟨⟨⟩, s₁, hbody, hrest⟩ := bind_iff.mp h
    rw [ih hrest, returns_write.mp hbody]
    rfl

/-- A row is inserted or was there. -/
theorem mem_insertAttrRow {attrs : List AttrRow} {a row : AttrRow} :
    row ∈ insertAttrRow attrs a ↔ row ∈ attrs ∨ (row = a ∧ a.key ∉ attrs.map AttrRow.key) := by
  unfold insertAttrRow
  split
  · next h => simp [h]
  · next h => simp [h]

/-- An attribute under a new key keeps the unique keys, one under an old key changes nothing. -/
theorem Tables.Unique.insertAttr {t : Tables} (h : t.Unique) (a : AttrRow) :
    (t.insertAttr a).Unique := by
  refine { h with attr_value := ?_ }
  change ((insertAttrRow t.attrs a).map AttrRow.key).Nodup
  unfold insertAttrRow
  split
  · exact h.attr_value
  · next hfresh => exact nodup_map_append h.attr_value hfresh

theorem Tables.References.insertAttr {t : Tables} (h : t.References) {a : AttrRow}
    (ha : a.artifactId ∈ t.artifacts.map Artifact.id) : (t.insertAttr a).References := by
  refine { h with attr_artifact := ?_ }
  intro row hrow
  rcases mem_insertAttrRow.mp hrow with hrow | ⟨rfl, -⟩
  · exact h.attr_artifact row hrow
  · exact ha

/-- The loop over the attributes returns. -/
theorem moveAttrs_returns {canonicalId : ArtifactId} (attrs : List AttrRow) {s : Database}
    (hcanonical : canonicalId ∈ s.tables.artifacts.map Artifact.id) :
    ∃ s', Returns (attrs.forM (moveAttr canonicalId)) s ⟨⟩ s' ∧
      s'.tables.artifacts = s.tables.artifacts := by
  refine forM_returns (I := fun (_ : List AttrRow) (s' : Database) =>
    s'.tables.artifacts = s.tables.artifacts) ?_ rfl
  intro a _ s₁ hs₁
  obtain ⟨s₂, hs₂, ht₂⟩ := exists_returns_write (s := s₁)
    (f := Tables.insertAttr (a.moveTo canonicalId))
    (s₁.unique.insertAttr _)
    (s₁.references.insertAttr (by rw [hs₁]; exact hcanonical))
  refine ⟨s₂, hs₂, ?_⟩
  rw [ht₂, ← hs₁]
  rfl

/-- What `performMerge` does to the tables, when it returns. -/
theorem performMerge_effect {input : MergeInput} {canonical duplicate : Artifact}
    {s s' : Database} {result : MergeResult}
    (h : Returns (performMerge input canonical duplicate) s result s') :
    s'.tables = s.tables.merge input canonical duplicate ∧
      ∃ primary, result = .merged canonical.id duplicate.id primary := by
  unfold performMerge at h
  rw [bind_of (returns_query.mpr ⟨rfl, rfl⟩)] at h
  obtain ⟨⟨⟩, s₁, hhashes, h⟩ := bind_iff.mp h
  have ht₁ := (hashLoop canonical.id).effect hhashes
  rw [bind_of (returns_query.mpr ⟨rfl, rfl⟩)] at h
  obtain ⟨⟨⟩, s₂, hlinks, h⟩ := bind_iff.mp h
  have ht₂ := (linkLoop canonical.id).effect hlinks
  obtain ⟨⟨⟩, s₃, hobservations, h⟩ := bind_iff.mp h
  have ht₃ := returns_write.mp hobservations
  have hrows : s₃.tables = s.tables.moveRows canonical.id duplicate.id := by
    rw [ht₃, ht₂, ht₁]
    rfl
  rw [bind_of (returns_query.mpr ⟨rfl, rfl⟩)] at h
  obtain ⟨⟨⟩, s₄, hattrs, h⟩ := bind_iff.mp h
  have ht₄ := moveAttrs_effect hattrs
  obtain ⟨⟨⟩, s₅, hdelete, h⟩ := bind_iff.mp h
  have ht₅ := returns_write.mp hdelete
  have hmoved : s₅.tables = s₃.tables.moveAttrs canonical.id duplicate.id := by
    rw [ht₅, ht₄]
    rfl
  obtain ⟨⟨⟩, s₆, hfile, h⟩ := bind_iff.mp h
  obtain ⟨⟨⟩, s₇, htombstone, h⟩ := bind_iff.mp h
  have ht₇ : s₇.tables = s₅.tables.setMerged input canonical duplicate := by
    rw [returns_write.mp htombstone, returns_write.mp hfile]
    rfl
  obtain ⟨primary, s₈, hprimary, h⟩ := bind_iff.mp h
  obtain ⟨primary', s₈', hprimary', ht₈⟩ := recomputePrimaryHash_returns canonical.id s₇
  obtain ⟨rfl, rfl⟩ := hprimary.unique hprimary'
  obtain ⟨flag, s₉, hsync, h⟩ := bind_iff.mp h
  obtain ⟨s₉', hsync', ht₉⟩ := syncCanonicalIocFlag_returns canonical.id s₈
  obtain ⟨-, rfl⟩ := hsync.unique hsync'
  obtain ⟨rfl, rfl⟩ := pure_iff.mp h
  refine ⟨?_, primary, rfl⟩
  rw [ht₉, ht₈, ht₇, hmoved, hrows]
  rfl

namespace Tables

variable {t : Tables} {canonicalId duplicateId : ArtifactId}

/-- No hash type occurs on both artifacts. -/
def TypesDisjoint (t : Tables) (a b : ArtifactId) : Prop :=
  ∀ r ∈ t.hashes, ∀ r' ∈ t.hashes, r.artifactId = a → r'.artifactId = b →
    r.hash.hashType ≠ r'.hash.hashType

/-- Hashes of the duplicate can move when the types are disjoint. -/
theorem Unique.moveHashes {p : HashRow → Bool} (h : t.Unique)
    (hp : ∀ r ∈ t.hashes, p r = true → r.artifactId = duplicateId)
    (hdisjoint : t.TypesDisjoint canonicalId duplicateId) :
    (t.updateHashes (Rows.updateWhere p (HashRow.moveTo canonicalId))).Unique := by
  have hmoved : ∀ r, p r = true →
      Rows.updateWhere p (HashRow.moveTo canonicalId) r = r.moveTo canonicalId :=
    fun r hr => updateWhere_of hr
  have hkept : ∀ r, ¬ p r = true → Rows.updateWhere p (HashRow.moveTo canonicalId) r = r :=
    fun r hr => updateWhere_of_not (by simpa using hr)
  refine h.updateHashes (updateWhere_keeps fun _ => rfl) (updateWhere_keeps fun _ => rfl) ?_ ?_
  · intro r hr s hs hartifact htype
    by_cases hpr : p r = true <;> by_cases hps : p s = true
    · exact inj_on_of_nodup_map h.hash_type hr hs
        (Prod.ext ((hp r hr hpr).trans (hp s hs hps).symm) htype)
    · rw [hmoved r hpr, hkept s hps] at hartifact
      exact absurd htype.symm (hdisjoint s hs r hr hartifact.symm (hp r hr hpr))
    · rw [hkept r hpr, hmoved s hps] at hartifact
      exact absurd htype (hdisjoint r hr s hs hartifact (hp s hs hps))
    · rw [hkept r hpr, hkept s hps] at hartifact
      exact inj_on_of_nodup_map h.hash_type hr hs (Prod.ext hartifact htype)
  · intro r hr s hs hfr hfs hartifact
    have hunmoved : ∀ x, (Rows.updateWhere p (HashRow.moveTo canonicalId) x).isPrimary = true →
        ¬ p x = true := by
      intro x hx hpx
      rw [hmoved x hpx] at hx
      cases hx
    have hr' := hkept r (hunmoved r hfr)
    have hs' := hkept s (hunmoved s hfs)
    rw [hr'] at hfr
    rw [hs'] at hfs
    rw [hr', hs'] at hartifact
    exact h.onePrimary r hr s hs hfr hfs hartifact

/-- Hashes can move to an artifact that exists. -/
theorem References.moveHashes {p : HashRow → Bool} (h : t.References)
    (hcanonical : canonicalId ∈ t.artifacts.map Artifact.id) :
    (t.updateHashes (Rows.updateWhere p (HashRow.moveTo canonicalId))).References := by
  refine h.updateHashes (updateWhere_keeps fun _ => rfl) ?_
  intro r hr
  unfold Rows.updateWhere
  split
  · exact hcanonical
  · exact h.hash_artifact r hr

/-- Links can always move. -/
theorem Unique.moveLinks {p : LinkRow → Bool} (h : t.Unique) :
    (t.updateLinks (Rows.updateWhere p (LinkRow.moveTo canonicalId))).Unique := by
  refine h.updateLinks (updateWhere_keeps fun _ => rfl)
    (updateWhere_keeps (c := fun l : LinkRow => (l.iocObservableType, l.iocItemId)) fun _ => rfl) ?_
  have hflag : ∀ l, (Rows.updateWhere p (LinkRow.moveTo canonicalId) l).isCanonicalIoc = true →
      Rows.updateWhere p (LinkRow.moveTo canonicalId) l = l := by
    intro l hl
    by_cases hpl : p l = true
    · rw [updateWhere_of hpl] at hl
      cases hl
    · exact updateWhere_of_not (by simpa using hpl)
  intro l hl m hm hfl hfm hartifact
  rw [hflag l hfl, hflag m hfm] at hartifact
  rw [hflag l hfl] at hfl
  rw [hflag m hfm] at hfm
  exact h.oneCanonical l hl m hm hfl hfm hartifact

theorem References.moveLinks {p : LinkRow → Bool} (h : t.References)
    (hcanonical : canonicalId ∈ t.artifacts.map Artifact.id) :
    (t.updateLinks (Rows.updateWhere p (LinkRow.moveTo canonicalId))).References := by
  refine h.updateLinks (updateWhere_keeps
    (c := fun l : LinkRow => (l.iocObservableType, l.iocItemId)) fun _ => rfl) ?_ ?_
  · intro l hl
    unfold Rows.updateWhere
    split
    · exact hcanonical
    · exact h.link_artifact l hl
  · intro l hl
    unfold Rows.updateWhere
    split
    · exact h.link_hash l hl
    · exact h.link_hash l hl

/-- Observations can always move. -/
theorem Unique.moveObservations {p : ObservationRow → Bool} (h : t.Unique) :
    (t.updateObservations (Rows.updateWhere p (ObservationRow.moveTo canonicalId))).Unique :=
  { h with
    observation_id := nodup_map_update (updateWhere_keeps fun _ => rfl) h.observation_id }

theorem References.moveObservations {p : ObservationRow → Bool} (h : t.References)
    (hcanonical : canonicalId ∈ t.artifacts.map Artifact.id) :
    (t.updateObservations
      (Rows.updateWhere p (ObservationRow.moveTo canonicalId))).References := by
  refine { h with observation_artifact := ?_, observation_hash := ?_ }
  all_goals
    intro o' ho'
    obtain ⟨o, ho, rfl⟩ := mem_map.mp ho'
    unfold Rows.updateWhere
    split
  · exact hcanonical
  · exact h.observation_artifact o ho
  · exact h.observation_hash o ho
  · exact h.observation_hash o ho

theorem Unique.deleteAttrsOf (h : t.Unique) (id : ArtifactId) : (t.deleteAttrsOf id).Unique :=
  { h with attr_value := h.attr_value.sublist (filter_sublist.map _) }

theorem References.deleteAttrsOf (h : t.References) (id : ArtifactId) :
    (t.deleteAttrsOf id).References :=
  { h with attr_artifact := fun row hrow => h.attr_artifact row (mem_filter.mp hrow).1 }

theorem Unique.setFileMetadata (h : t.Unique) (id : ArtifactId) (file : FileMetadata) :
    (t.updateArtifacts (setFileMetadata id file)).Unique :=
  h.updateArtifacts (updateWhere_keeps fun _ => rfl)

/-- The merged metadata changes no id. -/
theorem ids_setFileMetadata (id : ArtifactId) (file : FileMetadata) :
    (t.updateArtifacts (FileArtifacts.setFileMetadata id file)).artifacts.map Artifact.id =
      t.artifacts.map Artifact.id :=
  map_update (updateWhere_keeps fun _ => rfl)

theorem References.setFileMetadata (h : t.References) (id : ArtifactId) (file : FileMetadata) :
    (t.updateArtifacts (setFileMetadata id file)).References := by
  refine h.updateArtifacts (updateWhere_keeps fun _ => rfl) ?_ ?_
  all_goals
    intro a ha
    unfold FileArtifacts.setFileMetadata Rows.updateWhere
    split
  · exact h.merged_into a ha
  · exact h.merged_into a ha
  · exact h.primary_hash a ha
  · exact h.primary_hash a ha

theorem Unique.setTombstone (h : t.Unique) (stamp : List (String × String)) :
    (t.updateArtifacts (setTombstone duplicateId canonicalId stamp)).Unique :=
  h.updateArtifacts (updateWhere_keeps fun _ => rfl)

theorem References.setTombstone (h : t.References) (stamp : List (String × String))
    (hcanonical : canonicalId ∈ t.artifacts.map Artifact.id) :
    (t.updateArtifacts (setTombstone duplicateId canonicalId stamp)).References := by
  refine h.updateArtifacts (updateWhere_keeps fun _ => rfl) ?_ ?_
  all_goals
    intro a ha
    unfold FileArtifacts.setTombstone Rows.updateWhere
    split
  · rintro _ ⟨⟩
    exact hcanonical
  · exact h.merged_into a ha
  · exact nofun
  · exact h.primary_hash a ha

end Tables

/-- A merge returns when the two artifacts have no hash type in common. -/
theorem performMerge_returns {input : MergeInput} {canonical duplicate : Artifact} {s : Database}
    (hcanonical : canonical.id ∈ s.tables.artifacts.map Artifact.id)
    (hdisjoint : s.tables.TypesDisjoint canonical.id duplicate.id) :
    ∃ result s', Returns (performMerge input canonical duplicate) s result s' := by
  unfold performMerge
  -- the hashes of the duplicate that are still on it move one by one
  have hhashes : ∀ done ⊆ s.tables.hashes.filter fun r => decide (r.artifactId = duplicate.id),
      ((hashLoop canonical.id).after done s.tables).Unique ∧
        ((hashLoop canonical.id).after done s.tables).References := by
    intro done hdone
    refine ⟨s.unique.moveHashes ?_ hdisjoint, s.references.moveHashes hcanonical⟩
    intro r hr hid
    obtain ⟨r', hr', hrr⟩ := mem_map.mp (of_decide_eq_true hid)
    obtain ⟨hmem, hart⟩ := mem_filter.mp (hdone hr')
    rw [← inj_on_of_nodup_map s.unique.hash_id hmem hr hrr]
    exact of_decide_eq_true hart
  obtain ⟨s₁, hs₁⟩ : ∃ s₁, Returns ((s.tables.hashesOf duplicate.id).forM
      (moveHash canonical.id)) s ⟨⟩ s₁ := (hashLoop canonical.id).returns hhashes
  have ht₁ := (hashLoop canonical.id).effect hs₁
  have hcanonical₁ : canonical.id ∈ s₁.tables.artifacts.map Artifact.id := by
    rw [ht₁]
    exact hcanonical
  obtain ⟨s₂, hs₂⟩ : ∃ s₂, Returns ((s₁.tables.linksOf duplicate.id).forM
      (moveLink canonical.id)) s₁ ⟨⟩ s₂ :=
    (linkLoop canonical.id).returns
      fun done _ => ⟨s₁.unique.moveLinks, s₁.references.moveLinks hcanonical₁⟩
  have hcanonical₂ : canonical.id ∈ s₂.tables.artifacts.map Artifact.id := by
    rw [(linkLoop canonical.id).effect hs₂]
    exact hcanonical₁
  obtain ⟨s₃, hs₃, ht₃⟩ := exists_returns_write (s := s₂)
    (f := Tables.updateObservations (Rows.updateWhere
      (fun o => decide (o.artifactId = duplicate.id)) (ObservationRow.moveTo canonical.id)))
    s₂.unique.moveObservations (s₂.references.moveObservations hcanonical₂)
  have hcanonical₃ : canonical.id ∈ s₃.tables.artifacts.map Artifact.id := by
    rw [ht₃]
    exact hcanonical₂
  obtain ⟨s₄, hs₄, ht₄⟩ := moveAttrs_returns (s₃.tables.attrsOf duplicate.id) hcanonical₃
  obtain ⟨s₅, hs₅, ht₅⟩ := exists_returns_write (s := s₄) (f := Tables.deleteAttrsOf duplicate.id)
    (s₄.unique.deleteAttrsOf _) (s₄.references.deleteAttrsOf _)
  obtain ⟨s₆, hs₆, ht₆⟩ := exists_returns_write (s := s₅)
    (f := Tables.updateArtifacts (setFileMetadata canonical.id
      (mergeArtifactMetadata canonical.file duplicate.file)))
    (s₅.unique.setFileMetadata _ _) (s₅.references.setFileMetadata _ _)
  have hcanonical₆ : canonical.id ∈ s₆.tables.artifacts.map Artifact.id := by
    rw [ht₆, Tables.ids_setFileMetadata, ht₅]
    change canonical.id ∈ s₄.tables.artifacts.map Artifact.id
    rwa [ht₄]
  obtain ⟨s₇, hs₇, -⟩ := exists_returns_write (s := s₆)
    (f := Tables.updateArtifacts (setTombstone duplicate.id canonical.id (mergeStamp input)))
    (s₆.unique.setTombstone _) (s₆.references.setTombstone _ hcanonical₆)
  obtain ⟨primary, s₈, hs₈, -⟩ := recomputePrimaryHash_returns canonical.id s₇
  obtain ⟨s₉, hs₉, -⟩ := syncCanonicalIocFlag_returns canonical.id s₈
  refine ⟨.merged canonical.id duplicate.id primary, s₉, ?_⟩
  rw [bind_of (returns_query.mpr ⟨rfl, rfl⟩)]
  rw [bind_of hs₁, bind_of (returns_query.mpr ⟨rfl, rfl⟩)]
  rw [bind_of hs₂, bind_of hs₃, bind_of (returns_query.mpr ⟨rfl, rfl⟩)]
  rw [bind_of hs₄, bind_of hs₅, bind_of hs₆, bind_of hs₇]
  rw [bind_of hs₈, bind_of hs₉]
  exact pure_iff.mpr ⟨rfl, rfl⟩

end TalonHound.FileArtifacts
