import TalonHound.FileArtifacts.MergeEffect

/-!
# The contract of a merge

A merge that returns loses nothing: what belonged to the duplicate belongs to the
canonical artifact, every other artifact is as it was, and the flags and pointers of the
canonical artifact are right.
-/

namespace TalonHound.FileArtifacts

open Rows List

section Owners

variable {τ : Type} {owner : τ → ArtifactId} {content : τ → τ} {rows : List τ}

/-- What the rows of an artifact say. -/
def ownedBy (owner : τ → ArtifactId) (content : τ → τ) (rows : List τ) (id : ArtifactId) : Set τ :=
  {r | ∃ row ∈ rows, owner row = id ∧ content row = r}

/-- `d` redirected to `c`. -/
def redirect (c d id : ArtifactId) : ArtifactId := if id = d then c else id

/-- An update that gives rows the owner `target` says, keeps what they say, and leaves the
rows of artifacts other than `c` and `d` alone. -/
structure Reowns (owner : τ → ArtifactId) (content : τ → τ) (target : ArtifactId → ArtifactId)
    (c d : ArtifactId) (f : τ → τ) : Prop where
  content_eq : ∀ r, content (f r) = content r
  owner_eq : ∀ r, owner (f r) = target (owner r)
  fixed : ∀ r, owner r ≠ c → owner r ≠ d → f r = r

variable {c d id : ArtifactId} {f g : τ → τ} {target : ArtifactId → ArtifactId}

/-- An update that keeps owners, after one that changes them. -/
theorem Reowns.comp (hg : Reowns owner content (fun id => id) c d g)
    (hf : Reowns owner content target c d f) : Reowns owner content target c d (g ∘ f) where
  content_eq r := (hg.content_eq (f r)).trans (hf.content_eq r)
  owner_eq r := (hg.owner_eq (f r)).trans (hf.owner_eq r)
  fixed r hc hd := by
    change g (f r) = r
    rw [hf.fixed r hc hd, hg.fixed r hc hd]

section

variable (hf : Reowns owner content (redirect c d) c d f)
include hf

/-- The canonical artifact owns what both owned. -/
theorem Reowns.union : ownedBy owner content (rows.map f) c =
      ownedBy owner content rows c ∪ ownedBy owner content rows d := by
  ext r
  simp only [ownedBy, Set.mem_ofPred_eq, Set.mem_union]
  constructor
  · rintro ⟨row', hrow', howner, rfl⟩
    obtain ⟨row, hrow, rfl⟩ := mem_map.mp hrow'
    rw [hf.owner_eq, redirect] at howner
    rw [hf.content_eq]
    by_cases hd : owner row = d
    · exact .inr ⟨row, hrow, hd, rfl⟩
    · rw [if_neg hd] at howner
      exact .inl ⟨row, hrow, howner, rfl⟩
  · rintro (⟨row, hrow, howner, rfl⟩ | ⟨row, hrow, howner, rfl⟩)
    · refine ⟨f row, mem_map_of_mem hrow, ?_, hf.content_eq row⟩
      rw [hf.owner_eq, howner, redirect]
      split <;> rfl
    · refine ⟨f row, mem_map_of_mem hrow, ?_, hf.content_eq row⟩
      rw [hf.owner_eq, howner, redirect, if_pos rfl]

/-- The duplicate owns nothing. -/
theorem Reowns.none_left (hne : c ≠ d) :
    ownedBy owner content (rows.map f) d = ∅ := by
  apply Set.eq_empty_of_forall_notMem
  rintro r ⟨row', hrow', howner, -⟩
  obtain ⟨row, -, rfl⟩ := mem_map.mp hrow'
  rw [hf.owner_eq, redirect] at howner
  split at howner
  · exact hne howner
  · next h => exact h howner

/-- The rows of another artifact are the same list. -/
theorem Reowns.others (hc : id ≠ c) (hd : id ≠ d) :
    (rows.map f).filter (fun r => decide (owner r = id)) =
      rows.filter fun r => decide (owner r = id) := by
  apply filter_map_of_fixed
  · intro r _
    rw [decide_eq_decide, hf.owner_eq, redirect]
    by_cases h : owner r = d
    · rw [if_pos h, h]
      exact ⟨fun h' => absurd h'.symm hc, fun h' => absurd h'.symm hd⟩
    · rw [if_neg h]
  · intro r _ hr
    have hid : owner r = id := of_decide_eq_true hr
    exact hf.fixed r (hid ▸ hc) (hid ▸ hd)

end

/-- Moving the rows of `d` to `c`. -/
theorem reowns_updateWhere {move : τ → τ} (hcontent : ∀ r, content (move r) = content r)
    (howner : ∀ r, owner (move r) = c) :
    Reowns owner content (redirect c d) c d
      (Rows.updateWhere (fun r => decide (owner r = d)) move) where
  content_eq := updateWhere_keeps hcontent
  owner_eq r := by
    by_cases h : owner r = d
    · rw [updateWhere_of (p := fun r => decide (owner r = d)) (decide_eq_true h), howner,
        redirect, if_pos h]
    · rw [updateWhere_of_not (p := fun r => decide (owner r = d)) (decide_eq_false h),
        redirect, if_neg h]
  fixed r _ hd := updateWhere_of_not (decide_eq_false hd)

/-- Flagging one row of `c`. -/
theorem reowns_flagOnly {key : τ → ℕ} {set : Bool → τ → τ} {k : Option ℕ}
    (hcontent : ∀ b r, content (set b r) = content r)
    (howner : ∀ b r, owner (set b r) = owner r) :
    Reowns owner content (fun id => id) c d (Rows.flagOnly key owner set c k) where
  content_eq r := by
    unfold Rows.flagOnly
    split
    · exact hcontent _ r
    · rfl
  owner_eq r := by
    unfold Rows.flagOnly
    split
    · exact howner _ r
    · rfl
  fixed _ hc _ := if_neg hc

end Owners

/-- A hash row without its owner and flag. -/
def HashRow.content (r : HashRow) : HashRow := r.moveTo 0

/-- A link without its owner and flag. -/
def LinkRow.content (l : LinkRow) : LinkRow := l.moveTo 0

/-- An observation without its owner. -/
def ObservationRow.content (o : ObservationRow) : ObservationRow := o.moveTo 0

namespace Tables

/-- The exact hashes of an artifact. -/
def hashSet (t : Tables) : ArtifactId → Set HashRow :=
  ownedBy HashRow.artifactId HashRow.content t.hashes

/-- The IOC links of an artifact. -/
def linkSet (t : Tables) : ArtifactId → Set LinkRow :=
  ownedBy LinkRow.artifactId LinkRow.content t.links

/-- The observations of an artifact. -/
def observationSet (t : Tables) : ArtifactId → Set ObservationRow :=
  ownedBy ObservationRow.artifactId ObservationRow.content t.observations

/-- The non-identity attributes of an artifact. -/
def attrSet (t : Tables) (id : ArtifactId) : Set (String × String) :=
  {a | ∃ row ∈ t.attrs, row.artifactId = id ∧ (row.attrType, row.attrValue) = a}

/-- The observations of an artifact, as rows. -/
def observationsOf (t : Tables) (id : ArtifactId) : List ObservationRow :=
  t.observations.filter fun o => decide (o.artifactId = id)

/-- An artifact and all its rows are the same in both tables. -/
structure SameArtifact (t t' : Tables) (id : ArtifactId) : Prop where
  artifact : t'.artifact? id = t.artifact? id
  hashes : t'.hashesOf id = t.hashesOf id
  links : t'.linksOf id = t.linksOf id
  observations : t'.observationsOf id = t.observationsOf id
  attrs : t'.attrsOf id = t.attrsOf id

/-- The primary hash of an artifact is unique, has the best rank, and `primary_hash_id`
points to it. -/
def HasPrimary (t : Tables) (id : ArtifactId) : Prop :=
  ∃ p ∈ t.hashesOf id, (∀ r ∈ t.hashesOf id, r.isPrimary = true ↔ r = p) ∧
    (∀ r ∈ t.hashesOf id, primaryPriorityRank p.hash.hashType ≤ primaryPriorityRank r.hash.hashType) ∧
    ∃ a, t.artifact? id = some a ∧ a.primaryHashId = some p.id

/-- What a merge of `d` into `c` guarantees. -/
structure Merged (t t' : Tables) (c d : ArtifactId) : Prop where
  hashes : t'.hashSet c = t.hashSet c ∪ t.hashSet d
  links : t'.linkSet c = t.linkSet c ∪ t.linkSet d
  observations : t'.observationSet c = t.observationSet c ∪ t.observationSet d
  attrs : t'.attrSet c = t.attrSet c ∪ t.attrSet d
  none_left : t'.hashSet d = ∅ ∧ t'.linkSet d = ∅ ∧ t'.observationSet d = ∅ ∧ t'.attrSet d = ∅
  others : ∀ id, id ≠ c → id ≠ d → SameArtifact t t' id
  canonical_active : t'.IsActive c
  tombstone : ∃ a, t'.artifact? d = some a ∧ a.status = .merged c ∧ a.primaryHashId = none
  primary : t'.hashesOf c ≠ [] → t'.HasPrimary c
  canonical_link : t'.linksOf c ≠ [] → ∃ l ∈ t'.linksOf c, ∀ m ∈ t'.linksOf c,
    m.isCanonicalIoc = true ↔ m = l

end Tables

namespace Tables

variable {t : Tables} {c d : ArtifactId} {input : MergeInput} {canonical duplicate : Artifact}

/-- An artifact with links has exactly one canonical link after `syncCanonicalIocFlag`. -/
theorem syncCanonical_flags (hunique : (t.syncCanonical c).Unique)
    (hlinks : (t.syncCanonical c).linksOf c ≠ []) :
    ∃ l ∈ (t.syncCanonical c).linksOf c, ∀ m ∈ (t.syncCanonical c).linksOf c,
      m.isCanonicalIoc = true ↔ m = l := by
  have hids : (t.links.map LinkRow.id).Nodup := by
    have hsame : (t.syncCanonical c).links.map LinkRow.id = t.links.map LinkRow.id :=
      map_update fun l => (sameLink_flagOnly _ _ l).id
    rw [← hsame]
    exact hunique.link_id
  cases hcanonical : t.canonicalLink c with
  | none =>
    rw [syncCanonical_of_none hcanonical] at hlinks
    exact absurd (canonicalLink_eq_none.mp hcanonical) hlinks
  | some l =>
    obtain ⟨hl, hart⟩ := canonicalLink_mem hcanonical
    have hset : ∀ b (l : LinkRow), LinkRow.isCanonicalIoc (LinkRow.setCanonical b l) = b :=
      fun _ _ => rfl
    obtain ⟨hmem, hflag⟩ := flag_flagOnly_iff hids hset hl hart
    have hsync : (t.syncCanonical c).links = t.links.map
        (Rows.flagOnly LinkRow.id LinkRow.artifactId LinkRow.setCanonical c (some l.id)) := by
      unfold syncCanonical
      rw [hcanonical]
      rfl
    refine ⟨l.setCanonical true, mem_linksOf.mpr ⟨by rw [hsync]; exact hmem, hart⟩, ?_⟩
    intro m hm
    obtain ⟨hm, hmc⟩ := mem_linksOf.mp hm
    rw [hsync] at hm
    exact hflag m hm hmc

/-- An artifact with hashes has its best one as the primary hash after
`recomputePrimaryHash`. -/
theorem recomputePrimary_hasPrimary (hids : (t.hashes.map HashRow.id).Nodup)
    (hc : ∃ a, t.artifact? c = some a) (hhashes : (t.recomputePrimary c).hashesOf c ≠ []) :
    (t.recomputePrimary c).HasPrimary c := by
  unfold recomputePrimary at hhashes ⊢
  cases hprimary : t.primaryHash c with
  | none =>
    simp only [hprimary] at hhashes
    exact absurd (selectPrimaryHash_eq_none.mp hprimary) hhashes
  | some p =>
    obtain ⟨hp, hart⟩ := primaryHash_mem hprimary
    obtain ⟨-, hbest⟩ := selectPrimaryHash_spec hprimary
    have hset : ∀ b (r : HashRow), HashRow.isPrimary (HashRow.setPrimary b r) = b := fun _ _ => rfl
    obtain ⟨hmem, hflag⟩ := flag_flagOnly_iff hids hset hp hart
    refine ⟨p.setPrimary true, mem_hashesOf.mpr ⟨hmem, hart⟩, ?_, ?_, ?_⟩
    · intro r hr
      obtain ⟨hr, hrc⟩ := mem_hashesOf.mp hr
      exact hflag r hr hrc
    · intro r hr
      obtain ⟨hr, hrc⟩ := mem_hashesOf.mp hr
      obtain ⟨r₀, hr₀, rfl⟩ := mem_map.mp hr
      have hsame := sameHash_flagOnly c (some p.id) r₀
      rw [hsame.artifactId] at hrc
      rw [hsame.hash]
      exact hbest r₀ (mem_hashesOf.mpr ⟨hr₀, hrc⟩)
    · obtain ⟨a, ha⟩ := hc
      have hid : ∀ x, (setPrimaryHashId c (some p.id) x).id = x.id := by
        intro x
        apply updateWhere_keeps (c := Artifact.id)
        exact fun _ => rfl
      have hlookup : Rows.lookup Artifact.id (t.artifacts.map (setPrimaryHashId c (some p.id))) c =
          some (setPrimaryHashId c (some p.id) a) := by
        rw [lookup_map hid]
        exact congrArg (Option.map _) ha
      refine ⟨_, hlookup, ?_⟩
      have hac : a.id = c := (mem_of_lookup ha).2
      rw [setPrimaryHashId, updateWhere_of (p := fun x : Artifact => decide (x.id = c))
        (decide_eq_true hac)]
      rfl

/-- `recomputePrimaryHash` changes flags of the artifact's rows and its pointer. -/
theorem recomputePrimary_stage (t : Tables) (c d : ArtifactId) :
    ∃ f g primary, Reowns HashRow.artifactId HashRow.content (fun id => id) c d f ∧
      Reowns LinkRow.artifactId LinkRow.content (fun id => id) c d g ∧
      t.recomputePrimary c =
        { t with
          artifacts := t.artifacts.map (setPrimaryHashId c primary)
          hashes := t.hashes.map f
          links := t.links.map g } := by
  unfold recomputePrimary
  cases t.primaryHash c with
  | none =>
    refine ⟨id, id, none, ⟨fun _ => rfl, fun _ => rfl, fun _ _ _ => rfl⟩,
      ⟨fun _ => rfl, fun _ => rfl, fun _ _ _ => rfl⟩, ?_⟩
    simp only [map_id, updateArtifacts]
  | some p =>
    refine ⟨_, _, some p.id, ?_, ?_, rfl⟩
    · exact reowns_flagOnly (fun _ _ => rfl) (fun _ _ => rfl)
    · exact reowns_flagOnly (fun _ _ => rfl) (fun _ _ => rfl)

/-- The tables of `file_artifacts`, hashes, links, observations and attributes after a merge. -/
theorem merge_stage (input : MergeInput) (canonical duplicate : Artifact) (t : Tables) :
    ∃ f g primary, Reowns HashRow.artifactId HashRow.content
        (redirect canonical.id duplicate.id) canonical.id duplicate.id f ∧
      Reowns LinkRow.artifactId LinkRow.content
        (redirect canonical.id duplicate.id) canonical.id duplicate.id g ∧
      t.merge input canonical duplicate =
        { t with
          artifacts := ((t.artifacts.map (setFileMetadata canonical.id
            (mergeArtifactMetadata canonical.file duplicate.file))).map
              (setTombstone duplicate.id canonical.id (mergeStamp input))).map
                (setPrimaryHashId canonical.id primary)
          hashes := t.hashes.map f
          links := t.links.map g
          observations := t.observations.map (Rows.updateWhere
            (fun o => decide (o.artifactId = duplicate.id)) (ObservationRow.moveTo canonical.id))
          attrs := (t.moveAttrs canonical.id duplicate.id).attrs } := by
  obtain ⟨f, g, primary, hf, hg, hstage⟩ := recomputePrimary_stage
    (((t.moveRows canonical.id duplicate.id).moveAttrs canonical.id duplicate.id).setMerged
      input canonical duplicate) canonical.id duplicate.id
  have hsync : Reowns LinkRow.artifactId LinkRow.content (fun id => id) canonical.id duplicate.id
      (Rows.flagOnly LinkRow.id LinkRow.artifactId LinkRow.setCanonical canonical.id
        ((((((t.moveRows canonical.id duplicate.id).moveAttrs canonical.id duplicate.id).setMerged
          input canonical duplicate).recomputePrimary canonical.id).canonicalLink
            canonical.id).map LinkRow.id)) :=
    reowns_flagOnly (fun _ _ => rfl) (fun _ _ => rfl)
  have hhashes : Reowns HashRow.artifactId HashRow.content (redirect canonical.id duplicate.id)
      canonical.id duplicate.id (Rows.updateWhere
        (fun r => decide (r.artifactId = duplicate.id)) (HashRow.moveTo canonical.id)) :=
    reowns_updateWhere (fun _ => rfl) (fun _ => rfl)
  have hlinks : Reowns LinkRow.artifactId LinkRow.content (redirect canonical.id duplicate.id)
      canonical.id duplicate.id (Rows.updateWhere
        (fun l => decide (l.artifactId = duplicate.id)) (LinkRow.moveTo canonical.id)) :=
    reowns_updateWhere (fun _ => rfl) (fun _ => rfl)
  refine ⟨_, _, primary, hf.comp hhashes, hsync.comp (hg.comp hlinks), ?_⟩
  rw [merge, syncCanonical, hstage]
  simp only [updateLinks, setMerged, moveAttrs, moveRows, updateHashes, updateObservations,
    updateArtifacts, map_map]
  rfl

/-- The attributes that an insertion adds. -/
theorem key_mem_foldl_insertAttrRow {news attrs : List AttrRow} {k : ArtifactId × String × String} :
    k ∈ (news.foldl insertAttrRow attrs).map AttrRow.key ↔
      k ∈ attrs.map AttrRow.key ∨ k ∈ news.map AttrRow.key := by
  induction news generalizing attrs with
  | nil => simp
  | cons a news ih =>
    have hstep : k ∈ (insertAttrRow attrs a).map AttrRow.key ↔
        k ∈ attrs.map AttrRow.key ∨ k = a.key := by
      unfold insertAttrRow
      split
      · next h =>
        constructor
        · exact .inl
        · rintro (hk | rfl)
          · exact hk
          · exact h
      · simp
    rw [foldl_cons, ih, hstep, map_cons, mem_cons, or_assoc]

/-- An insertion for one artifact leaves the rows of the others alone. -/
theorem filter_foldl_insertAttrRow {news attrs : List AttrRow} {p : AttrRow → Bool}
    (hp : ∀ a ∈ news, p a = false) :
    (news.foldl insertAttrRow attrs).filter p = attrs.filter p := by
  induction news generalizing attrs with
  | nil => rfl
  | cons a news ih =>
    have ha := hp a mem_cons_self
    have hstep : (insertAttrRow attrs a).filter p = attrs.filter p := by
      unfold insertAttrRow
      split
      · rfl
      · simp [ha]
    rw [foldl_cons, ih fun b hb => hp b (.tail _ hb), hstep]

theorem mem_attrSet {id : ArtifactId} {k : String × String} :
    k ∈ t.attrSet id ↔ (id, k.1, k.2) ∈ t.attrs.map AttrRow.key := by
  simp only [attrSet, Set.mem_ofPred_eq, mem_map, AttrRow.key, Prod.ext_iff]

/-- The key of a row that was moved. -/
theorem attrs_moveAttrs (hne : c ≠ d) (id : ArtifactId) :
    (t.moveAttrs c d).attrSet id =
      if id = d then ∅ else if id = c then t.attrSet c ∪ t.attrSet d else t.attrSet id := by
  ext k
  have hkey : k ∈ (t.moveAttrs c d).attrSet id ↔ id ≠ d ∧
      ((id, k.1, k.2) ∈ t.attrs.map AttrRow.key ∨
        (id, k.1, k.2) ∈ ((t.attrsOf d).map (AttrRow.moveTo c)).map AttrRow.key) := by
    rw [mem_attrSet, ← key_mem_foldl_insertAttrRow]
    simp only [moveAttrs, mem_map, mem_filter, decide_eq_true_eq]
    constructor
    · rintro ⟨a, ⟨ha, had⟩, hk⟩
      have hart : a.artifactId = id := (Prod.ext_iff.mp hk).1
      exact ⟨hart ▸ had, a, ha, hk⟩
    · rintro ⟨hid, a, ha, hk⟩
      have hart : a.artifactId = id := (Prod.ext_iff.mp hk).1
      exact ⟨a, ⟨ha, hart ▸ hid⟩, hk⟩
  have hmoved : (id, k.1, k.2) ∈ ((t.attrsOf d).map (AttrRow.moveTo c)).map AttrRow.key ↔
      id = c ∧ k ∈ t.attrSet d := by
    simp only [attrsOf, mem_map, mem_filter, decide_eq_true_eq, AttrRow.key,
      AttrRow.moveTo, attrSet, Set.mem_ofPred_eq, Prod.ext_iff]
    constructor
    · rintro ⟨_, ⟨a, ⟨ha, had⟩, rfl⟩, hc, h₁, h₂⟩
      exact ⟨hc.symm, a, ha, had, h₁, h₂⟩
    · rintro ⟨rfl, a, ha, had, h₁, h₂⟩
      exact ⟨_, ⟨a, ⟨ha, had⟩, rfl⟩, rfl, h₁, h₂⟩
  rw [hkey, hmoved, ← mem_attrSet]
  by_cases hd : id = d
  · simp [hd]
  · by_cases hc : id = c
    · simp [hc, hne]
    · simp [hd, hc]

/-- The row of an artifact after the three updates of a merge. -/
def mergedRow (input : MergeInput) (canonical duplicate : Artifact) (primary : Option ℕ)
    (a : Artifact) : Artifact :=
  setPrimaryHashId canonical.id primary (setTombstone duplicate.id canonical.id (mergeStamp input)
    (setFileMetadata canonical.id (mergeArtifactMetadata canonical.file duplicate.file) a))

theorem id_setTombstone (d c : ArtifactId) (stamp : List (String × String)) (a : Artifact) :
    (setTombstone d c stamp a).id = a.id := by
  apply updateWhere_keeps (c := Artifact.id)
  exact fun _ => rfl

theorem id_setFileMetadata (id : ArtifactId) (file : FileMetadata) (a : Artifact) :
    (setFileMetadata id file a).id = a.id := by
  apply updateWhere_keeps (c := Artifact.id)
  exact fun _ => rfl

theorem id_setPrimaryHashId (id : ArtifactId) (primary : Option ℕ) (a : Artifact) :
    (setPrimaryHashId id primary a).id = a.id := by
  apply updateWhere_keeps (c := Artifact.id)
  exact fun _ => rfl

theorem mergedRow_id (primary : Option ℕ) (a : Artifact) :
    (mergedRow input canonical duplicate primary a).id = a.id := by
  rw [mergedRow, id_setPrimaryHashId, id_setTombstone, id_setFileMetadata]

variable {primary : Option ℕ} {a : Artifact}

/-- The other artifacts keep their row. -/
theorem mergedRow_other (hc : a.id ≠ canonical.id) (hd : a.id ≠ duplicate.id) :
    mergedRow input canonical duplicate primary a = a := by
  have h₁ : setFileMetadata canonical.id (mergeArtifactMetadata canonical.file duplicate.file) a =
      a := updateWhere_of_not (decide_eq_false hc)
  have h₂ : setTombstone duplicate.id canonical.id (mergeStamp input) a = a :=
    updateWhere_of_not (decide_eq_false hd)
  have h₃ : setPrimaryHashId canonical.id primary a = a := updateWhere_of_not (decide_eq_false hc)
  rw [mergedRow, h₁, h₂, h₃]

theorem status_setPrimaryHashId (id : ArtifactId) (primary : Option ℕ) (a : Artifact) :
    (setPrimaryHashId id primary a).status = a.status := by
  apply updateWhere_keeps (c := Artifact.status)
  exact fun _ => rfl

/-- The duplicate's row becomes a tombstone without a primary hash. -/
theorem mergedRow_duplicate (hne : canonical.id ≠ duplicate.id) (hd : a.id = duplicate.id) :
    (mergedRow input canonical duplicate primary a).status = .merged canonical.id ∧
      (mergedRow input canonical duplicate primary a).primaryHashId = none := by
  have hc : a.id ≠ canonical.id := fun h => hne (h.symm.trans hd)
  have h₁ : setFileMetadata canonical.id (mergeArtifactMetadata canonical.file duplicate.file) a =
      a := updateWhere_of_not (decide_eq_false hc)
  have h₂ : setTombstone duplicate.id canonical.id (mergeStamp input) a =
      { a with
        status := .merged canonical.id
        primaryHashId := none
        file := { a.file with metadata := spread a.file.metadata (mergeStamp input) } } :=
    updateWhere_of (p := fun a : Artifact => decide (a.id = duplicate.id)) (decide_eq_true hd)
  rw [mergedRow, h₁, h₂]
  constructor
  · exact status_setPrimaryHashId _ _ _
  · exact (congrArg Artifact.primaryHashId (updateWhere_of_not (decide_eq_false hc)))

/-- The canonical row stays active. -/
theorem mergedRow_canonical (hne : canonical.id ≠ duplicate.id) (hc : a.id = canonical.id) :
    (mergedRow input canonical duplicate primary a).status = a.status := by
  have hfile : ∀ a, (setFileMetadata canonical.id
      (mergeArtifactMetadata canonical.file duplicate.file) a).status = a.status := by
    intro a
    apply updateWhere_keeps (c := Artifact.status)
    exact fun _ => rfl
  have htombstone : setTombstone duplicate.id canonical.id (mergeStamp input)
      (setFileMetadata canonical.id (mergeArtifactMetadata canonical.file duplicate.file) a) =
      setFileMetadata canonical.id (mergeArtifactMetadata canonical.file duplicate.file) a :=
    updateWhere_of_not (decide_eq_false (by rw [id_setFileMetadata, hc]; exact hne))
  rw [mergedRow, status_setPrimaryHashId, htombstone, hfile]

/-- What `performMerge` leaves behind. -/
theorem merged_of_eq {s s' : Database} {canonical duplicate : Artifact} {input : MergeInput}
    (hne : canonical.id ≠ duplicate.id)
    (hcanonical : s.tables.artifact? canonical.id = some canonical)
    (hactive : canonical.status = .active)
    (hduplicate : s.tables.artifact? duplicate.id = some duplicate)
    (h : s'.tables = s.tables.merge input canonical duplicate) :
    Merged s.tables s'.tables canonical.id duplicate.id := by
  obtain ⟨f, g, primary, hf, hg, hstage⟩ := merge_stage input canonical duplicate s.tables
  have hend := h
  rw [hstage] at h
  have hobservations : Reowns ObservationRow.artifactId ObservationRow.content
      (redirect canonical.id duplicate.id) canonical.id duplicate.id (Rows.updateWhere
        (fun o => decide (o.artifactId = duplicate.id)) (ObservationRow.moveTo canonical.id)) :=
    reowns_updateWhere (fun _ => rfl) (fun _ => rfl)
  have hartifact : ∀ id, s'.tables.artifact? id =
      (s.tables.artifact? id).map (mergedRow input canonical duplicate primary) := by
    intro id
    rw [h]
    simp only [artifact?, map_map]
    exact lookup_map (mergedRow_id primary)
  have hattrs : ∀ id, s'.tables.attrSet id =
      (s.tables.moveAttrs canonical.id duplicate.id).attrSet id := by
    intro id
    rw [h]
    rfl
  have hothers : ∀ id, id ≠ canonical.id → id ≠ duplicate.id →
      SameArtifact s.tables s'.tables id := by
    intro id hc hd
    refine { artifact := ?_, hashes := ?_, links := ?_, observations := ?_, attrs := ?_ }
    · rw [hartifact]
      cases ha : s.tables.artifact? id with
      | none => rfl
      | some a =>
        have hid : a.id = id := (mem_of_lookup ha).2
        rw [Option.map_some, mergedRow_other (hid ▸ hc) (hid ▸ hd)]
    · rw [h]
      exact hf.others hc hd
    · rw [h]
      exact hg.others hc hd
    · rw [h]
      exact hobservations.others hc hd
    · rw [h]
      unfold moveAttrs attrsOf
      rw [filter_filter]
      have hfilter : ∀ a : AttrRow, (decide (a.artifactId = id) &&
          decide (a.artifactId ≠ duplicate.id)) = decide (a.artifactId = id) := by
        intro a
        by_cases ha : a.artifactId = id
        · simp [ha, hd]
        · simp [ha]
      simp only [hfilter]
      apply filter_foldl_insertAttrRow
      intro a ha
      obtain ⟨a₀, -, rfl⟩ := mem_map.mp ha
      exact decide_eq_false (Ne.symm hc)
  refine
    { hashes := ?_, links := ?_, observations := ?_, attrs := ?_, none_left := ⟨?_, ?_, ?_, ?_⟩,
      others := hothers, canonical_active := ?_, tombstone := ?_, primary := ?_,
      canonical_link := ?_ }
  · rw [h]
    exact hf.union
  · rw [h]
    exact hg.union
  · rw [h]
    exact hobservations.union
  · rw [hattrs, attrs_moveAttrs hne, if_neg hne, if_pos rfl]
  · rw [h]
    exact hf.none_left hne
  · rw [h]
    exact hg.none_left hne
  · rw [h]
    exact hobservations.none_left hne
  · rw [hattrs, attrs_moveAttrs hne, if_pos rfl]
  · refine ⟨_, (hartifact canonical.id).trans (congrArg _ hcanonical), ?_⟩
    rw [mergedRow_canonical hne rfl, hactive]
  · exact ⟨_, (hartifact duplicate.id).trans (congrArg _ hduplicate), mergedRow_duplicate hne rfl⟩
  · intro hhashes
    rw [hend] at hhashes ⊢
    have hids : ((s.tables.hashes.map (Rows.updateWhere
        (fun r => decide (r.artifactId = duplicate.id)) (HashRow.moveTo canonical.id))).map
          HashRow.id).Nodup :=
      nodup_map_update (updateWhere_keeps fun _ => rfl) s.unique.hash_id
    have hrow : ∃ a, (((s.tables.moveRows canonical.id duplicate.id).moveAttrs canonical.id
        duplicate.id).setMerged input canonical duplicate).artifact? canonical.id = some a := by
      have hid : ∀ a, (setTombstone duplicate.id canonical.id (mergeStamp input)
          (setFileMetadata canonical.id
            (mergeArtifactMetadata canonical.file duplicate.file) a)).id = a.id :=
        fun a => (id_setTombstone ..).trans (id_setFileMetadata ..)
      refine ⟨setTombstone duplicate.id canonical.id (mergeStamp input)
        (setFileMetadata canonical.id
          (mergeArtifactMetadata canonical.file duplicate.file) canonical), ?_⟩
      simp only [artifact?, setMerged, updateArtifacts, map_map]
      exact (lookup_map hid).trans (congrArg _ hcanonical)
    exact recomputePrimary_hasPrimary hids hrow hhashes
  · intro hlinks
    have hunique := s'.unique
    rw [hend] at hlinks hunique ⊢
    exact syncCanonical_flags hunique hlinks

end Tables

section Call

variable {s s' : Database} {input : MergeInput} {c d : ArtifactId} {canonical duplicate : Artifact}

section

variable (hne : c ≠ d) (hcanonical : s.tables.artifact? c = some canonical)
include hne hcanonical

/-- The call between two artifacts that are there. -/
theorem mergeFileArtifacts_of_rows (hduplicate : s.tables.artifact? d = some duplicate)
    (hinput : input.canonicalArtifactId = some c ∧ input.duplicateArtifactId = some d) :
    mergeFileArtifacts input s =
      (match mergeDecision Artifact.status c d (some canonical) (some duplicate) with
        | .artifactNotFound => pure .artifactNotFound
        | .alreadyMerged => pure .alreadyMerged
        | .follow c d => mergeArtifacts input (2 * s.tables.artifacts.length) c d
        | .proceed canonical duplicate => performMerge input canonical duplicate :
          Db MergeResult) s := by
  unfold mergeFileArtifacts
  rw [hinput.1, hinput.2]
  change mergeArtifacts input (2 * s.tables.artifacts.length + 1) c d s = _
  rw [mergeArtifacts, if_neg hne, ← hcanonical, ← hduplicate]
  rfl

section

variable (hactive : canonical.status = .active) (hduplicate : s.tables.artifact? d = some duplicate)
include hactive hduplicate

/-- Between two active artifacts the call moves rows and recurs nowhere. -/
theorem mergeFileArtifacts_eq (hactive' : duplicate.status = .active)
    (hinput : input.canonicalArtifactId = some c ∧ input.duplicateArtifactId = some d) :
    mergeFileArtifacts input s = performMerge input canonical duplicate s := by
  rw [mergeFileArtifacts_of_rows hne hcanonical hduplicate hinput]
  simp only [mergeDecision, hactive, hactive']

/-- A tombstone that points at the canonical artifact is not merged again. -/
theorem mergeFileArtifacts_alreadyMerged (hmerged : duplicate.status = .merged c)
    (hinput : input.canonicalArtifactId = some c ∧ input.duplicateArtifactId = some d) :
    Returns (mergeFileArtifacts input) s .alreadyMerged s := by
  unfold Returns
  rw [mergeFileArtifacts_of_rows hne hcanonical hduplicate hinput]
  simp only [mergeDecision, hactive, hmerged, if_true]
  rfl

end

end

/-- A merge of two active artifacts that returns ok without being a noop loses nothing and
leaves a well-formed artifact, and the same call again is a noop; one that raises is rolled
back by its savepoint. -/
theorem mergeFileArtifacts_contract (hc : s.tables.IsActive c) (hd : s.tables.IsActive d)
    (hne : c ≠ d)
    (hinput : input.canonicalArtifactId = some c ∧ input.duplicateArtifactId = some d) :
    (∀ result s', Returns (mergeFileArtifacts input) s result s' → result.ok = true →
        result.noop = false → Tables.Merged s.tables s'.tables c d ∧
          ∃ again, Returns (mergeFileArtifacts input) s' again s' ∧ again.ok = true ∧
            again.noop = true) ∧
      ∀ e s', mergeFileArtifacts input s = .error e s' →
        withSavepoint (mergeFileArtifacts input) s = .error e s := by
  obtain ⟨canonical, hcanonical, hactive⟩ := hc
  obtain ⟨duplicate, hduplicate, hactive'⟩ := hd
  obtain rfl : canonical.id = c := (mem_of_lookup hcanonical).2
  obtain rfl : duplicate.id = d := (mem_of_lookup hduplicate).2
  have heq := mergeFileArtifacts_eq hne hcanonical hactive hduplicate hactive' hinput
  constructor
  · intro result s' hreturns _ _
    have hperform : Returns (performMerge input canonical duplicate) s result s' :=
      heq.symm.trans hreturns
    have hmerged : Tables.Merged s.tables s'.tables canonical.id duplicate.id :=
      Tables.merged_of_eq hne hcanonical hactive hduplicate (performMerge_effect hperform).1
    obtain ⟨a, ha, hstatus⟩ := hmerged.canonical_active
    obtain ⟨b, hb, hstatus', -⟩ := hmerged.tombstone
    exact ⟨hmerged, .alreadyMerged,
      mergeFileArtifacts_alreadyMerged hne ha hstatus hb hstatus' hinput, rfl, rfl⟩
  · intro e s' herror
    simp only [withSavepoint, herror]

/-- An artifact without rows. -/
def plainArtifact (id : ArtifactId) (status : Status) : Artifact where
  id := id
  primaryHashId := none
  status := status
  file := ⟨none, none, none, none, none, none, []⟩
  createdAt := 0

/-- A hash of an artifact. -/
def plainHash (id : ℕ) (artifactId : ArtifactId) (hash : ExactHash) : HashRow where
  id := id
  artifactId := artifactId
  hash := hash
  isPrimary := false
  firstSeenAt := 0
  lastSeenAt := 0
  verificationSource := none

/-- An MD5 and a SHA1. -/
def plainMd5 : ExactHash := ⟨.md5, "0123456789abcdef0123456789abcdef", by decide⟩
def plainSha1 : ExactHash := ⟨.sha1, "0123456789abcdef0123456789abcdef01234567", by decide⟩

/-- The merge of artifact 2 into artifact 1. -/
def plainMerge : MergeInput := ⟨some 1, some 2, none, none, "null"⟩

/-- Two artifacts with the given hashes. -/
def twoArtifacts (hashes : List HashRow) : Tables :=
  { Tables.empty with
    artifacts := [plainArtifact 1 .active, plainArtifact 2 .active]
    hashes := hashes }

/-- A merge that returns: artifact 1 ends with both hashes. -/
theorem mergeFileArtifacts_contract_plain :
    ∃ s : Database, s.tables = twoArtifacts [plainHash 1 1 plainMd5, plainHash 2 2 plainSha1] ∧
      ∃ result s', Returns (mergeFileArtifacts plainMerge) s result s' ∧ result.ok = true ∧
        result.noop = false ∧ Tables.Merged s.tables s'.tables 1 2 := by
  let s : Database := ⟨twoArtifacts [plainHash 1 1 plainMd5, plainHash 2 2 plainSha1],
    by decide, by decide⟩
  have hreturns : ∃ result s', Returns (mergeFileArtifacts plainMerge) s result s' ∧
      result.ok = true ∧ result.noop = false := by
    have hperform : Returns (mergeFileArtifacts plainMerge) s = Returns (performMerge plainMerge
        (plainArtifact 1 .active) (plainArtifact 2 .active)) s := by
      unfold Returns
      rw [mergeFileArtifacts_eq (c := 1) (d := 2) (by decide) rfl rfl rfl rfl ⟨rfl, rfl⟩]
    obtain ⟨result, s', h⟩ : ∃ result s', Returns (performMerge plainMerge
        (plainArtifact 1 .active) (plainArtifact 2 .active)) s result s' :=
      performMerge_returns (by decide) (by unfold Tables.TypesDisjoint; decide)
    obtain ⟨primary, rfl⟩ := (performMerge_effect h).2
    exact ⟨.merged 1 2 primary, s', by rw [hperform]; exact h, rfl, rfl⟩
  obtain ⟨result, s', h, hok, hnoop⟩ := hreturns
  refine ⟨s, rfl, result, s', h, hok, hnoop, ?_⟩
  exact ((mergeFileArtifacts_contract (c := 1) (d := 2) ⟨_, rfl, rfl⟩ ⟨_, rfl, rfl⟩ (by decide)
    ⟨rfl, rfl⟩).1 result s' h hok hnoop).1

/-- Two artifacts without hashes merge, and the result has no primary hash. -/
theorem mergeFileArtifacts_hashless : ∃ s s' : Database, s.tables.IsActive 1 ∧ s.tables.IsActive 2 ∧
      ∃ result, Returns (mergeFileArtifacts plainMerge) s result s' ∧ result.ok = true ∧
        result.noop = false ∧ ¬ ∃ r ∈ s'.tables.hashesOf 1, r.isPrimary = true := by
  let s : Database := ⟨twoArtifacts [], by decide, by decide⟩
  refine ⟨s, ?_⟩
  obtain ⟨result, s', h⟩ : ∃ result s', Returns (performMerge plainMerge
      (plainArtifact 1 .active) (plainArtifact 2 .active)) s result s' :=
    performMerge_returns (by decide) (nofun)
  obtain ⟨heffect, primary, rfl⟩ := performMerge_effect h
  refine ⟨s', ⟨_, rfl, rfl⟩, ⟨_, rfl, rfl⟩, .merged 1 2 primary, ?_, rfl, rfl, ?_⟩
  · unfold Returns
    rw [mergeFileArtifacts_eq (c := 1) (d := 2) (by decide) rfl rfl rfl rfl ⟨rfl, rfl⟩]
    exact h
  · obtain ⟨f, g, primary, -, -, hstage⟩ := Tables.merge_stage plainMerge
      (plainArtifact 1 .active) (plainArtifact 2 .active) s.tables
    rintro ⟨r, hr, -⟩
    have hr' := (Tables.mem_hashesOf.mp hr).1
    rw [heffect, hstage] at hr'
    cases hr'

/-- A merge that returned left one hash of each type on the canonical artifact. -/
theorem performMerge_typesDisjoint {result : MergeResult} (hne : canonical.id ≠ duplicate.id)
    (h : Returns (performMerge input canonical duplicate) s result s') :
    s.tables.TypesDisjoint canonical.id duplicate.id := by
  intro r hr r' hr' hrc hrd htype
  -- both rows would sit on the canonical artifact with one type
  have heffect := (performMerge_effect h).1
  obtain ⟨f, g, primary, hf, -, hstage⟩ := Tables.merge_stage input canonical duplicate s.tables
  have hhashes : s'.tables.hashes = s.tables.hashes.map f := by rw [heffect, hstage]
  have hfcontent : ∀ x, (f x).hash = x.hash ∧ (f x).id = x.id := by
    intro x
    have hx := hf.content_eq x
    have hhash := congrArg HashRow.hash hx
    have hid := congrArg HashRow.id hx
    exact ⟨hhash, hid⟩
  have hsame : f r = f r' := by
    apply inj_on_of_nodup_map s'.unique.hash_type
      (hhashes ▸ mem_map_of_mem hr) (hhashes ▸ mem_map_of_mem hr')
    apply Prod.ext
    · change (f r).artifactId = (f r').artifactId
      rw [hf.owner_eq, hf.owner_eq, hrc, hrd, redirect, if_neg hne, redirect, if_pos rfl]
    · change (f r).hash.hashType = (f r').hash.hashType
      rw [(hfcontent r).1, (hfcontent r').1, htype]
  have hrr : r = r' := by
    apply inj_on_of_nodup_map s.unique.hash_id hr hr'
    rw [← (hfcontent r).2, hsame, (hfcontent r').2]
  exact hne (hrc.symm.trans (hrr ▸ hrd))

/-- A merge of two active artifacts returns exactly when no hash type is on both. -/
theorem mergeFileArtifacts_returns_iff (hc : s.tables.IsActive c) (hd : s.tables.IsActive d)
    (hne : c ≠ d)
    (hinput : input.canonicalArtifactId = some c ∧ input.duplicateArtifactId = some d) :
    (∃ result s', Returns (mergeFileArtifacts input) s result s') ↔ s.tables.TypesDisjoint c d := by
  obtain ⟨canonical, hcanonical, hactive⟩ := hc
  obtain ⟨duplicate, hduplicate, hactive'⟩ := hd
  obtain ⟨hmem, rfl⟩ := mem_of_lookup hcanonical
  obtain rfl : duplicate.id = d := (mem_of_lookup hduplicate).2
  unfold Returns
  rw [mergeFileArtifacts_eq hne hcanonical hactive hduplicate hactive' hinput]
  constructor
  · rintro ⟨result, s', h⟩
    exact performMerge_typesDisjoint hne h
  · exact fun hdisjoint => performMerge_returns (mem_map_of_mem hmem) hdisjoint

end Call

end TalonHound.FileArtifacts
