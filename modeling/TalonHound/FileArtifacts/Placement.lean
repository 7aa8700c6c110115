import TalonHound.FileArtifacts.Chains
import TalonHound.FileArtifacts.MergeContract

/-!
# Where hashes and IOC rows sit

The abstract state of the file artifacts: which artifacts exist and where tombstones
point, and the artifact of every exact hash and of every linked IOC row. Attaching adds to
it and brings parked hashes to the end of their chain; merging redirects one active
artifact to another.
-/

namespace TalonHound.FileArtifacts

open Function Rows Option

/-- Artifacts with the hashes and IOC rows that sit on them; a linked row has its public id. -/
@[ext] structure Placement where
  status : Versions
  hash : ExactHash → Option ArtifactId
  link : HashType × ℕ → Option (ArtifactId × ℕ)

variable {h : ExactHash}

namespace Placement

/-- Where a tombstone points. -/
def mergedInto (p : Placement) : ArtifactId → Option ArtifactId := p.status.mergedInto

/-- A new active artifact. -/
def create (id : ArtifactId) (p : Placement) : Placement :=
  { p with status := Function.update p.status id (some .active) }

/-- A hash put on an artifact. -/
def place (h : ExactHash) (id : ArtifactId) (p : Placement) : Placement :=
  { p with hash := Function.update p.hash h (some id) }

/-- An IOC row linked to an artifact. -/
def linkTo (k : HashType × ℕ) (id : ArtifactId) (publicId : ℕ) (p : Placement) : Placement :=
  { p with link := Function.update p.link k (some (id, publicId)) }

/-- `d` merged into `c`. -/
def merge (c d : ArtifactId) (p : Placement) : Placement where
  status := Function.update p.status d (some (.merged c))
  hash h := (p.hash h).map (redirect c d)
  link k := (p.link k).map fun l => (redirect c d l.1, l.2)

/-- No two hashes of one type sit on the two artifacts. -/
def TypesDisjoint (p : Placement) (c d : ArtifactId) : Prop :=
  ∀ g h, p.hash g = some c → p.hash h = some d → g.hashType ≠ h.hashType

/-- No hash of the type sits on the artifact. -/
def TypeFree (p : Placement) (id : ArtifactId) (type : HashType) : Prop :=
  ∀ g, p.hash g = some id → g.hashType ≠ type

variable {p p' p'' : Placement} {c d id : ArtifactId}

/-- A merge of an artifact that is not a tombstone is a link between parents. -/
theorem mergedInto_merge : (p.merge c d).mergedInto = linkUnder p.mergedInto d c := by
  funext id
  unfold mergedInto merge linkUnder Versions.mergedInto
  by_cases hid : id = d
  · subst hid
    simp
  · simp [update_of_ne hid]

/-- A new artifact points nowhere. -/
theorem mergedInto_create (hfresh : p.status id = none) :
    (p.create id).mergedInto = p.mergedInto := by
  funext x
  unfold mergedInto create Versions.mergedInto
  by_cases hx : x = id
  · subst hx
    simp [hfresh]
  · simp [update_of_ne hx]

/-- Following tombstones from where a hash sits ends at an artifact. -/
def Resolves (p : Placement) (h : ExactHash) (root : ArtifactId) : Prop :=
  ∃ x n, p.hash h = some x ∧ LeadsTo p.mergedInto n x root

/-- A hash resolves to one artifact. -/
theorem Resolves.unique {root root' : ArtifactId} (hr : p.Resolves h root)
    (hr' : p.Resolves h root') : root = root' := by
  obtain ⟨x, n, hx, hlead⟩ := hr
  obtain ⟨x', n', hx', hlead'⟩ := hr'
  obtain rfl := Option.some.inj (hx.symm.trans hx')
  exact (hlead.unique hlead').2

/-- What attaching may change: new artifacts are active, a hash of `hashes` gets an artifact
or comes from a tombstone to the end of its chain, and a new link of the kind `good` goes to
an artifact that is not a tombstone. -/
structure Grows (hashes : Set ExactHash) (good : HashType × ℕ → ℕ → Prop) (p p' : Placement) :
    Prop where
  mergedInto : p'.mergedInto = p.mergedInto
  known : ∀ id, p.status id ≠ none → p'.status id ≠ none
  hash : ∀ h, p'.hash h = p.hash h ∨ h ∈ hashes ∧ ∀ x, p.hash h = some x →
    p.mergedInto x ≠ none ∧ ∃ n root, LeadsTo p.mergedInto n x root ∧ p'.hash h = some root
  link : ∀ k, p'.link k = p.link k ∨ ∃ id publicId, p'.link k = some (id, publicId) ∧
    p.mergedInto id = none ∧ good k publicId

variable {hashes hashes' : Set ExactHash} {good : HashType × ℕ → ℕ → Prop}

theorem Grows.refl (p : Placement) : Grows hashes good p p :=
  ⟨rfl, fun _ h => h, fun _ => .inl rfl, fun _ => .inl rfl⟩

/-- A hash that was brought to the end of its chain stays there. -/
theorem Grows.trans (h : Grows hashes good p p') (h' : Grows hashes good p' p'') :
    Grows hashes good p p'' := by
  refine ⟨h'.mergedInto.trans h.mergedInto, fun id hid => h'.known id (h.known id hid),
    fun g => ?_, fun k => ?_⟩
  · rcases h'.hash g with hsame' | ⟨hg, hheal'⟩
    · rcases h.hash g with hsame | ⟨hg, hheal⟩
      · exact .inl (hsame'.trans hsame)
      · refine .inr ⟨hg, fun x hx => ?_⟩
        obtain ⟨hne, n, root, hlead, hroot⟩ := hheal x hx
        exact ⟨hne, n, root, hlead, hsame'.trans hroot⟩
    · refine .inr ⟨hg, fun x hx => ?_⟩
      rcases h.hash g with hsame | ⟨-, hheal⟩
      · obtain ⟨hne, n, root, hlead, hroot⟩ := hheal' x (hsame.trans hx)
        rw [h.mergedInto] at hne hlead
        exact ⟨hne, n, root, hlead, hroot⟩
      · obtain ⟨-, n, root, hlead, hroot⟩ := hheal x hx
        obtain ⟨hne', -⟩ := hheal' root hroot
        rw [h.mergedInto, hlead.isRoot] at hne'
        exact absurd rfl hne'
  · rcases h'.link k with hsame' | ⟨id, publicId, hlink, hactive, hgood⟩
    · rcases h.link k with hsame | ⟨id, publicId, hlink, hactive, hgood⟩
      · exact .inl (hsame'.trans hsame)
      · exact .inr ⟨id, publicId, hsame'.trans hlink, hactive, hgood⟩
    · rw [h.mergedInto] at hactive
      exact .inr ⟨id, publicId, hlink, hactive, hgood⟩

/-- More hashes may be attached. -/
theorem Grows.mono (h : Grows hashes good p p') (hsub : hashes ⊆ hashes') :
    Grows hashes' good p p' := by
  refine { h with hash := fun g => ?_ }
  rcases h.hash g with hsame | ⟨hg, hheal⟩
  · exact .inl hsame
  · exact .inr ⟨hsub hg, hheal⟩

theorem Grows.create (hfresh : p.status id = none) : Grows hashes good p (p.create id) := by
  refine ⟨mergedInto_create hfresh, fun x hx => ?_, fun _ => .inl rfl, fun _ => .inl rfl⟩
  unfold Placement.create
  by_cases hxid : x = id
  · subst hxid
    simp
  · simpa [update_of_ne hxid] using hx

/-- A hash without an artifact can be put on one. -/
theorem Grows.place (hfree : p.hash h = none) (hh : h ∈ hashes) :
    Grows hashes good p (p.place h id) := by
  refine ⟨rfl, fun _ hx => hx, fun g => ?_, fun _ => .inl rfl⟩
  by_cases hg : g = h
  · subst hg
    refine .inr ⟨hh, fun x hx => ?_⟩
    rw [hfree] at hx
    cases hx
  · exact .inl (update_of_ne hg _ _)

/-- A parked hash can be brought to the end of its chain. -/
theorem Grows.heal {x root : ArtifactId} {n : ℕ} (hx : p.hash h = some x)
    (hlead : LeadsTo p.mergedInto n x root) (hne : x ≠ root) (hh : h ∈ hashes) :
    Grows hashes good p (p.place h root) := by
  refine ⟨rfl, fun _ hx => hx, fun g => ?_, fun _ => .inl rfl⟩
  by_cases hg : g = h
  · subst hg
    refine .inr ⟨hh, fun y hy => ?_⟩
    obtain rfl := Option.some.inj (hx.symm.trans hy)
    refine ⟨fun hnone => hne ?_, n, root, hlead, update_self ..⟩
    exact (hlead.of_root hnone).2.symm
  · exact .inl (update_of_ne hg _ _)

theorem Grows.linkTo {k : HashType × ℕ} {publicId : ℕ} (hroot : p.mergedInto id = none)
    (hgood : good k publicId) : Grows hashes good p (p.linkTo k id publicId) := by
  refine ⟨rfl, fun _ hx => hx, fun _ => .inl rfl, fun k' => ?_⟩
  by_cases hk : k' = k
  · subst hk
    exact .inr ⟨id, publicId, update_self .., hroot, hgood⟩
  · exact .inl (update_of_ne hk _ _)

end Placement

namespace Tables

/-- The key that a link is unique by. -/
def linkKey (l : LinkRow) : HashType × ℕ := (l.iocObservableType, l.iocItemId)

/-- Where the hashes and IOC rows of the tables sit. -/
def placement (t : Tables) : Placement where
  status := t.versions
  hash h := (t.hashRow? h).map HashRow.artifactId
  link k := (Rows.lookup linkKey t.links k).map fun l => (l.artifactId, l.iocPublicId)

variable {t : Tables} {c d id : ArtifactId}

theorem placement_mergedInto : t.placement.mergedInto = t.mergedInto := t.versions_mergedInto

theorem placement_status_eq_none : t.placement.status id = none ↔ t.artifact? id = none :=
  map_eq_none_iff

theorem placement_hash_eq_some :
    t.placement.hash h = some id ↔ ∃ r, t.hashRow? h = some r ∧ r.artifactId = id :=
  map_eq_some_iff

/-- An update of artifacts that keeps the tombstones. -/
theorem placement_updateArtifacts {f : Artifact → Artifact} (hid : ∀ a, (f a).id = a.id)
    (hstatus : ∀ a, (f a).status = a.status) :
    (t.updateArtifacts f).placement = t.placement := by
  refine Placement.ext ?_ rfl rfl
  funext id
  change (Rows.lookup Artifact.id (t.artifacts.map f) id).map Artifact.status = _
  rw [lookup_map hid, map_map]
  rw [show Artifact.status ∘ f = Artifact.status from funext hstatus]
  rfl

/-- An update of hashes that keeps where they sit. -/
theorem placement_updateHashes {f : HashRow → HashRow} (hf : ∀ r, SameHash r (f r)) :
    (t.updateHashes f).placement = t.placement := by
  refine Placement.ext rfl ?_ rfl
  funext h
  change (Rows.lookup HashRow.hash (t.hashes.map f) h).map HashRow.artifactId = _
  rw [lookup_map fun r => (hf r).hash, map_map]
  rw [show HashRow.artifactId ∘ f = HashRow.artifactId from funext fun r => (hf r).artifactId]
  rfl

/-- An update of links that keeps where they go. -/
theorem placement_updateLinks {f : LinkRow → LinkRow} (hkey : ∀ l, linkKey (f l) = linkKey l)
    (hartifact : ∀ l, (f l).artifactId = l.artifactId)
    (hpublic : ∀ l, (f l).iocPublicId = l.iocPublicId) :
    (t.updateLinks f).placement = t.placement := by
  refine Placement.ext rfl rfl ?_
  funext k
  change (Rows.lookup linkKey (t.links.map f) k).map _ = _
  rw [lookup_map hkey, map_map]
  rw [show (fun l : LinkRow => (l.artifactId, l.iocPublicId)) ∘ f =
    fun l => (l.artifactId, l.iocPublicId) from funext fun l => Prod.ext (hartifact l) (hpublic l)]
  rfl

theorem placement_syncCanonical : (t.syncCanonical id).placement = t.placement :=
  placement_updateLinks (fun l => (sameLink_flagOnly _ _ l).ioc)
    (fun l => (sameLink_flagOnly _ _ l).artifactId) fun l => (sameLink_flagOnly _ _ l).iocPublicId

theorem placement_recomputePrimary : (t.recomputePrimary id).placement = t.placement := by
  have hset : ∀ primary : Option ℕ, ∀ t : Tables,
      (t.updateArtifacts (setPrimaryHashId id primary)).placement = t.placement := by
    intro primary t
    exact placement_updateArtifacts (id_setPrimaryHashId id primary)
      (status_setPrimaryHashId id primary)
  unfold recomputePrimary
  cases t.primaryHash id with
  | none => exact hset none t
  | some p =>
    rw [placement_syncCanonical, hset]
    exact placement_updateHashes fun r => sameHash_flagOnly _ _ r

theorem placement_insertArtifact {a : Artifact} (hfresh : t.artifact? a.id = none)
    (hactive : a.status = .active) :
    (t.insertArtifact a).placement = t.placement.create a.id := by
  refine Placement.ext ?_ rfl rfl
  funext id
  change (Rows.lookup Artifact.id (t.artifacts ++ [a]) id).map Artifact.status =
    Function.update t.placement.status a.id (some .active) id
  rw [lookup_append_singleton]
  by_cases hid : id = a.id
  · subst hid
    change ((t.artifact? a.id).or _).map _ = _
    rw [hfresh, update_self]
    simp [hactive]
  · rw [update_of_ne hid, if_neg (Ne.symm hid), or_none]
    rfl

theorem placement_insertHash {r : HashRow} (hfresh : t.hashRow? r.hash = none) :
    (t.insertHash r).placement = t.placement.place r.hash r.artifactId := by
  refine Placement.ext rfl ?_ rfl
  funext h
  change (Rows.lookup HashRow.hash (t.hashes ++ [r]) h).map HashRow.artifactId =
    Function.update t.placement.hash r.hash (some r.artifactId) h
  rw [lookup_append_singleton]
  by_cases hh : h = r.hash
  · subst hh
    change ((t.hashRow? r.hash).or _).map _ = _
    rw [hfresh, update_self]
    simp
  · rw [update_of_ne hh, if_neg (Ne.symm hh), or_none]
    rfl

theorem placement_insertLink {l : LinkRow} (hfresh : t.linkRow? l.iocObservableType l.iocItemId = none) :
    (t.insertLink l).placement = t.placement.linkTo (linkKey l) l.artifactId l.iocPublicId := by
  refine Placement.ext rfl rfl ?_
  funext k
  change (Rows.lookup linkKey (t.links ++ [l]) k).map _ =
    Function.update t.placement.link (linkKey l) (some (l.artifactId, l.iocPublicId)) k
  rw [lookup_append_singleton]
  by_cases hk : k = linkKey l
  · subst hk
    change ((t.linkRow? l.iocObservableType l.iocItemId).or _).map _ = _
    rw [hfresh, update_self]
    simp
  · rw [update_of_ne hk, if_neg (Ne.symm hk), or_none]
    rfl

/-- A row moved to another artifact. -/
theorem placement_moveHash {r : HashRow} {f : HashRow → HashRow} (hunique : t.Unique)
    (hr : r ∈ t.hashes) (hhash : ∀ s, (f s).hash = s.hash)
    (hartifact : ∀ s, (f s).artifactId = id) :
    (t.updateHashes (Rows.updateWhere (fun s => decide (s.id = r.id)) f)).placement =
      t.placement.place r.hash id := by
  refine Placement.ext rfl ?_ rfl
  funext h
  change (Rows.lookup HashRow.hash (t.hashes.map (Rows.updateWhere _ f)) h).map
    HashRow.artifactId = Function.update t.placement.hash r.hash (some id) h
  rw [lookup_map (updateWhere_keeps (c := HashRow.hash) hhash)]
  by_cases hh : h = r.hash
  · subst hh
    rw [(lookup_eq_some hunique.hash_value).mpr ⟨hr, rfl⟩, update_self]
    simp [Rows.updateWhere, hartifact]
  · rw [update_of_ne hh]
    change _ = (Rows.lookup HashRow.hash t.hashes h).map HashRow.artifactId
    cases hlookup : Rows.lookup HashRow.hash t.hashes h with
    | none => rfl
    | some s =>
      obtain ⟨hs, rfl⟩ := mem_of_lookup hlookup
      have hid : s.id ≠ r.id := by
        intro hid
        exact hh (congrArg HashRow.hash (List.inj_on_of_nodup_map hunique.hash_id hs hr hid))
      simp [Rows.updateWhere, hid]

/-- The rows after a merge sit where the abstract merge puts them. -/
theorem placement_merge {input : MergeInput} {canonical duplicate : Artifact}
    (hne : canonical.id ≠ duplicate.id)
    (hduplicate : t.artifact? duplicate.id = some duplicate) :
    (t.merge input canonical duplicate).placement =
      t.placement.merge canonical.id duplicate.id := by
  obtain ⟨f, g, primary, hf, hg, hstage⟩ := merge_stage input canonical duplicate t
  have hhash : ∀ r, (f r).hash = r.hash := by
    intro r
    have hcontent := congrArg HashRow.hash (hf.content_eq r)
    exact hcontent
  have hkey : ∀ l, linkKey (g l) = linkKey l := by
    intro l
    have hcontent := congrArg linkKey (hg.content_eq l)
    exact hcontent
  have hpublic : ∀ l, (g l).iocPublicId = l.iocPublicId := by
    intro l
    have hcontent := congrArg LinkRow.iocPublicId (hg.content_eq l)
    exact hcontent
  have hartifact : ∀ id, Rows.lookup Artifact.id (((t.artifacts.map (setFileMetadata canonical.id
      (mergeArtifactMetadata canonical.file duplicate.file))).map
        (setTombstone duplicate.id canonical.id (mergeStamp input))).map
          (setPrimaryHashId canonical.id primary)) id =
      (t.artifact? id).map (mergedRow input canonical duplicate primary) := by
    intro id
    simp only [artifact?, List.map_map]
    exact lookup_map (mergedRow_id primary)
  rw [hstage]
  refine Placement.ext ?_ ?_ ?_
  · funext id
    change (Rows.lookup Artifact.id _ id).map Artifact.status =
      Function.update t.placement.status duplicate.id (some (.merged canonical.id)) id
    rw [hartifact]
    by_cases hid : id = duplicate.id
    · subst hid
      rw [update_self, hduplicate]
      simp only [map_some, (mergedRow_duplicate hne rfl).1]
    · rw [update_of_ne hid]
      change ((t.artifact? id).map _).map _ = (t.artifact? id).map Artifact.status
      cases ha : t.artifact? id with
      | none => rfl
      | some a =>
        have haid : a.id = id := (mem_of_lookup ha).2
        simp only [map_some, Option.some.injEq]
        by_cases hc : a.id = canonical.id
        · exact mergedRow_canonical hne hc
        · rw [mergedRow_other hc (haid ▸ hid)]
  · funext h
    change (Rows.lookup HashRow.hash (t.hashes.map f) h).map HashRow.artifactId =
      (t.placement.hash h).map (redirect canonical.id duplicate.id)
    rw [lookup_map hhash, map_map]
    change _ = ((t.hashRow? h).map HashRow.artifactId).map _
    rw [map_map, show HashRow.artifactId ∘ f =
      redirect canonical.id duplicate.id ∘ HashRow.artifactId from funext hf.owner_eq]
    rfl
  · funext k
    change (Rows.lookup linkKey (t.links.map g) k).map _ = (t.placement.link k).map _
    rw [lookup_map hkey, map_map]
    change _ = ((Rows.lookup linkKey t.links k).map _).map _
    rw [map_map]
    congr 1
    funext l
    exact Prod.ext (hg.owner_eq l) (hpublic l)

end Tables

section Database

variable {s : Database} {id : ArtifactId}

/-- An artifact holds one hash of a type. -/
theorem placement_hash_inj {g : ExactHash} (hg : s.tables.placement.hash g = some id)
    (hh : s.tables.placement.hash h = some id) (htype : g.hashType = h.hashType) : g = h := by
  obtain ⟨r, hr, hrid⟩ := Tables.placement_hash_eq_some.mp hg
  obtain ⟨r', hr', hrid'⟩ := Tables.placement_hash_eq_some.mp hh
  obtain ⟨hmem, rfl⟩ := mem_of_lookup hr
  obtain ⟨hmem', rfl⟩ := mem_of_lookup hr'
  have hsame : r = r' := by
    apply List.inj_on_of_nodup_map s.unique.hash_type hmem hmem'
    exact Prod.ext (hrid.trans hrid'.symm) htype
  rw [hsame]

end Database

variable {s s' : Database} {input : MergeInput} {result : MergeResult}

/-- What a call that returned did: nothing, or a merge of the two active artifacts at the ends
of the chains. -/
inductive MergeEffect (s : Database) (c d : ArtifactId) : Database → Prop
  | unchanged : MergeEffect s c d s
  | merged {s' : Database} (n m : ℕ) (rc rd : ArtifactId)
      (hc : LeadsTo s.tables.mergedInto n c rc) (hd : LeadsTo s.tables.mergedInto m d rd)
      (hactive : s.tables.IsActive rc) (hactive' : s.tables.IsActive rd) (hne : rc ≠ rd)
      (htypes : s.tables.TypesDisjoint rc rd)
      (hplacement : s'.tables.placement = s.tables.placement.merge rc rd)
      (hioc : s'.tables.iocItems = s.tables.iocItems) : MergeEffect s c d s'

/-- A merge of two active artifacts. -/
theorem performMerge_placement {c d : ArtifactId} {canonical duplicate : Artifact} (hne : c ≠ d)
    (hcanonical : s.tables.artifact? c = some canonical)
    (hduplicate : s.tables.artifact? d = some duplicate)
    (h : Returns (performMerge input canonical duplicate) s result s') :
    s.tables.TypesDisjoint c d ∧ s'.tables.placement = s.tables.placement.merge c d ∧
      s'.tables.iocItems = s.tables.iocItems := by
  obtain ⟨htables, -⟩ := performMerge_effect h
  have hc : canonical.id = c := (mem_of_lookup hcanonical).2
  have hd : duplicate.id = d := (mem_of_lookup hduplicate).2
  subst hc hd
  refine ⟨performMerge_typesDisjoint hne h, ?_, ?_⟩
  · rw [htables, Tables.placement_merge hne hduplicate]
  · obtain ⟨f, g, primary, -, -, hstage⟩ := Tables.merge_stage input canonical duplicate s.tables
    rw [htables, hstage]

theorem mergeArtifacts_effect {fuel : ℕ} {c d : ArtifactId}
    (h : Returns (mergeArtifacts input fuel c d) s result s') : MergeEffect s c d s' := by
  induction fuel generalizing c d with
  | zero => exact absurd h Returns.throw_iff
  | succ fuel ih =>
    by_cases hsame : c = d
    · unfold mergeArtifacts at h
      rw [if_pos hsame] at h
      obtain ⟨-, rfl⟩ := Returns.pure_iff.mp h
      exact .unchanged
    · unfold Returns at h
      rw [mergeArtifacts_succ _ _ _ hsame] at h
      cases hcanonical : s.tables.artifact? c with
      | none =>
        simp only [hcanonical, mergeDecision] at h
        cases h
        exact .unchanged
      | some canonical =>
        cases hduplicate : s.tables.artifact? d with
        | none =>
          simp only [hcanonical, hduplicate, mergeDecision] at h
          cases h
          exact .unchanged
        | some duplicate =>
          cases hstatus : canonical.status with
          | merged into =>
            simp only [hcanonical, hduplicate, mergeDecision, hstatus] at h
            have hinto : s.tables.mergedInto c = some into :=
              Tables.mergedInto_eq_some.mpr ⟨canonical, hcanonical, hstatus⟩
            cases ih h with
            | unchanged => exact .unchanged
            | merged n m rc rd hc hd hactive hactive' hne htypes hplacement hioc =>
              exact .merged (n + 1) m rc rd (.step hinto hc) hd hactive hactive' hne htypes
                hplacement hioc
          | active =>
            have hactive : s.tables.IsActive c := ⟨canonical, hcanonical, hstatus⟩
            cases hstatus' : duplicate.status with
            | merged into =>
              simp only [hcanonical, hduplicate, mergeDecision, hstatus, hstatus'] at h
              have hinto : s.tables.mergedInto d = some into :=
                Tables.mergedInto_eq_some.mpr ⟨duplicate, hduplicate, hstatus'⟩
              by_cases htarget : into = c
              · rw [if_pos htarget] at h
                cases h
                exact .unchanged
              · rw [if_neg htarget] at h
                cases ih h with
                | unchanged => exact .unchanged
                | merged n m rc rd hc hd hactive hactive' hne htypes hplacement hioc =>
                  exact .merged n (m + 1) rc rd hc (.step hinto hd) hactive hactive' hne
                    htypes hplacement hioc
            | active =>
              simp only [hcanonical, hduplicate, mergeDecision, hstatus, hstatus'] at h
              have hactive' : s.tables.IsActive d := ⟨duplicate, hduplicate, hstatus'⟩
              obtain ⟨htypes, hplacement, hioc⟩ :=
                performMerge_placement hsame hcanonical hduplicate h
              exact .merged 0 0 c d (.root (Tables.isActive_iff.mp hactive).2)
                (.root (Tables.isActive_iff.mp hactive').2) hactive hactive' hsame htypes hplacement
                hioc

/-- A call of `mergeFileArtifacts` that returned merged at most the ends of the two chains. -/
theorem mergeFileArtifacts_effect (h : Returns (mergeFileArtifacts input) s result s') :
    s' = s ∨ ∃ c d, input.canonicalArtifactId = some c ∧ input.duplicateArtifactId = some d ∧
      MergeEffect s c d s' := by
  unfold mergeFileArtifacts at h
  cases hc : input.canonicalArtifactId with
  | none =>
    simp only [hc] at h
    obtain ⟨-, rfl⟩ := Returns.pure_iff.mp h
    exact .inl rfl
  | some c =>
    cases hd : input.duplicateArtifactId with
    | none =>
      simp only [hc, hd] at h
      obtain ⟨-, rfl⟩ := Returns.pure_iff.mp h
      exact .inl rfl
    | some d =>
      simp only [hc, hd] at h
      exact .inr ⟨c, d, rfl, rfl, mergeArtifacts_effect h⟩

end TalonHound.FileArtifacts
