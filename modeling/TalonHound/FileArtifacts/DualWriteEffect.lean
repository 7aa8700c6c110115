import TalonHound.FileArtifacts.AttachEffect
import TalonHound.FileArtifacts.DualWrite

/-!
# What the calls around attaching do

`linkIocToArtifact`, the sibling pass and `ensureArtifactForFileHashIoc` on the placement:
together they attach and nothing else.
-/

namespace TalonHound.FileArtifacts

open Returns

/-- Two tables between which only attaching happened. -/
structure Attaches (hashes : Set ExactHash) (good : HashType × ℕ → ℕ → Prop) (t t' : Tables) :
    Prop where
  grows : t.placement.Grows hashes good t'.placement
  iocItems : t'.iocItems = t.iocItems

namespace Attaches

variable {hashes hashes' : Set ExactHash} {good : HashType × ℕ → ℕ → Prop} {t t' t'' : Tables}

theorem refl (t : Tables) : Attaches hashes good t t := ⟨.refl _, rfl⟩

theorem trans (h : Attaches hashes good t t') (h' : Attaches hashes good t' t'') :
    Attaches hashes good t t'' :=
  ⟨h.grows.trans h'.grows, h'.iocItems.trans h.iocItems⟩

theorem mono (h : Attaches hashes good t t') (hsub : hashes ⊆ hashes') :
    Attaches hashes' good t t' := ⟨h.grows.mono hsub, h.iocItems⟩

/-- Rows of other tables are not seen. -/
theorem of_same (hplacement : t'.placement = t.placement) (hioc : t'.iocItems = t.iocItems) :
    Attaches hashes good t t' := ⟨hplacement ▸ .refl _, hioc⟩

theorem mergedInto (h : Attaches hashes good t t') : t'.mergedInto = t.mergedInto := by
  have hmerged := h.grows.mergedInto
  rwa [Tables.placement_mergedInto, Tables.placement_mergedInto] at hmerged

end Attaches

variable {s s' : Database} {artifactId : ArtifactId} {hashes : Set ExactHash}
  {good : HashType × ℕ → ℕ → Prop}

section Link

variable {iocItemId iocPublicId : ℕ} {type : HashType} {linkedHashId : Option ℕ}
  {result : LinkResult}

/-- `linkIocToArtifact` records a conflict, gives the link a missing hash, or adds the link. -/
theorem linkIoc_cases
    (h : Returns (linkIoc artifactId iocItemId type iocPublicId linkedHashId) s result s') :
    (∃ conflicts, s'.tables = { s.tables with conflicts := conflicts }) ∨
      (∃ row : LinkRow, s'.tables = (s.tables.updateLinks (Rows.updateWhere
        (fun l => decide (l.id = row.id ∧ l.linkedHashId = none))
        fun l => { l with linkedHashId := linkedHashId })).syncCanonical artifactId) ∨
      (s.tables.linkRow? type iocItemId = none ∧ s'.tables = (s.tables.insertLink
        ⟨nextId (s.tables.links.map LinkRow.id), artifactId, iocItemId, type, iocPublicId,
          linkedHashId, false⟩).syncCanonical artifactId) := by
  unfold linkIoc at h
  rw [bind_of (returns_query.mpr ⟨rfl, rfl⟩)] at h
  cases hrow : s.tables.linkRow? type iocItemId with
  | some row =>
    simp only [hrow] at h
    split at h
    · obtain ⟨⟨⟩, s₁, hrecord, h⟩ := bind_iff.mp h
      obtain ⟨rfl, rfl⟩ := pure_iff.mp h
      obtain ⟨s₂, conflicts, hrecord', htables⟩ := recordMergeConflict_returns type
        (toString iocPublicId) [row.artifactId, artifactId] "ioc_already_linked_to_other_artifact" s
      obtain ⟨-, rfl⟩ := Returns.unique hrecord hrecord'
      exact .inl ⟨conflicts, htables⟩
    · obtain ⟨⟨⟩, s₁, hwrite, h⟩ := bind_iff.mp h
      obtain ⟨canonical, s₂, hsync, h⟩ := bind_iff.mp h
      obtain ⟨rfl, rfl⟩ := pure_iff.mp h
      obtain ⟨s₃, hsync', htables⟩ := syncCanonicalIocFlag_returns artifactId s₁
      obtain ⟨-, rfl⟩ := hsync.unique hsync'
      exact .inr (.inl ⟨row, htables.trans (by rw [returns_write.mp hwrite])⟩)
  | none =>
    simp only [hrow] at h
    rw [bind_of (returns_query.mpr ⟨rfl, rfl⟩)] at h
    obtain ⟨⟨⟩, s₁, hwrite, h⟩ := bind_iff.mp h
    obtain ⟨canonical, s₂, hsync, h⟩ := bind_iff.mp h
    obtain ⟨rfl, rfl⟩ := pure_iff.mp h
    obtain ⟨s₃, hsync', htables⟩ := syncCanonicalIocFlag_returns artifactId s₁
    obtain ⟨-, rfl⟩ := hsync.unique hsync'
    exact .inr (.inr ⟨rfl, htables.trans (by rw [returns_write.mp hwrite])⟩)

/-- `linkIocToArtifact` adds at most the link that it is asked for. -/
theorem linkIoc_attaches (hroot : s.tables.mergedInto artifactId = none)
    (hgood : good (type, iocItemId) iocPublicId)
    (h : Returns (linkIoc artifactId iocItemId type iocPublicId linkedHashId) s result s') :
    Attaches hashes good s.tables s'.tables := by
  obtain ⟨conflicts, htables⟩ | ⟨row, htables⟩ | ⟨hrow, htables⟩ := linkIoc_cases h <;> rw [htables]
  · exact .of_same rfl rfl
  · have hset : ∀ {β : Type} (c : LinkRow → β),
        (∀ l : LinkRow, c { l with linkedHashId := linkedHashId } = c l) →
        ∀ l, c (Rows.updateWhere (fun l => decide (l.id = row.id ∧ l.linkedHashId = none))
          (fun l => { l with linkedHashId := linkedHashId }) l) = c l :=
      fun c hc => Rows.updateWhere_keeps hc
    refine .of_same ?_ rfl
    rw [Tables.placement_syncCanonical]
    exact Tables.placement_updateLinks (hset _ fun _ => rfl) (hset _ fun _ => rfl)
      (hset _ fun _ => rfl)
  · constructor
    · rw [Tables.placement_syncCanonical, Tables.placement_insertLink hrow]
      apply Placement.Grows.linkTo
      · rwa [Tables.placement_mergedInto]
      · exact hgood
    · rfl

/-- Links and conflicts are all that `linkIocToArtifact` writes. -/
theorem linkIoc_writes
    (h : Returns (linkIoc artifactId iocItemId type iocPublicId linkedHashId) s result s') :
    ∃ links conflicts, s'.tables = { s.tables with links := links, conflicts := conflicts } := by
  obtain ⟨conflicts, htables⟩ | ⟨row, htables⟩ | ⟨-, htables⟩ := linkIoc_cases h
  · exact ⟨s.tables.links, conflicts, htables⟩
  · exact ⟨_, s.tables.conflicts, htables⟩
  · exact ⟨_, s.tables.conflicts, htables⟩

end Link

/-- The type of an IOC row of an exact hash type. -/
theorem normalizeHashType_text (type : HashType) : normalizeHashType type.text = some type := by
  cases type <;> decide +kernel

/-- Every IOC row of an exact hash type makes a good link. -/
def LinksGood (good : HashType × ℕ → ℕ → Prop) (t : Tables) : Prop :=
  ∀ ioc ∈ t.iocItems, ∀ type : HashType, ioc.observableType = type.text →
    good (type, ioc.id) ioc.publicId

variable {hash primary : ExactHash} {hashId : ℕ} {list : List ExactHash} {input : ProviderInput}
  {p : Placement} {createdArtifact createdHash : Bool}

/-- The rows of a hash are linked. -/
theorem linkIocsOfHash_attaches {hash : ExactHash} {hashId : ℕ}
    (hroot : s.tables.mergedInto artifactId = none) (hgood : LinksGood good s.tables)
    (h : Returns (linkIocsOfHash artifactId hash hashId) s ⟨⟩ s') :
    Attaches hashes good s.tables s'.tables := by
  unfold linkIocsOfHash at h
  rw [bind_of (returns_query.mpr ⟨rfl, rfl⟩)] at h
  have hinv := forM_invariant (I := fun rest s₁ =>
    Attaches hashes good s.tables s₁.tables ∧
      ∀ ioc ∈ rest, ioc ∈ s.tables.iocItems ∧ ioc.observableType = hash.hashType.text) ?_ h ?_
  · exact hinv.1
  · rintro ioc rest s₁ s₂ ⟨hattaches, hrest⟩ hbody
    obtain ⟨result, s₃, hlink, hpure⟩ := bind_iff.mp hbody
    obtain ⟨-, rfl⟩ := pure_iff.mp hpure
    obtain ⟨hmem, htype⟩ := hrest ioc List.mem_cons_self
    unfold linkIocToArtifact at hlink
    rw [htype, normalizeHashType_text] at hlink
    refine ⟨hattaches.trans (linkIoc_attaches ?_ (hgood ioc hmem _ htype) hlink), ?_⟩
    · rw [hattaches.mergedInto, hroot]
    · exact fun ioc hioc => hrest ioc (List.mem_cons_of_mem _ hioc)
  · refine ⟨.refl _, fun ioc hioc => ?_⟩
    obtain ⟨hmem, hmatch⟩ := List.mem_filter.mp hioc
    exact ⟨hmem, (of_decide_eq_true hmatch).1⟩

/-- `upsertSourceObservation` writes observations only. -/
theorem upsertSourceObservation_effect {host : Host} {input : ObservationInput}
    (h : Returns (upsertSourceObservation host input) s ⟨⟩ s') :
    ∃ observations, s'.tables = { s.tables with observations := observations } := by
  unfold upsertSourceObservation at h
  split at h
  · obtain ⟨-, rfl⟩ := pure_iff.mp h
    exact ⟨s.tables.observations, rfl⟩
  · simp only at h
    rw [bind_of (returns_query.mpr ⟨rfl, rfl⟩)] at h
    cases hrow : s.tables.observations.find? input.matchesRow with
    | some row | none =>
      simp only [hrow] at h
      exact ⟨_, returns_write.mp h⟩

/-- `upsertNonIdentityAttrs` writes attributes only. -/
theorem upsertNonIdentityAttrs_effect {attrs : List (String × String)}
    {sourceName : Option String}
    (h : Returns (upsertNonIdentityAttrs artifactId attrs sourceName) s ⟨⟩ s') :
    ∃ rows, s'.tables = { s.tables with attrs := rows } := by
  refine forM_invariant (I := fun _ s₁ =>
    ∃ rows, s₁.tables = { s.tables with attrs := rows }) ?_ h ⟨_, rfl⟩
  rintro attr rest s₁ s₂ ⟨rows, hrows⟩ hbody
  rw [returns_write.mp hbody, hrows]
  unfold Tables.upsertAttr
  split
  · exact ⟨_, rfl⟩
  · exact ⟨_, rfl⟩

/-- A row resolves where its chain ends. -/
theorem resolves_iff {t : Tables} {root : ArtifactId} :
    t.placement.Resolves hash root ↔ ∃ row n, t.hashRow? hash = some row ∧
      LeadsTo t.mergedInto n row.artifactId root := by
  unfold Placement.Resolves
  rw [Tables.placement_mergedInto]
  constructor
  · rintro ⟨x, n, hx, hlead⟩
    obtain ⟨row, hrow, rfl⟩ := Tables.placement_hash_eq_some.mp hx
    exact ⟨row, n, hrow, hlead⟩
  · rintro ⟨row, n, hrow, hlead⟩
    exact ⟨row.artifactId, n, Tables.placement_hash_eq_some.mpr ⟨row, hrow, rfl⟩, hlead⟩

/-- Looking the hashes up changes nothing and finds the artifacts that they resolve to. -/
theorem findHits_returns {hits : List ArtifactId} (h : Returns (findHits list) s hits s') :
    s' = s ∧ ∀ root, root ∈ hits ↔ ∃ g ∈ list, s.tables.placement.Resolves g root := by
  induction list generalizing s s' hits with
  | nil =>
    obtain ⟨rfl, rfl⟩ := pure_iff.mp h
    exact ⟨rfl, fun root => by simp⟩
  | cons hash list ih =>
    obtain ⟨found, s₁, hfind, h⟩ := bind_iff.mp h
    obtain ⟨hits', s₂, hrest, h⟩ := bind_iff.mp h
    obtain ⟨rfl, rfl⟩ := pure_iff.mp h
    obtain ⟨rfl, hfound⟩ := findArtifactByHash_returns hfind
    obtain ⟨rfl, hhits⟩ := ih hrest
    refine ⟨rfl, fun root => ?_⟩
    rcases hfound with ⟨hnone, rfl⟩ | ⟨row, n, root', hrow, hlead, rfl⟩
    · rw [hhits, List.exists_mem_cons_iff]
      constructor
      · exact .inr
      · rintro (hresolves | hrest)
        · obtain ⟨row, -, hrow, -⟩ := resolves_iff.mp hresolves
          rw [hnone] at hrow
          cases hrow
        · exact hrest
    · rw [List.mem_cons, hhits, List.exists_mem_cons_iff]
      apply or_congr_left
      have hroot := resolves_iff.mpr ⟨row, n, hrow, hlead⟩
      constructor
      · rintro rfl
        exact hroot
      · exact fun hresolves => hresolves.unique hroot

/-- `[...new Set(ids)]` keeps every id. -/
theorem mem_distinctIds {ids : List ArtifactId} {id : ArtifactId} :
    id ∈ distinctIds ids ↔ id ∈ ids := by
  have hfold : ∀ (ids seen : List ArtifactId),
      id ∈ ids.foldl (fun seen id => if id ∈ seen then seen else seen ++ [id]) seen ↔
        id ∈ seen ∨ id ∈ ids := by
    intro ids
    induction ids with
    | nil => simp
    | cons a ids ih =>
      intro seen
      rw [List.foldl_cons, ih, List.mem_cons, ← or_assoc]
      apply or_congr_left
      split
      · next ha =>
        constructor
        · exact .inl
        · rintro (h | rfl)
          · exact h
          · exact ha
      · simp
  unfold distinctIds
  rw [hfold]
  simp

variable {host : Host}

theorem observeSibling_effect (h : Returns (observeSibling host input hash hashId) s ⟨⟩ s') :
    ∃ observations, s'.tables = { s.tables with observations := observations } := by
  unfold observeSibling at h
  cases hsource : input.sourceName.filter (· ≠ "") with
  | none =>
    simp only [hsource] at h
    obtain ⟨-, rfl⟩ := pure_iff.mp h
    exact ⟨s.tables.observations, rfl⟩
  | some sourceName =>
    simp only [hsource] at h
    split at h
    · exact upsertSourceObservation_effect h
    · obtain ⟨-, rfl⟩ := pure_iff.mp h
      exact ⟨s.tables.observations, rfl⟩

theorem observeIoc_effect {input : EnsureInput}
    (h : Returns (observeIoc host input primary artifactId hashId) s ⟨⟩ s') :
    ∃ observations, s'.tables = { s.tables with observations := observations } := by
  unfold observeIoc at h
  cases hsource : input.sourceName.filter (· ≠ "") with
  | none =>
    simp only [hsource] at h
    obtain ⟨-, rfl⟩ := pure_iff.mp h
    exact ⟨s.tables.observations, rfl⟩
  | some sourceName =>
    simp only [hsource] at h
    exact upsertSourceObservation_effect h

section

variable (hroot : s.tables.mergedInto input.artifactId = none) (hgood : LinksGood good s.tables)
include hroot hgood

/-- One turn of the sibling pass attaches its hash. -/
theorem attachSibling_attaches {result : AttachResult}
    (h : Returns (attachSibling host input hash) s result s') :
    Attaches {hash} good s.tables s'.tables := by
  obtain ⟨attached, s₁, hattach, h⟩ := bind_iff.mp h
  obtain ⟨houtcome, hkeeps⟩ := attachHash_outcome hattach
  have hattaches : Attaches {hash} good s.tables s₁.tables := ⟨houtcome.grows, hkeeps.iocItems⟩
  cases attached with
  | attached a hashId createdArtifact createdHash =>
    obtain ⟨⟨⟩, s₂, hobserve, h⟩ := bind_iff.mp h
    obtain ⟨⟨⟩, s₃, hlink, h⟩ := bind_iff.mp h
    obtain ⟨-, rfl⟩ := pure_iff.mp h
    obtain ⟨observations, htables⟩ := observeSibling_effect hobserve
    have hobserved : Attaches {hash} good s₁.tables s₂.tables := by
      rw [htables]
      exact .of_same rfl rfl
    have hsofar := hattaches.trans hobserved
    refine hsofar.trans (linkIocsOfHash_attaches ?_ ?_ hlink)
    · rw [hsofar.mergedInto, hroot]
    · intro ioc hioc
      rw [hsofar.iocItems] at hioc
      exact hgood ioc hioc
  | invalidHash | conflict | uniqueViolation =>
    obtain ⟨-, rfl⟩ := pure_iff.mp h
    exact hattaches

/-- The loop attaches its hashes. -/
theorem attachSiblings_attaches {results : List AttachResult}
    (h : Returns (attachSiblings host input list) s results s') :
    Attaches {hash | hash ∈ list} good s.tables s'.tables := by
  induction list generalizing s results with
  | nil =>
    obtain ⟨-, rfl⟩ := pure_iff.mp h
    exact .refl _
  | cons hash list ih =>
    obtain ⟨attached, s₁, hattach, h⟩ := bind_iff.mp h
    obtain ⟨results', s₂, hrest, h⟩ := bind_iff.mp h
    obtain ⟨-, rfl⟩ := pure_iff.mp h
    have hfirst := attachSibling_attaches hroot hgood hattach
    have hothers := ih (by rw [hfirst.mergedInto, hroot])
      (fun ioc hioc => hgood ioc (hfirst.iocItems ▸ hioc)) hrest
    refine (hfirst.mono ?_).trans (hothers.mono ?_)
    · exact fun g hg => List.mem_cons.mpr (.inl hg)
    · exact fun g hg => List.mem_cons_of_mem _ hg

end

/-- The sibling pass leaves everything to a merge, or attaches every hash of the record. -/
inductive SiblingPass (host : Host) (input : ProviderInput) (list : List ExactHash)
    (s s' : Database) : SiblingResult → Prop
  | needsMerge (ids : List ArtifactId) (hids : ids ≠ [])
      (hmem : ∀ id, id ∈ ids ↔ id ≠ input.artifactId ∧ ∃ g ∈ list, s.tables.placement.Resolves g id)
      (hs : s' = s) : SiblingPass host input list s s' (.needsMergeWith ids)
  | attached (results : List AttachResult) (s₁ : Database)
      (halone : ∀ g ∈ list, ∀ root, s.tables.placement.Resolves g root → root = input.artifactId)
      (hattach : Returns (attachSiblings host input list) s results s₁)
      (hs : s'.tables = s₁.tables.recomputePrimary input.artifactId) :
      SiblingPass host input list s s' (.attached results)

theorem attachProviderExactHashSet_cases {result : SiblingResult}
    (h : Returns (attachProviderExactHashSet host input) s result s') :
    SiblingPass host input (extractExactHashesFromNote input.primaryHash input.note) s s'
      result := by
  unfold attachProviderExactHashSet at h
  simp only at h
  obtain ⟨hits, s₁, hfind, h⟩ := bind_iff.mp h
  obtain ⟨hs, hhits⟩ := findHits_returns hfind
  rw [hs] at h
  have hothers : ∀ id, id ∈ distinctIds (hits.filter fun id => decide (id ≠ input.artifactId)) ↔
      id ≠ input.artifactId ∧ ∃ g ∈ extractExactHashesFromNote input.primaryHash input.note,
        s.tables.placement.Resolves g id := by
    intro id
    rw [mem_distinctIds, List.mem_filter, hhits, decide_eq_true_eq, and_comm]
  split at h
  · next hne =>
    obtain ⟨rfl, rfl⟩ := pure_iff.mp h
    exact .needsMerge _ hne hothers rfl
  · next hnone =>
    obtain ⟨results, s₂, hattach, h⟩ := bind_iff.mp h
    obtain ⟨primary, s₃, hrecompute, h⟩ := bind_iff.mp h
    obtain ⟨rfl, rfl⟩ := pure_iff.mp h
    obtain ⟨primary', s₄, hrecompute', htables⟩ := recomputePrimaryHash_returns input.artifactId s₂
    obtain ⟨-, rfl⟩ := hrecompute.unique hrecompute'
    refine .attached results s₂ ?_ hattach htables
    intro g hg root hroot
    by_contra hne
    have hmem := (hothers root).mpr ⟨hne, g, hg, hroot⟩
    rw [not_not.mp hnone] at hmem
    cases hmem

/-- The sibling pass attaches hashes of its note, and none when one of them resolves to
another artifact. -/
theorem attachProviderExactHashSet_attaches {result : SiblingResult}
    (hroot : s.tables.mergedInto input.artifactId = none) (hgood : LinksGood good s.tables)
    (h : Returns (attachProviderExactHashSet host input) s result s') :
    Attaches {hash | hash ∈ extractExactHashesFromNote input.primaryHash input.note ∧
      ∀ g ∈ extractExactHashesFromNote input.primaryHash input.note, ∀ root,
        s.tables.placement.Resolves g root → root = input.artifactId} good s.tables s'.tables := by
  cases attachProviderExactHashSet_cases h with
  | needsMerge ids _ _ hs =>
    rw [hs]
    exact .refl _
  | attached results s₁ halone hattach hs =>
    have hattaches := (attachSiblings_attaches hroot hgood hattach).mono
      (fun hash (hmem : hash ∈ extractExactHashesFromNote input.primaryHash input.note) =>
        And.intro hmem halone)
    refine hattaches.trans (.of_same ?_ ?_)
    · rw [hs, Tables.placement_recomputePrimary]
    · rw [hs, iocItems_recomputePrimary]

/-- A call without a requested artifact returns an active one. -/
theorem AttachOutcome.isRoot {input : AttachInput} {hash : ExactHash} {t : Tables} {p : Placement}
    {hashId : ℕ} {createdArtifact createdHash : Bool}
    (h : AttachOutcome host input hash t
      (.attached artifactId hashId createdArtifact createdHash) p)
    (hnone : input.artifactId = none) : p.mergedInto artifactId = none := by
  have hgrows : t.placement.Grows {hash} (fun _ _ => True) p := h.grows
  rw [hgrows.mergedInto, Tables.placement_mergedInto]
  cases h with
  | created _ _ _ hfresh => rw [Tables.mergedInto, hfresh, Option.bind_none]
  | added _ _ hrequested =>
    rw [hnone] at hrequested
    cases hrequested
  | healed _ _ _ _ hlead => exact hlead.isRoot
  | kept _ _ hactive => exact hactive

/-- The artifact of a call without a requested one is the primary's own, or new. -/
theorem AttachOutcome.resolves {input : AttachInput} {hash : ExactHash} {t : Tables}
    {p : Placement} {hashId : ℕ} {createdArtifact createdHash : Bool}
    (h : AttachOutcome host input hash t
      (.attached artifactId hashId createdArtifact createdHash) p)
    (hnone : input.artifactId = none) :
    t.placement.Resolves hash artifactId ∨ t.artifact? artifactId = none := by
  cases h with
  | created _ _ _ hfresh => exact .inr hfresh
  | added _ _ hrequested =>
    rw [hnone] at hrequested
    cases hrequested
  | healed row n _ hrow hlead => exact .inl (resolves_iff.mpr ⟨row, n, hrow, hlead⟩)
  | kept row hrow hactive => exact .inl (resolves_iff.mpr ⟨row, 0, hrow, .root hactive⟩)

/-- Hashes resolve to existing artifacts. -/
theorem resolves_isActive {root : ArtifactId} (h : s.tables.placement.Resolves hash root) :
    s.tables.IsActive root := by
  obtain ⟨row, n, hrow, hlead⟩ := resolves_iff.mp h
  refine s.references.isActive_root ?_ hlead
  exact Tables.isSome_artifact?.mpr (s.references.hash_artifact row (Rows.mem_of_lookup hrow).1)

/-- The hashes of the record of a call. -/
def EnsureInput.record (input : EnsureInput) (primary : ExactHash) : List ExactHash :=
  extractExactHashesFromNote primary input.note

/-- The call runs the sibling pass. -/
def EnsureInput.withSiblings (input : EnsureInput) : Prop :=
  (input.attachNoteSiblings || input.providerMapping) = true

/-- The hashes that a call attaches: its own, and the siblings when none of them resolves to
another artifact than its own does. -/
def EnsureInput.attaches (input : EnsureInput) (primary : ExactHash) (p : Placement) :
    Set ExactHash :=
  {h | h = primary ∨ input.withSiblings ∧ h ∈ input.record primary ∧
    ∀ g ∈ input.record primary, ∀ root, p.Resolves g root → p.Resolves primary root}

/-- The sibling pass of a call. -/
theorem ensureSiblings_attaches {input : EnsureInput} {siblings : Option SiblingResult}
    (hroot : s.tables.mergedInto artifactId = none) (hgood : LinksGood good s.tables)
    (h : Returns (ensureSiblings host input primary artifactId) s siblings s') :
    Attaches {h | input.withSiblings ∧ h ∈ input.record primary ∧ ∀ g ∈ input.record primary,
      ∀ root, s.tables.placement.Resolves g root → root = artifactId} good s.tables s'.tables := by
  unfold ensureSiblings at h
  by_cases hflags : (input.attachNoteSiblings || input.providerMapping) = true
  · rw [if_pos hflags] at h
    obtain ⟨set, s₁, hset, h⟩ := bind_iff.mp h
    obtain ⟨-, rfl⟩ := pure_iff.mp h
    have hattaches := attachProviderExactHashSet_attaches hroot hgood hset
    apply hattaches.mono
    rintro hash ⟨hmem, halone⟩
    exact ⟨hflags, hmem, halone⟩
  · rw [if_neg hflags] at h
    obtain ⟨-, rfl⟩ := pure_iff.mp h
    exact .refl _

/-- A call keeps its own hash's artifact when it looks for the siblings. -/
theorem resolves_of_attached {input : AttachInput} {primary : ExactHash} {t₁ : Tables}
    {hashId : ℕ} {createdArtifact createdHash : Bool}
    (houtcome : AttachOutcome host input primary s.tables
      (.attached artifactId hashId createdArtifact createdHash) t₁.placement)
    (hnone : input.artifactId = none) {list : List ExactHash} {p : Placement}
    (hp : s.tables.placement.Grows {primary} good p)
    (halone : ∀ g ∈ list, ∀ root, p.Resolves g root → root = artifactId) :
    ∀ g ∈ list, ∀ root, s.tables.placement.Resolves g root →
      s.tables.placement.Resolves primary root := by
  intro g hg root hresolves
  by_cases hgp : g = primary
  · exact hgp ▸ hresolves
  · have hsame : p.hash g = s.tables.placement.hash g := by
      rcases hp.hash g with hsame | ⟨hmem, -⟩
      · exact hsame
      · exact absurd hmem hgp
    obtain ⟨x, n, hx, hlead⟩ := hresolves
    have hroot : root = artifactId := by
      apply halone g hg root
      exact ⟨x, n, hsame.trans hx, by rwa [hp.mergedInto]⟩
    rcases houtcome.resolves hnone with hprimary | hfresh
    · rwa [hroot]
    · obtain ⟨a, ha, -⟩ := resolves_isActive (s := s) ⟨x, n, hx, hlead⟩
      rw [hroot, hfresh] at ha
      cases ha

/-- `ensureArtifactForFileHashIoc` attaches hashes of its record and nothing else. -/
theorem ensureForHash_attaches {input : EnsureInput} {result : EnsureResult}
    (hgood : LinksGood good s.tables)
    (hinput : good (primary.hashType, input.iocItemId) input.iocPublicId)
    (h : Returns (ensureForHash host input primary) s result s') :
    Attaches (input.attaches primary s.tables.placement) good s.tables s'.tables := by
  obtain ⟨attached, s₁, hattach, h⟩ := bind_iff.mp h
  obtain ⟨houtcome, hkeeps⟩ := attachHash_outcome hattach
  have hattaches : Attaches {primary} good s.tables s₁.tables := ⟨houtcome.grows, hkeeps.iocItems⟩
  have hprimary : {primary} ⊆ input.attaches primary s.tables.placement := by
    rintro _ rfl
    exact .inl rfl
  cases attached with
  | invalidHash | conflict | uniqueViolation =>
    obtain ⟨-, rfl⟩ := pure_iff.mp h
    exact hattaches.mono hprimary
  | attached a hashId createdArtifact createdHash =>
    have hroot : s₁.tables.mergedInto a = none := by
      rw [← Tables.placement_mergedInto]
      exact houtcome.isRoot rfl
    obtain ⟨link, s₂, hlink, h⟩ := bind_iff.mp h
    obtain ⟨⟨⟩, s₃, hobserve, h⟩ := bind_iff.mp h
    obtain ⟨⟨⟩, s₄, hattrs, h⟩ := bind_iff.mp h
    obtain ⟨siblings, s₅, hsiblings, h⟩ := bind_iff.mp h
    obtain ⟨-, rfl⟩ := pure_iff.mp h
    obtain ⟨observations, hobserved⟩ := observeIoc_effect hobserve
    obtain ⟨rows, hrows⟩ := upsertNonIdentityAttrs_effect hattrs
    have hobservation : Attaches {primary} good s₂.tables s₃.tables := by
      rw [hobserved]
      exact .of_same rfl rfl
    have hattributes : Attaches {primary} good s₃.tables s₄.tables := by
      rw [hrows]
      exact .of_same rfl rfl
    have hlinked := ((linkIoc_attaches hroot hinput hlink).trans hobservation).trans hattributes
    have hsofar := hattaches.trans hlinked
    have hgood₄ : LinksGood good s₄.tables := fun ioc hioc => hgood ioc (hsofar.iocItems ▸ hioc)
    have hroot₄ : s₄.tables.mergedInto a = none := by rw [hlinked.mergedInto, hroot]
    refine (hsofar.mono hprimary).trans ((ensureSiblings_attaches hroot₄ hgood₄ hsiblings).mono ?_)
    rintro hash ⟨hflags, hmem, halone⟩
    exact .inr ⟨hflags, hmem, resolves_of_attached houtcome rfl hsofar.grows halone⟩

/-- The looked up row is a row. -/
theorem Tables.mem_of_iocRowFor? {t : Tables} {observable observableType : String} {row : IocRow}
    (h : t.iocRowFor? observable observableType = some row) : row ∈ t.iocItems := by
  have hmem : ∀ observable observableType, t.iocRow? observable observableType = some row →
      row ∈ t.iocItems := by
    intro observable observableType hrow
    have hsorted := List.mem_of_mem_head? hrow
    exact (List.mem_filter.mp ((List.mem_insertionSort _).mp hsorted)).1
  unfold Tables.iocRowFor? at h
  cases hlower : t.iocRow? (lowerCase observable) (lowerCase observableType) with
  | some row' =>
    rw [hlower] at h
    cases h
    exact hmem _ _ hlower
  | none =>
    rw [hlower] at h
    exact hmem _ _ h

/-- Resolving conflicts is seen by no reader of artifacts. -/
theorem attempt_resolve_effect {hashType hashValue : String} {resolved : Except DbError Unit}
    (h : Returns (attempt (resolveOpenProviderHashSetConflicts hashType hashValue)) s resolved s') :
    s'.tables.placement = s.tables.placement ∧ s'.tables.iocItems = s.tables.iocItems := by
  rcases returns_attempt.mp h with ⟨⟨⟩, -, hwrite⟩ | ⟨-, -, -, -, rfl⟩
  · unfold resolveOpenProviderHashSetConflicts at hwrite
    split at hwrite
    · obtain ⟨-, rfl⟩ := pure_iff.mp hwrite
      exact ⟨rfl, rfl⟩
    · rw [returns_write.mp hwrite]
      exact ⟨rfl, rfl⟩
  · exact ⟨rfl, rfl⟩

/-- What every merge keeps, and every statement that no reader of artifacts sees, the merges of
a call keep. -/
theorem mergeProviderTargets_invariant {I : Database → Prop}
    (hmerge : ∀ s c d s', I s → MergeEffect s c d s' → I s')
    (hsame : ∀ s s', I s → s'.tables.placement = s.tables.placement →
      s'.tables.iocItems = s.tables.iocItems → I s') {input : DualWriteInput}
    {a result : ArtifactId} {siblings : Option SiblingResult}
    (h : Returns (mergeProviderTargets input a siblings) s result s') (hs : I s) : I s' := by
  unfold mergeProviderTargets at h
  simp only at h
  split at h
  · obtain ⟨-, rfl⟩ := pure_iff.mp h
    exact hs
  · rw [bind_of (returns_query.mpr ⟨rfl, rfl⟩)] at h
    split at h
    · obtain ⟨-, rfl⟩ := pure_iff.mp h
      exact hs
    · next canonical _ =>
      obtain ⟨⟨⟩, s₁, hloop, h⟩ := bind_iff.mp h
      obtain ⟨resolved, s₂, hattempt, h⟩ := bind_iff.mp h
      obtain ⟨-, rfl⟩ := pure_iff.mp h
      obtain ⟨hplacement, hioc⟩ := attempt_resolve_effect hattempt
      refine hsame s₁ _ ?_ hplacement hioc
      apply forM_invariant (I := fun _ s => I s) _ hloop hs
      intro id rest s₃ s₄ h₃ hbody
      unfold mergeCandidate at hbody
      split at hbody
      · obtain ⟨-, rfl⟩ := pure_iff.mp hbody
        exact h₃
      · obtain ⟨_, s₅, hcall, hpure⟩ := bind_iff.mp hbody
        obtain ⟨-, rfl⟩ := pure_iff.mp hpure
        rcases mergeFileArtifacts_effect hcall with rfl | ⟨c, d, -, -, heffect⟩
        · exact h₃
        · exact hmerge s₃ c d _ h₃ heffect

end TalonHound.FileArtifacts
