import TalonHound.FileArtifacts.AttachReturns

/-!
# Attaching a provider record

When the artifact of a record's own hash has room for every sibling, the sibling pass returns
and leaves all hashes of the record on it.
-/

namespace TalonHound.FileArtifacts

open Returns List

/-- Two tables between which the hashes of `block`, and no others, were put on `a`. -/
structure Settled (block : Set ExactHash) (a : ArtifactId) (t t' : Tables) : Prop where
  mergedInto : t'.mergedInto = t.mergedInto
  known : ∀ id, t.placement.status id ≠ none → t'.placement.status id ≠ none
  iocItems : t'.iocItems = t.iocItems
  mem : ∀ h ∈ block, t'.placement.hash h = some a
  notMem : ∀ h, h ∉ block → t'.placement.hash h = t.placement.hash h

variable {hashId : ℕ}

namespace Settled

variable {block block' : Set ExactHash} {a : ArtifactId} {t t' t'' : Tables}

theorem trans (h : Settled block a t t') (h' : Settled block' a t' t'') :
    Settled (block ∪ block') a t t'' where
  mergedInto := h'.mergedInto.trans h.mergedInto
  known id hid := h'.known id (h.known id hid)
  iocItems := h'.iocItems.trans h.iocItems
  mem g hg := by
    by_cases hg' : g ∈ block'
    · exact h'.mem g hg'
    · rw [h'.notMem g hg']
      exact h.mem g (hg.resolve_right hg')
  notMem g hg := by
    rw [h'.notMem g fun hg' => hg (.inr hg'), h.notMem g fun hg' => hg (.inl hg')]

theorem congr (h : Settled block a t t') (hblock : ∀ g, g ∈ block ↔ g ∈ block') :
    Settled block' a t t' where
  mergedInto := h.mergedInto
  known := h.known
  iocItems := h.iocItems
  mem g hg := h.mem g ((hblock g).mpr hg)
  notMem g hg := h.notMem g fun hg' => hg ((hblock g).mp hg')

/-- Attaching no hash settles none. -/
theorem of_attaches {good : HashType × ℕ → ℕ → Prop} (h : Attaches ∅ good t t') :
    Settled ∅ a t t' where
  mergedInto := h.mergedInto
  known := h.grows.known
  iocItems := h.iocItems
  mem := nofun
  notMem g _ := by
    rcases h.grows.hash g with hsame | ⟨hmem, -⟩
    · exact hsame
    · cases hmem

/-- Rows of other tables are not seen. -/
theorem of_same (hplacement : t'.placement = t.placement) (hioc : t'.iocItems = t.iocItems) :
    Settled ∅ a t t' := by
  have hattaches : Attaches ∅ (fun _ _ => True) t t' := .of_same hplacement hioc
  exact of_attaches hattaches

/-- A call that attached its hash settled it. -/
theorem of_outcome {host : Host} {input : AttachInput} {hash : ExactHash} {hashId : ℕ}
    {createdArtifact createdHash : Bool}
    (h : AttachOutcome host input hash t (.attached a hashId createdArtifact createdHash)
      t'.placement) (hioc : t'.iocItems = t.iocItems) : Settled {hash} a t t' := by
  have hgrows : t.placement.Grows {hash} (fun _ _ => True) t'.placement := h.grows
  have hhash : t'.placement.hash = Function.update t.placement.hash hash (some a) := by
    generalize t'.placement = p at h
    cases h with
    | created | added | healed => rfl
    | kept row hrow =>
      symm
      apply Function.update_eq_self_iff.mpr
      exact (Tables.placement_hash_eq_some.mpr ⟨row, hrow, rfl⟩).symm
  refine ⟨?_, hgrows.known, hioc, ?_, ?_⟩
  · rw [← Tables.placement_mergedInto, hgrows.mergedInto, Tables.placement_mergedInto]
  · rintro _ rfl
    rw [hhash, Function.update_self]
  · intro g hg
    rw [hhash, Function.update_of_ne hg]

/-- Where hashes resolve afterwards. -/
theorem resolves_iff (h : Settled block a t t') (ha : t.mergedInto a = none) {g : ExactHash}
    {root : ArtifactId} : t'.placement.Resolves g root ↔
      g ∈ block ∧ root = a ∨ g ∉ block ∧ t.placement.Resolves g root := by
  unfold Placement.Resolves
  rw [Tables.placement_mergedInto, Tables.placement_mergedInto, h.mergedInto]
  by_cases hg : g ∈ block
  · rw [h.mem g hg]
    constructor
    · rintro ⟨x, n, hx, hlead⟩
      cases hx
      exact .inl ⟨hg, (hlead.of_root ha).2⟩
    · rintro (⟨-, rfl⟩ | ⟨hnot, -⟩)
      · exact ⟨root, 0, rfl, .root ha⟩
      · exact absurd hg hnot
  · rw [h.notMem g hg]
    constructor
    · exact fun hresolves => .inr ⟨hg, hresolves⟩
    · rintro (⟨hmem, -⟩ | ⟨-, hresolves⟩)
      · exact absurd hmem hg
      · exact hresolves

end Settled

variable {s s' : Database} {host : Host} {a : ArtifactId} {hash : ExactHash}

/-- The artifact and the hash that links and observations refer to. -/
structure Present (a : ArtifactId) (hashId : ℕ) (t : Tables) : Prop where
  artifact : a ∈ t.artifacts.map Artifact.id
  hash : hashId ∈ t.hashes.map HashRow.id

/-- The IOC rows of an attached hash can be linked. -/
theorem linkIocsOfHash_returns (hash : ExactHash) (hpresent : Present a hashId s.tables) :
    ∃ s', Returns (linkIocsOfHash a hash hashId) s ⟨⟩ s' := by
  unfold linkIocsOfHash
  simp only [bind_of (returns_query.mpr ⟨rfl, rfl⟩)]
  refine (forM_returns (I := fun rest s₁ => Present a hashId s₁.tables ∧
    s₁.tables.iocItems = s.tables.iocItems ∧ ∀ ioc ∈ rest, ioc ∈ s.tables.iocItems ∧
      ioc.observableType = hash.hashType.text) ?_ ⟨hpresent, rfl, ?_⟩).imp fun _ => And.left
  · rintro ioc rest s₁ ⟨hpresent₁, hitems, hrest⟩
    obtain ⟨hioc, htype⟩ := hrest ioc (mem_cons_self ..)
    have hkey : (hash.hashType.text, ioc.id) ∈
        s₁.tables.iocItems.map fun ioc => (ioc.observableType, ioc.id) := by
      rw [hitems, ← htype]
      exact mem_map_of_mem (f := fun ioc : IocRow => (ioc.observableType, ioc.id)) hioc
    have hhash : ∀ id ∈ some hashId, id ∈ s₁.tables.hashes.map HashRow.id := by
      rintro _ ⟨⟩
      exact hpresent₁.hash
    obtain ⟨result, s₂, hlink⟩ := linkIoc_returns ioc.publicId hpresent₁.artifact hhash hkey
    obtain ⟨links, conflicts, htables⟩ := linkIoc_writes hlink
    refine ⟨s₂, ?_, ?_, ?_, fun ioc' hioc' => hrest ioc' (.tail _ hioc')⟩
    · unfold linkIocToArtifact
      rw [htype, normalizeHashType_text]
      rw [bind_of hlink]
      exact pure_iff.mpr ⟨rfl, rfl⟩
    · rw [htables]
      exact ⟨hpresent₁.artifact, hpresent₁.hash⟩
    · rw [htables]
      exact hitems
  · intro ioc hioc
    obtain ⟨hmem, hmatch⟩ := mem_filter.mp hioc
    exact ⟨hmem, (of_decide_eq_true hmatch).1⟩

variable {input : ProviderInput} {list : List ExactHash} {primary : ExactHash}

/-- The observation of a sibling can be written. -/
theorem observeSibling_returns (host : Host) (hash : ExactHash)
    (hpresent : Present input.artifactId hashId s.tables) :
    ∃ s', Returns (observeSibling host input hash hashId) s ⟨⟩ s' := by
  unfold observeSibling
  split
  · split
    · apply upsertSourceObservation_returns
      · exact hpresent.artifact
      · rintro _ ⟨⟩
        exact hpresent.hash
    · exact ⟨s, pure_iff.mpr ⟨rfl, rfl⟩⟩
  · exact ⟨s, pure_iff.mpr ⟨rfl, rfl⟩⟩

/-- The artifact can take the hash: it is the end of the hash's chain, if the hash has one, and
holds no other hash of the type. -/
structure Room (a : ArtifactId) (hash : ExactHash) (t : Tables) : Prop where
  leads : ∀ x, t.placement.hash hash = some x → ∃ n, LeadsTo t.mergedInto n x a
  type : ∀ g, t.placement.hash g = some a → g.hashType = hash.hashType → g = hash

/-- The rows of an artifact are the hashes placed on it. -/
theorem typeFree_iff {type : HashType} :
    s.tables.TypeFree a type ↔ s.tables.placement.TypeFree a type := by
  constructor
  · intro h g hg
    obtain ⟨row, hrow, hart⟩ := Tables.placement_hash_eq_some.mp hg
    obtain ⟨hmem, rfl⟩ := Rows.mem_of_lookup hrow
    exact h row hmem hart
  · intro h row hrow hart
    apply h row.hash
    exact Tables.placement_hash_eq_some.mpr
      ⟨row, (Rows.lookup_eq_some s.unique.hash_value).mpr ⟨hrow, rfl⟩, hart⟩

/-- An artifact with room for a hash takes it. -/
theorem attachHash_of_room (host : Host) {input : AttachInput} (hrequested : input.artifactId = some a)
    (hartifact : a ∈ s.tables.artifacts.map Artifact.id) (hroom : Room a hash s.tables) :
    ∃ hashId createdHash s', Returns (attachHash host input hash) s
      (.attached a hashId false createdHash) s' := by
  have hfree : s.tables.placement.hash hash ≠ some a → s.tables.TypeFree a hash.hashType := by
    intro hne
    apply typeFree_iff.mpr
    intro g hg htype
    exact hne (hroom.type g hg htype ▸ hg)
  cases hrow : s.tables.hashRow? hash with
  | none =>
    have hnone : s.tables.placement.hash hash ≠ some a := by
      rw [Ne, Tables.placement_hash_eq_some, hrow]
      exact nofun
    obtain ⟨hashId, s', h⟩ := attachHash_of_free hrequested hartifact hrow (hfree hnone)
    exact ⟨hashId, true, s', h⟩
  | some row =>
    have hhome : s.tables.placement.hash hash = some row.artifactId :=
      Tables.placement_hash_eq_some.mpr ⟨row, hrow, rfl⟩
    obtain ⟨n, hlead⟩ := hroom.leads _ hhome
    have hsame : ∀ requested ∈ input.artifactId, requested = a := by
      rw [hrequested]
      rintro _ ⟨⟩
      rfl
    obtain ⟨s', h⟩ := attachHash_of_row host hrow hlead hsame fun hne => hfree (by
      rw [hhome]
      exact fun heq => hne (Option.some.inj heq))
    exact ⟨row.id, false, s', h⟩

/-- An artifact that is placed somewhere exists. -/
theorem mem_ids_of_status (h : s.tables.placement.status a ≠ none) :
    a ∈ s.tables.artifacts.map Artifact.id := by
  rw [Ne, Tables.placement_status_eq_none, Tables.artifact?_eq_none, not_not] at h
  exact h

/-- One turn of the sibling pass settles a hash that the artifact has room for. -/
theorem attachSibling_settles (host : Host)
    (hartifact : s.tables.placement.status input.artifactId ≠ none)
    (hroot : s.tables.mergedInto input.artifactId = none)
    (hroom : Room input.artifactId hash s.tables) :
    ∃ result s', Returns (attachSibling host input hash) s result s' ∧
      Settled {hash} input.artifactId s.tables s'.tables := by
  obtain ⟨hashId, createdHash, s₁, hattach⟩ := attachHash_of_room host
    (show (siblingInput input).artifactId = some input.artifactId from rfl)
    (mem_ids_of_status hartifact) hroom
  obtain ⟨houtcome, hkeeps⟩ := attachHash_outcome hattach
  have hsettled := Settled.of_outcome houtcome hkeeps.iocItems
  have hpresent : Present input.artifactId hashId s₁.tables := by
    refine ⟨mem_ids_of_status (hsettled.known _ hartifact), ?_⟩
    obtain ⟨row, hrow, hid⟩ := hkeeps.row _ _ _ _ rfl
    exact hid ▸ mem_map_of_mem (Rows.mem_of_lookup hrow).1
  obtain ⟨s₂, hobserve⟩ := observeSibling_returns host hash hpresent
  obtain ⟨observations, hobserved⟩ := observeSibling_effect hobserve
  have hpresent₂ : Present input.artifactId hashId s₂.tables := by
    rw [hobserved]
    exact ⟨hpresent.artifact, hpresent.hash⟩
  obtain ⟨s₃, hlink⟩ := linkIocsOfHash_returns hash hpresent₂
  have hobservation : Settled ∅ input.artifactId s₁.tables s₂.tables := by
    rw [hobserved]
    exact .of_same rfl rfl
  have hroot₂ : s₂.tables.mergedInto input.artifactId = none := by
    rw [hobservation.mergedInto, hsettled.mergedInto, hroot]
  have hgood : LinksGood (fun _ _ => True) s₂.tables := fun _ _ _ _ => trivial
  have hlinked : Settled ∅ input.artifactId s₂.tables s₃.tables :=
    .of_attaches (linkIocsOfHash_attaches hroot₂ hgood hlink)
  refine ⟨.attached input.artifactId hashId false createdHash, s₃, ?_, ?_⟩
  · unfold attachSibling
    rw [bind_of hattach]
    simp only
    rw [bind_of hobserve, bind_of hlink]
    exact pure_iff.mpr ⟨rfl, rfl⟩
  · refine ((hsettled.trans hobservation).trans hlinked).congr fun g => ?_
    simp

/-- The loop settles a list of hashes of which each finds room. -/
theorem attachSiblings_settles (host : Host) {input : ProviderInput} {list : List ExactHash}
    (hartifact : s.tables.placement.status input.artifactId ≠ none)
    (hroot : s.tables.mergedInto input.artifactId = none) (hnodup : list.Nodup)
    (hlead : ∀ h ∈ list, ∀ x, s.tables.placement.hash h = some x →
      ∃ n, LeadsTo s.tables.mergedInto n x input.artifactId)
    (htype : ∀ h ∈ list, ∀ g, s.tables.placement.hash g = some input.artifactId ∨ g ∈ list →
      g.hashType = h.hashType → g = h) :
    ∃ results s', Returns (attachSiblings host input list) s results s' ∧
      Settled {h | h ∈ list} input.artifactId s.tables s'.tables := by
  induction list generalizing s with
  | nil =>
    refine ⟨[], s, pure_iff.mpr ⟨rfl, rfl⟩, ?_⟩
    refine (Settled.of_same rfl rfl).congr fun g => ?_
    simp
  | cons hash rest ih =>
    obtain ⟨hfresh, hrest⟩ := nodup_cons.mp hnodup
    have hroom : Room input.artifactId hash s.tables :=
      ⟨hlead hash (mem_cons_self ..), fun g hg =>
        htype hash (mem_cons_self ..) g (.inl hg)⟩
    obtain ⟨result, s₁, hattach, hsettled⟩ := attachSibling_settles host hartifact hroot hroom
    have hsame : ∀ h ∈ rest, s₁.tables.placement.hash h = s.tables.placement.hash h := by
      intro h hh
      apply hsettled.notMem
      rintro rfl
      exact hfresh hh
    obtain ⟨results, s₂, hattachRest, hsettledRest⟩ := ih
      (hsettled.known _ hartifact) (by rw [hsettled.mergedInto, hroot]) hrest (by
        intro h hh x hx
        rw [hsame h hh] at hx
        rw [hsettled.mergedInto]
        exact hlead h (.tail _ hh) x hx) (by
        intro h hh g hg
        apply htype h (.tail _ hh) g
        rcases hg with hg | hg
        · by_cases hgh : g = hash
          · exact .inr (hgh ▸ mem_cons_self ..)
          · exact .inl (hsettled.notMem g hgh ▸ hg)
        · exact .inr (.tail _ hg))
    refine ⟨result :: results, s₂, ?_, ?_⟩
    · unfold attachSiblings
      rw [bind_of hattach, bind_of hattachRest]
      exact pure_iff.mpr ⟨rfl, rfl⟩
    · refine (hsettled.trans hsettledRest).congr fun g => ?_
      simp

/-- Hashes that all resolve can be looked up. -/
theorem exists_findHits {list : List ExactHash}
    (hresolves : ∀ h ∈ list, s.tables.placement.hash h ≠ none →
      ∃ root, s.tables.placement.Resolves h root) :
    ∃ hits, Returns (findHits list) s hits s := by
  induction list with
  | nil => exact ⟨[], pure_iff.mpr ⟨rfl, rfl⟩⟩
  | cons hash rest ih =>
    obtain ⟨hits, hrest⟩ := ih fun h hh => hresolves h (.tail _ hh)
    have hfind : ∃ found, Returns (findArtifactByHash hash) s found s := by
      cases hrow : s.tables.hashRow? hash with
      | none => exact ⟨none, findArtifactByHash_of_none hrow⟩
      | some row =>
        have hhome : s.tables.placement.hash hash = some row.artifactId :=
          Tables.placement_hash_eq_some.mpr ⟨row, hrow, rfl⟩
        obtain ⟨root, hroot⟩ := hresolves hash (mem_cons_self ..) (by rw [hhome]; exact nofun)
        obtain ⟨row', n, hrow', hlead⟩ := resolves_iff.mp hroot
        exact ⟨_, findArtifactByHash_of_row hrow' hlead⟩
    obtain ⟨found, hfound⟩ := hfind
    unfold findHits
    simp only [bind_of hfound, bind_of hrest]
    exact ⟨_, pure_iff.mpr ⟨rfl, rfl⟩⟩

/-- Hashes that were looked up all resolve. -/
theorem findHits_resolves {hits : List ArtifactId} (h : Returns (findHits list) s hits s') :
    ∀ h ∈ list, s.tables.placement.hash h ≠ none → ∃ root, s.tables.placement.Resolves h root := by
  induction list generalizing hits with
  | nil => exact nofun
  | cons hash rest ih =>
    obtain ⟨found, s₁, hfound, h⟩ := bind_iff.mp h
    obtain ⟨hits', s₂, hrest, h⟩ := bind_iff.mp h
    obtain ⟨hs, hcases⟩ := findArtifactByHash_returns hfound
    rw [hs] at hrest
    obtain ⟨-, rfl⟩ := pure_iff.mp h
    intro g hg hbound
    rcases mem_cons.mp hg with rfl | hg
    · rcases hcases with ⟨hnone, -⟩ | ⟨row, n, root, hrow, hlead, -⟩
      · exact absurd (Option.map_eq_none_iff.mpr hnone) hbound
      · exact ⟨root, resolves_iff.mpr ⟨row, n, hrow, hlead⟩⟩
    · exact ih hrest g hg hbound

/-- A sibling that resolves to the artifact after its turn sits on it. -/
theorem attachSibling_placed {result : AttachResult}
    (hroot : s.tables.mergedInto input.artifactId = none)
    (h : Returns (attachSibling host input hash) s result s')
    (hresolves : s'.tables.placement.Resolves hash input.artifactId) :
    s'.tables.placement.hash hash = some input.artifactId := by
  obtain ⟨attached, s₁, hattach, h⟩ := bind_iff.mp h
  obtain ⟨houtcome, hkeeps⟩ := attachHash_outcome hattach
  have hrequested : (siblingInput input).artifactId = some input.artifactId := rfl
  have hgrows : s.tables.placement.Grows {hash} (fun _ _ => True) s₁.tables.placement :=
    houtcome.grows
  have hroot₁ : s₁.tables.mergedInto input.artifactId = none := by
    rw [← Tables.placement_mergedInto, hgrows.mergedInto, Tables.placement_mergedInto, hroot]
  have hrest : Settled ∅ input.artifactId s₁.tables s'.tables := by
    cases attached with
    | attached a hashId createdArtifact createdHash =>
      obtain ⟨⟨⟩, s₂, hobserve, h⟩ := bind_iff.mp h
      obtain ⟨⟨⟩, s₃, hlink, h⟩ := bind_iff.mp h
      obtain ⟨-, rfl⟩ := pure_iff.mp h
      obtain ⟨observations, hobserved⟩ := observeSibling_effect hobserve
      have hobservation : Settled ∅ input.artifactId s₁.tables s₂.tables := by
        rw [hobserved]
        exact .of_same rfl rfl
      have hgood : LinksGood (fun _ _ => True) s₂.tables := fun _ _ _ _ => trivial
      have hroot₂ : s₂.tables.mergedInto input.artifactId = none := by
        rw [hobservation.mergedInto, hroot₁]
      refine (hobservation.trans (.of_attaches
        (linkIocsOfHash_attaches hroot₂ hgood hlink))).congr fun g => ?_
      simp
    | invalidHash | conflict | uniqueViolation =>
      obtain ⟨-, rfl⟩ := pure_iff.mp h
      exact .of_same rfl rfl
  have hresolves₁ : s₁.tables.placement.Resolves hash input.artifactId := by
    rcases (hrest.resolves_iff hroot₁).mp hresolves with ⟨hmem, -⟩ | ⟨-, hresolves₁⟩
    · cases hmem
    · exact hresolves₁
  rw [hrest.notMem hash (Set.notMem_empty _)]
  generalize s₁.tables.placement = p at houtcome hresolves₁
  cases houtcome with
  | created _ hnone =>
    rw [hrequested] at hnone
    cases hnone
  | added _ requested hrequested' =>
    rw [Option.some.inj (hrequested.symm.trans hrequested')]
    exact Function.update_self ..
  | refused requested _ hfree =>
    obtain ⟨row, n, hrow, -⟩ := resolves_iff.mp hresolves₁
    rw [hfree] at hrow
    cases hrow
  | healed row n root hrow hlead hparked htype hrequested' =>
    rw [hrequested' _ hrequested]
    exact Function.update_self ..
  | kept row hrow hactive hrequested' =>
    rw [hrequested' _ hrequested]
    exact Tables.placement_hash_eq_some.mpr ⟨row, hrow, rfl⟩
  | elsewhere row n root requested hrow hlead hrequested' hne =>
    have heq := hresolves₁.unique (resolves_iff.mpr ⟨row, n, hrow, hlead⟩)
    exact absurd ((Option.some.inj (hrequested.symm.trans hrequested')).symm.trans heq) hne

/-- Siblings that resolve to the artifact after the loop sit on it. -/
theorem attachSiblings_placed {results : List AttachResult}
    (hroot : s.tables.mergedInto input.artifactId = none) (hnodup : list.Nodup)
    (h : Returns (attachSiblings host input list) s results s')
    (hresolves : ∀ h ∈ list, s'.tables.placement.Resolves h input.artifactId) :
    ∀ h ∈ list, s'.tables.placement.hash h = some input.artifactId := by
  induction list generalizing s results with
  | nil => exact nofun
  | cons hash rest ih =>
    obtain ⟨hfresh, hrest⟩ := nodup_cons.mp hnodup
    obtain ⟨attached, s₁, hattach, h⟩ := bind_iff.mp h
    obtain ⟨results', s₂, hattachRest, h⟩ := bind_iff.mp h
    obtain ⟨-, rfl⟩ := pure_iff.mp h
    have hfirst : Attaches {hash} (fun _ _ => True) s.tables s₁.tables :=
      attachSibling_attaches hroot (fun _ _ _ _ => trivial) hattach
    have hroot₁ : s₁.tables.mergedInto input.artifactId = none := by
      rw [hfirst.mergedInto, hroot]
    have hothers : Attaches {hash | hash ∈ rest} (fun _ _ => True) s₁.tables s₂.tables :=
      attachSiblings_attaches hroot₁ (fun _ _ _ _ => trivial) hattachRest
    have hsame : s₂.tables.placement.hash hash = s₁.tables.placement.hash hash :=
      (hothers.grows.hash hash).resolve_right fun hmem => hfresh hmem.1
    intro g hg
    rcases mem_cons.mp hg with rfl | hg
    · rw [hsame]
      apply attachSibling_placed hroot hattach
      obtain ⟨x, n, hx, hlead⟩ := hresolves g (mem_cons_self ..)
      rw [Tables.placement_mergedInto, hothers.mergedInto] at hlead
      exact ⟨x, n, hsame ▸ hx, by rwa [Tables.placement_mergedInto]⟩
    · exact ih hroot₁ hrest hattachRest (fun h hh => hresolves h (.tail _ hh)) g hg

/-- `[...new Set(ids)]` has no id twice. -/
theorem nodup_distinctIds (ids : List ArtifactId) : (distinctIds ids).Nodup := by
  have hfold : ∀ (ids seen : List ArtifactId), seen.Nodup →
      (ids.foldl (fun seen id => if id ∈ seen then seen else seen ++ [id]) seen).Nodup := by
    intro ids
    induction ids with
    | nil => exact fun _ h => h
    | cons id ids ih =>
      intro seen hseen
      rw [foldl_cons]
      apply ih
      split
      · exact hseen
      · next hid =>
        apply nodup_append.mpr
        refine ⟨hseen, nodup_singleton _, ?_⟩
        intro x hx y hy
        rw [mem_singleton.mp hy]
        rintro rfl
        exact hid hx
  exact hfold ids [] nodup_nil

/-- The sibling pass of a record none of whose hashes resolves to another artifact. -/
theorem attachProviderExactHashSet_alone (host : Host) (input : ProviderInput) {list : List ExactHash}
    (hlist : extractExactHashesFromNote input.primaryHash input.note = list)
    (hartifact : s.tables.placement.status input.artifactId ≠ none)
    (hroot : s.tables.mergedInto input.artifactId = none)
    (hresolves : ∀ h ∈ list, s.tables.placement.hash h ≠ none →
      s.tables.placement.Resolves h input.artifactId)
    (htype : ∀ h ∈ list, ∀ g, s.tables.placement.hash g = some input.artifactId ∨ g ∈ list →
      g.hashType = h.hashType → g = h) :
    ∃ results s', Returns (attachProviderExactHashSet host input) s (.attached results) s' ∧
      Settled {h | h ∈ list} input.artifactId s.tables s'.tables := by
  obtain ⟨hits, hfind⟩ := exists_findHits fun h (hh : h ∈ list) hbound =>
    ⟨_, hresolves h hh hbound⟩
  have hothers : distinctIds (hits.filter fun id => decide (id ≠ input.artifactId)) = [] := by
    apply eq_nil_iff_forall_not_mem.mpr
    intro id hid
    rw [mem_distinctIds, mem_filter, (findHits_returns hfind).2, decide_eq_true_eq] at hid
    obtain ⟨⟨g, hg, hroot'⟩, hne⟩ := hid
    have hbound : s.tables.placement.hash g ≠ none := by
      obtain ⟨x, -, hx, -⟩ := hroot'
      rw [hx]
      exact nofun
    exact hne (hroot'.unique (hresolves g hg hbound))
  obtain ⟨results, s₁, hattach, hsettled⟩ := attachSiblings_settles host hartifact hroot
    (hlist ▸ (extractExactHashesFromNote_spec _ _).1) (by
      intro h hh x hx
      obtain ⟨y, n, hy, hlead⟩ := hresolves h hh (by rw [hx]; exact nofun)
      obtain rfl := Option.some.inj (hy.symm.trans hx)
      rw [Tables.placement_mergedInto] at hlead
      exact ⟨n, hlead⟩) htype
  obtain ⟨primary, s₂, hrecompute, htables⟩ := recomputePrimaryHash_returns input.artifactId s₁
  refine ⟨results, s₂, ?_, ?_⟩
  · unfold attachProviderExactHashSet
    simp only [hlist]
    rw [bind_of hfind, if_neg (not_not.mpr hothers), bind_of hattach, bind_of hrecompute]
    exact pure_iff.mpr ⟨rfl, rfl⟩
  · have hflags : Settled ∅ input.artifactId s₁.tables s₂.tables := by
      apply Settled.of_same
      · rw [htables, Tables.placement_recomputePrimary]
      · rw [htables, iocItems_recomputePrimary]
    refine (hsettled.trans hflags).congr fun g => ?_
    simp

/-- The sibling pass of a record one of whose hashes resolves to another artifact. -/
theorem attachProviderExactHashSet_spread (host : Host) (input : ProviderInput) {list : List ExactHash}
    (hlist : extractExactHashesFromNote input.primaryHash input.note = list)
    (hresolves : ∀ h ∈ list, s.tables.placement.hash h ≠ none →
      ∃ root, s.tables.placement.Resolves h root)
    (hother : ∃ g ∈ list, ∃ root, s.tables.placement.Resolves g root ∧ root ≠ input.artifactId) :
    ∃ ids, Returns (attachProviderExactHashSet host input) s (.needsMergeWith ids) s ∧ ids.Nodup ∧
      ∀ id, id ∈ ids ↔ id ≠ input.artifactId ∧ ∃ g ∈ list, s.tables.placement.Resolves g id := by
  obtain ⟨hits, hfind⟩ := exists_findHits hresolves
  have hids : ∀ id, id ∈ distinctIds (hits.filter fun id => decide (id ≠ input.artifactId)) ↔
      id ≠ input.artifactId ∧ ∃ g ∈ list, s.tables.placement.Resolves g id := by
    intro id
    rw [mem_distinctIds, mem_filter, (findHits_returns hfind).2, decide_eq_true_eq, and_comm]
  obtain ⟨g, hg, root, hroot, hne⟩ := hother
  have hmem := (hids root).mpr ⟨hne, g, hg, hroot⟩
  refine ⟨_, ?_, nodup_distinctIds _, hids⟩
  unfold attachProviderExactHashSet
  simp only [hlist]
  rw [bind_of hfind, if_pos (ne_nil_of_mem hmem)]
  exact pure_iff.mpr ⟨rfl, rfl⟩

/-- A call settles its own hash on the artifact that it resolves to, or on a new one. -/
def Homed (host : Host) (primary : ExactHash) (a : ArtifactId) (t : Tables) : Prop :=
  t.placement.Resolves primary a ∨
    t.placement.hash primary = none ∧ a = host.uuid ∧ t.placement.status a = none

/-- A call that attached its own hash settled it. -/
theorem attachPrimary_settled {primary : ExactHash} {input : AttachInput} {hashId : ℕ}
    {createdArtifact createdHash : Bool} (hnone : input.artifactId = none)
    (hfresh : s.tables.placement.status host.uuid = none)
    (h : Returns (attachHash host input primary) s
      (.attached a hashId createdArtifact createdHash) s') :
    Settled {primary} a s.tables s'.tables ∧ s'.tables.mergedInto a = none ∧
      Present a hashId s'.tables ∧ Homed host primary a s.tables := by
  obtain ⟨houtcome, hkeeps⟩ := attachHash_outcome h
  obtain ⟨row, hrow, hid⟩ := hkeeps.row _ _ _ _ rfl
  have hsettled := Settled.of_outcome houtcome hkeeps.iocItems
  refine ⟨hsettled, ?_, ⟨?_, hid ▸ mem_map_of_mem (Rows.mem_of_lookup hrow).1⟩, ?_⟩
  · rw [← Tables.placement_mergedInto]
    exact houtcome.isRoot hnone
  · have hplaced := hsettled.mem primary rfl
    obtain ⟨row', hrow', rfl⟩ := Tables.placement_hash_eq_some.mp hplaced
    exact s'.references.hash_artifact row' (Rows.mem_of_lookup hrow').1
  · generalize s'.tables.placement = p at houtcome
    cases houtcome with
    | created _ _ hfree => exact .inr ⟨Option.map_eq_none_iff.mpr hfree, rfl, hfresh⟩
    | added _ _ hrequested =>
      rw [hnone] at hrequested
      cases hrequested
    | healed row n root hrow hlead => exact .inl (resolves_iff.mpr ⟨row, n, hrow, hlead⟩)
    | kept row hrow hactive => exact .inl (resolves_iff.mpr ⟨row, 0, hrow, .root hactive⟩)

/-- The own hash of a call finds its artifact. -/
theorem attachPrimary_returns {primary : ExactHash} (input : AttachInput)
    (hnone : input.artifactId = none) (hfresh : s.tables.placement.status host.uuid = none)
    (hresolves : s.tables.placement.hash primary ≠ none →
      ∃ root, s.tables.placement.Resolves primary root)
    (htype : ∀ root, s.tables.placement.Resolves primary root → ∀ g,
      s.tables.placement.hash g = some root → g.hashType = primary.hashType → g = primary) :
    ∃ a hashId createdArtifact createdHash s₁, Returns (attachHash host input primary) s
        (.attached a hashId createdArtifact createdHash) s₁ := by
  cases hrow : s.tables.hashRow? primary with
  | none =>
    obtain ⟨hashId, s₁, hattach⟩ := attachHash_of_new host primary hnone
      (Tables.placement_status_eq_none.mp hfresh) hrow
    exact ⟨_, hashId, true, true, s₁, hattach⟩
  | some row =>
    have hplaced : s.tables.placement.hash primary = some row.artifactId :=
      Tables.placement_hash_eq_some.mpr ⟨row, hrow, rfl⟩
    obtain ⟨root, hroot⟩ := hresolves (by rw [hplaced]; exact nofun)
    obtain ⟨row', n, hrow', hlead⟩ := resolves_iff.mp hroot
    obtain rfl := Option.some.inj (hrow.symm.trans hrow')
    have hsame : ∀ requested ∈ input.artifactId, requested = root := by
      rw [hnone]
      exact nofun
    have hroom : row.artifactId ≠ root → s.tables.TypeFree root primary.hashType := by
      intro hne
      apply typeFree_iff.mpr
      intro g hg hsameType
      rw [htype root hroot g hg hsameType, hplaced] at hg
      exact hne (Option.some.inj hg)
    obtain ⟨s₁, hattach⟩ := attachHash_of_row host hrow hlead hsame hroom
    exact ⟨root, row.id, false, false, s₁, hattach⟩

/-- The observation of the own hash can be written. -/
theorem observeIoc_returns (host : Host) (input : EnsureInput) (primary : ExactHash)
    (hpresent : Present a hashId s.tables) :
    ∃ s', Returns (observeIoc host input primary a hashId) s ⟨⟩ s' := by
  unfold observeIoc
  split
  · apply upsertSourceObservation_returns
    · exact hpresent.artifact
    · rintro _ ⟨⟩
      exact hpresent.hash
  · exact ⟨s, pure_iff.mpr ⟨rfl, rfl⟩⟩

/-- The link, the observation and the attributes of a call settle no hash. -/
theorem settled_of_records {input : EnsureInput} {primary : ExactHash} {hashId : ℕ}
    {link : LinkResult} {attrs : List (String × String)} {sourceName : Option String}
    {s₁ s₂ s₃ : Database} (hroot : s.tables.mergedInto a = none)
    (hlink : Returns (linkIoc a input.iocItemId primary.hashType input.iocPublicId (some hashId))
      s link s₁)
    (hobserve : Returns (observeIoc host input primary a hashId) s₁ ⟨⟩ s₂)
    (hattrs : Returns (upsertNonIdentityAttrs a attrs sourceName) s₂ ⟨⟩ s₃) :
    Settled ∅ a s.tables s₃.tables := by
  obtain ⟨observations, hobserved⟩ := observeIoc_effect hobserve
  obtain ⟨rows, hrows⟩ := upsertNonIdentityAttrs_effect hattrs
  have hlinked : Attaches ∅ (fun _ _ => True) s.tables s₁.tables :=
    linkIoc_attaches hroot trivial hlink
  have hobservation : Settled ∅ a s₁.tables s₂.tables := by
    rw [hobserved]
    exact .of_same rfl rfl
  have hattributes : Settled ∅ a s₂.tables s₃.tables := by
    rw [hrows]
    exact .of_same rfl rfl
  refine (((Settled.of_attaches hlinked).trans hobservation).trans hattributes).congr fun g => ?_
  simp

/-- Up to the sibling pass a call settles its own hash. -/
theorem ensureForHash_prepares {input : EnsureInput} {primary : ExactHash}
    (hioc : (primary.hashType.text, input.iocItemId) ∈
      s.tables.iocItems.map fun ioc => (ioc.observableType, ioc.id))
    (hfresh : s.tables.placement.status host.uuid = none)
    (hresolves : s.tables.placement.hash primary ≠ none →
      ∃ root, s.tables.placement.Resolves primary root)
    (htype : ∀ root, s.tables.placement.Resolves primary root → ∀ g,
      s.tables.placement.hash g = some root → g.hashType = primary.hashType → g = primary) :
    ∃ a hashId link s₁, (∀ result s₂, Returns (do
        let siblings ← ensureSiblings host input primary a
        pure (EnsureResult.ensured a hashId link siblings)) s₁ result s₂ →
          Returns (ensureForHash host input primary) s result s₂) ∧
      Settled {primary} a s.tables s₁.tables ∧ s₁.tables.mergedInto a = none ∧
      s₁.tables.placement.status a ≠ none ∧ Homed host primary a s.tables := by
  obtain ⟨a, hashId, createdArtifact, createdHash, s₁, hattach⟩ :=
    attachPrimary_returns (ensureAttachInput input) rfl hfresh hresolves htype
  obtain ⟨hsettled, hroot, hpresent, hhome⟩ := attachPrimary_settled rfl hfresh hattach
  have hhash : ∀ id ∈ some hashId, id ∈ s₁.tables.hashes.map HashRow.id := by
    rintro _ ⟨⟩
    exact hpresent.hash
  have hioc₁ : (primary.hashType.text, input.iocItemId) ∈
      s₁.tables.iocItems.map fun ioc => (ioc.observableType, ioc.id) := by
    rw [hsettled.iocItems]
    exact hioc
  obtain ⟨link, s₂, hlink⟩ := linkIoc_returns input.iocPublicId hpresent.artifact hhash hioc₁
  obtain ⟨links, conflicts, hlinks⟩ := linkIoc_writes hlink
  have hpresent₂ : Present a hashId s₂.tables := by
    rw [hlinks]
    exact ⟨hpresent.artifact, hpresent.hash⟩
  obtain ⟨s₃, hobserve⟩ := observeIoc_returns host input primary hpresent₂
  obtain ⟨observations, hobserved⟩ := observeIoc_effect hobserve
  have hartifact₃ : a ∈ s₃.tables.artifacts.map Artifact.id := by
    rw [hobserved]
    exact hpresent₂.artifact
  obtain ⟨s₄, hattrs⟩ := upsertNonIdentityAttrs_returns
    (extractNonIdentityAttrsFromNote input.note) (input.sourceName.filter (· ≠ "")) hartifact₃
  have hrest := settled_of_records hroot hlink hobserve hattrs
  refine ⟨a, hashId, link, s₄, ?_, ?_, ?_, ?_, hhome⟩
  · intro result s₅ hsiblings
    unfold ensureForHash
    rw [bind_of hattach]
    simp only
    rw [bind_of hlink, bind_of hobserve, bind_of hattrs]
    exact hsiblings
  · refine (hsettled.trans hrest).congr fun g => ?_
    simp
  · rw [hrest.mergedInto, hroot]
  · apply hrest.known
    rw [Ne, Tables.placement_status_eq_none, Tables.artifact?_eq_none, not_not]
    exact hpresent.artifact

/-- A call that returned settled its own hash, up to the sibling pass. -/
theorem ensureForHash_prepared {input : EnsureInput} {link : LinkResult}
    {siblings : Option SiblingResult} (hfresh : s.tables.placement.status host.uuid = none)
    (h : Returns (ensureForHash host input primary) s (.ensured a hashId link siblings) s') :
    ∃ s₁, Returns (ensureSiblings host input primary a) s₁ siblings s' ∧
      Settled {primary} a s.tables s₁.tables ∧ s₁.tables.mergedInto a = none ∧
      s₁.tables.placement.status a ≠ none ∧ Homed host primary a s.tables := by
  obtain ⟨attached, s₁, hattach, h⟩ := bind_iff.mp h
  cases attached with
  | attached b hashId' createdArtifact createdHash =>
    obtain ⟨link', s₂, hlink, h⟩ := bind_iff.mp h
    obtain ⟨⟨⟩, s₃, hobserve, h⟩ := bind_iff.mp h
    obtain ⟨⟨⟩, s₄, hattrs, h⟩ := bind_iff.mp h
    obtain ⟨siblings', s₅, hsiblings, h⟩ := bind_iff.mp h
    obtain ⟨hensured, rfl⟩ := pure_iff.mp h
    cases hensured
    obtain ⟨hsettled, hroot, hpresent, hhome⟩ := attachPrimary_settled rfl hfresh hattach
    have hrest := settled_of_records hroot hlink hobserve hattrs
    refine ⟨s₄, hsiblings, ?_, ?_, ?_, hhome⟩
    · refine (hsettled.trans hrest).congr fun g => ?_
      simp
    · rw [hrest.mergedInto, hroot]
    · apply hrest.known
      rw [Ne, Tables.placement_status_eq_none, Tables.artifact?_eq_none, not_not]
      exact hpresent.artifact
  | invalidHash | conflict | uniqueViolation =>
    obtain ⟨hensured, -⟩ := pure_iff.mp h
    cases hensured

end TalonHound.FileArtifacts
