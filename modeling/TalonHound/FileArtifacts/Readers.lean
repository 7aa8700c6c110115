import Mathlib.Data.List.Dedup
import Mathlib.Data.List.Find
import TalonHound.Library.Run
import TalonHound.FileArtifacts.Operations
import TalonHound.FileArtifacts.Read

/-!
# The readers agree

Attaching and merging keep every link on an active artifact, so the resolvers that follow
tombstones without bound, five times or once all end where the link sits.
-/

namespace TalonHound.FileArtifacts

open Returns Rows List

/-- Every link sits on an artifact that is not a tombstone and carries the public id of its IOC
row; the ids of these rows come from one sequence. -/
structure Tables.LinksResolved (t : Tables) : Prop where
  ioc_id : (t.iocItems.map IocRow.id).Nodup
  ioc_publicId : (t.iocItems.map IocRow.publicId).Nodup
  ioc_pos : ∀ ioc ∈ t.iocItems, 0 < ioc.id
  active : ∀ l ∈ t.links, t.mergedInto l.artifactId = none
  publicId : ∀ l ∈ t.links, ∀ ioc ∈ t.iocItems, ioc.id = l.iocItemId → ioc.publicId = l.iocPublicId

/-- The public id of a link is that of the IOC row. -/
def Tables.linkGood (t : Tables) (k : HashType × ℕ) (publicId : ℕ) : Prop :=
  ∀ ioc ∈ t.iocItems, ioc.id = k.2 → ioc.publicId = publicId

namespace Tables.LinksResolved

variable {s s' : Database} {t : Tables} {l l' : LinkRow} {c d : ArtifactId}

/-- The links of the tables are those of the placement. -/
theorem mem_links_iff {k : HashType × ℕ} {id : ArtifactId} {publicId : ℕ} :
    s.tables.placement.link k = some (id, publicId) ↔
      ∃ l ∈ s.tables.links, Tables.linkKey l = k ∧ l.artifactId = id ∧ l.iocPublicId = publicId := by
  change (Rows.lookup Tables.linkKey s.tables.links k).map _ = _ ↔ _
  rw [Option.map_eq_some_iff]
  constructor
  · rintro ⟨l, hl, heq⟩
    obtain ⟨hmem, hkey⟩ := mem_of_lookup hl
    exact ⟨l, hmem, hkey, congrArg Prod.fst heq, congrArg Prod.snd heq⟩
  · rintro ⟨l, hmem, hkey, rfl, rfl⟩
    exact ⟨l, (lookup_eq_some s.unique.link_ioc).mpr ⟨hmem, hkey⟩, rfl⟩

section

variable (h : s.tables.LinksResolved)

include h

/-- The invariant as a condition on the placement. -/
theorem of_placement (hioc : s'.tables.iocItems = s.tables.iocItems)
    (hlinks : ∀ k id publicId, s'.tables.placement.link k = some (id, publicId) →
      s'.tables.mergedInto id = none ∧ s.tables.linkGood k publicId) : s'.tables.LinksResolved := by
  have hlink : ∀ l ∈ s'.tables.links, s'.tables.placement.link (Tables.linkKey l) =
      some (l.artifactId, l.iocPublicId) := by
    intro l hl
    exact mem_links_iff.mpr ⟨l, hl, rfl, rfl, rfl⟩
  refine ⟨?_, ?_, ?_, fun l hl => (hlinks _ _ _ (hlink l hl)).1, ?_⟩
  · rw [hioc]
    exact h.ioc_id
  · rw [hioc]
    exact h.ioc_publicId
  · rw [hioc]
    exact h.ioc_pos
  · rw [hioc]
    intro l hl
    exact (hlinks _ _ _ (hlink l hl)).2

/-- Where a link of the placement goes. -/
theorem placement_link {k : HashType × ℕ} {id : ArtifactId} {publicId : ℕ}
    (hk : s.tables.placement.link k = some (id, publicId)) :
    s.tables.mergedInto id = none ∧ s.tables.linkGood k publicId := by
  obtain ⟨l, hl, rfl, rfl, rfl⟩ := mem_links_iff.mp hk
  exact ⟨h.active l hl, h.publicId l hl⟩

/-- The links that the tables' own IOC rows ask for are good. -/
theorem linksGood : LinksGood s.tables.linkGood s.tables := by
  intro ioc hioc type _ ioc' hioc' hid
  rw [inj_on_of_nodup_map h.ioc_id hioc' hioc hid]

/-- Attaching keeps links on active artifacts. -/
theorem of_attaches {hashes : Set ExactHash}
    (hattaches : Attaches hashes s.tables.linkGood s.tables s'.tables) :
    s'.tables.LinksResolved := by
  have hmerged : s'.tables.mergedInto = s.tables.mergedInto := hattaches.mergedInto
  apply h.of_placement hattaches.iocItems
  intro k id publicId hk
  rw [hmerged]
  rcases hattaches.grows.link k with hsame | ⟨id', publicId', hk', hactive, hgood⟩
  · exact h.placement_link (hsame ▸ hk)
  · rw [hk', Option.some.injEq, Prod.mk.injEq] at hk
    obtain ⟨rfl, rfl⟩ := hk
    rw [Tables.placement_mergedInto] at hactive
    exact ⟨hactive, hgood⟩

/-- Merging keeps links on active artifacts. -/
theorem of_merge (heffect : MergeEffect s c d s') : s'.tables.LinksResolved := by
  cases heffect with
  | unchanged => exact h
  | merged n m rc rd hc hd hactive hactive' hne htypes hplacement hioc =>
    apply h.of_placement hioc
    intro k id publicId hk
    rw [hplacement] at hk
    obtain ⟨⟨id', publicId'⟩, hold, hmoved⟩ := Option.map_eq_some_iff.mp hk
    rw [Prod.mk.injEq] at hmoved
    obtain ⟨rfl, rfl⟩ := hmoved
    obtain ⟨hroot, hgood⟩ := h.placement_link hold
    refine ⟨?_, hgood⟩
    have hmerged : s'.tables.mergedInto = linkUnder s.tables.mergedInto rd rc := by
      rw [← Tables.placement_mergedInto, hplacement, Placement.mergedInto_merge,
        Tables.placement_mergedInto]
    rw [hmerged]
    unfold linkUnder redirect
    by_cases hid : id' = rd
    · rw [if_pos hid, Function.update_of_ne hne]
      exact hc.isRoot
    · rwa [if_neg hid, Function.update_of_ne hid]

/-- Statements that leave placement and IOC rows alone keep links on active artifacts. -/
theorem of_same (hplacement : s'.tables.placement = s.tables.placement)
    (hioc : s'.tables.iocItems = s.tables.iocItems) : s'.tables.LinksResolved := by
  apply h.of_placement hioc
  intro k id publicId hk
  rw [hplacement] at hk
  rw [← Tables.placement_mergedInto, hplacement, Tables.placement_mergedInto]
  exact h.placement_link hk

end

end Tables.LinksResolved

/-- The calls that bring IOC rows, attach and merge. -/
inductive StoreOperation where
  | importIoc (ioc : IocRow)
  | artifact (operation : ArtifactOperation)
  | dualWrite (dualWriteEnabled : Bool) (resolveFeed : String → Option ℕ) (host : Host)
      (input : DualWriteInput)

namespace StoreOperation

/-- The call, without its result. -/
def call : StoreOperation → Db Unit
  | importIoc ioc => write fun t => { t with iocItems := t.iocItems ++ [ioc] }
  | artifact operation => operation.call
  | dualWrite dualWriteEnabled resolveFeed host input => do
    let _ ← dualWriteFileArtifactForObservable dualWriteEnabled resolveFeed host input

/-- The database after the call. -/
def step (s : Database) (operation : StoreOperation) : Option Database :=
  transaction operation.call s

/-- A new IOC row takes its id from the sequence and a random public id; a caller of
`ensureArtifactForFileHashIoc` passes the ids of an IOC row. -/
def Admissible (s : Database) : StoreOperation → Prop
  | importIoc ioc => 0 < ioc.id ∧
      ∀ row ∈ s.tables.iocItems, row.id ≠ ioc.id ∧ row.publicId ≠ ioc.publicId
  | artifact (.ensure _ input) => ∃ ioc ∈ s.tables.iocItems,
      ioc.id = input.iocItemId ∧ ioc.publicId = input.iocPublicId
  | artifact _ => True
  | dualWrite .. => True

instance (s : Database) : ∀ operation, Decidable (Admissible s operation)
  | importIoc ioc => inferInstanceAs (Decidable (0 < ioc.id ∧
      ∀ row ∈ s.tables.iocItems, row.id ≠ ioc.id ∧ row.publicId ≠ ioc.publicId))
  | artifact (.ensure _ input) => inferInstanceAs (Decidable (∃ ioc ∈ s.tables.iocItems,
      ioc.id = input.iocItemId ∧ ioc.publicId = input.iocPublicId))
  | artifact (.attach ..) => isTrue trivial
  | artifact (.merge ..) => isTrue trivial
  | dualWrite .. => isTrue trivial

variable {s s' : Database} {operation : StoreOperation}

section

variable (h : s.tables.LinksResolved)

include h

/-- A new IOC row keeps links on active artifacts. -/
theorem linksResolved_importIoc {ioc : IocRow} (hadmissible : Admissible s (importIoc ioc))
    (hcall : Returns (call (importIoc ioc)) s ⟨⟩ s') : s'.tables.LinksResolved := by
  obtain ⟨hpos, hfresh⟩ := hadmissible
  unfold call at hcall
  have htables := returns_write.mp hcall
  have hlinks : s'.tables.links = s.tables.links := by rw [htables]
  have hitems : s'.tables.iocItems = s.tables.iocItems ++ [ioc] := by rw [htables]
  have hmerged : s'.tables.mergedInto = s.tables.mergedInto := by rw [htables]; rfl
  refine ⟨?_, ?_, ?_, ?_, ?_⟩
  · rw [hitems]
    apply nodup_map_append h.ioc_id
    intro hmem
    obtain ⟨row, hrow, hid⟩ := mem_map.mp hmem
    exact (hfresh row hrow).1 hid
  · rw [hitems]
    apply nodup_map_append h.ioc_publicId
    intro hmem
    obtain ⟨row, hrow, hid⟩ := mem_map.mp hmem
    exact (hfresh row hrow).2 hid
  · intro row hrow
    rw [hitems] at hrow
    rcases mem_append.mp hrow with hrow | hrow
    · exact h.ioc_pos row hrow
    · rwa [mem_singleton.mp hrow]
  · rw [hlinks, hmerged]
    exact h.active
  · rw [hlinks, hitems]
    intro l hl row hrow hid
    rcases mem_append.mp hrow with hrow | hrow
    · exact h.publicId l hl row hrow hid
    · -- a link refers to a row that was there before
      rw [mem_singleton.mp hrow] at hid
      obtain ⟨row', hrow', hkey⟩ := mem_map.mp (s.references.link_ioc l hl)
      exact absurd ((congrArg Prod.snd hkey).trans hid.symm) (hfresh row' hrow').1

/-- `ensureArtifactForFileHashIoc` keeps links on active artifacts. -/
theorem linksResolved_ensure {host : Host} {input : EnsureInput} {result : EnsureResult}
    {ioc : IocRow} (hioc : ioc ∈ s.tables.iocItems) (hid : ioc.id = input.iocItemId)
    (hpublicId : ioc.publicId = input.iocPublicId)
    (hensure : Returns (ensureArtifactForFileHashIoc host input) s result s') :
    s'.tables.LinksResolved := by
  unfold ensureArtifactForFileHashIoc at hensure
  cases hprimary : normalizeExactHash input.observableType input.observable with
  | none =>
    simp only [hprimary] at hensure
    obtain ⟨-, rfl⟩ := pure_iff.mp hensure
    exact h
  | some primary =>
    simp only [hprimary] at hensure
    have hgood : s.tables.linkGood (primary.hashType, input.iocItemId) input.iocPublicId := by
      intro ioc' hioc' hid'
      rw [inj_on_of_nodup_map h.ioc_id hioc' hioc (hid'.trans hid.symm), hpublicId]
    exact h.of_attaches (ensureForHash_attaches h.linksGood hgood hensure)

/-- The merges of `dualWriteFileArtifactForObservable` keep links on active artifacts. -/
theorem linksResolved_mergeProviderTargets {input : DualWriteInput} {artifactId result : ArtifactId}
    {siblings : Option SiblingResult}
    (hmerge : Returns (mergeProviderTargets input artifactId siblings) s result s') :
    s'.tables.LinksResolved := by
  refine mergeProviderTargets_invariant (I := fun s => s.tables.LinksResolved) ?_ ?_ hmerge h
  · exact fun _ _ _ _ h₁ heffect => h₁.of_merge heffect
  · exact fun _ _ h₁ hplacement hioc => h₁.of_same hplacement hioc

/-- `dualWriteFileArtifactForObservable` keeps links on active artifacts. -/
theorem linksResolved_dualWrite {dualWriteEnabled : Bool} {resolveFeed : String → Option ℕ}
    {host : Host} {input : DualWriteInput} {result : DualWriteResult}
    (hcall : Returns (dualWriteFileArtifactForObservable dualWriteEnabled resolveFeed host input) s
      result s') : s'.tables.LinksResolved := by
  unfold dualWriteFileArtifactForObservable at hcall
  split at hcall
  · obtain ⟨-, rfl⟩ := pure_iff.mp hcall
    exact h
  · split at hcall
    · obtain ⟨-, rfl⟩ := pure_iff.mp hcall
      exact h
    · have hbody := returns_withSavepoint.mp hcall
      unfold dualWriteBody at hbody
      rw [bind_of (returns_query.mpr ⟨rfl, rfl⟩)] at hbody
      cases hrow : s.tables.iocRowFor? input.observable input.observableType with
      | none =>
        simp only [hrow] at hbody
        obtain ⟨-, rfl⟩ := pure_iff.mp hbody
        exact h
      | some row =>
        simp only [hrow] at hbody
        obtain ⟨ensured, s₁, hensure, hbody⟩ := bind_iff.mp hbody
        have h₁ := linksResolved_ensure h (Tables.mem_of_iocRowFor? hrow) rfl rfl hensure
        cases ensured with
        | ensured artifactId hashId link siblings =>
          obtain ⟨merged, s₂, hmerge, hbody⟩ := bind_iff.mp hbody
          obtain ⟨-, rfl⟩ := pure_iff.mp hbody
          exact linksResolved_mergeProviderTargets h₁ hmerge
        | _ =>
          obtain ⟨-, rfl⟩ := pure_iff.mp hbody
          exact h₁

/-- Every admissible step keeps links on active artifacts. -/
theorem linksResolved_step (hadmissible : Admissible s operation)
    (hstep : step s operation = some s') : s'.tables.LinksResolved := by
  rcases transaction_cases hstep with hcall | rfl
  · cases operation with
    | importIoc ioc => exact linksResolved_importIoc h hadmissible hcall
    | artifact operation =>
      cases operation with
      | attach host input hashType hashValue =>
        obtain ⟨result, s₁, hattach, hrest⟩ := bind_iff.mp hcall
        obtain ⟨-, rfl⟩ := pure_iff.mp hrest
        exact h.of_attaches (ArtifactOperation.attachExactHash_attaches hattach)
      | ensure host input =>
        obtain ⟨result, s₁, hensure, hrest⟩ := bind_iff.mp hcall
        obtain ⟨-, rfl⟩ := pure_iff.mp hrest
        obtain ⟨ioc, hioc, hid, hpublicId⟩ := hadmissible
        exact linksResolved_ensure h hioc hid hpublicId hensure
      | merge input =>
        obtain ⟨result, s₁, hmerge, hrest⟩ := bind_iff.mp hcall
        obtain ⟨-, rfl⟩ := pure_iff.mp hrest
        rcases mergeFileArtifacts_effect hmerge with rfl | ⟨c, d, -, -, heffect⟩
        · exact h
        · exact h.of_merge heffect
    | dualWrite dualWriteEnabled resolveFeed host input =>
      obtain ⟨result, s₁, hdual, hrest⟩ := bind_iff.mp hcall
      obtain ⟨-, rfl⟩ := pure_iff.mp hrest
      exact linksResolved_dualWrite h hdual
  · exact h

end

end StoreOperation

/-- The artifact that an IOC row is linked to. -/
def Tables.fileOf (t : Tables) (iocItemId : ℕ) : Option ArtifactId :=
  (Rows.lookup LinkRow.iocItemId t.links iocItemId).map LinkRow.artifactId

namespace Tables.LinksResolved

variable {s : Database} {l : LinkRow} {ioc : IocRow}

/-- The IOC row of a link. -/
theorem iocRow (hl : l ∈ s.tables.links) :
    ∃ ioc ∈ s.tables.iocItems, ioc.id = l.iocItemId ∧
      ioc.observableType = l.iocObservableType.text := by
  obtain ⟨ioc, hioc, hkey⟩ := mem_map.mp (s.references.link_ioc l hl)
  exact ⟨ioc, hioc, congrArg Prod.snd hkey, congrArg Prod.fst hkey⟩

section

variable (h : s.tables.LinksResolved)

include h

/-- An IOC row has one link. -/
theorem nodup_iocItemId : (s.tables.links.map LinkRow.iocItemId).Nodup := by
  apply List.Nodup.map_on _ s.unique.nodup_links
  intro l hl l' hl' hid
  obtain ⟨ioc, hioc, hiocId, htype⟩ := iocRow hl
  obtain ⟨ioc', hioc', hiocId', htype'⟩ := iocRow hl'
  have hsame : ioc = ioc' :=
    inj_on_of_nodup_map h.ioc_id hioc hioc' (hiocId.trans (hid.trans hiocId'.symm))
  apply inj_on_of_nodup_map s.unique.link_ioc hl hl'
  apply Prod.ext
  · apply Option.some.inj
    rw [← normalizeHashType_text, ← normalizeHashType_text, ← htype, hsame, htype']
  · exact hid

/-- A public id has one link. -/
theorem nodup_iocPublicId : (s.tables.links.map LinkRow.iocPublicId).Nodup := by
  apply List.Nodup.map_on _ s.unique.nodup_links
  intro l hl l' hl' hpublicId
  obtain ⟨ioc, hioc, hiocId, -⟩ := iocRow hl
  obtain ⟨ioc', hioc', hiocId', -⟩ := iocRow hl'
  have hsame : ioc = ioc' := by
    apply inj_on_of_nodup_map h.ioc_publicId hioc hioc'
    rw [h.publicId l hl ioc hioc hiocId, h.publicId l' hl' ioc' hioc' hiocId', hpublicId]
  apply inj_on_of_nodup_map h.nodup_iocItemId hl hl'
  rw [← hiocId, hsame, hiocId']

/-- A link is found by the id of its IOC row. -/
theorem lookup_iocItemId (hl : l ∈ s.tables.links) :
    (s.tables.links.find? fun m => decide (m.iocItemId = l.iocItemId)) = some l :=
  (lookup_eq_some h.nodup_iocItemId).mpr ⟨hl, rfl⟩

/-- A link is found by its public id. -/
theorem lookup_iocPublicId (hl : l ∈ s.tables.links) :
    (s.tables.links.find? fun m => decide (m.iocPublicId = l.iocPublicId)) = some l :=
  (lookup_eq_some h.nodup_iocPublicId).mpr ⟨hl, rfl⟩

/-- The artifact of a link is an active row. -/
theorem artifactRow (hl : l ∈ s.tables.links) :
    ∃ a, s.tables.artifact? l.artifactId = some a ∧ a.id = l.artifactId ∧ a.status = .active := by
  have hactive : s.tables.IsActive l.artifactId := Tables.isActive_iff.mpr
    ⟨Tables.isSome_artifact?.mpr (s.references.link_artifact l hl), h.active l hl⟩
  obtain ⟨a, ha, hstatus⟩ := hactive
  exact ⟨a, ha, (mem_of_lookup ha).2, hstatus⟩

/-- The annotation join finds the artifact of the link. -/
theorem annotateJoin_eq (hioc : ioc ∈ s.tables.iocItems) :
    s.tables.annotateJoin ioc = (s.tables.fileOf ioc.id).bind s.tables.artifact? := by
  have hpred : ∀ l ∈ s.tables.links, decide (l.iocItemId = ioc.id ∧
      l.iocObservableType.text = ioc.observableType) = decide (l.iocItemId = ioc.id) := by
    intro l hl
    obtain ⟨ioc', hioc', hid, htype⟩ := iocRow hl
    apply decide_eq_decide.mpr
    constructor
    · exact And.left
    · intro hsame
      obtain rfl := inj_on_of_nodup_map h.ioc_id hioc' hioc (hid.trans hsame)
      exact ⟨hsame, htype.symm⟩
  unfold Tables.annotateJoin Tables.fileOf
  rw [find?_congr hpred]
  change _ = ((s.tables.links.find? fun l => decide (l.iocItemId = ioc.id)).map
    LinkRow.artifactId).bind s.tables.artifact?
  cases s.tables.links.find? fun l => decide (l.iocItemId = ioc.id) <;> rfl

/-- The scope of an artifact with a link is its links. -/
theorem mem_scopeLinks {artifactId : ArtifactId} :
    l ∈ s.tables.scopeLinks artifactId ↔ l ∈ s.tables.links ∧ l.artifactId = artifactId := by
  unfold Tables.scopeLinks
  rw [mem_filter, decide_eq_true_eq]
  constructor
  · rintro ⟨hl, hart | hmerged⟩
    · exact ⟨hl, hart⟩
    · rw [h.active l hl] at hmerged
      cases hmerged
  · rintro ⟨hl, hart⟩
    exact ⟨hl, .inl hart⟩

end

end Tables.LinksResolved

/-- Following the tombstones of an active row ends at once. -/
theorem followGuarded_active (t : Tables) (turns : ℕ) (id : ArtifactId) :
    followGuarded t turns (id, .active) = (id, .active) := by
  cases turns <;> rfl

/-- The batch lookup of a public id finds what the link of the id has. -/
theorem mapPublicIds_eq {s : Database} (h : s.tables.LinksResolved) {publicIds : List ℕ}
    {publicId : ℕ} (hmem : publicId ∈ publicIds) :
    mapPublicIdsToArtifactIds true publicIds s.tables publicId =
      (s.tables.links.find? fun l => decide (l.iocPublicId = publicId)).bind fun l =>
        (s.tables.artifact? l.artifactId).map survivorArtifactId := by
  unfold FileArtifacts.mapPublicIdsToArtifactIds
  rw [if_neg (by rintro (rfl | hdisabled) <;> simp_all)]
  simp only
  generalize hrows : s.tables.links.filterMap _ = rows
  have hmemRows : ∀ row, row ∈ rows ↔ ∃ l ∈ s.tables.links, l.iocPublicId ∈ publicIds ∧
      ∃ a, s.tables.artifact? l.artifactId = some a ∧ (l.iocPublicId, survivorArtifactId a) = row := by
    intro row
    rw [← hrows, mem_filterMap]
    simp only [Option.ite_none_right_eq_some, Option.map_eq_some_iff]
  cases hfind : s.tables.links.find? fun l => decide (l.iocPublicId = publicId) with
  | none =>
    have hnone : (rows.reverse.find? fun row => decide (row.1 = publicId)) = none := by
      apply find?_eq_none.mpr
      intro row hrow
      obtain ⟨l, hl, -, a, -, rfl⟩ := (hmemRows row).mp (mem_reverse.mp hrow)
      exact find?_eq_none.mp hfind l hl
    rw [hnone]
    rfl
  | some l =>
    have hl := mem_of_find?_eq_some hfind
    have hlid : l.iocPublicId = publicId := by simpa using find?_some hfind
    obtain ⟨a, ha, -, -⟩ := h.artifactRow hl
    have hrow : (publicId, survivorArtifactId a) ∈ rows := by
      subst hlid
      exact (hmemRows _).mpr ⟨l, hl, hmem, a, ha, rfl⟩
    rw [Option.bind_some, ha, Option.map_some]
    cases hlast : rows.reverse.find? fun row => decide (row.1 = publicId) with
    | none =>
      have := find?_eq_none.mp hlast _ (mem_reverse.mpr hrow)
      simp at this
    | some row =>
      -- a row with the public id comes from the link
      have hrowid : row.1 = publicId := by simpa using find?_some hlast
      obtain ⟨m, hm, -, b, hb, rfl⟩ :=
        (hmemRows row).mp (mem_reverse.mp (mem_of_find?_eq_some hlast))
      obtain rfl := inj_on_of_nodup_map h.nodup_iocPublicId hm hl (hrowid.trans hlid.symm)
      rw [hb, Option.some.injEq] at ha
      rw [Option.map_some, ha]

/-- The resolvers of an IOC row give `file`, an active artifact when the row has a link. -/
structure ReadersAgree (s : Database) (ioc : IocRow) (file : Option ArtifactId) : Prop where
  active : ∀ a ∈ file, s.tables.IsActive a
  linked : file.isSome ↔ ∃ l ∈ s.tables.links, l.iocItemId = ioc.id
  findActiveArtifact : ∀ l ∈ s.tables.links, l.iocItemId = ioc.id → ∀ fuel,
    s.tables.chainBound ≤ fuel → ∃ a, file = some a.id ∧
      Returns (findActiveArtifact fuel l.artifactId) s (some a) s
  loadArtifactDetail : ∀ l ∈ s.tables.links, l.iocItemId = ioc.id → ∀ requestedPublicId fuel,
    s.tables.chainBound ≤ fuel → ∃ detail, file = some detail.artifact.id ∧
      Returns (loadArtifactDetail requestedPublicId fuel l.artifactId) s (some detail) s
  findArtifactByIocPublicId :
    (findArtifactByIocPublicId ioc.publicId s.tables).map LinkedArtifact.artifactId = file
  findArtifactLinkedIocsByIocId :
    (findArtifactLinkedIocsByIocId true ioc.id s.tables).map LinkedIocs.artifactId = file
  resolvedArtifactId : resolvedArtifactId (s.tables.annotateJoin ioc) = file
  annotateHashArtifactId : annotateHashArtifactId (s.tables.annotateJoin ioc) = file
  resolveSurvivorArtifactIdForIoc : resolveSurvivorArtifactIdForIoc ioc.id s.tables = file
  mapPublicIdsToArtifactIds : ∀ publicIds, ioc.publicId ∈ publicIds →
    mapPublicIdsToArtifactIds true publicIds s.tables ioc.publicId = file

/-- The resolvers agree for a row with a link. -/
theorem readersAgree_of_link {s : Database} {l : LinkRow} {ioc : IocRow}
    (h : s.tables.LinksResolved) (hioc : ioc ∈ s.tables.iocItems) (hl : l ∈ s.tables.links)
    (hid : l.iocItemId = ioc.id) : ReadersAgree s ioc (some l.artifactId) := by
  obtain ⟨a, ha, haid, hstatus⟩ := h.artifactRow hl
  have hsurvivor : survivorArtifactId a = l.artifactId := by
    rw [survivorArtifactId, hstatus, haid]
  have hmerged : a.mergedInto = none := by
    rw [Artifact.mergedInto, hstatus]
  have hpublicId : l.iocPublicId = ioc.publicId := (h.publicId l hl ioc hioc hid.symm).symm
  have hfind := h.lookup_iocItemId hl
  have hfindPublic := h.lookup_iocPublicId hl
  rw [hid] at hfind
  rw [hpublicId] at hfindPublic
  have hunique : ∀ m ∈ s.tables.links, m.iocItemId = ioc.id → m = l := by
    intro m hm hmid
    exact inj_on_of_nodup_map h.nodup_iocItemId hm hl (hmid.trans hid.symm)
  have hlead : LeadsTo s.tables.mergedInto 0 l.artifactId l.artifactId := .root (h.active l hl)
  have hfuel : ∀ fuel, s.tables.chainBound ≤ fuel → 0 < fuel := by
    intro fuel hle
    unfold Tables.chainBound at hle
    omega
  have hpos : ioc.id ≠ 0 := Nat.pos_iff_ne_zero.mp (h.ioc_pos ioc hioc)
  have hjoin : s.tables.annotateJoin ioc = some a := by
    rw [h.annotateJoin_eq hioc, Tables.fileOf]
    change ((s.tables.links.find? _).map _).bind _ = _
    rw [hfind]
    exact ha
  refine
    { active := ?_, linked := ?_, findActiveArtifact := ?_, loadArtifactDetail := ?_
      findArtifactByIocPublicId := ?_, findArtifactLinkedIocsByIocId := ?_
      resolvedArtifactId := ?_, annotateHashArtifactId := ?_
      resolveSurvivorArtifactIdForIoc := ?_, mapPublicIdsToArtifactIds := ?_ }
  · rintro _ ⟨⟩
    exact ⟨a, ha, hstatus⟩
  · exact ⟨fun _ => ⟨l, hl, hid⟩, fun _ => rfl⟩
  · intro m hm hmid fuel hle
    rw [hunique m hm hmid]
    refine ⟨a, congrArg some haid.symm, ?_⟩
    rw [← ha]
    exact findActiveArtifact_eq hlead (hfuel fuel hle)
  · intro m hm hmid requestedPublicId fuel hle
    rw [hunique m hm hmid]
    refine ⟨s.tables.artifactDetail requestedPublicId a, congrArg some haid.symm, ?_⟩
    have hload := loadArtifactDetail_eq requestedPublicId hlead (hfuel fuel hle)
    rwa [ha] at hload
  · unfold FileArtifacts.findArtifactByIocPublicId
    simp [hfindPublic, ha, hstatus, followGuarded_active, haid]
  · unfold FileArtifacts.findArtifactLinkedIocsByIocId
    simp [hfind, ha, hstatus, followGuarded_active, haid, hpos]
  · simp [FileArtifacts.resolvedArtifactId, hjoin, hstatus, haid]
  · simp [FileArtifacts.annotateHashArtifactId, hjoin, hmerged, haid]
  · unfold FileArtifacts.resolveSurvivorArtifactIdForIoc
    simp [hfind, ha, hsurvivor, hpos]
  · intro publicIds hmem
    rw [mapPublicIds_eq h hmem, hfindPublic, Option.bind_some, ha, Option.map_some, hsurvivor]

/-- The resolvers agree for a row without a link. -/
theorem readersAgree_of_unlinked {s : Database} {ioc : IocRow} (h : s.tables.LinksResolved)
    (hioc : ioc ∈ s.tables.iocItems) (hnone : ∀ l ∈ s.tables.links, l.iocItemId ≠ ioc.id) :
    ReadersAgree s ioc none := by
  have hfind : (s.tables.links.find? fun l => decide (l.iocItemId = ioc.id)) = none := by
    apply find?_eq_none.mpr
    intro l hl
    simpa using hnone l hl
  have hfindPublic : (s.tables.links.find? fun l => decide (l.iocPublicId = ioc.publicId)) =
      none := by
    apply find?_eq_none.mpr
    intro l hl
    have hpublicId : l.iocPublicId ≠ ioc.publicId := by
      intro hsame
      obtain ⟨ioc', hioc', hid, -⟩ := Tables.LinksResolved.iocRow hl
      have hpublicId := (h.publicId l hl ioc' hioc' hid).trans hsame
      obtain rfl := inj_on_of_nodup_map h.ioc_publicId hioc' hioc hpublicId
      exact hnone l hl hid.symm
    simpa using hpublicId
  have hjoin : s.tables.annotateJoin ioc = none := by
    rw [h.annotateJoin_eq hioc, Tables.fileOf]
    change ((s.tables.links.find? _).map _).bind _ = _
    rw [hfind]
    rfl
  refine
    { active := nofun
      linked := ⟨nofun, fun ⟨l, hl, hid⟩ => absurd hid (hnone l hl)⟩
      findActiveArtifact := fun l hl hid => absurd hid (hnone l hl)
      loadArtifactDetail := fun l hl hid => absurd hid (hnone l hl)
      findArtifactByIocPublicId := ?_, findArtifactLinkedIocsByIocId := ?_
      resolvedArtifactId := ?_, annotateHashArtifactId := ?_
      resolveSurvivorArtifactIdForIoc := ?_, mapPublicIdsToArtifactIds := ?_ }
  · unfold FileArtifacts.findArtifactByIocPublicId
    simp [hfindPublic]
  · unfold FileArtifacts.findArtifactLinkedIocsByIocId
    simp [hfind]
  · rw [hjoin]
    rfl
  · rw [hjoin]
    rfl
  · unfold FileArtifacts.resolveSurvivorArtifactIdForIoc
    simp [hfind]
  · intro publicIds hmem
    rw [mapPublicIds_eq h hmem, hfindPublic]
    rfl

/-- What the loop over the rows of a seed collects. -/
theorem mem_foldl_addScoped {seed : ℕ} {rows bucket : List ℕ} (hseed : seed ∈ bucket) {id : ℕ} :
    id ∈ rows.foldl (addScoped seed) bucket ↔ id ∈ bucket ∨ id ∈ rows := by
  induction rows generalizing bucket with
  | nil => simp
  | cons linked rows ih =>
    have hstep : ∀ x, x ∈ addScoped seed bucket linked ↔ x ∈ bucket ∨ x = linked := by
      intro x
      unfold addScoped
      by_cases hlinked : linked ∈ bucket
      · rw [if_pos hlinked, if_pos hseed]
        constructor
        · exact Or.inl
        · rintro (hx | rfl)
          · exact hx
          · exact hlinked
      · rw [if_neg hlinked, if_pos (mem_append_left _ hseed)]
        simp
    rw [foldl_cons, ih ((hstep seed).mpr (.inl hseed)), hstep, mem_cons, or_assoc]

/-- The links of the scope that one row of each IOC is kept of. -/
theorem mem_distinctScopeLinks {t : Tables} {artifactId : ArtifactId} {id : ℕ} :
    id ∈ (t.distinctScopeLinks artifactId).map LinkRow.iocItemId ↔
      id ∈ (t.scopeLinks artifactId).map LinkRow.iocItemId := by
  unfold Tables.distinctScopeLinks
  rw [mem_map_firstOfEach, mem_map, mem_map]
  simp only [mem_insertionSort]

/-- The IOC rows that share an artifact with a seed. -/
def Tables.SameFile (t : Tables) (seed id : ℕ) : Prop :=
  ∃ l ∈ t.links, l.iocItemId = seed ∧ ∃ m ∈ t.links, m.artifactId = l.artifactId ∧ m.iocItemId = id

/-- The batch query for a seed. -/
theorem mem_scopedIocIds {s : Database} (h : s.tables.LinksResolved) {seed id : ℕ} :
    id ∈ s.tables.scopedIocIds seed ↔ s.tables.SameFile seed id := by
  have hseeds : ∀ l ∈ s.tables.links,
      ((s.tables.artifact? l.artifactId).map survivorArtifactId).getD l.artifactId =
        l.artifactId := by
    intro l hl
    obtain ⟨a, ha, haid, hstatus⟩ := h.artifactRow hl
    rw [ha, Option.map_some, Option.getD_some, survivorArtifactId, hstatus, haid]
  unfold Tables.scopedIocIds Tables.seedArtifacts
  simp only [mem_dedup, mem_flatMap, mem_map, mem_filter, decide_eq_true_eq, h.mem_scopeLinks]
  constructor
  · rintro ⟨_, ⟨l, ⟨hl, hseed⟩, rfl⟩, m, ⟨hm, hart⟩, hid⟩
    exact ⟨l, hl, hseed, m, hm, hart.trans (hseeds l hl), hid⟩
  · rintro ⟨l, hl, hseed, m, hm, hart, hid⟩
    exact ⟨_, ⟨l, ⟨hl, hseed⟩, rfl⟩, m, ⟨hm, hart.trans (hseeds l hl).symm⟩, hid⟩

/-- The rows that the query for one IOC row finds. -/
theorem mem_linkedIocIds {s : Database} (h : s.tables.LinksResolved) {seed id : ℕ}
    (hpos : 0 < seed) :
    id ∈ ((findArtifactLinkedIocsByIocId true seed s.tables).map LinkedIocs.linkedIocIds).getD [] ↔
      s.tables.SameFile seed id := by
  unfold FileArtifacts.findArtifactLinkedIocsByIocId
  rw [if_neg (by simp; omega)]
  cases hfind : s.tables.links.find? fun l => decide (l.iocItemId = seed) with
  | none =>
    constructor
    · intro hid
      cases hid
    · rintro ⟨l, hl, hseed, -⟩
      have := find?_eq_none.mp hfind l hl
      simp [hseed] at this
  | some l =>
    have hl := mem_of_find?_eq_some hfind
    have hseed : l.iocItemId = seed := by simpa using find?_some hfind
    obtain ⟨a, ha, haid, hstatus⟩ := h.artifactRow hl
    simp only [Option.bind_eq_bind, Option.bind_some, ha, hstatus, followGuarded_active,
      Option.map_some, Option.getD_some, mem_distinctScopeLinks, haid]
    simp only [mem_map, h.mem_scopeLinks]
    constructor
    · rintro ⟨m, ⟨hm, hart⟩, hid⟩
      exact ⟨l, hl, hseed, m, hm, hart, hid⟩
    · rintro ⟨l', hl', hseed', m, hm, hart, hid⟩
      have hsame : l' = l := inj_on_of_nodup_map h.nodup_iocItemId hl' hl (hseed'.trans hseed.symm)
      exact ⟨m, ⟨hm, hsame ▸ hart⟩, hid⟩

/-- The query for one IOC row, with the row itself. -/
theorem mem_resolveArtifactScopedIocIds {s : Database} (h : s.tables.LinksResolved) {seed id : ℕ}
    (hpos : 0 < seed) :
    id ∈ resolveArtifactScopedIocIds true seed s.tables ↔
      id = seed ∨ s.tables.SameFile seed id := by
  have hids : ∀ x, x ∈ (((findArtifactLinkedIocsByIocId true seed s.tables).map
      LinkedIocs.linkedIocIds).getD []).filter (fun id => decide (0 < id)) ↔
        s.tables.SameFile seed x := by
    intro x
    rw [mem_filter, mem_linkedIocIds h hpos, decide_eq_true_eq]
    constructor
    · exact And.left
    · intro hsame
      refine ⟨hsame, ?_⟩
      obtain ⟨-, -, -, m, hm, -, rfl⟩ := hsame
      obtain ⟨ioc, hioc, hid, -⟩ := Tables.LinksResolved.iocRow hm
      exact hid ▸ h.ioc_pos ioc hioc
  unfold resolveArtifactScopedIocIds
  rw [if_neg (Nat.pos_iff_ne_zero.mp hpos)]
  simp only
  split
  · next hnil =>
    have hnone : ¬ s.tables.SameFile seed id := by
      rw [← hids, hnil]
      exact not_mem_nil
    simp [hnone]
  · rw [mem_dedup, mem_cons, hids]

/-- The batch query and the query for one IOC row give the same rows. -/
theorem scopedIocIds_agree {s : Database} (h : s.tables.LinksResolved) (readEnabled : Bool)
    {iocIds : List ℕ} {seed : ℕ} (hmem : seed ∈ iocIds) (hpos : 0 < seed) :
    ∃ ids, mapIocIdsToArtifactScopedIocIds readEnabled iocIds s.tables seed = some ids ∧
      ∀ id, id ∈ ids ↔ id ∈ resolveArtifactScopedIocIds readEnabled seed s.tables := by
  unfold mapIocIdsToArtifactScopedIocIds
  rw [if_pos ⟨hmem, hpos⟩]
  cases readEnabled with
  | false =>
    refine ⟨[seed], rfl, fun id => ?_⟩
    unfold resolveArtifactScopedIocIds
    rw [if_neg (Nat.pos_iff_ne_zero.mp hpos)]
    rfl
  | true =>
    refine ⟨_, rfl, fun id => ?_⟩
    rw [mem_foldl_addScoped (mem_singleton_self seed), mem_singleton,
      mem_scopedIocIds h, mem_resolveArtifactScopedIocIds h hpos]

/-- In every state that imports, attaching and merging reach from the empty database, all
resolvers find the same active artifact for every IOC row, and the two queries for the rows of
one file agree for every seed. -/
theorem readers_agree {s : Database} {operations : List StoreOperation}
    (hrun : Run StoreOperation.step StoreOperation.Admissible Database.empty operations s) :
    (∀ ioc ∈ s.tables.iocItems, ∃ file, ReadersAgree s ioc file) ∧
      ∀ readEnabled iocIds, ∀ seed ∈ iocIds, 0 < seed →
        ∃ ids, mapIocIdsToArtifactScopedIocIds readEnabled iocIds s.tables seed = some ids ∧
          ∀ id, id ∈ ids ↔ id ∈ resolveArtifactScopedIocIds readEnabled seed s.tables := by
  have hempty : Database.empty.tables.LinksResolved := ⟨nodup_nil, nodup_nil, nofun, nofun, nofun⟩
  have h : s.tables.LinksResolved := hrun.invariant
    (fun _ _ _ h hadmissible hstep => StoreOperation.linksResolved_step h hadmissible hstep) hempty
  constructor
  · intro ioc hioc
    by_cases hlinked : ∃ l ∈ s.tables.links, l.iocItemId = ioc.id
    · obtain ⟨l, hl, hid⟩ := hlinked
      exact ⟨_, readersAgree_of_link h hioc hl hid⟩
    · refine ⟨none, readersAgree_of_unlinked h hioc ?_⟩
      intro l hl hid
      exact hlinked ⟨l, hl, hid⟩
  · intro readEnabled iocIds seed hmem hpos
    exact scopedIocIds_agree h readEnabled hmem hpos

/-- The IOC row of an exact hash. -/
def hashIoc (id : ℕ) (hash : ExactHash) : IocRow :=
  ⟨id, id, hash.value, hash.hashType.text, none, "", 0, 0, 0⟩

/-- The call that links an IOC row of an exact hash. -/
def hashEnsure (ioc : IocRow) : EnsureInput :=
  ⟨ioc.id, ioc.publicId, ioc.observableType, ioc.observable, none, none, ioc.note, none, none,
    none, .direct, .sameSourceRecord, false, false⟩

/-- Two IOC rows of hashes, their two artifacts, and the merge of the two. -/
def mergedRows : List StoreOperation :=
  let md5 := hashIoc 1 plainMd5
  let sha1 := hashIoc 2 plainSha1
  [.importIoc md5, .importIoc sha1, .artifact (.ensure ⟨0, 1⟩ (hashEnsure md5)),
    .artifact (.ensure ⟨0, 2⟩ (hashEnsure sha1)),
    .artifact (.merge ⟨some 2, some 1, none, none, "null"⟩)]

/-- The readers agree after the merge. -/
theorem readers_agree_merged :
    ∃ s, Run StoreOperation.step StoreOperation.Admissible Database.empty mergedRows s ∧
      (∀ ioc ∈ s.tables.iocItems, ∃ file, ReadersAgree s ioc file) ∧
        ∀ readEnabled iocIds, ∀ seed ∈ iocIds, 0 < seed →
          ∃ ids, mapIocIdsToArtifactScopedIocIds readEnabled iocIds s.tables seed = some ids ∧
            ∀ id, id ∈ ids ↔ id ∈ resolveArtifactScopedIocIds readEnabled seed s.tables := by
  obtain ⟨s, hexec⟩ : ∃ s, Run.exec StoreOperation.step StoreOperation.Admissible
      Database.empty mergedRows = some s := Option.isSome_iff_exists.mp (by decide +kernel)
  exact ⟨s, .of_exec hexec, readers_agree (.of_exec hexec)⟩

end TalonHound.FileArtifacts
