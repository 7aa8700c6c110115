import TalonHound.FileArtifacts.RecordAttach

/-!
# Merging the artifacts of a provider record

The merges that a call makes when its record spans several artifacts: when no two of them
hold hashes of one type they all return, and every hash of one of them ends at the canonical
one.
-/

namespace TalonHound.FileArtifacts

open Returns Option List

namespace Placement

variable {p p' p'' : Placement} {c d root : ArtifactId} {h : ExactHash}

/-- After a merge the hashes of the duplicate resolve to the canonical artifact. -/
theorem resolves_merge (hc : p.mergedInto c = none) (hd : p.mergedInto d = none) (hne : c ≠ d) :
    (p.merge c d).Resolves h root ↔ ∃ root₀, p.Resolves h root₀ ∧ root = redirect c d root₀ := by
  unfold Resolves
  rw [mergedInto_merge]
  constructor
  · rintro ⟨x', n, hx', hlead⟩
    obtain ⟨x, hx, rfl⟩ := map_eq_some_iff.mp hx'
    by_cases hxd : x = d
    · subst hxd
      rw [redirect, if_pos rfl] at hlead
      have hcroot : linkUnder p.mergedInto x c c = none := by
        rw [linkUnder, Function.update_of_ne hne, hc]
      obtain ⟨-, rfl⟩ := hlead.of_root hcroot
      exact ⟨x, ⟨x, 0, hx, .root hd⟩, (if_pos rfl).symm⟩
    · rw [redirect, if_neg hxd] at hlead
      obtain ⟨m, root₀, hlead₀, hroot⟩ := hlead.of_link hd hc hne
      exact ⟨root₀, ⟨x, m, hx, hlead₀⟩, hroot⟩
  · rintro ⟨root₀, ⟨x, n, hx, hlead⟩, rfl⟩
    have hlinked := hlead.link hd hc hne
    refine ⟨redirect c d x, ?_⟩
    by_cases hxd : x = d
    · subst hxd
      obtain ⟨-, rfl⟩ := hlead.of_root hd
      refine ⟨0, ?_, ?_⟩
      · change (p.hash h).map _ = _
        rw [hx]
        rfl
      · rw [redirect, if_pos rfl]
        exact .root (by rw [linkUnder, Function.update_of_ne hne, hc])
    · refine ⟨if root₀ = d then n + 1 else n, ?_, ?_⟩
      · change (p.hash h).map _ = _
        rw [hx]
        rfl
      · unfold redirect
        rw [if_neg hxd]
        exact hlinked

/-- A hash on an artifact after a merge was there, or came with the duplicate. -/
theorem hash_of_merge {x : ArtifactId} (hx : (p.merge c d).hash h = some x) :
    p.hash h = some x ∨ x = c ∧ p.hash h = some d := by
  obtain ⟨y, hy, hyx⟩ := map_eq_some_iff.mp hx
  unfold redirect at hyx
  split at hyx
  · next hyd => exact .inr ⟨hyx.symm, hyd ▸ hy⟩
  · exact .inl (hyx ▸ hy)

/-- Hashes were only brought from artifact to artifact, and stayed at the end of a chain that
they were at the end of. -/
def Joined (p p' : Placement) : Prop :=
  ∃ ρ : ArtifactId → ArtifactId, (∀ h, p'.hash h = (p.hash h).map ρ) ∧
    ∀ h root, p.Resolves h root → p'.Resolves h (ρ root)

theorem Joined.of_eq (h : p' = p) : Joined p p' := by
  refine ⟨id, ?_, ?_⟩
  · intro g
    rw [h, map_id_apply]
  · intro g root hroot
    rwa [h]

theorem Joined.trans (h : Joined p p') (h' : Joined p' p'') : Joined p p'' := by
  obtain ⟨ρ, hhash, hresolves⟩ := h
  obtain ⟨ρ', hhash', hresolves'⟩ := h'
  refine ⟨ρ' ∘ ρ, ?_, ?_⟩
  · intro g
    rw [hhash', hhash, Option.map_map]
  · intro g root hroot
    exact hresolves' g _ (hresolves g root hroot)

theorem Joined.merge (hc : p.mergedInto c = none) (hd : p.mergedInto d = none) (hne : c ≠ d) :
    Joined p (p.merge c d) :=
  ⟨redirect c d, fun _ => rfl, fun _ root hroot => (resolves_merge hc hd hne).mpr ⟨root, hroot, rfl⟩⟩

variable {g : ExactHash}

/-- Hashes that resolve to one artifact stay so. -/
theorem Joined.follows (h : Joined p p') {g' : ExactHash} {z : ArtifactId} (hg : p.Resolves g root)
    (hg' : p.Resolves g' root) (hresolves : p'.Resolves g z) : p'.Resolves g' z := by
  obtain ⟨ρ, -, hkeeps⟩ := h
  rw [hresolves.unique (hkeeps g root hg)]
  exact hkeeps g' root hg'

/-- Only bound hashes are bound afterwards. -/
theorem Joined.hash_eq_none (h : Joined p p') (hg : p.hash g = none) : p'.hash g = none := by
  obtain ⟨ρ, hhash, -⟩ := h
  rw [hhash, hg, map_none]

/-- Two hashes at the end of one chain stay together. -/
theorem Joined.together (h : Joined p p') {g' : ExactHash} {x y z : ArtifactId}
    (hg : p.hash g = some x) (hg' : p.hash g' = some y) (hx : p.mergedInto x = none)
    (hy : p.mergedInto y = none) (hresolves : p'.Resolves g z) (hresolves' : p'.Resolves g' z) :
    p'.hash g = some z ∧ p'.hash g' = some z := by
  obtain ⟨ρ, hhash, hkeeps⟩ := h
  have hgz := hkeeps g x ⟨x, 0, hg, .root hx⟩
  have hgz' := hkeeps g' y ⟨y, 0, hg', .root hy⟩
  rw [hhash, hg, hhash, hg', map_some, map_some, hgz.unique hresolves, hgz'.unique hresolves']
  exact ⟨rfl, rfl⟩

end Placement

variable {s s' : Database} {c d : ArtifactId}

/-- The rows of two artifacts are the hashes placed on them. -/
theorem typesDisjoint_iff : s.tables.TypesDisjoint c d ↔ s.tables.placement.TypesDisjoint c d := by
  constructor
  · intro h g g' hg hg'
    obtain ⟨row, hrow, hart⟩ := Tables.placement_hash_eq_some.mp hg
    obtain ⟨row', hrow', hart'⟩ := Tables.placement_hash_eq_some.mp hg'
    obtain ⟨hmem, rfl⟩ := Rows.mem_of_lookup hrow
    obtain ⟨hmem', rfl⟩ := Rows.mem_of_lookup hrow'
    exact h row hmem row' hmem' hart hart'
  · intro h row hrow row' hrow' hart hart'
    apply h row.hash row'.hash
    · exact Tables.placement_hash_eq_some.mpr
        ⟨row, (Rows.lookup_eq_some s.unique.hash_value).mpr ⟨hrow, rfl⟩, hart⟩
    · exact Tables.placement_hash_eq_some.mpr
        ⟨row', (Rows.lookup_eq_some s.unique.hash_value).mpr ⟨hrow', rfl⟩, hart'⟩

/-- Two active artifacts without a common hash type merge. -/
theorem mergeFileArtifacts_active (input : MergeInput) (hc : s.tables.IsActive c)
    (hd : s.tables.IsActive d) (hne : c ≠ d) (htypes : s.tables.placement.TypesDisjoint c d)
    (hinput : input.canonicalArtifactId = some c ∧ input.duplicateArtifactId = some d) :
    ∃ result s', Returns (mergeFileArtifacts input) s result s' ∧
      s'.tables.placement = s.tables.placement.merge c d ∧
      s'.tables.iocItems = s.tables.iocItems := by
  obtain ⟨result, s', h⟩ := (mergeFileArtifacts_returns_iff hc hd hne hinput).mpr
    (typesDisjoint_iff.mpr htypes)
  obtain ⟨canonical, hcanonical, hactive⟩ := hc
  obtain ⟨duplicate, hduplicate, hactive'⟩ := hd
  refine ⟨result, s', h, ?_⟩
  unfold Returns at h
  rw [mergeFileArtifacts_eq hne hcanonical hactive hduplicate hactive' hinput] at h
  exact (performMerge_placement hne hcanonical hduplicate h).2

/-- An artifact is active where it is placed as such. -/
theorem isActive_iff_status {id : ArtifactId} :
    s.tables.IsActive id ↔ s.tables.placement.status id = some .active := by
  change _ ↔ (s.tables.artifact? id).map Artifact.status = _
  rw [map_eq_some_iff]
  rfl

/-- What the loop of merges into `c` leaves. -/
structure MergedInto (c : ArtifactId) (ids : List ArtifactId) (p p' : Placement) : Prop where
  active : p'.status c = some .active
  resolves : ∀ h root, p'.Resolves h root ↔
    ∃ root₀, p.Resolves h root₀ ∧ root = if root₀ ∈ ids then c else root₀

variable {ids : List ArtifactId} {a : ArtifactId}

/-- The loop merges active artifacts of which no two hold hashes of one type. -/
theorem mergeCandidates_returns (input : DualWriteInput) (hnodup : ids.Nodup)
    (hc : s.tables.IsActive c) (hids : ∀ id ∈ ids, s.tables.IsActive id)
    (htypes : ∀ x ∈ c :: ids, ∀ y ∈ c :: ids, x ≠ y → s.tables.placement.TypesDisjoint x y) :
    ∃ s', Returns (ids.forM (mergeCandidate input c)) s ⟨⟩ s' ∧
      MergedInto c ids s.tables.placement s'.tables.placement ∧
      s'.tables.iocItems = s.tables.iocItems := by
  induction ids generalizing s with
  | nil =>
    refine ⟨s, pure_iff.mpr ⟨rfl, rfl⟩, ⟨isActive_iff_status.mp hc, ?_⟩, rfl⟩
    intro h root
    simp
  | cons id ids ih =>
    obtain ⟨hfresh, hrest⟩ := nodup_cons.mp hnodup
    have hidActive := hids id (mem_cons_self ..)
    by_cases hidc : id = c
    · -- the canonical artifact itself
      obtain ⟨s', hloop, hmerged, hioc⟩ := ih hrest hc
        (fun x hx => hids x (.tail _ hx)) (by
          intro x hx y hy
          apply htypes
          · exact mem_cons.mpr ((mem_cons.mp hx).imp_right (mem_cons_of_mem _))
          · exact mem_cons.mpr ((mem_cons.mp hy).imp_right (mem_cons_of_mem _)))
      refine ⟨s', ?_, ⟨hmerged.active, ?_⟩, hioc⟩
      · have hskip : Returns (mergeCandidate input c id) s ⟨⟩ s := by
          unfold mergeCandidate
          rw [if_pos hidc]
          exact pure_iff.mpr ⟨rfl, rfl⟩
        change Returns (mergeCandidate input c id >>= fun _ => ids.forM (mergeCandidate input c))
          s ⟨⟩ s'
        rwa [bind_of hskip]
      · intro h root
        rw [hmerged.resolves]
        apply exists_congr
        intro root₀
        apply and_congr_right
        intro _
        by_cases hmem : root₀ ∈ ids
        · rw [if_pos hmem, if_pos (.tail _ hmem)]
        · rw [if_neg hmem]
          by_cases hrootc : root₀ = c
          · rw [if_pos (by rw [hrootc, hidc]; exact mem_cons_self ..), hrootc]
          · rw [if_neg]
            intro hmem'
            rcases mem_cons.mp hmem' with heq | hmem'
            · exact hrootc (heq.trans hidc)
            · exact hmem hmem'
    · have hcid : c ≠ id := Ne.symm hidc
      have hmem : ∀ x ∈ c :: ids, x ∈ c :: id :: ids := by
        intro x hx
        exact mem_cons.mpr ((mem_cons.mp hx).imp_right (mem_cons_of_mem _))
      have hidmem : id ∈ c :: id :: ids := mem_cons_of_mem _ (mem_cons_self ..)
      have hne : ∀ x ∈ c :: ids, x ≠ id := by
        rintro x hx rfl
        rcases mem_cons.mp hx with heq | hx
        · exact hidc heq
        · exact hfresh hx
      obtain ⟨result, s₁, hmerge, hplacement, hioc₁⟩ := mergeFileArtifacts_active {
          canonicalArtifactId := some c
          duplicateArtifactId := some id
          evidence := none
          method := some "\"provider_exact_hash_set\""
          mergedAt := input.mergedAt } hc hidActive hcid
        (htypes c (mem_cons_self ..) id hidmem hcid) ⟨rfl, rfl⟩
      have hactive₁ : ∀ x ∈ c :: ids, s.tables.IsActive x → s₁.tables.IsActive x := by
        intro x hx hxactive
        rw [isActive_iff_status, hplacement]
        change Function.update _ _ _ x = _
        rw [Function.update_of_ne (hne x hx)]
        exact isActive_iff_status.mp hxactive
      have htypes₁ : ∀ x ∈ c :: ids, ∀ y ∈ c :: ids, x ≠ y →
          s₁.tables.placement.TypesDisjoint x y := by
        intro x hx y hy hxy g g' hg hg'
        rw [hplacement] at hg hg'
        rcases Placement.hash_of_merge hg with hold | ⟨hxc, hold⟩
        · rcases Placement.hash_of_merge hg' with hold' | ⟨hyc, hold'⟩
          · exact htypes x (hmem x hx) y (hmem y hy) hxy g g' hold hold'
          · exact htypes x (hmem x hx) id hidmem (hne x hx) g g' hold hold'
        · rcases Placement.hash_of_merge hg' with hold' | ⟨hyc, hold'⟩
          · exact htypes id hidmem y (hmem y hy) (Ne.symm (hne y hy)) g g' hold hold'
          · exact absurd (hxc.trans hyc.symm) hxy
      obtain ⟨s', hloop, hmerged, hioc⟩ := ih hrest (hactive₁ c (mem_cons_self ..) hc)
        (fun x hx => hactive₁ x (.tail _ hx) (hids x (.tail _ hx))) htypes₁
      refine ⟨s', ?_, ⟨hmerged.active, ?_⟩, hioc.trans hioc₁⟩
      · have hturn : Returns (mergeCandidate input c id) s ⟨⟩ s₁ := by
          unfold mergeCandidate
          rw [if_neg hidc, bind_of hmerge]
          exact pure_iff.mpr ⟨rfl, rfl⟩
        change Returns (mergeCandidate input c id >>= fun _ => ids.forM (mergeCandidate input c))
          s ⟨⟩ s'
        rwa [bind_of hturn]
      · have hcroot : s.tables.placement.mergedInto c = none := by
          rw [Tables.placement_mergedInto]
          exact (Tables.isActive_iff.mp hc).2
        have hidroot : s.tables.placement.mergedInto id = none := by
          rw [Tables.placement_mergedInto]
          exact (Tables.isActive_iff.mp hidActive).2
        have hmove : ∀ root₀, (if redirect c id root₀ ∈ ids then c else redirect c id root₀) =
            if root₀ ∈ id :: ids then c else root₀ := by
          intro root₀
          unfold redirect
          by_cases hrootid : root₀ = id
          · simp [hrootid]
          · simp [hrootid]
        intro h root
        rw [hmerged.resolves, hplacement]
        simp only [Placement.resolves_merge hcroot hidroot hcid]
        constructor
        · rintro ⟨_, ⟨root₀, hroot₀, rfl⟩, rfl⟩
          exact ⟨root₀, hroot₀, hmove root₀⟩
        · rintro ⟨root₀, hroot₀, rfl⟩
          exact ⟨_, ⟨root₀, hroot₀, rfl⟩, (hmove root₀).symm⟩

/-- Among active artifacts one is selected. -/
theorem exists_selectCanonicalArtifact (ha : s.tables.IsActive a) (hmem : a ∈ ids) :
    ∃ canonical, selectCanonicalArtifact (s.tables.canonicalCandidates ids) = some canonical ∧
      canonical.id ∈ ids := by
  obtain ⟨row, hrow, hactive⟩ := ha
  obtain ⟨hrowmem, hrowid⟩ := Rows.mem_of_lookup hrow
  have hcandidates : s.tables.canonicalCandidates ids ≠ [] := by
    unfold Tables.canonicalCandidates
    rw [Ne, map_eq_nil_iff, filter_eq_nil_iff]
    intro hnone
    apply hnone row hrowmem
    rw [decide_eq_true_eq]
    exact ⟨hrowid ▸ hmem, hactive⟩
  unfold selectCanonicalArtifact
  generalize hsorted : (s.tables.canonicalCandidates ids).insertionSort
    (fun a b => a.rank ≤ b.rank) = sorted
  have hperm : ∀ c, c ∈ sorted ↔ c ∈ s.tables.canonicalCandidates ids := by
    intro c
    rw [← hsorted, mem_insertionSort]
  cases sorted with
  | nil =>
    obtain ⟨c, hc⟩ := exists_mem_of_ne_nil _ hcandidates
    exact absurd ((hperm c).mpr hc) not_mem_nil
  | cons canonical rest =>
    refine ⟨canonical, rfl, ?_⟩
    obtain ⟨row', hrow', rfl⟩ := mem_map.mp ((hperm canonical).mp (mem_cons_self ..))
    exact (of_decide_eq_true (mem_filter.mp hrow').2).1

/-- A statement under a savepoint always returns. -/
theorem exists_returns_attempt {α : Type} (x : Db α) (s : Database) :
    ∃ result s', Returns (attempt x) s result s' := by
  unfold Returns attempt
  cases x s with
  | ok a s' => exact ⟨_, _, rfl⟩
  | error e s' => exact ⟨_, _, rfl⟩

/-- The artifacts that a call merges into its own are those that the sibling pass found. -/
theorem mem_collectProviderMergeTargetIds (hnot : a ∉ ids) (id : ArtifactId) :
    id ∈ collectProviderMergeTargetIds a (some (.needsMergeWith ids)) ↔ id ∈ ids := by
  change id ∈ (distinctIds ids).filter (fun id => decide (id ≠ a)) ↔ _
  rw [mem_filter, mem_distinctIds, decide_eq_true_eq]
  constructor
  · exact And.left
  · intro hid
    refine ⟨hid, ?_⟩
    rintro rfl
    exact hnot hid

/-- What the merges of a call leave: its artifact and the others are one. -/
theorem mergeProviderTargets_returns (input : DualWriteInput) (hne : ids ≠ []) (hnot : a ∉ ids)
    (hactive : ∀ id ∈ a :: ids, s.tables.IsActive id)
    (htypes : ∀ x ∈ a :: ids, ∀ y ∈ a :: ids, x ≠ y → s.tables.placement.TypesDisjoint x y) :
    ∃ c ∈ a :: ids, ∃ s', Returns (mergeProviderTargets input a (some (.needsMergeWith ids))) s c
        s' ∧
      MergedInto c (a :: ids) s.tables.placement s'.tables.placement ∧
      s'.tables.iocItems = s.tables.iocItems := by
  have hmergeIds : ∀ id, id ∈ collectProviderMergeTargetIds a (some (.needsMergeWith ids)) ↔
      id ∈ ids := mem_collectProviderMergeTargetIds hnot
  have hnonempty : collectProviderMergeTargetIds a (some (.needsMergeWith ids)) ≠ [] := by
    obtain ⟨id, hid⟩ := exists_mem_of_ne_nil _ hne
    exact ne_nil_of_mem ((hmergeIds id).mpr hid)
  have hnodup : (a :: collectProviderMergeTargetIds a (some (.needsMergeWith ids))).Nodup := by
    apply nodup_cons.mpr
    refine ⟨fun hmem => hnot ((hmergeIds a).mp hmem), ?_⟩
    exact (nodup_distinctIds ids).filter _
  unfold mergeProviderTargets
  simp only
  generalize collectProviderMergeTargetIds a (some (.needsMergeWith ids)) = mergeIds at *
  have hmem : ∀ id, id ∈ a :: mergeIds ↔ id ∈ a :: ids := by
    intro id
    rw [mem_cons, mem_cons, hmergeIds]
  rw [if_neg hnonempty]
  simp only [bind_of (returns_query.mpr ⟨rfl, rfl⟩)]
  obtain ⟨canonical, hselect, hcanonical⟩ := exists_selectCanonicalArtifact
    (hactive a (mem_cons_self ..)) (mem_cons_self (l := mergeIds))
  simp only [hselect]
  have hcids : canonical.id ∈ a :: ids := (hmem _).mp hcanonical
  obtain ⟨s₁, hloop, hmerged, hioc⟩ := mergeCandidates_returns input hnodup
    (hactive canonical.id hcids) (fun id hid => hactive id ((hmem id).mp hid)) (by
      intro x hx y hy
      apply htypes
      · rcases mem_cons.mp hx with rfl | hx
        · exact hcids
        · exact (hmem x).mp hx
      · rcases mem_cons.mp hy with rfl | hy
        · exact hcids
        · exact (hmem y).mp hy)
  obtain ⟨resolved, s', hattempt⟩ := exists_returns_attempt (resolveOpenProviderHashSetConflicts
    (lowerCase input.observableType) (lowerCase input.observable)) s₁
  obtain ⟨hplacement, hioc'⟩ := attempt_resolve_effect hattempt
  refine ⟨canonical.id, hcids, s', ?_, ?_, hioc'.trans hioc⟩
  · rw [bind_of hloop, bind_of hattempt]
    exact pure_iff.mpr ⟨rfl, rfl⟩
  · rw [hplacement]
    refine ⟨hmerged.active, fun h root => ?_⟩
    simp only [hmerged.resolves, hmem]

/-- The merges of a call join hashes. -/
theorem mergeProviderTargets_joined {input : DualWriteInput} {result : ArtifactId}
    {siblings : Option SiblingResult}
    (h : Returns (mergeProviderTargets input a siblings) s result s') :
    s.tables.placement.Joined s'.tables.placement := by
  refine mergeProviderTargets_invariant
    (I := fun s₁ => s.tables.placement.Joined s₁.tables.placement) ?_ ?_ h (.of_eq rfl)
  · intro s₁ c d s₂ hjoined heffect
    cases heffect with
    | unchanged => exact hjoined
    | merged n m rc rd hc hd hactive hactive' hne htypes hplacement hioc =>
      rw [hplacement]
      apply hjoined.trans
      apply Placement.Joined.merge _ _ hne
      · rw [Tables.placement_mergedInto]
        exact hc.isRoot
      · rw [Tables.placement_mergedInto]
        exact hd.isRoot
  · intro s₁ s₂ hjoined hplacement _
    rwa [hplacement]

end TalonHound.FileArtifacts
