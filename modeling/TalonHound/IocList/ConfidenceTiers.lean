import TalonHound.IocList.Confidence

/-!
# The tiers of a confidence

The resolution of an override, memberships and item rows finds the strongest level of three
tiers: the override, what is active, and what is inactive.
-/

namespace TalonHound.IocList

open List Tiers

/-- The level of a membership: its own confidence, or that of its feed. -/
def ConfidenceMembership.level (m : ConfidenceMembership) : Option ConfidenceLevel :=
  (normalizeConfidence m.explicitConfidence).or (normalizeConfidence m.feedDefaultConfidence)

/-- The entry confidence of a row of a feed. -/
def ConfidenceColumns.entryLevel (row : ConfidenceColumns) : Option ConfidenceLevel :=
  (legacyEntry row).map (·.2)

/-- A membership that is neither active nor purged. -/
def ConfidenceMembership.isInactive (m : ConfidenceMembership) : Bool :=
  m.purgedAt.isNone && decide (m.status ≠ .active ∧ m.status ≠ .purged)

section Levels

variable {m : ConfidenceMembership} {memberships : List ConfidenceMembership}
  {rows : List ConfidenceColumns} {activeOnly : Bool}

theorem membershipContext_value (m : ConfidenceMembership) :
    (membershipContext m).map (·.value) = m.level := by
  unfold membershipContext ConfidenceMembership.level
  split
  · next h => rw [h]; rfl
  · next h h' => rw [h, h']; rfl
  · next h h' => rw [h, h']; rfl

/-- A level text is read back. -/
theorem normalizeConfidence_text (level : Option ConfidenceLevel) :
    normalizeConfidence (level.map (·.text)) = level := by
  cases level with
  | none => decide +kernel
  | some level => cases level <;> decide +kernel

theorem filterConfidenceMemberships_active :
    filterConfidenceMemberships memberships false = memberships.filter isActiveFeedMembership := by
  apply filter_congr
  intro m _
  unfold isActiveFeedMembership
  cases m.purgedAt with
  | some date => simp
  | none => cases m.status <;> simp

theorem filterConfidenceMemberships_all : filterConfidenceMemberships memberships true =
      memberships.filter fun m => m.purgedAt.isNone && decide (m.status ≠ .purged) := by
  apply filter_congr
  intro m _
  unfold isActiveFeedMembership
  cases m.purgedAt with
  | some date => simp
  | none => cases m.status <;> simp

/-- The inactive memberships that the fallback uses. -/
theorem filterConfidenceMemberships_historical :
    (filterConfidenceMemberships memberships true).filter (fun m => !isActiveFeedMembership m) =
      memberships.filter (·.isInactive) := by
  rw [filterConfidenceMemberships_all, filter_filter]
  apply filter_congr
  intro m _
  unfold isActiveFeedMembership ConfidenceMembership.isInactive
  cases m.purgedAt with
  | some date => simp
  | none => cases m.status <;> simp

/-- A map of entries has their feeds in order of appearance, each with its greatest level. -/
structure IsLegacyMap (entries : List (String × ConfidenceLevel)) (map : LegacyMap) : Prop where
  keys : (map.map Prod.fst).Nodup
  mem : ∀ e ∈ map, e ∈ entries
  le : ∀ e ∈ entries, ∃ e' ∈ map, e'.1 = e.1 ∧ e.2 ≤ e'.2
  order : ∀ key key', (map.map Prod.fst).idxOf key < (map.map Prod.fst).idxOf key' ↔
    (entries.map Prod.fst).idxOf key < (entries.map Prod.fst).idxOf key'

variable {entries : List (String × ConfidenceLevel)} {map : LegacyMap}
  {e : String × ConfidenceLevel}

theorem IsLegacyMap.mem_keys (h : IsLegacyMap entries map) (key : String) :
    key ∈ map.map Prod.fst ↔ key ∈ entries.map Prod.fst := by
  constructor
  · rintro hkey
    obtain ⟨e, he, rfl⟩ := mem_map.mp hkey
    exact mem_map_of_mem (h.mem e he)
  · rintro hkey
    obtain ⟨e, he, rfl⟩ := mem_map.mp hkey
    obtain ⟨e', he', hsame, -⟩ := h.le e he
    exact hsame ▸ mem_map_of_mem he'

/-- A last element comes first of those that are new. -/
theorem idxOf_lt_append_singleton {keys : List String} {key key' last : String} :
    (keys ++ [last]).idxOf key < (keys ++ [last]).idxOf key' ↔
      keys.idxOf key < keys.idxOf key' ∨
        key = last ∧ key ∉ keys ∧ key' ∉ keys ∧ key' ≠ last := by
  have hlt : ∀ {k}, k ∈ keys → keys.idxOf k < keys.length := idxOf_lt_length_of_mem
  have hnot : ∀ {k}, k ∉ keys → keys.idxOf k = keys.length := idxOf_eq_length
  by_cases hkey : key ∈ keys <;> by_cases hkey' : key' ∈ keys
  · simp [idxOf_append, hkey, hkey']
  · simp only [idxOf_append, hkey, hkey', if_true, if_false, hnot hkey', not_true, false_and,
      and_false, or_false]
    have := hlt hkey
    omega
  · simp only [idxOf_append, hkey, hkey', if_true, if_false, hnot hkey, not_true, false_and,
      and_false, or_false]
    have := hlt hkey'
    omega
  · by_cases hl : key = last <;> by_cases hl' : key' = last <;>
      simp_all [idxOf_append]

/-- One entry more. -/
theorem IsLegacyMap.add (h : IsLegacyMap entries map) :
    IsLegacyMap (entries ++ [e]) (addLegacy map e) := by
  have hset : (∀ e' ∈ map, e'.1 = e.1 → e'.2 ≤ e.2) →
      IsLegacyMap (entries ++ [e]) (InsertionMap.set Prod.fst map e) := by
    intro hle
    refine ⟨InsertionMap.nodup_set h.keys, fun e' he' => ?_, fun e' he' => ?_, fun key key' => ?_⟩
    · rcases InsertionMap.mem_set.mp he' with rfl | ⟨he', -⟩
      · simp
      · exact mem_append_left _ (h.mem e' he')
    · rcases mem_append.mp he' with he' | he'
      · obtain ⟨held, hheld, hkey, hle'⟩ := h.le e' he'
        by_cases hsame : held.1 = e.1
        · exact ⟨e, InsertionMap.mem_set.mpr (.inl rfl), hsame.symm.trans hkey,
            hle'.trans (hle held hheld hsame)⟩
        · exact ⟨held, InsertionMap.mem_set.mpr (.inr ⟨hheld, hsame⟩), hkey, hle'⟩
      · rw [mem_singleton.mp he']
        exact ⟨e, InsertionMap.mem_set.mpr (.inl rfl), rfl, le_rfl⟩
    · rw [InsertionMap.map_key_set, map_append, map_singleton, idxOf_lt_append_singleton,
        ← h.order]
      split
      · next hold =>
        refine (or_iff_left ?_).symm
        rintro ⟨rfl, hnew, -⟩
        exact hnew ((h.mem_keys _).mp hold)
      · rw [idxOf_lt_append_singleton, h.mem_keys, h.mem_keys]
  unfold addLegacy
  split
  · next hnone =>
    refine hset fun e' he' hkey => ?_
    rw [find?_eq_none] at hnone
    exact absurd (decide_eq_true hkey) (hnone e' he')
  · next existing hexisting =>
    have hmem := mem_of_find?_eq_some hexisting
    have hkey : existing.1 = e.1 := by simpa using find?_some hexisting
    split
    · next hle =>
      refine hset fun e' he' hsame => ?_
      rwa [inj_on_of_nodup_map h.keys he' hmem (hsame.trans hkey.symm)]
    · next hlt =>
      have hold : e.1 ∈ entries.map Prod.fst := by
        rw [← hkey]
        exact (h.mem_keys _).mp (mem_map_of_mem hmem)
      refine ⟨h.keys, fun e' he' => mem_append_left _ (h.mem e' he'), fun e' he' => ?_,
        fun key key' => ?_⟩
      · rcases mem_append.mp he' with he' | he'
        · exact h.le e' he'
        · rw [mem_singleton.mp he']
          exact ⟨existing, hmem, hkey, (not_le.mp hlt).le⟩
      · rw [map_append, map_singleton, idxOf_lt_append_singleton, h.order]
        refine (or_iff_left ?_).symm
        rintro ⟨rfl, hnew, -⟩
        exact hnew hold

/-- The entries are added one by one. -/
theorem isLegacyMap_foldl (entries : List (String × ConfidenceLevel)) :
    IsLegacyMap entries (entries.foldl addLegacy []) := by
  induction entries using List.reverseRecOn with
  | nil => exact ⟨nodup_nil, by simp, by simp, fun _ _ => Iff.rfl⟩
  | append_singleton entries e ih =>
    rw [foldl_append, foldl_cons, foldl_nil]
    exact ih.add

/-- The greatest value of the map and the memberships is that of their rows. -/
theorem max?_legacy (levels : List ConfidenceLevel) (rows : List ConfidenceColumns)
    (activeOnly : Bool) :
    (levels ++ (buildLegacyExplicitMapFromIocRows rows activeOnly).map (·.2)).max? =
      (levels ++ (rows.filter fun row => !activeOnly || decide (row.status = .active)).filterMap
        (·.entryLevel)).max? := by
  rw [Greatest.max?_eq_iff]
  intro b
  have hmap := isLegacyMap_foldl ((rows.filter fun row =>
    !activeOnly || decide (row.status = .active)).filterMap legacyEntry)
  have hrows : (∃ x ∈ (buildLegacyExplicitMapFromIocRows rows activeOnly).map (·.2), b ≤ x) ↔
      ∃ e ∈ (rows.filter fun row =>
        !activeOnly || decide (row.status = .active)).filterMap legacyEntry, b ≤ e.2 := by
    constructor
    · rintro ⟨x, hx, hle⟩
      obtain ⟨e, he, rfl⟩ := mem_map.mp hx
      exact ⟨e, hmap.mem e he, hle⟩
    · rintro ⟨e, he, hle⟩
      obtain ⟨e', he', -, hle'⟩ := hmap.le e he
      exact ⟨e'.2, mem_map_of_mem he', hle.trans hle'⟩
  have hlevels : (∃ e ∈ (rows.filter fun row =>
      !activeOnly || decide (row.status = .active)).filterMap legacyEntry, b ≤ e.2) ↔
      ∃ x ∈ (rows.filter fun row => !activeOnly || decide (row.status = .active)).filterMap
        (·.entryLevel), b ≤ x := by
    simp only [mem_filterMap, ConfidenceColumns.entryLevel, Option.map_eq_some_iff]
    constructor
    · rintro ⟨e, ⟨row, hrow, he⟩, hle⟩
      exact ⟨e.2, ⟨row, hrow, e, he, rfl⟩, hle⟩
    · rintro ⟨x, ⟨row, hrow, e, he, rfl⟩, hle⟩
      exact ⟨e, ⟨row, hrow, he⟩, hle⟩
  simp only [mem_append, or_and_right, exists_or]
  rw [← hlevels, ← hrows]

/-- The level that memberships and entry confidences inherit. -/
theorem effective_compute (manual : Option String) (includeInactive : Bool) :
    (computeInheritedEffectiveConfidence manual memberships
      (buildLegacyExplicitMapFromIocRows rows activeOnly) includeInactive).effective =
      (normalizeConfidence manual).or
        (((if includeInactive then
            memberships.filter fun m => m.purgedAt.isNone && decide (m.status ≠ .purged)
          else memberships.filter isActiveFeedMembership).filterMap (·.level)) ++
          (rows.filter fun row => !activeOnly || decide (row.status = .active)).filterMap
            (·.entryLevel)).max? := by
  unfold computeInheritedEffectiveConfidence
  cases normalizeConfidence manual with
  | some level => rfl
  | none =>
    dsimp only
    rw [Option.none_or, ← max?_legacy]
    generalize (if includeInactive = true then _ else _ : List ConfidenceMembership) = eligible
    have hlevels : eligible.filterMap (·.level) =
        (eligible.filterMap membershipContext).map (·.value) := by
      rw [map_filterMap]
      apply filterMap_congr
      intro m _
      exact (membershipContext_value m).symm
    have hlegacy : (buildLegacyExplicitMapFromIocRows rows activeOnly).map (·.2) =
        ((buildLegacyExplicitMapFromIocRows rows activeOnly).map legacyContext).map
          (·.value) := by
      rw [map_map]
      rfl
    rw [hlevels, hlegacy, ← map_append, ← map_foldl_keepGreatest]
    cases (List.foldl (keepGreatest fun c : ConfidenceContext => c.value) none
      (eligible.filterMap membershipContext ++
        (buildLegacyExplicitMapFromIocRows rows activeOnly).map legacyContext)) with
    | none => rfl
    | some c => rfl

/-- The tiers that are resolved from an override, memberships and item rows. -/
def resolutionTiers (override : Option String) (memberships : List ConfidenceMembership)
    (rows : List ConfidenceColumns) : List (List ConfidenceLevel) :=
  [(normalizeConfidence override).toList,
    (memberships.filter isActiveFeedMembership).filterMap (·.level) ++
      (rows.filter fun row => decide (row.status = .active)).filterMap (·.entryLevel),
    if override.getD "" = "" ∧ memberships.filter (·.isInactive) ≠ [] then
      (memberships.filter (·.isInactive)).filterMap (·.level) ++
        (rows.filter fun row => decide (row.status ≠ .active)).filterMap (·.entryLevel)
    else []]

theorem max?_toList (level : Option ConfidenceLevel) : level.toList.max? = level := by
  cases level <;> rfl

/-- The resolution finds the strongest level of its tiers. -/
theorem effective_resolve (override : Option String) (memberships : List ConfidenceMembership)
    (rows : List ConfidenceColumns) :
    (resolveIocConfidenceFromMemberships override memberships rows true).1.effective =
      strongest (resolutionTiers override memberships rows) := by
  have hactive : (computeInheritedEffectiveConfidence override
      (filterConfidenceMemberships memberships false) (buildLegacyExplicitMapFromIocRows
        (rows.filter fun row => decide (row.status = .active)) true) false).effective =
      (normalizeConfidence override).or ((memberships.filter isActiveFeedMembership).filterMap
        (·.level) ++ (rows.filter fun row => decide (row.status = .active)).filterMap
          (·.entryLevel)).max? := by
    rw [effective_compute, filterConfidenceMemberships_active]
    simp only [Bool.false_eq_true, if_false, filter_filter, Bool.and_self, Bool.not_true,
      Bool.false_or]
  have hhistorical : (computeInheritedEffectiveConfidence none (memberships.filter (·.isInactive))
      (buildLegacyExplicitMapFromIocRows
        (rows.filter fun row => decide (row.status ≠ .active)) false) true).effective =
      ((memberships.filter (·.isInactive)).filterMap (·.level) ++
        (rows.filter fun row => decide (row.status ≠ .active)).filterMap (·.entryLevel)).max? := by
    have hnone : normalizeConfidence none = none := by decide +kernel
    rw [effective_compute, hnone, Option.none_or, if_pos rfl, filter_filter]
    have hsame : ∀ m : ConfidenceMembership, ((m.purgedAt.isNone && decide (m.status ≠ .purged)) &&
        m.isInactive) = m.isInactive := by
      intro m
      unfold ConfidenceMembership.isInactive
      cases m.purgedAt with
      | some date => simp
      | none => cases m.status <;> simp
    simp only [hsame, Bool.not_false, Bool.true_or, filter_true]
  unfold resolveIocConfidenceFromMemberships resolutionTiers strongest strongest strongest strongest
  dsimp only
  rw [filterConfidenceMemberships_historical, max?_toList, Option.or_none]
  split
  · next hfallback =>
    obtain ⟨hempty, hnone, -⟩ := hfallback
    rw [hactive] at hnone
    obtain ⟨hmanual, hactiveNone⟩ := Option.or_eq_none_iff.mp hnone
    rw [hmanual, hactiveNone, Option.none_or, Option.none_or]
    split
    · next hno =>
      have htier : ¬(override.getD "" = "" ∧ memberships.filter (·.isInactive) ≠ []) :=
        fun h => h.2 hno
      rw [if_neg htier, hactive, hnone]
      rfl
    · next hsome =>
      have htier : override.getD "" = "" ∧ memberships.filter (·.isInactive) ≠ [] := ⟨hempty, hsome⟩
      split
      · exact hhistorical
      · next hlevel =>
        rw [Option.not_isSome_iff_eq_none, hhistorical] at hlevel
        rw [hactive, hnone, hlevel]
  · next hfallback =>
    rw [hactive]
    cases hlevel : (normalizeConfidence override).or ((memberships.filter
        isActiveFeedMembership).filterMap (·.level) ++ (rows.filter fun row =>
          decide (row.status = .active)).filterMap (·.entryLevel)).max? with
    | some level => rw [← Option.or_assoc, hlevel, Option.some_or]
    | none =>
      rw [← Option.or_assoc, hlevel, Option.none_or]
      rw [hactive, hlevel] at hfallback
      have htier : ¬(override.getD "" = "" ∧ memberships.filter (·.isInactive) ≠ []) :=
        fun h => hfallback ⟨h.1, rfl, rfl⟩
      rw [if_neg htier]
      rfl

/-- Without a level there is no override. -/
theorem manual_of_resolutionTiers {override : Option String}
    (h : strongest (resolutionTiers override memberships rows) = none) :
    normalizeConfidence override = none := by
  cases hmanual : normalizeConfidence override with
  | none => rfl
  | some level =>
    unfold resolutionTiers at h
    rw [hmanual, strongest, max?_toList, Option.some_or] at h
    cases h

end Levels

end TalonHound.IocList
