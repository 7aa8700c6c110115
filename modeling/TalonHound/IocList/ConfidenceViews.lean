import TalonHound.IocList.ConfidenceTiers

/-!
# Confidence in the list and in the details

Each view shows the strongest level of the evidence that it counts, by tiers. They agree when in
the first tier that has a level for either they count the same evidence. Where they do not, other
levels of the same evidence make them differ.
-/

namespace TalonHound.IocList

open List Tiers

/-- What a view may count. -/
inductive Evidence where
  | override (value : Option String)
  | membership (m : ConfidenceMembership)
  | entry (row : ConfidenceColumns)
  | item (confidence : Option String)
  deriving DecidableEq

/-- An override goes first, then what is active, then what is inactive, then the item. -/
def Evidence.tier : Evidence → ℕ
  | .override _ => 3
  | .membership m => if m.status = .active then 2 else 1
  | .entry row => if row.status = .active then 2 else 1
  | .item _ => 0

/-- The level of a piece of evidence. -/
def Evidence.level : Evidence → Option ConfidenceLevel
  | .override value => normalizeConfidence value
  | .membership m => m.level
  | .entry row => row.entryLevel
  | .item confidence => normalizeConfidence confidence

namespace ConfidenceTables

variable (t : ConfidenceTables)

/-- What the list counts: the memberships of all linked ids whose status is not `purged`, the
inactive ones unless a text stands as the override. -/
def listEvidence (linkedBySeed : ℕ → Option (List ℕ)) (seed : ConfidenceItem) : List Evidence :=
  let group := linkedGroup linkedBySeed seed.id
  let memberships := t.groupMemberships group
  .override seed.analystConfidenceOverride ::
    (memberships.filter fun m => decide (m.status = .active ∨
      m.status ≠ .purged ∧ seed.analystConfidenceOverride.getD "" = "")).map .membership ++
    if 0 < t.activeSourceCount group ∨ ∃ m ∈ memberships, m.status ≠ .purged then
      [.item seed.confidence]
    else []

/-- What the details count: the memberships of the type of the seed that were not purged, and
the entry confidences of the rows, of inactive rows only beside an inactive membership. -/
def detailEvidence (rows : List ConfidenceItem) (seed : ConfidenceItem) : List Evidence :=
  let memberships := (t.detailMemberships rows seed).filter fun m =>
    m.purgedAt.isNone && decide (m.status ≠ .purged)
  .override seed.analystConfidenceOverride :: memberships.map .membership ++
    ((rows.map (·.toConfidenceColumns)).filter fun row =>
      decide (row.status = .active ∨ ∃ m ∈ memberships, m.status ≠ .active)).map .entry ++
    if memberships ≠ [] ∨ ∃ row ∈ rows, row.iocSourceId.isSome = true then
      [.item seed.confidence]
    else []

end ConfidenceTables

/-- The strongest level of the evidence. -/
def shownLevel (evidence : List Evidence) : Option ConfidenceLevel :=
  strongest (tiersOf Evidence.tier Evidence.level 4 evidence)

theorem tiersOf_four (evidence : List Evidence) :
    tiersOf Evidence.tier Evidence.level 4 evidence =
      [levelsAt Evidence.tier Evidence.level evidence 3,
        levelsAt Evidence.tier Evidence.level evidence 2,
        levelsAt Evidence.tier Evidence.level evidence 1,
        levelsAt Evidence.tier Evidence.level evidence 0] := rfl

section Filters

variable {σ : Type*} {l : List σ} {p q : σ → Prop} [DecidablePred p] [DecidablePred q]

theorem filter_or_self : (l.filter fun a => decide (p a ∨ q a)).filter (fun a => decide (p a)) =
    l.filter fun a => decide (p a) := by
  rw [filter_filter]
  refine filter_congr fun a _ => ?_
  by_cases h : p a <;> simp [h]

theorem filter_or_not : (l.filter fun a => decide (p a ∨ q a)).filter (fun a => decide (¬ p a)) =
    l.filter fun a => decide (¬ p a ∧ q a) := by
  rw [filter_filter]
  refine filter_congr fun a _ => ?_
  by_cases h : p a <;> simp [h]

theorem filterMap_singleton {τ : Type*} (f : σ → Option τ) (a : σ) : [a].filterMap f = (f a).toList := by
  cases h : f a <;> simp [h]

end Filters

/-- The tiers of evidence that is given kind by kind. -/
theorem shownLevel_kinds (override : Option String) (memberships : List ConfidenceMembership)
    (rows : List ConfidenceColumns) (items : List (Option String)) :
    shownLevel (.override override :: memberships.map .membership ++ rows.map .entry ++ items.map .item) =
      strongest [(normalizeConfidence override).toList,
        (memberships.filter fun m => decide (m.status = .active)).filterMap (·.level) ++
          (rows.filter fun row => decide (row.status = .active)).filterMap (·.entryLevel),
        (memberships.filter fun m => decide (m.status ≠ .active)).filterMap (·.level) ++
          (rows.filter fun row => decide (row.status ≠ .active)).filterMap (·.entryLevel),
        items.filterMap normalizeConfidence] := by
  have htier : ∀ (p : Prop) [Decidable p] (i : ℕ), ((if p then 2 else 1) = i) =
      if p then 2 = i else 1 = i := fun p _ i => by split <;> rfl
  unfold shownLevel
  rw [tiersOf_four]
  simp only [levelsAt, cons_append, filterMap_cons, filterMap_append, filterMap_map,
    filterMap_filter, Function.comp_def, Evidence.tier, Evidence.level, htier]
  cases normalizeConfidence override <;> simp

/-- The item of a page stands for a row: its columns are missing or those of the row. -/
structure ListItem.Shows (it : ListItem) (seed : ConfidenceItem) : Prop where
  id : it.id = seed.id
  confidence : it.confidence = none ∨ it.confidence = seed.confidence
  override : it.analystConfidenceOverride = none ∨
    it.analystConfidenceOverride = seed.analystConfidenceOverride

section Views

variable {t : ConfidenceTables} {linkedBySeed : ℕ → Option (List ℕ)} {it : ListItem}
  {seed : ConfidenceItem} {rows : List ConfidenceItem} {seedPublicId : ℕ}

/-- The enriched item has the columns of its row. -/
theorem enriched_spec (hstored : seed ∈ t.items) (hshows : it.Shows seed) (group : List ℕ) :
    (t.enriched it group).analystConfidenceOverride = seed.analystConfidenceOverride ∧
      (t.enriched it group).confidence = seed.confidence ∧
        (t.enriched it group).sourceConfidence = none := by
  have hitem : t.item? it.id = some seed := by
    rw [hshows.id]
    exact (Rows.lookup_eq_some t.unique_id).mpr ⟨hstored, rfl⟩
  have hrow : t.storedItem it.id group = some seed := by
    unfold ConfidenceTables.storedItem
    rw [hitem]
    rfl
  unfold ConfidenceTables.enriched
  rw [hrow]
  refine ⟨?_, ?_, rfl⟩
  · rcases hshows.override with h | h
    · rw [h]
      rfl
    · rw [h]
      cases hvalue : seed.analystConfidenceOverride <;> simp [hvalue]
  · rcases hshows.confidence with h | h
    · rw [h]
      rfl
    · rw [h]
      cases hvalue : seed.confidence <;> simp [hvalue]

theorem status_listed (m : ConfidenceMembership) : m.listed.status = m.status := rfl

theorem level_listed (m : ConfidenceMembership) : m.listed.level = m.level := rfl

theorem purgedAt_listed (m : ConfidenceMembership) : m.listed.purgedAt = none := rfl

/-- An item without an entry confidence adds nothing to a tier. -/
theorem entryLevel_of_none {row : ConfidenceColumns} (h : row.sourceConfidence = none) :
    row.entryLevel = none := by
  have hnone : normalizeConfidence none = none := by decide +kernel
  rw [ConfidenceColumns.entryLevel, legacyEntry, h, hnone]
  rfl

/-- The display is the strongest level of the resolution and the stored confidence. -/
theorem displayConfidence_tiers (hstored : seed ∈ t.items) (hshows : it.Shows seed) :
    (t.displayConfidence linkedBySeed true it).effective =
      strongest (resolutionTiers seed.analystConfidenceOverride
          ((t.groupMemberships (linkedGroup linkedBySeed seed.id)).map (·.listed))
          [t.enriched it (linkedGroup linkedBySeed seed.id)] ++
        [if 0 < t.activeSourceCount (linkedGroup linkedBySeed seed.id) ∨
            ∃ m ∈ t.groupMemberships (linkedGroup linkedBySeed seed.id), m.status ≠ .purged then
          (normalizeConfidence seed.confidence).toList
        else []]) := by
  obtain ⟨hoverride, hconfidence, -⟩ :=
    enriched_spec hstored hshows (linkedGroup linkedBySeed seed.id)
  unfold ConfidenceTables.displayConfidence
  rw [hshows.id]
  dsimp only
  rw [hoverride, hconfidence]
  generalize t.groupMemberships (linkedGroup linkedBySeed seed.id) = memberships
  generalize t.enriched it (linkedGroup linkedBySeed seed.id) = e at hoverride hconfidence
  generalize t.activeSourceCount (linkedGroup linkedBySeed seed.id) = count
  have hany : (decide (0 < count) ||
      !(filterConfidenceMemberships (memberships.map (·.listed)) true).isEmpty ||
        (memberships.map (·.listed)).any isActiveFeedMembership) = true ↔
      0 < count ∨ ∃ m ∈ memberships, m.status ≠ .purged := by
    rw [filterConfidenceMemberships_all]
    simp only [Bool.or_eq_true, decide_eq_true_eq, Bool.not_eq_true', isEmpty_eq_false_iff,
      ne_eq, filter_eq_nil_iff, mem_map, any_eq_true, isActiveFeedMembership]
    constructor
    · rintro ((h | h) | ⟨m, ⟨m', hm', rfl⟩, hactive⟩)
      · exact .inl h
      · right
        by_contra hall
        apply h
        rintro m ⟨m', hm', rfl⟩ hcounted
        simp only [Bool.and_eq_true, decide_eq_true_eq] at hcounted
        exact hall ⟨m', hm', hcounted.2⟩
      · simp only [Bool.and_eq_true, status_listed] at hactive
        refine .inr ⟨m', hm', ?_⟩
        rw [of_decide_eq_true hactive.2]
        decide
    · rintro (h | ⟨m, hm, hstatus⟩)
      · exact .inl (.inl h)
      · refine .inl (.inr fun hall => hall _ ⟨m, hm, rfl⟩ ?_)
        simp [purgedAt_listed, status_listed, hstatus]
  rw [strongest_append, ← effective_resolve]
  generalize hinherited : (resolveIocConfidenceFromMemberships seed.analystConfidenceOverride
    (memberships.map (·.listed)) [e] true).1 = inherited
  cases hlevel : inherited.effective with
  | some level => rfl
  | none =>
    -- without an inherited level there is no override
    have hmanual : normalizeConfidence e.analystConfidenceOverride = none := by
      rw [← hinherited, effective_resolve] at hlevel
      rw [hoverride]
      exact manual_of_resolutionTiers hlevel
    have hitem : computeItemStoredConfidence e = normalizeConfidence seed.confidence := by
      unfold computeItemStoredConfidence
      rw [hmanual, hconfidence, Option.isSome_none, if_neg Bool.false_ne_true]
    rw [hitem, strongest, strongest, Option.or_none]
    by_cases hsource : 0 < count ∨ ∃ m ∈ memberships, m.status ≠ .purged
    · rw [if_pos hsource, if_pos (hany.mpr hsource), max?_toList]
      cases hstoredLevel : normalizeConfidence seed.confidence with
      | some level => rfl
      | none => split <;> rfl
    · have hcount : ¬ 0 < count := fun h => hsource (.inl h)
      rw [if_neg hsource, if_neg (fun h => hsource (hany.mp h)), if_neg hcount]
      rfl

/-- The list shows the strongest level of what it counts. -/
theorem displayConfidence_eq (hstored : seed ∈ t.items) (hshows : it.Shows seed) :
    (t.displayConfidence linkedBySeed true it).effective =
      shownLevel (t.listEvidence linkedBySeed seed) := by
  obtain ⟨-, -, hentry⟩ := enriched_spec hstored hshows (linkedGroup linkedBySeed seed.id)
  have hnoEntry := entryLevel_of_none hentry
  have hevidence : t.listEvidence linkedBySeed seed = .override seed.analystConfidenceOverride ::
      ((t.groupMemberships (linkedGroup linkedBySeed seed.id)).filter fun m =>
        decide (m.status = .active ∨
          m.status ≠ .purged ∧ seed.analystConfidenceOverride.getD "" = "")).map .membership ++
      ([] : List ConfidenceColumns).map .entry ++
      (if 0 < t.activeSourceCount (linkedGroup linkedBySeed seed.id) ∨
          ∃ m ∈ t.groupMemberships (linkedGroup linkedBySeed seed.id), m.status ≠ .purged then
        [seed.confidence] else []).map .item := by
    rw [apply_ite (List.map Evidence.item), map_nil, append_nil]
    rfl
  rw [displayConfidence_tiers hstored hshows, hevidence, shownLevel_kinds]
  unfold resolutionTiers
  generalize t.groupMemberships (linkedGroup linkedBySeed seed.id) = memberships
  generalize t.enriched it (linkedGroup linkedBySeed seed.id) = e at hnoEntry
  have hactive : (memberships.map (·.listed)).filter isActiveFeedMembership =
      (memberships.filter fun m => decide (m.status = .active)).map (·.listed) := by
    rw [filter_map]
    rfl
  have hinactive : (memberships.map (·.listed)).filter (·.isInactive) =
      (memberships.filter fun m => decide (m.status ≠ .active ∧ m.status ≠ .purged)).map (·.listed) := by
    rw [filter_map]
    rfl
  have hnoRow : ∀ p, ([e].filter p).filterMap (·.entryLevel) = [] := fun p => by
    cases hp : p e <;> simp [hp, hnoEntry]
  have hlevels : ∀ ms : List ConfidenceMembership,
      (ms.map (·.listed)).filterMap (·.level) = ms.filterMap (·.level) := fun ms => by
    simp only [filterMap_map, Function.comp_def, level_listed]
  rw [hactive, hinactive, filter_or_self, filter_or_not, apply_ite (List.filterMap normalizeConfidence),
    filterMap_singleton, filterMap_nil]
  simp only [hnoRow, hlevels, append_nil, filter_nil, filterMap_nil, cons_append,
    nil_append, ne_eq, map_eq_nil_iff]
  by_cases hempty : seed.analystConfidenceOverride.getD "" = ""
  · simp only [hempty, true_and, and_true]
    generalize (memberships.filter fun m => decide (¬ m.status = .active ∧ ¬ m.status = .purged)) = inactive
    cases inactive <;> rfl
  · simp [hempty]

theorem mem_pickPrimaryIocRow (h : pickPrimaryIocRow rows seedPublicId = some seed) :
    seed ∈ rows := by
  unfold pickPrimaryIocRow at h
  cases hfind : rows.find? fun r => decide (r.publicId = seedPublicId) with
  | some row =>
    rw [hfind] at h
    rw [← Option.some.inj h]
    exact mem_of_find?_eq_some hfind
  | none =>
    rw [hfind] at h
    exact mem_of_mem_head? h

/-- The memberships that the details count. -/
theorem mem_unpurged {m : ConfidenceMembership} {memberships : List ConfidenceMembership} :
    (m ∈ memberships.filter fun m => m.purgedAt.isNone && decide (m.status ≠ .purged)) ↔
      m ∈ memberships ∧ m.purgedAt = none ∧ m.status ≠ .purged := by
  rw [mem_filter, Bool.and_eq_true, decide_eq_true_eq, Option.isNone_iff_eq_none]

/-- Without an override, the details show the strongest level of the resolution and the stored
confidence. -/
theorem summary_tiers (hseed : pickPrimaryIocRow rows seedPublicId = some seed)
    (hmanual : normalizeConfidence seed.analystConfidenceOverride = none) :
    (t.buildIocConfidenceSummaryForDetails rows seedPublicId).effective =
      strongest (resolutionTiers none (t.detailMemberships rows seed)
          (rows.map (·.toConfidenceColumns)) ++
        [if ((t.detailMemberships rows seed).filter fun m =>
            m.purgedAt.isNone && decide (m.status ≠ .purged)) ≠ [] ∨
            ∃ row ∈ rows, row.iocSourceId.isSome = true then
          (normalizeConfidence seed.confidence).toList
        else []]) := by
  have hmem := mem_pickPrimaryIocRow hseed
  unfold ConfidenceTables.buildIocConfidenceSummaryForDetails
  rw [hseed]
  unfold buildIocInheritedConfidenceSummary
  dsimp only
  rw [hmanual, Option.map_none]
  generalize t.detailMemberships rows seed = memberships
  have hany : (!(filterConfidenceMemberships memberships false).isEmpty ||
      !(filterConfidenceMemberships memberships true).isEmpty ||
      ((rows.map (·.toConfidenceColumns)).filter fun row => decide (row.status = .active)).any
        (·.iocSourceId.isSome) || (rows.map (·.toConfidenceColumns)).any (·.iocSourceId.isSome) ||
      seed.iocSourceId.isSome) = true ↔
      (memberships.filter fun m => m.purgedAt.isNone && decide (m.status ≠ .purged)) ≠ [] ∨
        ∃ row ∈ rows, row.iocSourceId.isSome = true := by
    rw [filterConfidenceMemberships_all, filterConfidenceMemberships_active]
    have hactive : memberships.filter isActiveFeedMembership ≠ [] →
        (memberships.filter fun m => m.purgedAt.isNone && decide (m.status ≠ .purged)) ≠ [] := by
      intro h hnil
      obtain ⟨m, hm⟩ := exists_mem_of_ne_nil _ h
      obtain ⟨hm, hactive⟩ := mem_filter.mp hm
      unfold isActiveFeedMembership at hactive
      rw [Bool.and_eq_true, decide_eq_true_eq] at hactive
      have hcounted := mem_unpurged.mpr
        ⟨hm, Option.isNone_iff_eq_none.mp hactive.1, by rw [hactive.2]; decide⟩
      rw [hnil] at hcounted
      cases hcounted
    simp only [Bool.or_eq_true, Bool.not_eq_true', isEmpty_eq_false_iff, any_eq_true,
      mem_filter, mem_map]
    constructor
    · rintro ((((h | h) | ⟨_, ⟨⟨row, hrow, rfl⟩, -⟩, hsource⟩) | ⟨_, ⟨row, hrow, rfl⟩, hsource⟩) |
        hsource)
      · exact .inl (hactive h)
      · exact .inl h
      · exact .inr ⟨row, hrow, hsource⟩
      · exact .inr ⟨row, hrow, hsource⟩
      · exact .inr ⟨seed, hmem, hsource⟩
    · rintro (h | ⟨row, hrow, hsource⟩)
      · exact .inl (.inl (.inl (.inr h)))
      · exact .inl (.inr ⟨_, ⟨row, hrow, rfl⟩, hsource⟩)
  rw [strongest_append, ← effective_resolve]
  generalize (resolveIocConfidenceFromMemberships none memberships
    (rows.map (·.toConfidenceColumns)) true).1 = inherited
  have hitem : computeItemStoredConfidence seed.toConfidenceColumns =
      normalizeConfidence seed.confidence := by
    unfold computeItemStoredConfidence
    rw [hmanual, Option.isSome_none, if_neg Bool.false_ne_true]
  cases hlevel : inherited.effective with
  | some level =>
    rw [if_neg (fun h => Option.some_ne_none level h.2)]
    rfl
  | none =>
    rw [if_pos ⟨rfl, rfl⟩, hitem, strongest, strongest, Option.or_none, Option.none_or]
    by_cases hsource : (memberships.filter fun m =>
        m.purgedAt.isNone && decide (m.status ≠ .purged)) ≠ [] ∨
          ∃ row ∈ rows, row.iocSourceId.isSome = true
    · rw [if_pos hsource, if_pos (hany.mpr hsource), max?_toList]
    · rw [if_neg hsource, if_neg (fun h => hsource (hany.mp h))]
      rfl

/-- The details show the strongest level of what they count. -/
theorem summary_eq (hseed : pickPrimaryIocRow rows seedPublicId = some seed) :
    (t.buildIocConfidenceSummaryForDetails rows seedPublicId).effective =
      shownLevel (t.detailEvidence rows seed) := by
  have hevidence : t.detailEvidence rows seed = .override seed.analystConfidenceOverride ::
      ((t.detailMemberships rows seed).filter fun m =>
        m.purgedAt.isNone && decide (m.status ≠ .purged)).map .membership ++
      ((rows.map (·.toConfidenceColumns)).filter fun row => decide (row.status = .active ∨
        ∃ m ∈ (t.detailMemberships rows seed).filter fun m =>
          m.purgedAt.isNone && decide (m.status ≠ .purged), m.status ≠ .active)).map .entry ++
      (if ((t.detailMemberships rows seed).filter fun m =>
          m.purgedAt.isNone && decide (m.status ≠ .purged)) ≠ [] ∨
            ∃ row ∈ rows, row.iocSourceId.isSome = true then
        [seed.confidence] else []).map .item := by
    rw [apply_ite (List.map Evidence.item)]
    rfl
  rw [hevidence, shownLevel_kinds]
  cases hmanual : normalizeConfidence seed.analystConfidenceOverride with
  | some level =>
    unfold ConfidenceTables.buildIocConfidenceSummaryForDetails
    rw [hseed]
    unfold buildIocInheritedConfidenceSummary
    dsimp only
    rw [hmanual, if_neg (fun h => Option.some_ne_none level h.1), effective_resolve,
      resolutionTiers, strongest, max?_toList, normalizeConfidence_text]
    rfl
  | none =>
    rw [summary_tiers hseed hmanual, filter_or_self, filter_or_not]
    unfold resolutionTiers
    generalize t.detailMemberships rows seed = memberships
    generalize rows.map (·.toConfidenceColumns) = columns
    have hactive : (memberships.filter fun m => m.purgedAt.isNone && decide (m.status ≠ .purged)).filter
        (fun m => decide (m.status = .active)) = memberships.filter isActiveFeedMembership := by
      rw [filter_filter]
      refine filter_congr fun m _ => ?_
      unfold isActiveFeedMembership
      by_cases h : m.status = .active <;> simp [h]
    have hinactive : (memberships.filter fun m => m.purgedAt.isNone && decide (m.status ≠ .purged)).filter
        (fun m => decide (m.status ≠ .active)) = memberships.filter (·.isInactive) := by
      rw [filter_filter]
      refine filter_congr fun m _ => ?_
      unfold ConfidenceMembership.isInactive
      by_cases h : m.status = .active <;> simp [h]
    have hany : (∃ m ∈ memberships.filter fun m => m.purgedAt.isNone && decide (m.status ≠ .purged),
        m.status ≠ .active) ↔ memberships.filter (·.isInactive) ≠ [] := by
      rw [← hinactive, ne_eq, filter_eq_nil_iff]
      simp [and_assoc]
    have hnone : normalizeConfidence none = none := by decide +kernel
    rw [hactive, hinactive, hnone, apply_ite (List.filterMap normalizeConfidence), filterMap_singleton,
      filterMap_nil]
    simp only [hany, Option.toList_none, Option.getD_none, true_and, cons_append, nil_append]
    generalize memberships.filter (·.isInactive) = inactive
    cases inactive with
    | nil => simp
    | cons m rest => simp

/-- An entry of the map is the display of an item of the page. -/
theorem mem_buildDisplayConfidenceForItems {items : List ListItem} {id : ℕ} {type : String}
    {display : DisplayConfidence}
    (h : ((id, type), display) ∈ t.buildDisplayConfidenceForItems linkedBySeed true items) :
    ∃ it ∈ items, it.id = id ∧ display = t.displayConfidence linkedBySeed true it := by
  obtain ⟨it, hit, heq⟩ := mem_map.mp h
  rw [Prod.mk.injEq, Prod.mk.injEq] at heq
  exact ⟨it, (mem_filter.mp hit).1, heq.1.1, heq.2.symm⟩

end Views

/-- The row of a SHA256. -/
def sha256Row : ConfidenceItem :=
  { id := 1, publicId := 100, observableType := "sha256", status := .active, sourceName := none,
    sourceConfidence := none, confidence := none, analystConfidenceOverride := none,
    iocSourceId := none }

/-- A SHA256 row and the MD5 row of the same file, which a feed reports with a confidence. -/
def aliasTables : ConfidenceTables where
  items := [sha256Row, { sha256Row with id := 2, publicId := 101, observableType := "md5" }]
  memberships :=
    [{ iocItemId := 2, iocObservableType := "md5", status := .active, purgedAt := none,
       explicitConfidence := some "high", lastSeenInFeed := 0, feedKey := "alienvault-otx",
       feedName := "AlienVault OTX", feedDefaultConfidence := none }]
  unique_id := by decide

/-- The page item of the SHA256 row. -/
def aliasItem : ListItem :=
  { id := 1, observableType := "sha256", status := .active, confidence := none,
    analystConfidenceOverride := none, iocSourceId := none, sourceName := none }

/-- A feed that reports the SHA256 itself, and one that no longer reports the MD5. -/
def ownTables : ConfidenceTables :=
  { aliasTables with memberships := aliasTables.memberships.flatMap fun m =>
      [{ m with iocItemId := 1, iocObservableType := "sha256" }, { m with status := .expired }] }

end TalonHound.IocList
