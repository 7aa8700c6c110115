import Mathlib.Order.Bounds.Defs
import TalonHound.IocList.ConfidenceTiers

/-!
# The sources of a confidence

The summary names a feed beside its confidence, and lists what each active membership gives. An
active row gives its entry confidence to the summary whether its feed has a membership or not.
-/

namespace TalonHound.IocList

open List Tiers

/-- An entry of `membership_breakdown`. -/
structure BreakdownEntry where
  feedKey : String
  effective : Option ConfidenceLevel
  deriving DecidableEq

/-- `membershipBreakdown` of `buildIocInheritedConfidenceSummary`. -/
def membershipBreakdown (membershipRows : List ConfidenceMembership)
    (iocRows : List ConfidenceColumns) : List BreakdownEntry :=
  let activeIocRows := iocRows.filter fun row => decide (row.status = .active)
  (filterConfidenceMemberships membershipRows false).map fun m =>
    { feedKey := m.feedKey
      effective := (computeInheritedEffectiveConfidence none [m] (buildLegacyExplicitMapFromIocRows
        (activeIocRows.filter fun r => decide (feedKeyForSourceName r.sourceName = some m.feedKey))
        true) false).effective }

/-- `confidence_feed_key` of `buildIocInheritedConfidenceSummary`, without an override. A stored
confidence, like the level that it stands in for, has no feed. -/
def confidenceFeedKey (membershipRows : List ConfidenceMembership)
    (iocRows : List ConfidenceColumns) : Option String :=
  (resolveIocConfidenceFromMemberships none membershipRows iocRows true).1.feedKey

/-- A feed gives a level: by the breakdown of a membership, or by the entry of an active row. -/
def Contributes (membershipRows : List ConfidenceMembership) (iocRows : List ConfidenceColumns)
    (feedKey : String) (level : ConfidenceLevel) : Prop :=
  (∃ e ∈ membershipBreakdown membershipRows iocRows,
    e.feedKey = feedKey ∧ e.effective = some level) ∨
  ∃ row ∈ iocRows, row.status = .active ∧ legacyEntry row = some (feedKey, level)

variable {primaryRow : ConfidenceColumns} {memberships memberships' : List ConfidenceMembership}
  {rows rows' : List ConfidenceColumns} {m : ConfidenceMembership} {row : ConfidenceColumns}
  {key : String} {level : ConfidenceLevel}

/-- The levels of the active memberships and the active rows. -/
def activeLevels (memberships : List ConfidenceMembership) (rows : List ConfidenceColumns) :
    List ConfidenceLevel :=
  (memberships.filter isActiveFeedMembership).filterMap (·.level) ++
    (rows.filter fun row => decide (row.status = .active)).filterMap (·.entryLevel)

theorem normalizeConfidence_none : normalizeConfidence none = none := by
  decide +kernel

theorem mem_activeLevels : level ∈ activeLevels memberships rows ↔
    (∃ m ∈ memberships, isActiveFeedMembership m = true ∧ m.level = some level) ∨
      ∃ row ∈ rows, row.status = .active ∧ row.entryLevel = some level := by
  simp [activeLevels, and_assoc]

/-- What the breakdown says of a membership. -/
theorem mem_membershipBreakdown {e : BreakdownEntry} :
    e ∈ membershipBreakdown memberships rows ↔
      ∃ m ∈ memberships, isActiveFeedMembership m = true ∧ e.feedKey = m.feedKey ∧
        e.effective = (activeLevels [m] (rows.filter fun r =>
          decide (feedKeyForSourceName r.sourceName = some m.feedKey))).max? := by
  unfold membershipBreakdown
  simp only [filterConfidenceMemberships_active, mem_map, mem_filter, effective_compute,
    normalizeConfidence_none, Option.none_or, Bool.false_eq_true, if_false, Bool.not_true,
    Bool.false_or, filter_filter, Bool.and_comm, Bool.and_self_left, and_assoc, activeLevels]
  constructor
  · rintro ⟨m, hm, hactive, rfl⟩
    exact ⟨m, hm, hactive, rfl, rfl⟩
  · rintro ⟨m, hm, hactive, hkey, heffective⟩
    obtain ⟨feedKey, effective⟩ := e
    cases hkey
    cases heffective
    exact ⟨m, hm, hactive, rfl⟩

/-- The levels of one membership and the active rows of its feed are active levels. -/
theorem activeLevels_mono (hm : m ∈ memberships) :
    activeLevels [m] (rows.filter fun r =>
      decide (feedKeyForSourceName r.sourceName = some m.feedKey)) ⊆ activeLevels memberships rows := by
  intro level h
  rw [mem_activeLevels] at h ⊢
  grind

/-- The breakdown has the greatest active level when a membership or a row of its feed has it. -/
theorem exists_breakdown (hgreatest : ∀ l ∈ activeLevels memberships rows, l ≤ level)
    (hm : m ∈ memberships) (hactive : isActiveFeedMembership m = true)
    (hlevel : level ∈ activeLevels [m] (rows.filter fun r =>
      decide (feedKeyForSourceName r.sourceName = some m.feedKey))) :
    ∃ e ∈ membershipBreakdown memberships rows,
      e.feedKey = m.feedKey ∧ e.effective = some level := by
  refine ⟨⟨m.feedKey, some level⟩, mem_membershipBreakdown.mpr ⟨m, hm, hactive, rfl, ?_⟩, rfl, rfl⟩
  exact (max?_eq_some_iff.mpr ⟨hlevel, fun l hl => hgreatest l (activeLevels_mono hm hl)⟩).symm

/-- What a feed gives is an active level. -/
theorem Contributes.mem_activeLevels (h : Contributes memberships rows key level) :
    level ∈ activeLevels memberships rows := by
  rcases h with ⟨e, he, -, heffective⟩ | ⟨row, hrow, hactive, hentry⟩
  · obtain ⟨m, hm, -, -, hmax⟩ := mem_membershipBreakdown.mp he
    rw [heffective] at hmax
    exact activeLevels_mono hm (max?_eq_some_iff.mp hmax.symm).1
  · refine TalonHound.IocList.mem_activeLevels.mpr (.inr ⟨row, hrow, hactive, ?_⟩)
    simp [ConfidenceColumns.entryLevel, hentry]

/-- The candidate of a membership has its level and its feed. -/
theorem of_membershipContext {c : ConfidenceContext} (h : membershipContext m = some c) :
    m.level = some c.value ∧ c.feedKey = some m.feedKey := by
  refine ⟨by rw [← membershipContext_value, h]; rfl, ?_⟩
  unfold membershipContext at h
  split at h <;> cases h <;> rfl

/-- The level and the feed that are inherited are those of a membership that no entry reaches, or of
the last greatest entry. -/
theorem exists_context {legacy : LegacyMap} {inherited : InheritedConfidence}
    (hinherited : computeInheritedEffectiveConfidence none memberships legacy false = inherited)
    (h : inherited.effective = some level) :
    (∃ m ∈ memberships, isActiveFeedMembership m = true ∧ m.level = some level ∧
        inherited.feedKey = some m.feedKey ∧ ∀ e ∈ legacy, e.2 < level) ∨
      ∃ before after key, legacy = before ++ (key, level) :: after ∧
        inherited.feedKey = some key ∧ ∀ e ∈ after, e.2 < level := by
  unfold computeInheritedEffectiveConfidence at hinherited
  rw [normalizeConfidence_none] at hinherited
  simp only [Bool.false_eq_true, if_false] at hinherited
  split at hinherited
  · next c hbest =>
    subst hinherited
    obtain rfl := Option.some.inj h
    obtain ⟨before, after, hsplit, hafter⟩ := last_of_foldl_keepGreatest hbest
    have hentry : ∀ before', legacy.map legacyContext = before' ++ c :: after →
        ∃ before after key, legacy = before ++ (key, c.value) :: after ∧
          c.feedKey = some key ∧ ∀ e ∈ after, e.2 < c.value := by
      intro before' hlegacy
      obtain ⟨before, rest, rfl, rfl, hrest⟩ := map_eq_append_iff.mp hlegacy
      obtain ⟨⟨key, value⟩, later, rfl, rfl, rfl⟩ := map_eq_cons_iff.mp hrest
      exact ⟨before, later, key, rfl, rfl, fun e he => hafter _ (mem_map_of_mem he)⟩
    rcases append_eq_append_iff.mp hsplit with ⟨before', -, hlegacy⟩ | ⟨rest, hcontexts, hrest⟩
    · exact .inr (hentry before' hlegacy)
    · cases rest with
      | nil => exact .inr (hentry [] hrest.symm)
      | cons d rest =>
        obtain ⟨rfl, rfl⟩ := cons.inj hrest
        have hc : c ∈ (memberships.filter isActiveFeedMembership).filterMap membershipContext := by
          rw [hcontexts]
          simp
        obtain ⟨m, hm, hcontext⟩ := mem_filterMap.mp hc
        obtain ⟨hm, hactive⟩ := mem_filter.mp hm
        obtain ⟨hlevel, hkey⟩ := of_membershipContext hcontext
        exact .inl ⟨m, hm, hactive, hlevel, hkey,
          fun e he => hafter _ (mem_append_right _ (mem_map_of_mem (f := legacyContext) he))⟩
  · subst hinherited
    cases h

/-- The entry confidences of the active rows, with their feeds. -/
def activeEntries (rows : List ConfidenceColumns) : List (String × ConfidenceLevel) :=
  (rows.filter fun row => decide (row.status = .active)).filterMap legacyEntry

theorem mem_activeEntries : (key, level) ∈ activeEntries rows ↔
    ∃ row ∈ rows, row.status = .active ∧ legacyEntry row = some (key, level) := by
  simp [activeEntries, and_assoc]

theorem activeEntries_level (h : (key, level) ∈ activeEntries rows) :
    level ∈ activeLevels memberships rows := by
  obtain ⟨row, hrow, hactive, hentry⟩ := mem_activeEntries.mp h
  exact mem_activeLevels.mpr (.inr ⟨row, hrow, hactive, by simp [ConfidenceColumns.entryLevel, hentry]⟩)

/-- A feed has an active membership. -/
def Covered (memberships : List ConfidenceMembership) (key : String) : Prop :=
  ∃ m ∈ memberships, isActiveFeedMembership m = true ∧ m.feedKey = key

/-- The greatest active level is the effective one. The reported feed gives it, by a membership or
by the last greatest entry. -/
theorem resolve_of_greatest (hmax : (activeLevels memberships rows).max? = some level) :
    (resolveIocConfidenceFromMemberships none memberships rows true).1.effective = some level ∧
      ((∃ m ∈ memberships, isActiveFeedMembership m = true ∧ m.level = some level ∧
          confidenceFeedKey memberships rows = some m.feedKey ∧
          ∀ e ∈ (activeEntries rows).foldl addLegacy [], e.2 < level) ∨
        ∃ before after key, (activeEntries rows).foldl addLegacy [] =
            before ++ (key, level) :: after ∧
          confidenceFeedKey memberships rows = some key ∧ ∀ e ∈ after, e.2 < level) := by
  have hlegacy : buildLegacyExplicitMapFromIocRows
      (rows.filter fun row => decide (row.status = .active)) true =
        (activeEntries rows).foldl addLegacy [] := by
    simp [buildLegacyExplicitMapFromIocRows, activeEntries, filter_filter]
  have heffective : (computeInheritedEffectiveConfidence none
      (filterConfidenceMemberships memberships false) (buildLegacyExplicitMapFromIocRows
        (rows.filter fun row => decide (row.status = .active)) true) false).effective =
      some level := by
    rw [effective_compute, normalizeConfidence_none, filterConfidenceMemberships_active, ← hmax]
    simp [activeLevels]
  have hfirst : (resolveIocConfidenceFromMemberships none memberships rows true).1 =
      computeInheritedEffectiveConfidence none (filterConfidenceMemberships memberships false)
        (buildLegacyExplicitMapFromIocRows
          (rows.filter fun row => decide (row.status = .active)) true) false := by
    unfold resolveIocConfidenceFromMemberships
    simp [heffective]
  rw [← hfirst] at heffective
  refine ⟨heffective, ?_⟩
  rw [hlegacy, filterConfidenceMemberships_active] at hfirst
  rcases exists_context hfirst.symm heffective with ⟨m, hm, hactive, hrest⟩ | hentry
  · exact .inl ⟨m, (mem_filter.mp hm).1, hactive, hrest⟩
  · exact .inr hentry

/-- Such a feed gives the level. -/
theorem exists_contributes (hmax : (activeLevels memberships rows).max? = some level) :
    ∃ key, confidenceFeedKey memberships rows = some key ∧
      Contributes memberships rows key level := by
  have hgreatest := (max?_eq_some_iff.mp hmax).2
  rcases (resolve_of_greatest hmax).2 with ⟨m, hm, hactive, hlevel, hkey, -⟩ |
    ⟨before, after, key, hmap, hkey, -⟩
  · exact ⟨m.feedKey, hkey, .inl (exists_breakdown hgreatest hm hactive
      (mem_activeLevels.mpr (.inl ⟨m, mem_singleton_self m, hactive, hlevel⟩)))⟩
  · have hentry : (key, level) ∈ (activeEntries rows).foldl addLegacy [] := by
      rw [hmap]
      simp
    obtain ⟨row, hrow⟩ := mem_activeEntries.mp ((isLegacyMap_foldl _).mem _ hentry)
    exact ⟨key, hkey, .inr ⟨row, hrow⟩⟩

/-- A level does not depend on the order of the memberships and the rows. -/
theorem resolve_perm (hm : memberships.Perm memberships') (hr : rows.Perm rows') :
    (resolveIocConfidenceFromMemberships none memberships rows true).1.effective =
      (resolveIocConfidenceFromMemberships none memberships' rows' true).1.effective := by
  rw [effective_resolve, effective_resolve]
  apply strongest_congr
  have hinactive := hm.filter (·.isInactive)
  have hempty : memberships.filter (·.isInactive) = [] ↔ memberships'.filter (·.isInactive) = [] :=
    ⟨fun h => (h ▸ hinactive).nil_eq.symm, fun h => (h ▸ hinactive).eq_nil⟩
  refine .cons (fun _ => Iff.rfl) (.cons (fun level => ?_) (.cons (fun level => ?_) .nil))
  · exact (((hm.filter _).filterMap _).append ((hr.filter _).filterMap _)).mem_iff
  · simp only [ne_eq, hempty]
    split
    · exact ((hinactive.filterMap _).append ((hr.filter _).filterMap _)).mem_iff
    · exact Iff.rfl

/-- Nor does the stored confidence. -/
theorem summary_perm (hm : memberships.Perm memberships') (hr : rows.Perm rows')
    (hmanual : normalizeConfidence primaryRow.analystConfidenceOverride = none) :
    (buildIocInheritedConfidenceSummary primaryRow memberships rows).effective =
      (buildIocInheritedConfidenceSummary primaryRow memberships' rows').effective := by
  have hempty : ∀ allow, (filterConfidenceMemberships memberships allow).isEmpty =
      (filterConfidenceMemberships memberships' allow).isEmpty := fun _ => (hm.filter _).isEmpty_eq
  have hactive : ∀ p, (rows.filter fun row => decide (row.status = .active)).any p =
      (rows'.filter fun row => decide (row.status = .active)).any p := fun _ => (hr.filter _).any_eq
  unfold buildIocInheritedConfidenceSummary
  simp only [hmanual, Option.map_none, resolve_perm hm hr, hempty, hactive, hr.any_eq]

/-- A summary with an active level is that of what is active. -/
theorem summary_of_greatest
    (hmanual : normalizeConfidence primaryRow.analystConfidenceOverride = none)
    (hmax : (activeLevels memberships rows).max? = some level) :
    (buildIocInheritedConfidenceSummary primaryRow memberships rows).effective = some level := by
  unfold buildIocInheritedConfidenceSummary
  simp [hmanual, (resolve_of_greatest hmax).1]

/-- What a covered feed gives is in the breakdown. -/
theorem breakdown_of_contributes (hcovered : Covered memberships key)
    (hgreatest : ∀ l ∈ activeLevels memberships rows, l ≤ level)
    (h : Contributes memberships rows key level) :
    ∃ e ∈ membershipBreakdown memberships rows, e.feedKey = key ∧ e.effective = some level := by
  rcases h with h | ⟨row, hrow, hactive, hentry⟩
  · exact h
  · obtain ⟨m, hm, hmactive, rfl⟩ := hcovered
    refine exists_breakdown hgreatest hm hmactive (mem_activeLevels.mpr (.inr ⟨row, ?_, hactive, ?_⟩))
    · unfold legacyEntry at hentry
      obtain ⟨_, -, hentry⟩ := Option.bind_eq_some_iff.mp hentry
      obtain ⟨_, hfeed, hpair⟩ := Option.map_eq_some_iff.mp hentry
      cases hpair
      simp [hrow, hfeed]
    · simp [ConfidenceColumns.entryLevel, hentry]

/-- The active rows of a feed without an active membership do not decide the summary: one that is as
high as all that is active comes before such a row of a feed with an active membership. -/
def Outranked (memberships : List ConfidenceMembership) (rows : List ConfidenceColumns) : Prop :=
  ∀ key level, (key, level) ∈ activeEntries rows → ¬Covered memberships key →
    (∀ l ∈ activeLevels memberships rows, l ≤ level) →
    ∃ key', Covered memberships key' ∧ (key', level) ∈ activeEntries rows ∧
      ((activeEntries rows).map Prod.fst).idxOf key < ((activeEntries rows).map Prod.fst).idxOf key'

/-- In a list of distinct keys what comes after a key has a greater place. -/
theorem idxOf_lt_iff {before after : List String} (h : (before ++ key :: after).Nodup)
    {key' : String} : (before ++ key :: after).idxOf key < (before ++ key :: after).idxOf key' ↔
      key' ∉ before ∧ key' ≠ key := by
  have hkey : key ∉ before := fun hmem => (nodup_append.mp h).2.2 _ hmem _ mem_cons_self rfl
  rw [idxOf_append, if_neg hkey, idxOf_cons_self, idxOf_append]
  split
  · next hmem =>
    have := idxOf_lt_length_of_mem hmem
    simp [hmem]
    omega
  · next hmem =>
    by_cases hsame : key' = key
    · simp [hsame]
    · simp [hmem, hsame, idxOf_cons_ne _ (Ne.symm hsame)]

/-- The reported feed is covered exactly if the rows of feeds without an active membership are
outranked. -/
theorem covered_iff_outranked (hmax : (activeLevels memberships rows).max? = some level) :
    (∃ key, confidenceFeedKey memberships rows = some key ∧ Covered memberships key) ↔
      Outranked memberships rows := by
  obtain ⟨hlevel, hgreatest⟩ := max?_eq_some_iff.mp hmax
  have hmap := isLegacyMap_foldl (activeEntries rows)
  have hheld : ∀ {key}, (key, level) ∈ activeEntries rows →
      (key, level) ∈ (activeEntries rows).foldl addLegacy [] := by
    intro key hentry
    obtain ⟨⟨key', l⟩, hheld, hkey, hle⟩ := hmap.le _ hentry
    obtain rfl := hle.antisymm (hgreatest _ (activeEntries_level (hmap.mem _ hheld)))
    cases hkey
    exact hheld
  rcases (resolve_of_greatest hmax).2 with ⟨m, hm, hactive, -, hkey, hnone⟩ |
    ⟨before, after, last, hsplit, hkey, hafter⟩
  · refine iff_of_true ⟨m.feedKey, hkey, m, hm, hactive, rfl⟩ fun key l hentry _ hl => ?_
    obtain rfl := (hl _ hlevel).antisymm (hgreatest _ (activeEntries_level hentry))
    exact absurd (hnone _ (hheld hentry)) (lt_irrefl _)
  · rw [hsplit] at hheld hmap
    have hkeys := hmap.keys
    rw [map_append, map_cons] at hkeys
    have horder : ∀ key, ((activeEntries rows).map Prod.fst).idxOf last <
        ((activeEntries rows).map Prod.fst).idxOf key ↔ key ∉ before.map Prod.fst ∧ key ≠ last := by
      intro key
      rw [← hmap.order, map_append, map_cons]
      exact idxOf_lt_iff hkeys
    have hbefore : ∀ {key}, (key, level) ∈ activeEntries rows → key ≠ last →
        key ∈ before.map Prod.fst := by
      intro key hentry hne
      rcases mem_append.mp (hheld hentry) with hmem | hmem
      · exact mem_map_of_mem (f := Prod.fst) hmem
      · rcases mem_cons.mp hmem with heq | hmem
        · exact absurd (congrArg Prod.fst heq) hne
        · exact absurd (hafter _ hmem) (lt_irrefl _)
    have hlast : (last, level) ∈ activeEntries rows := hmap.mem _ (by simp)
    rw [hkey]
    constructor
    · rintro ⟨key, hsome, hcovered⟩
      cases hsome
      intro key' l hentry hnot hl
      obtain rfl := (hl _ hlevel).antisymm (hgreatest _ (activeEntries_level hentry))
      have hne : key' ≠ last := fun heq => hnot (heq ▸ hcovered)
      refine ⟨last, hcovered, hlast, ?_⟩
      have hmem := hbefore hentry hne
      have hnotafter := mt (horder key').mp (by simp [hmem])
      refine lt_of_le_of_ne (not_lt.mp hnotafter) fun heq => hne ?_
      exact (idxOf_inj ((hmap.mem_keys _).mp (by simp [hmem]))).mp heq
    · intro houtranked
      by_contra hnot
      obtain ⟨key', hcovered, hentry, hlt⟩ := houtranked last level hlast
        (fun hcovered => hnot ⟨last, rfl, hcovered⟩) hgreatest
      obtain ⟨hbeforenot, hne⟩ := (horder key').mp hlt
      exact hbeforenot (hbefore hentry hne)

/-- The row is of a feed with an active membership. -/
def isCovered (memberships : List ConfidenceMembership) (row : ConfidenceColumns) : Bool :=
  memberships.any fun m =>
    isActiveFeedMembership m && decide (feedKeyForSourceName row.sourceName = some m.feedKey)

/-- A level of the breakdown is there without what is inactive or not covered. -/
theorem activeLevels_covered {e : BreakdownEntry} (he : e ∈ membershipBreakdown memberships rows)
    (hlevel : e.effective = some level) :
    level ∈ activeLevels (memberships.filter isActiveFeedMembership)
      (rows.filter fun row => row.status = .active && isCovered memberships row) := by
  obtain ⟨m, hm, hactive, -, hmax⟩ := mem_membershipBreakdown.mp he
  have hmem := mem_activeLevels.mp (max?_eq_some_iff.mp (hmax.symm.trans hlevel)).1
  rw [mem_activeLevels]
  rcases hmem with ⟨m', hm', -, hl⟩ | ⟨row, hrow, hrowActive, hl⟩
  · obtain rfl := mem_singleton.mp hm'
    exact .inl ⟨m', mem_filter.mpr ⟨hm, hactive⟩, hactive, hl⟩
  · obtain ⟨hrow, hfeed⟩ := mem_filter.mp hrow
    refine .inr ⟨row, mem_filter.mpr ⟨hrow, ?_⟩, hrowActive, hl⟩
    have hcovered : isCovered memberships row = true :=
      any_eq_true.mpr ⟨m, hm, by simp [hactive, of_decide_eq_true hfeed]⟩
    simp [hrowActive, hcovered]

/-- An active membership of low confidence. -/
def lowMembership : ConfidenceMembership :=
  ⟨1, "ip", .active, none, some "low", 0, "urlhaus-abusech", "URLhaus", none⟩

/-- An active row that another feed, without an active membership, gave its entry confidence. -/
def highRow : ConfidenceColumns := ⟨.active, some "USOM:TR-CERT", some "high", none, none, none⟩

end TalonHound.IocList
