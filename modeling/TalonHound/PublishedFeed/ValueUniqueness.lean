import TalonHound.PublishedFeed.ValueRefresh

/-!
# One published row for each value

The full evaluation of a value feed never returns two rows of one folded value. The key of
the projection holds the type as well, so a stored row of one type does not give way to a
row of another type by itself. This file follows runs of bootstraps and updates, and
states exactly which steps keep the values of the projection distinct.
-/

namespace TalonHound

open DistinctOn KeyedTable KeyedView

/-- No two stored rows have the same value up to case. -/
def UniqueValues (rt : Runtime) (t : Projection) : Prop :=
  ∀ r ∈ t.rows, ∀ s ∈ t.rows, rt.lower r.observable = rt.lower s.observable → r = s

/-- Every stored row carries the key of its own value and type. -/
def WellKeyed (rt : Runtime) (t : Projection) : Prop :=
  ∀ r ∈ t.rows, r.identityKey = projectionIdentityKey rt r.observable r.observableType

/-- A step that writes the base projection of a value feed. -/
inductive ProjectionAction where
  | bootstrap (feed : Feed) (itemJson : ItemJson) (now : ℤ) (db : Db) (rowLimit : Option ℕ)
  | update (feed : Feed) (itemJson : ItemJson) (now : ℤ) (db : Db) (dirty : Dirty)

/-- The feed of a step, under the configuration it has at that time. -/
def ProjectionAction.feed : ProjectionAction → Feed
  | .bootstrap feed _ _ _ _ => feed
  | .update feed _ _ _ _ => feed

/-- The projection a step leaves behind; a bootstrap starts from a cleared one. -/
def ProjectionAction.run (rt : Runtime) (t : Projection) :
    ProjectionAction → Except UpsertError Projection
  | .bootstrap feed itemJson now db rowLimit => bootstrapProjection rt feed itemJson now db rowLimit
  | .update feed itemJson now db dirty =>
    (applyIncrementalProjectionUpdate rt feed itemJson now db t dirty).map Prod.fst

/-- A successful step of a feed that is not canonicalized. -/
def ProjectionStep (rt : Runtime) (t : Projection) (action : ProjectionAction)
    (t' : Projection) : Prop :=
  shouldCanonicalizePublishedHashFeed rt action.feed = false ∧ action.run rt t = .ok t'

/-- When a step keeps the values distinct. A bootstrap must not scan rows of two types that
publish one value. An update must not re-evaluate two types of one value, and its lookups
must reach every stored row whose value a re-evaluated winner of another type publishes. -/
def ProjectionAction.Sound (rt : Runtime) (t : Projection) : ProjectionAction → Prop
  | .bootstrap feed itemJson now db rowLimit =>
    ∀ v ∈ scannedRows rt feed now db rowLimit, ∀ w ∈ scannedRows rt feed now db rowLimit, ∀ r s,
      buildProjectionRow rt feed itemJson v = some r →
      buildProjectionRow rt feed itemJson w = some s →
      rt.lower r.observable = rt.lower s.observable → r.observableType = s.observableType
  | .update feed itemJson now db dirty => dirty.forceFull = true ∨
    (∀ v ∈ valueWinners rt feed .all now db (keepCandidate rt db t dirty), ∀ r,
      presentValue rt feed itemJson v = some r →
        (∀ w ∈ valueWinners rt feed .all now db (keepCandidate rt db t dirty), ∀ s,
          presentValue rt feed itemJson w = some s →
          rt.lower r.observable = rt.lower s.observable → r.observableType = s.observableType) ∧
        ∀ p ∈ t.rows, rt.lower p.observable = rt.lower r.observable →
          p.observableType ≠ r.observableType →
          p.identityKey ∈ reachedKeys rt feed now db t dirty)

variable {rt : Runtime} {feed : Feed} {itemJson : ItemJson} {now : ℤ} {db : Db}
  {t t' : Projection} {dirty : Dirty} {action : ProjectionAction}

/-- A built row carries the key of its own value and type. -/
theorem buildProjectionRow_key {row : StreamRow} {r : ProjectionRow}
    (h : buildProjectionRow rt feed itemJson row = some r) :
    r.identityKey = projectionIdentityKey rt r.observable r.observableType := by
  obtain ⟨-, hkey, -, hobservable, htype, -⟩ := buildProjectionRow_eq_some h
  rw [hkey, hobservable, htype]

/-- In a well-keyed projection, distinct values means one type for each stored value. -/
theorem uniqueValues_iff (hkeyed : WellKeyed rt t) :
    UniqueValues rt t ↔ ∀ value a b, t.HasKey (.observable a value) →
      t.HasKey (.observable b value) → a = b := by
  constructor
  · rintro h value a b ⟨r, hr, hra⟩ ⟨s, hs, hsb⟩
    rw [hkeyed r hr, projectionIdentityKey, IdentityKey.observable.injEq] at hra
    rw [hkeyed s hs, projectionIdentityKey, IdentityKey.observable.injEq] at hsb
    rw [← hra.1, ← hsb.1, h r hr s hs (hra.2.trans hsb.2.symm)]
  · intro h r hr s hs hvalue
    have hrkey := hkeyed r hr
    have hskey := hkeyed s hs
    rw [projectionIdentityKey] at hrkey hskey
    have htype := h _ _ _ ⟨r, hr, hrkey⟩ ⟨s, hs, by rw [hskey, hvalue]⟩
    exact List.inj_on_of_nodup_map t.nodup hr hs (by rw [hrkey, hskey, htype, hvalue])

/-- Every step leaves a well-keyed projection. -/
theorem ProjectionStep.wellKeyed (hstep : ProjectionStep rt t action t')
    (hkeyed : WellKeyed rt t) : WellKeyed rt t' := by
  intro r hr
  obtain ⟨-, hok⟩ := hstep
  cases action with
  | bootstrap feed itemJson now db rowLimit =>
    rw [ProjectionAction.run, bootstrapProjection] at hok
    rw [← upsertAll_of_upsertBatches hok,
      flatten_bootstrapBatches rt.cursorBatch_pos (by decide)] at hr
    rcases mem_rows_upsertAll hr with hr | hr
    · cases hr
    · obtain ⟨row, -, hrow⟩ := List.mem_filterMap.mp hr
      exact buildProjectionRow_key hrow
  | update feed itemJson now db dirty =>
    cases hforce : dirty.forceFull with
    | true =>
      simp only [ProjectionAction.run, applyIncrementalProjectionUpdate, hforce, if_true,
        Except.map] at hok
      obtain rfl := Except.ok.inj hok
      exact hkeyed r hr
    | false =>
      rw [ProjectionAction.run, applyIncrementalProjectionUpdate_table hforce] at hok
      rcases mem_rows_refresh rt.dirtyBatch_pos hok hr with hr | hr
      · exact hkeyed r hr
      · obtain ⟨row, -, hrow⟩ := List.mem_filterMap.mp hr
        exact buildProjectionRow_key hrow

/-- The keys after a bootstrap. -/
theorem hasKey_bootstrap {rowLimit : Option ℕ}
    (hok : bootstrapProjection rt feed itemJson now db rowLimit = .ok t') {type : ObservableType}
    {value : String} :
    t'.HasKey (.observable type value) ↔ ∃ v ∈ scannedRows rt feed now db rowLimit, ∃ r,
      buildProjectionRow rt feed itemJson v = some r ∧ r.observableType = type ∧
        rt.lower r.observable = value := by
  have hempty : ¬ (empty : Projection).HasKey (.observable type value) := by
    rintro ⟨r, hr, -⟩
    cases hr
  rw [← upsertAll_of_upsertBatches hok,
    flatten_bootstrapBatches rt.cursorBatch_pos (by decide), hasKey_upsertAll, List.mem_map]
  constructor
  · rintro (hkey | ⟨r, hr, hkey⟩)
    · exact absurd hkey hempty
    · obtain ⟨v, hv, hvr⟩ := List.mem_filterMap.mp hr
      rw [buildProjectionRow_key hvr, projectionIdentityKey, IdentityKey.observable.injEq] at hkey
      exact ⟨v, hv, r, hvr, hkey⟩
  · rintro ⟨v, hv, r, hvr, rfl, rfl⟩
    exact Or.inr ⟨r, List.mem_filterMap.mpr ⟨v, hv, hvr⟩, buildProjectionRow_key hvr⟩

/-- The keys after an update: those of the re-evaluated winners, and the stored ones that
no lookup reached. -/
theorem hasKey_update (hvalue : shouldCanonicalizePublishedHashFeed rt feed = false)
    (hforce : dirty.forceFull = false)
    (hok : (applyIncrementalProjectionUpdate rt feed itemJson now db t dirty).map Prod.fst = .ok t')
    {type : ObservableType} {value : String} :
    t'.HasKey (.observable type value) ↔
      (∃ v ∈ valueWinners rt feed .all now db (keepCandidate rt db t dirty), ∃ r,
        presentValue rt feed itemJson v = some r ∧ r.observableType = type ∧
          rt.lower r.observable = value) ∨
      t.HasKey (.observable type value) ∧
        .observable type value ∉ reachedKeys rt feed now db t dirty := by
  rw [applyIncrementalProjectionUpdate_table hforce] at hok
  rw [hasKey_refresh rt.dirtyBatch_pos hok, List.mem_map]
  refine or_congr_left ?_
  constructor
  · rintro ⟨r, hr, hkey⟩
    obtain ⟨v, hv, hvr⟩ := (mem_newRows_value hvalue).mp hr
    rw [buildProjectionRow_key hvr, projectionIdentityKey, IdentityKey.observable.injEq] at hkey
    exact ⟨v, hv, r, hvr, hkey⟩
  · rintro ⟨v, hv, r, hvr, rfl, rfl⟩
    exact ⟨r, (mem_newRows_value hvalue).mpr ⟨v, hv, hvr⟩, buildProjectionRow_key hvr⟩

/-- A bootstrap leaves distinct values exactly when it is sound. -/
theorem uniqueValues_bootstrap_iff {rowLimit : Option ℕ} (hkeyed' : WellKeyed rt t')
    (hok : bootstrapProjection rt feed itemJson now db rowLimit = .ok t') :
    UniqueValues rt t' ↔ (ProjectionAction.bootstrap feed itemJson now db rowLimit).Sound rt t := by
  rw [uniqueValues_iff hkeyed']
  simp only [hasKey_bootstrap hok]
  constructor
  · intro h v hv w hw r s hvr hws hsame
    exact h _ _ _ ⟨v, hv, r, hvr, rfl, rfl⟩ ⟨w, hw, s, hws, rfl, hsame.symm⟩
  · rintro h value a b ⟨v, hv, r, hvr, rfl, rfl⟩ ⟨w, hw, s, hws, rfl, hsame⟩
    exact h v hv w hw r s hvr hws hsame.symm

/-- An update from distinct values leaves distinct values exactly when it is sound. -/
theorem uniqueValues_update_iff (hkeyed : WellKeyed rt t) (hkeyed' : WellKeyed rt t')
    (hunique : UniqueValues rt t) (hvalue : shouldCanonicalizePublishedHashFeed rt feed = false)
    (hforce : dirty.forceFull = false)
    (hok : (applyIncrementalProjectionUpdate rt feed itemJson now db t dirty).map Prod.fst =
      .ok t') :
    UniqueValues rt t' ↔ (ProjectionAction.update feed itemJson now db dirty).Sound rt t := by
  rw [uniqueValues_iff hkeyed']
  rw [uniqueValues_iff hkeyed] at hunique
  simp only [ProjectionAction.Sound, hforce, Bool.false_eq_true, false_or,
    hasKey_update hvalue hforce hok]
  constructor
  · intro h v hv r hvr
    refine ⟨fun w hw s hws hsame => ?_, fun p hp hsame htype => ?_⟩
    · exact h _ _ _ (Or.inl ⟨v, hv, r, hvr, rfl, rfl⟩) (Or.inl ⟨w, hw, s, hws, rfl, hsame.symm⟩)
    · by_contra hreached
      have hpkey := hkeyed p hp
      rw [projectionIdentityKey] at hpkey
      rw [hpkey] at hreached
      exact htype (h _ _ _ (Or.inr ⟨⟨p, hp, hpkey⟩, hreached⟩)
        (Or.inl ⟨v, hv, r, hvr, rfl, hsame.symm⟩))
  · -- An old key of the value meets a new one of another type only if a lookup reached it.
    have hmixed : ∀ value a b,
        (∀ v ∈ valueWinners rt feed .all now db (keepCandidate rt db t dirty), ∀ r,
          presentValue rt feed itemJson v = some r → ∀ p ∈ t.rows,
            rt.lower p.observable = rt.lower r.observable →
            p.observableType ≠ r.observableType →
            p.identityKey ∈ reachedKeys rt feed now db t dirty) →
        (∃ v ∈ valueWinners rt feed .all now db (keepCandidate rt db t dirty), ∃ r,
          presentValue rt feed itemJson v = some r ∧ r.observableType = a ∧
            rt.lower r.observable = value) →
        t.HasKey (.observable b value) ∧
          .observable b value ∉ reachedKeys rt feed now db t dirty → a = b := by
      rintro value a b hseen ⟨v, hv, r, hvr, rfl, rfl⟩ ⟨⟨p, hp, hpkey⟩, hreached⟩
      have hown := hkeyed p hp
      rw [hpkey, projectionIdentityKey, IdentityKey.observable.injEq] at hown
      by_contra htype
      refine hreached (hpkey ▸ hseen v hv r hvr p hp hown.2.symm fun hsame => htype ?_)
      rw [hown.1, hsame]
    rintro h value a b (hnew | hold) (hnew' | hold')
    · obtain ⟨v, hv, r, hvr, rfl, rfl⟩ := hnew
      obtain ⟨w, hw, s, hws, rfl, hsame⟩ := hnew'
      exact (h v hv r hvr).1 w hw s hws hsame.symm
    · exact hmixed value a b (fun v hv r hvr => (h v hv r hvr).2) hnew hold'
    · exact (hmixed value b a (fun v hv r hvr => (h v hv r hvr).2) hnew' hold).symm
    · exact hunique value a b hold.1 hold'.1

/-- A step from distinct values leaves distinct values exactly when it is sound. -/
theorem ProjectionStep.uniqueValues_iff (hstep : ProjectionStep rt t action t')
    (hkeyed : WellKeyed rt t) (hunique : UniqueValues rt t) :
    UniqueValues rt t' ↔ action.Sound rt t := by
  have hkeyed' := hstep.wellKeyed hkeyed
  obtain ⟨hvalue, hok⟩ := hstep
  cases action with
  | bootstrap feed itemJson now db rowLimit => exact uniqueValues_bootstrap_iff hkeyed' hok
  | update feed itemJson now db dirty =>
    cases hforce : dirty.forceFull with
    | true =>
      simp only [ProjectionAction.run, applyIncrementalProjectionUpdate, hforce, if_true,
        Except.map] at hok
      obtain rfl := Except.ok.inj hok
      simp only [ProjectionAction.Sound, hforce, true_or, hunique]
    | false => exact uniqueValues_update_iff hkeyed hkeyed' hunique hvalue hforce hok

/-- A sound step of a run. -/
def SoundStep (rt : Runtime) (t t' : Projection) : Prop :=
  ∃ action : ProjectionAction, action.Sound rt t ∧ ProjectionStep rt t action t'

/-- What every state of a run of sound steps satisfies. -/
theorem invariant_of_soundRun (hrun : Relation.ReflTransGen (SoundStep rt) empty t) :
    WellKeyed rt t ∧ UniqueValues rt t := by
  induction hrun with
  | refl =>
    constructor
    · intro r hr
      cases hr
    · intro r hr
      cases hr
  | tail _ hstep ih =>
    obtain ⟨action, hsound, hstep⟩ := hstep
    exact ⟨hstep.wellKeyed ih.1, (hstep.uniqueValues_iff ih.1 ih.2).mpr hsound⟩

/-- A domain, before a URL row of the same text arrives. -/
def domainDb : Db := plainDb [plainIoc 1 .domain "evil.com" 10] (by simp [plainIoc])

/-- The domain and the newer URL row. -/
def domainAndUrlDb : Db :=
  plainDb [plainIoc 1 .domain "evil.com" 10, plainIoc 2 .url "evil.com" 20] (by simp [plainIoc])

/-- The bootstrap of a feed of domains and URLs over the domain. -/
def domainBootstrap : ProjectionAction :=
  .bootstrap (plainFeed [.domain, .url]) (fun _ _ => none) 0 domainDb none

/-- The update after the URL row was inserted. -/
def urlUpdate : ProjectionAction :=
  .update (plainFeed [.domain, .url]) (fun _ _ => none) 0 domainAndUrlDb
    ⟨[2], [], [(2, .url)], false⟩

/-- The projection a step leaves, when it succeeds. -/
def ProjectionAction.after (rt : Runtime) (t : Projection) (action : ProjectionAction) :
    Projection :=
  match action.run rt t with
  | .ok t' => t'
  | .error _ => t

theorem ProjectionAction.step_after {rt : Runtime} {t : Projection} {action : ProjectionAction}
    (hvalue : shouldCanonicalizePublishedHashFeed rt action.feed = false)
    (hok : (action.run rt t).isOk = true) : ProjectionStep rt t action (action.after rt t) := by
  refine ⟨hvalue, ?_⟩
  unfold ProjectionAction.after
  cases hrun : action.run rt t with
  | error e =>
    rw [hrun] at hok
    cases hok
  | ok t' => rfl

end TalonHound
