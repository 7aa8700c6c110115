import TalonHound.Library.Run
import TalonHound.PublishedFeed.Tick

/-!
# Filter edits and skipped ticks

A `PATCH` changes the settings of a feed and nothing else. A tick that generates compares
`filters_hash` with the one stored in the snapshots, and so do the two digest checks; a
tick without dirty rows skips without comparing. The section finds the runs in which a
window is skipped only while what is served was produced under the current settings.
-/

namespace TalonHound

open Bool Option

/-- The settings under which the served content of a format was produced: those of the active
chunk generation, which is served for the window `all`, or else of the latest snapshot. -/
def servedHash (dep : Deployment) (s : FeedState) (key : SnapshotKey) (format : FeedFormat) :
    Option FiltersPayload :=
  match (s.activeGenerations key).filter fun g =>
      dep.chunkedEnabled && key.window == .all && g.generation.formats.contains format with
  | some g => some g.configHash
  | none => (s.snapshots key format).map FeedSnapshot.filtersHash

/-- Every enabled format is served as produced under the current settings. -/
def ServesCurrent (rt : Runtime) (dep : Deployment) (s : FeedState) : Prop :=
  ∀ format ∈ s.formats, servedHash dep s s.snapshotKey format = some (s.filtersHash rt)

/-- If the last tick skipped the window, what is served is current. -/
def SkipServesCurrent (rt : Runtime) (dep : Deployment) (s : FeedState) : Prop :=
  ∀ reason advanced, s.lastTick = some ⟨.skipped reason, advanced⟩ → ServesCurrent rt dep s

/-- The latest snapshot of every enabled format stores the current `filters_hash`. -/
def StoredCurrent (rt : Runtime) (s : FeedState) : Prop :=
  ∀ format ∈ s.formats, (s.latest format).map FeedSnapshot.filtersHash = some (s.filtersHash rt)

/-- A plan skips unchecked only while the stored hashes are current, and where it publishes
without a chunk generation, no generation with other settings goes on being served. -/
def TickPlan.ServesEdits (rt : Runtime) (dep : Deployment) (s : FeedState) (plan : TickPlan) :
    Prop :=
  (plan.skipsUnchecked = true → StoredCurrent rt s) ∧
    (plan.leavesGeneration = true → s.window = .all → dep.chunkedEnabled = true →
      ∀ g ∈ s.activeGenerations s.snapshotKey, g.configHash = s.filtersHash rt)

/-- The plan of a tick serves every edit. -/
def EditsServed (rt : Runtime) (dep : Deployment) (s : FeedState) : FeedAction → Prop
  | .tick i => ∀ t plan, planTick rt dep s i = .ok (t, plan) → plan.ServesEdits rt dep s
  | _ => True

instance {rt : Runtime} {dep : Deployment} {s : FeedState} {plan : TickPlan} :
    Decidable (plan.ServesEdits rt dep s) :=
  inferInstanceAs (Decidable (((_ : Bool) = true → ∀ format ∈ s.formats, _ = _) ∧ (_ → _)))

instance {rt : Runtime} {dep : Deployment} {s : FeedState} (action : FeedAction) :
    Decidable (EditsServed rt dep s action) :=
  match action with
  | .change _ _ => isTrue trivial
  | .patch _ _ _ => isTrue trivial
  | .tick i =>
    match hplan : planTick rt dep s i with
    | .error _ => isTrue fun _ _ h => by
      rw [hplan] at h
      cases h
    | .ok (_, plan) => decidable_of_iff (plan.ServesEdits rt dep s)
      ⟨fun hserves _ _ h => by
        rw [hplan] at h
        cases h
        exact hserves,
      fun hserves => hserves _ _ hplan⟩

/-- The formats of a feed with these settings. -/
def FiltersPayload.formats (p : FiltersPayload) : List FeedFormat :=
  match p.formatKeys with
  | .plain => [.txt]
  | .jsonOnly _ => [.json]
  | .several formats _ => formats

/-- A served generation has the formats of its settings, and the snapshots of these formats
store the same settings. -/
def GenerationsMatch (dep : Deployment) (s : FeedState) : Prop :=
  ∀ key g, dep.chunkedEnabled = true → key.window = .all → s.activeGenerations key = some g →
    g.generation.formats = g.configHash.formats ∧ ∀ format ∈ g.generation.formats,
      (s.snapshots key format).map FeedSnapshot.filtersHash = some g.configHash

variable {rt : Runtime} {dep : Deployment} {s s' : FeedState} {i : TickInput}

/-- The settings determine the formats. -/
theorem formats_filtersHash {feed : Feed} {window : FeedWindow} :
    (filtersHash rt feed window).formats = resolvePublishedFeedFormats feed := by
  change (match formatKeysOf feed with
    | .plain => [FeedFormat.txt]
    | .jsonOnly _ => [FeedFormat.json]
    | .several formats _ => formats) = _
  simp only [formatKeysOf]
  by_cases htxt : resolvePublishedFeedFormats feed = [.txt]
  · rw [if_pos htxt, htxt]
  · rw [if_neg htxt]
    by_cases hjson : resolvePublishedFeedFormats feed = [.json]
    · rw [if_pos hjson, hjson]
    · rw [if_neg hjson]

/-- While generations match the snapshots, what is served is current exactly when what is
stored is. -/
theorem GenerationsMatch.servesCurrent_iff (h : GenerationsMatch dep s) :
    ServesCurrent rt dep s ↔ StoredCurrent rt s := by
  refine forall₂_congr fun format _ => ?_
  change servedHash dep s s.snapshotKey format = _ ↔
    (s.snapshots s.snapshotKey format).map FeedSnapshot.filtersHash = _
  unfold servedHash
  split
  · next g hserved =>
    obtain ⟨hactive, hsome⟩ := filter_eq_some_iff.mp hserved
    simp only [and_eq_true, beq_iff_eq, List.contains_iff_mem] at hsome
    obtain ⟨⟨hchunked, hall⟩, hformat⟩ := hsome
    rw [(h _ g hchunked hall hactive).2 format hformat]
  · rfl

/-- Both digest checks compare the stored hash of every format. -/
theorem storedCurrent_of_skipReason (h : skipReason rt s.window (s.view i) s.latest ≠ none) :
    StoredCurrent rt s := by
  have hstored : ∀ format, (∃ latest, s.latest format = some latest ∧
      latest.filtersHash = filtersHash rt s.effectiveFeed s.window) →
      (s.latest format).map FeedSnapshot.filtersHash = some (s.filtersHash rt) := by
    rintro format ⟨latest, hlatest, hhash⟩
    rw [hlatest, map_some, hhash]
    rfl
  intro format hformat
  refine hstored format ?_
  simp only [skipReason] at h
  split at h
  · exact absurd rfl h
  · split at h
    · next hwatermark =>
      rw [and_eq_true, List.all_eq_true] at hwatermark
      obtain ⟨hfirst, hrest⟩ := hwatermark
      have hmem : format = (resolvePublishedFeedFormats s.effectiveFeed).headD .txt ∨
          format ∈ (resolvePublishedFeedFormats s.effectiveFeed).tail := by
        change format ∈ resolvePublishedFeedFormats s.effectiveFeed at hformat
        cases hformats : resolvePublishedFeedFormats s.effectiveFeed with
        | nil => rw [hformats] at hformat; cases hformat
        | cons first rest =>
          rw [hformats] at hformat
          exact List.mem_cons.mp hformat
      rcases hmem with rfl | hmem
      · unfold canSkipPublishedFeedRegeneration at hfirst
        split at hfirst
        · cases hfirst
        · next latest hlatest =>
          simp only [and_eq_true, beq_iff_eq] at hfirst
          exact ⟨latest, hlatest, hfirst.1.1.1.1.2⟩
      · have hsame := hrest format hmem
        simp only [sameConfig, any_eq_true, and_eq_true, beq_iff_eq] at hsame
        obtain ⟨latest, hlatest, hhash, -⟩ := hsame
        exact ⟨latest, hlatest, hhash⟩
    · split at h
      · next hmatch =>
        have hany := List.all_eq_true.mp hmatch format hformat
        simp only [any_eq_true, and_eq_true, beq_iff_eq] at hany
        obtain ⟨latest, hlatest, hhash, -⟩ := hany
        exact ⟨latest, hlatest, hhash⟩
      · exact absurd rfl h

/-- Only the stored tables matter. -/
theorem GenerationsMatch.congr (h : GenerationsMatch dep s) (hsnapshots : s'.snapshots = s.snapshots)
    (hactive : s'.activeGenerations = s.activeGenerations) : GenerationsMatch dep s' := by
  unfold GenerationsMatch
  rw [hsnapshots, hactive]
  exact h

/-- Other windows are retired as a whole. -/
theorem GenerationsMatch.finish (h : GenerationsMatch dep s) (outcome : TickOutcome)
    (advanced : Bool) : GenerationsMatch dep (s.finish outcome advanced) := by
  intro key g hchunked hall hactive
  change (if key.window = s.window then s.activeGenerations key else none) = some g at hactive
  split at hactive
  · next hwindow =>
    have hsnapshots : ∀ format, (s.finish outcome advanced).snapshots key format =
        s.snapshots key format := fun format => if_pos hwindow
    simp only [hsnapshots]
    exact h key g hchunked hall hactive
  · cases hactive

variable {fingerprint : ExportFingerprint} {contents : FeedFormat → FeedContent} {plan : TickPlan}
  {action : FeedAction} {advanced : Bool} {reason : TickSkip}

/-- Snapshots stored beside a generation of the same settings match it. -/
theorem GenerationsMatch.persist {fingerprint : ExportFingerprint}
    {contents : FeedFormat → FeedContent} (h : GenerationsMatch dep s)
    (hserved : s.window = .all → dep.chunkedEnabled = true →
      ∀ g, s.activeGenerations s.snapshotKey = some g → g.configHash = s.filtersHash rt) :
    GenerationsMatch dep { s with snapshots := persistSnapshots rt s i fingerprint contents } := by
  intro key g hchunked hall hactive
  obtain ⟨hformats, hsnapshots⟩ := h key g hchunked hall hactive
  refine ⟨hformats, fun format hformat => ?_⟩
  change (persistSnapshots rt s i fingerprint contents key format).map FeedSnapshot.filtersHash = _
  unfold persistSnapshots
  split
  · next hkey =>
    obtain ⟨rfl, -⟩ := hkey
    rw [hserved hall hchunked g hactive]
    rfl
  · exact hsnapshots format hformat

/-- A generation activated with snapshots of its formats matches them. -/
theorem GenerationsMatch.persistAndActivate {g : Generation} (h : GenerationsMatch dep s)
    (hformats : g.formats = s.formats) :
    GenerationsMatch dep { s with
      snapshots := persistSnapshots rt s i fingerprint contents
      activeGenerations := fun key =>
        if key = s.snapshotKey then some ⟨g, s.filtersHash rt⟩ else s.activeGenerations key } := by
  intro key active hchunked hall hactive
  simp only at hactive
  split at hactive
  · next hkey =>
    cases hactive
    refine ⟨hformats.trans formats_filtersHash.symm, fun format hformat => ?_⟩
    change (persistSnapshots rt s i fingerprint contents key format).map
      FeedSnapshot.filtersHash = _
    rw [persistSnapshots, if_pos ⟨hkey, hformats ▸ hformat⟩]
    rfl
  · next hkey =>
    obtain ⟨hformats', hsnapshots⟩ := h key active hchunked hall hactive
    refine ⟨hformats', fun format hformat => ?_⟩
    change (persistSnapshots rt s i fingerprint contents key format).map
      FeedSnapshot.filtersHash = _
    rw [persistSnapshots, if_neg fun hboth => hkey hboth.1]
    exact hsnapshots format hformat

/-- A generation on top of the active one matches the snapshots: the first format stores the
current settings, so the parent and its formats do. -/
theorem GenerationsMatch.activate {parent : ActiveGeneration} {g : Generation}
    (h : GenerationsMatch dep s) (hparent : s.activeForFirst = some parent)
    (hchanged : filtersChanged rt s i = false) (hformats : g.formats = s.formats) :
    GenerationsMatch dep { s with activeGenerations := fun key =>
        if key = s.snapshotKey then some ⟨g, s.filtersHash rt⟩ else s.activeGenerations key } := by
  intro key active hchunked hall hactive
  simp only at hactive
  split at hactive
  · next hkey =>
    cases hactive
    subst hkey
    obtain ⟨hactiveParent, hfirst⟩ := filter_eq_some_iff.mp hparent
    rw [List.contains_iff_mem] at hfirst
    obtain ⟨hparentFormats, hparentSnapshots⟩ := h _ parent hchunked hall hactiveParent
    have hhash : parent.configHash = s.filtersHash rt := by
      have hstored := hparentSnapshots _ hfirst
      obtain ⟨latest, hlatest, hlatestHash⟩ := map_eq_some_iff.mp hstored
      have hlatest' : s.latest (s.formats.headD .txt) = some latest := hlatest
      simp only [filtersChanged, hlatest', any_some, or_eq_false_iff,
        bne_eq_false_iff_eq] at hchanged
      rw [← hlatestHash, hchanged.2]
    refine ⟨hformats.trans formats_filtersHash.symm, fun format hformat => ?_⟩
    have hsame : parent.generation.formats = s.formats := by
      rw [hparentFormats, hhash]
      exact formats_filtersHash
    have hstored := hparentSnapshots format (by rw [hsame, ← hformats]; exact hformat)
    rw [hhash] at hstored
    exact hstored
  · exact h key active hchunked hall hactive

/-- Publishing keeps generations and snapshots together, unless it leaves a generation with
other settings. -/
theorem GenerationsMatch.publish {fingerprint : ExportFingerprint}
    {contents : FeedFormat → FeedContent} {advances activates : Bool} (h : GenerationsMatch dep s)
    (hserved : activates = false → s.window = .all → dep.chunkedEnabled = true →
      ∀ g, s.activeGenerations s.snapshotKey = some g → g.configHash = s.filtersHash rt) :
    GenerationsMatch dep (publish rt dep s i fingerprint contents advances activates) := by
  rcases publish_cases rfl with hfail | ⟨hactivates, hwritten⟩ | ⟨-, g, hformats, hactivated⟩
  · rw [hfail]
    exact h.congr rfl rfl
  · rw [hwritten]
    refine GenerationsMatch.finish ?_ _ _
    have hpersisted : GenerationsMatch dep
        { s with snapshots := persistSnapshots rt s i fingerprint contents } :=
      h.persist (hserved hactivates)
    cases advances with
    | true => exact hpersisted.congr rfl rfl
    | false => exact hpersisted
  · rw [hactivated]
    refine GenerationsMatch.finish ?_ _ _
    exact (h.persistAndActivate hformats).congr rfl rfl

/-- A tick in incremental mode found no other settings in the first format. -/
theorem filtersChanged_of_incremental (h : decideRefreshMode rt dep s i = .incremental) :
    filtersChanged rt s i = false := by
  by_contra hchanged
  simp only [decideRefreshMode] at h
  split at h
  · cases h
  · rw [if_pos (by simpa using hchanged)] at h
    split at h
    · cases h
    · split at h <;> cases h

/-- Carrying a plan out keeps generations and snapshots together. -/
theorem GenerationsMatch.runPlan {t : Projection} {plan : TickPlan} (h : GenerationsMatch dep s)
    (hplan : planTick rt dep s i = .ok (t, plan))
    (hserved : plan.leavesGeneration = true → s.window = .all → dep.chunkedEnabled = true →
      ∀ g, s.activeGenerations s.snapshotKey = some g → g.configHash = s.filtersHash rt) :
    GenerationsMatch dep (runPlan rt dep { s with projection := t } i plan) := by
  have hupdated : GenerationsMatch dep { s with projection := t } := h.congr rfl rfl
  have hresult := runPlan_result rt dep { s with projection := t } i plan
  generalize TalonHound.runPlan rt dep { s with projection := t } i plan = s' at hresult ⊢
  cases hresult with
  | failed hsame =>
    obtain ⟨_, _, _, rfl⟩ := hsame
    exact h.congr rfl rfl
  | skipped reason =>
    refine GenerationsMatch.finish ?_ _ _
    exact h.congr rfl rfl
  | unchanged reason => exact hupdated.finish _ _
  | chunked parent chunkKeys hformats =>
    cases planTick_reason hplan with
    | chunked hmode hparent =>
      have hchanged : filtersChanged rt s i = false := filtersChanged_of_incremental hmode
      refine GenerationsMatch.finish ?_ _ _
      exact (hupdated.activate hparent hchanged hformats).congr rfl rfl
  | published contents advances activates hsame hleaves =>
    obtain ⟨_, _, _, rfl⟩ := hsame
    refine GenerationsMatch.publish (h.congr rfl rfl) ?_
    rintro rfl
    exact hserved hleaves

/-- Every guarded step keeps generations and snapshots together. -/
theorem GenerationsMatch.step (h : GenerationsMatch dep s) (hguard : EditsServed rt dep s action)
    (hstep : s.step rt dep action = some s') : GenerationsMatch dep s' := by
  cases action with
  | change db knownFeedKeys | patch feed name updatedAt =>
    cases hstep
    exact h.congr rfl rfl
  | tick i =>
    cases hstep
    unfold runTick
    split
    · exact h.congr rfl rfl
    · next t plan hplan => exact h.runPlan hplan (hguard t plan hplan).2

/-- A finished tick leaves the stored settings of its window. -/
theorem storedCurrent_finish {outcome : TickOutcome} :
    StoredCurrent rt (s.finish outcome advanced) ↔ StoredCurrent rt s := by
  have hlatest : ∀ format, (s.finish outcome advanced).latest format = s.latest format :=
    fun format => if_pos rfl
  unfold StoredCurrent
  simp only [hlatest]
  rfl

/-- Publishing generates or fails. -/
theorem publish_not_skipped {advances activates : Bool} :
    (publish rt dep s i fingerprint contents advances activates).lastTick ≠
      some ⟨.skipped reason, advanced⟩ := by
  intro hlast
  generalize hpublish : publish rt dep s i fingerprint contents advances activates = published
    at hlast
  rcases publish_cases hpublish with h | ⟨-, h⟩ | ⟨-, g, -, h⟩ <;> rw [h] at hlast <;> cases hlast

/-- Only the three skipping plans skip. -/
theorem plan_of_skipped {plan : TickPlan} {reason : TickSkip} {advanced : Bool}
    (h : (runPlan rt dep s i plan).lastTick = some ⟨.skipped reason, advanced⟩) :
    plan.skipsUnchecked = true ∨ ∃ r, plan = .unchanged r := by
  have hresult := runPlan_result rt dep s i plan
  generalize runPlan rt dep s i plan = s' at h hresult
  cases hresult with
  | failed => cases h
  | skipped _ hskips => exact Or.inl hskips
  | unchanged r => exact Or.inr ⟨r, rfl⟩
  | chunked => cases h
  | published => exact absurd h publish_not_skipped

/-- A tick that skips leaves the stored settings as it found them. -/
theorem storedCurrent_of_skipped
    (h : (runTick rt dep s i).lastTick = some ⟨.skipped reason, advanced⟩) :
    (StoredCurrent rt (runTick rt dep s i) ↔ StoredCurrent rt s) ∧
      ∃ t plan, planTick rt dep s i = .ok (t, plan) ∧
        (plan.skipsUnchecked = true ∨ ∃ r, plan = .unchanged r) := by
  unfold runTick at h ⊢
  split at h
  · cases h
  · next t plan hplan =>
    have hskips := plan_of_skipped h
    refine ⟨?_, t, plan, hplan, hskips⟩
    cases plan with
    | noop | windowSkip => exact storedCurrent_finish (s := FeedState.advance _ i)
    | unchanged r => exact storedCurrent_finish (s := { s with projection := t })
    | chunked | fromProjection | fromQuery => simp [TickPlan.skipsUnchecked] at hskips

/-- After a guarded step, a skip serves the current settings. -/
theorem skipServesCurrent_of_step (hmatch : GenerationsMatch dep s')
    (hguard : EditsServed rt dep s action) (hstep : s.step rt dep action = some s') :
    SkipServesCurrent rt dep s' := by
  intro reason advanced hlast
  rw [hmatch.servesCurrent_iff]
  cases action with
  | change db knownFeedKeys =>
    cases hstep
    cases hlast
  | patch feed name updatedAt =>
    cases hstep
    cases hlast
  | tick i =>
    cases hstep
    obtain ⟨hiff, t, plan, hplan, hskips⟩ := storedCurrent_of_skipped hlast
    rw [hiff]
    rcases hskips with hunchecked | ⟨r, rfl⟩
    · exact (hguard t plan hplan).1 hunchecked
    · cases planTick_reason hplan with
      | unchanged hreason =>
        refine storedCurrent_of_skipReason (i := i) ?_
        rw [hreason]
        exact some_ne_none r

/-- A tick whose plan skips unchecked serves the current settings exactly while they are
stored. -/
theorem skipServesCurrent_iff_of_unchecked {t : Projection} (h : GenerationsMatch dep s)
    (hplan : planTick rt dep s i = .ok (t, plan)) (hunchecked : plan.skipsUnchecked = true) :
    SkipServesCurrent rt dep (runTick rt dep s i) ↔ StoredCurrent rt s := by
  have hrun : runTick rt dep s i = runPlan rt dep { s with projection := t } i plan := by
    unfold runTick
    rw [hplan]
  have hleaves : plan.leavesGeneration = false := by
    cases plan <;> first | rfl | cases hunchecked
  have hmatch : GenerationsMatch dep (runTick rt dep s i) := by
    rw [hrun]
    exact h.runPlan hplan fun hleft => absurd hleft (by simp [hleaves])
  obtain ⟨reason, hlast⟩ : ∃ reason,
      (runTick rt dep s i).lastTick = some ⟨.skipped reason, true⟩ := by
    rw [hrun]
    cases plan with
    | noop => exact ⟨_, rfl⟩
    | windowSkip => exact ⟨_, rfl⟩
    | unchanged | chunked | fromProjection | fromQuery => cases hunchecked
  rw [← (storedCurrent_of_skipped hlast).1, ← hmatch.servesCurrent_iff]
  constructor
  · intro hserves
    exact hserves reason true hlast
  · intro hserves _ _ _
    exact hserves

/-- What guarded steps keep. -/
structure EditsInvariant (rt : Runtime) (dep : Deployment) (s : FeedState) : Prop where
  generationsMatch : GenerationsMatch dep s
  skipServesCurrent : SkipServesCurrent rt dep s

/-- A feed without snapshots and generations has nothing that disagrees. -/
theorem EditsInvariant.of_new (h : s.New) : EditsInvariant rt dep s where
  generationsMatch key g _ _ hactive := by
    rw [h.activeGenerations key] at hactive
    cases hactive
  skipServesCurrent reason advanced hlast := by
    rw [h.lastTick] at hlast
    cases hlast

/-- The step lemma. -/
theorem EditsInvariant.step (h : EditsInvariant rt dep s) (hguard : EditsServed rt dep s action)
    (hstep : s.step rt dep action = some s') : EditsInvariant rt dep s' := by
  have hmatch : GenerationsMatch dep s' := h.generationsMatch.step hguard hstep
  exact ⟨hmatch, skipServesCurrent_of_step hmatch hguard hstep⟩

/-- In every run in which a tick skips without a comparison only while the stored hashes are
current, and in which artifacts published without a chunk generation leave none with other
settings to be served, a skipped window is served as produced under the current settings.
From such a run on, a tick that skips without a comparison does so exactly while the stored
hashes are current. -/
theorem edits_not_swallowed {actions : List FeedAction} (hnew : s.New)
    (hrun : Run (FeedState.step rt dep) (EditsServed rt dep) s actions s') :
    SkipServesCurrent rt dep s' ∧ ∀ i s'' t plan, s'.step rt dep (.tick i) = some s'' →
        planTick rt dep s' i = .ok (t, plan) → plan.skipsUnchecked = true →
          (SkipServesCurrent rt dep s'' ↔ StoredCurrent rt s') := by
  have hinv : EditsInvariant rt dep s' :=
    hrun.invariant (fun _ _ _ hinv hguard hstep => hinv.step hguard hstep)
      (EditsInvariant.of_new hnew)
  refine ⟨hinv.skipServesCurrent, fun i s'' t plan hstep hplan hunchecked => ?_⟩
  cases hstep
  exact skipServesCurrent_iff_of_unchecked hinv.generationsMatch hplan hunchecked

/-- The feed asks for a higher confidence than its row has. -/
def raiseConfidence : FeedAction :=
  .patch { plainFeed [.domain] with minConfidence := some 75 } "plain" 15

/-- A quiet tick after the edit skips the window, and the old rows go on being served. -/
theorem edits_swallowed :
    ¬ ∀ (rt : Runtime) (dep : Deployment) (s s' : FeedState) (actions : List FeedAction), s.New →
      Run (FeedState.step rt dep) (fun _ _ => True) s actions s' → SkipServesCurrent rt dep s' := by
  intro h
  have hexec : (Run.exec (FeedState.step plainRuntime plainDeployment) (fun _ _ => True) domainState
      [plainTick 10, raiseConfidence, plainTick 20]).any (fun s =>
        decide (s.lastTick = some ⟨.skipped .noopIncremental, true⟩) &&
          decide (.txt ∈ s.formats ∧ servedHash plainDeployment s s.snapshotKey .txt ≠
            some (s.filtersHash plainRuntime))) = true := by
    decide +kernel
  obtain ⟨s', hs, hstale⟩ := (any_eq_true _ _).mp hexec
  rw [and_eq_true, decide_eq_true_eq, decide_eq_true_eq] at hstale
  obtain ⟨hlast, hformat, hserved⟩ := hstale
  exact hserved (h plainRuntime plainDeployment domainState s' _ plainState_new (Run.of_exec hs) _ _
    hlast .txt hformat)

/-- When a new row arrives after the edit, the next tick publishes under the new settings, and
the quiet tick after it may skip. -/
theorem edits_not_swallowed_regenerated :
    ∃ s', s'.lastTick = some ⟨.skipped .noopIncremental, true⟩ ∧
      SkipServesCurrent plainRuntime plainDeployment s' := by
  have hexec : (Run.exec (FeedState.step plainRuntime plainDeployment)
      (EditsServed plainRuntime plainDeployment) domainState
      [plainTick 10, raiseConfidence, .change (plainChanges [plainIoc 1 .domain "a.com" 5,
        plainIoc 2 .domain "b.com" 17] (by decide)) [], plainTick 20, plainTick 30]).any
        (fun s => decide (s.lastTick = some ⟨.skipped .noopIncremental, true⟩)) = true := by
    decide +kernel
  obtain ⟨s', hs, hlast⟩ := (any_eq_true _ _).mp hexec
  exact ⟨s', of_decide_eq_true hlast, (edits_not_swallowed plainState_new (Run.of_exec hs)).1⟩

end TalonHound
