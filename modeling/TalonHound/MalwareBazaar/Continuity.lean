import TalonHound.Library.Run
import TalonHound.MalwareBazaar.Dump

/-!
# No interval is lost

Runs of recent imports, freshness ticks and recoveries. A time that no import covers is in the
pending gap or in a range that a recovery has replayed, as long as no import starts a second outage
while a gap is pending and no recovery clears a gap that its range does not contain.
-/

namespace TalonHound.MalwareBazaar

open Option

/-- The coverage row, and what the imports and recoveries so far have fetched. -/
structure ContinuityState where
  coverage : Option Coverage
  /-- The newest sample of the first import, or its time when it brought none. -/
  origin : Option ℤ
  /-- The windows of the recent imports. -/
  windows : List (ℤ × ℤ)
  /-- The ranges of the completed recoveries. -/
  replayed : List (ℤ × ℤ)
  deriving DecidableEq

def ContinuityState.initial : ContinuityState := ⟨none, none, [], []⟩

/-- What moves the coverage. -/
inductive CoverageAction where
  | recentSuccess (bounds : RecentBounds) (now : ℤ)
  | freshnessTick (now : ℤ)
  | recoveryStart (now : ℤ)
  | recoveryProgress (scanLines : ℕ) (dumpIdentity : Option String) (watermarkFirstSeen : Option ℤ)
  | recoveryFailure (errorMessage : String)
  /-- The range of the stored gap, or one given by hand. -/
  | recoveryComplete (start stop now : ℤ)

namespace ContinuityState

/-- `mutateCoverage`, for the transitions that need a row. -/
def mutate (f : Coverage → Coverage) (s : ContinuityState) : ContinuityState :=
  { s with coverage := s.coverage.map f }

end ContinuityState

/-- One step; `none` when the action is not possible. -/
def coverageStep (s : ContinuityState) : CoverageAction → Option ContinuityState
  | .recentSuccess bounds now =>
    if ∀ w ∈ bounds, w.1 ≤ w.2 then
      let next := nextCoverageAfterRecentSuccess s.coverage bounds now
      some { s with
        coverage := some next
        origin := if s.coverage.isNone then next.coveredThrough else s.origin
        windows := bounds.toList ++ s.windows }
    else none
  | .freshnessTick now => some (s.mutate (nextCoverageAfterFreshnessTick · now))
  | .recoveryStart now => some (s.mutate (nextCoverageAfterRecoveryStart · now))
  | .recoveryProgress scanLines dumpIdentity watermark =>
    some (s.mutate (nextCoverageAfterRecoveryProgress · scanLines dumpIdentity watermark))
  | .recoveryFailure errorMessage =>
    some (s.mutate (nextCoverageAfterRecoveryFailure · errorMessage))
  | .recoveryComplete start stop now =>
    if start ≤ stop then
      some { s.mutate (nextCoverageAfterRecoveryComplete · stop now) with
        replayed := (start, stop) :: s.replayed }
    else none

/-- The time lies in a window, up to the slack. -/
def ContinuityState.InWindow (s : ContinuityState) (t : ℤ) : Prop :=
  ∃ w ∈ s.windows, w.1 - continuitySlackMs ≤ t ∧ t ≤ w.2

/-- The time lies in the pending gap. -/
def Coverage.InGap (c : Coverage) (t : ℤ) : Prop :=
  ∃ start ∈ c.gapFrom, ∃ stop ∈ c.gapTo, start ≤ t ∧ t ≤ stop

/-- A completed recovery has replayed the time. -/
def ContinuityState.Replayed (s : ContinuityState) (t : ℤ) : Prop :=
  ∃ r ∈ s.replayed, r.1 ≤ t ∧ t ≤ r.2

/-- Every time from the first import to `covered_through` is accounted for. -/
def ContinuityState.NothingLost (s : ContinuityState) : Prop :=
  ∀ c ∈ s.coverage, ∀ origin ∈ s.origin, ∀ covered ∈ c.coveredThrough, ∀ t, origin < t →
    t ≤ covered → s.InWindow t ∨ c.InGap t ∨ s.Replayed t

/-- The one gap of the row is enough: while it is pending, no import leaves a time out that is not
in it, and no recovery completes that does not replay all of it. -/
def KeepsGap (s : ContinuityState) : CoverageAction → Prop
  | .recentSuccess bounds _ => ∀ c ∈ s.coverage, c.status.isGap = true →
      continuityIsBroken c.coveredThrough (bounds.map Prod.fst) = true →
        ∃ start ∈ c.gapFrom, ∃ stop ∈ c.gapTo, (∀ covered ∈ c.coveredThrough, start ≤ covered) ∧
          ∀ w ∈ bounds, w.1 - continuitySlackMs ≤ stop
  | .recoveryComplete start stop _ => ∀ c ∈ s.coverage, ∀ gapFrom ∈ c.gapFrom, ∀ gapTo ∈ c.gapTo,
      start ≤ gapFrom ∧ gapTo ≤ stop
  | _ => True

instance (s : ContinuityState) (a : CoverageAction) : Decidable (KeepsGap s a) := by
  cases a <;> unfold KeepsGap <;> infer_instance

variable {s s' : ContinuityState} {c : Coverage}

/-- The row accounts for every time up to `covered_through`. -/
structure RowInv (s : ContinuityState) (origin : ℤ) (c : Coverage) : Prop where
  covered : ∃ covered ∈ c.coveredThrough, ∀ t, origin < t → t ≤ covered →
    s.InWindow t ∨ c.InGap t ∨ s.Replayed t
  /-- A gap is recorded under a status that says so. -/
  status : c.gapFrom.isSome = true ∨ c.gapTo.isSome = true → c.status.isGap = true

/-- The invariant. -/
structure ContinuityInv (s : ContinuityState) : Prop where
  row : ∀ c ∈ s.coverage, ∃ origin ∈ s.origin, RowInv s origin c

theorem ContinuityInv.nothingLost (hinv : ContinuityInv s) : s.NothingLost := by
  intro c hc origin horigin covered hcovered
  obtain ⟨origin', horigin', hrow⟩ := hinv.row c hc
  obtain ⟨covered', hcovered', hall⟩ := hrow.covered
  obtain rfl : origin = origin' := mem_unique horigin horigin'
  obtain rfl : covered = covered' := mem_unique hcovered hcovered'
  exact hall

/-- A transition that keeps the gap and `covered_through`. -/
theorem ContinuityInv.mutate {f : Coverage → Coverage} (hinv : ContinuityInv s)
    (hcovered : ∀ c, (f c).coveredThrough = c.coveredThrough)
    (hfrom : ∀ c, (f c).gapFrom = c.gapFrom) (hto : ∀ c, (f c).gapTo = c.gapTo)
    (hstatus : ∀ c, ((c.gapFrom.isSome = true ∨ c.gapTo.isSome = true → c.status.isGap = true)) →
      c.gapFrom.isSome = true ∨ c.gapTo.isSome = true → (f c).status.isGap = true) :
    ContinuityInv (s.mutate f) := by
  refine ⟨fun c hc => ?_⟩
  obtain ⟨d, hd, rfl⟩ := map_eq_some_iff.mp hc
  obtain ⟨origin, horigin, hrow⟩ := hinv.row d hd
  refine ⟨origin, horigin, ⟨?_, ?_⟩⟩
  · rw [hcovered]
    obtain ⟨covered, hmem, hall⟩ := hrow.covered
    refine ⟨covered, hmem, fun t hlow hhigh => ?_⟩
    have hgap : (f d).InGap t ↔ d.InGap t := by rw [Coverage.InGap, Coverage.InGap, hfrom, hto]
    rw [hgap]
    exact hall t hlow hhigh
  · rw [hfrom, hto]
    exact hstatus d hrow.status

variable {covered now : ℤ}

theorem maxTs_some_left (newest : Option ℤ) :
    ∃ next, maxTs (some covered) newest = some next ∧ (next = covered ∨ newest = some next) := by
  cases newest with
  | none => exact ⟨covered, rfl, Or.inl rfl⟩
  | some newest =>
    refine ⟨max covered newest, rfl, ?_⟩
    rcases le_total covered newest with h | h
    · exact Or.inr (congrArg some (max_eq_right h).symm)
    · exact Or.inl (max_eq_left h)

/-- The times between `covered_through` and a window that follows without a break are in the window,
up to the slack. -/
theorem le_of_not_broken {covered oldest : ℤ}
    (h : continuityIsBroken (some covered) (some oldest) = false) :
    oldest - continuitySlackMs ≤ covered := by
  have hnot := of_decide_eq_false h
  omega

/-- What an outage loses is in the interval that is recorded for it. -/
theorem gapInterval_spec {oldest : ℤ} (h : continuityIsBroken (some covered) (some oldest) = true) :
    (gapInterval covered oldest).1 ≤ covered ∧ oldest ≤ (gapInterval covered oldest).2 := by
  have hbroken : oldest > covered + continuitySlackMs := of_decide_eq_true h
  unfold gapInterval
  unfold gapOverlapMs
  dsimp only
  split <;> dsimp only <;> omega

/-- The row after an import accounts for the times up to its newest sample. -/
theorem RowInv.recent {origin : ℤ} {bounds : RecentBounds} {c' : Coverage}
    (hrow : RowInv s origin c)
    (hcovered : c'.coveredThrough = maxTs c.coveredThrough (bounds.map Prod.snd))
    (hstatus : c'.gapFrom.isSome = true ∨ c'.gapTo.isSome = true → c'.status.isGap = true)
    (hgap : ∀ t, c.InGap t → c'.InGap t)
    (hlost : ∀ covered ∈ c.coveredThrough, ∀ w ∈ bounds, ∀ t, covered < t →
      t < w.1 - continuitySlackMs → c'.InGap t) :
    RowInv { s with
      coverage := some c'
      windows := bounds.toList ++ s.windows } origin c' := by
  obtain ⟨covered, hmem, hall⟩ := hrow.covered
  have hmem' : c.coveredThrough = some covered := hmem
  rw [hmem'] at hcovered
  obtain ⟨next, hnext, hcases⟩ := maxTs_some_left (bounds.map Prod.snd)
  refine ⟨⟨next, hcovered.trans hnext, fun t hlow hhigh => ?_⟩, hstatus⟩
  rcases le_or_gt t covered with hold | hnew
  · rcases hall t hlow hold with ⟨w, hw, hin⟩ | hin | hin
    · exact Or.inl ⟨w, List.mem_append_right _ hw, hin⟩
    · exact Or.inr (Or.inl (hgap t hin))
    · exact Or.inr (Or.inr hin)
  · rcases hcases with rfl | hnewest
    · omega
    · obtain ⟨w, hw, rfl⟩ := map_eq_some_iff.mp hnewest
      rcases lt_or_ge t (w.1 - continuitySlackMs) with hout | hin
      · exact Or.inr (Or.inl (hlost covered hmem w hw t hnew hout))
      · exact Or.inl ⟨w, List.mem_append_left _ (by simp [hw]), hin, hhigh⟩

theorem ContinuityInv.recentSuccess {bounds : RecentBounds} (hinv : ContinuityInv s)
    (hguard : KeepsGap s (.recentSuccess bounds now)) :
    ContinuityInv { s with
      coverage := some (nextCoverageAfterRecentSuccess s.coverage bounds now)
      origin := if s.coverage.isNone then
        (nextCoverageAfterRecentSuccess s.coverage bounds now).coveredThrough else s.origin
      windows := bounds.toList ++ s.windows } := by
  refine ⟨fun c' hc' => ?_⟩
  cases hc'
  cases hcoverage : s.coverage with
  | none =>
    -- The first import accounts for no time before its newest sample.
    have hfirst : ∀ newest : ℤ, (nextCoverageAfterRecentSuccess none bounds now).coveredThrough =
        some newest → ∃ origin ∈ some newest, RowInv { s with
          coverage := some (nextCoverageAfterRecentSuccess none bounds now)
          origin := some newest
          windows := bounds.toList ++ s.windows } origin
            (nextCoverageAfterRecentSuccess none bounds now) := by
      intro newest hnewest
      refine ⟨newest, rfl, ⟨⟨newest, hnewest, fun t hlow hhigh => ?_⟩, ?_⟩⟩
      · omega
      · rintro (h | h) <;> cases h
    cases bounds with
    | none => exact hfirst now rfl
    | some w => exact hfirst w.2 rfl
  | some c =>
    obtain ⟨origin, horigin, hrow⟩ := hinv.row c hcoverage
    refine ⟨origin, horigin, ?_⟩
    obtain ⟨covered, hcovered, -⟩ := hrow.covered
    unfold nextCoverageAfterRecentSuccess
    dsimp only
    split
    · -- A gap is pending and stays as it is.
      next hgap =>
      refine hrow.recent rfl (fun _ => hgap) (fun _ h => h) ?_
      intro covered' hcovered' w hw t hlow hhigh
      obtain rfl : covered = covered' := mem_unique hcovered hcovered'
      obtain rfl : bounds = some w := hw
      cases hbroken : continuityIsBroken (some covered) (some w.1) with
      | false =>
        have hle := le_of_not_broken hbroken
        omega
      | true =>
        obtain ⟨start, hstart, stop, hstop, hfrom, hto⟩ :=
          hguard c hcoverage hgap (by rw [hcovered]; exact hbroken)
        have hlow' := hfrom covered hcovered
        have hhigh' := hto w rfl
        exact ⟨start, hstart, stop, hstop, by omega, by omega⟩
    · next hstatus =>
      have hnone : ∀ t, ¬ c.InGap t := by
        rintro t ⟨start, hstart, -⟩
        exact hstatus (hrow.status (Or.inl (isSome_of_mem hstart)))
      split
      · -- The outage is recorded as the gap.
        next hbroken =>
        refine hrow.recent rfl (fun _ => rfl) (fun t h => absurd h (hnone t)) ?_
        intro covered' hcovered' w hw t hlow hhigh
        obtain rfl : covered = covered' := mem_unique hcovered hcovered'
        obtain rfl : bounds = some w := hw
        rw [hcovered] at hbroken
        obtain ⟨hfrom, hto⟩ := gapInterval_spec hbroken
        have hslack : (0 : ℤ) ≤ continuitySlackMs := by decide
        refine ⟨_, rfl, _, rfl, ?_⟩
        rw [hcovered]
        dsimp only [map_some, getD_some]
        constructor <;> omega
      · next hkept =>
        refine hrow.recent rfl (fun h => absurd (hrow.status h) hstatus) (fun _ h => h) ?_
        intro covered' hcovered' w hw t hlow hhigh
        obtain rfl : covered = covered' := mem_unique hcovered hcovered'
        obtain rfl : bounds = some w := hw
        rw [hcovered] at hkept
        have hle := le_of_not_broken (eq_false_of_ne_true hkept)
        omega

theorem ContinuityInv.recoveryComplete {start stop : ℤ} (hinv : ContinuityInv s)
    (hguard : KeepsGap s (.recoveryComplete start stop now)) :
    ContinuityInv { s.mutate (nextCoverageAfterRecoveryComplete · stop now) with
      replayed := (start, stop) :: s.replayed } := by
  refine ⟨fun c' hc' => ?_⟩
  obtain ⟨c, hc, rfl⟩ := map_eq_some_iff.mp hc'
  obtain ⟨origin, horigin, hrow⟩ := hinv.row c hc
  refine ⟨origin, horigin, ⟨?_, ?_⟩⟩
  · obtain ⟨covered, hmem, hall⟩ := hrow.covered
    refine ⟨covered, hmem, fun t hlow hhigh => ?_⟩
    rcases hall t hlow hhigh with hin | ⟨gapFrom, hfrom, gapTo, hto, hin⟩ | ⟨r, hr, hin⟩
    · exact Or.inl hin
    · -- The range of the recovery contains the gap.
      obtain ⟨hstart, hstop⟩ := hguard c hc gapFrom hfrom gapTo hto
      exact Or.inr (Or.inr ⟨(start, stop), List.mem_cons_self, by dsimp only; omega, by dsimp only; omega⟩)
    · exact Or.inr (Or.inr ⟨r, List.mem_cons_of_mem _ hr, hin⟩)
  · rintro (h | h) <;> cases h

/-- A tick changes the status only, and not that of a gap. -/
theorem freshnessTick_eq (c : Coverage) (now : ℤ) :
    ∃ status, nextCoverageAfterFreshnessTick c now = { c with status := status } ∧
      (c.status.isGap = true → status.isGap = true) := by
  unfold nextCoverageAfterFreshnessTick
  split
  · next hgap => exact ⟨c.status, rfl, fun h => h⟩
  · next hgap =>
    have habsurd : ∀ {p : Prop}, c.status.isGap = true → p := fun h => absurd h hgap
    split
    · exact ⟨c.status, rfl, habsurd⟩
    · split
      · exact ⟨.retentionRisk, rfl, habsurd⟩
      · split
        · exact ⟨.stale, rfl, habsurd⟩
        · exact ⟨.current, rfl, habsurd⟩

theorem ContinuityInv.freshnessTick (hinv : ContinuityInv s) :
    ContinuityInv (s.mutate (nextCoverageAfterFreshnessTick · now)) := by
  have hkeeps := fun c => freshnessTick_eq c now
  refine hinv.mutate ?_ ?_ ?_ ?_
  · intro c
    obtain ⟨status, heq, -⟩ := hkeeps c
    rw [heq]
  · intro c
    obtain ⟨status, heq, -⟩ := hkeeps c
    rw [heq]
  · intro c
    obtain ⟨status, heq, -⟩ := hkeeps c
    rw [heq]
  · intro c hstatus hgap
    obtain ⟨status, heq, hkept⟩ := hkeeps c
    rw [heq]
    exact hkept (hstatus hgap)

theorem ContinuityInv.recoveryStart (hinv : ContinuityInv s) :
    ContinuityInv (s.mutate (nextCoverageAfterRecoveryStart · now)) := by
  refine hinv.mutate ?_ ?_ ?_ ?_
  · intro c
    unfold nextCoverageAfterRecoveryStart
    split <;> rfl
  · intro c
    unfold nextCoverageAfterRecoveryStart
    split <;> rfl
  · intro c
    unfold nextCoverageAfterRecoveryStart
    split <;> rfl
  · intro c hstatus hgap
    unfold nextCoverageAfterRecoveryStart
    split
    · exact hstatus hgap
    · rfl

theorem ContinuityInv.step {a : CoverageAction} (hinv : ContinuityInv s) (hguard : KeepsGap s a)
    (hstep : coverageStep s a = some s') : ContinuityInv s' := by
  cases a with
  | recentSuccess bounds now =>
    obtain ⟨-, rfl⟩ := Run.enabled hstep
    exact hinv.recentSuccess hguard
  | freshnessTick now =>
    cases hstep
    exact hinv.freshnessTick
  | recoveryStart now =>
    cases hstep
    exact hinv.recoveryStart
  | recoveryProgress scanLines dumpIdentity watermark | recoveryFailure errorMessage =>
    cases hstep
    exact hinv.mutate (fun _ => rfl) (fun _ => rfl) (fun _ => rfl) fun _ _ _ => rfl
  | recoveryComplete start stop now =>
    obtain ⟨-, rfl⟩ := Run.enabled hstep
    exact hinv.recoveryComplete hguard

theorem ContinuityInv.initial : ContinuityInv .initial := ⟨fun c hc => by cases hc⟩

/-- In every run that keeps its gap, no time is lost. -/
theorem no_interval_lost {actions : List CoverageAction}
    (hrun : Run coverageStep KeepsGap .initial actions s) : s.NothingLost := by
  have hinv : ContinuityInv s :=
    Run.invariant (fun _ _ _ hinv hguard hstep => hinv.step hguard hstep) hrun .initial
  exact hinv.nothingLost

/-- An hour in milliseconds. -/
def hour : ℤ := 60 * 60 * 1000

/-- An outage of two days, a recovery of its gap, and a second outage. -/
def twoOutages : List CoverageAction :=
  [.recentSuccess (some (0, 48 * hour)) (48 * hour), .freshnessTick (60 * hour),
    .recentSuccess (some (96 * hour, 144 * hour)) (144 * hour), .recoveryStart (145 * hour),
    .recoveryProgress 500 (some "dump") none, .recoveryFailure "timeout",
    .recoveryComplete (46 * hour) (98 * hour) (146 * hour),
    .recentSuccess (some (200 * hour, 248 * hour)) (248 * hour)]

theorem no_interval_lost_twoOutages : ∃ s, Run coverageStep KeepsGap .initial twoOutages s ∧
      s.coverage.map Coverage.gapFrom = some (some (142 * hour)) ∧ s.NothingLost := by
  have hexec : (Run.exec coverageStep KeepsGap .initial twoOutages).map
      (fun s => s.coverage.map Coverage.gapFrom) = some (some (some (142 * hour))) := by
    decide
  obtain ⟨s, hs, hgap⟩ := map_eq_some_iff.mp hexec
  have hrun := Run.of_exec hs
  exact ⟨s, hrun, hgap, no_interval_lost hrun⟩

/-- The second outage begins while the gap of the first is pending. -/
def outageInGap : List CoverageAction :=
  [.recentSuccess (some (0, 48 * hour)) (48 * hour),
    .recentSuccess (some (96 * hour, 144 * hour)) (144 * hour),
    .recentSuccess (some (200 * hour, 248 * hour)) (248 * hour)]

/-- The second outage is not recorded. -/
theorem outageInGap_lost : ¬ ∀ (actions : List CoverageAction) (s : ContinuityState),
      Run coverageStep (fun _ _ => True) .initial actions s → s.NothingLost := by
  intro h
  have hexec : Run.exec coverageStep (fun _ _ => True) .initial outageInGap =
      some { coverage := some { Coverage.empty with
               status := .gapPending
               lastSuccessfulRecentAt := some (248 * hour)
               lastRecentOldestFirstSeen := some (200 * hour)
               lastRecentNewestFirstSeen := some (248 * hour)
               coveredThrough := some (248 * hour)
               gapFrom := some (46 * hour)
               gapTo := some (98 * hour) }
             origin := some (48 * hour)
             windows := [(200 * hour, 248 * hour), (96 * hour, 144 * hour), (0, 48 * hour)]
             replayed := [] } := by decide
  have hlost := h _ _ (Run.of_exec hexec) _ rfl _ rfl _ rfl (170 * hour) (by decide) (by decide)
  rcases hlost with ⟨w, hw, hin⟩ | ⟨start, hstart, stop, hstop, hin⟩ | ⟨r, hr, -⟩
  · simp only [List.mem_cons, List.not_mem_nil, or_false] at hw
    rcases hw with rfl | rfl | rfl <;> revert hin <;> decide
  · cases hstart
    cases hstop
    revert hin
    decide
  · cases hr

end TalonHound.MalwareBazaar
