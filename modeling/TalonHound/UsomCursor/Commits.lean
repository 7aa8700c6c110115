import TalonHound.UsomCursor.Answers

/-!
# Committed runs

The cursor of a type is its highest record, up to the beginning of the run. Behind the overlap a
record that joined in time was there at the first request of its type, or behind the overlap of the
old cursor already.
-/

namespace TalonHound.UsomCursor

open TalonHound.Usom (StageEntry)
open Option

variable {config : ApiConfig} {s s' : CursorState} {a : CursorAction} {run : RunState}
  {apiType : String} {r : ProviderRecord} {e : StageEntry}

section Lookup

variable {β : Type} {pairs : List (String × β)} {v : β}

theorem mem_of_lookupType (h : lookupType pairs apiType = some v) : (apiType, v) ∈ pairs := by
  obtain ⟨pair, hfind, rfl⟩ := map_eq_some_iff.mp h
  have htype := List.find?_some hfind
  rw [decide_eq_true_eq] at htype
  subst htype
  exact List.mem_of_find?_eq_some hfind

theorem exists_lookupType (h : (apiType, v) ∈ pairs) : ∃ w, lookupType pairs apiType = some w := by
  cases hlookup : lookupType pairs apiType with
  | some w => exact ⟨w, rfl⟩
  | none =>
    have hnone := List.find?_eq_none.mp (map_eq_none_iff.mp hlookup) _ h
    simp at hnone

end Lookup

variable {c : Highwater}

/-- A cursor is kept, or is what the run noted of its type. -/
theorem savedCursor_cases (h : c ∈ savedCursor run s.cursors apiType) :
    c ∈ s.cursors apiType ∨ (apiType, c) ∈ run.highwaters := by
  unfold savedCursor at h
  split at h
  · next high hhigh =>
    split at h
    · cases h
      exact .inr (mem_of_lookupType hhigh)
    · exact .inl h
  · exact .inl h

/-- A saved cursor is not past the beginning of its run. -/
theorem RunInv.savedCursor_le (h : RunInv config s run) {c : Highwater}
    (hc : c ∈ savedCursor run s.cursors apiType) : c.timestamp ≤ run.runStartedAt := by
  rcases savedCursor_cases hc with hold | hnew
  · exact h.cursors apiType c hold
  · exact (h.highwaters apiType c hnew).1

/-- An incremental run keeps a cursor or moves it forward. -/
theorem RunInv.savedCursor_advances (h : RunInv config s run) (hmode : run.mode = .incremental)
    (hc : c ∈ s.cursors apiType) :
    ∃ c' ∈ savedCursor run s.cursors apiType,
      c' = c ∨ 0 < compareUsomHighwaters config.localeCompare (some c') (some c) := by
  unfold savedCursor
  split
  · next high hhigh =>
    split
    · obtain ⟨-, -, hadvances⟩ := h.highwaters apiType high (mem_of_lookupType hhigh)
      exact ⟨high, rfl, .inr (hadvances hmode c hc)⟩
    · exact ⟨c, hc, .inl rfl⟩
  · exact ⟨c, hc, .inl rfl⟩

/-- The states after a commit. -/
def commitRun (s : CursorState) (run : RunState) : CursorState :=
  { s with
    cursors := savedCursor run s.cursors
    run := none
    staged := s.staged ++ run.entries
    lastBegan := some run.runStartedAt
    lastFull := fun apiType =>
      if run.mode = .fullReconciliation then
        (lookupType run.walked apiType).or (s.lastFull apiType)
      else s.lastFull apiType }

/-- A record that joined in time joined before its type was walked, or did so already before the
run. -/
theorem RunInv.joined_before (h : RunInv config s run) {f : ℤ}
    (hwalked : lookupType run.walked r.apiType = some f)
    (hjoined : JoinedInTime config (commitRun s run) r)
    (hc : c ∈ savedCursor run s.cursors r.apiType) (hdate : r.date ≤ c.timestamp - config.overlap) :
    r.joinedAt < f := by
  obtain ⟨⟨hstart, -⟩, -⟩ := h.walked _ _ (mem_of_lookupType hwalked)
  have hcursor := h.savedCursor_le hc
  rcases hjoined with hlate | hfull
  · omega
  · obtain ⟨g, hg, hlt⟩ := (any_eq_true _ _).mp hfull
    rw [decide_eq_true_eq] at hlt
    unfold commitRun at hg
    dsimp only at hg
    split at hg
    · rw [hwalked] at hg
      cases hg
      exact hlt
    · have hbefore := h.lastFull _ _ hg
      omega

/-- A record before the window of an incremental run was staged by an earlier one. -/
theorem JoinedInTime.of_incremental (hmode : run.mode = .incremental)
    (hjoined : JoinedInTime config (commitRun s run) r) : JoinedInTime config s r := by
  rcases hjoined with hlate | hfull
  · exact .inl hlate
  · refine .inr ?_
    unfold commitRun at hfull
    rw [hmode] at hfull
    exact hfull

/-- A record up to the beginning of the run is in the window of its type, unless the run is
incremental and the record is behind the overlap of the old cursor. -/
theorem matchesWindow_or (config : ApiConfig) (s : CursorState)
    (hdate : r.date ≤ run.runStartedAt) :
    matchesWindow (windowOf config s run r.apiType) r = true ∨
      (run.mode = .incremental ∧
        ∃ c ∈ s.cursors r.apiType, r.date ≤ c.timestamp - config.overlap) := by
  cases hlower : (windowOf config s run r.apiType).lowerBound.any (r.date < ·) with
  | false =>
    refine .inl ?_
    unfold matchesWindow isOutside
    have hupper : ¬ (windowOf config s run r.apiType).upperBound < r.date := by
      have hbound : (windowOf config s run r.apiType).upperBound = run.runStartedAt := rfl
      omega
    rw [hlower]
    rw [decide_eq_false hupper]
    simp [windowOf]
  | true =>
    refine .inr ?_
    obtain ⟨bound, hbound, hlt⟩ := (any_eq_true _ _).mp hlower
    rw [decide_eq_true_eq] at hlt
    unfold windowOf at hbound
    split at hbound
    · next hmode =>
      obtain ⟨c, hc, rfl⟩ := map_eq_some_iff.mp hbound
      exact ⟨hmode, c, hc, hlt.le⟩
    · cases hbound

theorem CursorInv.commit (h : CursorInv config s) (hrun : s.run = some run) :
    CursorInv config (commitRun s run) := by
  have hinv := h.run run hrun
  refine ⟨h.joined, fun t c hc => ?_, fun t f hf => ?_, fun r hr hjoined c hc hdate e he => ?_,
    fun run' hrun' => ?_⟩
  · exact (hinv.savedCursor_le hc).trans hinv.started
  · unfold commitRun at hf
    split at hf
    · rcases or_eq_some_iff.mp hf with hnew | ⟨-, hold⟩
      · exact (hinv.walked t f (mem_of_lookupType hnew)).1.2
      · exact h.lastFull t f hold
    · exact h.lastFull t f hf
  · by_cases hwalked : ∃ f, (r.apiType, f) ∈ run.walked
    · obtain ⟨g, hg⟩ := hwalked
      obtain ⟨f, hf⟩ := exists_lookupType hg
      have hbefore := hinv.joined_before hf hjoined hc hdate
      have hcursor := hinv.savedCursor_le hc
      have hoverlap := overlap_nonneg config
      have hstart : r.date ≤ run.runStartedAt := by omega
      rcases matchesWindow_or config s hstart with hin | ⟨hmode, c', hc', hdate'⟩
      · obtain ⟨-, hpassed⟩ := hinv.walked _ _ (mem_of_lookupType hf)
        exact List.mem_append_right _ (hpassed r (List.mem_filter.mpr ⟨hr, hin⟩) hbefore e he)
      · exact List.mem_append_left _
          (h.staged r hr (hjoined.of_incremental hmode) c' hc' hdate' e he)
    · -- The type was not walked: its cursor and its last full walk are the old ones.
      have hcold : c ∈ s.cursors r.apiType := by
        rcases savedCursor_cases hc with hold | hnew
        · exact hold
        · exact absurd (hinv.highwaters _ _ hnew).2.1 hwalked
      have hjold : JoinedInTime config s r := by
        rcases hjoined with hlate | hfull
        · exact .inl hlate
        · refine .inr ?_
          have hnone : lookupType run.walked r.apiType = none := by
            cases hlookup : lookupType run.walked r.apiType with
            | none => rfl
            | some f => exact absurd ⟨f, mem_of_lookupType hlookup⟩ hwalked
          unfold commitRun at hfull
          dsimp only at hfull
          rw [hnone, none_or, ite_self] at hfull
          exact hfull
      exact List.mem_append_left _ (h.staged r hr hjold c hcold hdate e he)
  · exact absurd hrun' (not_mem_none run')

/-- The first state: records that joined earlier, and nothing stored. -/
def CursorState.initial (now : ℤ) (provider : List ProviderRecord) : CursorState where
  now := now
  provider := provider
  cursors := fun _ => none
  run := none
  staged := []
  lastBegan := none
  lastFull := fun _ => none

theorem CursorInv.initial (config : ApiConfig) {now : ℤ} {provider : List ProviderRecord}
    (hjoined : ∀ r ∈ provider, r.joinedAt ≤ now) : CursorInv config (.initial now provider) := by
  refine ⟨hjoined, fun t c hc => ?_, fun t f hf => ?_, fun r hr _ c hc => ?_, fun run hrun => ?_⟩
  · exact absurd hc (not_mem_none c)
  · exact absurd hf (not_mem_none f)
  · exact absurd hc (not_mem_none c)
  · exact absurd hrun (not_mem_none run)

/-- A step keeps the invariant. -/
theorem CursorInv.step (h : CursorInv config s) (hstep : cursorStep config s a = some s') :
    CursorInv config s' := by
  cases a with
  | tick elapsed =>
    cases hstep
    exact h.tick elapsed
  | join position apiType date providerId body =>
    cases hstep
    exact h.join position rfl
  | begin mode =>
    obtain ⟨-, rfl⟩ := Run.enabled hstep
    exact h.begin mode
  | page =>
    unfold cursorStep at hstep
    dsimp only at hstep
    split at hstep
    · next run hrun =>
      split at hstep
      · next apiType pending hpending =>
        split at hstep
        · next run' hanswer =>
          cases hstep
          exact h.answer hrun hpending hanswer
        · cases hstep
          exact h.fail
      · cases hstep
    · cases hstep
  | fail =>
    obtain ⟨run, -, rfl⟩ := map_eq_some_iff.mp hstep
    exact h.fail
  | commit =>
    unfold cursorStep at hstep
    dsimp only at hstep
    split at hstep
    · next run hrun =>
      obtain ⟨-, rfl⟩ := Run.enabled hstep
      exact h.commit hrun
    · cases hstep

/-- The commit of an incremental run moves no cursor back. -/
theorem CursorInv.advances (h : CursorInv config s) : CommitAdvances config s := by
  intro run s' hrun hmode hstep apiType c hc
  unfold cursorStep at hstep
  rw [hrun] at hstep
  obtain ⟨-, rfl⟩ := Run.enabled hstep
  exact (h.run run hrun).savedCursor_advances hmode hc

/-- No cursor passes a record that joined in time, and no incremental run moves one back. -/
theorem cursor_never_passes {now : ℤ} {provider : List ProviderRecord} {actions : List CursorAction}
    (hjoined : ∀ r ∈ provider, r.joinedAt ≤ now)
    (hrun : Run (cursorStep config) (fun _ _ => True) (.initial now provider) actions s) :
    TimelyStagedUpToCursor config s ∧ CommitAdvances config s := by
  have hinv : CursorInv config s :=
    Run.invariant (I := CursorInv config) (fun _ _ _ hinv _ hstep => hinv.step hstep) hrun
      (CursorInv.initial config hjoined)
  exact ⟨hinv.staged, hinv.advances⟩

/-- An overlap of one hour and pages of one record; entries take their value from the body. -/
def hourOverlap : ApiConfig where
  perPage := 1
  cursorOverlapHours := 1
  incrementalMaxRecords := 100
  perPage_pos := Nat.one_pos
  localeCompare := fun _ _ => 0
  normalizeUsomModel := fun m apiType => some ⟨apiType, m.body, none, none, "", ""⟩

/-- A record of each persisted type and an older domain, joined at ten hours. -/
def firstRecords : List ProviderRecord :=
  usomPersistedIocTypes.map (fun t => ⟨t, 9 * 3600000, some "1", "first", 10 * 3600000⟩) ++
    [⟨"domain", 7 * 3600000, some "0", "older", 10 * 3600000⟩]

/-- A full run. After its first page a domain joins that is never served. -/
def fullRun : List CursorAction :=
  [.begin .fullReconciliation, .page, .tick 1, .join 0 "domain" 34200000 (some "2") "shifts",
    .page, .page, .page, .page, .page, .page, .commit]

/-- An incremental run, after one more domain. -/
def incrementalRun : List CursorAction :=
  [.tick (4 * 3600000), .join 0 "domain" (13 * 3600000) (some "3") "new", .tick (2 * 3600000),
    .begin .incremental, .page, .page, .page, .page, .page, .page, .page, .commit]

theorem cursor_never_passes_shifts :
    ∃ s, Run (cursorStep hourOverlap) (fun _ _ => True) (.initial (10 * 3600000) firstRecords)
        (fullRun ++ incrementalRun) s ∧
      s.cursors "domain" = some ⟨13 * 3600000, "3"⟩ ∧
      s.staged.map (·.observable) =
        ["first", "first", "older", "first", "first", "first", "new", "shifts", "first", "first",
          "first", "first"] ∧
      TimelyStagedUpToCursor hourOverlap s ∧ CommitAdvances hourOverlap s := by
  obtain ⟨s, hrun, hcursor, hstaged⟩ :
      ∃ s, Run (cursorStep hourOverlap) (fun _ _ => True) (.initial (10 * 3600000) firstRecords)
          (fullRun ++ incrementalRun) s ∧
        s.cursors "domain" = some ⟨13 * 3600000, "3"⟩ ∧
        s.staged.map (·.observable) =
          ["first", "first", "older", "first", "first", "first", "new", "shifts", "first", "first",
            "first", "first"] :=
    Run.exists_of_any (by decide)
  exact ⟨s, hrun, hcursor, hstaged, cursor_never_passes (by decide) hrun⟩

/-- A record that joins nine hours after its date, before an incremental run that moves the cursor
past it, is not staged. -/
theorem late_record_passed :
    ∃ s, Run (cursorStep hourOverlap) (fun _ _ => True) (.initial (10 * 3600000) firstRecords)
        (fullRun ++ .join 0 "domain" 3600000 (some "4") "late" :: incrementalRun) s ∧
      ¬ StagedUpToCursor hourOverlap s := by
  obtain ⟨s, hrun, hprovider, hbegan, hcursor, hstaged⟩ :
      ∃ s, Run (cursorStep hourOverlap) (fun _ _ => True) (.initial (10 * 3600000) firstRecords)
          (fullRun ++ .join 0 "domain" 3600000 (some "4") "late" :: incrementalRun) s ∧
        ⟨"domain", 3600000, some "4", "late", 36000001⟩ ∈ s.provider ∧
        s.lastBegan = some 57600001 ∧
        s.cursors "domain" = some ⟨13 * 3600000, "3"⟩ ∧
        ⟨"domain", "late", none, none, "", ""⟩ ∉ s.staged :=
    Run.exists_of_any (by decide)
  refine ⟨s, hrun, fun h => hstaged ?_⟩
  refine h _ hprovider ?_ _ hcursor (by decide) _ rfl
  rw [hbegan]
  rfl

end TalonHound.UsomCursor
