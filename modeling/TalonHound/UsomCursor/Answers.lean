import TalonHound.UsomCursor.Runs

/-!
# The cursors and the staged records

A walk over a growing list passes no record that was there at its first request. So no committed
run leaves a record behind the overlap that joined in time.
-/

namespace TalonHound.UsomCursor

open TalonHound.Usom (StageEntry)
open List

variable {config : ApiConfig} {s : CursorState} {run run' : RunState} {apiType : String}
  {pending : List String} {walk : TypeWalk} {r : ProviderRecord} {window : Window}
  {provider : List ProviderRecord} {mode : RunMode} {e : StageEntry}

section Pages

variable {α : Type*} {l : List α} {x : α} {n k : ℕ}

/-- An insertion pushes elements out of the first ones, and brings only itself into them. -/
theorem mem_take_filter_insert {p : α → Bool} {y : α}
    (h : y ∈ ((l.take k ++ x :: l.drop k).filter p).take n) :
    y ∈ (l.filter p).take n ∨ y = x := by
  have hsplit : l.filter p = (l.take k).filter p ++ (l.drop k).filter p := by
    rw [← filter_append, take_append_drop]
  rw [hsplit]
  rw [filter_append, take_append] at h
  rw [take_append]
  rcases mem_append.mp h with hleft | hright
  · exact .inl (mem_append_left _ hleft)
  · cases hx : p x with
    | false =>
      rw [filter_cons_of_neg (by simp [hx])] at hright
      exact .inl (mem_append_right _ hright)
    | true =>
      rw [filter_cons_of_pos hx] at hright
      cases hn : n - ((l.take k).filter p).length with
      | zero =>
        rw [hn] at hright
        cases hright
      | succ m =>
        rw [hn, take_succ_cons] at hright
        rcases mem_cons.mp hright with rfl | hrest
        · exact .inr rfl
        · refine .inl (mem_append_right _ ?_)
          exact (take_sublist_take_left (Nat.le_succ m)).subset hrest

/-- The first pages and the next one. -/
theorem take_page (l : List α) (perPage requestPage : ℕ) :
    l.take ((requestPage + 1) * perPage) =
      l.take (requestPage * perPage) ++ (l.drop (requestPage * perPage)).take perPage := by
  rw [Nat.succ_mul, take_add]

end Pages

/-- The records of a window that were served or joined since. -/
def Passed (config : ApiConfig) (apiType : String) (firstPageAt : ℤ) (entries : List StageEntry)
    (records : List ProviderRecord) : Prop :=
  ∀ r ∈ records, r.joinedAt < firstPageAt →
    ∀ e ∈ config.normalizeUsomModel r.model apiType, e ∈ entries

/-- The window of a type in a run. -/
def windowOf (config : ApiConfig) (s : CursorState) (run : RunState) (apiType : String) : Window where
  apiType := apiType
  lowerBound :=
    if run.mode = .incremental then (s.cursors apiType).map (·.timestamp - config.overlap) else none
  upperBound := run.runStartedAt

/-- What holds of the walk of the first pending type. -/
structure WalkInv (config : ApiConfig) (s : CursorState) (run : RunState) (apiType : String)
    (walk : TypeWalk) : Prop where
  window : walk.window = windowOf config s run apiType
  requestPage : 0 < walk.walk.requestPage
  first : run.runStartedAt ≤ walk.firstPageAt ∧ walk.firstPageAt ≤ s.now
  bounded : ∀ h ∈ walk.acc.typeHighwater, h.timestamp ≤ run.runStartedAt
  passed : Passed config apiType walk.firstPageAt walk.acc.entries
    ((s.provider.filter (matchesWindow walk.window)).take
      ((walk.walk.requestPage - 1) * config.perPage))

/-- What holds of a run. -/
structure RunInv (config : ApiConfig) (s : CursorState) (run : RunState) : Prop where
  started : run.runStartedAt ≤ s.now
  cursors : ∀ t, ∀ c ∈ s.cursors t, c.timestamp ≤ run.runStartedAt
  lastFull : ∀ t, ∀ f ∈ s.lastFull t, f ≤ run.runStartedAt
  walked : ∀ t f, (t, f) ∈ run.walked → (run.runStartedAt ≤ f ∧ f ≤ s.now) ∧
    Passed config t f run.entries (s.provider.filter (matchesWindow (windowOf config s run t)))
  highwaters : ∀ t h, (t, h) ∈ run.highwaters → h.timestamp ≤ run.runStartedAt ∧
    (∃ f, (t, f) ∈ run.walked) ∧
      (run.mode = .incremental → ∀ c ∈ s.cursors t,
        0 < compareUsomHighwaters config.localeCompare (some h) (some c))
  current : ∀ walk ∈ run.current, ∀ t ∈ run.pending.head?, WalkInv config s run t walk

/-- The invariant. -/
structure CursorInv (config : ApiConfig) (s : CursorState) : Prop where
  joined : ∀ r ∈ s.provider, r.joinedAt ≤ s.now
  cursors : ∀ t, ∀ c ∈ s.cursors t, c.timestamp ≤ s.now
  lastFull : ∀ t, ∀ f ∈ s.lastFull t, f ≤ s.now
  staged : TimelyStagedUpToCursor config s
  run : ∀ run ∈ s.run, RunInv config s run

/-- The overlap is never negative. -/
theorem overlap_nonneg (config : ApiConfig) : 0 ≤ config.overlap := by
  unfold ApiConfig.overlap
  omega

/-- Time passing keeps the invariant. -/
theorem CursorInv.tick (h : CursorInv config s) (elapsed : ℕ) :
    CursorInv config { s with now := s.now + elapsed } := by
  refine ⟨fun r hr => ?_, fun t c hc => ?_, fun t f hf => ?_, h.staged, fun run hrun => ?_⟩
  · have := h.joined r hr
    dsimp only
    omega
  · have := h.cursors t c hc
    dsimp only
    omega
  · have := h.lastFull t f hf
    dsimp only
    omega
  · have hrun := h.run run hrun
    refine ⟨?_, hrun.cursors, hrun.lastFull, fun t f hf => ?_, hrun.highwaters,
      fun walk hwalk t ht => ?_⟩
    · have := hrun.started
      dsimp only
      omega
    · obtain ⟨⟨hstart, hnow⟩, hpassed⟩ := hrun.walked t f hf
      refine ⟨⟨hstart, ?_⟩, hpassed⟩
      dsimp only
      omega
    · have hinv := hrun.current walk hwalk t ht
      refine ⟨hinv.window, hinv.requestPage, ⟨hinv.first.1, ?_⟩, hinv.bounded, hinv.passed⟩
      have := hinv.first.2
      dsimp only
      omega

/-- A record that joins now was not there at an earlier first request. -/
theorem Passed.insert {firstPageAt : ℤ} {entries : List StageEntry} {records records' : List ProviderRecord}
    (h : Passed config apiType firstPageAt entries records) (hlate : firstPageAt ≤ r.joinedAt)
    (hmem : ∀ x ∈ records', x ∈ records ∨ x = r) :
    Passed config apiType firstPageAt entries records' := by
  intro x hx hjoined
  rcases hmem x hx with hold | rfl
  · exact h x hold hjoined
  · omega

/-- A record that joins the provider's list now keeps it. -/
theorem CursorInv.join (h : CursorInv config s) (position : ℕ) (hr : r.joinedAt = s.now) :
    CursorInv config { s with provider := s.provider.take position ++ r :: s.provider.drop position } := by
  have hmem : ∀ x ∈ s.provider.take position ++ r :: s.provider.drop position,
      x ∈ s.provider ∨ x = r := by
    intro x hx
    rcases mem_append.mp hx with htake | hdrop
    · exact .inl (mem_of_mem_take htake)
    · rcases mem_cons.mp hdrop with rfl | hdrop
      · exact .inr rfl
      · exact .inl (mem_of_mem_drop hdrop)
  refine ⟨fun x hx => ?_, h.cursors, h.lastFull, fun x hx hjoined c hc hdate e he => ?_,
    fun run hrun => ?_⟩
  · rcases hmem x hx with hold | rfl
    · exact h.joined x hold
    · exact hr.le
  · rcases hmem x hx with hold | rfl
    · exact h.staged x hold hjoined c hc hdate e he
    · -- The new record joined too late to be dated before the cursor less the overlap.
      exfalso
      have hcursor := h.cursors x.apiType c hc
      rcases hjoined with hlate | hfull
      · omega
      · obtain ⟨f, hf, hlt⟩ := (Option.any_eq_true _ _).mp hfull
        have hnow := h.lastFull x.apiType f hf
        rw [decide_eq_true_eq] at hlt
        omega
  · have hrun := h.run run hrun
    refine ⟨hrun.started, hrun.cursors, hrun.lastFull, fun t f hf => ?_,
      hrun.highwaters, fun walk hwalk t ht => ?_⟩
    · obtain ⟨⟨hstart, hnow⟩, hpassed⟩ := hrun.walked t f hf
      refine ⟨⟨hstart, hnow⟩, hpassed.insert (r := r) (by omega) fun x hx => ?_⟩
      obtain ⟨hin, hmatches⟩ := mem_filter.mp hx
      rcases hmem x hin with hold | rfl
      · exact .inl (mem_filter.mpr ⟨hold, hmatches⟩)
      · exact .inr rfl
    · have hinv := hrun.current walk hwalk t ht
      refine ⟨hinv.window, hinv.requestPage, hinv.first, hinv.bounded,
        hinv.passed.insert (r := r) ?_ fun x hx => mem_take_filter_insert hx⟩
      have := hinv.first.2
      omega

/-!
## Requests of a run

The first request of a type fixes its window. Each answer extends what the walk has passed by one
page, and the last one ends with everything that was there at the first.
-/

open TalonHound.Usom (StageEntry)

variable {config : ApiConfig} {s : CursorState} {run run' : RunState} {apiType : String}
  {pending : List String} {walk : TypeWalk} {acc acc' : TypeState} {mode : RunMode}

/-- A run that starts keeps the invariant. -/
theorem CursorInv.begin (h : CursorInv config s) (mode : RunMode) :
    CursorInv config
      { s with run := some ⟨mode, s.now, usomSupportedApiTypes, none, [], [], []⟩ } := by
  refine ⟨h.joined, h.cursors, h.lastFull, h.staged, fun run hrun => ?_⟩
  cases hrun
  refine ⟨le_refl _, h.cursors, h.lastFull, fun t f hf => ?_,
    fun t high hhigh => ?_, fun walk hwalk => ?_⟩
  · exact absurd hf List.not_mem_nil
  · exact absurd hhigh List.not_mem_nil
  · exact absurd hwalk (Option.not_mem_none walk)

/-- A failed run saves nothing and keeps it. -/
theorem CursorInv.fail (h : CursorInv config s) : CursorInv config { s with run := none } :=
  ⟨h.joined, h.cursors, h.lastFull, h.staged, fun run hrun => absurd hrun (Option.not_mem_none run)⟩

/-- The window queried is the one of the saved cursor. -/
theorem queryWindow_ok {window : Window}
    (h : queryWindow config run.mode apiType (s.cursors apiType) run.runStartedAt = .ok window) :
    window = windowOf config s run apiType := by
  unfold queryWindow at h
  split at h
  · cases h
  · exact (Except.ok.inj h).symm

/-- The walk of the type in turn. -/
theorem RunInv.currentWalk (h : RunInv config s run) (hpending : run.pending = apiType :: pending)
    (hwalk : currentWalk config s run apiType = .ok walk) : WalkInv config s run apiType walk := by
  unfold UsomCursor.currentWalk at hwalk
  split at hwalk
  · next walk' hcurrent =>
    obtain rfl := Except.ok.inj hwalk
    refine h.current walk' hcurrent apiType ?_
    rw [hpending]
    rfl
  · obtain ⟨window, hwindow, hwalk⟩ := KeyedTable.eq_ok_of_bind hwalk
    obtain rfl := Except.ok.inj hwalk
    refine ⟨queryWindow_ok hwindow, Nat.one_pos, ⟨h.started, le_refl _⟩, fun high hhigh => ?_,
      fun r hr => ?_⟩
    · exact absurd hhigh (Option.not_mem_none high)
    · have hnone : (WalkState.start.requestPage - 1) * config.perPage = 0 := Nat.zero_mul _
      rw [hnone] at hr
      exact absurd hr List.not_mem_nil

/-- A handled page is passed. -/
theorem WalkInv.served (h : WalkInv config s run apiType walk)
    (hcollected : Collected config walk.window
      (servePage config.perPage s.provider walk.window walk.walk.requestPage).models walk.acc acc') :
    Passed config apiType walk.firstPageAt acc'.entries
      ((s.provider.filter (matchesWindow walk.window)).take
        (walk.walk.requestPage * config.perPage)) := by
  have hpages := take_page (s.provider.filter (matchesWindow walk.window)) config.perPage
    (walk.walk.requestPage - 1)
  rw [Nat.sub_add_cancel h.requestPage] at hpages
  rw [hpages]
  intro r hr hjoined e he
  rcases List.mem_append.mp hr with hold | hnew
  · exact hcollected.kept e (h.passed r hold hjoined e he)
  · have htype : walk.window.apiType = apiType := by
      rw [h.window]
      rfl
    refine hcollected.entries r.model (List.mem_map_of_mem hnew) e ?_
    rw [htype]
    exact he

/-- The last page ends the records that were found. -/
theorem take_of_pageCount {α : Type*} {found : List α} {perPage requestPage : ℕ}
    (hpos : 0 < perPage) (hlast : (found.length + (perPage - 1)) / perPage ≤ requestPage) :
    found.take (requestPage * perPage) = found := by
  refine List.take_of_length_le ?_
  have hlength := (Nat.div_le_iff_le_mul_add_pred hpos).mp hlast
  rw [Nat.mul_comm] at hlength
  omega

/-- An empty page comes after the records that were found. -/
theorem take_of_drop_nil {α : Type*} {found : List α} {perPage skipped : ℕ} (hpos : 0 < perPage)
    (hempty : (found.drop skipped).take perPage = []) : found.take skipped = found := by
  refine List.take_of_length_le ?_
  have hlength := congrArg List.length hempty
  rw [List.length_take, List.length_drop, List.length_nil] at hlength
  omega

/-- The walk of a type ends with everything that was there at its first request. -/
theorem WalkInv.finished {full : Bool} {w : WalkState}
    (h : WalkInv config s run apiType walk)
    (hstep : walkStep full (collectPage config run.mode walk.window) walk.walk walk.acc
      (servePage config.perPage s.provider walk.window walk.walk.requestPage) =
        .ok (.finished w acc')) :
    (∀ high ∈ acc'.typeHighwater, high.timestamp ≤ run.runStartedAt) ∧
      Passed config apiType walk.firstPageAt acc'.entries
        (s.provider.filter (matchesWindow walk.window)) := by
  rcases walkStep_ok hstep with ⟨hempty, rfl⟩ | ⟨hhandled, hlast⟩
  · refine ⟨h.bounded, ?_⟩
    have hpassed := h.passed
    rw [take_of_drop_nil config.perPage_pos (List.map_eq_nil_iff.mp hempty)] at hpassed
    exact hpassed
  · have hcollected := collectPage_ok hhandled
    have hupper : walk.window.upperBound = run.runStartedAt := by
      rw [h.window]
      rfl
    have hbounded := hcollected.bounded
    rw [hupper] at hbounded
    refine ⟨hbounded h.bounded, ?_⟩
    have hpassed := h.served hcollected
    rw [take_of_pageCount config.perPage_pos hlast] at hpassed
    exact hpassed

/-- Between two pages the walk goes on. -/
theorem WalkInv.next {full : Bool} {w : WalkState} (h : WalkInv config s run apiType walk)
    (hstep : walkStep full (collectPage config run.mode walk.window) walk.walk walk.acc
      (servePage config.perPage s.provider walk.window walk.walk.requestPage) =
        .ok (.next w acc')) :
    WalkInv config s run apiType { walk with walk := w, acc := acc' } := by
  obtain ⟨hrequest, hhandled⟩ := walkStep_ok hstep
  have hcollected := collectPage_ok hhandled
  have hupper : walk.window.upperBound = run.runStartedAt := by
    rw [h.window]
    rfl
  have hbounded := hcollected.bounded
  rw [hupper] at hbounded
  refine ⟨h.window, ?_, h.first, hbounded h.bounded, ?_⟩
  · dsimp only
    omega
  · dsimp only
    rw [hrequest, Nat.add_sub_cancel]
    exact h.served hcollected

/-- What is noted of a type is its highest record, past its cursor in an incremental run. -/
theorem nextHighwater_spec {cursor typeHighwater : Option Highwater} {rawCount : ℕ} {high : Highwater}
    (h : nextHighwater config mode cursor typeHighwater rawCount = some high) :
    typeHighwater = some high ∧ (mode = .incremental → ∀ c ∈ cursor,
      0 < compareUsomHighwaters config.localeCompare (some high) (some c)) := by
  unfold nextHighwater at h
  split at h
  · next hcond =>
    obtain rfl := h
    refine ⟨rfl, fun hmode c hc => ?_⟩
    obtain rfl := hc
    rcases hcond.2.2 with hfull | hnone | hless
    · rw [hmode] at hfull
      cases hfull
    · cases hnone
    · exact hless
  · cases h

/-- A type that was walked joins those of the run. -/
theorem RunInv.walkedType (h : RunInv config s run) {highwaters : List (String × Highwater)}
    (hfirst : run.runStartedAt ≤ walk.firstPageAt ∧ walk.firstPageAt ≤ s.now)
    (hpassed : Passed config apiType walk.firstPageAt acc.entries
      (s.provider.filter (matchesWindow (windowOf config s run apiType))))
    (hhighwaters : ∀ t high, (t, high) ∈ highwaters → (t, high) ∈ run.highwaters ∨
      (t = apiType ∧ high.timestamp ≤ run.runStartedAt ∧
        (run.mode = .incremental → ∀ c ∈ s.cursors t,
          0 < compareUsomHighwaters config.localeCompare (some high) (some c)))) :
    RunInv config s { run with
      pending := pending
      current := none
      entries := run.entries ++ acc.entries
      highwaters := highwaters
      walked := run.walked ++ [(apiType, walk.firstPageAt)] } := by
  have hself : (apiType, walk.firstPageAt) ∈ run.walked ++ [(apiType, walk.firstPageAt)] :=
    List.mem_append_right _ (List.mem_singleton_self _)
  refine ⟨h.started, h.cursors, h.lastFull, fun t f hf => ?_, fun t high hhigh => ?_,
    fun walk' hwalk' => ?_⟩
  · rcases List.mem_append.mp hf with hold | hnew
    · obtain ⟨hbetween, hpassed'⟩ := h.walked t f hold
      exact ⟨hbetween, fun r hr hjoined e he => List.mem_append_left _ (hpassed' r hr hjoined e he)⟩
    · obtain ⟨rfl, rfl⟩ := Prod.mk.inj (List.mem_singleton.mp hnew)
      exact ⟨hfirst, fun r hr hjoined e he => List.mem_append_right _ (hpassed r hr hjoined e he)⟩
  · rcases hhighwaters t high hhigh with hold | ⟨rfl, hbound, hadvances⟩
    · obtain ⟨hbound, ⟨f, hf⟩, hadvances⟩ := h.highwaters t high hold
      exact ⟨hbound, ⟨f, List.mem_append_left _ hf⟩, hadvances⟩
    · exact ⟨hbound, ⟨_, hself⟩, hadvances⟩
  · exact absurd hwalk' (Option.not_mem_none walk')

/-- An answer keeps what holds of a run. -/
theorem RunInv.answer (h : RunInv config s run) (hpending : run.pending = apiType :: pending)
    (hanswer : answerPage config s run apiType pending = .ok run') : RunInv config s run' := by
  obtain ⟨walk, hwalk, hanswer⟩ := KeyedTable.eq_ok_of_bind hanswer
  have hinv := h.currentWalk hpending hwalk
  obtain ⟨outcome, hstep, hanswer⟩ := KeyedTable.eq_ok_of_bind hanswer
  cases outcome with
  | next w acc =>
    obtain rfl := Except.ok.inj hanswer
    refine ⟨h.started, h.cursors, h.lastFull, h.walked, h.highwaters, fun walk' hwalk' t ht => ?_⟩
    cases hwalk'
    rw [hpending] at ht
    cases ht
    have hnext := hinv.next hstep
    exact ⟨hnext.window, hnext.requestPage, hnext.first, hnext.bounded, hnext.passed⟩
  | finished w acc =>
    obtain ⟨w', -, hanswer⟩ := KeyedTable.eq_ok_of_bind hanswer
    obtain rfl := Except.ok.inj hanswer
    obtain ⟨hbounded, hpassed⟩ := hinv.finished hstep
    rw [hinv.window] at hpassed
    refine h.walkedType hinv.first hpassed fun t high hhigh => ?_
    split at hhigh
    · next noted hnoted =>
      rcases List.mem_append.mp hhigh with hold | hnew
      · exact .inl hold
      · obtain ⟨rfl, rfl⟩ := Prod.mk.inj (List.mem_singleton.mp hnew)
        obtain ⟨hhighest, hadvances⟩ := nextHighwater_spec hnoted
        exact .inr ⟨rfl, hbounded high hhighest, hadvances⟩
    · exact .inl hhigh

/-- An answered page keeps the invariant. -/
theorem CursorInv.answer (h : CursorInv config s) (hrun : s.run = some run)
    (hpending : run.pending = apiType :: pending)
    (hanswer : answerPage config s run apiType pending = .ok run') :
    CursorInv config { s with run := some run' } := by
  refine ⟨h.joined, h.cursors, h.lastFull, h.staged, fun run'' hrun'' => ?_⟩
  cases hrun''
  have hinv := (h.run run hrun).answer hpending hanswer
  refine ⟨hinv.started, hinv.cursors, hinv.lastFull, hinv.walked, hinv.highwaters,
    fun walk hwalk t ht => ?_⟩
  have hwalk := hinv.current walk hwalk t ht
  exact ⟨hwalk.window, hwalk.requestPage, hwalk.first, hwalk.bounded, hwalk.passed⟩

end TalonHound.UsomCursor
