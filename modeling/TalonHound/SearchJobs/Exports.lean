import TalonHound.SearchJobs.DeepSearches

/-!
# Cancelling and completing a search export

The row of one export, with every run of its job stopped between any two statements, the cancel
route, and the retention sweep. A failed export is claimed again when its job is delivered again,
and its completion overwrites whatever the row holds.
-/

namespace TalonHound.SearchJobs

namespace Export

open Indexed Option

def claimForProcessing (row : Row) : Option Row :=
  if row.status = .queued ∨ row.status = .failed then some { row with status := .running } else none

/-- Whatever the row was. -/
def markReady (row : Row) : Option Row := some { row with status := .completed }

/-- The statement that a run of `runExport` makes next. -/
inductive Stage
  | reading | claiming | parsing | rejecting | opening | polling | fetching | stopping | limiting
  | publishing | catching | auditing | ended

/-- What is left to export: more rows, none, or more than the hard limit allows. -/
inductive Batch
  | more | last | overLimit
  deriving DecidableEq

/-- A row that the sweep found past its retention, or to be deleted. -/
inductive Sweep
  | expiring | purging | ended

/-- One export, and who works on it. -/
structure State where
  row : Option Row
  runs : List Stage
  sweeps : List Sweep

/-- The export after `createExport`. -/
def State.created : State := ⟨some ⟨.queued, false⟩, [], []⟩

/-- The run goes on to its next statement. -/
def State.goto (s : State) (i : ℕ) (stage : Stage) : State :=
  { s with runs := s.runs.set i stage }

def State.setRow (s : State) (row : Option Row) : State := { s with row }

/-- The next stage, unless an error inside the `try` block leads to its handler. -/
def Stage.orCatch (stage : Stage) : Outcome → Stage
  | .done => stage
  | .error _ _ => .catching

/-- The next stage, unless an error outside of the block ends the run. -/
def Stage.orEnd (stage : Stage) : Outcome → Stage
  | .done => stage
  | .error _ _ => .ended

/-- One statement of `runExport` and of `streamExportToSink` within it. -/
def statement (s : State) (i : ℕ) (stage : Stage) (o : Outcome) (batch : Batch) : Option State :=
  match stage with
  | .reading =>
    let claimable := s.row.any fun row => row.status = .queued || row.status = .failed
    s.goto i ((if claimable then Stage.claiming else .ended).orEnd o)
  | .claiming =>
    let claimed := returns claimForProcessing s.row
    (s.setRow (o.effect (update claimForProcessing) s.row)).goto i
      ((if claimed then Stage.parsing else .ended).orEnd o)
  | .parsing =>
    s.goto i (match o with
      | .done => .opening
      | .error _ _ => .rejecting)
  | .rejecting =>
    (s.setRow (o.effect (update markFailed) s.row)).goto i (Stage.auditing.orEnd o)
  | .opening => s.goto i (Stage.polling.orCatch o)
  | .polling =>
    let cancel := isCancelRequested s.row
    -- without budget the stream ends before it fetches
    let next := if batch = .last then Stage.publishing else .fetching
    s.goto i ((if cancel then Stage.stopping else next).orCatch o)
  | .fetching =>
    let next := match batch with
      | .more => Stage.polling
      | .last => .publishing
      | .overLimit => .limiting
    s.goto i (next.orCatch o)
  | .stopping =>
    (s.setRow (o.effect (update markCancelled) s.row)).goto i (Stage.auditing.orCatch o)
  | .limiting =>
    (s.setRow (o.effect (update markFailed) s.row)).goto i (Stage.auditing.orCatch o)
  | .publishing =>
    (s.setRow (o.effect (update markReady) s.row)).goto i (Stage.auditing.orCatch o)
  | .catching =>
    (s.setRow (o.effect (update markFailed) s.row)).goto i (Stage.auditing.orEnd o)
  | .auditing => s.goto i .ended
  | .ended => none

inductive Action
  | deliver
  | statement (i : ℕ) (o : Outcome) (batch : Batch)
  | crash (i : ℕ)
  | requestCancel
  | viewExpired
  | findExpired
  | findStale
  | sweep (j : ℕ) (o : Outcome)

/-- One step of the workers, the routes or the sweep. -/
def step (s : State) : Action → Option State
  | .deliver => some { s with runs := s.runs ++ [.reading] }
  | .statement i o batch => s.runs[i]?.bind fun stage => statement s i stage o batch
  | .crash i => s.runs[i]?.map fun _ => s.goto i .ended
  | .requestCancel => some (s.setRow (update requestCancel s.row))
  | .viewExpired =>
    if s.row.any fun row => row.status = .completed then
      some (s.setRow (update markExpired s.row))
    else none
  | .findExpired =>
    if s.row.any fun row => row.status = .completed then
      some { s with sweeps := s.sweeps ++ [.expiring] }
    else none
  | .findStale =>
    if s.row.any Row.isStale then some { s with sweeps := s.sweeps ++ [.purging] } else none
  | .sweep j o => s.sweeps[j]?.bind fun sweep => match sweep with
    | .expiring =>
      some { s with row := o.effect (update markExpired) s.row, sweeps := s.sweeps.set j .ended }
    | .purging =>
      some { s with row := o.effect deleteMetadataRow s.row, sweeps := s.sweeps.set j .ended }
    | .ended => none

/-- The run claimed the export and has not settled it. -/
def Stage.holds : Stage → Bool
  | .reading | .claiming | .auditing | .ended => false
  | _ => true

/-- The completion is carried out for an export that nobody asked to cancel, and reports no error
after that. A failed export is not claimed while another run still has to handle an error. -/
def PublishesUncancelled (s : State) : Action → Prop
  | .statement i o _ => ∀ stage ∈ s.runs[i]?, match stage with
    | .claiming => s.row.any (fun row => row.status = .failed) →
      ∀ stage' ∈ s.runs, stage'.holds = false
    | .publishing => match o with
      | .done => isCancelRequested s.row = false
      | .error applied _ => applied = false
    | _ => True
  | _ => True

instance (s : State) (a : Action) : Decidable (PublishesUncancelled s a) := by
  unfold PublishesUncancelled
  split
  · refine @Option.decidableForallMem _ _ (fun stage => ?_) _
    split
    · infer_instance
    · split <;> infer_instance
    · infer_instance
  · infer_instance

/-- What a run of the job relies on at a stage. -/
structure Relies (row : Option Row) (stage : Stage) : Prop where
  unfinished : stage.holds → Unfinished row
  running : stage.holds → stage ≠ .catching → ∀ r ∈ row, r.status = .running

/-- A completed export was not asked to cancel. -/
def RowInv (row : Option Row) : Prop :=
  ∀ r ∈ row, r.status = .completed ∨ r.status = .expired → r.cancelRequested = false

/-- The invariant. -/
structure Inv (s : State) : Prop where
  row : RowInv s.row
  relies : ∀ (i : ℕ) (stage : Stage), s.runs[i]? = some stage → Relies s.row stage
  exclusive : Indexed.Exclusive Stage.holds s.runs

variable {s s' : State} {row : Option Row} {i : ℕ} {stage stage' : Stage} {o : Outcome}
  {batch : Batch} {a : Action}

theorem rowInv_of_unfinished (h : Unfinished row) : RowInv row := by
  intro r hr hdone
  obtain ⟨hcompleted, hexpired⟩ := h.not_completed hr
  rcases hdone with hdone | hdone
  · exact absurd hdone hcompleted
  · exact absurd hdone hexpired

theorem relies_of_not_holds (h : stage.holds = false) : Relies row stage := by
  refine ⟨fun hholds => ?_, fun hholds => ?_⟩ <;> simp [h] at hholds

theorem relies_of_running (hrow : ∀ r ∈ row, r.status = .running) : Relies row stage :=
  ⟨fun _ => unfinished_of_running hrow, fun _ _ => hrow⟩

theorem relies_catching (h : Unfinished row) : Relies row .catching :=
  ⟨fun _ => h, fun _ hne => absurd rfl hne⟩

theorem holds_orEnd (h : stage.holds = false) : (stage.orEnd o).holds = false := by
  cases o with
  | done => exact h
  | error applied canceled => rfl

theorem relies_auditing_orCatch (h : Unfinished row) : Relies row (Stage.auditing.orCatch o) := by
  cases o with
  | done => exact relies_of_not_holds rfl
  | error applied canceled => exact relies_catching h

/-- The only run that may hold the export may change the row. -/
theorem Inv.sole (hothers : ∀ (j : ℕ) (stage' : Stage), s.runs[j]? = some stage' → j ≠ i →
      stage'.holds = false)
    (hrow : RowInv row) (hstage : Relies row stage) : Inv ((s.setRow row).goto i stage) := by
  refine ⟨hrow, fun j stage' hj => ?_, exclusive_set hothers⟩
  rcases getElem?_set_cases hj with ⟨rfl, rfl⟩ | ⟨hne, hold⟩
  · exact hstage
  · exact relies_of_not_holds (hothers j stage' hold hne)

section

variable (h : Inv s)

include h

/-- A run that holds the export is the only one. -/
theorem Inv.holder (hrun : s.runs[i]? = some stage') (hholds : stage'.holds) (hrow : RowInv row)
    (hstage : Relies row stage) : Inv ((s.setRow row).goto i stage) :=
  Inv.sole (h.exclusive.others hrun hholds) hrow hstage

/-- A run may stop holding the export, or go on without it. -/
theorem Inv.release (hstage : stage.holds = false) : Inv (s.goto i stage) := by
  refine ⟨h.row, fun j stage' hj => ?_, h.exclusive.set_of_not hstage⟩
  rcases getElem?_set_cases hj with ⟨rfl, rfl⟩ | ⟨-, hold⟩
  · exact relies_of_not_holds hstage
  · exact h.relies j stage' hold

/-- A claim takes an export that no run holds. -/
theorem Inv.claim (hrun : s.runs[i]? = some .claiming)
    (hguard : PublishesUncancelled s (.statement i o batch)) :
    Inv ((s.setRow (o.effect (update claimForProcessing) s.row)).goto i
      ((if returns claimForProcessing s.row then Stage.parsing else .ended).orEnd o)) := by
  by_cases hnone : ∀ r ∈ s.row, claimForProcessing r = none
  · rw [effect_eq_self hnone, returns_eq_false hnone]
    exact h.release (by cases o <;> rfl)
  · push Not at hnone
    obtain ⟨r, hr, hsome⟩ := hnone
    have hclaimable : r.status = .queued ∨ r.status = .failed := by
      by_contra hclaimable
      exact hsome (if_neg hclaimable)
    have hidle : ∀ (j : ℕ) (stage' : Stage), s.runs[j]? = some stage' → j ≠ i →
        stage'.holds = false := by
      intro j stage' hj _
      rcases hclaimable with hqueued | hfailed
      · refine Bool.eq_false_iff.mpr fun hholds => ?_
        exact ((h.relies j stage' hj).unfinished hholds).not_queued hr hqueued
      · refine hguard .claiming hrun ?_ stage' (List.mem_of_getElem? hj)
        rw [mem_def.mp hr, any_some, hfailed]
        rfl
    have hclaim : claimForProcessing r = some { r with status := .running } := if_pos hclaimable
    have hrow : RowInv (o.effect (update claimForProcessing) s.row) := by
      intro r' hr' hdone
      rcases mem_effect hr' with hold | ⟨r₀, hr₀, rfl⟩
      · exact h.row r' hold hdone
      · rw [mem_unique hr₀ hr, hclaim] at hdone
        simp at hdone
    refine Inv.sole hidle hrow ?_
    cases o with
    | error applied canceled => exact relies_of_not_holds rfl
    | done =>
      refine relies_of_running fun r' hr' => ?_
      obtain ⟨r₀, hr₀, rfl⟩ := mem_update hr'
      rw [mem_unique hr₀ hr, hclaim]
      rfl

/-- The completion finds a running export. -/
theorem Inv.publish (hrun : s.runs[i]? = some .publishing)
    (hguard : PublishesUncancelled s (.statement i o batch)) :
    Inv ((s.setRow (o.effect (update markReady) s.row)).goto i (Stage.auditing.orCatch o)) := by
  have hcondition := hguard .publishing hrun
  have hrunning := (h.relies i _ hrun).running rfl (by simp)
  cases o with
  | done =>
    refine h.holder hrun rfl (fun r hr _ => ?_) (relies_of_not_holds rfl)
    obtain ⟨r₀, hr₀, rfl⟩ := mem_update hr
    have hcancel : isCancelRequested s.row = false := hcondition
    rw [mem_def.mp hr₀] at hcancel
    exact hcancel
  | error applied canceled =>
    obtain rfl : applied = false := hcondition
    exact h.holder hrun rfl h.row (relies_catching (unfinished_of_running hrunning))

/-- Every statement of a run of the job keeps the invariant. -/
theorem Inv.statement (hrun : s.runs[i]? = some stage)
    (hguard : PublishesUncancelled s (.statement i o batch))
    (hstep : statement s i stage o batch = some s') : Inv s' := by
  have hrel := h.relies i stage hrun
  cases stage with
  | ended => cases hstep
  | claiming =>
    cases hstep
    exact h.claim hrun hguard
  | publishing =>
    cases hstep
    exact h.publish hrun hguard
  | reading =>
    cases hstep
    refine h.release (holds_orEnd ?_)
    split <;> rfl
  | auditing =>
    cases hstep
    exact h.release rfl
  | stopping =>
    cases hstep
    have hrow := (hrel.unfinished rfl).markCancelled (o := o)
    exact h.holder hrun rfl (rowInv_of_unfinished hrow) (relies_auditing_orCatch hrow)
  | limiting =>
    cases hstep
    have hrow := (hrel.unfinished rfl).markFailed (o := o)
    exact h.holder hrun rfl (rowInv_of_unfinished hrow) (relies_auditing_orCatch hrow)
  | rejecting | catching =>
    cases hstep
    have hrow := (hrel.unfinished rfl).markFailed (o := o)
    exact h.holder hrun rfl (rowInv_of_unfinished hrow) (relies_of_not_holds (holds_orEnd rfl))
  | parsing | opening | polling | fetching =>
    cases hstep
    exact h.holder hrun rfl h.row (relies_of_running (hrel.running rfl (by simp)))

/-- Parties that are not runs of the job may change the row. -/
theorem Inv.of_runs (hruns : s'.runs = s.runs) (hrow : RowInv s'.row)
    (hrelies : ∀ stage, Relies s.row stage → Relies s'.row stage) : Inv s' := by
  refine ⟨hrow, fun i stage hi => ?_, hruns ▸ h.exclusive⟩
  rw [hruns] at hi
  exact hrelies _ (h.relies i stage hi)

theorem Inv.requestCancel : Inv (s.setRow (update requestCancel s.row)) := by
  refine h.of_runs rfl (fun r hr hstatus => ?_) fun stage hrel =>
    ⟨fun hholds => (hrel.unfinished hholds).requestCancel,
      fun hholds hne => running_requestCancel (hrel.running hholds hne)⟩
  rcases mem_requestCancel hr with hold | ⟨r₀, hr₀, ⟨-, hcancelled⟩ | ⟨-, hrunning⟩⟩
  · exact h.row r hold hstatus
  · simp [hcancelled] at hstatus
  · simp [hrunning] at hstatus

theorem Inv.markExpired (hruns : s'.runs = s.runs)
    (hrow : s'.row = o.effect (update markExpired) s.row) : Inv s' := by
  refine h.of_runs hruns ?_ fun stage hrel => ?_
  · rw [hrow]
    intro r hr hstatus
    rcases mem_markExpired hr with hold | ⟨-, r₀, hr₀, hdone, heq⟩
    · exact h.row r hold hstatus
    · rw [heq]
      exact h.row r₀ hr₀ hdone
  · have hsame (hholds : stage.holds) : s'.row = s.row := by
      rw [hrow, (hrel.unfinished hholds).markExpired]
    exact ⟨fun hholds => hsame hholds ▸ hrel.unfinished hholds,
      fun hholds => hsame hholds ▸ hrel.running hholds⟩

theorem Inv.deleteMetadataRow (hruns : s'.runs = s.runs)
    (hrow : s'.row = o.effect deleteMetadataRow s.row) : Inv s' := by
  have hold : ∀ r ∈ s'.row, r ∈ s.row := by
    rw [hrow]
    exact fun r hr => mem_of_mem_deleteMetadataRow hr
  exact h.of_runs hruns (fun r hr => h.row r (hold r hr)) fun stage hrel =>
    ⟨fun hholds r hr => hrel.unfinished hholds r (hold r hr),
      fun hholds hne r hr => hrel.running hholds hne r (hold r hr)⟩

end

/-- The updates that a run of the job makes on the row. -/
theorem row_statement (hstep : statement s i stage o batch = some s') :
    s'.row = s.row ∨ s'.row = o.effect (update claimForProcessing) s.row ∨
      (stage.holds ∧ (s'.row = o.effect (update markReady) s.row ∨
        s'.row = o.effect (update markCancelled) s.row ∨
          s'.row = o.effect (update markFailed) s.row)) := by
  cases stage with
  | ended => cases hstep
  | claiming =>
    cases hstep
    exact .inr (.inl rfl)
  | publishing =>
    cases hstep
    exact .inr (.inr ⟨rfl, .inl rfl⟩)
  | stopping =>
    cases hstep
    exact .inr (.inr ⟨rfl, .inr (.inl rfl)⟩)
  | rejecting | limiting | catching =>
    cases hstep
    exact .inr (.inr ⟨rfl, .inr (.inr rfl)⟩)
  | reading | parsing | opening | polling | fetching | auditing =>
    cases hstep
    exact .inl rfl

/-- A run only changes the row of an export that it claims or holds. -/
theorem later_statement (h : Inv s) (hrun : s.runs[i]? = some stage)
    (hstep : statement s i stage o batch = some s') : Later s.row s'.row := by
  rcases row_statement hstep with heq | heq | ⟨hholds, hwrite⟩
  · rw [heq]
    exact Later.refl _
  · rw [heq]
    refine later_effect fun r _ r' hr' => ?_
    simp only [claimForProcessing, mem_def, ite_none_right_eq_some, Option.some.injEq] at hr'
    obtain ⟨hclaimable, rfl⟩ := hr'
    exact ⟨fun hc => by simp [hc] at hclaimable, fun he => by simp [he] at hclaimable, id⟩
  · have hopen := (h.relies i stage hrun).unfinished hholds
    rcases hwrite with heq | heq | heq
    · rw [heq]
      refine hopen.later fun r r' hr' => ?_
      rw [← Option.some.inj hr']
    · rw [heq]
      refine hopen.later fun r r' hr' => ?_
      rw [← Option.some.inj hr']
    · rw [heq]
      refine hopen.later fun r r' hr' => ?_
      rw [← Option.some.inj hr']

/-- Every step keeps the invariant, and the row only comes later. -/
theorem Inv.step (h : Inv s) (hguard : PublishesUncancelled s a) (hstep : step s a = some s') :
    Inv s' ∧ Later s.row s'.row := by
  cases a with
  | statement i o batch =>
    obtain ⟨stage, hrun, hstep⟩ := bind_eq_some_iff.mp hstep
    exact ⟨h.statement hrun hguard hstep, later_statement h hrun hstep⟩
  | deliver =>
    cases hstep
    refine ⟨⟨h.row, fun i stage hi => ?_, h.exclusive.append rfl⟩, Later.refl _⟩
    rcases getElem?_append_cases hi with ⟨-, rfl⟩ | hold
    · exact relies_of_not_holds rfl
    · exact h.relies i stage hold
  | crash i =>
    obtain ⟨stage, -, rfl⟩ := map_eq_some_iff.mp hstep
    exact ⟨h.release rfl, Later.refl _⟩
  | requestCancel =>
    cases hstep
    exact ⟨h.requestCancel, later_requestCancel⟩
  | viewExpired =>
    simp only [Export.step] at hstep
    obtain ⟨-, rfl⟩ := Run.enabled hstep
    exact ⟨h.markExpired (o := .done) rfl rfl, later_markExpired (o := .done)⟩
  | findExpired | findStale =>
    simp only [Export.step] at hstep
    obtain ⟨-, rfl⟩ := Run.enabled hstep
    exact ⟨h.of_runs rfl h.row fun _ hrel => hrel, Later.refl _⟩
  | sweep j o =>
    obtain ⟨sweep, -, hstep⟩ := bind_eq_some_iff.mp hstep
    cases sweep with
    | expiring =>
      cases hstep
      exact ⟨h.markExpired rfl rfl, later_markExpired⟩
    | purging =>
      cases hstep
      exact ⟨h.deleteMetadataRow rfl rfl, later_deleteMetadataRow⟩
    | ended => cases hstep

theorem inv_created : Inv .created := by
  refine ⟨fun r hr hstatus => ?_, fun i stage hi => ?_, exclusive_nil⟩
  · cases hr
    simp at hstatus
  · simp [State.created] at hi

/-- Runs keep the invariant, and rows only come later. -/
theorem Inv.along (h : Inv s) {actions : List Action}
    (hrun : Run Export.step PublishesUncancelled s actions s') : Inv s' ∧ Later s.row s'.row := by
  refine hrun.invariant (I := fun s' => Inv s' ∧ Later s.row s'.row)
    (fun s₁ a s₂ hs₁ hguard hstep => ?_) ⟨h, Later.refl _⟩
  obtain ⟨hinv, hlater⟩ := hs₁.1.step hguard hstep
  exact ⟨hinv, hs₁.2.trans hlater⟩

/-- The run begins with a request that returns the row. -/
def Accepted (s : State) (actions : List Action) : Prop :=
  actions.head? = some .requestCancel ∧ returns requestCancel s.row

theorem Inv.final (h : Inv s) {actions : List Action}
    (hrun : Run Export.step PublishesUncancelled s actions s') :
    Final (Accepted s actions) s.row s'.row := by
  obtain ⟨hinv, hlater⟩ := h.along hrun
  refine hlater.final (fun haccepted => ?_) hinv.row
  obtain ⟨hhead, hreturns⟩ := haccepted
  cases hrun with
  | nil => cases hhead
  | cons hguard hstep hrest =>
    cases hhead
    cases hstep
    exact cancelRequested_of_later hreturns (h.requestCancel.along hrest).2

end Export

/-- An accepted cancellation is final, a completed row only expires or goes away, and a cancelled
or failed Deep Search leaves no results. -/
theorem cancellation_final {cfg : Deep.Config} {search search' : Deep.State}
    {before after : List Deep.Action} {exported exported' : Export.State}
    {earlier later : List Export.Action}
    (hcreated : Run (Deep.step cfg) (Deep.CompletesAfterCommit cfg) .created before search)
    (hsearch : Run (Deep.step cfg) (Deep.CompletesAfterCommit cfg) search after search')
    (hcreated' : Run Export.step Export.PublishesUncancelled .created earlier exported)
    (hexport : Run Export.step Export.PublishesUncancelled exported later exported') :
    Final (Deep.Accepted search after) search.row search'.row ∧
      Final (Export.Accepted exported later) exported.row exported'.row ∧
        ∀ r ∈ search'.row, r.status = .cancelled ∨ r.status = .failed → search'.spool = 0 := by
  have hinv := (Deep.inv_created.along hcreated).1
  have hinv' := (Export.inv_created.along hcreated').1
  exact ⟨hinv.final hsearch, hinv'.final hexport, (hinv.along hsearch).1.settled⟩

/-- The smallest batches of the cleanup. -/
def smallBatches : Deep.Config := ⟨500, by decide⟩

/-- A Deep Search of three results up to its commit. -/
def commits : List Deep.Action :=
  [.deliver, .statement 0 .done 0, .statement 0 .done 0, .statement 0 .done 0, .statement 0 .done 0,
    .statement 0 .done 0, .statement 0 .done 0, .statement 0 .done 3, .statement 0 .done 0,
    .statement 0 .done 0]

/-- The search is cancelled between its commit and its completion. -/
def cancelsCommitted : List Deep.Action :=
  [.requestCancel, .statement 0 .done 0, .statement 0 .done 0, .statement 0 .done 0]

/-- An export up to the last check of its flag. -/
def polls : List Export.Action :=
  [.deliver, .statement 0 .done .more, .statement 0 .done .more, .statement 0 .done .more,
    .statement 0 .done .more]

/-- The export is cancelled before the check. -/
def cancelsPolling : List Export.Action :=
  [.requestCancel, .statement 0 .done .more, .statement 0 .done .more]

theorem cancellation_final_cancelled :
    ∃ (search search' : Deep.State) (exported exported' : Export.State),
      search'.row = some ⟨.cancelled, true⟩ ∧ exported'.row = some ⟨.cancelled, true⟩ ∧
        Final (Deep.Accepted search cancelsCommitted) search.row search'.row ∧
          Final (Export.Accepted exported cancelsPolling) exported.row exported'.row ∧
            ∀ r ∈ search'.row, r.status = .cancelled ∨ r.status = .failed → search'.spool = 0 := by
  obtain ⟨search, hcreated, search', hsearch, hrow⟩ :
      ∃ search, Run (Deep.step smallBatches) (Deep.CompletesAfterCommit smallBatches) .created
          commits search ∧
        ∃ search', Run (Deep.step smallBatches) (Deep.CompletesAfterCommit smallBatches) search
          cancelsCommitted search' ∧ search'.row = some ⟨.cancelled, true⟩ :=
    Run.exists_pair_of_any (by decide)
  obtain ⟨exported, hcreated', exported', hexport, hrow'⟩ :
      ∃ exported, Run Export.step Export.PublishesUncancelled .created polls exported ∧
        ∃ exported', Run Export.step Export.PublishesUncancelled exported cancelsPolling exported' ∧
          exported'.row = some ⟨.cancelled, true⟩ :=
    Run.exists_pair_of_any (by decide)
  exact ⟨search, search', exported, exported', hrow, hrow',
    cancellation_final hcreated hsearch hcreated' hexport⟩

/-- The cancellation arrives after the last check of the flag. -/
def cancelsLate : List Export.Action := [.requestCancel, .statement 0 .done .last]

/-- The completion is not carried out, and the committed results stay. -/
def failsCompletion : List Deep.Action :=
  [.statement 0 (.error false false) 0, .statement 0 .done 0, .statement 0 .done 0]

/-- The completion is carried out and reports an error. -/
def losesCompletion : List Deep.Action := [.statement 0 (.error true false) 0]

/-- The handler of the error overwrites the completion. -/
def failsCompleted : List Deep.Action := [.statement 0 .done 0, .statement 0 .done 0]

/-- An export becomes ready after its cancellation was accepted. A failed Deep Search keeps its
results, and a completed one becomes failed, when the statement after the commit reports an
error. -/
theorem cancelled_export_ready :
    (∃ s t, Run Export.step (fun _ _ => True) .created (polls ++ [.statement 0 .done .last]) s ∧
        Run Export.step (fun _ _ => True) s cancelsLate t ∧
          ¬ Final (Export.Accepted s cancelsLate) s.row t.row) ∧
      (∃ s, Run (Deep.step smallBatches) (fun _ _ => True) .created (commits ++ failsCompletion) s ∧
        s.row = some ⟨.failed, false⟩ ∧ s.spool = 3) ∧
      ∃ s t, Run (Deep.step smallBatches) (fun _ _ => True) .created (commits ++ losesCompletion) s ∧
        Run (Deep.step smallBatches) (fun _ _ => True) s failsCompleted t ∧
          ¬ Final (Deep.Accepted s failsCompleted) s.row t.row := by
  refine ⟨?_, ?_, ?_⟩
  · obtain ⟨s, hcreated, t, hrun, haccepted, hready⟩ :
        ∃ s, Run Export.step (fun _ _ => True) .created (polls ++ [.statement 0 .done .last]) s ∧
          ∃ t, Run Export.step (fun _ _ => True) s cancelsLate t ∧
            returns requestCancel s.row ∧ t.row = some ⟨.completed, true⟩ :=
      Run.exists_pair_of_any (by decide)
    refine ⟨s, t, hcreated, hrun, fun hfinal => ?_⟩
    exact (hfinal.cancelled ⟨rfl, haccepted⟩ _ hready).1 rfl
  · exact Run.exists_of_any (by decide)
  · obtain ⟨s, hcreated, t, hrun, hcompleted, hfailed⟩ :
        ∃ s, Run (Deep.step smallBatches) (fun _ _ => True) .created (commits ++ losesCompletion) s ∧
          ∃ t, Run (Deep.step smallBatches) (fun _ _ => True) s failsCompleted t ∧
            s.row = some ⟨.completed, false⟩ ∧ t.row = some ⟨.failed, false⟩ :=
      Run.exists_pair_of_any (by decide)
    refine ⟨s, t, hcreated, hrun, fun hfinal => ?_⟩
    have hstatus := hfinal.completed _ hcompleted rfl _ hfailed
    simp at hstatus

end TalonHound.SearchJobs
