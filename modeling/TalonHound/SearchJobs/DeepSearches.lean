import TalonHound.Library.IndexedList
import TalonHound.Library.Run
import TalonHound.SearchJobs.Rows

/-!
# Cancelling and completing a Deep Search

The row of one Deep Search and its spooled results, with every run of its job stopped between any
two statements, the cancel route, and the retention sweep. A statement that reports an error may
have taken effect before.
-/

namespace TalonHound.SearchJobs

namespace Deep

open Indexed Option

def claimForProcessing (row : Row) : Option Row :=
  if row.status = .queued then some { row with status := .running } else none

/-- Not after a request to stop. -/
def markCompleted (row : Row) : Option Row :=
  if row.status = .running ∧ row.cancelRequested = false then
    some { row with status := .completed }
  else none

/-- `cleanupBatchSize`, at least 500 after its clamp. -/
structure Config where
  cleanupBatchSize : ℕ
  pos : 0 < cleanupBatchSize

def deleteResultsBatch (cfg : Config) (spool : ℕ) : ℕ := spool - cfg.cleanupBatchSize

/-- The statement that a run of `runDeepSearch` makes next. -/
inductive Stage
  | reading | claiming | checkingStart | cancellingStart | parsing | rejecting | connecting
  | preparing | inserting
  | checkingCancel (rows : ℕ)
  | rollingBack
  | committing (rows : ℕ)
  | completing
  | clearing
  | cancelling
  | catching (canceled : Bool)
  | catchCancelling
  | failing
  | auditing
  | ended

/-- A run, and whether its watcher saw a request. -/
structure JobRun where
  stage : Stage
  cancelSignalled : Bool

/-- The sweep deletes the spool of a row that it found, and then expires or deletes the row. -/
inductive Sweep
  | expiring | markingExpired | purging | deletingRow | ended

/-- One Deep Search, the number of its committed result rows, and who works on it. -/
structure State where
  row : Option Row
  spool : ℕ
  runs : List JobRun
  sweeps : List Sweep

/-- The search after `createDeepSearch`. -/
def State.created : State := ⟨some ⟨.queued, false⟩, 0, [], []⟩

/-- The run goes on to its next statement. -/
def State.goto (s : State) (i : ℕ) (run : JobRun) (stage : Stage) : State :=
  { s with runs := s.runs.set i { run with stage } }

def State.setRow (s : State) (row : Option Row) : State := { s with row }

def State.setSpool (s : State) (spool : ℕ) : State := { s with spool }

/-- The next stage, unless an error inside the `try` block leads to its handler. -/
def Stage.orCatch (stage : Stage) : Outcome → Stage
  | .done => stage
  | .error _ canceled => .catching canceled

/-- The next stage, unless an error outside of the block ends the run. -/
def Stage.orEnd (stage : Stage) : Outcome → Stage
  | .done => stage
  | .error _ _ => .ended

/-- The watcher of the query has been started. -/
def Stage.isWatched : Stage → Bool
  | .reading | .claiming | .checkingStart | .cancellingStart | .parsing | .rejecting | .connecting
  | .preparing | .ended => false
  | _ => true

/-- One statement of `runDeepSearch`; `inserted` is the row count of the materialization. The
audit service logs its own errors, so that an audit call ends the same way either time. -/
def statement (cfg : Config) (s : State) (i : ℕ) (run : JobRun) (o : Outcome) (inserted : ℕ) :
    Option State :=
  match run.stage with
  | .reading =>
    let queued := s.row.any fun row => row.status = .queued
    s.goto i run ((if queued then Stage.claiming else .ended).orEnd o)
  | .claiming =>
    let claimed := returns claimForProcessing s.row
    (s.setRow (o.effect (update claimForProcessing) s.row)).goto i run
      ((if claimed then Stage.checkingStart else .ended).orEnd o)
  | .checkingStart =>
    let cancel := isCancelRequested s.row
    s.goto i run ((if cancel then Stage.cancellingStart else .parsing).orEnd o)
  | .cancellingStart =>
    (s.setRow (o.effect (update markCancelled) s.row)).goto i run (Stage.auditing.orEnd o)
  | .parsing =>
    s.goto i run (match o with
      | .done => .connecting
      | .error _ _ => .rejecting)
  | .rejecting =>
    (s.setRow (o.effect (update markFailed) s.row)).goto i run (Stage.auditing.orEnd o)
  | .connecting => s.goto i run (Stage.preparing.orEnd o)
  | .preparing => s.goto i run (Stage.inserting.orCatch o)
  | .inserting => s.goto i run ((Stage.checkingCancel inserted).orCatch o)
  | .checkingCancel rows =>
    let cancel := isCancelRequested s.row
    if run.cancelSignalled then s.goto i run .rollingBack
    else s.goto i run ((if cancel then Stage.rollingBack else .committing rows).orCatch o)
  | .rollingBack => s.goto i run (Stage.cancelling.orCatch o)
  | .committing rows =>
    -- the transaction also cleared the rows of an earlier attempt
    (s.setSpool (o.effect (fun _ => rows) s.spool)).goto i run (Stage.completing.orCatch o)
  | .completing =>
    let completed := returns markCompleted s.row
    (s.setRow (o.effect (update markCompleted) s.row)).goto i run
      ((if completed then Stage.auditing else .clearing).orCatch o)
  | .clearing =>
    let deleted := min s.spool cfg.cleanupBatchSize
    (s.setSpool (o.effect (deleteResultsBatch cfg) s.spool)).goto i run
      ((if deleted < cfg.cleanupBatchSize then Stage.cancelling else .clearing).orCatch o)
  | .cancelling =>
    (s.setRow (o.effect (update markCancelled) s.row)).goto i run (Stage.auditing.orCatch o)
  | .catching canceled =>
    let settled := run.cancelSignalled || (o = .done && isCancelRequested s.row)
    s.goto i run (if canceled && settled then .catchCancelling else .failing)
  | .catchCancelling =>
    (s.setRow (o.effect (update markCancelled) s.row)).goto i run (Stage.auditing.orEnd o)
  | .failing =>
    (s.setRow (o.effect (update markFailed) s.row)).goto i run (Stage.auditing.orEnd o)
  | .auditing => s.goto i run .ended
  | .ended => none

/-- One statement of `cleanupExpired`, for the row that the sweep found. -/
def sweepStatement (cfg : Config) (s : State) (j : ℕ) (sweep : Sweep) (o : Outcome) :
    Option State :=
  let deleted := min s.spool cfg.cleanupBatchSize
  let swept (sweep : Sweep) : List Sweep :=
    s.sweeps.set j (match o with
      | .done => sweep
      | .error _ _ => .ended)
  match sweep with
  | .expiring =>
    some { s with
      spool := o.effect (deleteResultsBatch cfg) s.spool
      sweeps := swept (if deleted < cfg.cleanupBatchSize then .markingExpired else .expiring) }
  | .markingExpired =>
    some { s with row := o.effect (update markExpired) s.row, sweeps := swept .ended }
  | .purging =>
    some { s with
      spool := o.effect (deleteResultsBatch cfg) s.spool
      sweeps := swept (if deleted < cfg.cleanupBatchSize then .deletingRow else .purging) }
  | .deletingRow => some { s with row := o.effect deleteMetadataRow s.row, sweeps := swept .ended }
  | .ended => none

inductive Action
  | deliver
  | statement (i : ℕ) (o : Outcome) (inserted : ℕ)
  | watch (i : ℕ)
  | crash (i : ℕ)
  | requestCancel
  | viewExpired
  | findExpired
  | findStale
  | sweep (j : ℕ) (o : Outcome)

/-- One step of the workers, the routes or the sweep. A row is past its retention whenever the
sweep or a view finds it so. -/
def step (cfg : Config) (s : State) : Action → Option State
  | .deliver => some { s with runs := s.runs ++ [⟨.reading, false⟩] }
  | .statement i o inserted => s.runs[i]?.bind fun run => statement cfg s i run o inserted
  | .watch i => s.runs[i]?.bind fun run =>
    -- the watcher finds the flag and cancels the query in progress
    if run.stage.isWatched && isCancelRequested s.row then
      some { s with runs := s.runs.set i { run with cancelSignalled := true } }
    else none
  | .crash i => s.runs[i]?.map fun run => s.goto i run .ended
  | .requestCancel => some (s.setRow (update requestCancel s.row))
  | .viewExpired =>
    if s.row.any fun row => row.status = .completed then
      some (s.setRow (update markExpired s.row))
    else none
  | .findExpired =>
    if s.row.any fun row => row.status = .completed then
      some { s with sweeps := s.sweeps ++ [.expiring] }
    else none
  | .findStale =>
    if s.row.any Row.isStale then some { s with sweeps := s.sweeps ++ [.purging] } else none
  | .sweep j o => s.sweeps[j]?.bind fun sweep => sweepStatement cfg s j sweep o

/-- The run claimed the search and has not settled it. -/
def Stage.holds : Stage → Bool
  | .reading | .claiming | .auditing | .ended => false
  | _ => true

/-- Stages after an error, which may come after the row was marked cancelled. -/
def Stage.isHandler : Stage → Bool
  | .catching _ | .catchCancelling | .failing => true
  | _ => false

/-- Stages at which the results may be committed. -/
def Stage.isCommitted : Stage → Bool
  | .completing | .clearing => true
  | _ => false

/-- What a run of the job relies on at a stage. -/
structure Relies (row : Option Row) (spool : ℕ) (stage : Stage) : Prop where
  unfinished : stage.holds → Unfinished row
  running : stage.holds → stage.isHandler = false → ∀ r ∈ row, r.status = .running
  spool : stage.holds → stage.isCommitted = false → spool = 0

/-- What holds between the row and its spool. -/
structure RowInv (row : Option Row) (spool : ℕ) : Prop where
  spool : ∀ r ∈ row, r.status = .queued ∨ r.status = .cancelled ∨ r.status = .failed → spool = 0
  cancel : ∀ r ∈ row, r.status = .completed ∨ r.status = .expired → r.cancelRequested = false

/-- The invariant. -/
structure Inv (s : State) : Prop where
  row : RowInv s.row s.spool
  relies : ∀ (i : ℕ) (run : JobRun), s.runs[i]? = some run → Relies s.row s.spool run.stage
  exclusive : Indexed.Exclusive (fun run => run.stage.holds) s.runs

/-- No error is reported between the commit of result rows and the end of the run: neither by the
commit itself, nor by the completion, nor by the removal of the rows. -/
def CompletesAfterCommit (cfg : Config) (s : State) : Action → Prop
  | .statement i (.error applied canceled) _ => ∀ run ∈ s.runs[i]?, match run.stage with
    | .committing rows => applied = true → rows = 0
    | .completing => s.spool = 0 ∧ (applied = true → isCancelRequested s.row = true)
    | .clearing => (Outcome.error applied canceled).effect (deleteResultsBatch cfg) s.spool = 0
    | _ => True
  | _ => True

instance (cfg : Config) (s : State) (a : Action) : Decidable (CompletesAfterCommit cfg s a) := by
  unfold CompletesAfterCommit
  split
  · refine @Option.decidableForallMem _ _ (fun run => ?_) _
    split <;> infer_instance
  · infer_instance

variable {cfg : Config} {s s' : State} {row : Option Row} {spool i inserted : ℕ} {run : JobRun}
  {stage : Stage} {o : Outcome} {a : Action}

theorem rowInv_of_not_completed (hspool : spool = 0)
    (h : ∀ r ∈ row, r.status ≠ .completed ∧ r.status ≠ .expired) : RowInv row spool := by
  refine ⟨fun _ _ _ => hspool, fun r hr hdone => ?_⟩
  obtain ⟨hcompleted, hexpired⟩ := h r hr
  rcases hdone with hdone | hdone
  · exact absurd hdone hcompleted
  · exact absurd hdone hexpired

theorem rowInv_of_unfinished (h : Unfinished row) (hspool : spool = 0) : RowInv row spool :=
  rowInv_of_not_completed hspool fun _ hr => h.not_completed hr

theorem relies_of_not_holds (h : stage.holds = false) : Relies row spool stage := by
  refine ⟨fun hholds => ?_, fun hholds => ?_, fun hholds => ?_⟩ <;> simp [h] at hholds

/-- A handler of errors may run on an unfinished row without results. -/
theorem relies_handler (h : Unfinished row) (hspool : spool = 0) (hstage : stage.isHandler) :
    Relies row spool stage := by
  refine ⟨fun _ => h, fun _ hhandler => ?_, fun _ _ => hspool⟩
  rw [hstage] at hhandler
  cases hhandler

/-- A running search that nothing is spooled for meets every stage. -/
theorem relies_of_running (hrow : ∀ r ∈ row, r.status = .running) (hspool : spool = 0) :
    Relies row spool stage :=
  ⟨fun _ => unfinished_of_running hrow, fun _ _ => hrow, fun _ _ => hspool⟩

theorem Relies.orEnd (h : Relies row spool stage) : Relies row spool (stage.orEnd o) := by
  cases o with
  | done => exact h
  | error applied canceled => exact relies_of_not_holds rfl

theorem Relies.orCatch (h : Relies row spool stage) (hrow : Unfinished row) (hspool : spool = 0) :
    Relies row spool (stage.orCatch o) := by
  cases o with
  | done => exact h
  | error applied canceled => exact relies_handler hrow hspool rfl

/-- The only run that may hold the search may change the row and the spool. -/
theorem Inv.sole (hothers : ∀ (j : ℕ) (run' : JobRun), s.runs[j]? = some run' → j ≠ i →
      run'.stage.holds = false)
    (hrow : RowInv row spool) (hstage : Relies row spool stage) :
    Inv (((s.setRow row).setSpool spool).goto i run stage) := by
  refine ⟨hrow, fun j run' hj => ?_, exclusive_set hothers⟩
  rcases getElem?_set_cases hj with ⟨rfl, rfl⟩ | ⟨hne, hold⟩
  · exact hstage
  · exact relies_of_not_holds (hothers j run' hold hne)

/-- A run that holds the search is the only one. -/
theorem Inv.holder (h : Inv s) (hrun : s.runs[i]? = some run) (hholds : run.stage.holds)
    (hrow : RowInv row spool) (hstage : Relies row spool stage) :
    Inv (((s.setRow row).setSpool spool).goto i run stage) :=
  Inv.sole (h.exclusive.others hrun hholds) hrow hstage

/-- A run may stop holding the search, or go on without it. -/
theorem Inv.release (h : Inv s) (hstage : stage.holds = false) : Inv (s.goto i run stage) := by
  refine ⟨h.row, fun j run' hj => ?_, h.exclusive.set_of_not hstage⟩
  rcases getElem?_set_cases hj with ⟨rfl, rfl⟩ | ⟨-, hold⟩
  · exact relies_of_not_holds hstage
  · exact h.relies j run' hold

/-- No run holds a queued search. -/
theorem Inv.not_holds_of_queued (h : Inv s) {r : Row} (hr : r ∈ s.row) (hqueued : r.status = .queued)
    (hrun : s.runs[i]? = some run) : run.stage.holds = false := by
  refine Bool.eq_false_iff.mpr fun hholds => ?_
  exact ((h.relies i run hrun).unfinished hholds).not_queued hr hqueued

/-- A claim takes a queued search, which nothing is spooled for. -/
theorem Inv.claim (h : Inv s) (hstage : run.stage = .claiming)
    (hstep : statement cfg s i run o inserted = some s') : Inv s' := by
  simp only [statement, hstage, Option.some.injEq] at hstep
  subst hstep
  by_cases hqueued : ∀ r ∈ s.row, r.status ≠ .queued
  · have hnone : ∀ r ∈ s.row, claimForProcessing r = none := fun r hr => if_neg (hqueued r hr)
    rw [effect_eq_self hnone, returns_eq_false hnone]
    exact h.release (by cases o <;> rfl)
  · push Not at hqueued
    obtain ⟨r, hr, hqueued⟩ := hqueued
    have hspool : s.spool = 0 := h.row.spool r hr (.inl hqueued)
    have hrows : ∀ r' ∈ o.effect (update claimForProcessing) s.row,
        r'.status = .queued ∨ r'.status = .running := by
      intro r' hr'
      rcases mem_effect hr' with hold | ⟨r₀, hr₀, rfl⟩
      · rw [mem_unique hold hr]
        exact .inl hqueued
      · rw [mem_unique hr₀ hr]
        right
        simp [claimForProcessing, hqueued]
    have hinv : RowInv (o.effect (update claimForProcessing) s.row) s.spool := by
      refine rowInv_of_not_completed hspool fun r' hr' => ?_
      rcases hrows r' hr' with hstatus | hstatus <;> simp [hstatus]
    refine Inv.sole (fun j run' hj _ => h.not_holds_of_queued hr hqueued hj) hinv ?_
    cases o with
    | error applied canceled => exact relies_of_not_holds rfl
    | done =>
      refine relies_of_running (fun r' hr' => ?_) hspool
      obtain ⟨r₀, hr₀, rfl⟩ := mem_update hr'
      rw [mem_unique hr₀ hr]
      simp [claimForProcessing, hqueued]

theorem markCompleted_eq_none (h : isCancelRequested row) : ∀ r ∈ row, markCompleted r = none := by
  intro r hr
  have hrequested : r.cancelRequested = true := by
    rw [mem_def.mp hr] at h
    exact h
  simp [markCompleted, hrequested]

section

variable (h : Inv s) (hrun : s.runs[i]? = some run)
include h hrun

/-- The completion leaves a completed search, or a running one whose results go away. -/
theorem Inv.complete (hstage : run.stage = .completing)
    (hguard : CompletesAfterCommit cfg s (.statement i o inserted))
    (hstep : statement cfg s i run o inserted = some s') : Inv s' := by
  have hholds : run.stage.holds := by simp [hstage, Stage.holds]
  have hrunning : ∀ r ∈ s.row, r.status = .running :=
    (h.relies i run hrun).running hholds (by simp [hstage, Stage.isHandler])
  simp only [statement, hstage, Option.some.injEq] at hstep
  subst hstep
  cases o with
  | error applied canceled =>
    have hcommitted := hguard run hrun
    simp only [hstage] at hcommitted
    have hrow : (Outcome.error applied canceled).effect (update markCompleted) s.row = s.row := by
      cases applied with
      | true => exact effect_eq_self (markCompleted_eq_none (hcommitted.2 rfl))
      | false => rfl
    rw [hrow]
    exact h.holder hrun hholds h.row (relies_of_running hrunning hcommitted.1)
  | done =>
    by_cases hnone : ∀ r ∈ s.row, markCompleted r = none
    · rw [effect_eq_self hnone, returns_eq_false hnone]
      refine h.holder hrun hholds h.row ⟨fun _ => unfinished_of_running hrunning,
        fun _ _ => hrunning, fun _ hcommitted => ?_⟩
      simp [Stage.orCatch, Stage.isCommitted] at hcommitted
    · push Not at hnone
      obtain ⟨r, hr, hsome⟩ := hnone
      have hcondition : r.status = .running ∧ r.cancelRequested = false := by
        by_contra hcondition
        exact hsome (if_neg hcondition)
      have hrow : s.row = some r := hr
      refine h.holder hrun hholds ⟨fun r' hr' hstatus => ?_, fun r' hr' _ => ?_⟩ ?_
      · obtain rfl : ({ r with status := .completed } : Row) = r' := by
          simpa [Outcome.effect, update, hrow, markCompleted, hcondition] using hr'
        simp at hstatus
      · obtain rfl : ({ r with status := .completed } : Row) = r' := by
          simpa [Outcome.effect, update, hrow, markCompleted, hcondition] using hr'
        exact hcondition.2
      · refine relies_of_not_holds ?_
        simp [returns, hrow, markCompleted, hcondition, Stage.orCatch, Stage.holds]

section

variable (hholds : run.stage.holds)
include hholds

/-- Before the commit a run may go on to any stage. -/
theorem Inv.advance (hhandler : run.stage.isHandler = false)
    (hcommitted : run.stage.isCommitted = false) :
    Inv (s.goto i run stage) := by
  have hrel := h.relies i run hrun
  exact h.holder hrun hholds h.row
    (relies_of_running (hrel.running hholds hhandler) (hrel.spool hholds hcommitted))

/-- A run without results may mark its search cancelled. -/
theorem Inv.cancel (hcommitted : run.stage.isCommitted = false) :
    Inv ((s.setRow (o.effect (update markCancelled) s.row)).goto i run (Stage.auditing.orEnd o)) ∧
      Inv ((s.setRow (o.effect (update markCancelled) s.row)).goto i run
        (Stage.auditing.orCatch o)) := by
  have hrel := h.relies i run hrun
  have hspool := hrel.spool hholds hcommitted
  have hrow : Unfinished (o.effect (update markCancelled) s.row) :=
    (hrel.unfinished hholds).markCancelled
  have hinv := rowInv_of_unfinished hrow hspool
  have haudit : Relies (o.effect (update markCancelled) s.row) s.spool .auditing :=
    relies_of_not_holds rfl
  exact ⟨h.holder hrun hholds hinv haudit.orEnd,
    h.holder hrun hholds hinv (haudit.orCatch hrow hspool)⟩

/-- A run without results may mark its search failed, when no handler comes after it. -/
theorem Inv.fail (hcommitted : run.stage.isCommitted = false) :
    Inv ((s.setRow (o.effect (update markFailed) s.row)).goto i run (Stage.auditing.orEnd o)) := by
  have hrel := h.relies i run hrun
  have hspool := hrel.spool hholds hcommitted
  exact h.holder hrun hholds (rowInv_of_unfinished (hrel.unfinished hholds).markFailed hspool)
    (relies_of_not_holds rfl : Relies _ s.spool .auditing).orEnd

/-- The commit brings the results in, and the removal takes them out again. -/
theorem Inv.setSpool (hhandler : run.stage.isHandler = false)
    (hstage : o = .done → stage.isCommitted ∨ spool = 0) (herror : o ≠ .done → spool = 0) :
    Inv ((s.setSpool spool).goto i run (stage.orCatch o)) := by
  have hrunning := (h.relies i run hrun).running hholds hhandler
  have hrow : RowInv s.row spool := by
    refine ⟨fun r hr hstatus => ?_, fun r hr hstatus => ?_⟩
    · simp [hrunning r hr] at hstatus
    · simp [hrunning r hr] at hstatus
  refine h.holder hrun hholds hrow ?_
  cases o with
  | error applied canceled => exact relies_of_running hrunning (herror (by simp))
  | done =>
    refine ⟨fun _ => unfinished_of_running hrunning, fun _ _ => hrunning, fun _ hcommitted => ?_⟩
    rcases hstage rfl with hstage | hspool
    · rw [show stage.orCatch .done = stage from rfl, hstage] at hcommitted
      cases hcommitted
    · exact hspool

end

end

theorem holds_orEnd (h : stage.holds = false) : (stage.orEnd o).holds = false := by
  cases o with
  | done => exact h
  | error applied canceled => rfl

/-- Every statement of a run of the job keeps the invariant. -/
theorem Inv.statement (h : Inv s) (hrun : s.runs[i]? = some run)
    (hguard : CompletesAfterCommit cfg s (.statement i o inserted))
    (hstep : statement cfg s i run o inserted = some s') : Inv s' := by
  have hadvance (stage : Stage) (hplain : run.stage.holds = true ∧ run.stage.isHandler = false ∧
      run.stage.isCommitted = false) : Inv (s.goto i run stage) :=
    h.advance hrun hplain.1 hplain.2.1 hplain.2.2
  cases hstage : run.stage with
  | claiming => exact h.claim hstage hstep
  | completing => exact h.complete hrun hstage hguard hstep
  | ended => simp [Deep.statement, hstage] at hstep
  | catching canceled =>
    have hrel := h.relies i run hrun
    have hholds : run.stage.holds := by simp [hstage, Stage.holds]
    have hspool := hrel.spool hholds (by simp [hstage, Stage.isCommitted])
    simp only [Deep.statement, hstage, Option.some.injEq] at hstep
    subst hstep
    refine h.holder hrun hholds h.row (relies_handler (hrel.unfinished hholds) hspool ?_)
    split <;> rfl
  | committing rows =>
    have hspool := (h.relies i run hrun).spool (by simp [hstage, Stage.holds])
      (by simp [hstage, Stage.isCommitted])
    have hcommit := hguard
    simp only [Deep.statement, hstage, Option.some.injEq] at hstep
    subst hstep
    refine h.setSpool hrun (by simp [hstage, Stage.holds]) (by simp [hstage, Stage.isHandler])
      (fun _ => .inl rfl) fun herror => ?_
    cases o with
    | done => exact absurd rfl herror
    | error applied canceled =>
      have hrows := hcommit run hrun
      simp only [hstage] at hrows
      cases applied with
      | true => exact hrows rfl
      | false => exact hspool
  | clearing =>
    have hclear := hguard
    simp only [Deep.statement, hstage, Option.some.injEq] at hstep
    subst hstep
    refine h.setSpool hrun (by simp [hstage, Stage.holds]) (by simp [hstage, Stage.isHandler])
      (fun hdone => ?_) fun herror => ?_
    · subst hdone
      split
      · next hlast =>
        right
        change s.spool - cfg.cleanupBatchSize = 0
        omega
      · exact .inl rfl
    · cases o with
      | done => exact absurd rfl herror
      | error applied canceled =>
        have hempty := hclear run hrun
        simp only [hstage] at hempty
        exact hempty
  | reading =>
    simp only [Deep.statement, hstage, Option.some.injEq] at hstep
    subst hstep
    refine h.release (holds_orEnd ?_)
    split <;> rfl
  | auditing =>
    simp only [Deep.statement, hstage, Option.some.injEq] at hstep
    subst hstep
    exact h.release rfl
  | cancellingStart | catchCancelling =>
    simp only [Deep.statement, hstage, Option.some.injEq] at hstep
    subst hstep
    exact (h.cancel hrun (by simp [hstage, Stage.holds]) (by simp [hstage, Stage.isCommitted])).1
  | cancelling =>
    simp only [Deep.statement, hstage, Option.some.injEq] at hstep
    subst hstep
    exact (h.cancel hrun (by simp [hstage, Stage.holds]) (by simp [hstage, Stage.isCommitted])).2
  | rejecting | failing =>
    simp only [Deep.statement, hstage, Option.some.injEq] at hstep
    subst hstep
    exact h.fail hrun (by simp [hstage, Stage.holds]) (by simp [hstage, Stage.isCommitted])
  | checkingCancel rows =>
    simp only [Deep.statement, hstage] at hstep
    split at hstep
    · cases hstep
      exact hadvance _ (by simp [hstage, Stage.holds, Stage.isHandler, Stage.isCommitted])
    · cases hstep
      exact hadvance _ (by simp [hstage, Stage.holds, Stage.isHandler, Stage.isCommitted])
  | checkingStart | parsing | connecting | preparing | inserting | rollingBack =>
    simp only [Deep.statement, hstage, Option.some.injEq] at hstep
    subst hstep
    exact hadvance _ (by simp [hstage, Stage.holds, Stage.isHandler, Stage.isCommitted])

/-- Parties that are not runs of the job may change the row and the spool. -/
theorem Inv.of_runs (h : Inv s) (hruns : s'.runs = s.runs) (hrow : RowInv s'.row s'.spool)
    (hrelies : ∀ stage, Relies s.row s.spool stage → Relies s'.row s'.spool stage) : Inv s' := by
  refine ⟨hrow, fun i run hi => ?_, hruns ▸ h.exclusive⟩
  rw [hruns] at hi
  exact hrelies _ (h.relies i run hi)

/-- They may take the row or results away. -/
theorem Inv.shrink (h : Inv s) (hruns : s'.runs = s.runs) (hrow : ∀ r ∈ s'.row, r ∈ s.row)
    (hspool : s'.spool ≤ s.spool) : Inv s' := by
  refine h.of_runs hruns ⟨fun r hr hstatus => ?_, fun r hr => h.row.cancel r (hrow r hr)⟩
    fun stage hrel => ⟨fun hholds r hr => hrel.unfinished hholds r (hrow r hr),
      fun hholds hhandler r hr => hrel.running hholds hhandler r (hrow r hr), fun hholds hc => ?_⟩
  · have hzero := h.row.spool r (hrow r hr) hstatus
    omega
  · have hzero := hrel.spool hholds hc
    omega

theorem Inv.requestCancel (h : Inv s) : Inv (s.setRow (update requestCancel s.row)) := by
  refine h.of_runs rfl ⟨fun r hr hstatus => ?_, fun r hr hstatus => ?_⟩
    fun stage hrel => ⟨fun hholds => (hrel.unfinished hholds).requestCancel,
      fun hholds hhandler => running_requestCancel (hrel.running hholds hhandler), hrel.spool⟩
  · rcases mem_requestCancel hr with hold | ⟨r₀, hr₀, ⟨hqueued, -⟩ | ⟨-, hrunning⟩⟩
    · exact h.row.spool r hold hstatus
    · exact h.row.spool r₀ hr₀ (.inl hqueued)
    · simp [hrunning] at hstatus
  · rcases mem_requestCancel hr with hold | ⟨r₀, hr₀, ⟨-, hcancelled⟩ | ⟨-, hrunning⟩⟩
    · exact h.row.cancel r hold hstatus
    · simp [hcancelled] at hstatus
    · simp [hrunning] at hstatus

theorem Inv.markExpired (h : Inv s) (hruns : s'.runs = s.runs) (hspool : s'.spool = s.spool)
    (hrow : s'.row = o.effect (update markExpired) s.row) : Inv s' := by
  refine h.of_runs hruns ?_ fun stage hrel => ?_
  · rw [hspool, hrow]
    refine ⟨fun r hr hstatus => ?_, fun r hr hstatus => ?_⟩
    · rcases mem_markExpired hr with hold | ⟨hexpired, -⟩
      · exact h.row.spool r hold hstatus
      · simp [hexpired] at hstatus
    · rcases mem_markExpired hr with hold | ⟨-, r₀, hr₀, hdone, heq⟩
      · exact h.row.cancel r hold hstatus
      · rw [heq]
        exact h.row.cancel r₀ hr₀ hdone
  · rw [hspool]
    have hsame (hholds : stage.holds) : s'.row = s.row := by
      rw [hrow, (hrel.unfinished hholds).markExpired]
    exact ⟨fun hholds => hsame hholds ▸ hrel.unfinished hholds,
      fun hholds => hsame hholds ▸ hrel.running hholds, hrel.spool⟩

theorem effect_deleteResultsBatch_le : o.effect (deleteResultsBatch cfg) spool ≤ spool := by
  unfold Outcome.effect deleteResultsBatch
  split <;> omega

/-- The watcher leaves the stage of its run. -/
theorem Inv.watch (h : Inv s) (hrun : s.runs[i]? = some run) :
    Inv { s with runs := s.runs.set i { run with cancelSignalled := true } } := by
  refine ⟨h.row, fun j run' hj => ?_, h.exclusive.set_of_imp hrun id⟩
  rcases getElem?_set_cases hj with ⟨rfl, rfl⟩ | ⟨-, hold⟩
  · exact h.relies j run hrun
  · exact h.relies j run' hold

/-- The updates that a run of the job makes on the row. -/
theorem row_statement (hstep : statement cfg s i run o inserted = some s') :
    s'.row = s.row ∨ s'.row = o.effect (update claimForProcessing) s.row ∨
      (run.stage.holds ∧ (s'.row = o.effect (update markCompleted) s.row ∨
        s'.row = o.effect (update markCancelled) s.row ∨
          s'.row = o.effect (update markFailed) s.row)) := by
  cases hstage : run.stage with
  | checkingCancel rows =>
    simp only [statement, hstage] at hstep
    split at hstep
    · cases hstep
      exact .inl rfl
    · cases hstep
      exact .inl rfl
  | claiming =>
    simp only [statement, hstage, Option.some.injEq] at hstep
    subst hstep
    exact .inr (.inl rfl)
  | completing =>
    simp only [statement, hstage, Option.some.injEq] at hstep
    subst hstep
    exact .inr (.inr ⟨rfl, .inl rfl⟩)
  | cancellingStart | cancelling | catchCancelling =>
    simp only [statement, hstage, Option.some.injEq] at hstep
    subst hstep
    exact .inr (.inr ⟨rfl, .inr (.inl rfl)⟩)
  | rejecting | failing =>
    simp only [statement, hstage, Option.some.injEq] at hstep
    subst hstep
    exact .inr (.inr ⟨rfl, .inr (.inr rfl)⟩)
  | ended => simp [statement, hstage] at hstep
  | _ =>
    simp only [statement, hstage, Option.some.injEq] at hstep
    subst hstep
    exact .inl rfl

/-- A run only changes the row of a search that it claims or holds. -/
theorem later_statement (h : Inv s) (hrun : s.runs[i]? = some run)
    (hstep : statement cfg s i run o inserted = some s') : Later s.row s'.row := by
  rcases row_statement hstep with heq | heq | ⟨hholds, hwrite⟩
  · rw [heq]
    exact Later.refl _
  · rw [heq]
    refine later_effect fun r _ r' hr' => ?_
    simp only [claimForProcessing, mem_def, ite_none_right_eq_some, Option.some.injEq] at hr'
    obtain ⟨hqueued, rfl⟩ := hr'
    exact ⟨fun hc => by simp [hqueued] at hc, fun he => by simp [hqueued] at he, id⟩
  · have hopen := (h.relies i run hrun).unfinished hholds
    rcases hwrite with heq | heq | heq
    · rw [heq]
      refine hopen.later fun r r' hr' => ?_
      simp only [markCompleted, mem_def, ite_none_right_eq_some, Option.some.injEq] at hr'
      rw [← hr'.2]
    · rw [heq]
      refine hopen.later fun r r' hr' => ?_
      rw [← Option.some.inj hr']
    · rw [heq]
      refine hopen.later fun r r' hr' => ?_
      rw [← Option.some.inj hr']

/-- Every step keeps the invariant, and the row only comes later. -/
theorem Inv.step (h : Inv s) (hguard : CompletesAfterCommit cfg s a)
    (hstep : step cfg s a = some s') : Inv s' ∧ Later s.row s'.row := by
  cases a with
  | statement i o inserted =>
    obtain ⟨run, hrun, hstep⟩ := bind_eq_some_iff.mp hstep
    exact ⟨h.statement hrun hguard hstep, later_statement h hrun hstep⟩
  | deliver =>
    cases hstep
    refine ⟨⟨h.row, fun i run hi => ?_, h.exclusive.append rfl⟩, Later.refl _⟩
    rcases getElem?_append_cases hi with ⟨-, rfl⟩ | hold
    · exact relies_of_not_holds rfl
    · exact h.relies i run hold
  | watch i =>
    obtain ⟨run, hrun, hstep⟩ := bind_eq_some_iff.mp hstep
    obtain ⟨-, rfl⟩ := Run.enabled hstep
    exact ⟨h.watch hrun, Later.refl _⟩
  | crash i =>
    obtain ⟨run, hrun, rfl⟩ := map_eq_some_iff.mp hstep
    exact ⟨h.release rfl, Later.refl _⟩
  | requestCancel =>
    cases hstep
    exact ⟨h.requestCancel, later_requestCancel⟩
  | viewExpired =>
    simp only [Deep.step] at hstep
    obtain ⟨-, rfl⟩ := Run.enabled hstep
    exact ⟨h.markExpired (o := .done) rfl rfl rfl, later_markExpired (o := .done)⟩
  | findExpired | findStale =>
    simp only [Deep.step] at hstep
    obtain ⟨-, rfl⟩ := Run.enabled hstep
    exact ⟨h.of_runs rfl h.row fun _ hrel => hrel, Later.refl _⟩
  | sweep j o =>
    obtain ⟨sweep, hsweep, hstep⟩ := bind_eq_some_iff.mp hstep
    cases sweep with
    | expiring | purging =>
      cases hstep
      exact ⟨h.shrink rfl (fun r hr => hr) effect_deleteResultsBatch_le, Later.refl _⟩
    | markingExpired =>
      cases hstep
      exact ⟨h.markExpired rfl rfl rfl, later_markExpired⟩
    | deletingRow =>
      cases hstep
      exact ⟨h.shrink rfl (fun r hr => mem_of_mem_deleteMetadataRow hr) (Nat.le_refl _),
        later_deleteMetadataRow⟩
    | ended => cases hstep

theorem inv_created : Inv .created := by
  refine ⟨⟨fun _ _ _ => rfl, fun r hr hstatus => ?_⟩, fun i run hi => ?_, exclusive_nil⟩
  · cases hr
    simp at hstatus
  · simp [State.created] at hi

/-- Runs keep the invariant, and rows only come later. -/
theorem Inv.along (h : Inv s) {actions : List Action}
    (hrun : Run (Deep.step cfg) (CompletesAfterCommit cfg) s actions s') :
    Inv s' ∧ Later s.row s'.row := by
  refine hrun.invariant (I := fun s' => Inv s' ∧ Later s.row s'.row)
    (fun s₁ a s₂ hs₁ hguard hstep => ?_) ⟨h, Later.refl _⟩
  obtain ⟨hinv, hlater⟩ := hs₁.1.step hguard hstep
  exact ⟨hinv, hs₁.2.trans hlater⟩

/-- The run begins with a request that returns the row. -/
def Accepted (s : State) (actions : List Action) : Prop :=
  actions.head? = some .requestCancel ∧ returns requestCancel s.row

theorem Inv.final (h : Inv s) {actions : List Action}
    (hrun : Run (Deep.step cfg) (CompletesAfterCommit cfg) s actions s') :
    Final (Accepted s actions) s.row s'.row := by
  obtain ⟨hinv, hlater⟩ := h.along hrun
  refine hlater.final (fun haccepted => ?_) hinv.row.cancel
  obtain ⟨hhead, hreturns⟩ := haccepted
  cases hrun with
  | nil => cases hhead
  | cons hguard hstep hrest =>
    cases hhead
    cases hstep
    exact cancelRequested_of_later hreturns (h.requestCancel.along hrest).2

/-- Nothing is spooled for a search that has settled without a completion. -/
theorem Inv.settled (h : Inv s) :
    ∀ r ∈ s.row, r.status = .cancelled ∨ r.status = .failed → s.spool = 0 :=
  fun r hr hstatus => h.row.spool r hr (.inr hstatus)

end Deep

end TalonHound.SearchJobs
