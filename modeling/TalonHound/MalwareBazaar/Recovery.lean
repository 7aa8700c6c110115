import TalonHound.Library.Run
import TalonHound.MalwareBazaar.Dump

/-!
# Recoveries in slices

Runs of recoveries on one dump, which stop at a slice deadline, by an error or a crash, or at the
end of the file. A completed recovery has upserted what one scan of its range would have, as long
as no resumed scan reads an entry of its range otherwise, or skips one that no earlier scan for its
range has committed.
-/

namespace TalonHound.MalwareBazaar

/-- A range of `first_seen`, both ends included. -/
abbrev Interval := ℤ × ℤ

/-- What a running recovery does next. -/
inductive RecoveryPhase where
  | reading
  /-- The batch is full. -/
  | full
  /-- The full batch is committed. -/
  | saving
  /-- The check of the slice deadline after a matched entry. -/
  | sliceCheck
  /-- The scan has ended, by the deadline or at the end of the file. -/
  | scanned (stopped : Bool)
  /-- The rest of the batch is committed. -/
  | savingRest (stopped : Bool)
  | ending (stopped : Bool)
  deriving DecidableEq

/-- A running recovery. -/
structure RecoveryRun where
  interval : Interval
  skipLines : ℕ
  /-- `lines_seen`. -/
  linesSeen : ℕ
  batch : List DumpEntry
  lastWatermark : Option ℤ
  phase : RecoveryPhase

/-- The lines that a recovery had read at a commit, and the range it read them for. -/
structure Slice where
  (skipLines linesSeen : ℕ)
  interval : Interval

/-- The coverage row, the running recovery, and what the recoveries so far have done. -/
structure RecoveryState where
  coverage : Option Coverage
  running : Option RecoveryRun
  upserted : List DumpEntry
  committed : List Slice
  completed : List Interval

/-- The state before the first recovery. -/
def RecoveryState.initial (coverage : Option Coverage) : RecoveryState := ⟨coverage, none, [], [], []⟩

inductive RecoveryAction where
  /-- A job with the range of the call, of which each end defaults to that of the stored gap. -/
  | start (fromOpt toOpt : Option ℤ) (overrideMaxRange : Bool) (now : ℤ)
  | readLine
  | endOfFile
  | commit
  | saveProgress
  /-- The coverage guard swallows the error of the write. -/
  | saveProgressFails
  | continueSlice
  | sliceDeadline
  | complete (now : ℤ)
  | fail (errorMessage : String)
  | crash
  | recentSuccess (bounds : RecentBounds) (now : ℤ)
  | freshnessTick (now : ℤ)

/-- `assertBoundedMalwareBazaarRange`. -/
def assertBoundedMalwareBazaarRange (start stop : ℤ) (overrideMaxRange : Bool) : Bool :=
  let maxHours := if overrideMaxRange then 336 else 168
  start ≤ stop && stop - start ≤ maxHours * (60 * 60 * 1000)

namespace RecoveryState

/-- The range of a job, unless the call is skipped or throws. -/
def jobRange (s : RecoveryState) (fromOpt toOpt : Option ℤ) (overrideMaxRange : Bool) :
    Option Interval :=
  match fromOpt.or (s.coverage.bind (·.gapFrom)), toOpt.or (s.coverage.bind (·.gapTo)) with
  | some start, some stop =>
    if assertBoundedMalwareBazaarRange start stop overrideMaxRange then some (start, stop) else none
  | _, _ => none

/-- `skipLines`. -/
def skipLines (s : RecoveryState) (dump : Dump) : ℕ :=
  match s.coverage with
  | some c => if c.recoveryDumpIdentity = some dump.dumpIdentity then c.recoveryScanLines else 0
  | none => 0

/-- `mutateCoverage`, for the transitions that need a row. -/
def mutate (f : Coverage → Coverage) (s : RecoveryState) : RecoveryState :=
  { s with coverage := s.coverage.map f }

/-- `commitBatch`. -/
def commitBatch (s : RecoveryState) (run : RecoveryRun) (phase : RecoveryPhase) : RecoveryState :=
  { s with
    running := some { run with batch := [], phase := phase }
    upserted := run.batch ++ s.upserted
    committed := ⟨run.skipLines, run.linesSeen, run.interval⟩ :: s.committed }

/-- The run goes on in another phase, or ends. -/
def proceed (s : RecoveryState) (running : Option RecoveryRun) : RecoveryState :=
  { s with running := running }

end RecoveryState

/-- The scan goes on behind a line. -/
def RecoveryRun.afterLine (run : RecoveryRun) (batchSize : ℕ) : Option DumpEntry → RecoveryRun
  | none => { run with linesSeen := run.linesSeen + 1 }
  | some entry =>
    if entryInUtcInterval entry run.interval.1 run.interval.2 then
      { run with
        linesSeen := run.linesSeen + 1
        batch := run.batch ++ [entry]
        lastWatermark := entry.firstSeenUtc.or run.lastWatermark
        phase := if (run.batch ++ [entry]).length ≥ batchSize then .full else .sliceCheck }
    else { run with linesSeen := run.linesSeen + 1 }

/-- A step of the running recovery; `none` when the action is not possible. -/
def runStep (parseDate : Text → Option ℤ) (dump : Dump) (batchSize : ℕ) (s : RecoveryState)
    (run : RecoveryRun) : RecoveryAction → Option RecoveryState
  | .readLine =>
    if run.phase = .reading && run.linesSeen < dump.lines.length then
      let entry := dump.readAt parseDate run.skipLines run.linesSeen
      some (s.proceed (some (run.afterLine batchSize entry)))
    else none
  | .endOfFile =>
    if run.phase = .reading && dump.lines.length ≤ run.linesSeen then
      some (s.proceed (some { run with phase := .scanned false }))
    else none
  | .commit =>
    match run.phase with
    | .full => some (s.commitBatch run .saving)
    | .scanned stopped =>
      if run.batch.isEmpty then some (s.proceed (some { run with phase := .ending stopped }))
      else some (s.commitBatch run (.savingRest stopped))
    | _ => none
  | .saveProgress =>
    let saved := s.mutate
      (nextCoverageAfterRecoveryProgress · run.linesSeen (some dump.dumpIdentity) run.lastWatermark)
    match run.phase with
    | .saving => some (saved.proceed (some { run with phase := .sliceCheck }))
    | .savingRest stopped => some (saved.proceed (some { run with phase := .ending stopped }))
    | .ending true => some (saved.proceed none)
    | _ => none
  | .saveProgressFails =>
    match run.phase with
    | .saving => some (s.proceed (some { run with phase := .sliceCheck }))
    | .savingRest stopped => some (s.proceed (some { run with phase := .ending stopped }))
    | .ending true => some (s.proceed none)
    | _ => none
  | .continueSlice =>
    if run.phase = .sliceCheck then some (s.proceed (some { run with phase := .reading })) else none
  | .sliceDeadline =>
    if run.phase = .sliceCheck then some (s.proceed (some { run with phase := .scanned true }))
    else none
  | .complete now =>
    if run.phase = .ending false then
      some { (s.mutate (nextCoverageAfterRecoveryComplete · run.interval.2 now)).proceed none with
        completed := run.interval :: s.completed }
    else none
  | .fail errorMessage =>
    some ((s.mutate (nextCoverageAfterRecoveryFailure · errorMessage)).proceed none)
  | .crash => some (s.proceed none)
  | _ => none

/-- One step; `none` when the action is not possible. A recovery starts when no other runs. -/
def recoveryStep (parseDate : Text → Option ℤ) (dump : Dump) (batchSize : ℕ)
    (s : RecoveryState) : RecoveryAction → Option RecoveryState
  | .start fromOpt toOpt overrideMaxRange now =>
    if s.running.isSome then none
    else (s.jobRange fromOpt toOpt overrideMaxRange).map fun interval =>
      (s.mutate (nextCoverageAfterRecoveryStart · now)).proceed
        (some ⟨interval, s.skipLines dump, s.skipLines dump, [], none, .reading⟩)
  | .recentSuccess bounds now =>
    some { s with coverage := some (nextCoverageAfterRecentSuccess s.coverage bounds now) }
  | .freshnessTick now => some (s.mutate (nextCoverageAfterFreshnessTick · now))
  | action => s.running.bind fun run => runStep parseDate dump batchSize s run action

/-- An entry that a scan from the first line reads for a range. -/
def FullScan (parseDate : Text → Option ℤ) (dump : Dump) (interval : Interval) (n : ℕ)
    (entry : DumpEntry) : Prop :=
  dump.readAt parseDate 0 n = some entry ∧ entryInUtcInterval entry interval.1 interval.2 = true

/-- A recovery has committed the line for a range that contains the entry. -/
def RecoveryState.CommittedLine (s : RecoveryState) (n : ℕ) (entry : DumpEntry) : Prop :=
  ∃ slice ∈ s.committed, slice.skipLines ≤ n ∧ n < slice.linesSeen ∧
    entryInUtcInterval entry slice.interval.1 slice.interval.2 = true
  deriving Decidable

/-- A scan that starts behind `skipLines` finds the entry as the full scan does, or does not need
it any more. -/
def Resumes (parseDate : Text → Option ℤ) (dump : Dump) (s : RecoveryState)
    (interval : Interval) : Prop :=
  ∀ n < dump.lines.length, ∀ entry ∈ dump.readAt parseDate 0 n,
    entryInUtcInterval entry interval.1 interval.2 = true →
      s.skipLines dump ≤ n ∧ dump.readAt parseDate (s.skipLines dump) n = some entry ∨
        s.CommittedLine n entry

/-- A recovery that starts has all entries of its range before it or behind it. -/
def ResumesSameScan (parseDate : Text → Option ℤ) (dump : Dump) (s : RecoveryState) :
    RecoveryAction → Prop
  | .start fromOpt toOpt overrideMaxRange _ =>
    ∀ interval ∈ s.jobRange fromOpt toOpt overrideMaxRange, Resumes parseDate dump s interval
  | _ => True

instance (parseDate : Text → Option ℤ) (dump : Dump) (s : RecoveryState) (a : RecoveryAction) :
    Decidable (ResumesSameScan parseDate dump s a) := by
  cases a <;> unfold ResumesSameScan <;> unfold Resumes <;> infer_instance

variable {parseDate : Text → Option ℤ} {dump : Dump} {batchSize : ℕ} {s s' : RecoveryState}
  {run : RecoveryRun}

/-- The phases in which the batch is empty. -/
def RecoveryPhase.flushed : RecoveryPhase → Bool
  | saving => true
  | savingRest _ => true
  | ending _ => true
  | _ => false

/-- The phases after the end of the file. -/
def RecoveryPhase.atEnd : RecoveryPhase → Bool
  | scanned stopped => !stopped
  | savingRest stopped => !stopped
  | ending stopped => !stopped
  | _ => false

/-- A running recovery loses no entry of its range. -/
structure RunInv (parseDate : Text → Option ℤ) (dump : Dump) (s : RecoveryState)
    (run : RecoveryRun) : Prop where
  resumes : ∀ n entry, FullScan parseDate dump run.interval n entry →
    run.skipLines ≤ n ∧ dump.readAt parseDate run.skipLines n = some entry ∨ entry ∈ s.upserted
  scanned : ∀ n entry, n < run.linesSeen → FullScan parseDate dump run.interval n entry →
    entry ∈ s.upserted ∨ entry ∈ run.batch
  flushed : run.phase.flushed = true → run.batch = []
  atEnd : run.phase.atEnd = true → dump.lines.length ≤ run.linesSeen

/-- The invariant. -/
structure RecoveryInv (parseDate : Text → Option ℤ) (dump : Dump) (s : RecoveryState) :
    Prop where
  committed : ∀ slice ∈ s.committed, ∀ n entry, slice.skipLines ≤ n → n < slice.linesSeen →
    FullScan parseDate dump slice.interval n entry → entry ∈ s.upserted
  completed : ∀ interval ∈ s.completed, ∀ n entry, FullScan parseDate dump interval n entry →
    entry ∈ s.upserted
  running : ∀ run ∈ s.running, RunInv parseDate dump s run

theorem FullScan.lt_length {interval : Interval} {n : ℕ} {entry : DumpEntry}
    (h : FullScan parseDate dump interval n entry) : n < dump.lines.length := by
  by_contra hlong
  have hnone : dump.lines[n]? = none := List.getElem?_eq_none (by omega)
  have hread := h.1
  unfold Dump.readAt at hread
  rw [hnone] at hread
  cases hread

namespace RecoveryInv

/-- The coverage row does not matter while no recovery starts. -/
theorem mutate (f : Coverage → Coverage) (hinv : RecoveryInv parseDate dump s) :
    RecoveryInv parseDate dump (s.mutate f) :=
  ⟨hinv.committed, hinv.completed, fun run hrun =>
    have h := hinv.running run hrun
    ⟨h.resumes, h.scanned, h.flushed, h.atEnd⟩⟩

section

variable (hinv : RecoveryInv parseDate dump s)
include hinv

theorem stop : RecoveryInv parseDate dump (s.proceed none) :=
  ⟨hinv.committed, hinv.completed, nofun⟩

/-- The run goes on without reading or writing. -/
theorem move {phase : RecoveryPhase} (hrun : s.running = some run)
    (hflushed : phase.flushed = true → run.batch = [])
    (hend : phase.atEnd = true → dump.lines.length ≤ run.linesSeen) :
    RecoveryInv parseDate dump (s.proceed (some { run with phase := phase })) := by
  have h := hinv.running run hrun
  refine ⟨hinv.committed, hinv.completed, fun run' hrun' => ?_⟩
  cases hrun'
  exact ⟨h.resumes, h.scanned, hflushed, hend⟩

theorem commitBatch {phase : RecoveryPhase} (hrun : s.running = some run)
    (hend : phase.atEnd = true → dump.lines.length ≤ run.linesSeen) :
    RecoveryInv parseDate dump (s.commitBatch run phase) := by
  have h := hinv.running run hrun
  have hkept : ∀ entry ∈ s.upserted, entry ∈ (s.commitBatch run phase).upserted :=
    fun entry hentry => List.mem_append_right _ hentry
  have hscanned : ∀ n entry, n < run.linesSeen → FullScan parseDate dump run.interval n entry →
      entry ∈ (s.commitBatch run phase).upserted := by
    intro n entry hn hfull
    rcases h.scanned n entry hn hfull with hold | hbatch
    · exact hkept entry hold
    · exact List.mem_append_left _ hbatch
  refine ⟨?_, ?_, ?_⟩
  · intro slice hslice n entry hskip hn hfull
    rcases List.mem_cons.mp hslice with rfl | hslice
    · exact hscanned n entry hn hfull
    · exact hkept entry (hinv.committed slice hslice n entry hskip hn hfull)
  · intro interval hinterval n entry hfull
    exact hkept entry (hinv.completed interval hinterval n entry hfull)
  · intro run' hrun'
    cases hrun'
    refine ⟨?_, ?_, fun _ => rfl, hend⟩
    · intro n entry hfull
      exact (h.resumes n entry hfull).imp_right (hkept entry)
    · intro n entry hn hfull
      exact Or.inl (hscanned n entry hn hfull)

end

end RecoveryInv

/-- A line that is read adds itself and, if its entry is in the range, this entry. -/
theorem afterLine_spec (batchSize : ℕ) (read : Option DumpEntry) (hphase : run.phase = .reading) :
    let next := run.afterLine batchSize read
    next.interval = run.interval ∧ next.skipLines = run.skipLines ∧
      next.linesSeen = run.linesSeen + 1 ∧ (∀ entry ∈ run.batch, entry ∈ next.batch) ∧
      (∀ entry ∈ read, entryInUtcInterval entry run.interval.1 run.interval.2 = true →
        entry ∈ next.batch) ∧
      next.phase.flushed = false ∧ next.phase.atEnd = false := by
  have hquiet : run.phase.flushed = false ∧ run.phase.atEnd = false := by
    rw [hphase]
    exact ⟨rfl, rfl⟩
  unfold RecoveryRun.afterLine
  split
  · refine ⟨rfl, rfl, rfl, fun _ h => h, ?_, hquiet⟩
    intro entry hentry
    cases hentry
  · next entry =>
    split
    · refine ⟨rfl, rfl, rfl, fun _ h => List.mem_append_left _ h, ?_, ?_⟩
      · intro entry' hentry' _
        cases hentry'
        exact List.mem_append_right _ List.mem_cons_self
      · dsimp only
        split <;> exact ⟨rfl, rfl⟩
    · next hout =>
      refine ⟨rfl, rfl, rfl, fun _ h => h, ?_, hquiet⟩
      intro entry' hentry' hin
      cases hentry'
      exact absurd hin hout

namespace RecoveryInv

theorem readLine (hinv : RecoveryInv parseDate dump s) (hrun : s.running = some run)
    (hphase : run.phase = .reading) :
    RecoveryInv parseDate dump
      (s.proceed (some
        (run.afterLine batchSize (dump.readAt parseDate run.skipLines run.linesSeen)))) := by
  have h := hinv.running run hrun
  obtain ⟨hinterval, hskip, hseen, hold, hnew, hflushed, hend⟩ :=
    afterLine_spec batchSize (dump.readAt parseDate run.skipLines run.linesSeen) hphase
  refine ⟨hinv.committed, hinv.completed, fun run' hrun' => ?_⟩
  cases hrun'
  refine ⟨?_, ?_, ?_, ?_⟩
  · rw [hinterval, hskip]
    exact h.resumes
  · rw [hinterval, hseen]
    intro n entry hn hfull
    by_cases hlast : n = run.linesSeen
    · -- The line just read: the parser of this scan finds the entry, or it is upserted already.
      subst hlast
      rcases h.resumes _ entry hfull with ⟨-, hread⟩ | hdone
      · exact Or.inr (hnew entry hread hfull.2)
      · exact Or.inl hdone
    · exact (h.scanned n entry (by omega) hfull).imp_right (hold entry)
  · rw [hflushed]
    exact fun hfalse => by cases hfalse
  · rw [hend]
    exact fun hfalse => by cases hfalse

variable {coverage : Option Coverage}

section

variable (hinv : RecoveryInv parseDate dump s)

include hinv

theorem start {interval : Interval} (hresumes : Resumes parseDate dump s interval) :
    RecoveryInv parseDate dump { s with
      coverage := coverage
      running := some ⟨interval, s.skipLines dump, s.skipLines dump, [], none, .reading⟩ } := by
  have hpoint : ∀ n entry, FullScan parseDate dump interval n entry →
      s.skipLines dump ≤ n ∧ dump.readAt parseDate (s.skipLines dump) n = some entry ∨
        entry ∈ s.upserted := by
    intro n entry hfull
    refine (hresumes n hfull.lt_length entry hfull.1 hfull.2).imp_right ?_
    rintro ⟨slice, hslice, hskip, hn, hin⟩
    exact hinv.committed slice hslice n entry hskip hn ⟨hfull.1, hin⟩
  refine ⟨hinv.committed, hinv.completed, fun run hrun => ?_⟩
  cases hrun
  refine ⟨hpoint, ?_, fun _ => rfl, fun hfalse => by cases hfalse⟩
  intro n entry hn hfull
  rcases hpoint n entry hfull with ⟨hskip, -⟩ | hdone
  · have hsmall : n < s.skipLines dump := hn
    omega
  · exact Or.inl hdone

/-- At the end of the file without a batch, every entry of the range is upserted. -/
theorem complete (hrun : s.running = some run) (hphase : run.phase = .ending false) :
    RecoveryInv parseDate dump { s with
      coverage := coverage
      running := none
      completed := run.interval :: s.completed } := by
  have h := hinv.running run hrun
  refine ⟨hinv.committed, ?_, nofun⟩
  intro interval hinterval n entry hfull
  rcases List.mem_cons.mp hinterval with rfl | hinterval
  · have hlength := h.atEnd (by rw [hphase]; rfl)
    have hbatch := h.flushed (by rw [hphase]; rfl)
    have hn := hfull.lt_length
    rcases h.scanned n entry (by omega) hfull with hdone | hpending
    · exact hdone
    · rw [hbatch] at hpending
      cases hpending
  · exact hinv.completed interval hinterval n entry hfull

/-- One step of a running recovery. -/
theorem runStep {a : RecoveryAction} (hrun : s.running = some run)
    (hstep : runStep parseDate dump batchSize s run a = some s') :
    RecoveryInv parseDate dump s' := by
  have h := hinv.running run hrun
  unfold MalwareBazaar.runStep at hstep
  cases a <;> dsimp only at hstep
  case readLine =>
    obtain ⟨hcond, rfl⟩ := Run.enabled hstep
    simp only [Bool.and_eq_true, decide_eq_true_eq] at hcond
    exact hinv.readLine hrun hcond.1
  case endOfFile =>
    obtain ⟨hcond, rfl⟩ := Run.enabled hstep
    simp only [Bool.and_eq_true, decide_eq_true_eq] at hcond
    exact hinv.move hrun (fun hfalse => by cases hfalse) fun _ => hcond.2
  case commit =>
    split at hstep
    · cases hstep
      exact hinv.commitBatch hrun fun hfalse => by cases hfalse
    · next stopped hphase =>
      have hend : stopped = false → dump.lines.length ≤ run.linesSeen := by
        intro hstopped
        refine h.atEnd ?_
        rw [hphase, hstopped]
        rfl
      split at hstep
      · next hempty =>
        cases hstep
        refine hinv.move hrun (fun _ => List.isEmpty_iff.mp hempty) fun hatEnd => hend ?_
        simpa [RecoveryPhase.atEnd] using hatEnd
      · cases hstep
        refine hinv.commitBatch hrun fun hatEnd => hend ?_
        simpa [RecoveryPhase.atEnd] using hatEnd
    · cases hstep
  case saveProgress =>
    have hmutate := hinv.mutate
      (nextCoverageAfterRecoveryProgress · run.linesSeen (some dump.dumpIdentity) run.lastWatermark)
    split at hstep
    · cases hstep
      refine hmutate.move hrun (fun hfalse => by cases hfalse) fun hfalse => by cases hfalse
    · next stopped hphase =>
      cases hstep
      refine hmutate.move hrun (fun _ => h.flushed ?_) fun hatEnd => h.atEnd ?_
      · rw [hphase]
        rfl
      · rw [hphase]
        exact hatEnd
    · cases hstep
      exact hmutate.stop
    · cases hstep
  case saveProgressFails =>
    split at hstep
    · cases hstep
      refine hinv.move hrun (fun hfalse => by cases hfalse) fun hfalse => by cases hfalse
    · next stopped hphase =>
      cases hstep
      refine hinv.move hrun (fun _ => h.flushed ?_) fun hatEnd => h.atEnd ?_
      · rw [hphase]
        rfl
      · rw [hphase]
        exact hatEnd
    · cases hstep
      exact hinv.stop
    · cases hstep
  case continueSlice =>
    obtain ⟨-, rfl⟩ := Run.enabled hstep
    exact hinv.move hrun (fun hfalse => by cases hfalse) fun hfalse => by cases hfalse
  case sliceDeadline =>
    obtain ⟨-, rfl⟩ := Run.enabled hstep
    exact hinv.move hrun (fun hfalse => by cases hfalse) fun hfalse => by cases hfalse
  case complete now =>
    obtain ⟨hphase, rfl⟩ := Run.enabled hstep
    exact hinv.complete hrun hphase
  case fail errorMessage =>
    cases hstep
    exact (hinv.mutate _).stop
  case crash =>
    cases hstep
    exact hinv.stop
  all_goals cases hstep

theorem step {a : RecoveryAction} (hguard : ResumesSameScan parseDate dump s a)
    (hstep : recoveryStep parseDate dump batchSize s a = some s') :
    RecoveryInv parseDate dump s' := by
  have hother : (s.running.bind fun run => MalwareBazaar.runStep parseDate dump batchSize s run a) =
      some s' → RecoveryInv parseDate dump s' := by
    intro hbind
    obtain ⟨run, hrun, hnext⟩ := Option.bind_eq_some_iff.mp hbind
    exact hinv.runStep hrun hnext
  unfold recoveryStep at hstep
  cases a with
  | start fromOpt toOpt overrideMaxRange now =>
    dsimp only at hstep
    split at hstep
    · cases hstep
    · obtain ⟨interval, hinterval, rfl⟩ := Option.map_eq_some_iff.mp hstep
      exact hinv.start (hguard interval hinterval)
  | recentSuccess bounds now =>
    cases hstep
    exact ⟨hinv.committed, hinv.completed, fun run hrun =>
      have h := hinv.running run hrun
      ⟨h.resumes, h.scanned, h.flushed, h.atEnd⟩⟩
  | freshnessTick now =>
    cases hstep
    exact hinv.mutate _
  | readLine => exact hother hstep
  | endOfFile => exact hother hstep
  | commit => exact hother hstep
  | saveProgress => exact hother hstep
  | saveProgressFails => exact hother hstep
  | continueSlice => exact hother hstep
  | sliceDeadline => exact hother hstep
  | complete now => exact hother hstep
  | fail errorMessage => exact hother hstep
  | crash => exact hother hstep

end

theorem initial : RecoveryInv parseDate dump (.initial coverage) := by
  refine ⟨?_, ?_, ?_⟩
  · nofun
  · nofun
  · nofun

end RecoveryInv

/-- In every run whose resumed scans read their ranges as a full scan does, a completed recovery
has upserted every entry of its range with the values that the full scan reads. -/
theorem recovery_equals_scan {coverage : Option Coverage} {actions : List RecoveryAction}
    (hrun : Run (recoveryStep parseDate dump batchSize) (ResumesSameScan parseDate dump)
      (.initial coverage) actions s) :
    ∀ interval ∈ s.completed, ∀ n, ∀ entry ∈ dump.readAt parseDate 0 n,
      entryInUtcInterval entry interval.1 interval.2 = true → entry ∈ s.upserted := by
  have hinv : RecoveryInv parseDate dump s :=
    Run.invariant (fun _ _ _ hinv hguard hstep => hinv.step hguard hstep) hrun .initial
  intro interval hinterval n entry hread hin
  exact hinv.completed interval hinterval n entry ⟨hread, hin⟩

/-- The first of July 2026, as its text is parsed. -/
def parseJuly (text : Text) : Option ℤ :=
  if text = "2026-07-01T00:00:00Z".toList then some 1782864000000 else none

/-- The range around it. -/
def july : Interval := (1782860400000, 1782867600000)

def sha256A : Text := List.replicate 64 'a'

def sha256B : Text := List.replicate 64 'b'

/-- A job for the range, which the slice deadline stops at the first entry. -/
def firstSlice : List RecoveryAction :=
  [.start (some july.1) (some july.2) false 0, .readLine, .readLine, .commit, .saveProgress,
    .sliceDeadline, .commit, .saveProgress]

/-- The job that goes on behind it. -/
def secondSlice : List RecoveryAction :=
  [.start (some july.1) (some july.2) false 0, .readLine, .commit, .saveProgress, .continueSlice,
    .endOfFile, .commit, .complete 0]

/-- A dump with the default columns and without a header. -/
def defaultDump : Dump where
  lines := ["# MalwareBazaar".toList, "2026-07-01 00:00:00,".toList ++ sha256A,
    "2026-07-01 00:00:00,".toList ++ sha256B]
  identity := some "etag"

theorem recovery_equals_scan_twoSlices :
    ∃ s, Run (recoveryStep parseJuly defaultDump 1) (ResumesSameScan parseJuly defaultDump)
        (.initial (some .empty)) (firstSlice ++ secondSlice) s ∧
      s.completed = [july] ∧ s.upserted.map DumpEntry.observable = [sha256B, sha256A] ∧
      ∀ n, ∀ entry ∈ defaultDump.readAt parseJuly 0 n,
        entryInUtcInterval entry july.1 july.2 = true → entry ∈ s.upserted := by
  have hexec : (Run.exec (recoveryStep parseJuly defaultDump 1)
      (ResumesSameScan parseJuly defaultDump) (.initial (some .empty))
      (firstSlice ++ secondSlice)).map
        (fun s => (s.completed, s.upserted.map DumpEntry.observable)) =
      some ([july], [sha256B, sha256A]) := by
    decide +kernel
  obtain ⟨s, hs, hresult⟩ := Option.map_eq_some_iff.mp hexec
  obtain ⟨hcompleted, hupserted⟩ := Prod.mk.inj hresult
  have hrun := Run.of_exec hs
  refine ⟨s, hrun, hcompleted, hupserted, recovery_equals_scan hrun july ?_⟩
  rw [hcompleted]
  exact List.mem_cons_self

/-- A dump with the columns in another order. -/
def swappedDump : Dump where
  lines := ["sha256_hash,first_seen_utc".toList, sha256A ++ ",2026-07-01 00:00:00".toList,
    sha256B ++ ",2026-07-01 00:00:00".toList]
  identity := some "etag"

/-- The job that goes on in the swapped dump finds no entry. -/
def blindSlice : List RecoveryAction :=
  [.start (some july.1) (some july.2) false 0, .readLine, .endOfFile, .commit, .complete 0]

/-- A resumed scan has not seen the header and skips the second entry. -/
theorem resumed_scan_without_header : ¬ ∀ (actions : List RecoveryAction) (s : RecoveryState),
      Run (recoveryStep parseJuly swappedDump 1) (fun _ _ => True) (.initial (some .empty)) actions
        s →
      ∀ interval ∈ s.completed, ∀ n, ∀ entry ∈ swappedDump.readAt parseJuly 0 n,
        entryInUtcInterval entry interval.1 interval.2 = true → entry ∈ s.upserted := by
  intro hclaim
  have hexec : (Run.exec (recoveryStep parseJuly swappedDump 1) (fun _ _ => True)
      (.initial (some .empty)) (firstSlice ++ blindSlice)).map
        (fun s => (s.completed, s.upserted.map DumpEntry.observable)) =
      some ([july], [sha256A]) := by
    decide
  obtain ⟨s, hs, hresult⟩ := Option.map_eq_some_iff.mp hexec
  obtain ⟨hcompleted, hupserted⟩ := Prod.mk.inj hresult
  have hread : (swappedDump.readAt parseJuly 0 2).map (fun entry =>
      (entry.observable, entryInUtcInterval entry july.1 july.2)) = some (sha256B, true) := by
    decide
  obtain ⟨entry, hentry, hvalues⟩ := Option.map_eq_some_iff.mp hread
  obtain ⟨hobservable, hin⟩ := Prod.mk.inj hvalues
  have hmem : entry ∈ s.upserted :=
    hclaim _ s (Run.of_exec hs) july (by rw [hcompleted]; exact List.mem_cons_self) 2 entry hentry
      hin
  have hname : entry.observable ∈ s.upserted.map DumpEntry.observable := List.mem_map_of_mem hmem
  rw [hupserted, hobservable] at hname
  revert hname
  decide

end TalonHound.MalwareBazaar
