import Mathlib.Order.Basic
import TalonHound.Library.Run

/-!
# The incremental watermark

Writers are transactions: the touch trigger stamps a row with `NOW()`, the start of its
transaction, and the stamp becomes visible at commit. A feed tick captures `W`, later
reads the rows stamped in the interval from the cutoff, exclusive, to `W`, inclusive, and
then moves the cutoff to `W`. The steps of writers and ticks interleave freely. A change is
owed from its commit until a dirty set holds its row.
-/

namespace TalonHound

/-- A transaction that has stamped a row and has not committed. -/
structure Writer where
  (id row : ℕ)
  /-- `NOW()` in the transaction: the time it started. -/
  stamp : ℕ
  deriving DecidableEq

/-- How far the tick in progress is. -/
inductive TickPhase where
  | idle
  /-- `captureCutoffNow` has returned this time. -/
  | captured (W : ℕ)
  /-- The dirty set up to this time has been read. -/
  | hasRead (W : ℕ)

/-- The database and the one tick a feed runs at a time. -/
structure WatermarkState where
  clock : ℕ
  writers : List Writer
  /-- The visible `updated_at` of each row. -/
  updatedAt : ℕ → ℕ
  /-- The rows with a committed change that no dirty set has held since. -/
  owed : List ℕ
  /-- `projection_cutoff`. -/
  cutoff : ℕ
  tick : TickPhase

/-- The steps of writers and of ticks. -/
inductive WatermarkEvent where
  | pass
  | start (id row : ℕ)
  | commit (id : ℕ)
  | capture
  | read
  | finish
  /-- The tick fails before it moves the cutoff. -/
  | abandon

/-- Whether a stamp lies in the window a tick reads. -/
def inDirtyWindow (cutoff W stamp : ℕ) : Bool := decide (cutoff < stamp ∧ stamp ≤ W)

/-- One step, where it is enabled. -/
def WatermarkState.step (s : WatermarkState) : WatermarkEvent → Option WatermarkState
  | .pass => some { s with clock := s.clock + 1 }
  | .start id row => some { s with writers := ⟨id, row, s.clock⟩ :: s.writers }
  | .commit id =>
    match s.writers.find? fun w => decide (w.id = id) with
    | none => none
    | some w => some { s with
        writers := s.writers.erase w
        updatedAt := fun row => if row = w.row then w.stamp else s.updatedAt row
        owed := w.row :: s.owed }
  | .capture =>
    match s.tick with
    | .idle => some { s with tick := .captured s.clock }
    | _ => none
  | .read =>
    match s.tick with
    | .captured W => some { s with
        tick := .hasRead W
        owed := s.owed.filter fun row => !inDirtyWindow s.cutoff W (s.updatedAt row) }
    | _ => none
  | .finish =>
    match s.tick with
    | .hasRead W => some { s with tick := .idle, cutoff := W }
    | _ => none
  | .abandon =>
    match s.tick with
    | .idle => none
    | _ => some { s with tick := .idle }

/-- A state in which nothing is owed and no tick or writer is under way. -/
structure WatermarkState.Initial (s : WatermarkState) : Prop where
  writers : s.writers = []
  owed : s.owed = []
  tick : s.tick = .idle
  cutoff_le : s.cutoff ≤ s.clock

/-- Some committed change is owed while the cutoff has passed its stamp, so no later
window holds it. -/
def WatermarkState.Skipped (s : WatermarkState) (row : ℕ) : Prop :=
  row ∈ s.owed ∧ s.updatedAt row ≤ s.cutoff

/-- The time up to which stamps have been read: the cutoff, or the bound of a dirty set that
has been read and not yet published. -/
def WatermarkState.readUpTo (s : WatermarkState) : ℕ :=
  match s.tick with
  | .hasRead W => W
  | _ => s.cutoff

/-- A commit is in time when its stamp lies after everything that has been read. -/
def WatermarkState.CommitsInTime (s : WatermarkState) : WatermarkEvent → Prop
  | .commit id => ∀ w, s.writers.find? (fun w => decide (w.id = id)) = some w →
      s.readUpTo < w.stamp
  | _ => True

/-- The bound of the tick in progress lies between the cutoff and the clock. -/
structure WatermarkState.Bounds (s : WatermarkState) : Prop where
  cutoff_le : s.cutoff ≤ s.clock
  bound : ∀ W, s.tick = .captured W ∨ s.tick = .hasRead W → s.cutoff ≤ W ∧ W ≤ s.clock

variable {s s' : WatermarkState}

/-- Every step keeps the bounds. -/
theorem WatermarkState.Bounds.step {event : WatermarkEvent} (h : s.Bounds)
    (hstep : s.step event = some s') : s'.Bounds := by
  cases event with
  | pass =>
    cases hstep
    refine ⟨Nat.le_succ_of_le h.cutoff_le, fun W hW => ?_⟩
    exact ⟨(h.bound W hW).1, Nat.le_succ_of_le (h.bound W hW).2⟩
  | start id row =>
    cases hstep
    exact ⟨h.cutoff_le, h.bound⟩
  | commit id =>
    simp only [WatermarkState.step] at hstep
    split at hstep
    · cases hstep
    · cases hstep
      exact ⟨h.cutoff_le, h.bound⟩
  | capture =>
    simp only [WatermarkState.step] at hstep
    split at hstep
    · cases hstep
      refine ⟨h.cutoff_le, ?_⟩
      rintro W (hW | hW)
      · cases hW
        exact ⟨h.cutoff_le, Nat.le_refl _⟩
      · cases hW
    · cases hstep
  | read =>
    simp only [WatermarkState.step] at hstep
    split at hstep
    · next W htick =>
      cases hstep
      refine ⟨h.cutoff_le, ?_⟩
      rintro W' (hW | hW)
      · cases hW
      · cases hW
        exact h.bound W (Or.inl htick)
    · cases hstep
  | finish =>
    simp only [WatermarkState.step] at hstep
    split at hstep
    · next W htick =>
      cases hstep
      refine ⟨(h.bound W (Or.inr htick)).2, ?_⟩
      rintro W' (hW | hW) <;> cases hW
    · cases hstep
  | abandon =>
    simp only [WatermarkState.step] at hstep
    split at hstep
    · cases hstep
    · cases hstep
      refine ⟨h.cutoff_le, ?_⟩
      rintro W (hW | hW) <;> cases hW

/-- What holds as long as every commit is in time: an owed change is stamped after
everything that has been read. -/
structure WatermarkState.Inv (s : WatermarkState) : Prop extends s.Bounds where
  unread : ∀ row ∈ s.owed, s.readUpTo < s.updatedAt row

theorem WatermarkState.Initial.inv (h : s.Initial) : s.Inv where
  cutoff_le := h.cutoff_le
  bound W hW := by
    rw [h.tick] at hW
    rcases hW with hW | hW <;> cases hW
  unread row hrow := by
    rw [h.owed] at hrow
    cases hrow

/-- A commit in time leaves its change, and the others, after everything that was read. -/
theorem WatermarkState.Inv.unread_commit {id : ℕ} (h : s.Inv) (htime : s.CommitsInTime (.commit id))
    (hstep : s.step (.commit id) = some s') : ∀ row ∈ s'.owed, s'.readUpTo < s'.updatedAt row := by
  simp only [WatermarkState.step] at hstep
  split at hstep
  · cases hstep
  · next w hfind =>
    cases hstep
    have hstamp := htime w hfind
    intro row hrow
    change s.readUpTo < if row = w.row then w.stamp else s.updatedAt row
    rcases List.mem_cons.mp hrow with rfl | hrow
    · rw [if_pos rfl]
      exact hstamp
    · split
      · exact hstamp
      · exact h.unread row hrow

/-- Reading the window leaves only changes stamped after it. -/
theorem WatermarkState.Inv.unread_read (h : s.Inv) (hstep : s.step .read = some s') :
    ∀ row ∈ s'.owed, s'.readUpTo < s'.updatedAt row := by
  simp only [WatermarkState.step] at hstep
  split at hstep
  · next W htick =>
    cases hstep
    intro row hrow
    obtain ⟨hrow, hout⟩ := List.mem_filter.mp hrow
    have hunread := h.unread row hrow
    simp only [readUpTo, htick] at hunread
    simp only [inDirtyWindow, Bool.not_eq_true', decide_eq_false_iff_not, not_and] at hout
    change W < s.updatedAt row
    omega
  · cases hstep

/-- Every step keeps the invariant, as long as commits are in time. -/
theorem WatermarkState.Inv.step {event : WatermarkEvent} (h : s.Inv) (htime : s.CommitsInTime event)
    (hstep : s.step event = some s') : s'.Inv := by
  refine ⟨h.toBounds.step hstep, ?_⟩
  cases event with
  | pass =>
    cases hstep
    exact h.unread
  | start id row =>
    cases hstep
    exact h.unread
  | commit id => exact h.unread_commit htime hstep
  | capture =>
    simp only [WatermarkState.step] at hstep
    split at hstep
    · next htick =>
      cases hstep
      intro row hrow
      have hunread := h.unread row hrow
      simp only [readUpTo, htick] at hunread
      exact hunread
    · cases hstep
  | read => exact h.unread_read hstep
  | finish =>
    simp only [WatermarkState.step] at hstep
    split at hstep
    · next W htick =>
      cases hstep
      intro row hrow
      have hunread := h.unread row hrow
      simp only [readUpTo, htick] at hunread
      exact hunread
    · cases hstep
  | abandon =>
    simp only [WatermarkState.step] at hstep
    split at hstep
    · cases hstep
    · cases hstep
      intro row hrow
      have hunread := h.unread row hrow
      change s.cutoff < s.updatedAt row
      unfold readUpTo at hunread
      split at hunread
      · next W htick =>
        have hbound := h.bound W (Or.inr htick)
        omega
      · exact hunread

/-- Nothing is skipped while the invariant holds. -/
theorem WatermarkState.Inv.not_skipped (h : s.Inv) (row : ℕ) : ¬ s.Skipped row := by
  rintro ⟨howed, hpassed⟩
  have hunread := h.unread row howed
  unfold readUpTo at hunread
  split at hunread
  · next W htick =>
    have hbound := h.bound W (Or.inr htick)
    omega
  · omega

/-- The next read holds every owed row that is stamped up to its bound. -/
theorem WatermarkState.Inv.read_owed {W row : ℕ} (h : s.Inv) (htick : s.tick = .captured W)
    (howed : row ∈ s.owed) (hstamp : s.updatedAt row ≤ W) :
    inDirtyWindow s.cutoff W (s.updatedAt row) = true := by
  have hunread : s.cutoff < s.updatedAt row := by
    have hread := h.unread row howed
    rwa [readUpTo, htick] at hread
  exact decide_eq_true ⟨hunread, hstamp⟩

/-- A commit that is late is skipped, at once or when the tick in progress moves the cutoff. -/
theorem WatermarkState.skipped_of_late_commit {id : ℕ} (hstep : s.step (.commit id) = some s')
    (hlate : ¬ s.CommitsInTime (.commit id)) :
    ∃ row, s'.Skipped row ∨ ∃ s'', s'.step .finish = some s'' ∧ s''.Skipped row := by
  simp only [CommitsInTime, not_forall] at hlate
  obtain ⟨w, hfind, hpassed⟩ := hlate
  simp only [WatermarkState.step, hfind] at hstep
  cases hstep
  refine ⟨w.row, ?_⟩
  unfold readUpTo at hpassed
  split at hpassed
  · next W htick =>
    refine Or.inr ⟨_, by simp only [WatermarkState.step, htick]; rfl, List.mem_cons_self, ?_⟩
    change (if w.row = w.row then w.stamp else s.updatedAt w.row) ≤ W
    rw [if_pos rfl]
    omega
  · refine Or.inl ⟨List.mem_cons_self, ?_⟩
    change (if w.row = w.row then w.stamp else s.updatedAt w.row) ≤ s.cutoff
    rw [if_pos rfl]
    omega

/-- In every interleaving in which commits are in time, no committed change is skipped; and
the first commit that is late is skipped at the end of the tick. -/
theorem not_skipped_of_run {s s' : WatermarkState} {events : List WatermarkEvent}
    (hinitial : s.Initial)
    (hrun : Run WatermarkState.step WatermarkState.CommitsInTime s events s') :
    (∀ row, ¬ s'.Skipped row) ∧
      ∀ id s'', s'.step (.commit id) = some s'' → ¬ s'.CommitsInTime (.commit id) →
        ∃ row, s''.Skipped row ∨ ∃ s₃, s''.step .finish = some s₃ ∧ s₃.Skipped row := by
  have hinv : s'.Inv := Run.invariant (fun _ _ _ hinv htime hstep => hinv.step htime hstep) hrun
    hinitial.inv
  exact ⟨hinv.not_skipped, fun id s'' hstep hlate => WatermarkState.skipped_of_late_commit hstep hlate⟩

/-- A database at rest at time 10. -/
def restingState : WatermarkState := ⟨10, [], fun _ => 0, [], 10, .idle⟩

theorem restingState_initial : restingState.Initial := ⟨rfl, rfl, rfl, Nat.le_refl _⟩

/-- A writer starts, a tick captures its bound, reads and finishes, and the writer commits. -/
def lateWriter : List WatermarkEvent :=
  [.pass, .start 1 7, .capture, .read, .finish, .commit 1]

/-- Not every interleaving is safe: the writer that commits after the tick is skipped. -/
theorem late_writer_skipped :
    ¬ ∀ (s s' : WatermarkState) (events : List WatermarkEvent), s.Initial →
      Run WatermarkState.step (fun _ _ => True) s events s' → ∀ row, ¬ s'.Skipped row := by
  intro h
  have hexec : (Run.exec WatermarkState.step (fun _ _ => True) restingState lateWriter).any
      (fun s => decide (7 ∈ s.owed ∧ s.updatedAt 7 ≤ s.cutoff)) = true := by
    decide
  obtain ⟨s, hs, hskipped⟩ := (Option.any_eq_true _ _).mp hexec
  have hpair : 7 ∈ s.owed ∧ s.updatedAt 7 ≤ s.cutoff := by simpa using hskipped
  exact h restingState s lateWriter restingState_initial (Run.of_exec hs) 7 hpair

/-- The state after a writer that started at 11 has committed. -/
def committedState : WatermarkState :=
  ⟨11, [], fun row => if row = 7 then 11 else 0, [7], 10, .idle⟩

/-- A writer that commits before the next tick reads is in time. -/
theorem not_skipped_of_run_early : (∀ row, ¬ committedState.Skipped row) ∧
      ∀ id s'', committedState.step (.commit id) = some s'' →
        ¬ committedState.CommitsInTime (.commit id) →
        ∃ row, s''.Skipped row ∨ ∃ s₃, s''.step .finish = some s₃ ∧ s₃.Skipped row := by
  have hrun : Run WatermarkState.step WatermarkState.CommitsInTime restingState
      [.pass, .start 1 7, .commit 1] committedState := by
    refine .cons trivial rfl (.cons trivial rfl (.cons ?_ rfl (.nil _)))
    intro w hw
    cases hw
    decide
  exact not_skipped_of_run restingState_initial hrun

end TalonHound
