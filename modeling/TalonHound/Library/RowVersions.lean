import Mathlib.Data.Option.Basic

/-!
# Row versions

A row as transactions see it: the committed version, and the version of the one transaction that
holds its lock. A lock without a change is a version equal to the committed one.
-/

/-- A row under read committed. -/
structure Cell (τ α : Type*) where
  /-- The committed version; `none` when there is no row. -/
  current : Option α
  /-- The holder of the lock, and its version. -/
  writer : Option (τ × Option α)
  deriving DecidableEq

namespace Cell

variable {τ α : Type*} [DecidableEq τ] {t u : τ} {v : Option α} {c : Cell τ α}

/-- No row. -/
def empty : Cell τ α := ⟨none, none⟩

/-- The version that a transaction sees. -/
def view (t : τ) (c : Cell τ α) : Option α :=
  match c.writer with
  | some (u, v) => if u = t then v else c.current
  | none => c.current

/-- The transaction holds the lock. -/
def OwnedBy (t : τ) (c : Cell τ α) : Prop := ∃ v, c.writer = some (t, v)

/-- The transaction holds the lock or can get it at once. -/
def free (t : τ) (c : Cell τ α) : Bool := c.writer.all fun w => w.1 = t

/-- Only its writer sees it until the commit. -/
def write (t : τ) (v : Option α) (c : Cell τ α) : Cell τ α := { c with writer := some (t, v) }

/-- `FOR UPDATE`. -/
def lock (t : τ) (c : Cell τ α) : Cell τ α := c.write t (c.view t)

/-- The writer's version becomes the current one. -/
def commit (t : τ) (c : Cell τ α) : Cell τ α :=
  match c.writer with
  | some (u, v) => if u = t then ⟨v, none⟩ else c
  | none => c

/-- The writer's version is dropped. -/
def rollback (t : τ) (c : Cell τ α) : Cell τ α :=
  match c.writer with
  | some (u, _) => if u = t then ⟨c.current, none⟩ else c
  | none => c

instance (t : τ) (c : Cell τ α) : Decidable (c.OwnedBy t) :=
  decidable_of_iff (c.writer.any (fun w => w.1 = t) = true) (by
    cases hw : c.writer with
    | none => simp [OwnedBy, hw]
    | some w =>
      obtain ⟨u, v⟩ := w
      simp [OwnedBy, hw])

omit [DecidableEq τ] in
theorem OwnedBy.unique (h : c.OwnedBy t) (h' : c.OwnedBy u) : t = u := by
  obtain ⟨v, hv⟩ := h
  obtain ⟨w, hw⟩ := h'
  rw [hv] at hw
  exact (Prod.mk.inj (Option.some.inj hw)).1

/-- A lock that is free for one transaction is not held by another. -/
theorem OwnedBy.eq_of_free (h : c.OwnedBy u) (hfree : c.free t = true) : u = t := by
  obtain ⟨v, hv⟩ := h
  simpa [free, hv] using hfree

theorem view_of_not_owned (h : ¬ c.OwnedBy t) : c.view t = c.current := by
  unfold view
  split
  · next u v hw =>
    rw [if_neg]
    rintro rfl
    exact h ⟨v, hw⟩
  · rfl

omit [DecidableEq τ] in
@[simp] theorem current_write : (c.write t v).current = c.current := rfl

@[simp] theorem view_write_self : (c.write t v).view t = v := by simp [view, write]

omit [DecidableEq τ] in
theorem ownedBy_write : (c.write t v).OwnedBy u ↔ u = t := by
  constructor
  · rintro ⟨w, hw⟩
    exact (Prod.mk.inj (Option.some.inj hw)).1.symm
  · rintro rfl
    exact ⟨v, rfl⟩

/-- A write under a free lock changes the version of no other transaction. -/
theorem view_write_other (hfree : c.free t = true) (hne : u ≠ t) :
    (c.write t v).view u = c.view u := by
  have hnot : ¬ c.OwnedBy u := fun h => hne (h.eq_of_free hfree)
  have hnot' : ¬ (c.write t v).OwnedBy u := fun h => hne (ownedBy_write.mp h)
  rw [view_of_not_owned hnot, view_of_not_owned hnot', current_write]

/-- What a commit makes of a row is what its transaction saw. -/
@[simp] theorem current_commit : (c.commit t).current = c.view t := by
  unfold commit view
  split
  · next u v hw => split <;> simp_all
  · rfl

@[simp] theorem current_rollback : (c.rollback t).current = c.current := by
  unfold rollback
  split
  · split <;> rfl
  · rfl

/-- The end of a transaction releases its locks and no other. -/
theorem ownedBy_of_released {c' : Cell τ α}
    (h : c'.writer = if c.OwnedBy t then none else c.writer) :
    c'.OwnedBy u ↔ c.OwnedBy u ∧ u ≠ t := by
  by_cases hown : c.OwnedBy t
  · rw [if_pos hown] at h
    have hnot : ¬ c'.OwnedBy u := by
      rintro ⟨v, hv⟩
      rw [h] at hv
      cases hv
    exact iff_of_false hnot fun hu => hu.2 (hu.1.unique hown)
  · rw [if_neg hown] at h
    have hsame : c'.OwnedBy u ↔ c.OwnedBy u := by rw [OwnedBy, OwnedBy, h]
    rw [hsame]
    constructor
    · intro hu
      refine ⟨hu, ?_⟩
      rintro rfl
      exact hown hu
    · exact And.left

theorem ownedBy_commit : (c.commit t).OwnedBy u ↔ c.OwnedBy u ∧ u ≠ t := by
  refine ownedBy_of_released ?_
  obtain ⟨current, writer⟩ := c
  cases writer with
  | none => simp [commit, OwnedBy]
  | some w =>
    obtain ⟨w, v⟩ := w
    by_cases hwt : w = t <;> simp [commit, OwnedBy, hwt]

theorem ownedBy_rollback : (c.rollback t).OwnedBy u ↔ c.OwnedBy u ∧ u ≠ t := by
  refine ownedBy_of_released ?_
  obtain ⟨current, writer⟩ := c
  cases writer with
  | none => simp [rollback, OwnedBy]
  | some w =>
    obtain ⟨w, v⟩ := w
    by_cases hwt : w = t <;> simp [rollback, OwnedBy, hwt]

/-- A commit leaves the rows that another transaction holds to it. -/
theorem view_commit_of_owned (h : c.OwnedBy u) (hne : u ≠ t) : (c.commit t).view u = c.view u := by
  obtain ⟨v, hv⟩ := h
  simp [commit, view, hv, hne]

/-- Others see nothing of a rollback. -/
theorem view_rollback_other (hne : u ≠ t) : (c.rollback t).view u = c.view u := by
  by_cases h : c.OwnedBy u
  · obtain ⟨v, hv⟩ := h
    simp [rollback, view, hv, hne]
  · have hnot : ¬ (c.rollback t).OwnedBy u := fun h' => h (ownedBy_rollback.mp h').1
    rw [view_of_not_owned h, view_of_not_owned hnot, current_rollback]

end Cell
