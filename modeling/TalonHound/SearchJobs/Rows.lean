import Mathlib.Data.List.Basic

/-!
# Rows of background searches

The row of a Deep Search or of a search export and the updates that both stores make alike. A
statement that reports an error may have taken effect before.
-/

namespace TalonHound.SearchJobs

open Option

/-- How a statement ends. An error tells whether the statement had been carried out all the same,
and whether its code is the one of a cancelled query. -/
inductive Outcome
  | done
  | error (applied canceled : Bool)
  deriving DecidableEq

/-- What a statement leaves of the value it writes. -/
def Outcome.effect {α : Type*} (o : Outcome) (write : α → α) (x : α) : α :=
  match o with
  | .done => write x
  | .error true _ => write x
  | .error false _ => x

/-- An update of the row with the id, where the condition of the update holds. -/
def update {α : Type*} (write : α → Option α) (row : Option α) : Option α :=
  row.map fun r => (write r).getD r

/-- The update returns the row. -/
def returns {α : Type*} (write : α → Option α) (row : Option α) : Bool := (row.bind write).isSome

/-- `running` is also the `processing` of an export, and `completed` its `ready`. -/
inductive Status
  | queued | running | completed | failed | expired | cancelled
  deriving DecidableEq

/-- A row of `ioc_deep_searches` or of `ioc_search_exports`. -/
structure Row where
  status : Status
  cancelRequested : Bool
  deriving DecidableEq

/-- The worker gives up. -/
def markFailed (row : Row) : Option Row := some { row with status := .failed }

/-- The worker has stopped at a request. -/
def markCancelled (row : Row) : Option Row := some { row with status := .cancelled }

/-- A queued row is cancelled at once, a running one asked to stop. -/
def requestCancel (row : Row) : Option Row :=
  if row.status = .queued ∨ row.status = .running then
    some ⟨if row.status = .queued then .cancelled else row.status, true⟩
  else none

/-- Retention ends a result, never an unfinished search. -/
def markExpired (row : Row) : Option Row :=
  if row.status = .completed ∨ row.status = .expired then some { row with status := .expired }
  else none

/-- What the worker polls. -/
def isCancelRequested (row : Option Row) : Bool := row.any Row.cancelRequested

/-- The rows that `findStaleMetadata` and `deleteMetadataRow` look for. -/
def Row.isStale (row : Row) : Bool :=
  row.status = .expired || row.status = .failed || row.status = .cancelled

/-- Removes the row when it is stale. -/
def deleteMetadataRow (row : Option Row) : Option Row := row.filter fun r => !r.isStale

variable {row row' : Option Row} {r r' : Row} {o : Outcome} {write : Row → Option Row}

/-- A row after an update comes from one before it. -/
theorem mem_update (h : r ∈ update write row) : ∃ r₀ ∈ row, r = (write r₀).getD r₀ := by
  obtain ⟨r₀, hr₀, heq⟩ := map_eq_some_iff.mp h
  exact ⟨r₀, hr₀, heq.symm⟩

/-- The row after a statement is the old one or what the statement writes. -/
theorem mem_effect (h : r ∈ o.effect (update write) row) :
    r ∈ row ∨ ∃ r₀ ∈ row, r = (write r₀).getD r₀ := by
  unfold Outcome.effect at h
  split at h
  · exact .inr (mem_update h)
  · exact .inr (mem_update h)
  · exact .inl h

/-- The row of a search that was claimed and has not been completed. -/
def Unfinished (row : Option Row) : Prop :=
  ∀ r ∈ row, r.status = .running ∨ r.status = .cancelled ∨ r.status = .failed

/-- A running row is unfinished. -/
theorem unfinished_of_running (h : ∀ r ∈ row, r.status = .running) : Unfinished row :=
  fun r hr => .inl (h r hr)

section

variable (h : Unfinished row)
include h

/-- An unfinished row is not queued. -/
theorem Unfinished.not_queued (hr : r ∈ row) : r.status ≠ .queued := by
  rcases h r hr with hstatus | hstatus | hstatus <;> simp [hstatus]

/-- An unfinished row has no result. -/
theorem Unfinished.not_completed (hr : r ∈ row) :
    r.status ≠ .completed ∧ r.status ≠ .expired := by
  rcases h r hr with hstatus | hstatus | hstatus <;> simp [hstatus]

/-- Stopping leaves the row unfinished. -/
theorem Unfinished.markCancelled : Unfinished (o.effect (update markCancelled) row) := by
  intro r hr
  rcases mem_effect hr with hold | ⟨r₀, -, rfl⟩
  · exact h r hold
  · exact .inr (.inl rfl)

/-- Failing leaves the row unfinished. -/
theorem Unfinished.markFailed : Unfinished (o.effect (update markFailed) row) := by
  intro r hr
  rcases mem_effect hr with hold | ⟨r₀, -, rfl⟩
  · exact h r hold
  · exact .inr (.inr rfl)

end

section

variable (h : ∀ r ∈ row, write r = none)
include h

/-- An update that does not apply changes nothing. -/
theorem update_eq_self : update write row = row := by
  cases row with
  | none => rfl
  | some r => simp [update, h r rfl]

/-- An update that does not apply returns no row. -/
theorem returns_eq_false : returns write row = false := by
  cases row with
  | none => rfl
  | some r => simp [returns, h r rfl]

/-- Nor does it leave anything, however it ends. -/
theorem effect_eq_self : o.effect (update write) row = row := by
  unfold Outcome.effect
  split
  · exact update_eq_self h
  · exact update_eq_self h
  · rfl

end

/-- An accepted cancellation settles a queued search and flags a running one. -/
theorem mem_requestCancel (h : r ∈ update requestCancel row) :
    r ∈ row ∨ ∃ r₀ ∈ row, (r₀.status = .queued ∧ r.status = .cancelled) ∨
      (r₀.status = .running ∧ r.status = .running) := by
  obtain ⟨r₀, hr₀, rfl⟩ := mem_update h
  by_cases hqueued : r₀.status = .queued
  · exact .inr ⟨r₀, hr₀, .inl ⟨hqueued, by simp [requestCancel, hqueued]⟩⟩
  · by_cases hrunning : r₀.status = .running
    · exact .inr ⟨r₀, hr₀, .inr ⟨hrunning, by simp [requestCancel, hrunning]⟩⟩
    · left
      simpa [requestCancel, hqueued, hrunning] using hr₀

/-- A row that is expired was completed before, and keeps its flag. -/
theorem mem_markExpired (h : r ∈ o.effect (update markExpired) row) :
    r ∈ row ∨ (r.status = .expired ∧ ∃ r₀ ∈ row, (r₀.status = .completed ∨ r₀.status = .expired) ∧
        r.cancelRequested = r₀.cancelRequested) := by
  rcases mem_effect h with hold | ⟨r₀, hr₀, rfl⟩
  · exact .inl hold
  · by_cases hdone : r₀.status = .completed ∨ r₀.status = .expired
    · right
      exact ⟨by simp [markExpired, hdone], r₀, hr₀, hdone, by simp [markExpired, hdone]⟩
    · left
      simpa [markExpired, hdone] using hr₀

/-- A request does not stop a running row by itself. -/
theorem running_requestCancel (h : ∀ r ∈ row, r.status = .running) :
    ∀ r ∈ update requestCancel row, r.status = .running := by
  intro r hr
  rcases mem_requestCancel hr with hold | ⟨r₀, hr₀, ⟨hqueued, -⟩ | ⟨-, hrunning⟩⟩
  · exact h r hold
  · simp [h r₀ hr₀] at hqueued
  · exact hrunning

/-- A request leaves the row unfinished. -/
theorem Unfinished.requestCancel (h : Unfinished row) : Unfinished (update requestCancel row) := by
  intro r hr
  rcases mem_requestCancel hr with hold | ⟨r₀, hr₀, ⟨hqueued, -⟩ | ⟨-, hrunning⟩⟩
  · exact h r hold
  · exact absurd hqueued (h.not_queued hr₀)
  · exact .inl hrunning

/-- Retention passes an unfinished row over. -/
theorem Unfinished.markExpired (h : Unfinished row) : o.effect (update markExpired) row = row := by
  refine effect_eq_self fun r hr => if_neg ?_
  rintro (hcompleted | hexpired)
  · exact (h.not_completed hr).1 hcompleted
  · exact (h.not_completed hr).2 hexpired

/-- A row that is left was there. -/
theorem mem_of_mem_deleteMetadataRow (h : r ∈ o.effect deleteMetadataRow row) : r ∈ row := by
  have hfilter (h : r ∈ deleteMetadataRow row) : r ∈ row := (mem_filter_iff.mp h).1
  unfold Outcome.effect at h
  split at h
  · exact hfilter h
  · exact hfilter h
  · exact h

/-- A row may change so while its search is not completed, and only expire afterwards. -/
structure LaterRow (r r' : Row) : Prop where
  completed : r.status = .completed → r'.status = .completed ∨ r'.status = .expired
  expired : r.status = .expired → r'.status = .expired
  cancelRequested : r.cancelRequested = true → r'.cancelRequested = true

/-- A row is later than itself. -/
theorem LaterRow.refl (r : Row) : LaterRow r r := ⟨.inl, id, id⟩

/-- A deleted row stays away. -/
structure Later (row row' : Option Row) : Prop where
  deleted : row = none → row' = none
  row : ∀ r ∈ row, ∀ r' ∈ row', LaterRow r r'

/-- Nothing happens. -/
theorem Later.refl (row : Option Row) : Later row row := by
  refine ⟨id, fun r hr r' hr' => ?_⟩
  rw [mem_unique hr' hr]
  exact LaterRow.refl r

/-- Later than a later row. -/
theorem Later.trans {row'' : Option Row} (h : Later row row') (h' : Later row' row'') :
    Later row row'' := by
  refine ⟨fun hnone => h'.deleted (h.deleted hnone), fun r hr r'' hr'' => ?_⟩
  cases hrow : row' with
  | none =>
    rw [h'.deleted hrow] at hr''
    cases hr''
  | some r' =>
    have hfirst := h.row r hr r' hrow
    have hsecond := h'.row r' hrow r'' hr''
    refine ⟨fun hcompleted => ?_, fun hexpired => hsecond.expired (hfirst.expired hexpired),
      fun hcancel => hsecond.cancelRequested (hfirst.cancelRequested hcancel)⟩
    rcases hfirst.completed hcompleted with hstatus | hstatus
    · exact hsecond.completed hstatus
    · exact .inr (hsecond.expired hstatus)

/-- An update whose rows may come later. -/
theorem later_effect
    (h : ∀ r ∈ row, ∀ r' ∈ write r, LaterRow r r') : Later row (o.effect (update write) row) := by
  have hupdate : Later row (update write row) := by
    refine ⟨fun hnone => by simp [update, hnone], fun r hr r' hr' => ?_⟩
    obtain ⟨r₀, hr₀, rfl⟩ := mem_update hr'
    obtain rfl := mem_unique hr hr₀
    cases hwrite : write r with
    | none => exact LaterRow.refl r
    | some r' => exact h r hr r' hwrite
  unfold Outcome.effect
  split
  · exact hupdate
  · exact hupdate
  · exact Later.refl row

/-- Updates that leave the flag of an unfinished row. -/
theorem Unfinished.later (h : Unfinished row)
    (hwrite : ∀ r, ∀ r' ∈ write r, r.cancelRequested = r'.cancelRequested) :
    Later row (o.effect (update write) row) := by
  refine later_effect fun r hr r' hr' => ?_
  obtain ⟨hcompleted, hexpired⟩ := h.not_completed hr
  exact ⟨fun hc => absurd hc hcompleted, fun he => absurd he hexpired,
    fun hrequested => hwrite r r' hr' ▸ hrequested⟩

/-- A request only moves the row on. -/
theorem later_requestCancel : Later row (update requestCancel row) := by
  refine later_effect (o := .done) fun r _ r' hr' => ?_
  simp only [requestCancel, mem_def, ite_none_right_eq_some, Option.some.injEq] at hr'
  obtain ⟨hactive, rfl⟩ := hr'
  refine ⟨fun hc => ?_, fun he => ?_, fun _ => rfl⟩
  · simp [hc] at hactive
  · simp [he] at hactive

/-- Retention only moves the row on. -/
theorem later_markExpired : Later row (o.effect (update markExpired) row) := by
  refine later_effect fun r _ r' hr' => ?_
  simp only [markExpired, mem_def, ite_none_right_eq_some, Option.some.injEq] at hr'
  obtain ⟨-, rfl⟩ := hr'
  exact ⟨fun _ => .inr rfl, fun _ => rfl, id⟩

/-- Clean-up only moves the row on. -/
theorem later_deleteMetadataRow : Later row (o.effect deleteMetadataRow row) := by
  refine ⟨fun hnone => ?_, fun r hr r' hr' => ?_⟩
  · cases hrow : o.effect deleteMetadataRow row with
    | none => rfl
    | some r =>
      have hmem := mem_of_mem_deleteMetadataRow (o := o) hrow
      rw [hnone] at hmem
      cases hmem
  · rw [mem_unique (mem_of_mem_deleteMetadataRow hr') hr]
    exact LaterRow.refl r

/-- A request that returns the row leaves its flag set. -/
theorem cancelRequested_of_returns (h : returns requestCancel row)
    (hr : r ∈ update requestCancel row) : r.cancelRequested = true := by
  obtain ⟨r₀, hr₀, rfl⟩ := mem_update hr
  rw [returns, mem_def.mp hr₀] at h
  obtain ⟨r₁, hwrite⟩ := isSome_iff_exists.mp h
  have hwrite : requestCancel r₀ = some r₁ := hwrite
  rw [hwrite]
  simp only [requestCancel, ite_none_right_eq_some, Option.some.injEq] at hwrite
  rw [getD_some, ← hwrite.2]

/-- The flag stays with the row. -/
theorem cancelRequested_of_later (h : returns requestCancel row)
    (hlater : Later (update requestCancel row) row') : ∀ r ∈ row', r.cancelRequested = true := by
  intro r hr
  cases hrow : update requestCancel row with
  | none =>
    rw [hlater.deleted hrow] at hr
    cases hr
  | some r₀ => exact (hlater.row r₀ hrow r hr).cancelRequested (cancelRequested_of_returns h hrow)

/-- What an accepted cancellation and a completion settle for the rows at both ends of a run. -/
structure Final (accepted : Prop) (row row' : Option Row) : Prop where
  cancelled : accepted → ∀ r ∈ row', r.status ≠ .completed ∧ r.status ≠ .expired
  completed : ∀ r ∈ row, r.status = .completed → ∀ r' ∈ row',
    r'.status = .completed ∨ r'.status = .expired
  expired : ∀ r ∈ row, r.status = .expired → ∀ r' ∈ row', r'.status = .expired

/-- What later steps leave of a final row is final. -/
theorem Later.final {accepted : Prop} (h : Later row row')
    (haccepted : accepted → ∀ r ∈ row', r.cancelRequested = true)
    (hrow : ∀ r ∈ row', r.status = .completed ∨ r.status = .expired → r.cancelRequested = false) :
    Final accepted row row' := by
  refine ⟨fun hcancel r hr => ?_, fun r hr hc r' hr' => (h.row r hr r' hr').completed hc,
    fun r hr he r' hr' => (h.row r hr r' hr').expired he⟩
  have hrequested := haccepted hcancel r hr
  refine ⟨fun hc => ?_, fun he => ?_⟩
  · simp [hrow r hr (.inl hc)] at hrequested
  · simp [hrow r hr (.inr he)] at hrequested

end TalonHound.SearchJobs
