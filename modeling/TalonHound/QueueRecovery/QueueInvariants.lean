import TalonHound.QueueRecovery.QueueRuns

/-!
# Rows and lists of the queue

Whatever the passes do, a running row has seen the last heartbeat of every worker that runs its job,
and no job stands in two lists.
-/

namespace TalonHound.QueueRecovery

open Indexed Rows

variable {config : QueueConfig} {rows rows' : List QueueRow} {r : QueueRow}
  {executions executions' : List Execution} {e e' : Execution} {t : ℕ} {now now' : ℤ}
  {jobId : String} {set : QueueRow → QueueRow} {inserted : QueueRow} {bull : BullQueue} {op : Op}
  {outcome : MoveOutcome}

section Statements

section

variable (hkeep : ∀ r, (set r).jobId = r.jobId) (h : (rows.map QueueRow.jobId).Nodup)
include hkeep h

theorem keys_updateJob : ((updateJob jobId rows set).map QueueRow.jobId).Nodup :=
  nodup_map_update (updateWhere_keeps hkeep) h

theorem keys_upsertJob : ((upsertJob jobId rows inserted set).map QueueRow.jobId).Nodup := by
  unfold upsertJob
  split
  · exact keys_updateJob hkeep h
  · next hfresh => exact nodup_map_append h hfresh

end

theorem mem_updateJob : r ∈ updateJob jobId rows set ↔
    (∃ r₀ ∈ rows, r₀.jobId = jobId ∧ r = set r₀) ∨ (r ∈ rows ∧ r.jobId ≠ jobId) := by
  unfold updateJob
  rw [mem_map_updateWhere]
  simp

/-- The row of a job after a statement on one job. -/
theorem lookup_updateJob (hkeep : ∀ r, (set r).jobId = r.jobId) (id : String) :
    Rows.lookup QueueRow.jobId (updateJob jobId rows set) id =
      if id = jobId then (Rows.lookup QueueRow.jobId rows id).map set
      else Rows.lookup QueueRow.jobId rows id := by
  unfold updateJob
  rw [lookup_map (updateWhere_keeps hkeep)]
  cases hlookup : Rows.lookup QueueRow.jobId rows id with
  | none => simp
  | some r =>
    obtain rfl := (mem_of_lookup hlookup).2
    split
    · next hsame => simp [updateWhere_of, hsame]
    · next hother => simp [updateWhere_of_not, hother]

/-- A row after an upsert: written, or one of another job. -/
theorem mem_upsertJob (h : r ∈ upsertJob jobId rows inserted set) :
    (∃ r₀ ∈ rows, r₀.jobId = jobId ∧ r = set r₀) ∨ r = { inserted with jobId := jobId } ∨
      (r ∈ rows ∧ r.jobId ≠ jobId) := by
  unfold upsertJob at h
  split at h
  · rcases mem_updateJob.mp h with hset | hother
    · exact .inl hset
    · exact .inr (.inr hother)
  · next hfresh =>
    rcases List.mem_append.mp h with hold | hnew
    · refine .inr (.inr ⟨hold, fun hid => hfresh ?_⟩)
      rw [← hid]
      exact List.mem_map_of_mem hold
    · exact .inr (.inl (List.mem_singleton.mp hnew))

/-- A statement that leaves its row in another status than running. -/
theorem mem_of_running_updateJob (hset : ∀ r, (set r).status ≠ .running)
    (h : r ∈ updateJob jobId rows set) (hrunning : r.status = .running) : r ∈ rows := by
  rcases mem_updateJob.mp h with ⟨r₀, -, -, rfl⟩ | ⟨hold, -⟩
  · exact absurd hrunning (hset r₀)
  · exact hold

end Statements

/-- What holds of a running row: it has a start, no end, and a heartbeat that is not older than the
last one of any worker that runs the job. -/
structure RunningRow (executions : List Execution) (r : QueueRow) : Prop where
  finished : r.finishedAt = none
  started : r.startedAt.isSome
  heartbeat : ∃ h, r.heartbeatAt = some h ∧ ∀ (t : ℕ) (e : Execution), executions[t]? = some e →
    e.stage = .running → e.jobId = r.jobId → e.lastBeat ≤ h

/-- What holds of the table. -/
structure RowsInv (now : ℤ) (rows : List QueueRow) (executions : List Execution) : Prop where
  keys : (rows.map QueueRow.jobId).Nodup
  beats : ∀ (t : ℕ) (e : Execution), executions[t]? = some e → e.lastBeat ≤ now
  running : ∀ r ∈ rows, r.status = .running → RunningRow executions r

section

variable (h : RowsInv now rows executions)

include h

/-- Nothing new runs: no row becomes running, and no execution. -/
theorem RowsInv.shrink (hkeys : (rows'.map QueueRow.jobId).Nodup)
    (hrows : ∀ r ∈ rows', r.status = .running → r ∈ rows)
    (hbeats : ∀ (t : ℕ) (e : Execution), executions'[t]? = some e → e.lastBeat ≤ now')
    (hexec : ∀ (t : ℕ) (e : Execution), executions'[t]? = some e → e.stage = .running →
      executions[t]? = some e) : RowsInv now' rows' executions' := by
  refine ⟨hkeys, hbeats, fun r hr hrunning => ?_⟩
  have hold := h.running r (hrows r hr hrunning) hrunning
  obtain ⟨beat, hbeat, hlast⟩ := hold.heartbeat
  exact ⟨hold.finished, hold.started, beat, hbeat, fun t e he hstage hjob =>
    hlast t e (hexec t e he hstage) hstage hjob⟩

/-- An execution that stops running, or does not run yet. -/
theorem RowsInv.leave (he : executions[t]? = some e) (hbeat : e'.lastBeat = e.lastBeat)
    (hstage : e'.stage ≠ .running) (hkeys : (rows'.map QueueRow.jobId).Nodup)
    (hrows : ∀ r ∈ rows', r.status = .running → r ∈ rows) :
    RowsInv now rows' (executions.set t e') := by
  refine h.shrink hkeys hrows (fun t' e'' he'' => ?_) (fun t' e'' he'' hrun => ?_)
  · rcases getElem?_set_cases he'' with ⟨rfl, rfl⟩ | ⟨-, hold⟩
    · rw [hbeat]
      exact h.beats t' e he
    · exact h.beats t' e'' hold
  · rcases getElem?_set_cases he'' with ⟨rfl, rfl⟩ | ⟨-, hold⟩
    · exact absurd hrun hstage
    · exact hold

section

variable (hjob : e'.jobId = jobId) (hbeat : e'.lastBeat = now)
include hjob hbeat

/-- A worker beats: where its row is running, it notes the heartbeat. -/
theorem RowsInv.note (hkeys : (rows'.map QueueRow.jobId).Nodup)
    (hrows : ∀ r ∈ rows', r.status = .running → (r.jobId ≠ jobId ∧ r ∈ rows) ∨ (r.finishedAt = none ∧ r.startedAt.isSome ∧ r.heartbeatAt = some now)) :
    RowsInv now rows' (executions.set t e') := by
  refine ⟨hkeys, fun t' e'' he'' => ?_, fun r hr hrunning => ?_⟩
  · rcases getElem?_set_cases he'' with ⟨-, rfl⟩ | ⟨-, hold⟩
    · exact hbeat.le
    · exact h.beats t' e'' hold
  · rcases hrows r hr hrunning with ⟨hother, hold⟩ | ⟨hfinished, hstarted, hnoted⟩
    · have hrow := h.running r hold hrunning
      obtain ⟨beat, hbeat', hlast⟩ := hrow.heartbeat
      refine ⟨hrow.finished, hrow.started, beat, hbeat', fun t' e'' he'' hstage hsame => ?_⟩
      rcases getElem?_set_cases he'' with ⟨-, rfl⟩ | ⟨-, he''⟩
      · exact absurd (hsame.symm.trans hjob) hother
      · exact hlast t' e'' he'' hstage hsame
    · refine ⟨hfinished, hstarted, now, hnoted, fun t' e'' he'' _ _ => ?_⟩
      rcases getElem?_set_cases he'' with ⟨-, rfl⟩ | ⟨-, he''⟩
      · exact hbeat.le
      · exact h.beats t' e'' he''

theorem RowsInv.markRunning :
    RowsInv now (markJobRunning now jobId rows config) (executions.set t e') := by
  refine h.note hjob hbeat (keys_upsertJob (fun _ => rfl) h.keys) fun r hr _ => ?_
  rcases mem_upsertJob hr with ⟨r₀, -, -, rfl⟩ | rfl | ⟨hold, hother⟩
  · refine .inr ⟨rfl, ?_, rfl⟩
    cases r₀.startedAt <;> simp
  · exact .inr ⟨rfl, rfl, rfl⟩
  · exact .inl ⟨hother, hold⟩

theorem RowsInv.touch : RowsInv now (touchJobHeartbeat now jobId rows) (executions.set t e') := by
  have hkeys : ((touchJobHeartbeat now jobId rows).map QueueRow.jobId).Nodup := by
    refine keys_updateJob (fun r => ?_) h.keys
    split <;> rfl
  refine h.note hjob hbeat hkeys fun r hr hrunning => ?_
  rcases mem_updateJob.mp hr with ⟨r₀, hr₀, -, rfl⟩ | ⟨hold, hother⟩
  · split at hrunning
    · next hstatus =>
      have hrow := h.running r₀ hr₀ hstatus
      rw [if_pos hstatus]
      exact .inr ⟨hrow.finished, hrow.started, rfl⟩
    · next hstatus => exact absurd hrunning hstatus
  · exact .inl ⟨hother, hold⟩

end

/-- No running row has an end, so the statement on those that have one changes nothing. -/
theorem RowsInv.fixFinished_eq (now' : ℤ) : fixFinished now' rows = rows := by
  refine map_eq_self fun r hr => updateWhere_of_not ?_
  by_cases hrunning : r.status = .running
  · have hfinished := (h.running r hr hrunning).finished
    simp [hfinished]
  · simp [hrunning]

/-- The commands of the passes make no row running. -/
theorem RowsInv.command : RowsInv now (op.rows now rows) executions := by
  cases op with
  | markQueueJobFailed id type =>
    refine h.shrink (keys_updateJob (fun _ => rfl) h.keys) (fun r hr hrunning => ?_)
      h.beats fun t e he _ => he
    exact mem_of_running_updateJob (fun _ => by simp) hr hrunning
  | fixFinished =>
    have hsame := h.fixFinished_eq now
    change RowsInv now (QueueRecovery.fixFinished now rows) executions
    rw [hsame]
    exact h
  | _ => exact h

end

/-- What holds of the lists of the queue. -/
structure ListsInv (bull : BullQueue) : Prop where
  active : ∀ id ∈ bull.active, id ∈ bull.jobs ∧ id ∉ bull.waiting ∧ id ∉ bull.delayed
  waiting : ∀ id ∈ bull.waiting, id ∈ bull.jobs ∧ id ∉ bull.delayed
  delayed : ∀ id ∈ bull.delayed, id ∈ bull.jobs

section

variable (h : ListsInv bull)
include h

theorem ListsInv.leaveActive (hactive : jobId ∈ bull.active) (outcome : MoveOutcome) :
    ListsInv (bull.leaveActive jobId outcome) := by
  have hjob := h.active jobId hactive
  cases outcome with
  | refused => exact h
  | failed =>
    refine ⟨fun id hid => h.active id (List.mem_of_mem_filter hid), h.waiting, h.delayed⟩
  | delayed =>
    refine ⟨fun id hid => ?_, fun id hid => ?_, fun id hid => ?_⟩
    · obtain ⟨hold, hother⟩ := List.mem_filter.mp hid
      have hid := h.active id hold
      simp only [ne_eq, decide_eq_true_eq] at hother
      exact ⟨hid.1, hid.2.1, by simp [BullQueue.leaveActive, hid.2.2, hother]⟩
    · have hid' := h.waiting id hid
      refine ⟨hid'.1, ?_⟩
      have hother : id ≠ jobId := fun heq => hjob.2.1 (heq ▸ hid)
      simp [BullQueue.leaveActive, hid'.2, hother]
    · rcases List.mem_append.mp hid with hold | hnew
      · exact h.delayed id hold
      · obtain rfl := List.mem_singleton.mp hnew
        exact hjob.1
  | waiting =>
    refine ⟨fun id hid => ?_, fun id hid => ?_, h.delayed⟩
    · obtain ⟨hold, hother⟩ := List.mem_filter.mp hid
      have hid := h.active id hold
      simp only [ne_eq, decide_eq_true_eq] at hother
      exact ⟨hid.1, by simp [BullQueue.leaveActive, hid.2.1, hother], hid.2.2⟩
    · rcases List.mem_append.mp hid with hold | hnew
      · exact h.waiting id hold
      · obtain rfl := List.mem_singleton.mp hnew
        exact ⟨hjob.1, hjob.2.2⟩

/-- A job that leaves a list for good. -/
theorem ListsInv.dropActive : ListsInv { bull with active := bull.active.filter (· ≠ jobId) } :=
  ⟨fun id hid => h.active id (List.mem_of_mem_filter hid), h.waiting, h.delayed⟩

theorem ListsInv.command : ListsInv (op.bull bull outcome) := by
  cases op with
  | moveToFailed id =>
    unfold Op.bull
    dsimp only
    split
    · next hactive => exact h.leaveActive hactive outcome
    · exact h
  | lremActive id => exact h.dropActive
  | _ => exact ⟨h.active, h.waiting, h.delayed⟩

theorem ListsInv.leaveJob : ListsInv (leaveJob bull t jobId outcome) := by
  unfold QueueRecovery.leaveJob
  split
  · split
    · next hactive =>
      have hleft := h.leaveActive hactive outcome
      exact ⟨hleft.active, hleft.waiting, hleft.delayed⟩
    · exact ⟨h.active, h.waiting, h.delayed⟩
  · exact h

end

end TalonHound.QueueRecovery
