import TalonHound.ThreatJobs.Dispatch

/-!
# The slot limit

Only a dispatch puts jobs into slots, and it counts first. The count stays an upper bound while
the others only free slots. A delivery frees none and takes none, as long as the job it claims
has been assigned by a dispatch that was committed; after a rolled back dispatch it takes a slot
that nobody counted.
-/

namespace TalonHound.ThreatJobs

open Bool Rows List

variable {limit now : ℕ} {T : JobTables} {s s' : SlotState} {jobs : List JobRow} {j : JobRow}

/-- The update of a row takes no slot and starts no job. -/
def KeepsPlace (j j' : JobRow) : Prop :=
  (j'.occupiesSlot = true → j.occupiesSlot = true) ∧ (j'.status = .running → j.status = .running)
  deriving Decidable

/-- A delivery claims only a job that a committed dispatch assigned, and `updateJob` sets the
status `queued` or `running` only of a job that still has its slot, or runs. -/
def Assigned (s : SlotState) : SlotAction → Prop
  | .updateJob now jobId patch =>
    ∀ j ∈ s.tables.jobs, j.id = jobId → KeepsPlace j (j.patched now patch)
  | .claim now bullId token =>
    ∀ e ∈ s.tables.entries, e.id = bullId → ∀ j ∈ s.tables.jobs, j.id = e.data.jobId →
      j.claimable jobOwnerStaleMs now token = true → j.bullmqJobId.isSome = true
  | _ => True

instance (s : SlotState) (a : SlotAction) : Decidable (Assigned s a) := by
  cases a <;> unfold Assigned <;> infer_instance

/-- A pipeline job in a slot. -/
def JobRow.livePipeline (j : JobRow) : Bool := j.occupiesSlot && j.jobType.isPipeline

/-- The jobs of one set of tables, apart from the count. -/
structure JobsInv (T : JobTables) : Prop where
  ids : (T.jobs.map JobRow.id).Nodup
  fresh : ∀ j ∈ T.jobs, j.id < T.nextJobId
  running : ∀ j ∈ T.jobs, j.status = .running → j.bullmqJobId.isSome = true
  single : ∀ i ∈ T.jobs, ∀ j ∈ T.jobs, i.livePipeline = true → j.livePipeline = true →
    i.reportId = j.reportId → i.id = j.id

/-- The invariant. -/
structure SlotInv (limit : ℕ) (s : SlotState) : Prop where
  jobs : JobsInv s.tables
  within : occupiedCount s.tables.jobs ≤ limit
  counted : ∀ n, s.counted = some n → occupiedCount s.tables.jobs ≤ n

/-- Two rows with one id are one row. -/
theorem JobsInv.eq {i : JobRow} (h : JobsInv T) (hi : i ∈ T.jobs) (hj : j ∈ T.jobs)
    (hid : i.id = j.id) : i = j :=
  inj_on_of_nodup_map h.ids hi hj hid

/-- What an update keeps of the rows that it meets. -/
structure Releases (p : JobRow → Bool) (g : JobRow → JobRow) (jobs : List JobRow) : Prop where
  id : ∀ j, (g j).id = j.id
  reportId : ∀ j, (g j).reportId = j.reportId
  jobType : ∀ j, (g j).jobType = j.jobType
  slot : ∀ j ∈ jobs, p j = true → (g j).occupiesSlot = true → j.occupiesSlot = true
  running : ∀ j ∈ jobs, p j = true → (g j).status = .running → (g j).bullmqJobId.isSome = true

section Releases

variable {p : JobRow → Bool} {g : JobRow → JobRow}

theorem Releases.slot_updateWhere (h : Releases p g jobs) (hj : j ∈ jobs)
    (hslot : (Rows.updateWhere p g j).occupiesSlot = true) : j.occupiesSlot = true := by
  cases hp : p j with
  | true =>
    rw [updateWhere_of hp] at hslot
    exact h.slot j hj hp hslot
  | false => rwa [updateWhere_of_not hp] at hslot

/-- Such an update frees slots at most. -/
theorem Releases.occupiedCount_le (h : Releases p g jobs) :
    occupiedCount (jobs.map (Rows.updateWhere p g)) ≤ occupiedCount jobs := by
  unfold occupiedCount
  rw [countP_map]
  exact countP_mono_left fun j hj hslot => h.slot_updateWhere hj hslot

theorem Releases.jobsInv (h : Releases p g T.jobs) (hT : JobsInv T) :
    JobsInv { T with jobs := T.jobs.map (Rows.updateWhere p g) } := by
  refine ⟨nodup_map_update (updateWhere_keeps h.id) hT.ids, ?_, ?_, ?_⟩
  · intro j hj
    obtain ⟨i, hi, rfl⟩ := mem_map.mp hj
    rw [updateWhere_keeps h.id]
    exact hT.fresh i hi
  · intro j hj hrunning
    rcases mem_map_updateWhere.mp hj with ⟨i, hi, hp, rfl⟩ | ⟨hj, -⟩
    · exact h.running i hi hp hrunning
    · exact hT.running j hj hrunning
  · intro a ha b hb hlive hlive' hreport
    obtain ⟨i, hi, rfl⟩ := mem_map.mp ha
    obtain ⟨j, hj, rfl⟩ := mem_map.mp hb
    have hpipeline : ∀ k ∈ T.jobs, (Rows.updateWhere p g k).livePipeline = true →
        k.livePipeline = true := by
      intro k hk hk'
      obtain ⟨hslot, htype⟩ := and_eq_true_iff.mp hk'
      rw [updateWhere_keeps h.jobType] at htype
      exact and_eq_true_iff.mpr ⟨h.slot_updateWhere hk hslot, htype⟩
    rw [updateWhere_keeps h.id, updateWhere_keeps h.id]
    rw [updateWhere_keeps h.reportId, updateWhere_keeps h.reportId] at hreport
    exact hT.single i hi j hj (hpipeline i hi hlive) (hpipeline j hj hlive') hreport

theorem Releases.slotInv (h : Releases p g s.tables.jobs) (hinv : SlotInv limit s) :
    SlotInv limit { s with tables :=
      { s.tables with jobs := s.tables.jobs.map (Rows.updateWhere p g) } } where
  jobs := h.jobsInv hinv.jobs
  within := Nat.le_trans h.occupiedCount_le hinv.within
  counted n hn := Nat.le_trans h.occupiedCount_le (hinv.counted n hn)

end Releases

/-- The jobs that a dispatch is still to put into slots. -/
structure Fits (T : JobTables) (js : List JobRow) : Prop where
  same : ∀ c ∈ js, ∀ j ∈ T.jobs, j.id = c.id → j.reportId = c.reportId ∧ j.jobType = c.jobType
  free : ∀ c ∈ js, c.jobType.isPipeline = true → ∀ j ∈ T.jobs, j.livePipeline = true →
    j.reportId ≠ c.reportId
  apart : js.Pairwise fun c d => c.jobType.isPipeline = true → d.jobType.isPipeline = true →
    c.reportId ≠ d.reportId

variable {c : JobRow} {available : ℕ} {locked : List ℕ}

/-- A job that is put into a slot. -/
theorem mem_assignSlot {bullId : ℕ} (h : j ∈ (T.assignSlot bullId c).jobs) :
    j ∈ T.jobs ∨ ∃ i ∈ T.jobs, i.id = c.id ∧ i.status = .queued ∧
      j = { i with bullmqJobId := some bullId } := by
  rcases mem_map_updateWhere.mp h with ⟨i, hi, hp, rfl⟩ | ⟨hj, -⟩
  · have hp : (i.id = c.id ∧ i.status = .queued) ∧ i.bullmqJobId = none := by simpa using hp
    exact Or.inr ⟨i, hi, hp.1.1, hp.1.2, rfl⟩
  · exact Or.inl hj

/-- A dispatch puts a fitting job into a slot of its own. -/
theorem JobsInv.assignSlot {js : List JobRow} (hT : JobsInv T) (bullId : ℕ)
    (hfits : Fits T (c :: js)) :
    JobsInv (T.assignSlot bullId c) ∧ Fits (T.assignSlot bullId c) js := by
  have hsame := hfits.same c mem_cons_self
  have hfree := hfits.free c mem_cons_self
  have hapart := pairwise_cons.mp hfits.apart
  refine ⟨⟨nodup_map_update (updateWhere_keeps fun _ => rfl) hT.ids, ?_, ?_, ?_⟩,
    ⟨?_, ?_, hapart.2⟩⟩
  · intro j hj
    rcases mem_assignSlot hj with hj | ⟨i, hi, -, -, rfl⟩
    · exact hT.fresh j hj
    · exact hT.fresh i hi
  · intro j hj hrunning
    rcases mem_assignSlot hj with hj | ⟨i, hi, -, hstatus, rfl⟩
    · exact hT.running j hj hrunning
    · rfl
  · intro a ha b hb hlive hlive' hreport
    rcases mem_assignSlot ha with ha | ⟨i, hi, hid, -, rfl⟩
    · rcases mem_assignSlot hb with hb | ⟨k, hk, hkid, -, rfl⟩
      · exact hT.single a ha b hb hlive hlive' hreport
      · -- The new job is a pipeline job of a report without one.
        obtain ⟨hkreport, hktype⟩ := hsame k hk hkid
        have hpipeline : c.jobType.isPipeline = true := by
          rw [← hktype]
          exact (and_eq_true_iff.mp hlive').2
        exact absurd (hreport.trans hkreport) (hfree hpipeline a ha hlive)
    · obtain ⟨hireport, hitype⟩ := hsame i hi hid
      have hpipeline : c.jobType.isPipeline = true := by
        rw [← hitype]
        exact (and_eq_true_iff.mp hlive).2
      rcases mem_assignSlot hb with hb | ⟨k, hk, hkid, -, rfl⟩
      · exact absurd (hreport.symm.trans hireport) (hfree hpipeline b hb hlive')
      · exact hid.trans hkid.symm
  · intro d hd j hj hid
    rcases mem_assignSlot hj with hj | ⟨i, hi, -, -, rfl⟩
    · exact hfits.same d (.tail _ hd) j hj hid
    · exact hfits.same d (.tail _ hd) i hi hid
  · intro d hd hpipeline j hj hlive
    rcases mem_assignSlot hj with hj | ⟨i, hi, hid, -, rfl⟩
    · exact hfits.free d (.tail _ hd) hpipeline j hj hlive
    · obtain ⟨hireport, hitype⟩ := hsame i hi hid
      have hown : c.jobType.isPipeline = true := by
        rw [← hitype]
        exact (and_eq_true_iff.mp hlive).2
      intro hreport
      exact hapart.1 d hd hown hpipeline (hireport.symm.trans hreport)

theorem occupiedCount_assignSlot (hT : JobsInv T) (bullId : ℕ) :
    occupiedCount (T.assignSlot bullId c).jobs ≤ occupiedCount T.jobs + 1 :=
  countP_updateWhere_le hT.ids c.id (fun r hr => by
    have h : (r.id = c.id ∧ r.status = .queued) ∧ r.bullmqJobId = none := by simpa using hr
    exact h.1.1) _ _

/-- The fold over the chosen jobs takes one slot for each. -/
theorem foldl_claimJob {js : List JobRow} (hT : JobsInv T) (hfits : Fits T js) :
    JobsInv (js.foldl JobTables.claimJob T) ∧
      occupiedCount (js.foldl JobTables.claimJob T).jobs ≤ occupiedCount T.jobs + js.length := by
  induction js generalizing T with
  | nil => exact ⟨hT, Nat.le_refl _⟩
  | cons c js ih =>
    -- An entry of the queue changes no row.
    have henqueue : JobsInv (T.enqueue c) := ⟨hT.ids, hT.fresh, hT.running, hT.single⟩
    have hfits' : Fits (T.enqueue c) (c :: js) := ⟨hfits.same, hfits.free, hfits.apart⟩
    obtain ⟨hclaimed, hrest⟩ := henqueue.assignSlot T.nextBullId hfits'
    have hone := occupiedCount_assignSlot (c := c) henqueue T.nextBullId
    obtain ⟨hfinal, hcount⟩ := ih hclaimed hrest
    refine ⟨hfinal, ?_⟩
    rw [foldl_cons, length_cons]
    change occupiedCount (js.foldl JobTables.claimJob ((T.enqueue c).assignSlot T.nextBullId c)).jobs ≤ _
    have hsame : occupiedCount (T.enqueue c).jobs = occupiedCount T.jobs := rfl
    omega

theorem foldl_enqueue_jobs (js : List JobRow) :
    (js.foldl JobTables.enqueue T).jobs = T.jobs ∧
      (js.foldl JobTables.enqueue T).nextJobId = T.nextJobId := by
  induction js generalizing T with
  | nil => exact ⟨rfl, rfl⟩
  | cons c js ih => exact ih (T := T.enqueue c)

theorem onePerReport_sublist (claimedReports : List ℕ) (js : List JobRow) :
    (onePerReport claimedReports js).Sublist js := by
  induction js generalizing claimedReports with
  | nil => exact List.Sublist.refl _
  | cons c js ih =>
    unfold onePerReport
    split
    · split
      · exact (ih _).cons _
      · exact (ih _).cons_cons _
    · exact (ih _).cons_cons _

/-- No report has two pipeline jobs among the chosen ones. -/
theorem onePerReport_apart (claimedReports : List ℕ) (js : List JobRow) :
    (∀ c ∈ onePerReport claimedReports js, c.jobType.isPipeline = true →
      c.reportId ∉ claimedReports) ∧
    (onePerReport claimedReports js).Pairwise fun c d => c.jobType.isPipeline = true →
      d.jobType.isPipeline = true → c.reportId ≠ d.reportId := by
  induction js generalizing claimedReports with
  | nil => simp [onePerReport]
  | cons c js ih =>
    unfold onePerReport
    split
    · split
      · exact ih claimedReports
      · next hnew =>
        obtain ⟨hreports, hapart⟩ := ih (c.reportId :: claimedReports)
        refine ⟨?_, pairwise_cons.mpr ⟨?_, hapart⟩⟩
        · intro d hd hpipeline
          rcases mem_cons.mp hd with rfl | hd
          · exact hnew
          · exact fun hmem => hreports d hd hpipeline (.tail _ hmem)
        · intro d hd _ hpipeline hreport
          exact hreports d hd hpipeline (hreport ▸ mem_cons_self)
    · next hother =>
      obtain ⟨hreports, hapart⟩ := ih claimedReports
      refine ⟨?_, pairwise_cons.mpr ⟨?_, hapart⟩⟩
      · intro d hd hpipeline
        rcases mem_cons.mp hd with rfl | hd
        · exact absurd hpipeline hother
        · exact hreports d hd hpipeline
      · intro d _ hpipeline
        exact absurd hpipeline hother

theorem mem_chosen (h : j ∈ T.chosen now available locked) :
    j ∈ T.jobs ∧ T.dispatchable now j = true := by
  have hcandidate := (onePerReport_sublist _ _).subset h
  have hmem := (mem_insertionSort _).mp (mem_of_mem_take hcandidate)
  obtain ⟨hj, hok⟩ := mem_filter.mp hmem
  exact ⟨hj, (and_eq_true_iff.mp hok).1⟩

theorem length_chosen_le : (T.chosen now available locked).length ≤ available :=
  Nat.le_trans (onePerReport_sublist _ _).length_le (length_take_le _ _)

/-- The candidates of a dispatch fit. -/
theorem fits_chosen (hT : JobsInv T) : Fits T (T.chosen now available locked) := by
  refine ⟨?_, ?_, (onePerReport_apart [] _).2⟩
  · intro c hc j hj hid
    rw [hT.eq hj (mem_chosen hc).1 hid]
    exact ⟨rfl, rfl⟩
  · intro c hc hpipeline j hj hlive hreport
    obtain ⟨hmem, hok⟩ := mem_chosen hc
    obtain ⟨hslot, htype⟩ := and_eq_true_iff.mp hlive
    unfold JobTables.dispatchable at hok
    simp only [hpipeline, Bool.true_and, Bool.and_eq_true, Bool.not_eq_true'] at hok
    -- The candidate itself has no slot yet.
    have hne : j.id ≠ c.id := by
      intro hid
      rw [hT.eq hj hmem hid, JobRow.occupiesSlot] at hslot
      have hnone : c.bullmqJobId = none := by simpa using hok.1.1.1.2
      simp [hnone] at hslot
    have helse : liveElsewhere T.jobs c = true := by
      refine any_eq_true.mpr ⟨j, hj, ?_⟩
      simp [hreport, hne, hslot, htype]
    rw [hok.2] at helse
    cases helse

namespace SlotInv

theorem dispatch {occupied : ℕ} (hinv : SlotInv limit s) (hcounted : s.counted = some occupied) :
    SlotInv limit ⟨s.tables.dispatch now limit occupied locked, none⟩ := by
  have hfits : Fits s.tables (s.tables.chosen now (limit - occupied) locked) :=
    fits_chosen hinv.jobs
  obtain ⟨hjobs, hcount⟩ := foldl_claimJob hinv.jobs hfits
  refine ⟨hjobs, ?_, by simp⟩
  have hlength : (s.tables.chosen now (limit - occupied) locked).length ≤ limit - occupied :=
    length_chosen_le
  have hbefore := hinv.counted occupied hcounted
  have hwithin := hinv.within
  change occupiedCount (s.tables.dispatch now limit occupied locked).jobs ≤ limit
  unfold JobTables.dispatch
  omega

theorem failedDispatch {occupied enqueued : ℕ} (hinv : SlotInv limit s) :
    SlotInv limit ⟨s.tables.failedDispatch now limit occupied enqueued locked, none⟩ := by
  unfold JobTables.failedDispatch
  obtain ⟨hjobs, hnext⟩ := foldl_enqueue_jobs (T := s.tables)
    ((s.tables.chosen now (limit - occupied) locked).take enqueued)
  refine ⟨⟨?_, ?_, ?_, ?_⟩, ?_, by simp⟩
  · rw [hjobs]
    exact hinv.jobs.ids
  · rw [hjobs, hnext]
    exact hinv.jobs.fresh
  · rw [hjobs]
    exact hinv.jobs.running
  · rw [hjobs]
    exact hinv.jobs.single
  · rw [hjobs]
    exact hinv.within

/-- A new job has no slot. -/
theorem createJob {job : NewJob} (hinv : SlotInv limit s) :
    SlotInv limit { s with tables := createJob now job s.tables } := by
  have hcount : occupiedCount (ThreatJobs.createJob now job s.tables).jobs =
      occupiedCount s.tables.jobs := by
    simp [occupiedCount, ThreatJobs.createJob, countP_append, NewJob.row, JobRow.occupiesSlot]
  refine ⟨⟨?_, ?_, ?_, ?_⟩, ?_, ?_⟩
  · refine nodup_map_append hinv.jobs.ids fun hmem => ?_
    obtain ⟨j, hj, hid⟩ := mem_map.mp hmem
    have hlt := hinv.jobs.fresh j hj
    have hid : j.id = s.tables.nextJobId := hid
    omega
  · intro j hj
    rcases mem_append.mp hj with hj | hj
    · exact Nat.lt_succ_of_lt (hinv.jobs.fresh j hj)
    · obtain rfl := mem_singleton.mp hj
      exact Nat.lt_succ_self _
  · intro j hj hrunning
    rcases mem_append.mp hj with hj | hj
    · exact hinv.jobs.running j hj hrunning
    · obtain rfl := mem_singleton.mp hj
      cases hrunning
  · -- The new row is not live.
    have hold : ∀ j ∈ (ThreatJobs.createJob now job s.tables).jobs, j.livePipeline = true →
        j ∈ s.tables.jobs := by
      intro j hj hlive
      rcases mem_append.mp hj with hj | hj
      · exact hj
      · obtain rfl := mem_singleton.mp hj
        simp [JobRow.livePipeline, JobRow.occupiesSlot, NewJob.row] at hlive
    intro i hi j hj hlive hlive' hreport
    exact hinv.jobs.single i (hold i hi hlive) j (hold j hj hlive') hlive hlive' hreport
  · rw [hcount]
    exact hinv.within
  · intro n hn
    rw [hcount]
    exact hinv.counted n hn

variable {jobId : ℕ}

/-- The statements that touch one row and take no slot. -/
theorem updateRow {g : JobRow → JobRow} (hinv : SlotInv limit s)
    (hg : Releases (fun j => j.id = jobId) g s.tables.jobs) :
    SlotInv limit { s with tables := s.tables.updateRow jobId g } :=
  hg.slotInv hinv

theorem releases_patched {patch : JobPatch} (hinv : SlotInv limit s)
    (hkeeps : ∀ j ∈ s.tables.jobs, j.id = jobId → KeepsPlace j (j.patched now patch)) :
    Releases (fun j => j.id = jobId) (JobRow.patched now patch) s.tables.jobs where
  id _ := rfl
  reportId _ := rfl
  jobType _ := rfl
  slot j hj hid := (hkeeps j hj (by simpa using hid)).1
  running j hj hid hrunning := by
    have hbefore := hinv.jobs.running j hj ((hkeeps j hj (by simpa using hid)).2 hrunning)
    unfold JobRow.patched
    cases patch.bullmqJobId with
    | none => simpa using hbefore
    | some bullId => rfl

theorem releases_claimedIf {jobId bullId : ℕ} {token : OwnerToken}
    (hassigned : ∀ j ∈ s.tables.jobs, j.id = jobId →
      j.claimable jobOwnerStaleMs now token = true → j.bullmqJobId.isSome = true)
    (hinv : SlotInv limit s) :
    Releases (fun j => j.id = jobId) (JobRow.claimedIf now token bullId) s.tables.jobs where
  id j := by unfold JobRow.claimedIf; split <;> rfl
  reportId j := by unfold JobRow.claimedIf; split <;> rfl
  jobType j := by unfold JobRow.claimedIf; split <;> rfl
  slot j hj hid hslot := by
    unfold JobRow.claimedIf at hslot
    split at hslot
    · next hclaimable =>
      have hoccupied : j.status.occupied = true := by
        simp only [JobRow.claimable, and_eq_true] at hclaimable
        exact hclaimable.1
      have hbull := hassigned j hj (by simpa using hid) hclaimable
      simp [JobRow.occupiesSlot, hoccupied, hbull]
    · exact hslot
  running j hj _ hrunning := by
    unfold JobRow.claimedIf at hrunning ⊢
    split
    · rfl
    · next hnot =>
      rw [if_neg hnot] at hrunning
      exact hinv.jobs.running j hj hrunning

/-- Rows that leave their slot, or keep their status and slot. -/
theorem releases_of {p : JobRow → Bool} {g : JobRow → JobRow} (hinv : SlotInv limit s)
    (hid : ∀ j, (g j).id = j.id) (hreport : ∀ j, (g j).reportId = j.reportId)
    (htype : ∀ j, (g j).jobType = j.jobType)
    (hslot : ∀ j, (g j).occupiesSlot = true → j.occupiesSlot = true)
    (hrunning : ∀ j, (g j).status = .running → j.status = .running ∧
      (g j).bullmqJobId = j.bullmqJobId) : Releases p g s.tables.jobs where
  id := hid
  reportId := hreport
  jobType := htype
  slot j _ _ := hslot j
  running j hj _ h := by
    obtain ⟨hstatus, hsame⟩ := hrunning j h
    rw [hsame]
    exact hinv.jobs.running j hj hstatus

theorem step (hinv : SlotInv limit s) {a : SlotAction} (hassigned : Assigned s a)
    (hstep : slotStep limit s a = some s') : SlotInv limit s' := by
  unfold slotStep at hstep
  cases a with
  | createJob now job =>
    cases hstep
    exact hinv.createJob
  | createExclusivePipelineJob now job =>
    cases hstep
    unfold createExclusivePipelineJob
    split
    · exact hinv
    · exact hinv.createJob
  | updateJob now jobId patch =>
    cases hstep
    exact hinv.updateRow (hinv.releases_patched hassigned)
  | countSlots =>
    dsimp only at hstep
    split at hstep
    · cases hstep
      refine { hinv with counted := ?_ }
      rintro n hn
      cases hn
      exact Nat.le_refl _
    · cases hstep
  | dispatch now locked =>
    dsimp only at hstep
    split at hstep
    · next occupied hcounted =>
      cases hstep
      exact hinv.dispatch hcounted
    · cases hstep
  | failDispatch now enqueued locked =>
    dsimp only at hstep
    split at hstep
    · cases hstep
      exact hinv.failedDispatch
    · cases hstep
  | claim now bullId token =>
    dsimp only at hstep
    split at hstep
    · next e he =>
      cases hstep
      have hmem := mem_of_find?_eq_some he
      have hid : e.id = bullId := by simpa using find?_some he
      exact hinv.updateRow (releases_claimedIf (hassigned e hmem hid) hinv)
    · cases hstep
  | heartbeat now jobId token =>
    cases hstep
    refine hinv.updateRow (hinv.releases_of ?_ ?_ ?_ ?_ ?_)
    all_goals
      intro j
      unfold JobRow.heartbeat
      split
    all_goals simp [JobRow.occupiesSlot]
  | requeue jobId token =>
    cases hstep
    refine hinv.updateRow (hinv.releases_of ?_ ?_ ?_ ?_ ?_)
    all_goals
      intro j
      unfold JobRow.requeue
      split
    all_goals simp [JobRow.occupiesSlot]
  | recover now jobId =>
    cases hstep
    refine hinv.updateRow (hinv.releases_of ?_ ?_ ?_ ?_ ?_)
    all_goals
      intro j
      unfold JobRow.recoveredIf
      split
    all_goals simp [JobRow.occupiesSlot, JobRow.recovered]
  | recoverClaim jobId =>
    cases hstep
    refine hinv.updateRow (hinv.releases_of ?_ ?_ ?_ ?_ ?_)
    all_goals
      intro j
      unfold JobRow.unclaimed
      split
    all_goals simp_all [JobRow.occupiesSlot]
  | cancelUnclaimed reportId =>
    cases hstep
    refine Releases.slotInv (hinv.releases_of ?_ ?_ ?_ ?_ ?_) hinv
    all_goals
      intro j
      unfold JobRow.cancelled
      split
    all_goals simp [JobRow.occupiesSlot, JobStatus.occupied]

theorem initial (reports : List ReportRow) : SlotInv limit (.initial reports) := by
  refine ⟨⟨nodup_nil, ?_, ?_, ?_⟩, Nat.zero_le _, by simp [SlotState.initial]⟩ <;>
    simp [SlotState.initial]

end SlotInv

/-- While deliveries claim only jobs that a committed dispatch assigned, no more jobs have slots
than the limit allows, and no report has two pipeline jobs running. -/
theorem slots_within_limit (reports : List ReportRow) {actions : List SlotAction}
    (hrun : Run (slotStep limit) Assigned (.initial reports) actions s) :
    occupiedCount s.tables.jobs ≤ limit ∧
      ∀ i ∈ s.tables.jobs, ∀ j ∈ s.tables.jobs, i.jobType.isPipeline = true →
        j.jobType.isPipeline = true → i.status = .running → j.status = .running →
          i.reportId = j.reportId → i = j := by
  have hinv : SlotInv limit s :=
    Run.invariant (fun _ _ _ hinv hassigned hstep => SlotInv.step hinv hassigned hstep) hrun
      (SlotInv.initial reports)
  refine ⟨hinv.within, ?_⟩
  have hlive : ∀ j ∈ s.tables.jobs, j.jobType.isPipeline = true → j.status = .running →
      j.livePipeline = true := by
    intro j hj hpipeline hrunning
    simp [JobRow.livePipeline, JobRow.occupiesSlot, JobStatus.occupied, hrunning, hpipeline,
      hinv.jobs.running j hj hrunning]
  intro i hi j hj hipipeline hjpipeline hirunning hjrunning hreport
  exact hinv.jobs.eq hi hj (hinv.jobs.single i hi j hj (hlive i hi hipipeline hirunning)
    (hlive j hj hjpipeline hjrunning) hreport)

/-- Two reports. -/
def twoReports : List ReportRow := [⟨1, none, false⟩, ⟨2, none, false⟩]

/-- An analysis of a report. -/
def analysisOf (reportId : ℕ) : NewJob := ⟨reportId, .analyze, none, none⟩

/-- Two jobs and one slot: the first job runs, completes and makes room for the second. -/
def slotHandover : List SlotAction :=
  [.createJob 1 (analysisOf 1), .createJob 2 (analysisOf 2), .countSlots, .dispatch 3 [], .claim 4 1 1,
    .updateJob 5 1 ⟨some .completed, none, none⟩, .countSlots, .dispatch 6 [], .claim 7 2 2]

theorem slots_within_limit_handover :
    ∃ s, Run (slotStep 1) Assigned (.initial twoReports) slotHandover s ∧
      s.tables.jobs.map JobRow.status = [.completed, .running] ∧ occupiedCount s.tables.jobs ≤ 1 := by
  have hexec : (Run.exec (slotStep 1) Assigned (.initial twoReports) slotHandover).map
      (fun s => s.tables.jobs.map JobRow.status) = some [.completed, .running] := by decide
  obtain ⟨s, hs, hstatus⟩ := Option.map_eq_some_iff.mp hexec
  have hrun := Run.of_exec hs
  exact ⟨s, hrun, hstatus, (slots_within_limit twoReports hrun).1⟩

/-- A dispatch enqueues the first job and is rolled back. The next one has counted no slot when
the entry of the first is delivered, and gives the slot to the second job. -/
def rolledBackDispatch : List SlotAction :=
  [.createJob 1 (analysisOf 1), .createJob 2 (analysisOf 2), .countSlots, .failDispatch 3 1 [],
    .countSlots, .claim 4 1 1, .dispatch 5 []]

/-- A rolled back dispatch leaves an entry that takes a slot beyond the limit. -/
theorem slots_exceed_limit : ¬ ∀ (actions : List SlotAction) (s : SlotState),
      Run (slotStep 1) (fun _ _ => True) (.initial twoReports) actions s →
        occupiedCount s.tables.jobs ≤ 1 ∧
          ∀ i ∈ s.tables.jobs, ∀ j ∈ s.tables.jobs, i.jobType.isPipeline = true →
            j.jobType.isPipeline = true → i.status = .running → j.status = .running →
              i.reportId = j.reportId → i = j := by
  intro h
  have hexec : (Run.exec (slotStep 1) (fun _ _ => True) (.initial twoReports)
      rolledBackDispatch).map (fun s => occupiedCount s.tables.jobs) = some 2 := by decide
  obtain ⟨s, hs, hcount⟩ := Option.map_eq_some_iff.mp hexec
  have hwithin := (h _ s (Run.of_exec hs)).1
  omega

end TalonHound.ThreatJobs
