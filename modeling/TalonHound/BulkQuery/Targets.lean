import Mathlib.Data.Finset.Sort
import TalonHound.SearchJobs.Rows

/-!
# Query-wide bulk jobs

A job over a search collects the matching ids by a cursor, keeps them in a table of targets, and
reads that table page by page to apply its action.
-/

namespace TalonHound.BulkQuery

open SearchJobs (Status)
open List

/-- The `status` of a result, for an error with its message. -/
inductive ResultStatus
  | ok | skipped
  | error (message : String)

/-- The result of the action for one id. -/
structure ResultRow where
  id : ℕ
  status : ResultStatus

/-- The counts of a bulk action, and its results. -/
structure Outcome where
  requested : ℕ := 0
  succeeded : ℕ := 0
  skipped : ℕ := 0
  failed : ℕ := 0
  results : List ResultRow := []

/-- `summarizeBulkResults`. -/
def summarizeBulkResults : List ResultRow → Outcome
  | [] => {}
  | r :: results =>
    let rest := summarizeBulkResults results
    match r.status with
    | .ok => ⟨rest.requested + 1, rest.succeeded + 1, rest.skipped, rest.failed, r :: results⟩
    | .skipped => ⟨rest.requested + 1, rest.succeeded, rest.skipped + 1, rest.failed, r :: results⟩
    | .error _ => ⟨rest.requested + 1, rest.succeeded, rest.skipped, rest.failed + 1, r :: results⟩

/-- `mergeOutcomes`. -/
def mergeOutcomes (a b : Outcome) : Outcome :=
  ⟨a.requested + b.requested, a.succeeded + b.succeeded, a.skipped + b.skipped,
    a.failed + b.failed, a.results ++ b.results⟩

/-- `errorSampleFromResults`. -/
def errorSampleFromResults (results : List ResultRow) : List (ℕ × String) :=
  (results.filterMap fun r => match r.status with
    | .error message => some (r.id, if message = "" then "Failed" else message)
    | _ => none).take 20

/-- One of the four bulk actions: what refuses a chunk, and what becomes of one id, given the
database as the chunk found it and as the ids before left it. -/
structure BulkAction (σ : Type*) where
  rejects : σ → Option String
  treat : σ → ℕ → σ → σ × ResultStatus

variable {σ : Type*} (action : BulkAction σ)

/-- The loop over the ids of a chunk. -/
def BulkAction.rows (loaded : σ) : σ → List ℕ → σ × List ResultRow
  | db, [] => (db, [])
  | db, id :: ids =>
    let treated := action.treat loaded id db
    let rest := BulkAction.rows loaded treated.1 ids
    (rest.1, ⟨id, treated.2⟩ :: rest.2)

/-- `applyChunk`. -/
def applyChunk (db : σ) (ids : List ℕ) : Except String (σ × Outcome) :=
  match action.rejects db with
  | some message => .error message
  | none =>
    let treated := action.rows db db ids
    .ok (treated.1, summarizeBulkResults treated.2)

/-- The number of rows that are asked for at once. -/
def fetchSize (chunkSize : ℕ) : ℕ := max 1 (min (if chunkSize = 0 then 100 else chunkSize) 100)

/-- `streamMatchingIocIds`, from what has been collected on; `cursor` holds the rows to come. -/
def streamMatchingIocIds (chunkSize hardLimit : ℕ) (collected cursor : List ℕ) :
    Except String (List ℕ) :=
  if hardLimit - collected.length = 0 then .error s!"Query matches more than {hardLimit} IOCs"
  else
    let size := min (fetchSize chunkSize) (hardLimit - collected.length)
    if cursor.take size = [] then .ok collected
    else streamMatchingIocIds chunkSize hardLimit
      (collected ++ (cursor.take size).filter (0 < ·)) (cursor.drop size)
  termination_by cursor.length
  decreasing_by next hmore =>
    rw [take_eq_nil_iff, not_or] at hmore
    have hlength := length_pos_iff.mpr hmore.2
    rw [length_drop]
    omega

/-- `listTargetPage`. -/
def listTargetPage (targets : Finset ℕ) (afterId limit : ℕ) : List ℕ :=
  ((targets.filter (afterId < ·)).sort).take limit

/-- The last id of a page lies behind the bound of the page. -/
theorem lt_getLast {targets : Finset ℕ} {afterId limit : ℕ}
    (h : listTargetPage targets afterId limit ≠ []) :
    (listTargetPage targets afterId limit).getLast h ∈ targets ∧
      afterId < (listTargetPage targets afterId limit).getLast h := by
  simpa using mem_of_mem_take (getLast_mem h)

/-- What the pages read so far have come to. -/
structure Work (σ : Type*) where
  db : σ
  totals : Outcome

/-- The loop over the pages of targets, with the failure that ends it early; `cancels k` is what
`isCancelRequested` answers before page `k`. -/
def applyTargets (chunkSize : ℕ) (cancels : ℕ → Bool) (targets : Finset ℕ) (k afterId : ℕ)
    (work : Work σ) : Work σ × Option String :=
  if cancels k then (work, some "Cancelled")
  else
    let page := listTargetPage targets afterId chunkSize
    if hpage : page = [] then (work, none)
    else
      match applyChunk action work.db page with
      | .error message => (work, some (if message = "" then "Bulk action failed" else message))
      | .ok (db, outcome) =>
        applyTargets chunkSize cancels targets (k + 1) (page.getLast hpage)
          ⟨db, mergeOutcomes work.totals outcome⟩
  termination_by (targets.filter (afterId < ·)).card
  decreasing_by
    obtain ⟨hmem, hlt⟩ := lt_getLast hpage
    refine Finset.card_lt_card ((Finset.ssubset_iff_of_subset fun id hid => ?_).mpr
      ⟨_, Finset.mem_filter.mpr ⟨hmem, hlt⟩, fun h => lt_irrefl _ (Finset.mem_filter.mp h).2⟩)
    obtain ⟨hid, hbehind⟩ := Finset.mem_filter.mp hid
    exact Finset.mem_filter.mpr ⟨hid, hlt.trans hbehind⟩

/-- A row of `ioc_bulk_query_jobs`. -/
structure Job where
  status : Status
  cancelRequested : Bool
  matchCount : Option ℕ
  (succeeded skipped failed : ℕ)
  errorSample : List (ℕ × String)
  failureReason : Option String

/-- The row of a job, its targets, and the work done in its name. -/
structure JobState (σ : Type*) where
  job : Job
  targets : Finset ℕ
  work : Work σ

/-- `markFailed`. -/
def Job.markFailed (job : Job) (reason : String) : Job :=
  { job with status := .failed, failureReason := some (String.ofList (reason.toList.take 500)) }

/-- `markCompleted`. -/
def Job.markCompleted (job : Job) (matchCount : ℕ) (totals : Outcome) : Job :=
  { job with
    status := .completed
    matchCount := some matchCount
    succeeded := totals.succeeded
    skipped := totals.skipped
    failed := totals.failed
    errorSample := errorSampleFromResults totals.results }

/-- `processJob` without a Deep Search; `compiled` has the ids that the compiled query matches. -/
def processJob (chunkSize hardLimit : ℕ) (cancels : ℕ → Bool) (compiled : Except String (Finset ℕ))
    (job : Job) (targets : Finset ℕ) (db : σ) : JobState σ :=
  if job.status = .queued ∧ job.cancelRequested = false then
    let claimed := { job with status := .running }
    match compiled with
    | .error message => ⟨claimed.markFailed message, targets, ⟨db, {}⟩⟩
    | .ok found =>
      match streamMatchingIocIds chunkSize hardLimit [] (found.sort) with
      | .error message => ⟨claimed.markFailed message, targets, ⟨db, {}⟩⟩
      | .ok ids =>
        match applyTargets action chunkSize cancels ids.toFinset 0 0 ⟨db, {}⟩ with
        | (work, some message) =>
          let progressed := { claimed with
            matchCount := some ids.length
            succeeded := work.totals.succeeded
            skipped := work.totals.skipped
            failed := work.totals.failed }
          ⟨progressed.markFailed message, ∅, work⟩
        | (work, none) => ⟨claimed.markCompleted ids.length work.totals, ∅, work⟩
  else ⟨job, targets, ⟨db, {}⟩⟩

/-- The ids that the action was applied to, in order. -/
def JobState.applied (s : JobState σ) : List ℕ := s.work.totals.results.map ResultRow.id

/-- The database after the action on chunks of ids, one chunk after the other. -/
def afterChunks (db : σ) (chunks : List (List ℕ)) : σ :=
  chunks.foldl (fun db ids => (action.rows db db ids).1) db

/-- The job acted on exactly the matching ids, chunk by chunk, or, where there are too many, on
nothing. -/
structure ExactOrNothing (hardLimit : ℕ) (found : Finset ℕ) (db : σ) (s : JobState σ) : Prop where
  exact : found.card ≤ hardLimit → s.job.status = .completed ∧ s.job.matchCount = some found.card ∧
    s.job.succeeded + s.job.skipped + s.job.failed = found.card ∧
    s.applied.Nodup ∧ (∀ id, id ∈ s.applied ↔ id ∈ found) ∧
    ∃ chunks, chunks.flatten = s.applied ∧ s.work.db = afterChunks action db chunks
  nothing : hardLimit < found.card → s.job.status = .failed ∧ s.applied = [] ∧ s.work.db = db

variable {chunkSize hardLimit k afterId : ℕ} {collected cursor : List ℕ} {targets found : Finset ℕ}
  {cancels : ℕ → Bool} {db : σ} {work : Work σ} {job : Job}

/-- The cursor gives all rows, unless they reach the limit. -/
theorem streamMatchingIocIds_eq (hpos : ∀ id ∈ cursor, 0 < id) :
    streamMatchingIocIds chunkSize hardLimit collected cursor =
      if collected.length + cursor.length < hardLimit then .ok (collected ++ cursor)
      else .error s!"Query matches more than {hardLimit} IOCs" := by
  induction collected, cursor using streamMatchingIocIds.induct chunkSize hardLimit with
  | case1 collected cursor hreached =>
    rw [streamMatchingIocIds, if_pos hreached, if_neg (by omega)]
  | case2 collected cursor hroom size hnone =>
    have hsize : 0 < size := by
      have : 0 < fetchSize chunkSize := by simp [fetchSize]
      omega
    obtain rfl : cursor = [] := by simpa [hsize.ne'] using hnone
    rw [streamMatchingIocIds, if_neg hroom, if_pos hnone, if_pos (by simp; omega), append_nil]
  | case3 collected cursor hroom size hmore ih =>
    have hall : (cursor.take size).filter (0 < ·) = cursor.take size :=
      filter_eq_self.mpr fun id hid => by simpa using hpos id (mem_of_mem_take hid)
    rw [hall] at ih
    rw [streamMatchingIocIds, if_neg hroom, if_neg hmore, hall,
      ih fun id hid => hpos id (mem_of_mem_drop hid), append_assoc,
      take_append_drop, length_append, Nat.add_assoc, ← length_append,
      take_append_drop]

/-- The ids behind the last one of a page are the ids that the page leaves. -/
theorem listTargetPage_append (h : listTargetPage targets afterId chunkSize ≠ []) :
    listTargetPage targets afterId chunkSize ++ (targets.filter
        ((listTargetPage targets afterId chunkSize).getLast h < ·)).sort =
      (targets.filter (afterId < ·)).sort := by
  unfold listTargetPage at h ⊢
  have hsorted : (targets.filter (afterId < ·)).sort.Pairwise (· < ·) :=
    (Finset.sortedLT_sort _).pairwise
  have hmem : ∀ id, id ∈ (targets.filter (afterId < ·)).sort ↔ id ∈ targets ∧ afterId < id := by
    simp
  generalize (targets.filter (afterId < ·)).sort = ids at h hsorted hmem ⊢
  obtain ⟨front, last, hfront⟩ : ∃ front last, ids.take chunkSize = front ++ [last] :=
    ⟨_, _, (dropLast_append_getLast h).symm⟩
  obtain ⟨rest, hrest⟩ : ∃ rest, ids = front ++ last :: rest :=
    ⟨ids.drop chunkSize, by rw [← singleton_append, ← append_assoc, ← hfront, take_append_drop]⟩
  have hdrop : ids.drop chunkSize = rest := by
    have hsplit : ids.take chunkSize ++ ids.drop chunkSize = ids.take chunkSize ++ rest := by
      rw [take_append_drop, hfront, hrest, append_assoc, singleton_append]
    exact append_cancel_left hsplit
  rw [hrest, pairwise_append, pairwise_cons] at hsorted
  obtain ⟨-, ⟨hbehind, hpairwise⟩, hbefore⟩ := hsorted
  have hgetLast : (ids.take chunkSize).getLast h = last := by simp [hfront]
  rw [hgetLast]
  have hsame : targets.filter (last < ·) = rest.toFinset := by
    ext id
    have hin := hmem id
    have hlast := (hmem last).mp (by simp [hrest])
    simp only [hrest, mem_append, mem_cons] at hin
    simp only [Finset.mem_filter, mem_toFinset]
    constructor
    · rintro ⟨hid, hlt⟩
      rcases hin.mpr ⟨hid, hlast.2.trans hlt⟩ with hid | rfl | hid
      · exact absurd (hbefore id hid last mem_cons_self) (by omega)
      · exact absurd hlt (lt_irrefl _)
      · exact hid
    · exact fun hid => ⟨(hin.mp (.inr (.inr hid))).1, hbehind id hid⟩
  rw [hsame, (toFinset_sort _ (hpairwise.imp ne_of_lt)).mpr (hpairwise.imp le_of_lt), ← hdrop,
    take_append_drop]

/-- Every result is counted once. -/
def Outcome.Balanced (o : Outcome) : Prop :=
  o.requested = o.results.length ∧ o.succeeded + o.skipped + o.failed = o.requested

theorem balanced_summarizeBulkResults (results : List ResultRow) :
    (summarizeBulkResults results).Balanced ∧ (summarizeBulkResults results).results = results := by
  induction results with
  | nil => exact ⟨⟨rfl, rfl⟩, rfl⟩
  | cons r results ih =>
    obtain ⟨⟨hrequested, hsum⟩, hresults⟩ := ih
    rw [hresults] at hrequested
    unfold summarizeBulkResults Outcome.Balanced
    cases r.status <;> simp <;> omega

theorem Outcome.Balanced.merge {a b : Outcome} (ha : a.Balanced) (hb : b.Balanced) :
    (mergeOutcomes a b).Balanced := by
  unfold Outcome.Balanced mergeOutcomes at *
  dsimp only
  rw [length_append]
  omega

theorem ids_rows (loaded db : σ) (ids : List ℕ) :
    (action.rows loaded db ids).2.map ResultRow.id = ids := by
  induction ids generalizing db with
  | nil => rfl
  | cons id ids ih => exact congrArg (id :: ·) (ih _)

/-- The pages treat every target behind the bound once, and count it once; the database is what
their chunks leave. -/
theorem applyTargets_spec (hchunk : 0 < chunkSize) (hcancels : ∀ k, cancels k = false)
    (hrejects : ∀ db, action.rejects db = none) (htotals : work.totals.Balanced) :
    ∃ work', applyTargets action chunkSize cancels targets k afterId work = (work', none) ∧
      work'.totals.Balanced ∧ work'.totals.results.map ResultRow.id =
        work.totals.results.map ResultRow.id ++ (targets.filter (afterId < ·)).sort ∧
      ∃ chunks, chunks.flatten = (targets.filter (afterId < ·)).sort ∧
        work'.db = afterChunks action work.db chunks := by
  induction k, afterId, work using applyTargets.induct action chunkSize cancels targets with
  | case1 k afterId work hcancelled => simp [hcancels] at hcancelled
  | case2 k afterId work hgoes page hpage =>
    have hnone : (targets.filter (afterId < ·)).sort = [] :=
      (take_eq_nil_iff.mp hpage).resolve_left hchunk.ne'
    refine ⟨work, ?_, htotals, by rw [hnone, append_nil], [], hnone.symm, rfl⟩
    rw [applyTargets, if_neg hgoes]
    exact dif_pos hpage
  | case3 k afterId work hgoes page hpage message hrejected =>
    simp [applyChunk, hrejects] at hrejected
  | case4 k afterId work hgoes page hpage db outcome happlied ih =>
    have hchunked := happlied
    unfold applyChunk at hchunked
    rw [hrejects] at hchunked
    obtain ⟨rfl, rfl⟩ := Prod.mk.inj (Except.ok.inj hchunked)
    obtain ⟨hbalanced, hresults⟩ :=
      balanced_summarizeBulkResults (action.rows work.db work.db page).2
    obtain ⟨work', heq, hbalanced', hids, chunks, hchunks, hdb⟩ := ih (htotals.merge hbalanced)
    refine ⟨work', ?_, hbalanced', ?_, page :: chunks, ?_, hdb⟩
    · rw [applyTargets, if_neg hgoes]
      refine (dif_neg hpage).trans ?_
      rw [happlied]
      exact heq
    · rw [hids, mergeOutcomes, hresults, map_append, ids_rows, append_assoc,
        listTargetPage_append hpage]
    · rw [flatten_cons, hchunks, listTargetPage_append hpage]

section

variable (hpos : ∀ id ∈ found, 0 < id) (hqueued : job.status = .queued)
  (hrequested : job.cancelRequested = false)

include hpos hqueued hrequested

/-- A job that reaches the limit does nothing. -/
theorem processJob_of_limit (hlimit : hardLimit ≤ found.card) :
    processJob action chunkSize hardLimit cancels (.ok found) job targets db =
      ⟨Job.markFailed { job with status := .running } s!"Query matches more than {hardLimit} IOCs",
        targets, ⟨db, {}⟩⟩ := by
  unfold processJob
  rw [if_pos ⟨hqueued, hrequested⟩]
  dsimp only
  rw [streamMatchingIocIds_eq (by simpa using hpos), if_neg (by simpa using hlimit)]

/-- A job without cancellation and refusal acts on exactly the matching ids or on nothing unless
their number is the limit itself. -/
theorem exactOrNothing_iff (hchunk : 0 < chunkSize) (hcancels : ∀ k, cancels k = false)
    (hrejects : ∀ db, action.rejects db = none) :
    ExactOrNothing action hardLimit found db
        (processJob action chunkSize hardLimit cancels (.ok found) job targets db) ↔
      found.card ≠ hardLimit := by
  rcases le_or_gt hardLimit found.card with hlimit | hlimit
  · rw [processJob_of_limit action hpos hqueued hrequested hlimit]
    constructor
    · intro h heq
      have hcompleted := (h.exact heq.le).1
      cases hcompleted
    · intro hne
      exact ⟨fun hle => absurd (hle.antisymm hlimit) hne, fun _ => ⟨rfl, rfl, rfl⟩⟩
  · refine iff_of_true ⟨fun _ => ?_, fun h => absurd h hlimit.le.not_gt⟩ hlimit.ne
    obtain ⟨work, heq, ⟨hlength, hsum⟩, hids, chunks, hchunks, hdb⟩ :
        ∃ work, applyTargets action chunkSize cancels found 0 0 ⟨db, {}⟩ = (work, none) ∧ _ ∧ _ :=
      applyTargets_spec action hchunk hcancels hrejects ⟨rfl, rfl⟩
    have hall : found.filter (0 < ·) = found := Finset.filter_true_of_mem hpos
    rw [hall] at hchunks
    rw [hall, map_nil, nil_append] at hids
    have happlied : (processJob action chunkSize hardLimit cancels (.ok found) job targets db) =
        ⟨Job.markCompleted { job with status := .running } found.sort.length work.totals, ∅, work⟩ := by
      unfold processJob
      rw [if_pos ⟨hqueued, hrequested⟩]
      dsimp only
      rw [streamMatchingIocIds_eq (by simpa using hpos), if_pos (by simpa using hlimit)]
      dsimp only [nil_append]
      rw [Finset.sort_toFinset, heq]
    rw [happlied]
    have hcount : work.totals.results.length = found.card := by
      rw [← length_map, hids, Finset.length_sort]
    refine ⟨rfl, congrArg some (Finset.length_sort _), ?_, ?_, ?_, chunks, ?_, hdb⟩
    · exact (hsum.trans hlength).trans hcount
    · unfold JobState.applied
      rw [hids]
      exact Finset.sort_nodup _ _
    · unfold JobState.applied
      rw [hids]
      simp
    · unfold JobState.applied
      rw [hchunks, hids]

end

/-- Tags each id that has no tag yet. -/
def tagAction : BulkAction (List ℕ) where
  rejects _ := none
  treat loaded id tagged := if id ∈ loaded then (tagged, .skipped) else (id :: tagged, .ok)

/-- A job as it is queued. -/
def queuedJob : Job := ⟨.queued, false, none, 0, 0, 0, [], none⟩

/-- Three matching ids under a limit of four. -/
theorem exactOrNothing_three : ExactOrNothing tagAction 4 {1, 2, 3} [2]
    (processJob tagAction 2 4 (fun _ => false) (.ok {1, 2, 3}) queuedJob ∅ [2]) :=
  (exactOrNothing_iff tagAction (by decide) rfl rfl (by decide) (fun _ => rfl)
    (fun _ => rfl)).mpr (by decide)

/-- Two matching ids under a limit of two fail the job. -/
theorem limit_reached_fails : ¬ ExactOrNothing tagAction 2 {1, 2} []
    (processJob tagAction 100 2 (fun _ => false) (.ok {1, 2}) queuedJob ∅ []) := by
  rw [processJob_of_limit tagAction (by decide) rfl rfl (by decide)]
  intro h
  have hcompleted := (h.exact (by decide)).1
  cases hcompleted

end TalonHound.BulkQuery
