import Mathlib.Tactic

/-!
# Rolling reconciliation of a projection

Each run reads one batch of a slice of the projection, in the order of the identity keys, and stores
where the next run goes on.
-/

namespace TalonHound.Reconciliation

open List

/-- `RECONCILIATION_BUCKET_COUNT`. -/
def reconciliationBucketCount : ℕ := 256

/-- A number of slices that `reconciliationBucketsPerSlice` admits. -/
structure SliceCount where
  count : ℕ
  pos : 0 < count
  dvd : count ∣ reconciliationBucketCount

/-- `reconciliationBucketsPerSlice`. -/
def reconciliationBucketsPerSlice (n : SliceCount) : ℕ := reconciliationBucketCount / n.count

/-- `reconciliationBucketRange`: from the low bucket up to the high one, which is outside. -/
def reconciliationBucketRange (slice : ℤ) (n : SliceCount) : ℤ × ℤ :=
  let perSlice : ℤ := reconciliationBucketsPerSlice n
  let s := (slice.tmod n.count + n.count).tmod n.count
  (s * perSlice, (s + 1) * perSlice)

/-- `reconciliationSliceForBucket`. -/
def reconciliationSliceForBucket (bucket : ℕ) (n : SliceCount) : ℕ :=
  bucket / reconciliationBucketsPerSlice n % n.count

section projection

variable {κ : Type*} [LinearOrder κ]

/-- A row of `published_feed_items`. Keys are compared as the database compares them; a key is not
empty, since a kind stands before each. -/
structure ProjectedIdentity (κ : Type*) where
  identityKey : κ
  bucket : Fin 256

/-- The rows of one projection in the order of their key, which is part of the primary key. -/
structure Projection (κ : Type*) [LinearOrder κ] where
  rows : List (ProjectedIdentity κ)
  ordered : rows.Pairwise fun a b => a.identityKey < b.identityKey

/-- What a feed stores between two runs; the empty cursor is none. The number of slices completed so
far is not stored. -/
structure Progress (κ : Type*) where
  slice : ℤ
  cursor : Option κ
  completed : ℕ

/-- The rows of the slice after the cursor. -/
def remaining (P : Projection κ) (n : SliceCount) (p : Progress κ) : List (ProjectedIdentity κ) :=
  let range := reconciliationBucketRange (p.slice.tmod n.count) n
  P.rows.filter fun r => range.1 ≤ r.bucket.val && r.bucket.val < range.2 &&
    p.cursor.all (· < r.identityKey)

/-- The rows that `buildReconciliationBatchSql` selects. -/
def batch (P : Projection κ) (n : SliceCount) (batchSize : ℕ+) (p : Progress κ) :
    List (ProjectedIdentity κ) :=
  (remaining P n p).take batchSize

/-- `nextReconciliationProgress`. -/
def nextReconciliationProgress (n : SliceCount) (batchSize : ℕ+) (p : Progress κ)
    (batchRows : List (ProjectedIdentity κ)) : Progress κ :=
  let currentSlice := p.slice.tmod n.count
  match batchRows.getLast? with
  | none => ⟨(currentSlice + 1).tmod n.count, none, p.completed + 1⟩
  | some last =>
    if batchRows.length < max (batchSize : ℕ) 1 then ⟨(currentSlice + 1).tmod n.count, none, p.completed + 1⟩
    else ⟨currentSlice, some last.identityKey, p.completed⟩

/-- `runReconciliationSlice`, as far as it moves on. -/
def runReconciliationSlice (P : Projection κ) (n : SliceCount) (batchSize : ℕ+) (p : Progress κ) :
    Progress κ :=
  nextReconciliationProgress n batchSize p (batch P n batchSize p)

/-- The progress after a number of runs. -/
def progressAfter (P : Projection κ) (n : SliceCount) (batchSize : ℕ+) (p : Progress κ) (runs : ℕ) :
    Progress κ :=
  (runReconciliationSlice P n batchSize)^[runs] p

/-- The slice of a progress, as a remainder. -/
def Progress.sliceIndex (p : Progress κ) (n : SliceCount) : ℤ := p.slice % n.count

theorem tmod_emod (s : ℤ) (n : SliceCount) : s.tmod n.count % n.count = s % n.count := by
  rw [Int.tmod_def, Int.sub_mul_emod_self_left]

theorem tmod_add_tmod (s : ℤ) (n : SliceCount) :
    (s.tmod n.count + n.count).tmod n.count = s % n.count := by
  have hpos : (0 : ℤ) < n.count := by exact_mod_cast n.pos
  have hlow := Int.lt_tmod_of_pos s hpos
  rw [Int.tmod_eq_emod_of_nonneg (by omega), Int.add_emod_right, tmod_emod]

/-- A bucket is in the range of a slice exactly if it belongs to it. -/
theorem mem_range_iff (s : ℤ) (n : SliceCount) (bucket : Fin 256) :
    ((reconciliationBucketRange s n).1 ≤ bucket.val ∧ bucket.val < (reconciliationBucketRange s n).2) ↔
      (reconciliationSliceForBucket bucket.val n : ℤ) = s % n.count := by
  obtain ⟨per, hper⟩ := n.dvd
  have hpos := n.pos
  have hpera : reconciliationBucketsPerSlice n = per := by
    rw [reconciliationBucketsPerSlice, hper, Nat.mul_div_cancel_left _ n.pos]
  have hperpos : 0 < per := by
    by_contra hzero
    obtain rfl : per = 0 := by omega
    cases hper
  have hlt : bucket.val / per < n.count := by
    refine Nat.div_lt_of_lt_mul ?_
    rw [Nat.mul_comm, ← hper]
    exact bucket.isLt
  unfold reconciliationBucketRange reconciliationSliceForBucket
  dsimp only
  rw [tmod_add_tmod, hpera, Nat.mod_eq_of_lt hlt]
  obtain ⟨m, hm⟩ : ∃ m : ℕ, s % n.count = m :=
    ⟨(s % n.count).toNat, (Int.toNat_of_nonneg (Int.emod_nonneg _ (by omega))).symm⟩
  rw [hm]
  norm_cast
  constructor
  · rintro ⟨hlow, hhigh⟩
    exact Nat.div_eq_of_lt_le hlow hhigh
  · intro heq
    subst heq
    exact ⟨Nat.div_mul_le_self _ _, by
      have := Nat.lt_div_mul_add (a := bucket.val) hperpos
      rw [Nat.add_mul]
      omega⟩

variable {P : Projection κ} {n : SliceCount} {batchSize : ℕ+} {p : Progress κ}

theorem mem_remaining {r : ProjectedIdentity κ} : r ∈ remaining P n p ↔
    r ∈ P.rows ∧ (reconciliationSliceForBucket r.bucket.val n : ℤ) = p.sliceIndex n ∧
      ∀ k ∈ p.cursor, k < r.identityKey := by
  have hrange := mem_range_iff (p.slice.tmod n.count) n r.bucket
  rw [tmod_emod] at hrange
  unfold remaining Progress.sliceIndex
  rw [← hrange]
  cases p.cursor <;> simp

theorem remaining_ordered : (remaining P n p).Pairwise fun a b => a.identityKey < b.identityKey :=
  P.ordered.filter _

/-- A batch that is not full ends its slice. -/
theorem runReconciliationSlice_of_short (h : (remaining P n p).length < batchSize) :
    runReconciliationSlice P n batchSize p =
      ⟨(p.slice.tmod n.count + 1).tmod n.count, none, p.completed + 1⟩ := by
  have hall : batch P n batchSize p = remaining P n p := take_of_length_le (by omega)
  unfold runReconciliationSlice nextReconciliationProgress
  rw [hall]
  split
  · rfl
  · rw [if_pos (by omega)]

/-- A full batch leaves the cursor on its last key. -/
theorem runReconciliationSlice_of_full (h : batchSize ≤ (remaining P n p).length) :
    ∃ front last, batch P n batchSize p = front ++ [last] ∧ runReconciliationSlice P n batchSize p =
        ⟨p.slice.tmod n.count, some last.identityKey, p.completed⟩ := by
  have hlength : (batch P n batchSize p).length = batchSize := by
    rw [batch, length_take]
    omega
  have hpos := batchSize.pos
  have hne : batch P n batchSize p ≠ [] := by
    intro hnil
    rw [hnil, length_nil] at hlength
    omega
  refine ⟨(batch P n batchSize p).dropLast, (batch P n batchSize p).getLast hne,
    (dropLast_append_getLast hne).symm, ?_⟩
  unfold runReconciliationSlice nextReconciliationProgress
  rw [getLast?_eq_some_getLast hne]
  dsimp only
  rw [if_neg (by omega)]

/-- After a full batch its slice has the rows after the batch left. -/
theorem remaining_of_full (h : batchSize ≤ (remaining P n p).length) :
    remaining P n (runReconciliationSlice P n batchSize p) = (remaining P n p).drop batchSize := by
  obtain ⟨front, last, hbatch, hnext⟩ := runReconciliationSlice_of_full h
  have hsplit : batch P n batchSize p ++ (remaining P n p).drop batchSize = remaining P n p :=
    take_append_drop _ _
  have hordered : (remaining P n p).Pairwise fun a b => a.identityKey < b.identityKey := remaining_ordered
  rw [← hsplit, hbatch] at hordered
  obtain ⟨hfront, -, hcross⟩ := pairwise_append.mp hordered
  -- What comes after the last key of the batch comes after the cursor before.
  have hcursor : ∀ k ∈ p.cursor, k < last.identityKey := by
    have hlast : last ∈ remaining P n p := by
      rw [← hsplit, hbatch]
      simp
    exact (mem_remaining.mp hlast).2.2
  have hfilter : remaining P n (runReconciliationSlice P n batchSize p) =
      (remaining P n p).filter fun r => last.identityKey < r.identityKey := by
    rw [hnext]
    unfold remaining
    rw [filter_filter]
    refine filter_congr fun r _ => ?_
    have htmod : (p.slice.tmod n.count).tmod n.count = p.slice.tmod n.count := Int.tmod_tmod _ _
    rw [htmod]
    cases hcase : p.cursor with
    | none => simp [Bool.and_comm]
    | some k =>
      have hk := hcursor k hcase
      by_cases hr : last.identityKey < r.identityKey
      · have hkr := hk.trans hr
        simp [hr, hkr]
      · simp [hr]
  have hbefore : ∀ r ∈ front ++ [last], ¬ last.identityKey < r.identityKey := by
    intro r hr
    rcases mem_append.mp hr with hr | hr
    · have hlt := (pairwise_append.mp hfront).2.2 r hr last mem_cons_self
      exact not_lt_of_gt hlt
    · rw [mem_singleton.mp hr]
      exact lt_irrefl _
  rw [hfilter]
  conv_lhs => rw [← hsplit, hbatch]
  rw [filter_append, filter_eq_nil_iff.mpr fun r hr => by simpa using hbefore r hr,
    nil_append, filter_eq_self]
  intro r hr
  exact decide_eq_true (hcross last (by simp) r hr)

theorem progressAfter_succ (runs : ℕ) : progressAfter P n batchSize p (runs + 1) =
    progressAfter P n batchSize (runReconciliationSlice P n batchSize p) runs :=
  Function.iterate_succ_apply _ _ _

theorem progressAfter_add (k runs : ℕ) : progressAfter P n batchSize p (k + runs) =
    progressAfter P n batchSize (progressAfter P n batchSize p k) runs := by
  rw [Nat.add_comm]
  exact Function.iterate_add_apply _ _ _ _

/-- A slice that a run completes: the next one starts from its beginning. -/
theorem completed_of_short (h : (remaining P n p).length < batchSize) :
    (runReconciliationSlice P n batchSize p).completed = p.completed + 1 ∧
      (runReconciliationSlice P n batchSize p).cursor = none ∧
      (runReconciliationSlice P n batchSize p).sliceIndex n = (p.sliceIndex n + 1) % n.count := by
  rw [runReconciliationSlice_of_short h]
  refine ⟨rfl, rfl, ?_⟩
  unfold Progress.sliceIndex
  rw [tmod_emod, Int.add_emod, tmod_emod, ← Int.add_emod, Int.emod_add_emod]

theorem completed_of_full (h : batchSize ≤ (remaining P n p).length) :
    (runReconciliationSlice P n batchSize p).completed = p.completed ∧
      (runReconciliationSlice P n batchSize p).sliceIndex n = p.sliceIndex n := by
  obtain ⟨front, last, -, hnext⟩ := runReconciliationSlice_of_full h
  rw [hnext]
  exact ⟨rfl, tmod_emod _ _⟩

/-- From any progress the slice is completed, after its rows that are left have been visited. -/
theorem exists_pass (batchSize : ℕ+) (p : Progress κ) : ∃ runs ≤ (remaining P n p).length,
    (progressAfter P n batchSize p (runs + 1)).completed = p.completed + 1 ∧
    (progressAfter P n batchSize p (runs + 1)).cursor = none ∧
    (progressAfter P n batchSize p (runs + 1)).sliceIndex n = (p.sliceIndex n + 1) % n.count ∧
    ∀ r ∈ remaining P n p, ∃ k, (progressAfter P n batchSize p k).completed = p.completed ∧
      r ∈ batch P n batchSize (progressAfter P n batchSize p k) := by
  -- Each full batch shortens what is left.
  induction hleft : (remaining P n p).length using Nat.strong_induction_on generalizing p with
  | _ left ih =>
    subst hleft
    by_cases hshort : (remaining P n p).length < batchSize
    · obtain ⟨hcompleted, hcursor, hslice⟩ := completed_of_short hshort
      refine ⟨0, Nat.zero_le _, hcompleted, hcursor, hslice, fun r hr => ⟨0, rfl, ?_⟩⟩
      have hall : batch P n batchSize p = remaining P n p := take_of_length_le (by omega)
      change r ∈ batch P n batchSize p
      rwa [hall]
    · have hfull : (batchSize : ℕ) ≤ (remaining P n p).length := by omega
      have hrest := remaining_of_full hfull
      obtain ⟨hsame, hindex⟩ := completed_of_full hfull
      have hlength : (remaining P n (runReconciliationSlice P n batchSize p)).length =
          (remaining P n p).length - batchSize := by
        rw [hrest, length_drop]
      have hpos := batchSize.pos
      obtain ⟨runs, hruns, hcompleted, hcursor, hslice, hvisited⟩ :=
        ih _ (by omega) (runReconciliationSlice P n batchSize p) rfl
      rw [hsame] at hcompleted hvisited
      rw [hindex] at hslice
      refine ⟨runs + 1, by omega, ?_, ?_, ?_, fun r hr => ?_⟩
      · rw [progressAfter_succ]
        exact hcompleted
      · rw [progressAfter_succ]
        exact hcursor
      · rw [progressAfter_succ]
        exact hslice
      · rw [← take_append_drop batchSize (remaining P n p), mem_append] at hr
        rcases hr with hr | hr
        · exact ⟨0, rfl, hr⟩
        · rw [← hrest] at hr
          obtain ⟨k, hk, hmem⟩ := hvisited r hr
          exact ⟨k + 1, by rw [progressAfter_succ]; exact hk, by rw [progressAfter_succ]; exact hmem⟩

theorem completed_le_run (p : Progress κ) :
    p.completed ≤ (runReconciliationSlice P n batchSize p).completed := by
  by_cases hshort : (remaining P n p).length < batchSize
  · rw [(completed_of_short hshort).1]
    omega
  · rw [(completed_of_full (by omega)).1]

/-- The number of completed slices never falls. -/
theorem completed_le (p : Progress κ) (runs : ℕ) :
    p.completed ≤ (progressAfter P n batchSize p runs).completed := by
  induction runs generalizing p with
  | zero => exact Nat.le_refl _
  | succ runs ih =>
    rw [progressAfter_succ]
    exact (completed_le_run p).trans (ih _)

/-- Within the pass of a slice the batches follow each other. -/
theorem remaining_of_same_pass {runs : ℕ}
    (h : (progressAfter P n batchSize p runs).completed = p.completed) :
    remaining P n (progressAfter P n batchSize p runs) = (remaining P n p).drop (runs * batchSize) := by
  induction runs generalizing p with
  | zero => simp [progressAfter]
  | succ runs ih =>
    rw [progressAfter_succ] at h ⊢
    have hle : (runReconciliationSlice P n batchSize p).completed ≤ p.completed :=
      h ▸ completed_le _ runs
    have hfull : (batchSize : ℕ) ≤ (remaining P n p).length := by
      by_contra hshort
      have hnext : (runReconciliationSlice P n batchSize p).completed = p.completed + 1 :=
        (completed_of_short (by omega)).1
      omega
    rw [ih (h.trans (completed_of_full hfull).1.symm), remaining_of_full hfull, drop_drop]
    congr 1
    rw [Nat.succ_mul]
    omega

theorem disjoint_of_same_pass {runs : ℕ} (hruns : 0 < runs)
    (h : (progressAfter P n batchSize p runs).completed = p.completed) :
    ∀ r ∈ batch P n batchSize p, r ∉ batch P n batchSize (progressAfter P n batchSize p runs) := by
  intro r hr hagain
  have hlater := mem_of_mem_take hagain
  rw [remaining_of_same_pass h] at hlater
  have hfar : (batchSize : ℕ) ≤ runs * batchSize := Nat.le_mul_of_pos_left _ hruns
  have hdrop : r ∈ (remaining P n p).drop batchSize := by
    have hsub : ((remaining P n p).drop (runs * batchSize)).Sublist ((remaining P n p).drop batchSize) := by
      rw [show runs * (batchSize : ℕ) = batchSize + (runs * batchSize - batchSize) by omega,
        ← drop_drop]
      exact drop_sublist _ _
    exact hsub.subset hlater
  have hordered : (remaining P n p).Pairwise fun a b => a.identityKey < b.identityKey := remaining_ordered
  rw [← take_append_drop batchSize (remaining P n p), pairwise_append] at hordered
  exact lt_irrefl _ (hordered.2.2 r hr r hdrop)

/-- After the starting slice the slices are completed in turn. -/
theorem exists_rotation (batchSize : ℕ+) (p : Progress κ) (turns : ℕ) : ∃ runs,
    (progressAfter P n batchSize p runs).completed = p.completed + 1 + turns ∧
    (progressAfter P n batchSize p runs).cursor = none ∧
    (progressAfter P n batchSize p runs).sliceIndex n = (p.sliceIndex n + 1 + turns) % n.count := by
  induction turns with
  | zero =>
    obtain ⟨runs, -, hcompleted, hcursor, hslice, -⟩ := exists_pass batchSize p
    exact ⟨runs + 1, hcompleted, hcursor, by simpa using hslice⟩
  | succ turns ih =>
    obtain ⟨runs, hcompleted, -, hslice⟩ := ih
    obtain ⟨more, -, hcompleted', hcursor', hslice', -⟩ :=
      exists_pass batchSize (progressAfter P n batchSize p runs)
    refine ⟨runs + (more + 1), ?_, ?_, ?_⟩
    · rw [progressAfter_add, hcompleted', hcompleted]
      omega
    · rw [progressAfter_add]
      exact hcursor'
    · rw [progressAfter_add, hslice', hslice, Int.emod_add_emod]
      congr 1
      push_cast
      omega

/-- Each row is visited in one of the passes of the rotation after the starting slice. -/
theorem exists_visit (p : Progress κ) {r : ProjectedIdentity κ} (hr : r ∈ P.rows) : ∃ runs,
    r ∈ batch P n batchSize (progressAfter P n batchSize p runs) ∧
    p.completed + 1 ≤ (progressAfter P n batchSize p runs).completed ∧
    (progressAfter P n batchSize p runs).completed ≤ p.completed + n.count := by
  have hpos := n.pos
  have hcount : (0 : ℤ) < n.count := by exact_mod_cast hpos
  -- The turn at which the slice of the row comes.
  obtain ⟨turns, hturns⟩ : ∃ turns : ℕ, (turns : ℤ) =
      ((reconciliationSliceForBucket r.bucket.val n : ℤ) - (p.sliceIndex n + 1)) % n.count :=
    ⟨_, Int.toNat_of_nonneg (Int.emod_nonneg _ (by omega))⟩
  have hlt : turns < n.count := by
    have := Int.emod_lt_of_pos ((reconciliationSliceForBucket r.bucket.val n : ℤ) - (p.sliceIndex n + 1)) hcount
    omega
  have hslice : (p.sliceIndex n + 1 + turns) % n.count = reconciliationSliceForBucket r.bucket.val n := by
    have hbucket : reconciliationSliceForBucket r.bucket.val n < n.count := Nat.mod_lt _ hpos
    rw [hturns, Int.add_emod_emod, Int.emod_eq_of_lt (by omega) (by omega)]
    omega
  obtain ⟨runs, hcompleted, hcursor, hindex⟩ := exists_rotation (P := P) batchSize p turns
  have hleft : r ∈ remaining P n (progressAfter P n batchSize p runs) := by
    refine mem_remaining.mpr ⟨hr, ?_, ?_⟩
    · rw [hindex, hslice]
    · rw [hcursor]
      nofun
  obtain ⟨-, -, -, -, -, hvisited⟩ := exists_pass batchSize (progressAfter P n batchSize p runs)
  obtain ⟨k, hsame, hmem⟩ := hvisited r hleft
  rw [← progressAfter_add] at hsame hmem
  exact ⟨runs + k, hmem, by omega, by omega⟩

/-- From every progress each row is visited within one rotation after the starting slice; every slice
is completed after at most one run more than it has rows left, and then comes the next one; and no row
is visited twice before its slice is completed. -/
theorem reconciliation_visits (P : Projection κ) (n : SliceCount) (batchSize : ℕ+) (p : Progress κ) :
    (∀ r ∈ P.rows, ∃ runs, r ∈ batch P n batchSize (progressAfter P n batchSize p runs) ∧
      p.completed + 1 ≤ (progressAfter P n batchSize p runs).completed ∧
      (progressAfter P n batchSize p runs).completed ≤ p.completed + n.count) ∧
    (∀ runs, ∃ more ≤ P.rows.length, (progressAfter P n batchSize p (runs + more + 1)).completed =
        (progressAfter P n batchSize p runs).completed + 1 ∧
      (progressAfter P n batchSize p (runs + more + 1)).sliceIndex n =
        ((progressAfter P n batchSize p runs).sliceIndex n + 1) % n.count) ∧
    ∀ runs, (batch P n batchSize (progressAfter P n batchSize p runs)).Nodup ∧
      ∀ later, runs < later → (progressAfter P n batchSize p later).completed =
          (progressAfter P n batchSize p runs).completed →
        ∀ r ∈ batch P n batchSize (progressAfter P n batchSize p runs),
          r ∉ batch P n batchSize (progressAfter P n batchSize p later) := by
  refine ⟨fun r hr => exists_visit p hr, fun runs => ?_, fun runs => ⟨?_, fun later hlater hsame => ?_⟩⟩
  · obtain ⟨more, hmore, hcompleted, -, hslice, -⟩ :=
      exists_pass batchSize (progressAfter P n batchSize p runs)
    refine ⟨more, hmore.trans (length_filter_le _ _), ?_, ?_⟩
    · rw [Nat.add_assoc, progressAfter_add]
      exact hcompleted
    · rw [Nat.add_assoc, progressAfter_add]
      exact hslice
  · refine List.Nodup.sublist (take_sublist _ _) ?_
    refine remaining_ordered.imp fun {a b} hlt heq => ?_
    subst heq
    exact lt_irrefl _ hlt
  · obtain ⟨k, rfl⟩ := Nat.exists_eq_add_of_lt hlater
    rw [Nat.add_assoc, progressAfter_add] at hsame ⊢
    exact disjoint_of_same_pass (by omega) hsame

end projection

end TalonHound.Reconciliation
