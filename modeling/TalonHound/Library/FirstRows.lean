import TalonHound.Library.DistinctOn

/-!
# The first rows of their keys

A loop over sorted rows that skips the keys it has seen keeps the first row of every key. On
rows that are strictly sorted these are the leaders of their groups.
-/

namespace FirstRows

open List

variable {ρ κ : Type*} [DecidableEq κ] {key : ρ → κ} {rows more : List ρ} {r : ρ}

/-- The rows whose key no earlier row has. -/
def firstRows (key : ρ → κ) : List ρ → List ρ
  | [] => []
  | r :: rows => r :: (firstRows key rows).filter fun s => decide (key s ≠ key r)

/-- The loop: it keeps the rows with keys not seen, and stops when it has `need` rows. -/
def collect (key : ρ → κ) (need : ℕ) : List ρ → List κ → List ρ → List ρ
  | unique, _, [] => unique
  | unique, seen, r :: rows =>
    if key r ∈ seen then collect key need unique seen rows
    else
      let unique := unique ++ [r]
      if need ≤ unique.length then unique
      else collect key need unique (key r :: seen) rows

theorem firstRows_sublist (key : ρ → κ) (rows : List ρ) : (firstRows key rows).Sublist rows := by
  induction rows with
  | nil => exact List.Sublist.slnil
  | cons r rows ih => exact (filter_sublist.trans ih).cons_cons r

/-- No key is kept twice. -/
theorem nodup_firstRows_keys (key : ρ → κ) (rows : List ρ) :
    ((firstRows key rows).map key).Nodup := by
  induction rows with
  | nil => exact nodup_nil
  | cons r rows ih =>
    rw [firstRows, map_cons, nodup_cons]
    constructor
    · intro hmem
      obtain ⟨s, hs, hkey⟩ := mem_map.mp hmem
      exact of_decide_eq_true (mem_filter.mp hs).2 hkey
    · exact ih.sublist (filter_sublist.map key)

/-- Every key is kept. -/
theorem exists_mem_firstRows (hr : r ∈ rows) : ∃ s ∈ firstRows key rows, key s = key r := by
  induction rows with
  | nil => cases hr
  | cons a rows ih =>
    by_cases hkey : key a = key r
    · exact ⟨a, mem_cons_self, hkey⟩
    · rcases mem_cons.mp hr with rfl | hr
      · exact absurd rfl hkey
      · obtain ⟨s, hs, hskey⟩ := ih hr
        refine ⟨s, mem_cons_of_mem _ (mem_filter.mpr ⟨hs, decide_eq_true ?_⟩), hskey⟩
        rw [hskey]
        exact Ne.symm hkey

/-- More rows at the end leave the kept rows in front. -/
theorem firstRows_prefix (key : ρ → κ) (rows more : List ρ) :
    firstRows key rows <+: firstRows key (rows ++ more) := by
  induction rows with
  | nil => exact nil_prefix
  | cons r rows ih =>
    rw [cons_append, firstRows, firstRows, prefix_cons_inj]
    exact ih.filter _

/-- Keys that tell the same rows apart keep the same rows. -/
theorem firstRows_congr {κ' : Type*} [DecidableEq κ'] {key' : ρ → κ'}
    (h : ∀ r ∈ rows, ∀ s ∈ rows, key s = key r ↔ key' s = key' r) :
    firstRows key rows = firstRows key' rows := by
  induction rows with
  | nil => rfl
  | cons a rows ih =>
    rw [firstRows, firstRows, ih fun r hr s hs =>
      h r (.tail _ hr) s (.tail _ hs)]
    congr 1
    apply filter_congr
    intro s hs
    have hs : s ∈ rows := (firstRows_sublist key' rows).subset hs
    have hsame := h a mem_cons_self s (.tail _ hs)
    exact decide_eq_decide.mpr (not_congr hsame)

/-- The first rows of strictly sorted rows lead their groups. -/
theorem firstRows_eq_distinctOn {before : ρ → ρ → Bool}
    (hsorted : rows.Pairwise fun r s => before s r = false ∧ before r s = true)
    (hirrefl : ∀ r ∈ rows, before r r = false) :
    firstRows key rows = DistinctOn.distinctOn key before rows := by
  induction rows with
  | nil => rfl
  | cons a rows ih =>
    obtain ⟨ha, hsorted⟩ := pairwise_cons.mp hsorted
    have ih := ih hsorted fun r hr => hirrefl r (.tail _ hr)
    have hlead : DistinctOn.leads key before (a :: rows) a = true := by
      rw [DistinctOn.leads_iff]
      intro s hs _
      rcases mem_cons.mp hs with rfl | hs
      · exact hirrefl s mem_cons_self
      · exact (ha s hs).1
    rw [firstRows, ih]
    unfold DistinctOn.distinctOn
    rw [filter_cons_of_pos hlead, filter_filter]
    congr 1
    apply filter_congr
    intro s hs
    rw [Bool.eq_iff_iff, Bool.and_eq_true, DistinctOn.leads_iff, DistinctOn.leads_iff,
      decide_eq_true_eq]
    constructor
    · rintro ⟨hkey, hlead⟩ t ht htkey
      rcases mem_cons.mp ht with rfl | ht
      · exact absurd htkey.symm hkey
      · exact hlead t ht htkey
    · intro hlead
      refine ⟨?_, fun t ht => hlead t (.tail _ ht)⟩
      intro hkey
      have hbefore := hlead a mem_cons_self hkey.symm
      rw [(ha s hs).2] at hbefore
      cases hbefore

/-- What the loop has still to add. -/
theorem collect_eq {need : ℕ} {unique : List ρ} {seen : List κ} (hneed : unique.length < need) :
    collect key need unique seen rows =
      (unique ++ (firstRows key rows).filter fun s => decide (key s ∉ seen)).take need := by
  induction rows generalizing unique seen with
  | nil =>
    rw [collect, firstRows, filter_nil, append_nil, take_of_length_le (by omega)]
  | cons r rows ih =>
    rw [collect, firstRows]
    by_cases hseen : key r ∈ seen
    · rw [if_pos hseen, ih hneed, filter_cons_of_neg (by simpa using hseen), filter_filter]
      congr 2
      apply filter_congr
      intro s _
      by_cases hkey : key s = key r
      · simp [hkey, hseen]
      · simp [hkey]
    · rw [if_neg hseen, filter_cons, if_pos (decide_eq_true hseen), filter_filter]
      have hrest : (firstRows key rows).filter (fun s => decide (key s ∉ seen) &&
          decide (key s ≠ key r)) =
          (firstRows key rows).filter fun s => decide (key s ∉ key r :: seen) := by
        apply filter_congr
        intro s _
        simp [Bool.and_comm]
      rw [hrest, append_cons unique r ((firstRows key rows).filter _)]
      by_cases hfull : need ≤ (unique ++ [r]).length
      · have hlength : (unique ++ [r]).length = need := by
          rw [length_append, length_singleton] at hfull ⊢
          omega
        rw [if_pos hfull, ← hlength, take_left]
      · rw [if_neg hfull, ih (Nat.lt_of_not_le hfull)]

/-- The loop from the start, for at least one row. -/
theorem collect_nil {need : ℕ} (hneed : 0 < need) :
    collect key need [] [] rows = (firstRows key rows).take need := by
  rw [collect_eq hneed, nil_append]
  congr 1
  apply filter_eq_self.mpr
  intro s _
  simp

end FirstRows
