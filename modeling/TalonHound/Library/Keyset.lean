import Mathlib.Data.List.Basic
import Mathlib.Order.Lattice

/-!
# Keyset pages

Rows in descending order of a key, read page by page: a page starts below a bound that the last
row of the page before gives. The bound may lie below the key of that row, and then the rows in
between are never read.
-/

namespace Keyset

variable {ρ κ : Type*} [LinearOrder κ] {key : ρ → κ} {front rest rows : List ρ} {last : ρ} {c d : κ}

/-- The rows below a bound. -/
def below (key : ρ → κ) (c : κ) (rows : List ρ) : List ρ := rows.filter fun r => key r < c

/-- The rows are in descending order. -/
def Descending (key : ρ → κ) (rows : List ρ) : Prop := rows.Pairwise fun r s => key s ≤ key r

theorem below_sublist : (below key c rows).Sublist rows := List.filter_sublist

/-- A lower bound cuts below a higher one. -/
theorem below_below (h : c ≤ d) : below key c (below key d rows) = below key c rows := by
  unfold below
  rw [List.filter_filter]
  congr 1
  funext r
  simp only [Bool.and_eq_decide, decide_eq_decide, decide_eq_true_eq, and_iff_left_iff_imp]
  exact fun hlt => lt_of_lt_of_le hlt h

/-- What a bound at a row or under it leaves comes after the row. -/
theorem below_append (h : Descending key (front ++ last :: rest)) (hc : c ≤ key last) :
    below key c (front ++ last :: rest) = below key c rest := by
  obtain ⟨-, -, hcross⟩ := List.pairwise_append.mp h
  have hfront : below key c front = [] := by
    refine List.filter_eq_nil_iff.mpr fun r hr => ?_
    have hle := hcross r hr last List.mem_cons_self
    simpa using hc.trans hle
  have hlast : ¬ key last < c := not_lt.mpr hc
  unfold below at *
  rw [List.filter_append, hfront, List.nil_append, List.filter_cons_of_neg (by simpa using hlast)]

/-- A bound leaves all rows as long as it leaves the first. -/
theorem below_eq_self (h : Descending key rows) :
    below key c rows = rows ↔ ∀ next ∈ rows.head?, key next < c := by
  cases rows with
  | nil => simp [below]
  | cons next rows =>
    have hnext : (∀ r ∈ (next :: rows).head?, key r < c) ↔ key next < c := by simp
    rw [hnext]
    constructor
    · intro heq
      have hmem : next ∈ below key c (next :: rows) := by
        rw [heq]
        exact List.mem_cons_self
      simpa using (List.mem_filter.mp hmem).2
    · intro hlt
      refine List.filter_eq_self.mpr fun r hr => ?_
      rcases List.mem_cons.mp hr with rfl | hr
      · simpa using hlt
      · have hle := (List.pairwise_cons.mp h).1 r hr
        simpa using lt_of_le_of_lt hle hlt

end Keyset
