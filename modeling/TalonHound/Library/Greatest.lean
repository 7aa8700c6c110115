import Mathlib.Data.List.MinMax

/-!
# Equal greatest values

When two tables have the same greatest value, which is all that a digest of the form
`MAX(column)` keeps of a column: exactly when they exceed the same bounds.
-/

namespace Greatest

open List

variable {α : Type*} [LinearOrder α]

/-- The greatest value is as large as some value of the list. -/
theorem le_max?_iff {xs : List α} {b : α} : (∃ m ∈ xs.max?, b ≤ m) ↔ ∃ x ∈ xs, b ≤ x := by
  constructor
  · rintro ⟨m, hm, hle⟩
    exact ⟨m, (max?_eq_some_iff.mp hm).1, hle⟩
  · rintro ⟨x, hx, hle⟩
    cases hmax : xs.max? with
    | none =>
      obtain rfl := max?_eq_none_iff.mp hmax
      cases hx
    | some m =>
      have hm := (max?_eq_some_iff.mp hmax).2 x hx
      exact ⟨m, rfl, hle.trans hm⟩

/-- Optional values are equal when they are above the same bounds. -/
theorem option_eq_iff {o p : Option α} :
    o = p ↔ ∀ b, (∃ m ∈ o, b ≤ m) ↔ ∃ m ∈ p, b ≤ m := by
  constructor
  · rintro rfl b
    rfl
  · intro h
    cases o with
    | none =>
      cases p with
      | none => rfl
      | some n =>
        obtain ⟨m, hm, _⟩ := (h n).mpr ⟨n, rfl, le_rfl⟩
        cases hm
    | some m =>
      obtain ⟨n, hn, hmn⟩ := (h m).mp ⟨m, rfl, le_rfl⟩
      obtain ⟨m', hm', hnm⟩ := (h n).mpr ⟨n, hn, le_rfl⟩
      cases hm'
      rw [Option.mem_def.mp hn, le_antisymm hmn hnm]

/-- The greater of two optional values exceeds what one of them exceeds. -/
theorem le_max_iff_of_option {o p : Option α} {b : α} :
    (∃ m ∈ max o p, b ≤ m) ↔ (∃ m ∈ o, b ≤ m) ∨ ∃ m ∈ p, b ≤ m := by
  cases o with
  | none => cases p <;> simp
  | some m =>
    cases p with
    | none => simp
    | some n => simp

/-- Two lists have the same greatest value exactly when they exceed the same bounds. -/
theorem max?_eq_iff {xs ys : List α} :
    xs.max? = ys.max? ↔ ∀ b, (∃ x ∈ xs, b ≤ x) ↔ ∃ y ∈ ys, b ≤ y := by
  rw [option_eq_iff]
  simp only [le_max?_iff]

end Greatest
