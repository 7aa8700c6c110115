import Mathlib.Data.List.Basic

/-!
# Lists read and written by index

Parties and processes are the elements of a list, known by their indices: what a list holds at an
index after one element was replaced or a new one joined, and what keeps at most one of them in
possession of something.
-/

namespace Indexed

variable {α : Type*} {l : List α} {n m : ℕ} {a b : α}

/-- The element at an index after another one was set there. -/
theorem getElem?_set_cases (h : (l.set n b)[m]? = some a) :
    (m = n ∧ a = b) ∨ (m ≠ n ∧ l[m]? = some a) := by
  rw [List.getElem?_set] at h
  split at h
  · next hnm =>
    split at h
    · exact .inl ⟨hnm.symm, (Option.some.inj h).symm⟩
    · cases h
  · next hnm => exact .inr ⟨fun hmn => hnm hmn.symm, h⟩

theorem getElem?_set_self (h : l[n]? = some a) : (l.set n b)[n]? = some b := by
  have hlt := (List.getElem?_eq_some_iff.mp h).1
  rw [List.getElem?_set, if_pos rfl, if_pos hlt]

/-- The element at an index after a new one joined. -/
theorem getElem?_append_cases (h : (l ++ [b])[m]? = some a) :
    (m = l.length ∧ a = b) ∨ l[m]? = some a := by
  rw [List.getElem?_append] at h
  split at h
  · exact .inr h
  · obtain ⟨hzero, heq⟩ := List.getElem?_eq_some_iff.mp h
    rw [List.length_singleton] at hzero
    refine .inl ⟨by omega, ?_⟩
    rw [← heq]
    simp

theorem getElem?_append_of (h : l[m]? = some a) : (l ++ [b])[m]? = some a := by
  have hlt := (List.getElem?_eq_some_iff.mp h).1
  rw [List.getElem?_append_left hlt]
  exact h

/-- At most one element of the list has the property. -/
def Exclusive (p : α → Bool) (l : List α) : Prop :=
  ∀ (i : ℕ) (a : α) (j : ℕ) (b : α), l[i]? = some a → l[j]? = some b → p a → p b → i = j

variable {p : α → Bool}

theorem exclusive_nil : Exclusive p [] := by
  intro i a j b hi
  simp at hi

/-- None of the others has the property. -/
theorem Exclusive.others (h : Exclusive p l) (hn : l[n]? = some a) (ha : p a) :
    ∀ (j : ℕ) (b : α), l[j]? = some b → j ≠ n → p b = false := by
  intro j b hj hne
  exact Bool.eq_false_iff.mpr fun hb => hne (h j b n a hj hn hb ha)

/-- Whatever the only element becomes, it is the only one. -/
theorem exclusive_set (hothers : ∀ (j : ℕ) (a : α), l[j]? = some a → j ≠ n → p a = false) :
    Exclusive p (l.set n b) := by
  have hi {i : ℕ} {a : α} (hi : (l.set n b)[i]? = some a) (ha : p a) : i = n := by
    rcases getElem?_set_cases hi with ⟨rfl, -⟩ | ⟨hne, hold⟩
    · rfl
    · simp [hothers i a hold hne] at ha
  intro i a j c h h' ha hc
  rw [hi h ha, hi h' hc]

theorem Exclusive.set_of_not (h : Exclusive p l) (hb : p b = false) : Exclusive p (l.set n b) := by
  intro i a j c hi hj ha hc
  rcases getElem?_set_cases hi with ⟨rfl, rfl⟩ | ⟨-, hold⟩
  · simp [hb] at ha
  · rcases getElem?_set_cases hj with ⟨rfl, rfl⟩ | ⟨-, hold'⟩
    · simp [hb] at hc
    · exact h i a j c hold hold' ha hc

/-- An element may change without gaining the property. -/
theorem Exclusive.set_of_imp (h : Exclusive p l) (hn : l[n]? = some a) (hab : p b → p a) :
    Exclusive p (l.set n b) := by
  cases hb : p b with
  | false => exact h.set_of_not hb
  | true => exact exclusive_set (h.others hn (hab hb))

theorem Exclusive.append (h : Exclusive p l) (hb : p b = false) : Exclusive p (l ++ [b]) := by
  intro i a j c hi hj ha hc
  rcases getElem?_append_cases hi with ⟨-, rfl⟩ | hold
  · simp [hb] at ha
  · rcases getElem?_append_cases hj with ⟨-, rfl⟩ | hold'
    · simp [hb] at hc
    · exact h i a j c hold hold' ha hc

end Indexed
