import Mathlib.Data.List.Basic

/-!
# Texts

Facts about lists of characters that stand for texts.
-/

namespace Texts

open List

/-- A condition on the characters of a text is decided from the text. Without this, all characters
there are would be tried. -/
instance (priority := high) decidableForallMem (a : List Char) (p : Char → Prop)
    [DecidablePred p] : Decidable (∀ c ∈ a, p c) := List.decidableBAll p a

instance (priority := high) decidableForallMemOption (a : Option Char) (p : Char → Prop)
    [DecidablePred p] : Decidable (∀ c ∈ a, p c) :=
  decidable_of_iff (∀ c ∈ a.toList, p c) (by simp)

variable {α : Type*} {c : α} {a b x y : List α}

/-- The first separator of a text ends what stands before it. -/
theorem append_separator_inj (ha : c ∉ a) (hb : c ∉ b) (h : a ++ c :: x = b ++ c :: y) :
    a = b ∧ x = y := by
  induction a generalizing b with
  | nil =>
    cases b with
    | nil => exact ⟨rfl, (List.cons.inj h).2⟩
    | cons d b =>
      rw [nil_append, cons_append, List.cons.injEq] at h
      exact absurd (h.1 ▸ mem_cons_self) hb
  | cons d a ih =>
    cases b with
    | nil =>
      rw [nil_append, cons_append, List.cons.injEq] at h
      exact absurd (h.1 ▸ mem_cons_self) ha
    | cons e b =>
      rw [cons_append, cons_append, List.cons.injEq] at h
      obtain ⟨rfl, h⟩ := h
      obtain ⟨rfl, rfl⟩ := ih (fun hmem => ha (.tail _ hmem)) (fun hmem => hb (.tail _ hmem)) h
      exact ⟨rfl, rfl⟩

variable {p : α → Bool}

/-- A run of a class is a front of the longest run there. -/
theorem append_run_prefix (ha : ∀ d ∈ a, p d = true) (hy : ∀ d ∈ y.head?, p d = false)
    (h : a ++ x = b ++ y) : ∃ s, b = a ++ s ∧ x = s ++ y := by
  induction a generalizing b with
  | nil => exact ⟨b, rfl, h⟩
  | cons d a ih =>
    cases b with
    | nil =>
      rw [nil_append, cons_append] at h
      rw [← h] at hy
      have hd := hy d rfl
      rw [ha d mem_cons_self] at hd
      cases hd
    | cons e b =>
      rw [cons_append, cons_append, List.cons.injEq] at h
      obtain ⟨rfl, h⟩ := h
      obtain ⟨s, rfl, hx⟩ := ih (fun e he => ha e (.tail _ he)) h
      exact ⟨s, rfl, hx⟩

/-- Two longest runs of a class are the same. -/
theorem append_run_inj (ha : ∀ d ∈ a, p d = true) (hb : ∀ d ∈ b, p d = true)
    (hx : ∀ d ∈ x.head?, p d = false) (hy : ∀ d ∈ y.head?, p d = false) (h : a ++ x = b ++ y) :
    a = b ∧ x = y := by
  obtain ⟨s, rfl, rfl⟩ := append_run_prefix ha hy h
  cases s with
  | nil => exact ⟨(append_nil a).symm, rfl⟩
  | cons d s =>
    have hd := hx d rfl
    rw [hb d (mem_append_right _ mem_cons_self)] at hd
    cases hd

end Texts
