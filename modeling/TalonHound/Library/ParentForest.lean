import Mathlib.Data.List.Nodup
import Mathlib.Data.List.Perm.Subperm

/-!
# Parent pointers

Elements that may point at a parent, as tombstones point at what they were merged into.
The pointers form a forest when following them from any element ends in an element
without one, its root. Linking a root under another root keeps a forest and moves
exactly the elements of the linked root.
-/

variable {α : Type*}

/-- Following `n` pointers from the first element ends in the second, which has none. -/
inductive LeadsTo (parent : α → Option α) : ℕ → α → α → Prop
  | root {a : α} (h : parent a = none) : LeadsTo parent 0 a a
  | step {n : ℕ} {a b r : α} (h : parent a = some b) (hrest : LeadsTo parent n b r) :
      LeadsTo parent (n + 1) a r

/-- Every chain of pointers ends. -/
def Forest (parent : α → Option α) : Prop := ∀ a, ∃ n r, LeadsTo parent n a r

/-- Let `d` point at `c`. -/
def linkUnder [DecidableEq α] (parent : α → Option α) (d c : α) : α → Option α :=
  Function.update parent d (some c)

namespace LeadsTo

variable {parent : α → Option α} {n m : ℕ} {a b r r' : α}

/-- A chain ends in a root. -/
theorem isRoot (h : LeadsTo parent n a r) : parent r = none := by
  induction h with
  | root h => exact h
  | step _ _ ih => exact ih

/-- The chain of an element is unique. -/
theorem unique (h : LeadsTo parent n a r) (h' : LeadsTo parent m a r') : n = m ∧ r = r' := by
  induction h generalizing m with
  | root h =>
    cases h' with
    | root => exact ⟨rfl, rfl⟩
    | step hb => rw [h] at hb; cases hb
  | step hb hrest ih =>
    cases h' with
    | root h => rw [hb] at h; cases h
    | step hb' hrest' =>
      obtain rfl := Option.some.inj (hb.symm.trans hb')
      obtain ⟨rfl, rfl⟩ := ih hrest'
      exact ⟨rfl, rfl⟩

/-- A root leads to itself. -/
theorem of_root (h : parent a = none) (hr : LeadsTo parent n a r) : n = 0 ∧ r = a :=
  hr.unique (.root h)

/-- An element that points at a parent is at least one step away from its root. -/
theorem pos (h : parent a = some b) (ha : LeadsTo parent n a r) :
    ∃ k, n = k + 1 ∧ LeadsTo parent k b r := by
  cases ha with
  | root h' => rw [h] at h'; cases h'
  | step hb hrest =>
    obtain rfl := Option.some.inj (h.symm.trans hb)
    exact ⟨_, rfl, hrest⟩

/-- A chain passes through distinct elements, each closer to the root than the one before. -/
theorem exists_path (h : LeadsTo parent n a r) :
    ∃ path : List α, path.length = n ∧ path.Nodup ∧
      ∀ b ∈ path, parent b ≠ none ∧ ∃ k, 0 < k ∧ k ≤ n ∧ LeadsTo parent k b r := by
  induction h with
  | root => exact ⟨[], rfl, List.nodup_nil, nofun⟩
  | @step n a b r hab hrest ih =>
    obtain ⟨path, hlength, hnodup, hpath⟩ := ih
    have hchain : LeadsTo parent (n + 1) a r := .step hab hrest
    have hfresh : a ∉ path := by
      intro ha
      obtain ⟨-, k, -, hk, hlead⟩ := hpath a ha
      have := (hchain.unique hlead).1
      omega
    refine ⟨a :: path, by simp [hlength], List.nodup_cons.mpr ⟨hfresh, hnodup⟩, ?_⟩
    intro c hc
    rcases List.mem_cons.mp hc with rfl | hc
    · exact ⟨by rw [hab]; exact nofun, n + 1, by omega, Nat.le_refl _, hchain⟩
    · obtain ⟨hne, k, hpos, hk, hlead⟩ := hpath c hc
      exact ⟨hne, k, hpos, by omega, hlead⟩

/-- A chain is no longer than a list of all elements with a parent. -/
theorem length_le {tombstones : List α} (h : LeadsTo parent n a r)
    (hall : ∀ b, parent b ≠ none → b ∈ tombstones) : n ≤ tombstones.length := by
  obtain ⟨path, rfl, hnodup, hpath⟩ := h.exists_path
  exact (hnodup.subperm fun b hb => hall b (hpath b hb).1).length_le

variable [DecidableEq α] {c d : α}

/-- After `d` was linked under `c`, a chain that ended in `d` ends in `c`, and no other
chain changes. -/
theorem link (h : LeadsTo parent n a r) (hd : parent d = none) (hc : parent c = none)
    (hne : c ≠ d) :
    LeadsTo (linkUnder parent d c) (if r = d then n + 1 else n) a (if r = d then c else r) := by
  have hroot : ∀ {x : α}, x ≠ d → linkUnder parent d c x = parent x := fun hx =>
    Function.update_of_ne hx _ _
  induction h with
  | @root a ha =>
    by_cases had : a = d
    · subst had
      rw [if_pos rfl, if_pos rfl]
      exact .step (Function.update_self ..) (.root (by rw [hroot hne, hc]))
    · rw [if_neg had, if_neg had]
      exact .root (by rw [hroot had, ha])
  | @step n a b r hab hrest ih =>
    have had : a ≠ d := by
      rintro rfl
      rw [hd] at hab
      cases hab
    have hlink : linkUnder parent d c a = some b := by rw [hroot had, hab]
    by_cases hr : r = d
    · simp only [hr, if_true] at ih ⊢
      exact .step hlink ih
    · simp only [hr, if_false] at ih ⊢
      exact .step hlink ih

/-- A chain after `d` was linked under `c` comes from one before. -/
theorem of_link (h : LeadsTo (linkUnder parent d c) n a r) (hd : parent d = none)
    (hc : parent c = none) (hne : c ≠ d) :
    ∃ m r₀, LeadsTo parent m a r₀ ∧ r = if r₀ = d then c else r₀ := by
  have hroot : ∀ {x : α}, x ≠ d → linkUnder parent d c x = parent x := fun hx =>
    Function.update_of_ne hx _ _
  have hcroot : linkUnder parent d c c = none := by rw [hroot hne, hc]
  induction h with
  | @root a ha =>
    have had : a ≠ d := by
      rintro rfl
      rw [linkUnder, Function.update_self] at ha
      cases ha
    exact ⟨0, a, .root (by rwa [← hroot had]), (if_neg had).symm⟩
  | @step n a b r hab hrest ih =>
    by_cases had : a = d
    · subst had
      rw [linkUnder, Function.update_self] at hab
      cases hab
      obtain ⟨-, rfl⟩ := hrest.of_root hcroot
      exact ⟨0, a, .root hd, (if_pos rfl).symm⟩
    · obtain ⟨m, r₀, hlead, hr⟩ := ih
      exact ⟨m + 1, r₀, .step (by rwa [← hroot had]) hlead, hr⟩

end LeadsTo

namespace Forest

variable {parent : α → Option α}

/-- No chain of pointers returns to its start. -/
theorem acyclic (h : Forest parent) (a : α) :
    ¬ Relation.TransGen (fun x y => parent x = some y) a a := by
  have hdown : ∀ {x y : α}, Relation.TransGen (fun x y => parent x = some y) x y →
      ∀ {n m : ℕ} {r r' : α}, LeadsTo parent n x r → LeadsTo parent m y r' → m < n := by
    intro x y hxy
    induction hxy with
    | single hstep =>
      intro n m r r' hx hy
      obtain ⟨k, rfl, hrest⟩ := hx.pos hstep
      have := (hrest.unique hy).1
      omega
    | tail _ hstep ih =>
      intro n m r r' hx hy
      have := ih hx (.step hstep hy)
      omega
  intro hcycle
  obtain ⟨n, r, hlead⟩ := h a
  have := hdown hcycle hlead hlead
  omega

/-- Dropping pointers keeps a forest. -/
theorem of_le {parent' : α → Option α} (h : Forest parent)
    (hle : ∀ a b, parent' a = some b → parent a = some b) : Forest parent' := by
  intro a
  obtain ⟨n, r, hlead⟩ := h a
  induction hlead with
  | @root a hnone =>
    refine ⟨0, a, .root ?_⟩
    by_contra hsome
    obtain ⟨b, hb⟩ := Option.ne_none_iff_exists'.mp hsome
    rw [hle a b hb] at hnone
    cases hnone
  | @step n a b r hab _ ih =>
    obtain ⟨k, r', hrest⟩ := ih
    cases hb : parent' a with
    | none => exact ⟨0, a, .root hb⟩
    | some c =>
      obtain rfl := Option.some.inj (hab.symm.trans (hle a c hb))
      exact ⟨k + 1, r', .step hb hrest⟩

/-- Linking one root under another keeps a forest. -/
theorem link [DecidableEq α] {c d : α} (h : Forest parent) (hd : parent d = none)
    (hc : parent c = none) (hne : c ≠ d) : Forest (linkUnder parent d c) := by
  intro a
  obtain ⟨n, r, hlead⟩ := h a
  exact ⟨_, _, hlead.link hd hc hne⟩

end Forest
