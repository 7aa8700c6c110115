import Mathlib.Data.List.Nodup

/-!
# Maps in the order of insertion

A map as a list of entries. An entry under a key that is there takes its place, any other is
appended.
-/

namespace InsertionMap

open List

variable {τ κ : Type*} [DecidableEq κ] {key : τ → κ} {rows : List τ} {r : τ} {k : κ}

/-- Set the entry of its key. -/
def set (key : τ → κ) (rows : List τ) (r : τ) : List τ :=
  if key r ∈ rows.map key then rows.map fun s => if key s = key r then r else s else rows ++ [r]

/-- The map of entries that are set one after the other. -/
def ofList (key : τ → κ) (inputs : List τ) : List τ := inputs.foldl (set key) []

theorem map_key_set : (set key rows r).map key =
    if key r ∈ rows.map key then rows.map key else rows.map key ++ [key r] := by
  unfold set
  split
  · rw [map_map]
    refine map_congr_left fun s _ => ?_
    by_cases hs : key s = key r <;> simp [hs]
  · simp

theorem nodup_set (h : (rows.map key).Nodup) : ((set key rows r).map key).Nodup := by
  rw [map_key_set]
  split
  · exact h
  · next hnew =>
    refine nodup_append.mpr ⟨h, nodup_singleton _, ?_⟩
    rintro a ha b hb rfl
    obtain rfl := mem_singleton.mp hb
    exact hnew ha

theorem mem_map_key_set : k ∈ (set key rows r).map key ↔ k ∈ rows.map key ∨ k = key r := by
  rw [map_key_set]
  split
  · next hold =>
    constructor
    · exact Or.inl
    · rintro (hk | rfl)
      · exact hk
      · exact hold
  · rw [mem_append, mem_singleton]

/-- An entry that is set takes the place of the one under its key. -/
theorem mem_set {s : τ} : s ∈ set key rows r ↔ s = r ∨ s ∈ rows ∧ key s ≠ key r := by
  unfold set
  split
  · next hold =>
    obtain ⟨t, ht, hkey⟩ := mem_map.mp hold
    rw [mem_map]
    constructor
    · rintro ⟨u, hu, rfl⟩
      split
      · exact .inl rfl
      · next hne => exact .inr ⟨hu, hne⟩
    · rintro (rfl | ⟨hs, hne⟩)
      · exact ⟨t, ht, if_pos hkey⟩
      · exact ⟨s, hs, if_neg hne⟩
  · next hnew =>
    rw [mem_append, mem_singleton, or_comm, and_iff_left_of_imp]
    exact fun hs hkey => hnew (hkey ▸ mem_map_of_mem hs)

/-- The keys of a map are distinct. -/
theorem nodup_ofList (key : τ → κ) (inputs : List τ) : ((ofList key inputs).map key).Nodup := by
  have hfold : ∀ rows : List τ, (rows.map key).Nodup →
      ((inputs.foldl (set key) rows).map key).Nodup := by
    induction inputs with
    | nil => exact fun _ h => h
    | cons r inputs ih => exact fun rows h => ih _ (nodup_set h)
  exact hfold [] nodup_nil

variable {inputs : List τ}

/-- The keys of a map are those of the entries set. -/
theorem mem_map_key_ofList : k ∈ (ofList key inputs).map key ↔ k ∈ inputs.map key := by
  have hfold : ∀ rows : List τ, k ∈ (inputs.foldl (set key) rows).map key ↔
      k ∈ rows.map key ∨ k ∈ inputs.map key := by
    induction inputs with
    | nil => simp
    | cons r inputs ih =>
      intro rows
      rw [foldl_cons, ih, mem_map_key_set, map_cons, mem_cons, or_assoc]
  have hempty := hfold []
  rw [map_nil] at hempty
  unfold ofList
  simpa only [not_mem_nil, false_or] using hempty

/-- An entry of a map has been set. -/
theorem mem_of_mem_ofList (h : r ∈ ofList key inputs) : r ∈ inputs := by
  have hfold : ∀ rows : List τ, r ∈ inputs.foldl (set key) rows → r ∈ rows ∨ r ∈ inputs := by
    clear h
    induction inputs with
    | nil => exact fun _ hr => Or.inl hr
    | cons s inputs ih =>
      intro rows hr
      rcases ih _ hr with hset | hinput
      · rcases mem_set.mp hset with rfl | ⟨hrow, -⟩
        · exact Or.inr mem_cons_self
        · exact Or.inl hrow
      · exact Or.inr (.tail _ hinput)
  rcases hfold [] h with hnil | hinput
  · cases hnil
  · exact hinput

/-- An entry stays when no other is set under its key. -/
theorem mem_ofList (hr : r ∈ inputs) (hown : ∀ s ∈ inputs, key s = key r → s = r) :
    r ∈ ofList key inputs := by
  have hkey : key r ∈ (ofList key inputs).map key := mem_map_key_ofList.mpr (mem_map_of_mem hr)
  obtain ⟨s, hs, hsame⟩ := mem_map.mp hkey
  rwa [hown s (mem_of_mem_ofList hs) hsame] at hs

/-- Entries under distinct keys are kept as they are. -/
theorem ofList_eq_self (h : (inputs.map key).Nodup) : ofList key inputs = inputs := by
  have hfold : ∀ rows : List τ, ((rows ++ inputs).map key).Nodup →
      inputs.foldl (set key) rows = rows ++ inputs := by
    clear h
    induction inputs with
    | nil => exact fun rows _ => (append_nil rows).symm
    | cons r inputs ih =>
      intro rows hnodup
      have hnew : key r ∉ rows.map key := by
        rw [map_append, map_cons] at hnodup
        intro hmem
        exact (nodup_append.mp hnodup).2.2 _ hmem _ mem_cons_self rfl
      have hset : set key rows r = rows ++ [r] := if_neg hnew
      rw [foldl_cons, hset, ih _ (by rwa [append_assoc]), append_assoc]
      rfl
  exact hfold [] h

/-- Entries may be rewritten before or after they are set, when that keeps their keys. -/
theorem ofList_map {σ : Type*} {key' : σ → κ} {f : σ → τ} (hf : ∀ a, key (f a) = key' a)
    (inputs : List σ) : ofList key (inputs.map f) = (ofList key' inputs).map f := by
  have hset : ∀ (rows : List σ) (a : σ), set key (rows.map f) (f a) = (set key' rows a).map f := by
    intro rows a
    unfold set
    have hkeys : (rows.map f).map key = rows.map key' := by
      rw [map_map]
      exact map_congr_left fun b _ => hf b
    rw [hkeys, hf]
    split
    · rw [map_map, map_map]
      refine map_congr_left fun b _ => ?_
      simp only [Function.comp_apply, hf]
      split <;> rfl
    · simp
  have hfold : ∀ rows : List σ, (inputs.map f).foldl (set key) (rows.map f) =
      (inputs.foldl (set key') rows).map f := by
    induction inputs with
    | nil => exact fun _ => rfl
    | cons a inputs ih =>
      intro rows
      rw [map_cons, foldl_cons, foldl_cons, hset, ih]
  exact hfold []

end InsertionMap
