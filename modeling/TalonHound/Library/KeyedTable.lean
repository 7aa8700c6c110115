import Mathlib.Data.List.Nodup

/-!
# Tables with a primary key

A table is a list of rows whose keys are distinct; the invariant is a field, so a
table with a duplicate key cannot be built. The operations are the ones an
`INSERT … ON CONFLICT DO UPDATE` and a `DELETE … WHERE key = ANY(…)` perform, and
each is described by what a lookup returns afterwards.
-/

variable {τ κ : Type*} [DecidableEq κ]

/-- Rows with pairwise distinct keys. -/
structure KeyedTable (key : τ → κ) where
  /-- The stored rows, in insertion order. -/
  rows : List τ
  /-- No two rows share a key. -/
  nodup : (rows.map key).Nodup

namespace KeyedTable

open List

variable {key : τ → κ}

/-- The table without rows. -/
def empty : KeyedTable key := ⟨[], nodup_nil⟩

/-- The row stored under a key. -/
def find? (t : KeyedTable key) (k : κ) : Option τ :=
  t.rows.find? fun r => decide (key r = k)

variable {t : KeyedTable key} {k : κ} {r : τ}

/-- A lookup returns the one row that carries the key. -/
theorem find?_eq_some : t.find? k = some r ↔ r ∈ t.rows ∧ key r = k := by
  constructor
  · intro h
    exact ⟨mem_of_find?_eq_some h, by simpa using find?_some h⟩
  · rintro ⟨hr, rfl⟩
    cases hfind : t.find? (key r) with
    | none =>
      have := find?_eq_none.mp hfind r hr
      simp at this
    | some s =>
      have hs := mem_of_find?_eq_some hfind
      have hkey : key s = key r := by simpa using find?_some hfind
      rw [inj_on_of_nodup_map t.nodup hs hr hkey]

theorem find?_eq_none : t.find? k = none ↔ ∀ r ∈ t.rows, key r ≠ k := by
  simp [find?]

theorem find?_key_of_mem (h : r ∈ t.rows) : t.find? (key r) = some r := find?_eq_some.mpr ⟨h, rfl⟩

/-- Delete every row whose key is listed. -/
def delete (t : KeyedTable key) (ks : List κ) : KeyedTable key :=
  ⟨t.rows.filter fun r => decide (key r ∉ ks), t.nodup.sublist (filter_sublist.map key)⟩

variable {ks : List κ}

@[simp] theorem mem_rows_delete : r ∈ (t.delete ks).rows ↔ r ∈ t.rows ∧ key r ∉ ks := by
  simp [delete]

/-- A deletion hides the listed keys and leaves the others alone. -/
theorem find?_delete (t : KeyedTable key) (ks : List κ) (k : κ) :
    (t.delete ks).find? k = if k ∈ ks then none else t.find? k := by
  by_cases hk : k ∈ ks
  · rw [if_pos hk, find?_eq_none]
    intro r hr hkey
    exact (mem_rows_delete.mp hr).2 (hkey ▸ hk)
  · rw [if_neg hk]
    cases hfind : t.find? k with
    | none =>
      rw [find?_eq_none] at hfind ⊢
      exact fun r hr => hfind r (mem_rows_delete.mp hr).1
    | some r =>
      rw [find?_eq_some] at hfind ⊢
      exact ⟨mem_rows_delete.mpr ⟨hfind.1, hfind.2 ▸ hk⟩, hfind.2⟩

/-- Only the set of deleted keys matters. -/
theorem delete_congr (t : KeyedTable key) {ls : List κ} (h : ∀ k, k ∈ ks ↔ k ∈ ls) :
    t.delete ks = t.delete ls := by
  simp only [delete, h]

@[simp] theorem delete_nil (t : KeyedTable key) : t.delete [] = t := by
  simp [delete]

/-- What a conflicting insert leaves behind: the new row where it differs from the
stored one, the stored row where the `WHERE` clause of the update does not hold. -/
def settle (changed : τ → τ → Bool) (stored : Option τ) (r : τ) : τ :=
  match stored with
  | none => r
  | some s => if changed s r then r else s

/-- Store a row under its key, in place of whatever was there. -/
def put (t : KeyedTable key) (r : τ) : KeyedTable key :=
  ⟨r :: (t.delete [key r]).rows, by
    rw [map_cons, nodup_cons]
    exact ⟨by simp [delete], (t.delete [key r]).nodup⟩⟩

theorem find?_put (t : KeyedTable key) (r : τ) (k : κ) :
    (t.put r).find? k = if k = key r then some r else t.find? k := by
  by_cases hk : k = key r
  · rw [if_pos hk, find?_eq_some]
    exact ⟨mem_cons_self, hk.symm⟩
  · have hne : key r ≠ k := fun h => hk h.symm
    have hdelete := find?_delete t [key r] k
    rw [if_neg (by simpa using hk)] at hdelete
    rw [if_neg hk, ← hdelete]
    simp [find?, put, hne]

/-- `INSERT … ON CONFLICT (key) DO UPDATE … WHERE changed`. -/
def upsert (changed : τ → τ → Bool) (t : KeyedTable key) (r : τ) : KeyedTable key :=
  match t.find? (key r) with
  | none => t.put r
  | some s => if changed s r then t.put r else t

/-- An upsert settles the row under its own key only. -/
theorem find?_upsert (changed : τ → τ → Bool) (t : KeyedTable key) (r : τ) (k : κ) :
    (t.upsert changed r).find? k =
      if k = key r then some (settle changed (t.find? k) r) else t.find? k := by
  unfold upsert
  split
  · next hfind =>
    rw [find?_put]
    split
    · next hk => rw [hk, hfind, settle]
    · rfl
  · next s hfind =>
    split
    · next hchanged =>
      rw [find?_put]
      split
      · next hk => simp only [hk, hfind, settle, hchanged, if_true]
      · rfl
    · next hchanged =>
      split
      · next hk => rw [hk, hfind]; simp [settle, hchanged]
      · rfl

variable {changed : τ → τ → Bool}

/-- An upsert brings in no row but its own. -/
theorem mem_rows_upsert {a : τ} (hr : r ∈ (t.upsert changed a).rows) : r ∈ t.rows ∨ r = a := by
  have hput : r ∈ (t.put a).rows → r ∈ t.rows ∨ r = a := by
    intro hr
    rcases mem_cons.mp hr with rfl | hr
    · exact Or.inr rfl
    · exact Or.inl (mem_rows_delete.mp hr).1
  unfold upsert at hr
  split at hr
  · exact hput hr
  · split at hr
    · exact hput hr
    · exact Or.inl hr

/-- The keys of a table. -/
def HasKey (t : KeyedTable key) (k : κ) : Prop := ∃ r ∈ t.rows, key r = k

theorem hasKey_iff : t.HasKey k ↔ (t.find? k).isSome = true := by
  rw [Option.isSome_iff_exists]
  simp only [find?_eq_some]
  rfl

theorem hasKey_delete : (t.delete ks).HasKey k ↔ t.HasKey k ∧ k ∉ ks := by
  rw [hasKey_iff, hasKey_iff, find?_delete]
  by_cases hk : k ∈ ks <;> simp [hk]

/-- An upsert adds its key and removes none. -/
theorem hasKey_upsert {a : τ} : (t.upsert changed a).HasKey k ↔ t.HasKey k ∨ k = key a := by
  rw [hasKey_iff, hasKey_iff, find?_upsert]
  by_cases hk : k = key a <;> simp [hk]

/-- Upsert a list of rows in order. -/
def upsertAll (changed : τ → τ → Bool) (t : KeyedTable key) (news : List τ) : KeyedTable key :=
  news.foldl (upsert changed) t

variable {news : List τ}

theorem mem_rows_upsertAll (hr : r ∈ (t.upsertAll changed news).rows) : r ∈ t.rows ∨ r ∈ news := by
  induction news generalizing t with
  | nil => exact Or.inl hr
  | cons a news ih =>
    rcases ih hr with hmem | hmem
    · rcases mem_rows_upsert hmem with hmem | rfl
      · exact Or.inl hmem
      · exact Or.inr mem_cons_self
    · exact Or.inr (.tail _ hmem)

theorem hasKey_upsertAll : (t.upsertAll changed news).HasKey k ↔ t.HasKey k ∨ k ∈ news.map key := by
  induction news generalizing t with
  | nil => simp [upsertAll]
  | cons a news ih =>
    rw [upsertAll, foldl_cons]
    change ((t.upsert changed a).upsertAll changed news).HasKey k ↔ _
    rw [ih, hasKey_upsert, map_cons, mem_cons, or_assoc]

/-- With distinct keys, each listed row is settled against the original table. -/
theorem find?_upsertAll (hnews : (news.map key).Nodup) (k : κ) :
    (t.upsertAll changed news).find? k = match news.find? (fun r => decide (key r = k)) with
      | some r => some (settle changed (t.find? k) r)
      | none => t.find? k := by
  induction news generalizing t with
  | nil => rfl
  | cons a news ih =>
    rw [map_cons, nodup_cons] at hnews
    rw [upsertAll, foldl_cons]
    change ((t.upsert changed a).upsertAll changed news).find? k = _
    rw [ih hnews.2, find?_upsert]
    by_cases hk : key a = k
    · have hrest : news.find? (fun r => decide (key r = k)) = none := by
        rw [List.find?_eq_none]
        intro r hr
        have : key r ≠ key a := fun h => hnews.1 (h ▸ mem_map_of_mem hr)
        simpa [← hk] using this
      rw [hrest, find?_cons_of_pos (by simpa using hk)]
      simp [hk]
    · rw [find?_cons_of_neg (by simpa using hk), if_neg (fun h => hk h.symm)]

/-- After a deletion and upserts a key keeps its row, holds one of the listed rows, or is
one of the deleted keys and holds none. -/
theorem find?_delete_upsertAll_cases {t' : KeyedTable key}
    (hwrite : (t.delete ks).upsertAll changed news = t') (k : κ) :
    t'.find? k = t.find? k ∨ (∃ r ∈ news, key r = k ∧ t'.find? k = some r) ∨
      k ∈ ks ∧ t'.find? k = none := by
  subst hwrite
  cases hfind : ((t.delete ks).upsertAll changed news).find? k with
  | some r =>
    obtain ⟨hr, hkey⟩ := find?_eq_some.mp hfind
    rcases mem_rows_upsertAll hr with hr | hr
    · exact Or.inl (find?_eq_some.mpr ⟨(mem_rows_delete.mp hr).1, hkey⟩).symm
    · exact Or.inr (Or.inl ⟨r, hr, hkey, rfl⟩)
  | none =>
    cases hstored : t.find? k with
    | none => exact Or.inl rfl
    | some s =>
      have hgone : ¬ ((t.delete ks).upsertAll changed news).HasKey k := by
        rw [hasKey_iff, hfind]
        simp
      rw [hasKey_upsertAll, hasKey_delete, not_or, not_and, not_not] at hgone
      exact Or.inr (Or.inr ⟨hgone.1 (hasKey_iff.mpr (by rw [hstored]; rfl)), rfl⟩)

/-- The outcome of writing a batch that names one key twice: PostgreSQL refuses to
update a row a second time in one command. -/
inductive UpsertError where
  | cannotAffectRowASecondTime

/-- Upsert a batch of rows, refusing a batch with a repeated key. -/
def upsertBatch (changed : τ → τ → Bool) (t : KeyedTable key) (news : List τ) :
    Except UpsertError (KeyedTable key) :=
  if (news.map key).Nodup then .ok (t.upsertAll changed news)
  else .error .cannotAffectRowASecondTime

theorem upsertBatch_eq_ok {t' : KeyedTable key} :
    t.upsertBatch changed news = .ok t' ↔ (news.map key).Nodup ∧ t.upsertAll changed news = t' := by
  unfold upsertBatch
  split
  · next h => simp [h]
  · next h => simp [h]

/-- Two steps in sequence succeed only if both do. -/
theorem eq_ok_of_bind.{u, v} {ε : Type u} {α β : Type v} {x : Except ε α} {f : α → Except ε β} {b : β}
    (h : (x >>= f) = .ok b) : ∃ a, x = .ok a ∧ f a = .ok b := by
  cases x with
  | error e => cases h
  | ok a => exact ⟨a, rfl, h⟩

theorem exists_ok_of_map.{u, v, w} {ε : Type u} {α : Type v} {β : Type w} {x : Except ε α}
    {f : α → β} {b : β} (h : x.map f = .ok b) : ∃ a, x = .ok a := by
  cases x with
  | error e => cases h
  | ok a => exact ⟨a, rfl⟩

end KeyedTable
