import Mathlib.Data.List.Nodup

/-!
# Rows under several keys

Lists of rows in which one or more keys are unique: lookups by key, and the effect on
lookups and keys of an update in place and of an insertion.
-/

namespace Rows

open List

variable {τ κ : Type*} {key : τ → κ} {rows : List τ} {k : κ} {r : τ}

variable {f : τ → τ}

/-- Keys that an update keeps stay unique. -/
theorem nodup_map_update (hf : ∀ r, key (f r) = key r) (hnodup : (rows.map key).Nodup) :
    ((rows.map f).map key).Nodup := by
  rw [map_map]
  rwa [show key ∘ f = key from funext hf]

/-- The keys after an update that keeps them. -/
theorem map_update (hf : ∀ r, key (f r) = key r) : (rows.map f).map key = rows.map key := by
  rw [map_map]
  rw [show key ∘ f = key from funext hf]

/-- The keys of the rows that a rewriting keeps, where it keeps their keys. -/
theorem map_filterMap_sublist {f : τ → Option τ} (hf : ∀ r s, f r = some s → key s = key r) :
    ((rows.filterMap f).map key).Sublist (rows.map key) := by
  induction rows with
  | nil => exact List.Sublist.refl _
  | cons r rows ih =>
    rw [filterMap_cons]
    split
    · exact ih.cons _
    · next s hs =>
      rw [map_cons, map_cons, hf r s hs]
      exact ih.cons_cons _

/-- An update that changes no row. -/
theorem map_eq_self (hf : ∀ r ∈ rows, f r = r) : rows.map f = rows :=
  (map_congr_left hf).trans rows.map_id

/-- Rows that meet a condition are untouched by an update that fixes them and moves no
other row under the condition. -/
theorem filter_map_of_fixed {p : τ → Bool} (hp : ∀ r ∈ rows, p (f r) = p r)
    (hf : ∀ r ∈ rows, p r = true → f r = r) : (rows.map f).filter p = rows.filter p := by
  induction rows with
  | nil => rfl
  | cons r rows ih =>
    have ih := ih (fun s hs => hp s (.tail _ hs)) (fun s hs => hf s (.tail _ hs))
    have hpr := hp r mem_cons_self
    cases hr : p r with
    | true => simp [hr, hf r mem_cons_self hr, ih]
    | false => simp [hpr, hr, ih]

/-- An insertion under a new key keeps the keys unique. -/
theorem nodup_map_append (hnodup : (rows.map key).Nodup) (hfresh : key r ∉ rows.map key) :
    ((rows ++ [r]).map key).Nodup := by
  rw [map_append, map_singleton]
  apply nodup_append.mpr
  refine ⟨hnodup, nodup_singleton _, ?_⟩
  intro a ha b hb
  obtain rfl := mem_singleton.mp hb
  rintro rfl
  exact hfresh ha

variable {p : τ → Bool}

/-- A key is unique among the rows that a partial index covers when no two of them share it. -/
theorem nodup_map_filter_iff (hrows : rows.Nodup) :
    ((rows.filter p).map key).Nodup ↔
      ∀ r ∈ rows, ∀ s ∈ rows, p r = true → p s = true → key r = key s → r = s := by
  rw [nodup_map_iff_inj_on (hrows.filter p)]
  simp only [mem_filter]
  constructor
  · intro h r hr s hs hpr hps
    exact h r ⟨hr, hpr⟩ s ⟨hs, hps⟩
  · rintro h r ⟨hr, hpr⟩ s ⟨hs, hps⟩
    exact h r hr s hs hpr hps

/-- Rows of two kinds that meet conditions are equally many where their keys are the same. -/
theorem countP_eq_of_keys {σ : Type*} {others : List σ} {key' : σ → κ} {p : τ → Bool} {q : σ → Bool}
    (hrows : (rows.map key).Nodup) (hothers : (others.map key').Nodup)
    (h : ∀ k, (∃ r ∈ rows, p r = true ∧ key r = k) ↔ ∃ s ∈ others, q s = true ∧ key' s = k) :
    rows.countP p = others.countP q := by
  have hperm : ((rows.filter p).map key).Perm ((others.filter q).map key') := by
    refine (perm_ext_iff_of_nodup (hrows.sublist (filter_sublist.map _))
      (hothers.sublist (filter_sublist.map _))).mpr fun k => ?_
    simpa [mem_map, and_assoc] using h k
  rw [countP_eq_length_filter, countP_eq_length_filter]
  simpa using hperm.length_eq

/-- `UPDATE … SET g WHERE p`, on one row. -/
def updateWhere (p : τ → Bool) (g : τ → τ) (r : τ) : τ := if p r then g r else r

section UpdateWhere

variable {p q : τ → Bool} {g : τ → τ}

theorem updateWhere_of {r : τ} (h : p r = true) : updateWhere p g r = g r := if_pos h

theorem updateWhere_of_not {r : τ} (h : p r = false) : updateWhere p g r = r := by
  simp [updateWhere, h]

/-- The rows after the update are the updated ones and the ones that it passed over. -/
theorem mem_map_updateWhere {r : τ} : r ∈ rows.map (updateWhere p g) ↔
    (∃ s ∈ rows, p s = true ∧ r = g s) ∨ (r ∈ rows ∧ p r = false) := by
  constructor
  · intro h
    obtain ⟨s, hs, rfl⟩ := mem_map.mp h
    cases hp : p s with
    | true => exact Or.inl ⟨s, hs, hp, updateWhere_of hp⟩
    | false => exact Or.inr (by rw [updateWhere_of_not hp]; exact ⟨hs, hp⟩)
  · rintro (⟨s, hs, hp, rfl⟩ | ⟨hr, hp⟩)
    · exact mem_map.mpr ⟨s, hs, updateWhere_of hp⟩
    · exact mem_map.mpr ⟨r, hr, updateWhere_of_not hp⟩

/-- A column that `g` keeps is kept. -/
theorem updateWhere_keeps {β : Type*} {c : τ → β} (hg : ∀ r, c (g r) = c r) (r : τ) :
    c (updateWhere p g r) = c r := by
  unfold updateWhere
  split
  · exact hg r
  · rfl

/-- Two such updates with an idempotent `g` are one. -/
theorem map_updateWhere_updateWhere (hg : ∀ r, g (g r) = g r) (hq : ∀ r, q (g r) = q r) :
    (rows.map (updateWhere p g)).map (updateWhere q g) =
      rows.map (updateWhere (fun r => p r || q r) g) := by
  rw [map_map]
  apply map_congr_left
  intro r _
  simp only [Function.comp, updateWhere]
  by_cases hp : p r = true
  · by_cases hqr : q r = true
    · simp [hp, hqr, hq, hg]
    · simp [hp, hqr, hq]
  · by_cases hqr : q r = true
    · simp [hp, hqr]
    · simp [hp, hqr]

/-- The update depends on the condition at the rows of the table only. -/
theorem map_updateWhere_congr (h : ∀ r ∈ rows, p r = q r) :
    rows.map (updateWhere p g) = rows.map (updateWhere q g) := by
  apply map_congr_left
  intro r hr
  simp only [updateWhere, h r hr]

/-- Updating no row but the one with a key adds at most one to a count. -/
theorem countP_updateWhere_le {p : τ → Bool} (hnodup : (rows.map key).Nodup) (k : κ)
    (hp : ∀ r, p r = true → key r = k) (g : τ → τ) (q : τ → Bool) :
    (rows.map (updateWhere p g)).countP q ≤ rows.countP q + 1 := by
  induction rows with
  | nil => simp
  | cons r rows ih =>
    rw [map_cons, nodup_cons] at hnodup
    rw [map_cons, countP_cons, countP_cons]
    cases hr : p r with
    | true =>
      have hrest : rows.map (updateWhere p g) = rows := by
        apply map_eq_self
        intro s hs
        refine updateWhere_of_not (Bool.eq_false_iff.mpr fun hps => hnodup.1 ?_)
        rw [hp r hr, ← hp s hps]
        exact mem_map_of_mem hs
      rw [hrest]
      split <;> split <;> omega
    | false =>
      have ih := ih hnodup.2
      rw [updateWhere_of_not hr]
      omega

end UpdateWhere

section Flag

variable {γ : Type*} {group : τ → γ} {flag : τ → Bool} {set : Bool → τ → τ} {c : κ} {g : γ}
variable [DecidableEq κ] [DecidableEq γ]

/-- Clear the flag of every row of the group but the one with key `c`. -/
def clearOthers (key : τ → κ) (group : τ → γ) (flag : τ → Bool) (set : Bool → τ → τ) (g : γ) (c : κ)
    (r : τ) : τ :=
  if group r = g ∧ flag r = true ∧ key r ≠ c then set false r else r

/-- Set the flag of the row with key `c`. -/
def mark (key : τ → κ) (set : Bool → τ → τ) (c : κ) (r : τ) : τ :=
  if key r = c then set true r else r

/-- In the group, the row with key `c` and no other has the flag. -/
def flagOnly (key : τ → κ) (group : τ → γ) (set : Bool → τ → τ) (g : γ) (c : Option κ) (r : τ) : τ :=
  if group r = g then set (decide (c = some (key r))) r else r

/-- Clearing the others and marking one row leaves the flag on that row only. -/
theorem map_mark_clearOthers (hkeep : ∀ r, set (flag r) r = r)
    (hkey : ∀ b r, key (set b r) = key r) (hc : ∀ r ∈ rows, key r = c → group r = g) :
    (rows.map (clearOthers key group flag set g c)).map (mark key set c) =
      rows.map (flagOnly key group set g (some c)) := by
  rw [map_map]
  apply map_congr_left
  intro r hr
  change mark key set c (clearOthers key group flag set g c r) = _
  unfold mark clearOthers flagOnly
  by_cases hrc : key r = c
  · simp [hrc, hc r hr hrc]
  · by_cases hg : group r = g
    · cases hflag : flag r with
      | true => simp [hrc, hg, hkey, Ne.symm hrc]
      | false =>
        have hr' : set false r = r := hflag ▸ hkeep r
        simp [hrc, hg, Ne.symm hrc, hr']
    · simp [hrc, hg]

/-- After `f`, no two rows of a group have the flag. -/
def OneFlag (group : τ → γ) (flag : τ → Bool) (f : τ → τ) (rows : List τ) : Prop :=
  ∀ r ∈ rows, ∀ s ∈ rows, flag (f r) = true → flag (f s) = true → group (f r) = group (f s) → r = s

/-- Clearing flags keeps at most one in a group. -/
theorem oneFlag_clearOthers (hgroup : ∀ b r, group (set b r) = group r)
    (hflag : ∀ b r, flag (set b r) = b) (hone : OneFlag group flag id rows) :
    OneFlag group flag (clearOthers key group flag set g c) rows := by
  have hclear : ∀ r, group (clearOthers key group flag set g c r) = group r ∧
      (flag (clearOthers key group flag set g c r) = true → flag r = true) := by
    intro r
    unfold clearOthers
    split
    · exact ⟨hgroup _ _, fun h => by rw [hflag] at h; cases h⟩
    · exact ⟨rfl, fun h => h⟩
  intro r hr s hs hfr hfs hrs
  rw [(hclear r).1, (hclear s).1] at hrs
  exact hone r hr s hs ((hclear r).2 hfr) ((hclear s).2 hfs) hrs

/-- Flagging one row of a group leaves at most one in each group. -/
theorem oneFlag_flagOnly {c : Option κ} (hkey : (rows.map key).Nodup)
    (hgroup : ∀ b r, group (set b r) = group r)
    (hflag : ∀ b r, flag (set b r) = b) (hone : OneFlag group flag id rows) :
    OneFlag group flag (flagOnly key group set g c) rows := by
  have hin : ∀ r, group r = g → flag (flagOnly key group set g c r) = true → c = some (key r) := by
    intro r hr h
    rw [flagOnly, if_pos hr, hflag] at h
    exact of_decide_eq_true h
  have hout : ∀ r, group r ≠ g → flagOnly key group set g c r = r := fun r hr => if_neg hr
  have hsame : ∀ r, group (flagOnly key group set g c r) = group r := by
    intro r
    unfold flagOnly
    split
    · exact hgroup _ _
    · rfl
  intro r hr s hs hfr hfs hrs
  rw [hsame, hsame] at hrs
  by_cases hg : group r = g
  · have hc := (hin r hg hfr).symm.trans (hin s (hrs ▸ hg) hfs)
    exact inj_on_of_nodup_map hkey hr hs (Option.some.inj hc)
  · rw [hout r hg] at hfr
    rw [hout s (hrs ▸ hg)] at hfs
    exact hone r hr s hs hfr hfs hrs

/-- In its group the chosen row has the flag, and no other row does. -/
theorem flag_flagOnly_iff {r : τ} (hkey : (rows.map key).Nodup)
    (hflag : ∀ b r, flag (set b r) = b) (hr : r ∈ rows) (hg : group r = g) :
    set true r ∈ rows.map (flagOnly key group set g (some (key r))) ∧
      ∀ m ∈ rows.map (flagOnly key group set g (some (key r))), group m = g →
        (flag m = true ↔ m = set true r) := by
  constructor
  · refine mem_map.mpr ⟨r, hr, ?_⟩
    rw [flagOnly, if_pos hg, decide_eq_true rfl]
  · intro m hm hmg
    obtain ⟨m₀, hm₀, rfl⟩ := mem_map.mp hm
    have hm₀g : group m₀ = g := by
      unfold flagOnly at hmg
      split at hmg
      · next h => exact h
      · exact hmg
    rw [flagOnly, if_pos hm₀g]
    constructor
    · intro hm
      rw [hflag] at hm
      have hid : some (key r) = some (key m₀) := of_decide_eq_true hm
      rw [inj_on_of_nodup_map hkey hr hm₀ (Option.some.inj hid), decide_eq_true rfl]
    · intro hm
      rw [hm, hflag]

end Flag

variable [DecidableEq κ]

/-- The first row with a key. -/
def lookup (key : τ → κ) (rows : List τ) (k : κ) : Option τ :=
  rows.find? fun r => decide (key r = k)

theorem lookup_eq_none : lookup key rows k = none ↔ k ∉ rows.map key := by
  simp [lookup]

theorem mem_of_lookup (h : lookup key rows k = some r) : r ∈ rows ∧ key r = k :=
  ⟨mem_of_find?_eq_some h, by simpa using find?_some h⟩

/-- Under a unique key a lookup finds every row. -/
theorem lookup_eq_some (hnodup : (rows.map key).Nodup) :
    lookup key rows k = some r ↔ r ∈ rows ∧ key r = k := by
  constructor
  · exact mem_of_lookup
  · rintro ⟨hr, rfl⟩
    cases hfind : lookup key rows (key r) with
    | none => exact absurd (mem_map_of_mem hr) (lookup_eq_none.mp hfind)
    | some s =>
      obtain ⟨hs, hkey⟩ := mem_of_lookup hfind
      rw [inj_on_of_nodup_map hnodup hs hr hkey]

theorem lookup_key (hnodup : (rows.map key).Nodup) (hr : r ∈ rows) :
    lookup key rows (key r) = some r :=
  (lookup_eq_some hnodup).mpr ⟨hr, rfl⟩

/-- A lookup finds the keys that are there. -/
theorem lookup_isSome : (lookup key rows k).isSome = true ↔ k ∈ rows.map key := by
  rw [Option.isSome_iff_ne_none, ne_eq, lookup_eq_none, not_not]

/-- An update in place that keeps the key is seen by the lookup. -/
theorem lookup_map (hf : ∀ r, key (f r) = key r) :
    lookup key (rows.map f) k = (lookup key rows k).map f := by
  unfold lookup
  rw [find?_map]
  congr 2
  funext r
  simp [hf]

/-- An insertion under a new key. -/
theorem lookup_append_singleton : lookup key (rows ++ [r]) k =
      (lookup key rows k).or (if key r = k then some r else none) := by
  unfold lookup
  rw [find?_append]
  congr 1
  by_cases h : key r = k
  · simp [h]
  · simp [h]

/-- The rows that no earlier row has the key of. -/
def firstOfEach (key : τ → κ) : List τ → List τ
  | [] => []
  | r :: rows => r :: (firstOfEach key rows).filter fun s => decide (key s ≠ key r)

/-- Every key keeps a row. -/
theorem mem_map_firstOfEach : k ∈ (firstOfEach key rows).map key ↔ k ∈ rows.map key := by
  induction rows with
  | nil => rfl
  | cons r rows ih =>
    rw [firstOfEach, map_cons, mem_cons, map_cons, mem_cons, ← ih]
    by_cases hk : k = key r
    · simp [hk]
    · apply or_congr_right
      simp only [mem_map, mem_filter, decide_eq_true_eq]
      constructor
      · rintro ⟨s, ⟨hs, -⟩, rfl⟩
        exact ⟨s, hs, rfl⟩
      · rintro ⟨s, hs, rfl⟩
        exact ⟨s, ⟨hs, hk⟩, rfl⟩

end Rows
