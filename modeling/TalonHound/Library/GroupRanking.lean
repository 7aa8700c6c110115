import Mathlib.Data.List.Dedup
import Mathlib.Data.List.Perm.Subperm
import Mathlib.Data.List.Sort

/-!
# Rankings of groups

Rows with a time fall into groups. A group is as old as its oldest row, and the groups are
ranked newest first, ties by key. A window holds the newest rows only and ranks each group by
the rows that it holds. Its first ranks are those of all rows when the groups on them have no
row outside.
-/

namespace GroupRanking

open List

variable {ρ κ : Type*} [LinearOrder κ] {time : ρ → ℤ} {key : ρ → κ}

/-- A group and the time of its oldest row. -/
structure Entry (κ : Type*) where
  key : κ
  since : ℤ
  deriving DecidableEq

/-- Newest first, then by key. -/
def Precedes (a b : Entry κ) : Prop := b.since < a.since ∨ a.since = b.since ∧ a.key ≤ b.key
  deriving Decidable

instance : Std.Total (Precedes : Entry κ → Entry κ → Prop) where
  total a b := by
    rcases lt_trichotomy a.since b.since with h | h | h
    · exact .inr (.inl h)
    · rcases le_total a.key b.key with hkey | hkey
      · exact .inl (.inr ⟨h, hkey⟩)
      · exact .inr (.inr ⟨h.symm, hkey⟩)
    · exact .inl (.inl h)

instance : IsTrans (Entry κ) Precedes where
  trans a b c hab hbc := by
    rcases hab with hab | ⟨hab, hkey⟩
    · rcases hbc with hbc | ⟨hbc, -⟩ <;> exact .inl (by omega)
    · rcases hbc with hbc | ⟨hbc, hkey'⟩
      · exact .inl (by omega)
      · exact .inr ⟨hab.trans hbc, hkey.trans hkey'⟩

theorem Precedes.antisymm {a b : Entry κ} (hab : Precedes a b) (hba : Precedes b a) : a = b := by
  unfold Precedes at hab hba
  have hsince : a.since = b.since := by omega
  have hkey : a.key = b.key := by
    apply le_antisymm
    · rcases hab with h | h
      · omega
      · exact h.2
    · rcases hba with h | h
      · omega
      · exact h.2
  cases a
  cases b
  cases hsince
  cases hkey
  rfl

/-- The time of the oldest row of a group. -/
def oldest (time : ρ → ℤ) (key : ρ → κ) (rows : List ρ) (k : κ) : ℤ :=
  (((rows.filter fun r => decide (key r = k)).map time).min?).getD 0

/-- The groups of the rows. -/
def groups (time : ρ → ℤ) (key : ρ → κ) (rows : List ρ) : List (Entry κ) :=
  (rows.map key).dedup.map fun k => ⟨k, oldest time key rows k⟩

/-- The groups in the order of their ranks. -/
def ranking (time : ρ → ℤ) (key : ρ → κ) (rows : List ρ) : List (Entry κ) :=
  (groups time key rows).insertionSort Precedes

section Groups

variable {rows window rest : List ρ} {k : κ} {e : Entry κ}

/-- The oldest row of a group that has one. -/
theorem oldest_spec (time : ρ → ℤ) (key : ρ → κ) {r : ρ} (hr : r ∈ rows) :
    (∃ s ∈ rows, key s = key r ∧ time s = oldest time key rows (key r)) ∧
      ∀ s ∈ rows, key s = key r → oldest time key rows (key r) ≤ time s := by
  set times := (rows.filter fun s => decide (key s = key r)).map time
  have hmem : ∀ s ∈ rows, key s = key r → time s ∈ times := by
    intro s hs hkey
    exact mem_map_of_mem (mem_filter.mpr ⟨hs, decide_eq_true hkey⟩)
  have hne : times ≠ [] := ne_nil_of_mem (hmem r hr rfl)
  obtain ⟨least, hleast⟩ : ∃ least, times.min? = some least := by
    cases h : times.min? with
    | none => exact absurd (min?_eq_none_iff.mp h) hne
    | some least => exact ⟨least, rfl⟩
  have holdest : oldest time key rows (key r) = least := by
    unfold oldest
    rw [show times.min? = some least from hleast, Option.getD_some]
  obtain ⟨hin, hmin⟩ := min?_eq_some_iff.mp hleast
  rw [holdest]
  constructor
  · obtain ⟨s, hs, htime⟩ := mem_map.mp hin
    obtain ⟨hrow, hkey⟩ := mem_filter.mp hs
    exact ⟨s, hrow, of_decide_eq_true hkey, htime⟩
  · intro s hs hkey
    exact hmin _ (hmem s hs hkey)

/-- A group without rows among the others is the same with them. -/
theorem filter_append_settled (h : ∀ s ∈ rest, key s ≠ k) :
    (window ++ rest).filter (fun r => decide (key r = k)) =
      window.filter fun r => decide (key r = k) := by
  have hrest : rest.filter (fun r => decide (key r = k)) = [] := by
    rw [filter_eq_nil_iff]
    intro s hs
    simpa using h s hs
  rw [filter_append, hrest, append_nil]

theorem oldest_append_settled (h : ∀ s ∈ rest, key s ≠ k) :
    oldest time key (window ++ rest) k = oldest time key window k := by
  unfold oldest
  rw [filter_append_settled h]

theorem mem_ranking : e ∈ ranking time key rows ↔
    (∃ r ∈ rows, key r = e.key) ∧ e.since = oldest time key rows e.key := by
  unfold ranking groups
  rw [mem_insertionSort, mem_map]
  constructor
  · rintro ⟨k, hk, rfl⟩
    rw [mem_dedup, mem_map] at hk
    exact ⟨hk, rfl⟩
  · rintro ⟨hrow, hsince⟩
    refine ⟨e.key, ?_, ?_⟩
    · rw [mem_dedup, mem_map]
      exact hrow
    · rw [← hsince]

theorem pairwise_ranking (time : ρ → ℤ) (key : ρ → κ) (rows : List ρ) :
    (ranking time key rows).Pairwise Precedes :=
  pairwise_insertionSort Precedes _

/-- Every group has one rank. -/
theorem nodup_ranking_keys : ((ranking time key rows).map Entry.key).Nodup := by
  have hgroups : ((groups time key rows).map Entry.key).Nodup := by
    unfold groups
    rw [map_map]
    have hid : Entry.key ∘ (fun k => ⟨k, oldest time key rows k⟩ : κ → Entry κ) = id := rfl
    rw [hid, map_id]
    exact nodup_dedup _
  exact (((perm_insertionSort Precedes _).map Entry.key).nodup_iff).mpr hgroups

theorem nodup_ranking : (ranking time key rows).Nodup := nodup_ranking_keys.of_map

end Groups

section Window

variable {window rest : List ρ} {n : ℕ}

/-- The first ranks of a window whose groups there have all their rows in it, when the rows
outside are older: they are the first ranks of all rows. -/
theorem take_ranking_append (holder : ∀ r ∈ window, ∀ s ∈ rest, time s < time r)
    (hsettled : ∀ e ∈ (ranking time key window).take n, ∀ s ∈ rest, key s ≠ e.key)
    (hfull : n ≤ (ranking time key window).length ∨ rest = []) :
    (ranking time key (window ++ rest)).take n = (ranking time key window).take n := by
  rcases hfull with hfull | rfl
  swap
  · rw [append_nil]
  set first := (ranking time key window).take n with hfirst
  set all := ranking time key (window ++ rest) with hall
  have hlength : first.length = n := by
    rw [hfirst, length_take]
    omega
  have hwindow : ∀ e ∈ first, e ∈ ranking time key window := fun e he => mem_of_mem_take he
  have hsubset : ∀ e ∈ first, e ∈ all := by
    intro e he
    obtain ⟨⟨r, hr, hkey⟩, hsince⟩ := mem_ranking.mp (hwindow e he)
    apply mem_ranking.mpr
    refine ⟨⟨r, mem_append_left _ hr, hkey⟩, ?_⟩
    rw [oldest_append_settled (hsettled e he), hsince]
  -- a group that is not among the first ranks follows every group that is
  have hafter : ∀ a ∈ first, ∀ c ∈ all, c ∉ first → Precedes a c := by
    intro a ha c hc hnot
    obtain ⟨⟨r, hr, hkey⟩, hsince⟩ := mem_ranking.mp hc
    by_cases hout : ∃ s ∈ rest, key s = c.key
    · obtain ⟨s, hs, hskey⟩ := hout
      obtain ⟨⟨t, ht, htkey⟩, hasince⟩ := mem_ranking.mp (hwindow a ha)
      obtain ⟨u, hu, -, hutime⟩ := (oldest_spec time key ht).1
      have hle : oldest time key (window ++ rest) (key s) ≤ time s :=
        (oldest_spec time key (mem_append_right _ hs)).2 s (mem_append_right _ hs) rfl
      have hlt := holder u hu s hs
      left
      rw [hsince, ← hskey, hasince, ← htkey, ← hutime]
      omega
    · have hnone : ∀ s ∈ rest, key s ≠ c.key := fun s hs hkey => hout ⟨s, hs, hkey⟩
      have hin : c ∈ ranking time key window := by
        apply mem_ranking.mpr
        constructor
        · rcases mem_append.mp hr with hr | hr
          · exact ⟨r, hr, hkey⟩
          · exact absurd hkey (hnone r hr)
        · rw [hsince, oldest_append_settled hnone]
      have hsplit : first ++ (ranking time key window).drop n = ranking time key window :=
        take_append_drop n _
      have hdrop : c ∈ (ranking time key window).drop n := by
        rw [← hsplit] at hin
        exact (mem_append.mp hin).resolve_left hnot
      have hsorted := pairwise_ranking time key window
      rw [← hsplit] at hsorted
      exact (pairwise_append.mp hsorted).2.2 a ha c hdrop
  have hfirstNodup : first.Nodup := nodup_ranking.sublist (take_sublist n _)
  have hperm : all.Perm (first ++ all.filter fun e => decide (e ∉ first)) := by
    apply (perm_ext_iff_of_nodup nodup_ranking ?_).mpr
    · intro e
      rw [mem_append, mem_filter, decide_eq_true_eq]
      constructor
      · intro he
        by_cases h : e ∈ first
        · exact .inl h
        · exact .inr ⟨he, h⟩
      · rintro (he | ⟨he, -⟩)
        · exact hsubset e he
        · exact he
    · apply List.Nodup.append hfirstNodup (nodup_ranking.filter _)
      intro e he he'
      exact of_decide_eq_true (mem_filter.mp he').2 he
  have hsorted : (first ++ all.filter fun e => decide (e ∉ first)).Pairwise Precedes := by
    apply pairwise_append.mpr
    refine ⟨(pairwise_ranking time key window).sublist (take_sublist n _),
      (pairwise_ranking time key (window ++ rest)).filter _, ?_⟩
    intro a ha c hc
    obtain ⟨hc, hnot⟩ := mem_filter.mp hc
    exact hafter a ha c hc (of_decide_eq_true hnot)
  have heq : all = first ++ all.filter fun e => decide (e ∉ first) :=
    List.Perm.eq_of_pairwise (fun a b _ _ hab hba => hab.antisymm hba)
      (pairwise_ranking time key (window ++ rest)) hsorted hperm
  rw [heq, ← hlength, take_left]

end Window

section Prefixes

variable {entries others : List (Entry κ)} {m : ℕ}

theorem getElem_mem_take {α : Type*} {l : List α} {i n : ℕ} (hi : i < l.length) (hn : i < n) :
    l[i] ∈ l.take n := by
  rw [mem_take_iff_getElem]
  exact ⟨i, by omega, rfl⟩

/-- Two rankings with the same group at a place agree before it, when the one has the entries
that the other has up to there. -/
theorem take_eq_of_key_eq (hsorted : entries.Pairwise Precedes)
    (hsorted' : others.Pairwise Precedes) (hkeys : (entries.map Entry.key).Nodup)
    (hnodup : others.Nodup) (hm : m < others.length)
    (hat : (entries[m]?).map Entry.key = (others[m]?).map Entry.key)
    (hsubset : ∀ a ∈ others.take (m + 1), a ∈ entries) : entries.take m = others.take m := by
  rw [getElem?_eq_getElem hm, Option.map_some] at hat
  obtain ⟨e, he, hkey⟩ := Option.map_eq_some_iff.mp hat
  obtain ⟨hm', rfl⟩ := List.getElem?_eq_some_iff.mp he
  have hsame : entries[m] = others[m] := inj_on_of_nodup_map hkeys (getElem_mem hm')
      (hsubset _ (getElem_mem_take hm (Nat.lt_succ_self m))) hkey
  have hbefore : ∀ a ∈ others.take m, a ∈ entries.take m := by
    intro a ha
    obtain ⟨j, hj, hja⟩ := mem_iff_getElem.mp
      (hsubset a (take_subset_take_left others (Nat.le_succ m) ha))
    obtain ⟨i, hi, hia⟩ := mem_take_iff_getElem.mp ha
    have hne : a ≠ others[m] := by
      intro h
      rw [← hia] at h
      have := hnodup.getElem_inj_iff.mp h
      omega
    have hprecedes : Precedes a others[m] := by
      rw [← hia]
      exact pairwise_iff_getElem.mp hsorted' i m (by omega) hm (by omega)
    have hlt : j < m := by
      rcases lt_trichotomy j m with h | h | h
      · exact h
      · subst h
        exact absurd (hja.symm.trans hsame) hne
      · have hafter : Precedes entries[m] entries[j] := pairwise_iff_getElem.mp hsorted m j hm' hj h
        rw [hsame, hja] at hafter
        exact absurd (hprecedes.antisymm hafter) hne
    rw [← hja]
    exact getElem_mem_take hj hlt
  have hperm : (others.take m).Perm (entries.take m) := by
    apply (subperm_of_subset (hnodup.sublist (take_sublist m _)) hbefore).perm_of_length_le
    rw [length_take, length_take]
    omega
  exact hperm.symm.eq_of_pairwise (fun a b _ _ hab hba => hab.antisymm hba)
    (hsorted.sublist (take_sublist m _)) (hsorted'.sublist (take_sublist m _))

end Prefixes

section Pages

variable {α : Type*} {entries : List α} {size : ℕ} {x : α}

/-- The pages of a list without repetitions show every entry once. -/
theorem existsUnique_page (hnodup : entries.Nodup) (hsize : 0 < size) (hx : x ∈ entries) :
    ∃! k, x ∈ (entries.drop (k * size)).take size := by
  have hpage : ∀ k, x ∈ (entries.drop (k * size)).take size ↔
      ∃ i, k * size ≤ i ∧ i < k * size + size ∧ entries[i]? = some x := by
    intro k
    rw [mem_iff_getElem?]
    constructor
    · rintro ⟨j, hj⟩
      have hlt : j < size := by
        by_contra h
        rw [getElem?_take, if_neg h] at hj
        cases hj
      rw [getElem?_take_of_lt hlt, getElem?_drop] at hj
      exact ⟨k * size + j, by omega, by omega, hj⟩
    · rintro ⟨i, hle, hlt, hi⟩
      refine ⟨i - k * size, ?_⟩
      rw [getElem?_take_of_lt (by omega), getElem?_drop, Nat.add_sub_cancel' hle]
      exact hi
  obtain ⟨i, hi, rfl⟩ := mem_iff_getElem.mp hx
  have hat : entries[i]? = some entries[i] := getElem?_eq_getElem hi
  refine ⟨i / size, ?_, ?_⟩
  · dsimp only
    rw [hpage]
    have hdiv : i / size * size + i % size = i := by
      rw [Nat.mul_comm]
      exact Nat.div_add_mod i size
    have hmod := Nat.mod_lt i hsize
    exact ⟨i, by omega, by omega, hat⟩
  · intro k hk
    obtain ⟨j, hle, hlt, hj⟩ := (hpage k).mp hk
    have hji : j = i := by
      obtain ⟨hjlt, hjeq⟩ := List.getElem?_eq_some_iff.mp hj
      exact (hnodup.getElem_inj_iff).mp hjeq
    rw [hji] at hle hlt
    apply (Nat.div_eq_of_lt_le hle ?_).symm
    rw [Nat.add_mul, Nat.one_mul]
    exact hlt

end Pages

end GroupRanking
