import Mathlib.Data.Finset.Card

/-!
# Collecting keys from several sources within one budget

A collector reads a list of sources into a set of keys that may hold at most `limit` of
them, and raises a flag when it gives up. A source is read in one of two ways: either one
row more than the limit is asked for, so that a longer source shows, or only as many rows
as the set has room for, so that it does not. The results say when a flag that was not
raised means that every row of every source is in the set.
-/

namespace BudgetedCollect

open Bool List

variable {ρ κ : Type*} [DecidableEq κ]

/-- How many rows are asked of a source. -/
inductive Quota where
  /-- As many as there is room for, at least one, unless the flag is up. -/
  | remaining
  /-- One more than the limit, unless the flag is up. -/
  | counted
  /-- One more than the limit, always. -/
  | countedAlways
  deriving DecidableEq

/-- A query, with the rows it returns without a limit. -/
structure Source (ρ : Type*) where
  quota : Quota
  rows : List ρ
  deriving DecidableEq

/-- What has been collected: the keys in the order they arrived, the rows they came with,
and the flag. -/
structure Collected (ρ κ : Type*) where
  keys : List κ
  rows : List ρ
  truncated : Bool

/-- A set that keeps the order of arrival. -/
def insertKey (k : κ) (keys : List κ) : List κ :=
  if k ∈ keys then keys else keys ++ [k]

/-- Add rows one by one; a row that arrives when the set is full raises the flag and ends
the reading. -/
def addRows (key : ρ → κ) (limit : ℕ) (c : Collected ρ κ) : List ρ → Collected ρ κ
  | [] => c
  | r :: rest =>
    if limit ≤ c.keys.length then { c with truncated := true }
    else addRows key limit { c with keys := insertKey (key r) c.keys, rows := c.rows ++ [r] } rest

/-- Ask for one row more than the limit, and raise the flag when it comes. -/
def readCounted (key : ρ → κ) (limit : ℕ) (c : Collected ρ κ) (rows : List ρ) :
    Collected ρ κ :=
  let fetched := rows.take (limit + 1)
  addRows key limit { c with truncated := c.truncated || decide (limit < fetched.length) }
    (fetched.take limit)

/-- Read one source. -/
def read (key : ρ → κ) (limit : ℕ) (c : Collected ρ κ) (s : Source ρ) : Collected ρ κ :=
  match s.quota with
  | .remaining =>
    if c.truncated then c
    else addRows key limit c (s.rows.take (max (limit - c.keys.length) 1))
  | .counted => if c.truncated then c else readCounted key limit c s.rows
  | .countedAlways => readCounted key limit c s.rows

/-- Read the sources in order. -/
def readAll (key : ρ → κ) (limit : ℕ) (c : Collected ρ κ) (sources : List (Source ρ)) :
    Collected ρ κ :=
  sources.foldl (read key limit) c

/-- The keys of some rows. -/
def keysOf (key : ρ → κ) (rows : List ρ) : Finset κ := (rows.map key).toFinset

/-- The keys of all rows of some sources. -/
def keysOfSources (key : ρ → κ) (sources : List (Source ρ)) : Finset κ :=
  keysOf key (sources.flatMap Source.rows)

/-- The collected keys are this set. -/
structure Collected.Holds (c : Collected ρ κ) (keys : Finset κ) : Prop where
  nodup : c.keys.Nodup
  toFinset_eq : c.keys.toFinset = keys

/-- A source that is asked for the remaining room only loses no key after `before`: there is
no room, and the first row raises the flag, or the rows past the room repeat keys. -/
def Whole (key : ρ → κ) (limit : ℕ) (before : Finset κ) (rows : List ρ) : Prop :=
  limit ≤ before.card ∨ ∀ r ∈ rows.drop (limit - before.card),
    key r ∈ before ∪ keysOf key (rows.take (limit - before.card))
  deriving Decidable

/-- Every source of the list that is asked for the remaining room is whole after the ones
before it. -/
def AllWhole (key : ρ → κ) (limit : ℕ) (before : Finset κ) (sources : List (Source ρ)) : Prop :=
  ∀ earlier s later, sources = earlier ++ s :: later → s.quota = .remaining →
    Whole key limit (before ∪ keysOfSources key earlier) s.rows

variable {key : ρ → κ} {limit : ℕ} {c : Collected ρ κ} {before : Finset κ} {rows : List ρ}
  {s : Source ρ} {sources : List (Source ρ)}

@[simp] theorem keysOf_nil : keysOf key [] = ∅ := rfl

@[simp] theorem keysOf_cons (r : ρ) : keysOf key (r :: rows) = insert (key r) (keysOf key rows) := by
  simp [keysOf]

@[simp] theorem keysOf_append (rows' : List ρ) :
    keysOf key (rows ++ rows') = keysOf key rows ∪ keysOf key rows' := by
  simp [keysOf]

theorem mem_keysOf {k : κ} : k ∈ keysOf key rows ↔ ∃ r ∈ rows, key r = k := by
  simp [keysOf]

@[simp] theorem keysOfSources_cons :
    keysOfSources key (s :: sources) = keysOf key s.rows ∪ keysOfSources key sources := by
  simp [keysOfSources]

@[simp] theorem keysOfSources_append (sources' : List (Source ρ)) :
    keysOfSources key (sources ++ sources') =
      keysOfSources key sources ∪ keysOfSources key sources' := by
  simp [keysOfSources]

theorem keysOfSources_eq_empty (h : ∀ s ∈ sources, s.rows = []) :
    keysOfSources key sources = ∅ := by
  have hrows : sources.flatMap Source.rows = [] := flatMap_eq_nil_iff.mpr h
  rw [keysOfSources, hrows, keysOf_nil]

theorem Collected.Holds.card (h : c.Holds before) : c.keys.length = before.card := by
  rw [← h.toFinset_eq, toFinset_card_of_nodup h.nodup]

theorem Collected.Holds.mem_iff (h : c.Holds before) {k : κ} : k ∈ c.keys ↔ k ∈ before := by
  rw [← h.toFinset_eq, mem_toFinset]

/-- Inserting a key keeps a set a set. -/
theorem Collected.Holds.insertKey (h : c.Holds before) (k : κ) (rows : List ρ) (b : Bool) :
    (⟨BudgetedCollect.insertKey k c.keys, rows, b⟩ : Collected ρ κ).Holds (insert k before) := by
  unfold BudgetedCollect.insertKey
  by_cases hk : k ∈ c.keys
  · have hmem : k ∈ before := h.mem_iff.mp hk
    refine ⟨by simpa [hk] using h.nodup, ?_⟩
    simp only [hk, if_true, h.toFinset_eq, Finset.insert_eq_of_mem hmem]
  · constructor
    · simp only [hk, if_false]
      refine nodup_append.mpr ⟨h.nodup, nodup_singleton k, ?_⟩
      intro a ha b hb heq
      obtain rfl := mem_singleton.mp hb
      exact hk (heq ▸ ha)
    · simp only [hk, if_false, toFinset_append, h.toFinset_eq]
      ext x
      simp

theorem addRows_of_truncated (h : c.truncated = true) :
    (addRows key limit c rows).truncated = true := by
  induction rows generalizing c with
  | nil => exact h
  | cons r rest ih =>
    rw [addRows]
    split
    · rfl
    · exact ih h

theorem read_of_truncated (h : c.truncated = true) : (read key limit c s).truncated = true := by
  unfold read readCounted
  split
  · rw [if_pos h]
    exact h
  · rw [if_pos h]
    exact h
  · apply addRows_of_truncated
    simp only [h, Bool.true_or]

theorem readAll_of_truncated (h : c.truncated = true) :
    (readAll key limit c sources).truncated = true := by
  induction sources generalizing c with
  | nil => exact h
  | cons s rest ih => exact ih (read_of_truncated h)

theorem not_truncated_of_readAll (h : (readAll key limit c sources).truncated = false) :
    c.truncated = false := by
  by_contra htruncated
  rw [readAll_of_truncated (not_eq_false _ ▸ htruncated)] at h
  cases h

/-- Rows that were all added are all held. -/
theorem addRows_holds (hc : c.Holds before)
    (h : (addRows key limit c rows).truncated = false) :
    (addRows key limit c rows).Holds (before ∪ keysOf key rows) := by
  induction rows generalizing c before with
  | nil => simpa [addRows] using hc
  | cons r rest ih =>
    rw [addRows] at h ⊢
    split at h
    · cases h
    · next hroom =>
      rw [if_neg hroom]
      have hnext := ih (hc.insertKey (key r) (c.rows ++ [r]) c.truncated) h
      rwa [Finset.insert_union, ← Finset.union_insert, ← keysOf_cons] at hnext

/-- Rows for which there is room raise no flag. -/
theorem addRows_truncated_of_fits (hc : c.Holds before)
    (hfits : before.card + rows.length ≤ limit) :
    (addRows key limit c rows).truncated = c.truncated := by
  induction rows generalizing c before with
  | nil => rfl
  | cons r rest ih =>
    have hroom : ¬ limit ≤ c.keys.length := by
      rw [hc.card]
      simp only [length_cons] at hfits
      omega
    rw [addRows, if_neg hroom]
    refine ih (hc.insertKey (key r) (c.rows ++ [r]) c.truncated) ?_
    have hcard := Finset.card_insert_le (key r) before
    simp only [length_cons] at hfits
    omega

/-- Rows that leave the set with room raise no flag. -/
theorem addRows_truncated_of_card_lt (hc : c.Holds before)
    (hfits : (before ∪ keysOf key rows).card < limit) :
    (addRows key limit c rows).truncated = c.truncated := by
  induction rows generalizing c before with
  | nil => rfl
  | cons r rest ih =>
    have hle : before.card ≤ (before ∪ keysOf key (r :: rest)).card :=
      Finset.card_le_card Finset.subset_union_left
    have hroom : ¬ limit ≤ c.keys.length := by
      rw [hc.card]
      omega
    rw [addRows, if_neg hroom]
    refine ih (hc.insertKey (key r) (c.rows ++ [r]) c.truncated) ?_
    rwa [Finset.insert_union, ← Finset.union_insert, ← keysOf_cons]

/-- What the rows asked for within the room hold, when the source is whole. -/
theorem Whole.union_take (h : Whole key limit before rows) (hroom : before.card < limit) :
    before ∪ keysOf key (rows.take (limit - before.card)) = before ∪ keysOf key rows := by
  have hdrop := h.resolve_left (by omega)
  refine Finset.Subset.antisymm (Finset.union_subset_union_right ?_) ?_
  · intro k hk
    obtain ⟨r, hr, rfl⟩ := mem_keysOf.mp hk
    exact mem_keysOf.mpr ⟨r, mem_of_mem_take hr, rfl⟩
  · refine Finset.union_subset Finset.subset_union_left fun k hk => ?_
    obtain ⟨r, hr, rfl⟩ := mem_keysOf.mp hk
    rw [← take_append_drop (limit - before.card) rows, mem_append] at hr
    rcases hr with hr | hr
    · exact Finset.mem_union_right _ (mem_keysOf.mpr ⟨r, hr, rfl⟩)
    · exact hdrop r hr

/-- A counted source that was read without a flag is held whole. -/
theorem readCounted_holds (hc : c.Holds before)
    (h : (readCounted key limit c rows).truncated = false) :
    (readCounted key limit c rows).Holds (before ∪ keysOf key rows) := by
  have hshort : rows.length ≤ limit := by
    by_contra hlong
    have hflag : (c.truncated || decide (limit < (rows.take (limit + 1)).length)) = true := by
      simp only [or_eq_true, decide_eq_true_eq, length_take]
      omega
    rw [readCounted, addRows_of_truncated hflag] at h
    cases h
  have htake : (rows.take (limit + 1)).take limit = rows := by
    rw [take_take, take_of_length_le (by omega)]
  have hstart : (⟨c.keys, c.rows, c.truncated || decide (limit < (rows.take (limit + 1)).length)⟩ :
      Collected ρ κ).Holds before := ⟨hc.nodup, hc.toFinset_eq⟩
  have hall := addRows_holds hstart h
  rw [readCounted]
  rwa [htake] at hall ⊢

/-- A source that was read without a flag is held whole, if it loses nothing to the room. -/
theorem read_holds (hc : c.Holds before)
    (hwhole : s.quota = .remaining → Whole key limit before s.rows)
    (h : (read key limit c s).truncated = false) :
    (read key limit c s).Holds (before ∪ keysOf key s.rows) := by
  have htruncated : c.truncated = false := by
    by_contra hc
    rw [read_of_truncated (not_eq_false _ ▸ hc)] at h
    cases h
  unfold read at h ⊢
  cases hquota : s.quota with
  | remaining =>
    simp only [hquota, htruncated, false_eq_true, if_false] at h ⊢
    have hadded := addRows_holds hc h
    rw [hc.card] at hadded h ⊢
    by_cases hroom : before.card < limit
    · have hmax : max (limit - before.card) 1 = limit - before.card := by omega
      rw [hmax] at hadded ⊢
      rwa [(hwhole hquota).union_take hroom] at hadded
    · -- no room: a first row would have raised the flag
      have hnil : s.rows = [] := by
        cases hrows : s.rows with
        | nil => rfl
        | cons r rest =>
          have hmax : max (limit - before.card) 1 = 1 := by omega
          have hfull : limit ≤ c.keys.length := by
            rw [hc.card]
            omega
          rw [hrows, hmax, take_succ_cons, addRows, if_pos hfull] at h
          cases h
      rw [hnil] at hadded ⊢
      simpa using hadded
  | counted =>
    simp only [hquota, htruncated, false_eq_true, if_false] at h ⊢
    exact readCounted_holds hc h
  | countedAlways =>
    simp only [hquota] at h ⊢
    exact readCounted_holds hc h

theorem allWhole_nil : AllWhole key limit before [] := by
  intro earlier s later heq
  simp at heq

/-- The first source is whole, and the others are after it. -/
theorem allWhole_cons : AllWhole key limit before (s :: sources) ↔
    (s.quota = .remaining → Whole key limit before s.rows) ∧
      AllWhole key limit (before ∪ keysOf key s.rows) sources := by
  constructor
  · intro h
    refine ⟨fun hquota => ?_, ?_⟩
    · simpa [keysOfSources] using h [] s sources rfl hquota
    · intro earlier s' later heq hquota
      have hwhole := h (s :: earlier) s' later (by rw [heq, cons_append]) hquota
      rwa [keysOfSources_cons, ← Finset.union_assoc] at hwhole
  · rintro ⟨hfirst, hrest⟩ earlier s' later heq hquota
    cases earlier with
    | nil =>
      obtain ⟨rfl, rfl⟩ := List.cons.inj heq
      simpa [keysOfSources] using hfirst hquota
    | cons e earlier =>
      obtain ⟨rfl, rfl⟩ := List.cons.inj heq
      rw [keysOfSources_cons, ← Finset.union_assoc]
      exact hrest earlier s' later rfl hquota

instance decidableAllWhole (key : ρ → κ) (limit : ℕ) :
    ∀ (before : Finset κ) (sources : List (Source ρ)), Decidable (AllWhole key limit before sources)
  | _, [] => isTrue allWhole_nil
  | before, s :: rest =>
    have := decidableAllWhole key limit (before ∪ keysOf key s.rows) rest
    decidable_of_iff _ allWhole_cons.symm

/-- If every source is whole, a flag that was not raised means that every key is held. -/
theorem readAll_holds (hc : c.Holds before) (hwhole : AllWhole key limit before sources)
    (h : (readAll key limit c sources).truncated = false) :
    (readAll key limit c sources).Holds (before ∪ keysOfSources key sources) := by
  induction sources generalizing c before with
  | nil => simpa [readAll, keysOfSources] using hc
  | cons s rest ih =>
    have hfirst : (read key limit c s).truncated = false := not_truncated_of_readAll h
    obtain ⟨hs, hrest⟩ := allWhole_cons.mp hwhole
    have hrest := ih (read_holds hc hs hfirst) hrest h
    rwa [Finset.union_assoc, ← keysOfSources_cons] at hrest

/-- A source that leaves the set with room raises no flag, if it is not longer than the
limit where that is counted. -/
theorem read_truncated_of_card_lt (hc : c.Holds before) (htruncated : c.truncated = false)
    (hshort : s.quota ≠ .remaining → s.rows.length ≤ limit)
    (hfits : (before ∪ keysOf key s.rows).card < limit) :
    (read key limit c s).truncated = false := by
  have hsub : ∀ n, (before ∪ keysOf key (s.rows.take n)).card < limit := by
    intro n
    refine lt_of_le_of_lt (Finset.card_le_card (Finset.union_subset_union_right ?_)) hfits
    intro k hk
    obtain ⟨r, hr, rfl⟩ := mem_keysOf.mp hk
    exact mem_keysOf.mpr ⟨r, mem_of_mem_take hr, rfl⟩
  have hcounted : s.quota ≠ .remaining → (readCounted key limit c s.rows).truncated = false := by
    intro hquota
    have hlength := hshort hquota
    have htake : (s.rows.take (limit + 1)).take limit = s.rows.take limit := by
      rw [take_take, Nat.min_eq_left (by omega)]
    have hflag : ¬ limit < (s.rows.take (limit + 1)).length := by
      rw [length_take]
      omega
    have hstart : (⟨c.keys, c.rows,
        c.truncated || decide (limit < (s.rows.take (limit + 1)).length)⟩ :
        Collected ρ κ).Holds before := ⟨hc.nodup, hc.toFinset_eq⟩
    rw [readCounted, htake, addRows_truncated_of_card_lt hstart (hsub limit)]
    simp only [htruncated, hflag, decide_false, Bool.or_false]
  unfold read
  cases hquota : s.quota with
  | remaining =>
    simp only [htruncated, false_eq_true, if_false]
    rw [addRows_truncated_of_card_lt hc (hsub _)]
    exact htruncated
  | counted =>
    simp only [htruncated, false_eq_true, if_false]
    exact hcounted (by simp [hquota])
  | countedAlways => exact hcounted (by simp [hquota])

/-- Sources that leave the set with room raise no flag. -/
theorem readAll_truncated_of_card_lt (hc : c.Holds before) (htruncated : c.truncated = false)
    (hwhole : AllWhole key limit before sources)
    (hshort : ∀ s ∈ sources, s.quota ≠ .remaining → s.rows.length ≤ limit)
    (hfits : (before ∪ keysOfSources key sources).card < limit) :
    (readAll key limit c sources).truncated = false := by
  induction sources generalizing c before with
  | nil => exact htruncated
  | cons s rest ih =>
    rw [keysOfSources_cons, ← Finset.union_assoc] at hfits
    have hfirst := read_truncated_of_card_lt hc htruncated (hshort s mem_cons_self)
      (lt_of_le_of_lt (Finset.card_le_card Finset.subset_union_left) hfits)
    obtain ⟨hs, hrest⟩ := allWhole_cons.mp hwhole
    exact ih (read_holds hc hs hfirst) hfirst hrest (fun s hs => hshort s (.tail _ hs)) hfits

/-- Sources without rows change nothing. -/
theorem readAll_of_empty (htruncated : c.truncated = false) (h : ∀ s ∈ sources, s.rows = []) :
    readAll key limit c sources = c := by
  induction sources generalizing c with
  | nil => rfl
  | cons s rest ih =>
    have hread : read key limit c s = c := by
      obtain ⟨keys, rows, truncated⟩ := c
      obtain rfl : truncated = false := htruncated
      unfold read readCounted
      rw [h s mem_cons_self]
      cases s.quota <;> simp [addRows]
    rw [readAll, foldl_cons, hread]
    exact ih htruncated fun s hs => h s (.tail _ hs)

/-- At a source that is asked for the remaining room, after whole and counted sources and
before empty ones: the keys are complete whenever no flag was raised exactly if the source
is whole. -/
theorem readAll_complete_iff {earlier later : List (Source ρ)} (hc : c.Holds before)
    (htruncated : c.truncated = false) (hearlier : AllWhole key limit before earlier)
    (hshort : ∀ s ∈ earlier, s.quota ≠ .remaining → s.rows.length ≤ limit)
    (hquota : s.quota = .remaining) (hlater : ∀ s ∈ later, s.rows = []) :
    ((readAll key limit c (earlier ++ s :: later)).truncated = false →
        ∀ k ∈ keysOfSources key (earlier ++ s :: later),
          k ∈ (readAll key limit c (earlier ++ s :: later)).keys) ↔
      Whole key limit (before ∪ keysOfSources key earlier) s.rows := by
  have hsplit : readAll key limit c (earlier ++ s :: later) =
      readAll key limit (read key limit (readAll key limit c earlier) s) later := by
    simp only [readAll, foldl_append, foldl_cons]
  by_cases hroom : (before ∪ keysOfSources key earlier).card < limit
  · have huntil := readAll_truncated_of_card_lt hc htruncated hearlier hshort hroom
    have hholds := readAll_holds hc hearlier huntil
    have hread : read key limit (readAll key limit c earlier) s =
        addRows key limit (readAll key limit c earlier)
          (s.rows.take (limit - (before ∪ keysOfSources key earlier).card)) := by
      unfold read
      simp only [hquota, huntil, false_eq_true, if_false, hholds.card]
      rw [Nat.max_eq_left (by omega)]
    have hflag : (read key limit (readAll key limit c earlier) s).truncated = false := by
      rw [hread, addRows_truncated_of_fits hholds, huntil]
      rw [length_take]
      omega
    have hkeys := addRows_holds hholds (hread ▸ hflag)
    rw [← hread] at hkeys
    rw [hsplit, readAll_of_empty hflag hlater, hflag]
    constructor
    · intro hcomplete
      refine Or.inr fun r hr => hkeys.mem_iff.mp (hcomplete rfl _ ?_)
      rw [keysOfSources_append, keysOfSources_cons]
      refine Finset.mem_union_right _ (Finset.mem_union_left _ ?_)
      exact mem_keysOf.mpr ⟨r, mem_of_mem_drop hr, rfl⟩
    · intro hwhole _ k hk
      rw [hkeys.mem_iff, hwhole.union_take hroom, Finset.union_assoc]
      rw [keysOfSources_append, keysOfSources_cons, keysOfSources_eq_empty hlater,
        Finset.union_empty] at hk
      exact Finset.mem_union_right _ hk
  · have hwhole : Whole key limit (before ∪ keysOfSources key earlier) s.rows := Or.inl (by omega)
    refine ⟨fun _ => hwhole, fun _ hflag k hk => ?_⟩
    rw [hsplit] at hflag ⊢
    have hread : (read key limit (readAll key limit c earlier) s).truncated = false :=
      not_truncated_of_readAll hflag
    have huntil : (readAll key limit c earlier).truncated = false := by
      by_contra hup
      rw [read_of_truncated (not_eq_false _ ▸ hup)] at hread
      cases hread
    have hholds := read_holds (readAll_holds hc hearlier huntil) (fun _ => hwhole) hread
    rw [readAll_of_empty hread hlater, hholds.mem_iff, Finset.union_assoc]
    rw [keysOfSources_append, keysOfSources_cons, keysOfSources_eq_empty hlater,
      Finset.union_empty] at hk
    exact Finset.mem_union_right _ hk

end BudgetedCollect
