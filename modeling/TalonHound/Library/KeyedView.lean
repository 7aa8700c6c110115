import TalonHound.Library.KeyedTable

/-!
# Refreshing a stored view in place

A stored view is a keyed table that should agree with the rows a query returns. A
refresh re-evaluates a part of the query and knows a list of keys that its lookups
reached. It deletes the reached keys that no re-evaluated row carries, and upserts the
re-evaluated rows the table lacks or stores differently. `agrees_refresh_iff` says
exactly when that leaves the stored view in agreement with the whole query.
-/

variable {τ κ γ ν : Type*} [DecidableEq κ]

namespace KeyedTable

open List

variable {key : τ → κ}

/-- The slices `rows[0..n), rows[n..2n), …` that a loop with step `n` writes. -/
def inBatches (n : ℕ) (rows : List τ) : List (List τ) :=
  (List.range rows.length).map fun i => (rows.drop (i * n)).take n

/-- Writing in batches of at least one row misses no row. -/
theorem flatten_inBatches {n : ℕ} (hn : 0 < n) (rows : List τ) :
    (inBatches n rows).flatten = rows := by
  have hprefix : ∀ m, ((List.range m).map fun i => (rows.drop (i * n)).take n).flatten =
      rows.take (m * n) := by
    intro m
    induction m with
    | zero => simp
    | succ m ih =>
      rw [range_succ, map_append, flatten_append, ih, Nat.succ_mul, take_add]
      simp
  rw [inBatches, hprefix, take_of_length_le]
  exact Nat.le_mul_of_pos_right _ hn

/-- Upsert one batch after the other, stopping at the first that is refused. -/
def upsertBatches (rewrites : τ → τ → Bool) (t : KeyedTable key) (batches : List (List τ)) :
    Except UpsertError (KeyedTable key) :=
  batches.foldlM (fun t batch => t.upsertBatch rewrites batch) t

/-- Batches that share no key are all accepted, and write what one pass would. -/
theorem upsertBatches_eq_ok {rewrites : τ → τ → Bool} {batches : List (List τ)}
    (hkeys : (batches.flatten.map key).Nodup) (t : KeyedTable key) :
    t.upsertBatches rewrites batches = .ok (t.upsertAll rewrites batches.flatten) := by
  induction batches generalizing t with
  | nil => rfl
  | cons batch batches ih =>
    rw [flatten_cons, map_append] at hkeys
    have hbatch : t.upsertBatch rewrites batch = .ok (t.upsertAll rewrites batch) :=
      upsertBatch_eq_ok.mpr ⟨hkeys.of_append_left, rfl⟩
    have hrest := ih hkeys.of_append_right (t.upsertAll rewrites batch)
    simp only [upsertBatches, foldlM_cons, hbatch]
    simp only [upsertBatches] at hrest
    change List.foldlM _ (t.upsertAll rewrites batch) batches = _
    rw [hrest, flatten_cons]
    simp [upsertAll, foldl_append]

/-- Batches that are accepted write what one pass over their rows writes. -/
theorem upsertAll_of_upsertBatches {rewrites : τ → τ → Bool} {batches : List (List τ)}
    {t t' : KeyedTable key} (hok : t.upsertBatches rewrites batches = .ok t') :
    t.upsertAll rewrites batches.flatten = t' := by
  induction batches generalizing t with
  | nil => exact Except.ok.inj hok
  | cons batch batches ih =>
    rw [upsertBatches, foldlM_cons] at hok
    cases hbatch : t.upsertBatch rewrites batch with
    | error e =>
      rw [hbatch] at hok
      cases hok
    | ok t₁ =>
      rw [hbatch] at hok
      obtain ⟨-, rfl⟩ := upsertBatch_eq_ok.mp hbatch
      have hrest := ih hok
      rw [flatten_cons, upsertAll, foldl_append]
      exact hrest

end KeyedTable

namespace KeyedView

open KeyedTable

variable {key : τ → κ}

/-- The stored view holds exactly the listed rows, as far as the columns `cols` tell. -/
def Agrees (cols : τ → γ) (t : KeyedTable key) (rows : List τ) : Prop :=
  (∀ r ∈ rows, ∃ s, t.find? (key r) = some s ∧ cols s = cols r) ∧
  ∀ k s, t.find? k = some s → ∃ r ∈ rows, key r = k ∧ cols r = cols s

/-- A table of exactly the listed rows agrees with them. -/
theorem agrees_of_rows_eq {t : KeyedTable key} {rows : List τ} (cols : τ → γ)
    (h : t.rows = rows) : Agrees cols t rows := by
  subst h
  constructor
  · intro r hr
    exact ⟨r, find?_key_of_mem hr, rfl⟩
  · intro k s hs
    rw [find?_eq_some] at hs
    exact ⟨s, hs.1, hs.2, rfl⟩

/-- The re-evaluated rows that the table lacks or stores differently. -/
def toUpsert (changed : τ → τ → Bool) (t : KeyedTable key) (news : List τ) : List τ :=
  news.filter fun r =>
    match t.find? (key r) with
    | none => true
    | some s => changed s r

/-- The reached keys that no re-evaluated row carries. -/
def leaveKeys (key : τ → κ) (reached : List κ) (news : List τ) : List κ :=
  reached.filter fun k => decide (k ∉ news.map key)

@[simp] theorem mem_leaveKeys {reached : List κ} {news : List τ} {k : κ} :
    k ∈ leaveKeys key reached news ↔ k ∈ reached ∧ k ∉ news.map key := by
  simp [leaveKeys]

/-- Delete the keys that leave, then upsert what entered or changed. `changed` is the
comparison made before the statement is sent, `rewrites` the one inside it. -/
def refresh (n : ℕ) (changed rewrites : τ → τ → Bool) (t : KeyedTable key) (reached : List κ)
    (news : List τ) : Except UpsertError (KeyedTable key) :=
  (t.delete (leaveKeys key reached news)).upsertBatches rewrites
    (inBatches n (toUpsert changed t news))

/-- The row stored for a re-evaluated row after the refresh. -/
def settled (changed rewrites : τ → τ → Bool) (stored : Option τ) (r : τ) : τ :=
  settle (fun s a => changed s a && rewrites s a) stored r

/-- When the re-evaluated rows carry distinct keys, the refresh succeeds: it settles each
of them, deletes what left, and touches nothing else. -/
theorem refresh_spec {n : ℕ} (hn : 0 < n) (changed rewrites : τ → τ → Bool)
    (t : KeyedTable key) (reached : List κ) {news : List τ} (hkeys : (news.map key).Nodup) :
    ∃ t', refresh n changed rewrites t reached news = .ok t' ∧
      (∀ r ∈ news, t'.find? (key r) = some (settled changed rewrites (t.find? (key r)) r)) ∧
      ∀ k, k ∉ news.map key → t'.find? k = if k ∈ reached then none else t.find? k := by
  have hsub : (toUpsert changed t news).Sublist news := List.filter_sublist
  have hup : ((inBatches n (toUpsert changed t news)).flatten.map key).Nodup := by
    rw [flatten_inBatches hn]
    exact hkeys.sublist (hsub.map key)
  refine ⟨_, upsertBatches_eq_ok hup _, ?_, ?_⟩
  · intro r hr
    have hstay : key r ∉ leaveKeys key reached news := fun h =>
      (mem_leaveKeys.mp h).2 (List.mem_map_of_mem hr)
    rw [find?_upsertAll hup, flatten_inBatches hn, find?_delete, if_neg hstay]
    by_cases hmem : r ∈ toUpsert changed t news
    · have hfind : (toUpsert changed t news).find? (fun a => decide (key a = key r)) = some r := by
        cases hfind : (toUpsert changed t news).find? (fun a => decide (key a = key r)) with
        | none => simpa using List.find?_eq_none.mp hfind r hmem
        | some a =>
          have ha := hsub.subset (List.mem_of_find?_eq_some hfind)
          have hkey : key a = key r := by simpa using List.find?_some hfind
          rw [List.inj_on_of_nodup_map hkeys ha hr hkey]
      rw [hfind]
      have hchanged := (List.mem_filter.mp hmem).2
      cases hstored : t.find? (key r) with
      | none => rfl
      | some s =>
        rw [hstored] at hchanged
        simp [settled, settle, hchanged]
    · have hfind : (toUpsert changed t news).find? (fun a => decide (key a = key r)) = none := by
        rw [List.find?_eq_none]
        intro a ha hkey
        have hkey : key a = key r := by simpa using hkey
        exact hmem (List.inj_on_of_nodup_map hkeys (hsub.subset ha) hr hkey ▸ ha)
      rw [hfind]
      have hunchanged : ¬ _ := fun h => hmem (List.mem_filter.mpr ⟨hr, h⟩)
      cases hstored : t.find? (key r) with
      | none => simp [hstored] at hunchanged
      | some s =>
        have hsame : changed s r = false := by simpa [hstored] using hunchanged
        simp [settled, settle, hsame]
  · intro k hk
    have hfind : (toUpsert changed t news).find? (fun a => decide (key a = k)) = none := by
      rw [List.find?_eq_none]
      intro a ha hkey
      exact hk (by simpa using ⟨a, hsub.subset ha, by simpa using hkey⟩)
    rw [find?_upsertAll hup, flatten_inBatches hn, hfind, find?_delete]
    simp [hk]

/-- After a refresh a row is an old one that did not leave, or a re-evaluated one. -/
theorem mem_rows_refresh {n : ℕ} (hn : 0 < n) {changed rewrites : τ → τ → Bool}
    {t t' : KeyedTable key} {reached : List κ} {news : List τ}
    (hok : refresh n changed rewrites t reached news = .ok t') {r : τ} (hr : r ∈ t'.rows) :
    r ∈ t.rows ∨ r ∈ news := by
  rw [← upsertAll_of_upsertBatches hok, flatten_inBatches hn] at hr
  rcases mem_rows_upsertAll hr with hmem | hmem
  · exact Or.inl (mem_rows_delete.mp hmem).1
  · exact Or.inr (List.mem_filter.mp hmem).1

/-- The keys after a refresh: those of the re-evaluated rows, and the stored ones that no
lookup reached. -/
theorem hasKey_refresh {n : ℕ} (hn : 0 < n) {changed rewrites : τ → τ → Bool}
    {t t' : KeyedTable key} {reached : List κ} {news : List τ}
    (hok : refresh n changed rewrites t reached news = .ok t') {k : κ} :
    t'.HasKey k ↔ k ∈ news.map key ∨ t.HasKey k ∧ k ∉ reached := by
  rw [← upsertAll_of_upsertBatches hok, flatten_inBatches hn, hasKey_upsertAll, hasKey_delete,
    mem_leaveKeys]
  have hsub : k ∈ (toUpsert changed t news).map key → k ∈ news.map key := fun h =>
    (List.filter_sublist.map key).subset h
  have hstored : k ∈ news.map key → ¬ t.HasKey k → k ∈ (toUpsert changed t news).map key := by
    intro hk hnot
    obtain ⟨r, hr, rfl⟩ := List.mem_map.mp hk
    have hfind : t.find? (key r) = none := by
      rw [hasKey_iff, Bool.not_eq_true, Option.isSome_eq_false_iff, Option.isNone_iff_eq_none]
        at hnot
      exact hnot
    exact List.mem_map_of_mem (List.mem_filter.mpr ⟨hr, by simp [hfind]⟩)
  by_cases hk : k ∈ news.map key
  · by_cases hold : t.HasKey k
    · simp [hk, hold]
    · simp [hk, hold, hstored hk hold]
  · simp only [hk, not_false_eq_true, and_true, false_or]
    constructor
    · rintro (h | h)
      · exact h
      · exact absurd (hsub h) hk
    · exact Or.inl

/-- When a refresh that re-evaluates `news` and reaches `reached` is exact for `rows`. -/
structure RefreshExact (changed rewrites : τ → τ → Bool) (cols : τ → γ) (t : KeyedTable key)
    (reached : List κ) (news rows : List τ) : Prop where
  /-- Each re-evaluated row is a row of the whole query. -/
  sound : ∀ r ∈ news, r ∈ rows
  /-- The whole query returns no key twice. -/
  keyed : ∀ r ∈ rows, ∀ s ∈ rows, key r = key s → r = s
  /-- A row that is not re-evaluated is already stored, and no lookup reaches it. -/
  kept : ∀ r ∈ rows, r ∉ news → key r ∉ reached ∧ ∃ s, t.find? (key r) = some s ∧ cols s = cols r
  /-- A re-evaluated row that is not written again is stored with its own columns. -/
  written : ∀ r ∈ news, ∀ s, t.find? (key r) = some s →
    (changed s r && rewrites s r) = false → cols s = cols r
  /-- A stored key that no lookup reaches is still the key of some row. -/
  live : ∀ k s, t.find? k = some s → k ∉ reached → ∃ r ∈ rows, key r = k

variable {changed rewrites : τ → τ → Bool} {cols : τ → γ} {t : KeyedTable key}
  {reached : List κ} {news rows : List τ}

/-- The key of a row that is not re-evaluated belongs to no re-evaluated row. -/
theorem RefreshExact.not_mem_keys (h : RefreshExact changed rewrites cols t reached news rows)
    {r : τ} (hr : r ∈ rows) (hnews : r ∉ news) : key r ∉ news.map key := by
  intro hmem
  obtain ⟨a, ha, hkey⟩ := List.mem_map.mp hmem
  exact hnews (h.keyed a (h.sound a ha) r hr hkey ▸ ha)

/-- An exact refresh succeeds and leaves the stored view in agreement with the query. -/
theorem RefreshExact.agrees {n : ℕ} (hn : 0 < n) (hnodup : news.Nodup)
    (h : RefreshExact changed rewrites cols t reached news rows) :
    ∃ t', refresh n changed rewrites t reached news = .ok t' ∧ Agrees cols t' rows := by
  have hkeys : (news.map key).Nodup :=
    hnodup.map_on fun a ha b hb hab => h.keyed a (h.sound a ha) b (h.sound b hb) hab
  obtain ⟨t', hok, hnew, hold⟩ := refresh_spec hn changed rewrites t reached hkeys
  have hsettled : ∀ r ∈ news, cols (settled changed rewrites (t.find? (key r)) r) = cols r := by
    intro r hr
    unfold settled settle
    split
    · rfl
    · next s hstored =>
      split
      · rfl
      · next hsame => exact h.written r hr s hstored (by simpa using hsame)
  refine ⟨t', hok, ?_, ?_⟩
  · intro r hr
    by_cases hmem : r ∈ news
    · exact ⟨_, hnew r hmem, hsettled r hmem⟩
    · obtain ⟨hreached, s, hstored, hcols⟩ := h.kept r hr hmem
      exact ⟨s, by rw [hold _ (h.not_mem_keys hr hmem), if_neg hreached, hstored], hcols⟩
  · intro k s hfind
    by_cases hk : k ∈ news.map key
    · obtain ⟨r, hr, rfl⟩ := List.mem_map.mp hk
      rw [hnew r hr] at hfind
      cases hfind
      exact ⟨r, h.sound r hr, rfl, (hsettled r hr).symm⟩
    · rw [hold k hk] at hfind
      by_cases hreached : k ∈ reached
      · simp [hreached] at hfind
      · rw [if_neg hreached] at hfind
        obtain ⟨r, hr, rfl⟩ := h.live k s hfind hreached
        have hmem : r ∉ news := fun hmem => hk (List.mem_map_of_mem hmem)
        obtain ⟨_, s', hstored, hcols⟩ := h.kept r hr hmem
        rw [hfind] at hstored
        cases hstored
        exact ⟨r, hr, rfl, hcols.symm⟩

/-- A refresh of rows with distinct keys that leaves the view in agreement was exact.
`ident` names the source row: it is among the columns, tells the rows of the query
apart, and a stored row counts as unchanged only under the same name. -/
theorem RefreshExact.of_agrees {n : ℕ} (hn : 0 < n) {ident : τ → ν}
    (hcols : ∀ a b, cols a = cols b → ident a = ident b)
    (hident : ∀ a ∈ news ++ rows, ∀ b ∈ news ++ rows, ident a = ident b → a = b)
    (hchanged : ∀ s a, (changed s a && rewrites s a) = false → ident s = ident a)
    (hkeys : (news.map key).Nodup)
    (h : ∃ t', refresh n changed rewrites t reached news = .ok t' ∧ Agrees cols t' rows) :
    RefreshExact changed rewrites cols t reached news rows := by
  obtain ⟨t', hok, hall, honly⟩ := h
  obtain ⟨t'', hok', hnew, hold⟩ := refresh_spec hn changed rewrites t reached hkeys
  rw [hok] at hok'
  obtain rfl := Except.ok.inj hok'
  have hname : ∀ r ∈ news, ident (settled changed rewrites (t.find? (key r)) r) = ident r := by
    intro r hr
    unfold settled settle
    split
    · rfl
    · split
      · rfl
      · next hsame => exact hchanged _ r (by simpa using hsame)
  -- The row of the query behind a re-evaluated row is that row itself.
  have hself : ∀ r ∈ news, r ∈ rows ∧
      cols (settled changed rewrites (t.find? (key r)) r) = cols r := by
    intro r hr
    obtain ⟨a, ha, _, hcols'⟩ := honly _ _ (hnew r hr)
    have hsame : a = r := hident a (by simp [ha]) r (by simp [hr])
      ((hcols _ _ hcols').trans (hname r hr))
    exact ⟨hsame ▸ ha, hsame ▸ hcols'.symm⟩
  have hkeyed : ∀ r ∈ rows, ∀ s ∈ rows, key r = key s → r = s := by
    intro r hr s hs hkey
    obtain ⟨a, hfind, hcols'⟩ := hall r hr
    obtain ⟨b, hfind', hcols''⟩ := hall s hs
    rw [← hkey, hfind] at hfind'
    cases hfind'
    exact hident r (by simp [hr]) s (by simp [hs]) (hcols _ _ (hcols'.symm.trans hcols''))
  refine ⟨fun r hr => (hself r hr).1, hkeyed, ?_, ?_, ?_⟩
  · intro r hr hmem
    have hk : key r ∉ news.map key := by
      intro hk
      obtain ⟨a, ha, hkey⟩ := List.mem_map.mp hk
      exact hmem (hkeyed a (hself a ha).1 r hr hkey ▸ ha)
    obtain ⟨s, hfind, hcols'⟩ := hall r hr
    rw [hold _ hk] at hfind
    by_cases hreached : key r ∈ reached
    · simp [hreached] at hfind
    · exact ⟨hreached, s, by simpa [hreached] using hfind, hcols'⟩
  · intro r hr s hstored hsame
    have := (hself r hr).2
    simpa [settled, settle, hstored, hsame] using this
  · intro k s hstored hreached
    by_cases hk : k ∈ news.map key
    · obtain ⟨r, hr, rfl⟩ := List.mem_map.mp hk
      exact ⟨r, (hself r hr).1, rfl⟩
    · obtain ⟨r, hr, hkey, _⟩ := honly k s (by rw [hold k hk, if_neg hreached, hstored])
      exact ⟨r, hr, hkey⟩

end KeyedView
