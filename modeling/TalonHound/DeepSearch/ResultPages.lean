import Mathlib.Data.Prod.Lex
import Mathlib.Data.List.TakeDrop
import TalonHound.Library.Keyset

/-!
# Pages of a Deep Search

The spool of a completed Deep Search and the route that reads it page by page. The database keeps
timestamps in microseconds; a cursor passes through a JavaScript `Date` and keeps milliseconds.
-/

namespace TalonHound.DeepSearch

open List Keyset

/-- A row of `ioc_deep_search_results`, as far as its place in the pages depends on it. -/
structure SpoolRow where
  /-- In microseconds. -/
  createdAt : ℤ
  iocItemId : ℕ

/-- What `encodeCursor` gets and `decodeCursor` gives back. -/
structure Cursor where
  /-- In milliseconds. -/
  t : ℤ
  id : ℕ

/-- `(created_at, ioc_item_id)`. -/
def SpoolRow.key (r : SpoolRow) : ℤ ×ₗ ℕ := toLex (r.createdAt, r.iocItemId)

/-- `($t::timestamptz, $id::bigint)`. -/
def Cursor.key (c : Cursor) : ℤ ×ₗ ℕ := toLex (c.t * 1000, c.id)

/-- `new Date(row.created_at).toISOString()` and the id. -/
def SpoolRow.cursor (r : SpoolRow) : Cursor := ⟨r.createdAt / 1000, r.iocItemId⟩

/-- `clampDeepSearchPageSize`; `none` for a text that is no finite number, else the number without
its fraction. -/
def clampDeepSearchPageSize : Option ℤ → ℕ
  | none => 25
  | some n => (min (max n 1) 100).toNat

/-- `ORDER BY created_at DESC, ioc_item_id DESC`. -/
def newestFirst (spool : List SpoolRow) : List SpoolRow :=
  spool.mergeSort fun r s => s.key ≤ r.key

/-- `getResultsPage`. -/
def getResultsPage (spool : List SpoolRow) (cursor : Option Cursor) (limit : ℕ) : List SpoolRow :=
  let rows := match cursor with
    | some c => spool.filter fun r => r.key < c.key
    | none => spool
  (newestFirst rows).take (min (max limit 1) 100)

/-- The answer of `GET /api/iocs/deep-searches/:id/results`. -/
structure ResultPage where
  items : List SpoolRow
  hasMore : Bool
  nextCursor : Option Cursor

def resultPage (spool : List SpoolRow) (cursor : Option Cursor) (size : Option ℤ) : ResultPage :=
  let pageSize := clampDeepSearchPageSize size
  let rows := getResultsPage spool cursor (pageSize + 1)
  let hasMore := pageSize < rows.length
  let pageRows := rows.take pageSize
  { items := pageRows
    hasMore := hasMore
    nextCursor := if hasMore then pageRows.getLast?.map SpoolRow.cursor else none }

/-- The rows of all pages from a cursor on, when page `k` is asked for with `sizes k`. -/
def followPages (spool : List SpoolRow) :
    ℕ → (ℕ → Option ℤ) → Option Cursor → Option (List SpoolRow)
  | 0, _, _ => none
  | fuel + 1, sizes, cursor =>
    let page := resultPage spool cursor (sizes 0)
    if page.hasMore then
      (followPages spool fuel (fun k => sizes (k + 1)) page.nextCursor).map (page.items ++ ·)
    else some page.items

/-- The rows of the first pages. -/
def pageEnd (sizes : ℕ → Option ℤ) : ℕ → ℕ
  | 0 => 0
  | k + 1 => clampDeepSearchPageSize (sizes 0) + pageEnd (fun k => sizes (k + 1)) k

/-- The boundary after page `k` loses no row: the page has less than 100 rows, and the row after it
lies below the cursor. -/
def ClearBoundary (rows : List SpoolRow) (sizes : ℕ → Option ℤ) (k : ℕ) : Prop :=
  ∀ last ∈ rows[pageEnd sizes (k + 1) - 1]?, ∀ next ∈ rows[pageEnd sizes (k + 1)]?,
    clampDeepSearchPageSize (sizes k) < 100 ∧ next.key < last.cursor.key

variable {spool rows : List SpoolRow} {sizes : ℕ → Option ℤ} {cursor : Option Cursor}

theorem clampDeepSearchPageSize_pos (size : Option ℤ) : 0 < clampDeepSearchPageSize size := by
  cases size with
  | none => decide
  | some n =>
    change 0 < (min (max n 1) 100).toNat
    omega

theorem clampDeepSearchPageSize_le (size : Option ℤ) : clampDeepSearchPageSize size ≤ 100 := by
  cases size with
  | none => decide
  | some n =>
    change (min (max n 1) 100).toNat ≤ 100
    omega

/-- A cursor lies at its row or below it. -/
theorem cursor_key_le (r : SpoolRow) : r.cursor.key ≤ r.key := by
  unfold Cursor.key SpoolRow.key SpoolRow.cursor
  rw [Prod.Lex.toLex_le_toLex]
  have hcut : r.createdAt / 1000 * 1000 ≤ r.createdAt := Int.ediv_mul_le _ (by decide)
  rcases hcut.lt_or_eq with hlt | heq
  · exact Or.inl hlt
  · exact Or.inr ⟨heq, le_refl _⟩

theorem descending_newestFirst (spool : List SpoolRow) :
    Descending SpoolRow.key (newestFirst spool) := by
  have hsorted : (newestFirst spool).Pairwise fun r s => decide (s.key ≤ r.key) = true :=
    pairwise_mergeSort
      (fun a b c hab hbc => by
        simp only [decide_eq_true_eq] at *
        exact hbc.trans hab)
      (fun a b => by simpa using le_total b.key a.key) spool
  exact hsorted.imp fun h => by simpa using h

theorem newestFirst_perm (spool : List SpoolRow) : (newestFirst spool).Perm spool :=
  mergeSort_perm _ _

theorem key_injective : Function.Injective SpoolRow.key := by
  intro r s h
  obtain ⟨hcreated, hid⟩ := Prod.mk.inj (toLex_inj.mp h)
  cases r
  cases s
  subst hcreated hid
  rfl

/-- Rows in descending order stand in one order only. -/
theorem eq_of_perm {rows' : List SpoolRow} (hperm : rows.Perm rows')
    (h : Descending SpoolRow.key rows) (h' : Descending SpoolRow.key rows') : rows = rows' :=
  hperm.eq_of_pairwise (fun _ _ _ _ hle hge => key_injective (le_antisymm hge hle)) h h'

theorem newestFirst_filter {p : SpoolRow → Bool} :
    newestFirst (spool.filter p) = (newestFirst spool).filter p := by
  refine eq_of_perm ?_ (descending_newestFirst _) ((descending_newestFirst spool).filter _)
  exact (newestFirst_perm _).trans ((newestFirst_perm spool).filter p).symm

/-- The rows that a cursor leaves. -/
def remaining (spool : List SpoolRow) : Option Cursor → List SpoolRow
  | some c => below SpoolRow.key c.key (newestFirst spool)
  | none => newestFirst spool

theorem getResultsPage_eq {limit : ℕ} :
    getResultsPage spool cursor limit = (remaining spool cursor).take (min (max limit 1) 100) := by
  cases cursor with
  | none => rfl
  | some c =>
    unfold getResultsPage
    dsimp only
    rw [newestFirst_filter]
    rfl

theorem descending_remaining : Descending SpoolRow.key (remaining spool cursor) := by
  cases cursor with
  | none => exact descending_newestFirst spool
  | some c => exact (descending_newestFirst spool).filter _

/-- A page that is not the last shows its rows, and the cursor at its last row. -/
theorem resultPage_more {size : Option ℤ} (hsize : clampDeepSearchPageSize size < 100)
    (hlength : clampDeepSearchPageSize size < (remaining spool cursor).length) :
    ∃ last, (remaining spool cursor)[clampDeepSearchPageSize size - 1]? = some last ∧
      resultPage spool cursor size =
        ⟨(remaining spool cursor).take (clampDeepSearchPageSize size), true, some last.cursor⟩ := by
  have hpos := clampDeepSearchPageSize_pos size
  unfold resultPage
  dsimp only
  rw [getResultsPage_eq]
  generalize clampDeepSearchPageSize size = n at *
  generalize remaining spool cursor = rows at *
  have hlimit : min (max (n + 1) 1) 100 = n + 1 := by omega
  have hfetched : (rows.take (n + 1)).length = n + 1 := by
    rw [length_take]
    omega
  have hpage : (rows.take (n + 1)).take n = rows.take n := by
    rw [take_take]
    congr 1
    omega
  have hlast : (rows.take n).getLast? = rows[n - 1]? := by
    rw [getLast?_eq_getElem?, length_take, getElem?_take]
    have hmin : min n rows.length - 1 = n - 1 := by omega
    rw [hmin, if_pos (by omega)]
  have hsome : n - 1 < rows.length := by omega
  refine ⟨rows[n - 1], getElem?_eq_getElem hsome, ?_⟩
  rw [hlimit, hfetched, hpage, hlast, getElem?_eq_getElem hsome]
  simp

/-- The last page shows what it fetched. -/
theorem resultPage_last {size : Option ℤ}
    (h : clampDeepSearchPageSize size = 100 ∨
      (remaining spool cursor).length ≤ clampDeepSearchPageSize size) :
    (resultPage spool cursor size).hasMore = false ∧ (resultPage spool cursor size).items =
      (remaining spool cursor).take (clampDeepSearchPageSize size) := by
  have hle := clampDeepSearchPageSize_le size
  unfold resultPage
  dsimp only
  rw [getResultsPage_eq]
  generalize clampDeepSearchPageSize size = n at *
  generalize remaining spool cursor = rows at *
  constructor
  · have hshort : (rows.take (min (max (n + 1) 1) 100)).length ≤ n := by
      rw [length_take]
      omega
    exact decide_eq_false (not_lt.mpr hshort)
  · rw [take_take]
    congr 1
    omega

/-- The boundaries after the first page are those of the rows after it. -/
theorem clearBoundary_succ {k : ℕ} :
    ClearBoundary rows sizes (k + 1) ↔
      ClearBoundary (rows.drop (clampDeepSearchPageSize (sizes 0))) (fun k => sizes (k + 1)) k := by
  have hpos : 0 < pageEnd (fun k => sizes (k + 1)) (k + 1) := by
    have hfirst := clampDeepSearchPageSize_pos (sizes 1)
    change 0 < clampDeepSearchPageSize (sizes 1) + _
    omega
  unfold ClearBoundary
  rw [getElem?_drop, getElem?_drop]
  have hend : pageEnd sizes (k + 1 + 1) =
      clampDeepSearchPageSize (sizes 0) + pageEnd (fun k => sizes (k + 1)) (k + 1) := rfl
  have hlast : pageEnd sizes (k + 1 + 1) - 1 =
      clampDeepSearchPageSize (sizes 0) + (pageEnd (fun k => sizes (k + 1)) (k + 1) - 1) := by
    omega
  rw [hlast, hend]

/-- What the cursor at the last row of a page leaves. -/
theorem remaining_cursor {n : ℕ} {last : SpoolRow} (hpos : 0 < n)
    (hlast : (remaining spool cursor)[n - 1]? = some last) :
    remaining spool (some last.cursor) =
      below SpoolRow.key last.cursor.key ((remaining spool cursor).drop n) := by
  obtain ⟨hlength, hget⟩ := List.getElem?_eq_some_iff.mp hlast
  have hrows : below SpoolRow.key last.cursor.key (remaining spool cursor) =
      remaining spool (some last.cursor) := by
    cases cursor with
    | none => rfl
    | some c =>
      have hmem : last ∈ remaining spool (some c) := hget ▸ getElem_mem hlength
      have hlt : last.key < c.key := by simpa using (mem_filter.mp hmem).2
      exact below_below ((cursor_key_le last).trans hlt.le)
  have hsplit : remaining spool cursor =
      (remaining spool cursor).take (n - 1) ++ last :: (remaining spool cursor).drop n := by
    have hcons := drop_eq_getElem_cons hlength
    rw [hget, Nat.sub_add_cancel hpos] at hcons
    rw [← hcons, take_append_drop]
  have hdesc : Descending SpoolRow.key (remaining spool cursor) := descending_remaining
  rw [← hrows]
  rw [hsplit] at hdesc
  conv_lhs => rw [hsplit]
  exact below_append hdesc (cursor_key_le last)

/-- The boundary after the first page, for the rows after it. -/
theorem clearBoundary_zero {last : SpoolRow}
    (hsize : clampDeepSearchPageSize (sizes 0) < 100)
    (hlast : rows[clampDeepSearchPageSize (sizes 0) - 1]? = some last) :
    ClearBoundary rows sizes 0 ↔ ∀ next ∈ (rows.drop (clampDeepSearchPageSize (sizes 0))).head?,
        next.key < last.cursor.key := by
  have hend : pageEnd sizes (0 + 1) = clampDeepSearchPageSize (sizes 0) := rfl
  unfold ClearBoundary
  rw [hend, hlast, head?_drop]
  constructor
  · intro h next hnext
    exact (h last rfl next hnext).2
  · intro h r hr next hnext
    cases hr
    exact ⟨hsize, h next hnext⟩

/-- Following the cursors ends, shows no row twice, and shows all rows exactly if no boundary loses
one. -/
theorem followPages_remaining {fuel : ℕ} (hfuel : (remaining spool cursor).length < fuel) :
    ∃ items, followPages spool fuel sizes cursor = some items ∧
      items.Sublist (remaining spool cursor) ∧
      (items = remaining spool cursor ↔ ∀ k, ClearBoundary (remaining spool cursor) sizes k) := by
  induction fuel generalizing sizes cursor with
  | zero => omega
  | succ fuel ih =>
    have hpos := clampDeepSearchPageSize_pos (sizes 0)
    have hle := clampDeepSearchPageSize_le (sizes 0)
    by_cases hmore : clampDeepSearchPageSize (sizes 0) < 100 ∧
        clampDeepSearchPageSize (sizes 0) < (remaining spool cursor).length
    · obtain ⟨hsize, hlength⟩ := hmore
      obtain ⟨last, hlast, hpage⟩ := resultPage_more hsize hlength
      have hrest := remaining_cursor hpos hlast
      have hzero := clearBoundary_zero hsize hlast
      have hsucc : ∀ k, ClearBoundary (remaining spool cursor) sizes (k + 1) ↔ _ :=
        fun _ => clearBoundary_succ
      have hsublist : (remaining spool (some last.cursor)).Sublist
          ((remaining spool cursor).drop (clampDeepSearchPageSize (sizes 0))) := by
        rw [hrest]
        exact below_sublist
      have hdesc : Descending SpoolRow.key
          ((remaining spool cursor).drop (clampDeepSearchPageSize (sizes 0))) :=
        descending_remaining.sublist (drop_sublist _ _)
      have hshort : (remaining spool (some last.cursor)).length < fuel := by
        have hdropped := hsublist.length_le
        rw [length_drop] at hdropped
        omega
      obtain ⟨items, hitems, hsub, hiff⟩ :
          ∃ items, followPages spool fuel (fun k => sizes (k + 1)) (some last.cursor) =
              some items ∧ items.Sublist (remaining spool (some last.cursor)) ∧
            (items = remaining spool (some last.cursor) ↔ ∀ k,
              ClearBoundary (remaining spool (some last.cursor)) (fun k => sizes (k + 1)) k) :=
        ih hshort
      have hjoin := take_append_drop (clampDeepSearchPageSize (sizes 0)) (remaining spool cursor)
      refine ⟨(remaining spool cursor).take (clampDeepSearchPageSize (sizes 0)) ++ items, ?_, ?_, ?_⟩
      · simp [followPages, hpage, hitems]
      · conv_rhs => rw [← hjoin]
        exact (List.Sublist.refl _).append (hsub.trans hsublist)
      · -- All rows are shown if the cursor leaves all rows, and the later pages show these.
        have hboth : (remaining spool cursor).take (clampDeepSearchPageSize (sizes 0)) ++ items =
            remaining spool cursor ↔
            remaining spool (some last.cursor) =
              (remaining spool cursor).drop (clampDeepSearchPageSize (sizes 0)) ∧
            items = remaining spool (some last.cursor) := by
          conv_lhs => rhs; rw [← hjoin]
          rw [append_cancel_left_eq]
          constructor
          · rintro rfl
            have heq := hsub.antisymm hsublist
            exact ⟨heq.symm, heq⟩
          · rintro ⟨hall, hshown⟩
            rw [hshown, hall]
        rw [hboth, hiff]
        constructor
        · rintro ⟨hall, hclear⟩ k
          cases k with
          | zero => exact hzero.mpr ((below_eq_self hdesc).mp (hrest.symm.trans hall))
          | succ k => exact (hsucc k).mpr (hall ▸ hclear k)
        · intro hclear
          have hall := hrest.trans ((below_eq_self hdesc).mpr (hzero.mp (hclear 0)))
          exact ⟨hall, fun k => hall ▸ (hsucc k).mp (hclear (k + 1))⟩
    · have hshown : clampDeepSearchPageSize (sizes 0) = 100 ∨
          (remaining spool cursor).length ≤ clampDeepSearchPageSize (sizes 0) := by omega
      obtain ⟨hnone, hitems⟩ := resultPage_last hshown
      refine ⟨(resultPage spool cursor (sizes 0)).items, by simp [followPages, hnone], ?_, ?_⟩
      · rw [hitems]
        exact take_sublist _ _
      · rw [hitems, take_eq_self_iff]
        constructor
        · intro hlength k
          have hend : (remaining spool cursor).length ≤ pageEnd sizes (k + 1) :=
            hlength.trans (Nat.le_add_right _ _)
          intro _ _ next hnext
          rw [getElem?_eq_none hend] at hnext
          cases hnext
        · intro hclear
          by_contra hlong
          have hlength : clampDeepSearchPageSize (sizes 0) < (remaining spool cursor).length := by
            omega
          have hlast : clampDeepSearchPageSize (sizes 0) - 1 < (remaining spool cursor).length := by
            omega
          have hboundary := (hclear 0 _ (getElem?_eq_getElem hlast) _
            (getElem?_eq_getElem hlength)).1
          omega

/-- The pages of a spool show every row once, newest first, exactly if no boundary loses a row. -/
theorem pages_show_spool_iff (spool : List SpoolRow) (sizes : ℕ → Option ℤ) :
    ∃ items, followPages spool (spool.length + 1) sizes none = some items ∧
      ((items.Perm spool ∧ items.Pairwise fun r s => s.key ≤ r.key) ↔
        ∀ k, ClearBoundary (newestFirst spool) sizes k) := by
  have hfuel : (remaining spool none).length < spool.length + 1 :=
    Nat.lt_succ_of_le (newestFirst_perm spool).length_eq.le
  have hfollow : ∃ items, followPages spool (spool.length + 1) sizes none = some items ∧
      items.Sublist (remaining spool none) ∧
      (items = remaining spool none ↔ ∀ k, ClearBoundary (remaining spool none) sizes k) :=
    followPages_remaining hfuel
  obtain ⟨items, hitems, -, hiff⟩ := hfollow
  refine ⟨items, hitems, Iff.trans ?_ hiff⟩
  constructor
  · rintro ⟨hperm, hsorted⟩
    exact eq_of_perm (hperm.trans (newestFirst_perm spool).symm) hsorted
      (descending_newestFirst spool)
  · rintro rfl
    exact ⟨newestFirst_perm spool, descending_newestFirst spool⟩

/-- A bulk import gave two rows times that differ below the millisecond. -/
def bulkSpool : List SpoolRow := [⟨1700000000000900, 2⟩, ⟨1700000000000400, 1⟩]

/-- One row a page: the second row is never shown. -/
theorem page_loses_row : ¬ ∀ (spool : List SpoolRow) (sizes : ℕ → Option ℤ),
      ∃ items, followPages spool (spool.length + 1) sizes none = some items ∧
        items.Perm spool ∧ items.Pairwise fun r s => s.key ≤ r.key := by
  intro h
  obtain ⟨items, hitems, hperm, hsorted⟩ := h bulkSpool fun _ => some 1
  have hspool : newestFirst bulkSpool = bulkSpool :=
    eq_of_perm (newestFirst_perm bulkSpool) (descending_newestFirst bulkSpool)
      (by unfold Descending; decide)
  have hall : items = remaining bulkSpool none :=
    eq_of_perm (hperm.trans (newestFirst_perm bulkSpool).symm) hsorted
      (descending_newestFirst bulkSpool)
  have hfuel : (remaining bulkSpool none).length < bulkSpool.length + 1 :=
    Nat.lt_succ_of_le (newestFirst_perm bulkSpool).length_eq.le
  obtain ⟨shown, hshown, -, hiff⟩ := followPages_remaining hfuel
  rw [hitems] at hshown
  cases hshown
  have hboundary := hiff.mp hall 0
  rw [show remaining bulkSpool none = bulkSpool from hspool] at hboundary
  have hbelow := (hboundary ⟨1700000000000900, 2⟩ rfl ⟨1700000000000400, 1⟩ rfl).2
  revert hbelow
  decide

end TalonHound.DeepSearch
