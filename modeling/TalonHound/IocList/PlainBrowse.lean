import TalonHound.IocList.BrowsePages
import TalonHound.Library.FirstRows
import TalonHound.Library.Texts

/-!
# The plain browse page

The active IOC list with the file-artifact reader off. The query takes a window of the newest
rows, keeps the active ones with a source and cuts them to the rows that a page without repeated
observables would need. The repeated observables are dropped afterwards, and the page is cut out
of what is left. A page is a slice of the list of observables exactly when the rows of the cut
have the observables of the slice.
-/

namespace TalonHound.IocList

open List GroupRanking FirstRows

/-- The type and the value of an observable. -/
def BrowseRow.pair (r : BrowseRow) : String × String := (r.observableType, r.observable)

/-- `` `${row.observable_type}|${row.observable}` ``. -/
def BrowseRow.obsKey (r : BrowseRow) : String := r.observableType ++ "|" ++ r.observable

/-- An entry of the page. -/
structure ListedIoc where
  (id publicId : ℕ)
  (observable observableType : String)
  importedAt : ℤ
  deriving DecidableEq

/-- The entry of a row. -/
def BrowseRow.listed (r : BrowseRow) : ListedIoc where
  id := r.id
  publicId := r.publicId
  observable := r.observable
  observableType := r.observableType
  importedAt := r.createdAt

namespace PageRequest

variable (p : PageRequest)

/-- `cap`. -/
def cap : ℕ := browseWindow p.browseCap

/-- `cappedLimit`. -/
def cappedLimit : ℕ := min p.limit (p.cap - p.offset)

/-- `need`. -/
def need : ℕ := min (p.offset + p.cappedLimit) p.cap

/-- `oversample`, for the first query. -/
def oversample : ℕ := min (max (p.need * 3) (p.need + 100)) (max (p.cap * 2) 4000)

/-- `oversample`, for the second query. -/
def retryOversample : ℕ := min (max (p.oversample * 2) (p.need * 5)) (p.cap * 3)

end PageRequest

namespace BrowseTables

variable (t : BrowseTables)

/-- `queryActiveIocBrowseWindow`. -/
def queryActiveIocBrowseWindow (oversample need : ℕ) : List BrowseRow :=
  (((t.recent oversample).filter t.isFiltered).insertionSort
    fun a b => b.createdAt ≤ a.createdAt).take need

/-- The first query finds too few rows, and there is a larger window. -/
def retries (p : PageRequest) : Bool :=
  decide ((t.queryActiveIocBrowseWindow p.oversample p.need).length < p.need ∧
    p.oversample < p.cap * 3)

/-- The window whose rows the page uses. -/
def usedOversample (p : PageRequest) : ℕ :=
  if t.retries p then p.retryOversample else p.oversample

/-- `ranked`. -/
def ranked (p : PageRequest) : List BrowseRow :=
  t.queryActiveIocBrowseWindow (t.usedOversample p) p.need

/-- `fetchActiveIocListPage`, with the reader off. -/
def fetchActiveIocListPage (p : PageRequest) : List ListedIoc :=
  if p.cap ≤ p.offset then []
  else
    let unique := collect BrowseRow.obsKey p.need [] [] (t.ranked p)
    ((unique.drop p.offset).take p.cappedLimit).map BrowseRow.listed

/-- The active rows with a source, newest first. -/
def activeRows : List BrowseRow := t.newestFirst.filter t.isFiltered

/-- The list that the pages show: the newest active row of every observable, newest first. -/
def observableList : List BrowseRow :=
  DistinctOn.distinctOn BrowseRow.pair (fun s r => decide (r.createdAt < s.createdAt)) t.activeRows

/-- The tables of the list: the times of the rows are distinct, and no type has the separator
of the keys. -/
structure Listable : Prop where
  distinct : (t.items.map fun r => r.createdAt).Nodup
  separated : ∀ r ∈ t.items, '|' ∉ r.observableType.toList

/-- All active rows are in the window. -/
def WindowHoldsActive (p : PageRequest) : Prop :=
  (t.newestFirst.drop (t.usedOversample p)).filter t.isFiltered = []

variable {t} {p : PageRequest}

theorem activeRows_pairwise (h : t.Listable) :
    t.activeRows.Pairwise fun a b => b.createdAt < a.createdAt :=
  (pairwise_newestFirst h.distinct).filter _

variable {r : BrowseRow}

theorem mem_items_of_mem_activeRows (hr : r ∈ t.activeRows) : r ∈ t.items := by
  have hr := (mem_filter.mp hr).1
  exact (mem_insertionSort _).mp hr

/-- The keys of the loop tell the observables apart. -/
theorem obsKey_iff (h : t.Listable) {s : BrowseRow} (hr : r ∈ t.items) (hs : s ∈ t.items) :
    s.obsKey = r.obsKey ↔ s.pair = r.pair := by
  unfold BrowseRow.obsKey BrowseRow.pair
  rw [Prod.mk.injEq]
  constructor
  · intro hkey
    have hchars := congrArg String.toList hkey
    simp only [String.toList_append, append_assoc] at hchars
    obtain ⟨htype, hvalue⟩ :=
      Texts.append_separator_inj (h.separated s hs) (h.separated r hr) hchars
    exact ⟨String.toList_inj.mp htype, String.toList_inj.mp hvalue⟩
  · rintro ⟨htype, hvalue⟩
    rw [htype, hvalue]

/-- The list has the first active row of every observable. -/
theorem observableList_eq (h : t.Listable) :
    t.observableList = firstRows BrowseRow.pair t.activeRows := by
  apply (firstRows_eq_distinctOn _ _).symm
  · apply (activeRows_pairwise h).imp
    intro a b hab
    exact ⟨decide_eq_false (by omega), decide_eq_true hab⟩
  · intro r _
    exact decide_eq_false (lt_irrefl _)

/-- The list names every observable once. -/
theorem nodup_observableList (h : t.Listable) : (t.observableList.map BrowseRow.pair).Nodup := by
  rw [observableList_eq h]
  exact nodup_firstRows_keys _ _

/-- A window that holds the active rows: the query returns the newest of them. -/
theorem ranked_eq (h : t.Listable) (hwindow : t.WindowHoldsActive p) :
    t.ranked p = t.activeRows.take p.need := by
  have hrows : (t.recent (t.usedOversample p)).filter t.isFiltered = t.activeRows := by
    unfold activeRows recent
    conv_rhs => rw [← take_append_drop (t.usedOversample p) t.newestFirst]
    rw [filter_append, hwindow, append_nil]
  unfold ranked queryActiveIocBrowseWindow
  rw [hrows, List.Pairwise.insertionSort_eq]
  exact (activeRows_pairwise h).imp le_of_lt

variable (t p) in
/-- The rows that the query is cut to hold the newest row of every observable of the list from
the offset on, up to `n` of them. -/
def CutHolds (n : ℕ) : Prop :=
  ∀ r ∈ (t.observableList.drop p.offset).take n, r ∈ t.activeRows.take p.need

variable (t p) in
/-- The observables of the rows that the query is cut to. -/
def cutObservables : List BrowseRow := firstRows BrowseRow.pair (t.activeRows.take p.need)

/-- They are the first ones of the list. -/
theorem cutObservables_eq (h : t.Listable) :
    t.cutObservables p = t.observableList.take (t.cutObservables p).length := by
  rw [observableList_eq h]
  apply prefix_iff_eq_take.mp
  have hprefix := firstRows_prefix BrowseRow.pair (t.activeRows.take p.need)
    (t.activeRows.drop p.need)
  rwa [take_append_drop] at hprefix

theorem cutObservables_length : (t.cutObservables p).length ≤ p.need := by
  calc (t.cutObservables p).length ≤ (t.activeRows.take p.need).length :=
        (firstRows_sublist _ _).length_le
    _ ≤ p.need := by
      rw [length_take]
      omega

/-- What the loop keeps. -/
theorem collect_ranked (h : t.Listable) (hwindow : t.WindowHoldsActive p) :
    collect BrowseRow.obsKey p.need [] [] (t.ranked p) = t.cutObservables p := by
  rw [ranked_eq h hwindow]
  rcases Nat.eq_zero_or_pos p.need with hzero | hpos
  · unfold cutObservables
    rw [hzero, take_zero]
    rfl
  · have hkeys : firstRows BrowseRow.obsKey (t.activeRows.take p.need) = t.cutObservables p := by
      apply firstRows_congr
      intro r hr s hs
      exact obsKey_iff h (mem_items_of_mem_activeRows (mem_of_mem_take hr))
        (mem_items_of_mem_activeRows (mem_of_mem_take hs))
    rw [collect_nil hpos, hkeys, take_of_length_le cutObservables_length]

/-- A page below the cap is cut out of the observables that the rows have. -/
theorem fetchActiveIocListPage_eq (h : t.Listable) (hoffset : p.offset < p.cap)
    (hwindow : t.WindowHoldsActive p) :
    t.fetchActiveIocListPage p =
      ((t.observableList.drop p.offset).take ((t.cutObservables p).length - p.offset)).map
        BrowseRow.listed := by
  have hneed : p.need = p.offset + p.cappedLimit := by
    unfold PageRequest.need PageRequest.cappedLimit
    omega
  have hlength := cutObservables_length (t := t) (p := p)
  unfold fetchActiveIocListPage
  rw [if_neg (Nat.not_le.mpr hoffset), collect_ranked h hwindow]
  dsimp only
  conv_lhs => rw [cutObservables_eq h]
  rw [drop_take, take_take, min_eq_right (by omega)]

/-- The rows of the list, told apart by their entries. -/
theorem listed_inj (h : t.Listable) {s : BrowseRow} (hr : r ∈ t.observableList)
    (hs : s ∈ t.observableList) (heq : r.listed = s.listed) : r = s := by
  apply inj_on_of_nodup_map (nodup_observableList h) hr hs
  unfold BrowseRow.pair
  rw [show r.observableType = s.observableType from congrArg ListedIoc.observableType heq,
    show r.observable = s.observable from congrArg ListedIoc.observable heq]

/-- An observable of the list that has a row in the cut is among the observables of the cut. -/
theorem mem_cutObservables (h : t.Listable) (hr : r ∈ t.observableList) :
    r ∈ t.cutObservables p ↔ r ∈ t.activeRows.take p.need := by
  constructor
  · intro hcut
    exact (firstRows_sublist _ _).subset hcut
  · intro hrow
    obtain ⟨s, hs, hpair⟩ : ∃ s ∈ t.cutObservables p, s.pair = r.pair := exists_mem_firstRows hrow
    have hsList : s ∈ t.observableList := by
      rw [cutObservables_eq h] at hs
      exact mem_of_mem_take hs
    rwa [← inj_on_of_nodup_map (nodup_observableList h) hsList hr hpair]

/-- A page shows `n` observables of the list from the offset on when the cut holds their rows,
and only then. -/
theorem page_eq_iff (h : t.Listable) (hoffset : p.offset < p.cap)
    (hwindow : t.WindowHoldsActive p) {n : ℕ} (hn : p.cappedLimit ≤ n) :
    t.fetchActiveIocListPage p =
        ((t.observableList.drop p.offset).take n).map BrowseRow.listed ↔ t.CutHolds p n := by
  have hnodup : t.observableList.Nodup := (nodup_observableList h).of_map
  have hneed : p.need = p.offset + p.cappedLimit := by
    unfold PageRequest.need PageRequest.cappedLimit
    omega
  have hlength := cutObservables_length (t := t) (p := p)
  have hcut := cutObservables_eq (p := p) h
  rw [fetchActiveIocListPage_eq h hoffset hwindow]
  constructor
  · intro hpage r hr
    have hlisted := mem_map_of_mem (f := BrowseRow.listed) hr
    rw [← hpage] at hlisted
    obtain ⟨s, hs, heq⟩ := mem_map.mp hlisted
    have hrList := mem_of_mem_drop (mem_of_mem_take hr)
    have hsame := listed_inj h (mem_of_mem_drop (mem_of_mem_take hs)) hrList heq
    rw [← mem_cutObservables h hrList, hcut, ← hsame]
    rw [← drop_take] at hs
    exact mem_of_mem_drop hs
  · intro hholds
    congr 1
    by_contra hne
    -- the first observable that the page lacks is behind the cut
    have hshort : (t.cutObservables p).length - p.offset < n ∧
        (t.cutObservables p).length - p.offset < (t.observableList.drop p.offset).length := by
      by_contra hall
      apply hne
      rcases Nat.lt_or_ge ((t.cutObservables p).length - p.offset) n with hlt | hge
      · rw [take_of_length_le (by omega), take_of_length_le (by omega)]
      · rw [show (t.cutObservables p).length - p.offset = n by omega]
    obtain ⟨hlt, hin⟩ := hshort
    have hfirst : ∀ r ∈ t.observableList, r ∈ t.activeRows.take p.need →
        r ∈ t.observableList.take (t.cutObservables p).length := by
      intro r hr hrow
      rw [← hcut]
      exact (mem_cutObservables h hr).mpr hrow
    have hmem := hfirst _ (mem_of_mem_drop (getElem_mem hin)) (hholds _ (getElem_mem_take hin hlt))
    rw [getElem_drop, mem_take_iff_getElem] at hmem
    obtain ⟨i, hi, heq⟩ := hmem
    have := hnodup.getElem_inj_iff.mp heq
    omega

/-- A page of the active IOC list is the slice of the list of observables between its offset and
its limit exactly when the rows that the query is cut to hold the newest row of every observable
of the slice. When they do so on every page below the cap, every observable below the cap is on
one page. -/
theorem plainPages_slices_iff (t : BrowseTables) (h : t.Listable) :
    (∀ p : PageRequest, p.offset < p.cap → t.WindowHoldsActive p →
      (t.fetchActiveIocListPage p =
          ((t.observableList.drop p.offset).take p.limit).map BrowseRow.listed ↔
        t.CutHolds p p.limit)) ∧
    ∀ limit browseCap, 0 < limit →
      (∀ k, k * limit < browseWindow browseCap →
        t.WindowHoldsActive (pageRequest limit browseCap k) ∧
          t.CutHolds (pageRequest limit browseCap k) (pageRequest limit browseCap k).cappedLimit) →
      ∀ r ∈ t.observableList.take (browseWindow browseCap),
        ∃! k, r.listed ∈ t.fetchActiveIocListPage (pageRequest limit browseCap k) := by
  constructor
  · intro p hoffset hwindow
    exact page_eq_iff h hoffset hwindow (min_le_left _ _)
  · intro limit browseCap hlimit hpages r hr
    have hpage : ∀ k, t.fetchActiveIocListPage (pageRequest limit browseCap k) =
        (((t.observableList.take (browseWindow browseCap)).drop (k * limit)).take limit).map
          BrowseRow.listed := by
      intro k
      rcases Nat.lt_or_ge (k * limit) (browseWindow browseCap) with hk | hk
      · obtain ⟨hwindow, hcut⟩ := hpages k hk
        rw [(page_eq_iff h hk hwindow le_rfl).mpr hcut, drop_take, take_take]
        rfl
      · have hpast : (pageRequest limit browseCap k).cap ≤
            (pageRequest limit browseCap k).offset := hk
        unfold fetchActiveIocListPage
        rw [if_pos hpast, drop_take, Nat.sub_eq_zero_of_le hk, take_zero, take_nil, map_nil]
    have hnodup : ((t.observableList.take (browseWindow browseCap)).map
        BrowseRow.listed).Nodup := by
      apply List.Nodup.map_on
      · intro a ha b hb heq
        exact listed_inj h (mem_of_mem_take ha) (mem_of_mem_take hb) heq
      · exact (nodup_observableList h).of_map.sublist (take_sublist _ _)
    have honce := existsUnique_page hnodup hlimit (mem_map_of_mem hr)
    simp only [hpage, map_take, map_drop] at honce ⊢
    exact honce

/-- The theorem on two IOCs: a page of one row, and every IOC on one page. -/
theorem plainPages_slices_iff_twoIocs : twoIocs.fetchActiveIocListPage (pageRequest 1 2 1) =
        ((twoIocs.observableList.drop 1).take 1).map BrowseRow.listed ∧
      ∀ r ∈ twoIocs.observableList.take 2,
        ∃! k, r.listed ∈ twoIocs.fetchActiveIocListPage (pageRequest 1 2 k) := by
  have hlistable : twoIocs.Listable := ⟨by decide +kernel, by decide +kernel⟩
  have hwindow : ∀ k < 2, twoIocs.WindowHoldsActive (pageRequest 1 2 k) := by
    unfold WindowHoldsActive
    decide +kernel
  have hcut : ∀ k < 2, twoIocs.CutHolds (pageRequest 1 2 k) 1 := by
    unfold CutHolds
    decide +kernel
  have hcap : ∀ k < 2, (pageRequest 1 2 k).cappedLimit = 1 := by decide
  obtain ⟨hslice, honce⟩ := plainPages_slices_iff twoIocs hlistable
  constructor
  · exact (hslice (pageRequest 1 2 1) (by decide) (hwindow 1 (by decide))).mpr (hcut 1 (by decide))
  · apply honce 1 2 Nat.one_pos
    intro k hk
    have hk : k < 2 := by
      rw [Nat.mul_one] at hk
      exact hk
    rw [hcap k hk]
    exact ⟨hwindow k hk, hcut k hk⟩

/-- An IOC of two sources, and an older one. -/
def twoSources : BrowseTables where
  items := [browseRow 1 "a" 9 "active", browseRow 2 "a" 7 "active", browseRow 3 "b" 5 "active"]
  memberships := []
  files := noFiles

/-- On pages of one row the older IOC is the second of the list, and the second page is empty: the
two rows that the query is cut to are the ones of the first IOC. -/
theorem plainPage_loses_observable :
    twoSources.Listable ∧ twoSources.WindowHoldsActive (pageRequest 1 2000 1) ∧
      ((twoSources.observableList.drop 1).take 1).map BrowseRow.listed =
        [⟨3, 3, "b", "domain", 5⟩] ∧
      twoSources.fetchActiveIocListPage (pageRequest 1 2000 1) = [] := by
  refine ⟨⟨by decide +kernel, by decide +kernel⟩, ?_, by decide +kernel, by decide +kernel⟩
  unfold WindowHoldsActive
  decide +kernel

end BrowseTables

end TalonHound.IocList
