import TalonHound.IocList.CanonicalBrowse

/-!
# The pages of the canonical browse list

Every page ranks the identities of its own window. When each window holds all active rows of
the identities that it ranks up to the end of its page, the pages are consecutive slices of the
list that groups all active rows, and only then.
-/

namespace TalonHound.IocList

open List GroupRanking

section Grouping

variable {rows window rest : List AnnotatedRow} {k : String}

/-- The grouped row of an identity depends on its rows only. -/
theorem groupedRow_congr {rows' : List AnnotatedRow}
    (h : rows.filter (fun r => decide (r.identityKey = k)) =
      rows'.filter fun r => decide (r.identityKey = k)) :
    groupedRow rows k = groupedRow rows' k := by
  unfold groupedRow oldest
  rw [h]

/-- The grouped rows stand in the order of the ranking. -/
theorem groupedRows_eq : groupedRows rows =
    (rankedIdentities rows).map fun e => groupedRow rows e.key := by
  unfold groupedRows rankedIdentities ranking groups
  rw [map_insertionSort Precedes (fun a b => Precedes a.entry b.entry)
    (fun e : Entry String => groupedRow rows e.key)]
  · rw [map_map]
    rfl
  · intro a ha b hb
    obtain ⟨k, -, rfl⟩ := mem_map.mp ha
    obtain ⟨k', -, rfl⟩ := mem_map.mp hb
    rfl

/-- Rows of some identities of a ranking, grouped: a part of the ranking. -/
theorem groupedRows_filter {part : List (Entry String)}
    (hpart : part.Sublist (rankedIdentities rows)) :
    groupedRows (rows.filter fun r => decide (r.identityKey ∈ part.map Entry.key)) =
      part.map fun e => groupedRow rows e.key := by
  set kept := rows.filter fun r => decide (r.identityKey ∈ part.map Entry.key)
  have hsame : ∀ e ∈ part, kept.filter (fun r => decide (r.identityKey = e.key)) =
      rows.filter fun r => decide (r.identityKey = e.key) := by
    intro e he
    rw [filter_filter]
    apply filter_congr
    intro r _
    by_cases hkey : r.identityKey = e.key
    · have hin : e.key ∈ part.map Entry.key := mem_map_of_mem he
      simp [hkey, hin]
    · simp [hkey]
  have hranked : rankedIdentities kept = part := by
    apply List.Perm.eq_of_pairwise (fun a b _ _ hab hba => hab.antisymm hba)
      (pairwise_ranking _ _ _) ((pairwise_ranking _ _ _).sublist hpart)
    apply (perm_ext_iff_of_nodup nodup_ranking (nodup_ranking.sublist hpart)).mpr
    intro e
    have hin : ∀ e ∈ part, e ∈ rankedIdentities kept := by
      intro e he
      obtain ⟨⟨r, hr, hkey⟩, hsince⟩ := mem_ranking.mp (hpart.subset he)
      apply mem_ranking.mpr
      constructor
      · refine ⟨r, mem_filter.mpr ⟨hr, ?_⟩, hkey⟩
        rw [hkey]
        exact decide_eq_true (mem_map_of_mem he)
      · rw [hsince]
        unfold oldest
        rw [hsame e he]
    constructor
    · intro he
      obtain ⟨⟨r, hr, hkey⟩, -⟩ := mem_ranking.mp he
      have hmem := of_decide_eq_true (mem_filter.mp hr).2
      obtain ⟨e', he', hkey'⟩ := mem_map.mp hmem
      rwa [inj_on_of_nodup_map nodup_ranking_keys he (hin e' he') (hkey.symm.trans hkey'.symm)]
    · exact hin e
  rw [groupedRows_eq, hranked]
  apply map_congr_left
  intro e he
  exact groupedRow_congr (hsame e he)

/-- Two grouped rows of an identity that are the same have the same number of rows. -/
theorem settled_of_groupedRow_eq {k' : String}
    (h : groupedRow window k = groupedRow (window ++ rest) k') :
    k = k' ∧ ∀ r ∈ rest, r.identityKey ≠ k := by
  obtain rfl : k = k' := congrArg GroupedRow.identityKey h
  refine ⟨rfl, ?_⟩
  have hcount : (window.filter fun r => decide (r.identityKey = k)).length =
      ((window ++ rest).filter fun r => decide (r.identityKey = k)).length :=
    congrArg GroupedRow.sourceCount h
  rw [filter_append, length_append] at hcount
  have hrest : rest.filter (fun r => decide (r.identityKey = k)) = [] := by
    apply eq_nil_of_length_eq_zero
    omega
  intro r hr hkey
  have hmem : r ∈ rest.filter fun r => decide (r.identityKey = k) :=
    mem_filter.mpr ⟨hr, decide_eq_true hkey⟩
  rw [hrest] at hmem
  cases hmem

end Grouping

namespace BrowseTables

variable (t : BrowseTables)

/-- The active rows with a source, newest first. -/
def allRows : List AnnotatedRow := t.ann t.newestFirst

/-- The candidate window of a page. -/
def window (p : PageRequest) : List AnnotatedRow := t.ann (t.recent (canonicalBrowseCandidateLimit p))

/-- The active rows that are too old for the window. -/
def outside (p : PageRequest) : List AnnotatedRow :=
  t.ann (t.newestFirst.drop (canonicalBrowseCandidateLimit p))

/-- The identities grouped over all active rows, in the order of the list. -/
def canonicalList : List GroupedRow := groupedRows t.allRows

/-- The identities that the window ranks up to the end of the page have no active row outside
it, and it has that many identities, unless no active row is outside. -/
def WindowCovers (p : PageRequest) : Prop :=
  (∀ e ∈ (rankedIdentities (t.window p)).take (canonicalBrowseRankLimit p), ∀ r ∈ t.outside p,
      r.identityKey ≠ e.key) ∧
    (canonicalBrowseRankLimit p ≤ (rankedIdentities (t.window p)).length ∨ t.outside p = [])

variable {t} {p : PageRequest}

theorem window_append_outside : t.window p ++ t.outside p = t.allRows := by
  unfold window outside allRows ann recent
  rw [← map_append, ← filter_append, take_append_drop]

/-- Rows with distinct times are strictly sorted. -/
theorem pairwise_newestFirst (hdistinct : (t.items.map fun r => r.createdAt).Nodup) :
    t.newestFirst.Pairwise fun a b => b.createdAt < a.createdAt := by
  have hsorted : t.newestFirst.Pairwise fun a b => b.createdAt ≤ a.createdAt := by
    exact pairwise_insertionSort _ _
  have hnodup : (t.newestFirst.map fun r => r.createdAt).Nodup :=
    (((perm_insertionSort _ t.items).map _).nodup_iff).mpr hdistinct
  rw [List.Nodup, pairwise_map] at hnodup
  exact (hsorted.and hnodup).imp fun ⟨hle, hne⟩ => lt_of_le_of_ne hle (Ne.symm hne)

/-- Rows outside a window are older. -/
theorem outside_older (hdistinct : (t.items.map fun r => r.createdAt).Nodup) :
    ∀ r ∈ t.window p, ∀ s ∈ t.outside p, s.importedAt < r.importedAt := by
  have hnewest := pairwise_newestFirst hdistinct
  intro r hr s hs
  obtain ⟨row, hrow, rfl⟩ := mem_map.mp hr
  obtain ⟨row', hrow', rfl⟩ := mem_map.mp hs
  rw [← take_append_drop (canonicalBrowseCandidateLimit p) t.newestFirst] at hnewest
  exact (pairwise_append.mp hnewest).2.2 row (mem_filter.mp hrow).1 row' (mem_filter.mp hrow').1

/-- A page is a slice of the ranking of its window. -/
theorem queryActiveIocCanonicalBrowsePage_eq (t : BrowseTables) (p : PageRequest) :
    t.queryActiveIocCanonicalBrowsePage p =
      ((((rankedIdentities (t.window p)).take (canonicalBrowseRankLimit p)).drop p.offset).take
        p.limit).map fun e => groupedRow (t.window p) e.key := by
  have hsorted : ((rankedIdentities (t.window p)).take (canonicalBrowseRankLimit p)).insertionSort
      Precedes = (rankedIdentities (t.window p)).take (canonicalBrowseRankLimit p) :=
    List.Pairwise.insertionSort_eq ((pairwise_ranking _ _ _).sublist (take_sublist _ _))
  change groupedRows ((t.window p).filter fun r => decide (r.identityKey ∈
    ((((((rankedIdentities (t.window p)).take (canonicalBrowseRankLimit p)).insertionSort
      Precedes).drop p.offset).take p.limit).map Entry.key))) = _
  rw [hsorted]
  apply groupedRows_filter
  exact (take_sublist _ _).trans ((drop_sublist _ _).trans (take_sublist _ _))

theorem canonicalList_eq (t : BrowseTables) : t.canonicalList =
    (rankedIdentities t.allRows).map fun e => groupedRow t.allRows e.key := groupedRows_eq

/-- The list names every identity once. -/
theorem nodup_canonicalList (t : BrowseTables) :
    (t.canonicalList.map GroupedRow.identityKey).Nodup := by
  rw [canonicalList_eq, map_map]
  exact nodup_ranking_keys

section Covering

variable {limit browseCap k : ℕ}

/-- The parameters of page `k`. -/
def pageRequest (limit browseCap k : ℕ) : PageRequest := ⟨limit, k * limit, browseCap⟩

@[simp] theorem pageRequest_offset : (pageRequest limit browseCap k).offset = k * limit := rfl

@[simp] theorem pageRequest_limit : (pageRequest limit browseCap k).limit = limit := rfl

variable (browseCap k) in
theorem pageRequest_rankLimit (hlimit : 0 < limit) :
    canonicalBrowseRankLimit (pageRequest limit browseCap k) =
      min (k * limit + limit) (browseWindow browseCap) := by
  have hcap : 1 ≤ browseWindow browseCap := le_max_right _ _
  unfold canonicalBrowseRankLimit pageRequest
  dsimp only
  omega

/-- Cutting the list at the end of the page or at the cap makes no difference to the page. -/
theorem slice_take {α : Type*} (entries : List α) (cap : ℕ) :
    ((entries.take (min (k * limit + limit) cap)).drop (k * limit)).take limit =
      ((entries.take cap).drop (k * limit)).take limit := by
  rw [drop_take, drop_take, take_take, take_take]
  congr 1
  omega

/-- A covering window has the first ranks of the list. -/
theorem WindowCovers.take_ranking (h : t.WindowCovers p)
    (hdistinct : (t.items.map fun r => r.createdAt).Nodup) :
    (rankedIdentities (t.window p)).take (canonicalBrowseRankLimit p) =
      (rankedIdentities t.allRows).take (canonicalBrowseRankLimit p) := by
  rw [← window_append_outside (p := p)]
  exact (take_ranking_append (outside_older hdistinct) h.1 h.2).symm

/-- The grouped row of an identity without rows outside the window. -/
theorem groupedRow_window {key : String} (h : ∀ r ∈ t.outside p, r.identityKey ≠ key) :
    groupedRow (t.window p) key = groupedRow t.allRows key := by
  rw [← window_append_outside (p := p)]
  exact (groupedRow_congr (filter_append_settled h)).symm

/-- A page with a covering window is a slice of the list. -/
theorem page_of_windowCovers (hlimit : 0 < limit)
    (hdistinct : (t.items.map fun r => r.createdAt).Nodup)
    (h : t.WindowCovers (pageRequest limit browseCap k)) :
    t.queryActiveIocCanonicalBrowsePage (pageRequest limit browseCap k) =
      ((t.canonicalList.take (browseWindow browseCap)).drop (k * limit)).take limit := by
  set p := pageRequest limit browseCap k with hp
  have hpage : t.queryActiveIocCanonicalBrowsePage p =
      ((((rankedIdentities t.allRows).take (canonicalBrowseRankLimit p)).drop (k * limit)).take
        limit).map fun e => groupedRow t.allRows e.key := by
    rw [queryActiveIocCanonicalBrowsePage_eq, ← h.take_ranking hdistinct]
    apply map_congr_left
    intro e he
    apply groupedRow_window
    exact h.1 e (mem_of_mem_drop (mem_of_mem_take he))
  rw [hpage, canonicalList_eq, hp, pageRequest_rankLimit _ _ hlimit, slice_take, ← map_take,
    ← map_drop, ← map_take]

/-- Past the cap a page is empty. -/
theorem page_past_cap (hlimit : 0 < limit) (hpast : browseWindow browseCap ≤ k * limit) :
    t.queryActiveIocCanonicalBrowsePage (pageRequest limit browseCap k) = [] ∧
      ((t.canonicalList.take (browseWindow browseCap)).drop (k * limit)).take limit = [] := by
  constructor
  · rw [queryActiveIocCanonicalBrowsePage_eq, pageRequest_rankLimit _ _ hlimit]
    dsimp only [pageRequest]
    rw [drop_take, Nat.sub_eq_zero_of_le (by omega), take_zero, take_nil, map_nil]
  · rw [drop_take, Nat.sub_eq_zero_of_le hpast, take_zero, take_nil]

/-- No active row is outside a window that settles every identity of the list. -/
theorem outside_eq_nil (h : ∀ e ∈ rankedIdentities t.allRows, ∀ r ∈ t.outside p,
    r.identityKey ≠ e.key) : t.outside p = [] := by
  apply eq_nil_iff_forall_not_mem.mpr
  intro r hr
  have hall : r ∈ t.allRows := by
    rw [← window_append_outside (p := p)]
    exact mem_append_right _ hr
  exact h ⟨r.identityKey, oldest AnnotatedRow.importedAt AnnotatedRow.identityKey t.allRows
    r.identityKey⟩ (mem_ranking.mpr ⟨⟨r, hall, rfl⟩, rfl⟩) r hr rfl

/-- An identity of the list without rows outside the window has the same entry in it. -/
theorem mem_rankedIdentities_window {e : Entry String} (he : e ∈ rankedIdentities t.allRows)
    (h : ∀ r ∈ t.outside p, r.identityKey ≠ e.key) : e ∈ rankedIdentities (t.window p) := by
  obtain ⟨⟨r, hr, hkey⟩, hsince⟩ := mem_ranking.mp he
  rw [← window_append_outside (p := p)] at hr hsince
  apply mem_ranking.mpr
  constructor
  · rcases mem_append.mp hr with hr | hr
    · exact ⟨r, hr, hkey⟩
    · exact absurd hkey (h r hr)
  · rw [hsince, oldest_append_settled h]

/-- A larger window leaves fewer rows outside. -/
theorem outside_subset {p' : PageRequest}
    (h : canonicalBrowseCandidateLimit p ≤ canonicalBrowseCandidateLimit p') :
    t.outside p' ⊆ t.outside p := by
  apply map_subset
  intro r hr
  obtain ⟨hin, hfiltered⟩ := mem_filter.mp hr
  apply mem_filter.mpr
  refine ⟨?_, hfiltered⟩
  rw [← Nat.add_sub_cancel' h, ← drop_drop] at hin
  exact mem_of_mem_drop hin

/-- The entries of a page and of the list behind it, when the page is a slice of the list. -/
theorem page_keys (hlimit : 0 < limit)
    (hpage : t.queryActiveIocCanonicalBrowsePage (pageRequest limit browseCap k) =
      ((t.canonicalList.take (browseWindow browseCap)).drop (k * limit)).take limit) :
    (((rankedIdentities (t.window (pageRequest limit browseCap k))).take
        (canonicalBrowseRankLimit (pageRequest limit browseCap k))).drop (k * limit)).map
          (fun e => groupedRow (t.window (pageRequest limit browseCap k)) e.key) =
      (((rankedIdentities t.allRows).take
        (canonicalBrowseRankLimit (pageRequest limit browseCap k))).drop (k * limit)).map
          fun e => groupedRow t.allRows e.key := by
  have hshort : ∀ entries : List (Entry String),
      (((entries.take (canonicalBrowseRankLimit (pageRequest limit browseCap k))).drop
        (k * limit)).take limit) =
      (entries.take (canonicalBrowseRankLimit (pageRequest limit browseCap k))).drop (k * limit) := by
    intro entries
    apply take_of_length_le
    rw [length_drop, length_take, pageRequest_rankLimit _ _ hlimit]
    omega
  rw [queryActiveIocCanonicalBrowsePage_eq, canonicalList_eq, ← map_take, ← map_drop,
    ← map_take, ← slice_take, ← pageRequest_rankLimit _ _ hlimit, pageRequest_offset,
    pageRequest_limit, hshort, hshort] at hpage
  exact hpage

section

variable (hlimit : 0 < limit)
  (hpages : ∀ k, t.queryActiveIocCanonicalBrowsePage (pageRequest limit browseCap k) = ((t.canonicalList.take (browseWindow browseCap)).drop (k * limit)).take limit)
  (hk : k * limit < browseWindow browseCap)
include hlimit hpages hk

/-- Pages that are slices of the list have windows that settle the identities of the list up to
the end of the page. -/
theorem settled_of_pages : ∀ e ∈ (rankedIdentities t.allRows).take
        (canonicalBrowseRankLimit (pageRequest limit browseCap k)),
      ∀ r ∈ t.outside (pageRequest limit browseCap k), r.identityKey ≠ e.key := by
  induction k with
  | zero =>
    intro e he r hr
    have hkeys := page_keys hlimit (hpages 0)
    rw [Nat.zero_mul, drop_zero, drop_zero] at hkeys
    have hmem := mem_map_of_mem (f := fun e => groupedRow t.allRows e.key) he
    rw [← hkeys] at hmem
    obtain ⟨e', -, heq⟩ := mem_map.mp hmem
    rw [← window_append_outside (p := pageRequest limit browseCap 0)] at heq
    obtain ⟨hkey, hsettled⟩ := settled_of_groupedRow_eq heq
    rw [← hkey]
    exact hsettled r hr
  | succ k ih =>
    have hprev : k * limit + limit = (k + 1) * limit := by
      rw [Nat.add_mul, Nat.one_mul]
    have ih := ih (by omega)
    rw [pageRequest_rankLimit _ _ hlimit, hprev, min_eq_left hk.le] at ih
    have hlarger : canonicalBrowseCandidateLimit (pageRequest limit browseCap k) ≤
        canonicalBrowseCandidateLimit (pageRequest limit browseCap (k + 1)) := by
      unfold canonicalBrowseCandidateLimit
      rw [pageRequest_rankLimit _ _ hlimit, pageRequest_rankLimit _ _ hlimit]
      dsimp only
      omega
    intro e he r hr
    rw [← take_append_drop ((k + 1) * limit) (List.take _ _), mem_append] at he
    rcases he with he | he
    · rw [take_take, pageRequest_rankLimit _ _ hlimit, min_eq_left (by omega)] at he
      exact ih e he r (outside_subset hlarger hr)
    · have hmem := mem_map_of_mem (f := fun e => groupedRow t.allRows e.key) he
      rw [← page_keys hlimit (hpages (k + 1))] at hmem
      obtain ⟨e', -, heq⟩ := mem_map.mp hmem
      rw [← window_append_outside (p := pageRequest limit browseCap (k + 1))] at heq
      obtain ⟨hkey, hsettled⟩ := settled_of_groupedRow_eq heq
      rw [← hkey]
      exact hsettled r hr

/-- Pages that are slices of the list have covering windows. -/
theorem windowCovers_of_pages : t.WindowCovers (pageRequest limit browseCap k) := by
  have hsettled := settled_of_pages hlimit hpages hk
  have hkeys := page_keys hlimit (hpages k)
  have hrank := pageRequest_rankLimit browseCap k hlimit
  set p := pageRequest limit browseCap k with hp
  set n := canonicalBrowseRankLimit p with hn
  set inWindow := rankedIdentities (t.window p) with hinWindow
  set ofAll := rankedIdentities t.allRows with hofAll
  have hlength : (inWindow.take n).length - k * limit = (ofAll.take n).length - k * limit := by
    simpa using congrArg List.length hkeys
  by_cases hend : ofAll.length ≤ k * limit
  · -- the list ends before the page
    have hnil : t.outside p = [] := by
      apply outside_eq_nil
      intro e he
      apply hsettled e
      rw [take_of_length_le (by omega)]
      exact he
    refine ⟨?_, .inr hnil⟩
    intro e he r hr
    rw [hnil] at hr
    cases hr
  · rw [length_take, length_take] at hlength
    have hpage : ∀ e ∈ (inWindow.take n).drop (k * limit), ∃ e' ∈ ofAll, e.key = e'.key ∧
        ∀ r ∈ t.outside p, r.identityKey ≠ e.key := by
      intro e he
      have hmem := mem_map_of_mem (f := fun e => groupedRow (t.window p) e.key) he
      rw [hkeys] at hmem
      obtain ⟨e', he', heq⟩ := mem_map.mp hmem
      rw [← window_append_outside (p := p)] at heq
      obtain ⟨hkey, hout⟩ := settled_of_groupedRow_eq heq.symm
      exact ⟨e', mem_of_mem_take (mem_of_mem_drop he'), hkey, hout⟩
    -- the window and the list have the same identity at the start of the page
    have hstart : (inWindow[k * limit]?).map Entry.key = (ofAll[k * limit]?).map Entry.key := by
      have hat := congrArg (fun l => (l.map GroupedRow.identityKey)[0]?) hkeys
      simp only [map_map, getElem?_map, getElem?_drop, Nat.add_zero] at hat
      rw [getElem?_take_of_lt (by omega), getElem?_take_of_lt (by omega)] at hat
      exact hat
    have hsame : inWindow.take (k * limit) = ofAll.take (k * limit) := by
      apply take_eq_of_key_eq (pairwise_ranking _ _ _) (pairwise_ranking _ _ _) nodup_ranking_keys
        nodup_ranking (Nat.lt_of_not_le hend) hstart
      intro a ha
      have hin := take_subset_take_left ofAll (by omega : k * limit + 1 ≤ n) ha
      exact mem_rankedIdentities_window (mem_of_mem_take hin) (hsettled a hin)
    constructor
    · intro e he
      rw [← take_append_drop (k * limit) (inWindow.take n), mem_append] at he
      rcases he with he | he
      · rw [take_take, min_eq_left (by omega)] at he
        rw [hsame] at he
        exact hsettled e (take_subset_take_left _ (by omega) he)
      · obtain ⟨-, -, -, hout⟩ := hpage e he
        exact hout
    · rcases Nat.lt_or_ge inWindow.length n with hshort | hlong
      · right
        apply outside_eq_nil
        intro e he
        apply hsettled e
        rw [take_of_length_le (by omega)]
        exact he
      · exact .inl hlong

end

end Covering

/-- A row of the list. -/
def browseRow (id : ℕ) (observable : String) (createdAt : ℤ) (status : String) : BrowseRow :=
  ⟨⟨id, id, observable, "domain", none, "", createdAt, createdAt, createdAt⟩, some status, some 1,
    none, none⟩

/-- No files. -/
def noFiles : FileArtifacts.Tables := ⟨[], [], [], [], [], [], []⟩

/-- Two active IOCs. -/
def twoIocs : BrowseTables where
  items := [browseRow 1 "a" 5 "active", browseRow 2 "b" 7 "active"]
  memberships := []
  files := noFiles

/-- A window that holds every row covers its page. -/
theorem windowCovers_of_outside_nil (h : t.outside p = []) : t.WindowCovers p := by
  refine ⟨?_, .inr h⟩
  intro e _ r hr
  rw [h] at hr
  cases hr

/-- An IOC with a new and an old row, 25 IOCs between them and 374 rows that are not active. -/
def longList : BrowseTables where
  items := browseRow 1 "a" 1000 "active" ::
    (List.range 25).map (fun n =>
      browseRow (n + 2) (String.ofList (List.replicate (n + 1) 'b')) (999 - n) "active") ++
    (List.range 374).map (fun n => browseRow (n + 27) "c" (974 - n) "expired") ++
    [browseRow 401 "a" 600 "active"]
  memberships := []
  files := noFiles

/-- An identity on both pages: the first window of 400 rows ends before the old row of the IOC, and
the second window reaches it. -/
def repeatedIdentity : {key : String // ∀ k ∈ [0, 1],
    key ∈ (longList.queryActiveIocCanonicalBrowsePage (pageRequest 25 2000 k)).map
      GroupedRow.identityKey} :=
  ⟨"o:domain:a", by decide +kernel⟩

end BrowseTables

end TalonHound.IocList
