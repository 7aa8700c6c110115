import TalonHound.Library.BudgetedCollect
import TalonHound.PublishedFeed.Incremental

/-!
# The dirty poll

`collectDirtyIocIds` reads ten queries into one set of ids that may hold at most `limit`
of them. Some queries ask for one row more than the limit and raise the flag when it
comes; the others ask for the room that is left, and a row they cut off leaves no trace.
-/

namespace TalonHound

open BudgetedCollect

/-- A row of `ioc_feed_memberships`, as the dirty poll reads it. -/
structure MembershipChange where
  iocItemId : ℕ
  iocObservableType : ObservableType
  updatedAt : ℤ

/-- A row of an enrichment table: the value it is about and when it was written. -/
structure EnrichmentRow where
  value : String
  updatedAt : ℤ

/-- The tables of a feed evaluation with the columns and tables that record changes. -/
structure ChangeDb extends Db where
  /-- `ioc_items.updated_at` by id. -/
  updatedAt : ℕ → Option ℤ
  iocDeletes : List Tombstone
  membershipChanges : List MembershipChange
  /-- `file_artifacts.updated_at` by id. -/
  artifactUpdatedAt : String → ℤ
  (iocEnrichments ipEnrichment abuseipdbEnrichment domainEnrichment : List EnrichmentRow)
  spamhausDropEnrichment : List EnrichmentRow
  /-- The `tags_catalog` watermark. -/
  tagsCatalog : Option ℤ

/-- A dirty row: an id with its type. -/
abbrev DirtyRow := ℕ × ObservableType

/-- Whether a change lies in the interval of a tick, open below and closed above. -/
def changedIn (cutoff candidateCutoff changedAt : ℤ) : Bool :=
  decide (cutoff < changedAt ∧ changedAt ≤ candidateCutoff)

/-- `feedDirtyObservableTypes`: no type at all means that the poll is not scoped. -/
def feedDirtyObservableTypes (feed : Feed) : List ObservableType :=
  match resolveFeedIocTypes feed with
  | [] => []
  | categories => observableTypesForFeedIocTypes categories

/-- `observable_type = ANY(typeScope)`, where the poll is scoped. -/
def inTypeScope (feed : Feed) (type : ObservableType) : Bool :=
  (feedDirtyObservableTypes feed).isEmpty || (feedDirtyObservableTypes feed).contains type

section Queries

variable (rt : Runtime) (feed : Feed) (db : ChangeDb) (cutoff candidateCutoff : ℤ)

/-- The tombstones of the interval, oldest first. -/
def deletedRows : List Tombstone :=
  (db.iocDeletes.filter fun d => changedIn cutoff candidateCutoff d.deletedAt &&
    inTypeScope feed d.observableType).insertionSort fun a b => a.deletedAt ≤ b.deletedAt

/-- The living rows with the value and type of a tombstone. -/
def valueSiblingRows (deletes : List Tombstone) : List DirtyRow :=
  (tombstoneSiblings rt db.toDb deletes).map fun i => (i.id, i.observableType)

/-- The rows linked to the artifacts of the tombstones. -/
def artifactSiblingRows (deletes : List Tombstone) : List DirtyRow :=
  (tombstoneLinks db.toDb deletes).map fun l => (l.iocItemId, l.iocObservableType)

/-- The updated rows of the interval, oldest first. -/
def updatedRows : List DirtyRow :=
  ((db.iocItems.filter fun i => (db.updatedAt i.id).any (changedIn cutoff candidateCutoff) &&
    inTypeScope feed i.observableType).insertionSort fun a b =>
      (db.updatedAt a.id).getD 0 ≤ (db.updatedAt b.id).getD 0).map fun i => (i.id, i.observableType)

/-- The rows with changed memberships, each once, by id. -/
def membershipRows : List DirtyRow :=
  ((db.membershipChanges.filter fun m => changedIn cutoff candidateCutoff m.updatedAt &&
    inTypeScope feed m.iocObservableType).map fun m =>
      (m.iocItemId, m.iocObservableType)).dedup.insertionSort fun a b => a.1 ≤ b.1

/-- An enrichment query: each changed row of the table with the IOC rows it joins. -/
def enrichmentRows (table : List EnrichmentRow) (joins : EnrichmentRow → IocItem → Bool) :
    List DirtyRow :=
  (table.filter fun e => changedIn cutoff candidateCutoff e.updatedAt).flatMap fun e =>
    (db.iocItems.filter fun i => joins e i && inTypeScope feed i.observableType).map fun i =>
      (i.id, i.observableType)

/-- The join of the address tables. -/
def joinsIp (e : EnrichmentRow) (i : IocItem) : Bool :=
  decide (i.observable = e.value ∧ i.observableType = .ip)

/-- `enrichSql`: the five enrichment queries in their order. -/
def enrichmentQueries : List (List DirtyRow) :=
  [enrichmentRows feed db cutoff candidateCutoff db.iocEnrichments fun e i =>
      decide (rt.lower i.observable = rt.lower e.value),
    enrichmentRows feed db cutoff candidateCutoff db.ipEnrichment joinsIp,
    enrichmentRows feed db cutoff candidateCutoff db.abuseipdbEnrichment joinsIp,
    enrichmentRows feed db cutoff candidateCutoff db.domainEnrichment fun e i =>
      decide (rt.lower i.observable = rt.lower e.value ∧ i.observableType = .domain),
    enrichmentRows feed db cutoff candidateCutoff db.spamhausDropEnrichment joinsIp]

/-- The rows linked to the changed file artifacts. -/
def fileArtifactRows : List DirtyRow :=
  (db.fileArtifacts.filter fun fa =>
    changedIn cutoff candidateCutoff (db.artifactUpdatedAt fa.id)).flatMap fun fa =>
      (db.artifactLinks.filter fun l => decide (l.artifactId = fa.id) &&
        inTypeScope feed l.iocObservableType).map fun l => (l.iocItemId, l.iocObservableType)

/-- The sources after the tombstones, in the order they are read. -/
def dirtySources (deletes : List Tombstone) : List (Source DirtyRow) :=
  [⟨.remaining, valueSiblingRows rt db deletes⟩, ⟨.remaining, artifactSiblingRows db deletes⟩,
    ⟨.countedAlways, updatedRows feed db cutoff candidateCutoff⟩,
    ⟨.counted, membershipRows feed db cutoff candidateCutoff⟩] ++
  (if feed.includeEnrichment then
    (enrichmentQueries rt feed db cutoff candidateCutoff).map (Source.mk .remaining) else []) ++
  (if shouldCanonicalizePublishedHashFeed rt feed then
    [⟨.remaining, fileArtifactRows feed db cutoff candidateCutoff⟩] else [])

/-- The tag catalog changed in the interval. -/
def tagsCatalogChanged : Bool := db.tagsCatalog.any (changedIn cutoff candidateCutoff)

end Queries

/-- The ids and types that the tombstones bring, as long as there is room. -/
def addDelete (limit : ℕ) (c : Collected DirtyRow ℕ) (d : Tombstone) : Collected DirtyRow ℕ :=
  { c with
    keys := if d.iocItemId ∉ c.keys ∧ c.keys.length < limit then c.keys ++ [d.iocItemId] else c.keys
    rows := c.rows ++ [(d.iocItemId, d.observableType)] }

/-- `collectDirtyIocIds`. The flag `truncated` is the flag `forceFull` but for a feed without a
cutoff and for a changed tag catalog. -/
def collectDirtyIocIds (rt : Runtime) (feed : Feed) (db : ChangeDb) (cutoff : Option ℤ)
    (candidateCutoff : ℤ) (limit : ℕ) : Dirty × Bool :=
  match cutoff with
  | none => (⟨[], [], [], true⟩, false)
  | some cutoff =>
    if tagsCatalogChanged db cutoff candidateCutoff then (⟨[], [], [], true⟩, false)
    else
      let fetched := (deletedRows feed db cutoff candidateCutoff).take (limit + 1)
      let deletes := fetched.take limit
      let start := deletes.foldl (addDelete limit) ⟨[], [], decide (limit < fetched.length)⟩
      let c := readAll Prod.fst limit start (dirtySources rt feed db cutoff candidateCutoff deletes)
      (⟨c.keys, deletes, c.rows, c.truncated⟩, c.truncated)

/-- A result holds every row that the sources return without a limit. -/
def CollectsAll (rt : Runtime) (feed : Feed) (db : ChangeDb) (cutoff candidateCutoff : ℤ)
    (dirty : Dirty) : Prop :=
  (∀ d ∈ deletedRows feed db cutoff candidateCutoff, d ∈ dirty.deletes) ∧
    ∀ s ∈ dirtySources rt feed db cutoff candidateCutoff (deletedRows feed db cutoff candidateCutoff),
      ∀ r ∈ s.rows, r.1 ∈ dirty.ids

/-- A poll that reports neither truncation nor a forced full evaluation holds every row. -/
def ReportsTruncation (rt : Runtime) (feed : Feed) (db : ChangeDb) (cutoff candidateCutoff : ℤ)
    (limit : ℕ) : Prop :=
  let (dirty, truncated) := collectDirtyIocIds rt feed db (some cutoff) candidateCutoff limit
  truncated = false → dirty.forceFull = false → CollectsAll rt feed db cutoff candidateCutoff dirty

/-- The ids of the tombstones of the interval. -/
def deletedIds (feed : Feed) (db : ChangeDb) (cutoff candidateCutoff : ℤ) : Finset ℕ :=
  keysOf Tombstone.iocItemId (deletedRows feed db cutoff candidateCutoff)

/-- No query that asks for the room that is left cuts off a row with a new id: when its turn
comes, the ids of everything before it fill the limit already, or the rows past the room
repeat ids. -/
def FitsRoom (rt : Runtime) (feed : Feed) (db : ChangeDb) (cutoff candidateCutoff : ℤ)
    (limit : ℕ) : Prop :=
  AllWhole Prod.fst limit (deletedIds feed db cutoff candidateCutoff)
    (dirtySources rt feed db cutoff candidateCutoff (deletedRows feed db cutoff candidateCutoff))

variable {rt : Runtime} {feed : Feed} {db : ChangeDb} {cutoff candidateCutoff : ℤ} {limit : ℕ}

/-- Tombstones for which there is room bring all their ids, and keep the flag. -/
theorem foldl_addDelete {deletes : List Tombstone} {c : Collected DirtyRow ℕ} {before : Finset ℕ}
    (hc : c.Holds before) (hroom : before.card + deletes.length ≤ limit) :
    (deletes.foldl (addDelete limit) c).Holds (before ∪ keysOf Tombstone.iocItemId deletes) ∧
      (deletes.foldl (addDelete limit) c).truncated = c.truncated := by
  induction deletes generalizing c before with
  | nil => simpa using hc
  | cons d rest ih =>
    rw [List.length_cons] at hroom
    have hlength : c.keys.length < limit := by
      rw [hc.card]
      omega
    have hkeys : (addDelete limit c d).keys = insertKey d.iocItemId c.keys := by
      by_cases hmem : d.iocItemId ∈ c.keys
      · simp [addDelete, insertKey, hmem]
      · simp [addDelete, insertKey, hmem, hlength]
    have hnext : (addDelete limit c d).Holds (insert d.iocItemId before) := by
      have hinsert := hc.insertKey d.iocItemId [] c.truncated
      constructor
      · rw [hkeys]
        exact hinsert.nodup
      · rw [hkeys]
        exact hinsert.toFinset_eq
    have hcard := Finset.card_insert_le d.iocItemId before
    obtain ⟨hholds, htruncated⟩ := ih hnext (by omega)
    refine ⟨?_, htruncated⟩
    rwa [Finset.insert_union, ← Finset.union_insert, ← keysOf_cons] at hholds

/-- The state after the tombstones. -/
def startOf (feed : Feed) (db : ChangeDb) (cutoff candidateCutoff : ℤ) (limit : ℕ) :
    Collected DirtyRow ℕ :=
  let fetched := (deletedRows feed db cutoff candidateCutoff).take (limit + 1)
  (fetched.take limit).foldl (addDelete limit) ⟨[], [], decide (limit < fetched.length)⟩

/-- When the tombstones are within the limit, none is cut off. -/
theorem startOf_holds (hshort : (deletedRows feed db cutoff candidateCutoff).length ≤ limit) :
    (startOf feed db cutoff candidateCutoff limit).Holds (deletedIds feed db cutoff candidateCutoff) ∧
      (startOf feed db cutoff candidateCutoff limit).truncated = false := by
  have hfetched : (deletedRows feed db cutoff candidateCutoff).take (limit + 1) =
      deletedRows feed db cutoff candidateCutoff := List.take_of_length_le (by omega)
  have hempty : (⟨[], [], false⟩ : Collected DirtyRow ℕ).Holds ∅ := ⟨List.nodup_nil, rfl⟩
  have hflag : decide (limit < (deletedRows feed db cutoff candidateCutoff).length) = false :=
    decide_eq_false (by omega)
  have hfold := foldl_addDelete hempty
    (show (∅ : Finset ℕ).card + (deletedRows feed db cutoff candidateCutoff).length ≤ limit by simpa)
  rw [Finset.empty_union] at hfold
  simp only [startOf, hfetched, hflag, List.take_of_length_le hshort]
  exact hfold

/-- Too many tombstones raise the flag. -/
theorem startOf_truncated (hlong : ¬ (deletedRows feed db cutoff candidateCutoff).length ≤ limit) :
    (startOf feed db cutoff candidateCutoff limit).truncated = true := by
  have hkeep : ∀ (deletes : List Tombstone) (c : Collected DirtyRow ℕ),
      (deletes.foldl (addDelete limit) c).truncated = c.truncated := by
    intro deletes
    induction deletes with
    | nil => exact fun _ => rfl
    | cons d rest ih => exact fun c => ih (addDelete limit c d)
  rw [startOf, hkeep]
  simp only [List.length_take, decide_eq_true_eq]
  omega

/-- The property of a poll within the tombstone limit, in terms of the sources. -/
theorem reportsTruncation_iff (hcatalog : tagsCatalogChanged db cutoff candidateCutoff = false)
    (hshort : (deletedRows feed db cutoff candidateCutoff).length ≤ limit) :
    ReportsTruncation rt feed db cutoff candidateCutoff limit ↔
      ((readAll Prod.fst limit (startOf feed db cutoff candidateCutoff limit)
          (dirtySources rt feed db cutoff candidateCutoff
            (deletedRows feed db cutoff candidateCutoff))).truncated = false →
        ∀ k ∈ keysOfSources Prod.fst (dirtySources rt feed db cutoff candidateCutoff
            (deletedRows feed db cutoff candidateCutoff)),
          k ∈ (readAll Prod.fst limit (startOf feed db cutoff candidateCutoff limit)
            (dirtySources rt feed db cutoff candidateCutoff
              (deletedRows feed db cutoff candidateCutoff))).keys) := by
  have hdeletes : ((deletedRows feed db cutoff candidateCutoff).take (limit + 1)).take limit =
      deletedRows feed db cutoff candidateCutoff := by
    rw [List.take_take, List.take_of_length_le (by omega)]
  simp only [ReportsTruncation, collectDirtyIocIds, hcatalog, Bool.false_eq_true, if_false,
    CollectsAll]
  rw [hdeletes]
  have hstart : startOf feed db cutoff candidateCutoff limit =
      (deletedRows feed db cutoff candidateCutoff).foldl (addDelete limit) ⟨[], [],
        decide (limit < ((deletedRows feed db cutoff candidateCutoff).take (limit + 1)).length)⟩ := by
    rw [startOf, hdeletes]
  rw [← hstart]
  constructor
  · intro h hflag k hk
    obtain ⟨r, hr, rfl⟩ := mem_keysOf.mp hk
    obtain ⟨s, hs, hrs⟩ := List.mem_flatMap.mp hr
    exact (h hflag hflag).2 s hs r hrs
  · intro h hflag _
    refine ⟨fun _ hd => hd, fun s hs r hr => h hflag _ ?_⟩
    exact mem_keysOf.mpr ⟨r, List.mem_flatMap.mpr ⟨s, hs, hr⟩, rfl⟩

/-- Where every source fits, truncation is always reported. And for a query that asks for the
room that is left, after sources that fit and before sources that return nothing, it is
reported exactly if that query fits. -/
theorem collectDirtyIocIds_reports :
    (FitsRoom rt feed db cutoff candidateCutoff limit →
      ReportsTruncation rt feed db cutoff candidateCutoff limit) ∧
    ∀ earlier s later, dirtySources rt feed db cutoff candidateCutoff
          (deletedRows feed db cutoff candidateCutoff) = earlier ++ s :: later →
      s.quota = .remaining → (∀ s ∈ later, s.rows = []) →
      tagsCatalogChanged db cutoff candidateCutoff = false →
      (deletedRows feed db cutoff candidateCutoff).length ≤ limit →
      (∀ s ∈ earlier, s.quota ≠ .remaining → s.rows.length ≤ limit) →
      AllWhole Prod.fst limit (deletedIds feed db cutoff candidateCutoff) earlier →
      (ReportsTruncation rt feed db cutoff candidateCutoff limit ↔
        Whole Prod.fst limit (deletedIds feed db cutoff candidateCutoff ∪
          keysOfSources Prod.fst earlier) s.rows) := by
  refine ⟨fun hfits => ?_, ?_⟩
  · by_cases hcatalog : tagsCatalogChanged db cutoff candidateCutoff = true
    · simp only [ReportsTruncation, collectDirtyIocIds, hcatalog, if_true]
      nofun
    · rw [Bool.not_eq_true] at hcatalog
      by_cases hshort : (deletedRows feed db cutoff candidateCutoff).length ≤ limit
      · obtain ⟨hstart, -⟩ := startOf_holds hshort
        rw [reportsTruncation_iff hcatalog hshort]
        intro hflag k hk
        exact (readAll_holds hstart hfits hflag).mem_iff.mpr (Finset.mem_union_right _ hk)
      · simp only [ReportsTruncation, collectDirtyIocIds, hcatalog, Bool.false_eq_true, if_false]
        intro hflag
        have huntil := not_truncated_of_readAll hflag
        have hup := startOf_truncated hshort
        rw [startOf, huntil] at hup
        cases hup
  · intro earlier s later hsources hquota hlater hcatalog hshort hcounted hearlier
    obtain ⟨hstart, huntil⟩ := startOf_holds hshort
    rw [reportsTruncation_iff hcatalog hshort, hsources]
    exact readAll_complete_iff hstart huntil hearlier hcounted hquota hlater

/-- A domain feed whose items carry enrichment. -/
def enrichedFeed : Feed := { plainFeed [.domain] with includeEnrichment := true }

/-- Three domains whose enrichment was written at time 15. -/
def enrichedDb : ChangeDb where
  toDb := plainDb [plainIoc 1 .domain "a.com" 5, plainIoc 2 .domain "b.com" 5,
    plainIoc 3 .domain "c.com" 5] (by simp [plainIoc])
  updatedAt _ := none
  iocDeletes := []
  membershipChanges := []
  artifactUpdatedAt _ := 0
  iocEnrichments := []
  ipEnrichment := []
  abuseipdbEnrichment := []
  domainEnrichment := [⟨"a.com", 15⟩, ⟨"b.com", 15⟩, ⟨"c.com", 15⟩]
  spamhausDropEnrichment := []
  tagsCatalog := none

/-- A limit of two cuts off the third domain and nothing reports it. -/
theorem collectDirtyIocIds_silent :
    ¬ ∀ (rt : Runtime) (feed : Feed) (db : ChangeDb) (cutoff candidateCutoff : ℤ) (limit : ℕ),
      ReportsTruncation rt feed db cutoff candidateCutoff limit := by
  intro h
  have hall := h plainRuntime enrichedFeed enrichedDb 10 20 2 (by decide +kernel) (by decide +kernel)
  have hmissing : ¬ ∀ s ∈ dirtySources plainRuntime enrichedFeed enrichedDb 10 20
        (deletedRows enrichedFeed enrichedDb 10 20), ∀ r ∈ s.rows,
      r.1 ∈ (collectDirtyIocIds plainRuntime enrichedFeed enrichedDb (some 10) 20 2).1.ids := by
    decide +kernel
  exact hmissing hall.2

/-- The sources before the domain enrichment return nothing. -/
def sourcesBeforeDomains : List (Source DirtyRow) :=
  [⟨.remaining, []⟩, ⟨.remaining, []⟩, ⟨.countedAlways, []⟩, ⟨.counted, []⟩,
    ⟨.remaining, []⟩, ⟨.remaining, []⟩, ⟨.remaining, []⟩]

/-- A limit of three has room for all, and a limit of two does not. -/
theorem collectDirtyIocIds_reports_enriched :
    ReportsTruncation plainRuntime enrichedFeed enrichedDb 10 20 3 ∧
      (ReportsTruncation plainRuntime enrichedFeed enrichedDb 10 20 2 ↔
        Whole Prod.fst 2 (deletedIds enrichedFeed enrichedDb 10 20 ∪
            keysOfSources Prod.fst sourcesBeforeDomains)
          [(1, ObservableType.domain), (2, .domain), (3, .domain)]) := by
  refine ⟨collectDirtyIocIds_reports.1 (by unfold FitsRoom; decide +kernel), ?_⟩
  exact collectDirtyIocIds_reports.2 sourcesBeforeDomains ⟨.remaining, [(1, .domain), (2, .domain), (3, .domain)]⟩
    [⟨.remaining, []⟩] (by decide +kernel) rfl (by decide) (by decide) (by decide +kernel)
    (by decide) (by decide +kernel)

end TalonHound
