import Mathlib.Data.List.Sort
import Mathlib.Data.Prod.Lex
import TalonHound.Library.DistinctOn
import TalonHound.PublishedFeed.Ioc

/-!
# The predicate of a published feed

A feed selects IOC rows by the `WHERE` clause that `buildFeedFilterSql`,
`buildFeedKeySourceSql`, `buildSafetyFilterSql` and `buildQueryModeWhereSql` assemble.
Each SQL fragment is a predicate on one row with the rows joined to it.
-/

namespace TalonHound

/-- SQL `LIKE` without an escape character; `%` matches any run, `_` any character. -/
def likeMatch : List Char → List Char → Bool
  | [], text => text.isEmpty
  | '%' :: pat, text => text.tails.any (likeMatch pat)
  | '_' :: pat, text =>
    match text with
    | [] => false
    | _ :: text => likeMatch pat text
  | c :: pat, text =>
    match text with
    | [] => false
    | d :: text => decide (c = d) && likeMatch pat text

/-- `text LIKE pattern`. -/
def like (text pattern : String) : Bool := likeMatch pattern.toList text.toList

/-- `text ILIKE pattern`. -/
def ilike (rt : Runtime) (text pattern : String) : Bool :=
  like (rt.lower text) (rt.lower pattern)

/-- A rule of `FEED_SOURCE_RULES`. -/
inductive FeedSourceRule where
  | exact (name : String)
  | startsWith (head : String)
  | fragments (fragments : List String)

/-- `FEED_SOURCE_RULES`: how an integration key selects rows by `source_name`. -/
def feedSourceRule : String → Option FeedSourceRule
  | "usom-trcert" => some (.exact "USOM:TR-CERT")
  | "urlhaus-abusech" => some (.exact "URLhaus:abuse.ch")
  | "threatfox-abusech" => some (.exact "ThreatFox:abuse.ch")
  | "malwarebazaar-abusech" => some (.exact "MalwareBazaar:abuse.ch")
  | "et-blockrules" => some (.startsWith "EmergingThreats:")
  | "phishtank-opendnsrr" => some (.fragments ["phishtank", "PhishTank"])
  | "alienvault-otx" => some (.exact "AlienVault OTX")
  | "certpl-warning-list" => some (.exact "CERT.PL:CERT-Polska")
  | _ => none

/-- The SQL condition of one source rule. -/
def FeedSourceRule.holds (rt : Runtime) (i : IocItem) : FeedSourceRule → Bool
  | .exact name => decide (i.sourceName = name)
  | .startsWith head => like i.sourceName (head ++ "%")
  | .fragments frags => frags.any fun frag => ilike rt i.sourceName ("%" ++ frag ++ "%")

/-- The conditions `buildFeedKeySourceSql` joins with `OR`. A key it does not know adds
none, and all custom keys share one `EXISTS`. -/
def feedKeySourceParts (rt : Runtime) (keys : List FeedKey) (i : IocItem) : List Bool :=
  let customKeys := keys.filterMap fun
    | .custom key => some key
    | _ => none
  let manualIds := keys.filterMap fun
    | .manual sourceId => sourceId
    | _ => none
  (keys.filterMap fun
    | .integration key => (feedSourceRule key).map (FeedSourceRule.holds rt i)
    | _ => none) ++
  (if customKeys = [] then []
    else [i.memberships.any fun m => customKeys.contains m.feedKey && m.active && !m.purged]) ++
  (if manualIds = [] then [] else [i.iocSourceId.any manualIds.contains])

/-- `buildFeedKeySourceSql`: no restriction when no key contributes a condition. -/
def feedKeySourceHolds (rt : Runtime) (keys : List FeedKey) (i : IocItem) : Bool :=
  let parts := feedKeySourceParts rt keys i
  parts.isEmpty || parts.any id

/-- `buildSafetyFilterSql`. -/
def safetyFilterHolds (rt : Runtime) (feed : Feed) (i : IocItem) : Bool :=
  let category := i.category.getD ""
  let includeTags := feed.includeTags.map rt.lower
  let excludeTags := feed.excludeTags.map rt.lower
  (!feed.excludeFalsePositive ||
    (!ilike rt category "%false%positive%" && rt.lower category != "fp")) &&
  (!feed.excludeExpired || i.status == .active) &&
  (includeTags.isEmpty || i.tags.any fun t => t.enabled && includeTags.contains (rt.lower t.name)) &&
  (excludeTags.isEmpty || !i.tags.any fun t => excludeTags.contains (rt.lower t.name))

/-- The `CASE` on `confidence` in `buildFeedFilterSql`. -/
def confidenceScoreSql (rt : Runtime) (confidence : String) : ℤ :=
  match rt.lower confidence with
  | "high" => 100
  | "medium" => 50
  | "low" => 25
  | _ => 0

/-- One day in milliseconds. -/
def dayMs : ℤ := 24 * 60 * 60 * 1000

/-- `WINDOW_INTERVALS`, in milliseconds. -/
def windowInterval : FeedWindow → Option ℤ
  | .d1 => some dayMs
  | .d3 => some (3 * dayMs)
  | .d7 => some (7 * dayMs)
  | .all => none

/-- `buildFeedFilterSql` at the database time `now`. -/
def feedFilterHolds (rt : Runtime) (feed : Feed) (window : FeedWindow) (now : ℤ)
    (i : IocItem) : Bool :=
  (match windowInterval window with
    | some interval => decide (now - interval ≤ i.recencyTs)
    | none => true) &&
  (match feed.minConfidence with
    | some least => decide (least ≤ confidenceScoreSql rt i.confidence)
    | none => true) &&
  feedKeySourceHolds rt feed.includeFeedKeys i && safetyFilterHolds rt feed i

/-- The `WHERE` clause of the base query: `buildQueryModeWhereSql` in query mode, the
Basic filters otherwise. Suppressed rows are excluded in both modes. -/
def matchesFeed (rt : Runtime) (feed : Feed) (window : FeedWindow) (now : ℤ) (i : IocItem) : Bool :=
  match resolveFeedFilterMode feed with
  | .query =>
    rt.matchesQuery (feed.advancedQuery.getD "") i && i.status != .suppressed &&
      safetyFilterHolds rt feed i
  | .basic =>
    (observableTypesForFeedIocTypes (resolveFeedIocTypes feed)).contains i.observableType &&
      i.status != .suppressed && feedFilterHolds rt feed window now i

/-- Without a window the predicate does not read the clock. -/
theorem matchesFeed_all (rt : Runtime) (feed : Feed) (now later : ℤ) (i : IocItem) :
    matchesFeed rt feed .all now i = matchesFeed rt feed .all later i := by
  simp only [matchesFeed, feedFilterHolds, windowInterval]

/-!
## The streaming base query

`buildStreamingBaseSql` keeps one row for each published identity of a feed. Canonical
hash feeds go through `buildStreamingHashBaseSql`, which identifies the sibling hashes of
a file artifact and presents the winner under the primary hash. Both accept a
restriction to listed values and types, which an incremental refresh uses. PostgreSQL
leaves rows tied in every sort column in any order; here the smaller id comes first.
-/

open DistinctOn

/-- `CONF_RANK_SQL`. -/
def confRank (rt : Runtime) (confidence : String) : ℤ :=
  match rt.lower confidence with
  | "high" => 3
  | "medium" => 2
  | "low" => 1
  | _ => 0

/-- A row the streaming query returns. -/
structure StreamRow where
  id : ℕ
  observable : String
  observableType : ObservableType
  confidence : String
  category : Option String
  createdAt : ℤ
  iocSourceId : Option ℕ
  sourceName : String
  recencyTs : ℤ
  partitionIdentity : Option IdentityKey
  deriving DecidableEq

/-- The optional identity scope of the base query. -/
structure Restriction where
  lowerValues : List String
  types : List ObservableType

/-- The restriction clause; it is left out unless both lists have entries. -/
def Restriction.holds (rt : Runtime) (restrict : Restriction) (i : IocItem) : Bool :=
  restrict.lowerValues.isEmpty || restrict.types.isEmpty ||
    (restrict.lowerValues.contains (rt.lower i.observable) &&
      restrict.types.contains i.observableType)

/-- The outer `ORDER BY recency_ts DESC, confidence rank DESC, observable ASC`. -/
def outputKey (rt : Runtime) (r : StreamRow) : ℤ ×ₗ ℤ ×ₗ String :=
  toLex (-r.recencyTs, toLex (-confRank rt r.confidence, r.observable))

/-- Rows in the order of the artifact. -/
def orderOutput (rt : Runtime) (rows : List StreamRow) : List StreamRow :=
  rows.insertionSort fun a b => outputKey rt a ≤ outputKey rt b

/-- Ordering keeps the rows. -/
@[simp] theorem mem_orderOutput {rt : Runtime} {rows : List StreamRow} {r : StreamRow} :
    r ∈ orderOutput rt rows ↔ r ∈ rows :=
  (List.perm_insertionSort _ rows).mem_iff

/-- `ORDER BY recency DESC, confidence rank DESC, observable ASC`. -/
def valueSortKey (rt : Runtime) (i : IocItem) : ℤ ×ₗ ℤ ×ₗ String ×ₗ ℕ :=
  toLex (-i.recencyTs, toLex (-confRank rt i.confidence, toLex (i.observable, i.id)))

/-- The row order inside one value of `DISTINCT ON (lower(observable))`. -/
def valueBefore (rt : Runtime) (i j : IocItem) : Bool :=
  decide (valueSortKey rt i < valueSortKey rt j)

/-- The identity of `DISTINCT ON (lower(i.observable))`. -/
def valueIdentity (rt : Runtime) (i : IocItem) : String := rt.lower i.observable

/-- The columns the query returns for a picked row. -/
def IocItem.toStreamRow (i : IocItem) : StreamRow where
  id := i.id
  observable := i.observable
  observableType := i.observableType
  confidence := i.confidence
  category := i.category
  createdAt := i.createdAt
  iocSourceId := i.iocSourceId
  sourceName := i.sourceName
  recencyTs := i.recencyTs
  partitionIdentity := none

/-- The rows that satisfy the feed predicate. -/
def matchedItems (rt : Runtime) (feed : Feed) (window : FeedWindow) (now : ℤ) (db : Db) :
    List IocItem :=
  db.iocItems.filter (matchesFeed rt feed window now)

/-- The rows a value feed publishes, before they are presented. -/
def valueWinners (rt : Runtime) (feed : Feed) (window : FeedWindow) (now : ℤ) (db : Db)
    (keep : IocItem → Bool) : List IocItem :=
  distinctOn (valueIdentity rt) (valueBefore rt) ((matchedItems rt feed window now db).filter keep)

/-- `ARTIFACT_HASH_TYPES_SQL`. -/
def artifactHashTypes : List ObservableType := [.md5, .sha1, .sha256]

/-- A row of `matched`: an IOC with its file artifact, if any. -/
structure MatchedRow where
  item : IocItem
  artifactId : Option String
  primaryHash : Option PrimaryHash

/-- The artifact an IOC row belongs to, following one merge. -/
def resolvedArtifactId (db : Db) (i : IocItem) : Option String := do
  guard (artifactHashTypes.contains i.observableType)
  let link ← db.artifactLinks.find? fun l =>
    decide (l.iocItemId = i.id ∧ l.iocObservableType = i.observableType)
  let artifact ← db.fileArtifacts.find? fun a => decide (a.id = link.artifactId)
  return if artifact.merged then artifact.mergedInto.getD artifact.id else artifact.id

/-- `ARTIFACT_ANNOTATE_JOINS`. -/
def annotate (db : Db) (i : IocItem) : MatchedRow :=
  let artifactId := resolvedArtifactId db i
  { item := i
    artifactId := artifactId
    primaryHash := artifactId.bind fun id =>
      db.primaryHashes.find? fun h => decide (h.artifactId = id) }

/-- `ARTIFACT_IDENTITY_SQL`. -/
def MatchedRow.identityKey (rt : Runtime) (m : MatchedRow) : IdentityKey :=
  match m.artifactId with
  | some id => .artifact id
  | none => .observable m.item.observableType (rt.lower m.item.observable)

/-- Whether the row itself carries the primary hash of its artifact. -/
def MatchedRow.isPrimary (rt : Runtime) (m : MatchedRow) : Bool :=
  m.primaryHash.any fun h =>
    rt.lower m.item.observable == rt.lower h.normalizedHashValue &&
      m.item.observableType == h.hashType

/-- The `CASE` that prefers SHA-256 over SHA-1 over MD5. -/
def hashTypeRank : ObservableType → ℕ
  | .sha256 => 0
  | .sha1 => 1
  | .md5 => 2
  | _ => 9

/-- The sort columns of `picked` after `identity_key`. -/
def hashSortKey (rt : Runtime) (m : MatchedRow) : ℕ ×ₗ ℕ ×ₗ ℤ ×ₗ String ×ₗ ℕ :=
  toLex (if m.isPrimary rt then 0 else 1, toLex (hashTypeRank m.item.observableType,
    toLex (-m.item.recencyTs, toLex (m.item.observable, m.item.id))))

/-- The row order inside one identity of `picked`. -/
def hashBefore (rt : Runtime) (m k : MatchedRow) : Bool :=
  decide (hashSortKey rt m < hashSortKey rt k)

/-- The columns of `picked`: the winner under the primary hash of its artifact. -/
def MatchedRow.toStreamRow (rt : Runtime) (m : MatchedRow) : StreamRow :=
  { m.item.toStreamRow with
    observable := (m.primaryHash.map PrimaryHash.normalizedHashValue).getD m.item.observable
    observableType := (m.primaryHash.map PrimaryHash.hashType).getD m.item.observableType
    partitionIdentity := some (m.identityKey rt) }

/-- The `matched` rows of a canonical hash feed. -/
def matchedRows (rt : Runtime) (feed : Feed) (window : FeedWindow) (now : ℤ) (db : Db) :
    List MatchedRow :=
  (matchedItems rt feed window now db).map (annotate db)

/-- The rows a canonical hash feed publishes, before they are presented. -/
def hashWinners (rt : Runtime) (feed : Feed) (window : FeedWindow) (now : ℤ) (db : Db)
    (keep : IocItem → Bool) : List MatchedRow :=
  distinctOn (MatchedRow.identityKey rt) (hashBefore rt)
    ((matchedRows rt feed window now db).filter fun m => keep m.item)

/-- `buildStreamingHashBaseSql`. -/
def buildStreamingHashBase (rt : Runtime) (feed : Feed) (window : FeedWindow) (now : ℤ) (db : Db)
    (keep : IocItem → Bool) : List StreamRow :=
  orderOutput rt ((hashWinners rt feed window now db keep).map (MatchedRow.toStreamRow rt))

/-- `buildStreamingBaseSql`. The rows the restriction clause lets through are given by
`keep`. -/
def buildStreamingBase (rt : Runtime) (feed : Feed) (window : FeedWindow) (now : ℤ) (db : Db)
    (keep : IocItem → Bool) : List StreamRow :=
  if shouldCanonicalizePublishedHashFeed rt feed then
    buildStreamingHashBase rt feed window now db keep
  else orderOutput rt ((valueWinners rt feed window now db keep).map IocItem.toStreamRow)

/-- An order by a key that tells the rows of a list apart sorts the list. -/
theorem sorts_of_key {ρ κ : Type*} [LinearOrder κ] {sortKey : ρ → κ} {rows : List ρ}
    (hinj : ∀ r ∈ rows, ∀ s ∈ rows, sortKey r = sortKey s → r = s) :
    Sorts (fun r s => decide (sortKey r < sortKey s)) rows where
  irrefl r := by simp
  trans r s t hrs hst := by
    simp only [decide_eq_true_eq] at hrs hst ⊢
    exact hrs.trans hst
  total r hr s hs hrs hsr := by
    simp only [decide_eq_false_iff_not, not_lt] at hrs hsr
    exact hinj r hr s hs (le_antisymm hsr hrs)

variable {rt : Runtime} {feed : Feed} {window : FeedWindow} {now : ℤ} {db : Db}

/-- The matched items are those that the feed matches. -/
theorem mem_matchedItems {i : IocItem} :
    i ∈ matchedItems rt feed window now db ↔
      i ∈ db.iocItems ∧ matchesFeed rt feed window now i = true :=
  List.mem_filter

variable {m : MatchedRow}

/-- The matched rows are the matched items, annotated. -/
theorem mem_matchedRows : m ∈ matchedRows rt feed window now db ↔
      ∃ i ∈ matchedItems rt feed window now db, annotate db i = m :=
  List.mem_map

/-- An annotated row is the annotation of its own item. -/
theorem annotate_item_of_mem (h : m ∈ matchedRows rt feed window now db) :
    m.item ∈ db.iocItems ∧ annotate db m.item = m := by
  obtain ⟨i, hi, rfl⟩ := mem_matchedRows.mp h
  exact ⟨(mem_matchedItems.mp hi).1, rfl⟩

/-- The id of its item names an annotated row. -/
theorem matchedRow_eq_of_id_eq {k : MatchedRow} (hm : m ∈ matchedRows rt feed window now db)
    (hk : k ∈ matchedRows rt feed window now db) (hid : m.item.id = k.item.id) : m = k := by
  obtain ⟨hm, hmitem⟩ := annotate_item_of_mem hm
  obtain ⟨hk, hkitem⟩ := annotate_item_of_mem hk
  rw [← hmitem, ← hkitem, db.eq_of_id_eq hm hk hid]

/-- Matched items are sorted by value. -/
theorem sorts_matchedItems : Sorts (valueBefore rt) (matchedItems rt feed window now db) := by
  refine sorts_of_key fun i hi j hj hkey => ?_
  have hid : i.id = j.id := by
    simpa [valueSortKey] using congrArg (fun k => (ofLex (ofLex (ofLex k).2).2).2) hkey
  exact db.eq_of_id_eq (mem_matchedItems.mp hi).1 (mem_matchedItems.mp hj).1 hid

/-- Matched rows are sorted by hash. -/
theorem sorts_matchedRows : Sorts (hashBefore rt) (matchedRows rt feed window now db) := by
  refine sorts_of_key fun m hm k hk hkey => ?_
  have hid : m.item.id = k.item.id := by
    simpa [hashSortKey] using congrArg (fun k => (ofLex (ofLex (ofLex (ofLex k).2).2).2).2) hkey
  exact matchedRow_eq_of_id_eq hm hk hid

/-- No item is matched twice. -/
theorem nodup_matchedItems : (matchedItems rt feed window now db).Nodup :=
  (db.ids_nodup.of_map _).filter _

/-- No row is matched twice. -/
theorem nodup_matchedRows : (matchedRows rt feed window now db).Nodup :=
  nodup_matchedItems.map fun _ _ h => congrArg MatchedRow.item h

/-- A canonical hash feed publishes no id twice. -/
theorem nodup_hashWinners_ids {keep : IocItem → Bool} :
    ((hashWinners rt feed window now db keep).map fun m => m.item.id).Nodup := by
  refine List.Nodup.map_on ?_ ((nodup_matchedRows.filter _).filter _)
  intro m hm k hk hid
  exact matchedRow_eq_of_id_eq (List.mem_filter.mp (distinctOn_subset hm)).1
    (List.mem_filter.mp (distinctOn_subset hk)).1 hid

/-- A value feed publishes no id twice. -/
theorem nodup_valueWinners_ids {keep : IocItem → Bool} :
    ((valueWinners rt feed window now db keep).map IocItem.id).Nodup := by
  refine List.Nodup.map_on ?_ ((nodup_matchedItems.filter _).filter _)
  intro i hi j hj hid
  exact db.eq_of_id_eq (mem_matchedItems.mp (List.mem_filter.mp (distinctOn_subset hi)).1).1
    (mem_matchedItems.mp (List.mem_filter.mp (distinctOn_subset hj)).1).1 hid

end TalonHound
