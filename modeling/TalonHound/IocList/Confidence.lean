import Mathlib.Data.List.Sort
import Mathlib.Data.List.Infix
import Mathlib.Data.List.Dedup
import TalonHound.Library.InsertionMap
import TalonHound.Library.Tiers
import TalonHound.IocExpiration.Recompute

/-!
# The confidence of an IOC

The confidence that the list and the details of an IOC show: an analyst override, else the
greatest confidence of the active memberships, else that of the inactive ones, else the one
stored with the item. The list and the details select different columns and rows for it.
-/

namespace TalonHound.IocList

open Tiers
open TalonHound.FileArtifacts (lowerCase)
open TalonHound.IocExpiration (IocStatus)

/-- `CONFIDENCE_LEVELS`. -/
inductive ConfidenceLevel where
  | low | medium | high
  deriving DecidableEq

/-- `CONFIDENCE_RANK`. -/
def confidenceRank : ConfidenceLevel → ℕ
  | .low => 1
  | .medium => 2
  | .high => 3

theorem confidenceRank_injective : Function.Injective confidenceRank := by
  intro a b h
  cases a <;> cases b <;> first | rfl | cases h

instance : LinearOrder ConfidenceLevel := LinearOrder.lift' confidenceRank confidenceRank_injective

/-- `normalizeConfidence`. -/
def normalizeConfidence (value : Option String) : Option ConfidenceLevel :=
  let c := lowerCase (trim (value.getD ""))
  if c = "critical" then some .high
  else if c = "low" then some .low
  else if c = "medium" then some .medium
  else if c = "high" then some .high
  else none

/-- The statuses of a membership that the code tells apart. -/
inductive SourceStatus where
  | active | expired | removed | disabled | purged
  deriving DecidableEq

/-- A row of `ioc_feed_memberships` joined with its feed. -/
structure ConfidenceMembership where
  iocItemId : ℕ
  iocObservableType : String
  status : SourceStatus
  purgedAt : Option ℤ
  explicitConfidence : Option String
  lastSeenInFeed : ℤ
  (feedKey feedName : String)
  feedDefaultConfidence : Option String
  deriving DecidableEq

/-- The columns of an item that confidence is made of. -/
structure ConfidenceColumns where
  status : IocStatus
  (sourceName sourceConfidence confidence analystConfidenceOverride : Option String)
  iocSourceId : Option ℕ
  deriving DecidableEq

/-- A row of `ioc_items`. -/
structure ConfidenceItem extends ConfidenceColumns where
  (id publicId : ℕ)
  observableType : String
  deriving DecidableEq

/-- `ioc_items` and `ioc_feed_memberships`; ids come from one sequence for all types. -/
structure ConfidenceTables where
  items : List ConfidenceItem
  memberships : List ConfidenceMembership
  unique_id : (items.map (·.id)).Nodup

/-- The row with an id. -/
def ConfidenceTables.item? (t : ConfidenceTables) (id : ℕ) : Option ConfidenceItem :=
  Rows.lookup (·.id) t.items id

/-- A test of `FEED_SOURCE_RULES`. -/
inductive SourceNameTest where
  | exact (name : String)
  | startsWith (name : String)
  | includes (names : List String)

/-- `FEED_SOURCE_RULES`. -/
def feedSourceRules : List (String × SourceNameTest) :=
  [("usom-trcert", .exact "USOM:TR-CERT"), ("urlhaus-abusech", .exact "URLhaus:abuse.ch"),
    ("threatfox-abusech", .exact "ThreatFox:abuse.ch"),
    ("malwarebazaar-abusech", .exact "MalwareBazaar:abuse.ch"),
    ("et-blockrules", .startsWith "EmergingThreats:"),
    ("phishtank-opendnsrr", .includes ["phishtank", "PhishTank"]),
    ("alienvault-otx", .exact "AlienVault OTX"),
    ("certpl-warning-list", .exact "CERT.PL:CERT-Polska")]

/-- `sourceNameMatchesFeed`, for a rule. -/
def SourceNameTest.matches (sourceName : String) : SourceNameTest → Bool
  | .exact name => decide (sourceName = name)
  | .startsWith name => decide (name.toList <+: sourceName.toList)
  | .includes names => names.any fun name => decide (name.toList <:+: sourceName.toList)

/-- `feedKeyForSourceName`. -/
def feedKeyForSourceName (sourceName : Option String) : Option String :=
  (feedSourceRules.find? fun rule => rule.2.matches (sourceName.getD "")).map (·.1)

/-- `isActiveFeedMembership`. -/
def isActiveFeedMembership (m : ConfidenceMembership) : Bool :=
  m.purgedAt.isNone && decide (m.status = .active)

/-- `isHistoricalFeedMembership`. -/
def isHistoricalFeedMembership (m : ConfidenceMembership) : Bool :=
  m.purgedAt.isSome || decide (m.status ∈ [.purged, .expired, .removed])

/-- `filterConfidenceMemberships`. -/
def filterConfidenceMemberships (memberships : List ConfidenceMembership) (allowHistorical : Bool) :
    List ConfidenceMembership :=
  memberships.filter fun m =>
    if m.purgedAt.isSome || decide (m.status = .purged) then false
    else if isActiveFeedMembership m then true
    else if !allowHistorical then false
    else decide (m.status ∈ [.expired, .removed, .disabled]) || isHistoricalFeedMembership m

/-- `CONFIDENCE_SOURCES`, as far as memberships yield them. -/
inductive InheritedSource where
  | manual | feedEntry | feedDefault | unknown

/-- What `computeInheritedEffectiveConfidence` returns. -/
structure InheritedConfidence where
  effective : Option ConfidenceLevel
  confidenceSource : InheritedSource
  inheritedFromFeed : Bool
  (feedName feedKey : Option String)

/-- `bestCtx`. -/
structure ConfidenceContext where
  value : ConfidenceLevel
  inherited : Bool
  source : InheritedSource
  (feedName feedKey : Option String)

/-- The candidate of a membership: its own confidence, or that of its feed. -/
def membershipContext (m : ConfidenceMembership) : Option ConfidenceContext :=
  match normalizeConfidence m.explicitConfidence, normalizeConfidence m.feedDefaultConfidence with
  | some value, _ => some ⟨value, false, .feedEntry, some m.feedName, some m.feedKey⟩
  | none, some value => some ⟨value, true, .feedDefault, some m.feedName, some m.feedKey⟩
  | none, none => none

/-- The entry confidences of item rows, by feed: a map in the order of insertion. -/
abbrev LegacyMap := List (String × ConfidenceLevel)

/-- The candidate of an entry of the legacy map. -/
def legacyContext (entry : String × ConfidenceLevel) : ConfidenceContext :=
  ⟨entry.2, false, .feedEntry, none, some entry.1⟩

/-- `computeInheritedEffectiveConfidence`. -/
def computeInheritedEffectiveConfidence (manualOverride : Option String)
    (memberships : List ConfidenceMembership) (legacyExplicitByFeedKey : LegacyMap)
    (includeInactiveMemberships : Bool) : InheritedConfidence :=
  match normalizeConfidence manualOverride with
  | some manual => ⟨some manual, .manual, false, none, none⟩
  | none =>
    let eligibleMemberships := if includeInactiveMemberships then
        memberships.filter fun m => m.purgedAt.isNone && decide (m.status ≠ .purged)
      else memberships.filter isActiveFeedMembership
    let best := (eligibleMemberships.filterMap membershipContext ++
      legacyExplicitByFeedKey.map legacyContext).foldl (keepGreatest (·.value)) none
    match best with
    | some c => ⟨some c.value, c.source, c.inherited, c.feedName, c.feedKey⟩
    | none => ⟨none, .unknown, false, none, none⟩

/-- The entry confidence of a row, with its feed. -/
def legacyEntry (row : ConfidenceColumns) : Option (String × ConfidenceLevel) :=
  (normalizeConfidence row.sourceConfidence).bind fun explicit =>
    (feedKeyForSourceName row.sourceName).map fun feedKey => (feedKey, explicit)

/-- The body of the loop of `buildLegacyExplicitMapFromIocRows`. -/
def addLegacy (map : LegacyMap) (entry : String × ConfidenceLevel) : LegacyMap :=
  match map.find? fun e => decide (e.1 = entry.1) with
  | none => InsertionMap.set Prod.fst map entry
  | some existing =>
    if existing.2 ≤ entry.2 then InsertionMap.set Prod.fst map entry else map

/-- `buildLegacyExplicitMapFromIocRows`. -/
def buildLegacyExplicitMapFromIocRows (rows : List ConfidenceColumns) (activeOnly : Bool) :
    LegacyMap :=
  ((rows.filter fun row => !activeOnly || decide (row.status = .active)).filterMap
    legacyEntry).foldl addLegacy []

/-- `confidenceSourceScope`. -/
inductive SourceScope where
  | active | historical
  deriving DecidableEq

/-- `resolveIocConfidenceFromMemberships`. The override counts as given unless it is missing or
empty. -/
def resolveIocConfidenceFromMemberships (analystOverride : Option String)
    (membershipRows : List ConfidenceMembership) (iocRows : List ConfidenceColumns)
    (allowHistoricalFallback : Bool) : InheritedConfidence × SourceScope :=
  let activeMemberships := filterConfidenceMemberships membershipRows false
  let activeIocRows := iocRows.filter fun row => decide (row.status = .active)
  let inherited := computeInheritedEffectiveConfidence analystOverride activeMemberships
    (buildLegacyExplicitMapFromIocRows activeIocRows true) false
  if analystOverride.getD "" = "" ∧ inherited.effective = none ∧ allowHistoricalFallback = true then
    let historicalMemberships :=
      (filterConfidenceMemberships membershipRows true).filter fun m => !isActiveFeedMembership m
    if historicalMemberships = [] then (inherited, .active)
    else
      let historicalIocRows := iocRows.filter fun row => decide (row.status ≠ .active)
      let historicalInherited := computeInheritedEffectiveConfidence none historicalMemberships
        (buildLegacyExplicitMapFromIocRows historicalIocRows false) true
      if historicalInherited.effective.isSome then (historicalInherited, .historical)
      else (inherited, .active)
  else (inherited, .active)

/-- The level of `computeItemStoredConfidence`. -/
def computeItemStoredConfidence (row : ConfidenceColumns) : Option ConfidenceLevel :=
  if (normalizeConfidence row.analystConfidenceOverride).isSome then none
  else normalizeConfidence row.confidence

/-- `pickPrimaryIocRow`. -/
def pickPrimaryIocRow (rows : List ConfidenceItem) (seedPublicId : ℕ) : Option ConfidenceItem :=
  (rows.find? fun r => decide (r.publicId = seedPublicId)) <|> rows.head?

/-- The memberships that `buildIocConfidenceSummaryForDetails` selects. -/
def ConfidenceTables.detailMemberships (t : ConfidenceTables) (rows : List ConfidenceItem)
    (seedRow : ConfidenceItem) : List ConfidenceMembership :=
  (t.memberships.filter fun m =>
    decide (m.iocItemId ∈ rows.map (·.id) ∧ m.iocObservableType = seedRow.observableType)).insertionSort
      fun a b => b.lastSeenInFeed ≤ a.lastSeenInFeed

/-- What the details show of the confidence. -/
structure ConfidenceSummary where
  effective : Option ConfidenceLevel
  confidenceSourceScope : SourceScope
  analystOverride : Option ConfidenceLevel
  hasActiveSource : Bool

/-- The text of a level. -/
def ConfidenceLevel.text : ConfidenceLevel → String
  | .low => "low"
  | .medium => "medium"
  | .high => "high"

/-- `buildIocInheritedConfidenceSummary`, for a seed row. -/
def buildIocInheritedConfidenceSummary (primaryRow : ConfidenceColumns)
    (membershipRows : List ConfidenceMembership) (iocRows : List ConfidenceColumns) :
    ConfidenceSummary :=
  let analystOverride := normalizeConfidence primaryRow.analystConfidenceOverride
  let activeMembershipRows := filterConfidenceMemberships membershipRows false
  let activeIocRows := iocRows.filter fun row => decide (row.status = .active)
  let (inherited, scope) := resolveIocConfidenceFromMemberships (analystOverride.map (·.text))
    membershipRows iocRows true
  let hasAnySourceEvidence := !activeMembershipRows.isEmpty ||
    !(filterConfidenceMemberships membershipRows true).isEmpty ||
    activeIocRows.any (·.iocSourceId.isSome) || iocRows.any (·.iocSourceId.isSome) ||
    primaryRow.iocSourceId.isSome
  { effective := if analystOverride = none ∧ inherited.effective = none then
        if hasAnySourceEvidence then computeItemStoredConfidence primaryRow else none
      else inherited.effective
    confidenceSourceScope := if analystOverride.isSome then .active else scope
    analystOverride := analystOverride
    hasActiveSource := !activeMembershipRows.isEmpty || activeIocRows.any (·.iocSourceId.isSome) ||
      (decide (primaryRow.status = .active) && primaryRow.iocSourceId.isSome) }

/-- `buildIocConfidenceSummaryForDetails`; no row, no confidence. -/
def ConfidenceTables.buildIocConfidenceSummaryForDetails (t : ConfidenceTables)
    (rows : List ConfidenceItem) (seedPublicId : ℕ) : ConfidenceSummary :=
  match pickPrimaryIocRow rows seedPublicId with
  | none => ⟨none, .active, none, false⟩
  | some seedRow =>
    buildIocInheritedConfidenceSummary seedRow.toConfidenceColumns (t.detailMemberships rows seedRow)
      (rows.map (·.toConfidenceColumns))

/-- An item of a list page; a page selects neither the entry confidence nor, mostly, the columns
that are optional here. -/
structure ListItem where
  id : ℕ
  observableType : String
  status : IocStatus
  (confidence analystConfidenceOverride : Option String)
  iocSourceId : Option ℕ
  sourceName : Option String

/-- The memberships of the ids of a group. -/
def ConfidenceTables.groupMemberships (t : ConfidenceTables) (group : List ℕ) :
    List ConfidenceMembership :=
  group.flatMap fun id => t.memberships.filter fun m => decide (m.iocItemId = id)

/-- `active_source_count` of `enrichItemsWithActiveSourceCounts`: the names of active feeds and
of manual sources. -/
def ConfidenceTables.activeSourceCount (t : ConfidenceTables) (group : List ℕ) : ℕ :=
  let feedNames := ((t.groupMemberships group).filter isActiveFeedMembership).map (·.feedName)
  let sourceNames := (t.items.filter fun i =>
    decide (i.id ∈ group) && i.iocSourceId.isSome).filterMap (·.sourceName)
  ((feedNames ++ sourceNames).filter (· ≠ "")).dedup.length

/-- `group`: the linked ids of an item. -/
def linkedGroup (linkedBySeed : ℕ → Option (List ℕ)) (id : ℕ) : List ℕ :=
  ((linkedBySeed id).getD [id]).filter (0 < ·)

/-- The columns that the query of the list selects of a membership: not `purged_at`. -/
def ConfidenceMembership.listed (m : ConfidenceMembership) : ConfidenceMembership :=
  { m with purgedAt := none }

/-- `storedItem`. -/
def ConfidenceTables.storedItem (t : ConfidenceTables) (id : ℕ) (group : List ℕ) :
    Option ConfidenceItem :=
  t.item? id <|> group.findSome? t.item?

/-- `itEnriched`. -/
def ConfidenceTables.enriched (t : ConfidenceTables) (it : ListItem) (group : List ℕ) :
    ConfidenceColumns :=
  let stored := t.storedItem it.id group
  { status := it.status
    sourceName := it.sourceName <|> stored.bind (·.sourceName)
    sourceConfidence := none
    confidence := it.confidence <|> stored.bind (·.confidence)
    analystConfidenceOverride :=
      it.analystConfidenceOverride <|> stored.bind (·.analystConfidenceOverride)
    iocSourceId := it.iocSourceId <|> stored.bind (·.iocSourceId) }

/-- What a list item shows of the confidence. -/
structure DisplayConfidence where
  effective : Option ConfidenceLevel
  sourceScope : Option SourceScope
  deriving DecidableEq

/-- The confidence of one item of `buildDisplayConfidenceForItems`. -/
def ConfidenceTables.displayConfidence (t : ConfidenceTables)
    (linkedBySeed : ℕ → Option (List ℕ)) (includeInactiveMemberships : Bool) (it : ListItem) :
    DisplayConfidence :=
  let group := linkedGroup linkedBySeed it.id
  let memberships := (t.groupMemberships group).map (·.listed)
  let itEnriched := t.enriched it group
  let activeSourceCount := t.activeSourceCount group
  let (inherited, scope) := resolveIocConfidenceFromMemberships
    itEnriched.analystConfidenceOverride memberships [itEnriched] includeInactiveMemberships
  let hasAnySource := decide (0 < activeSourceCount) ||
    !(filterConfidenceMemberships memberships true).isEmpty ||
    memberships.any isActiveFeedMembership
  let effective := inherited.effective <|>
    (if hasAnySource then computeItemStoredConfidence itEnriched else none) <|>
    if 0 < activeSourceCount then normalizeConfidence itEnriched.confidence else none
  ⟨effective, effective.map fun _ => scope⟩

/-- `buildDisplayConfidenceForItems`: the entries of the map, by id and displayed type. -/
def ConfidenceTables.buildDisplayConfidenceForItems (t : ConfidenceTables)
    (linkedBySeed : ℕ → Option (List ℕ)) (includeInactiveMemberships : Bool)
    (items : List ListItem) : List ((ℕ × String) × DisplayConfidence) :=
  (items.filter fun it => trim it.observableType ≠ "").map fun it =>
    ((it.id, it.observableType), t.displayConfidence linkedBySeed includeInactiveMemberships it)

end TalonHound.IocList
