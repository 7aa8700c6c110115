import TalonHound.FileArtifacts.SuppressionIndex
import TalonHound.IocExpiration.ImportRun

/-!
# The stage of a USOM import

`usomImportStore.js`: entries are staged under value and type; suppressed ones are removed, and
every other one is joined with the oldest row of `ioc_items` for it.
-/

namespace TalonHound.Usom

open TalonHound.FileArtifacts (lowerCase ScopedSuppression)
open TalonHound.IocExpiration

export IocExpiration (Membership IocItem)

/-- `STORED_IOC_TYPES`. -/
def storedIocTypes : List String := ["domain", "url", "ip", "ipv6"]

/-- `USOM_SOURCE_NAME`. -/
def usomSourceName : String := "USOM:TR-CERT"

/-- `USOM_ADDRESS_ENDPOINT`. -/
def usomAddressEndpoint : String := "https://siberguvenlik.gov.tr/api/address/index"

/-- A row of `usom_import_stage`, with the JSON of the metadata as text. -/
structure StageEntry where
  (observableType observable : String)
  (category note : Option String)
  (providerMetadata providerFingerprint : String)
  deriving DecidableEq

/-- The primary key of the stage. -/
def StageEntry.observed (e : StageEntry) : Observed := ⟨e.observable, e.observableType⟩

/-- `usom_import_stage`; the normalizer gives no other types. -/
structure Stage where
  entries : List StageEntry
  unique : (entries.map StageEntry.observed).Nodup
  stored : ∀ e ∈ entries, e.observableType ∈ storedIocTypes

/-- A stage of one domain. -/
def oneDomain (name : String) : Stage where
  entries := [⟨"domain", name, none, none, "", "fingerprint"⟩]
  unique := List.nodup_singleton _
  stored := by
    intro e he
    obtain rfl := List.mem_singleton.mp he
    exact List.mem_cons_self

/-- The suppression deletes a staged entry. -/
def suppresses (now : ℤ) (sup : ScopedSuppression) (e : StageEntry) : Bool :=
  sup.isLive now && lowerCase sup.iocValue = lowerCase e.observable &&
    lowerCase sup.iocType = lowerCase e.observableType &&
      (lowerCase sup.scope = "global" ||
        (lowerCase sup.scope = "source" &&
          lowerCase (sup.sourceName.getD "") = lowerCase usomSourceName))

/-- `removeSuppressedStageEntries`; what it removes is counted by the difference in length. -/
def removeSuppressedStageEntries (now : ℤ) (suppressions : List ScopedSuppression)
    (stage : Stage) : Stage where
  entries := stage.entries.filter fun e => !(suppressions.any fun sup => suppresses now sup e)
  unique := stage.unique.sublist (List.filter_sublist.map _)
  stored := fun e he => stage.stored e (List.mem_of_mem_filter he)

section Canonical

-- `created_at` of a row, which never changes.
variable (createdAt : ItemKey → Option ℤ)

/-- `ORDER BY created_at ASC NULLS LAST, id ASC`. -/
def isOlder (a b : ItemKey) : Bool :=
  match createdAt a, createdAt b with
  | some x, some y => x < y || (x = y && a.id ≤ b.id)
  | some _, none => true
  | none, some _ => false
  | none, none => a.id ≤ b.id

/-- The first row in that order. -/
def oldest : List ItemKey → Option ItemKey
  | [] => none
  | k :: keys =>
    match oldest keys with
    | none => some k
    | some k' => if isOlder createdAt k k' then some k else some k'

/-- The rows of an observable. -/
def itemKeys (t : IocTables) (o : Observed) : List ItemKey :=
  (t.items.filter fun i => i.observed = o).map IocItem.key

/-- A row of `usom_stage_canonical`. -/
structure CanonicalRow where
  entry : StageEntry
  item : Option ItemKey
  deriving DecidableEq

/-- `buildStageCanonical`. -/
def buildStageCanonical (t : IocTables) (stage : Stage) : List CanonicalRow :=
  stage.entries.map fun e => ⟨e, oldest createdAt (itemKeys t e.observed)⟩

end Canonical

variable {createdAt : ItemKey → Option ℤ} {t t' : IocTables} {stage : Stage} {o : Observed}
  {keys : List ItemKey} {key : ItemKey} {c c' : CanonicalRow}

/-- The oldest key is one of the keys. -/
theorem oldest_mem (h : oldest createdAt keys = some key) : key ∈ keys := by
  induction keys generalizing key with
  | nil => cases h
  | cons k keys ih =>
    unfold oldest at h
    split at h
    · cases h
      exact List.mem_cons_self
    · next k' hk' =>
      split at h
      · cases h
        exact List.mem_cons_self
      · cases h
        exact List.mem_cons_of_mem _ (ih hk')

/-- Only without keys is there no oldest one. -/
theorem oldest_eq_none : oldest createdAt keys = none ↔ keys = [] := by
  constructor
  · intro h
    cases keys with
    | nil => rfl
    | cons k keys =>
      unfold oldest at h
      split at h
      · cases h
      · split at h <;> cases h
  · rintro rfl
    rfl

/-- The keys of the items of an observable. -/
theorem mem_itemKeys : key ∈ itemKeys t o ↔ ∃ i ∈ t.items, i.observed = o ∧ i.key = key := by
  simp [itemKeys, and_assoc]

/-- A canonical row is one of the rows of its observable. -/
theorem mem_buildStageCanonical (h : c ∈ buildStageCanonical createdAt t stage) :
    c.entry ∈ stage.entries ∧ c.item = oldest createdAt (itemKeys t c.entry.observed) := by
  obtain ⟨e, he, rfl⟩ := List.mem_map.mp h
  exact ⟨he, rfl⟩

/-- The canonical row of a staged entry depends on keys, values and types only. -/
theorem buildStageCanonical_congr (h : ∀ o, itemKeys t' o = itemKeys t o) :
    buildStageCanonical createdAt t' stage = buildStageCanonical createdAt t stage := by
  unfold buildStageCanonical
  simp only [h]

/-- No two staged entries have one canonical row. -/
theorem canonical_inj (hc : c ∈ buildStageCanonical createdAt t stage)
    (hc' : c' ∈ buildStageCanonical createdAt t stage) (hitem : c.item = some key)
    (hitem' : c'.item = some key) : c = c' := by
  obtain ⟨he, holdest⟩ := mem_buildStageCanonical hc
  obtain ⟨he', holdest'⟩ := mem_buildStageCanonical hc'
  obtain ⟨i, hi, hobserved, hkey⟩ := mem_itemKeys.mp (oldest_mem (holdest.symm.trans hitem))
  obtain ⟨i', hi', hobserved', hkey'⟩ := mem_itemKeys.mp (oldest_mem (holdest'.symm.trans hitem'))
  have hsame : i = i' := List.inj_on_of_nodup_map t.unique_item hi hi' (hkey.trans hkey'.symm)
  subst hsame
  have hentry : c.entry = c'.entry :=
    List.inj_on_of_nodup_map stage.unique he he' (hobserved.symm.trans hobserved')
  cases c
  cases c'
  simp only at hentry hitem hitem'
  rw [hentry, hitem, hitem']

/-!
## The statements of a USOM import

Each statement of `finalizeUsomImport` on one row: what its `WHERE` asks and what its `SET` writes.
-/

open TalonHound.FileArtifacts (lowerCase)
open TalonHound.IocExpiration

/-- The outcomes of `classifyStageAgainstExisting`. -/
inductive Outcome where
  | created | reactivated | changed | unchanged
  deriving DecidableEq

/-- The membership is active, not purged and not missing. -/
def isHealthy (m : Membership) : Bool :=
  m.status = .active && m.purgedAt.isNone && m.missingSince.isNone

/-- The outcome of a staged row with its membership. -/
def classify (e : StageEntry) (membership : Option Membership) : Outcome :=
  match membership with
  | none => .created
  | some m =>
    if !isHealthy m then .reactivated
    else if m.contentFingerprint.any (· ≠ e.providerFingerprint) then .changed
    else .unchanged

/-- `WHERE` of `adoptMissingFingerprints`. -/
def adopts (m : Membership) : Bool := m.contentFingerprint.isNone

/-- `adoptMissingFingerprints`. -/
def adoptMissingFingerprint (e : StageEntry) (m : Membership) : Membership :=
  if adopts m then { m with contentFingerprint := some e.providerFingerprint } else m

/-- The row that `upsertMemberships` inserts. -/
def insertedMembership (id feedId : ℕ) (key : ItemKey) (e : StageEntry) (seenAt : ℤ) :
    Membership where
  id := id
  iocItemId := key.id
  iocObservableType := key.observableType
  feedId := feedId
  firstSeenInFeed := seenAt
  lastSeenInFeed := seenAt
  lastChangedInSource := some seenAt
  contentFingerprint := some e.providerFingerprint
  missingSince := none
  policyExpiresAt := none
  expiresAt := none
  expiredAt := none
  status := .active
  expirationReason := none
  overrideEnabled := false
  overrideStatus := none
  overrideExpiresAt := none
  explicitConfidence := none
  purgedAt := none
  purgedBy := none
  purgedByUsername := none
  purgeReason := none

/-- `WHERE` of the update in `upsertMemberships`. -/
def upserts (e : StageEntry) (m : Membership) : Bool :=
  m.contentFingerprint ≠ some e.providerFingerprint || m.status ≠ .active ||
    m.missingSince.isSome || m.purgedAt.isSome

/-- The update in `upsertMemberships`. -/
def upsertMembership (e : StageEntry) (seenAt : ℤ) (m : Membership) : Membership :=
  if upserts e m then
    { m with
      contentFingerprint := some e.providerFingerprint
      lastChangedInSource := some seenAt
      lastSeenInFeed := seenAt
      missingSince := none
      status := if m.overrideEnabled then m.status else .active
      expiredAt := if m.overrideEnabled then m.expiredAt else none
      expirationReason := if m.overrideEnabled then m.expirationReason else none
      purgedAt := if m.overrideEnabled then m.purgedAt else none
      purgedBy := if m.overrideEnabled then m.purgedBy else none
      purgedByUsername := if m.overrideEnabled then m.purgedByUsername else none
      purgeReason := if m.overrideEnabled then m.purgeReason else none }
  else m

/-- `policySql`, on a row. -/
def policySql (policy : Option FeedPolicy) (m : Membership) : Option ℤ :=
  match policy with
  | none => none
  | some p =>
    if !p.enabled || p.expirationMode = .never then none
    else if p.expirationMode = .fixedTtl && p.ttlDays.any (0 < ·) then
      p.ttlDays.map fun ttl => m.lastSeenInFeed + ttl * msPerDay
    else if p.expirationMode = .missingFromFeedTtl && (p.graceDays <|> p.ttlDays).any (0 < ·) then
      (p.graceDays <|> p.ttlDays).bind fun grace => m.missingSince.map (· + grace * msPerDay)
    else none

/-- The `expires_at` of an override, or of the policy. -/
def overrideExpiry (m : Membership) (policyExpiry : Option ℤ) : Option ℤ :=
  if m.overrideEnabled then
    match m.overrideStatus with
    | some .expired => some 0
    | some .active => none
    | none => m.overrideExpiresAt
  else policyExpiry

/-- The policy expires a row without an override. -/
def policyExpires (m : Membership) (policyExpiry : Option ℤ) (seenAt : ℤ) : Bool :=
  !m.overrideEnabled && policyExpiry.any (· ≤ seenAt)

/-- The `SET` of `applyPoliciesForSeenMemberships`. -/
def policyFields (policy : Option FeedPolicy) (seenAt : ℤ) (m : Membership) : Membership :=
  let policyExpiry := policySql policy m
  let expires := policyExpires m policyExpiry seenAt
  { m with
    policyExpiresAt := policyExpiry
    expiresAt := overrideExpiry m policyExpiry
    status := match m.overrideEnabled, m.overrideStatus with
      | true, some status => status.toStatus
      | _, _ => if expires then .expired else m.status
    expiredAt := if expires then m.expiredAt <|> some seenAt
      else if m.overrideEnabled then m.expiredAt else none
    expirationReason :=
      if expires then some ((policy.map fun p => p.expirationMode.text).getD "never")
      else if m.overrideEnabled then m.expirationReason else none }

/-- The change guard of `applyPoliciesForSeenMemberships`. -/
def policyChanges (policy : Option FeedPolicy) (seenAt : ℤ) (m : Membership) : Bool :=
  let f := policyFields policy seenAt m
  m.policyExpiresAt ≠ f.policyExpiresAt || m.expiresAt ≠ f.expiresAt || m.status ≠ f.status ||
    m.expiredAt ≠ f.expiredAt || m.expirationReason ≠ f.expirationReason

/-- `applyPoliciesForSeenMemberships`. -/
def applyPolicy (policy : Option FeedPolicy) (seenAt : ℤ) (m : Membership) : Membership :=
  if policyChanges policy seenAt m then policyFields policy seenAt m else m

/-- The grace days with which `markMissingMemberships` visits a type. -/
def absenceGrace (policy : Option FeedPolicy) : Option ℤ :=
  policy.bind fun p =>
    if p.enabled && p.expirationMode = .missingFromFeedTtl then
      (p.graceDays <|> p.ttlDays).filter (0 < ·)
    else none

/-- The `SET` of `markMissingMemberships`. -/
def markMissing (grace seenAt : ℤ) (m : Membership) : Membership :=
  let missingSince := m.missingSince.getD seenAt
  { m with
    missingSince := some missingSince
    policyExpiresAt := some (missingSince + grace * msPerDay)
    expiresAt := overrideExpiry m (some (missingSince + grace * msPerDay)) }

/-- The memberships give the fields of `refreshGlobalIocStatus`. -/
def refreshedFields (seenAt : ℤ) (memberships : List Membership) (i : IocItem) : StatusFields :=
  if memberships.any (·.isLive) then ⟨.active, minExpires memberships, none, none⟩
  else ⟨.expired, i.expiresAt, i.expiredAt <|> some seenAt,
    i.expirationReason <|> some "all_memberships_expired"⟩

/-- The rows that `refreshGlobalIocStatus` may write. -/
def isRefreshable (i : IocItem) : Bool :=
  !i.manualStatusOverride && i.status ≠ .disabled && i.status ≠ .suppressed

/-- `WHERE` of `refreshGlobalIocStatus`, for an observable that the run touched. -/
def refreshes (seenAt : ℤ) (memberships : List Membership) (i : IocItem) : Bool :=
  isRefreshable i && i.fields ≠ refreshedFields seenAt memberships i

/-- `refreshGlobalIocStatus`, on a row of such an observable. -/
def refreshItem (seenAt : ℤ) (memberships : List Membership) (i : IocItem) : IocItem :=
  if refreshes seenAt memberships i then i.withFields (refreshedFields seenAt memberships i) else i

/-- A row of `ioc_feed_source_evidence`. -/
structure Evidence where
  key : MembershipKey
  (sourceName sourceUrl : String)
  (category note : Option String)
  (providerMetadata providerFingerprint : String)

/-- The row that `upsertEvidence` inserts. -/
def insertedEvidence (key : MembershipKey) (e : StageEntry) : Evidence where
  key := key
  sourceName := usomSourceName
  sourceUrl := usomAddressEndpoint
  category := e.category
  note := e.note
  providerMetadata := e.providerMetadata
  providerFingerprint := e.providerFingerprint

/-- `WHERE` of the update in `upsertEvidence`: the metadata is not compared. -/
def rewritesEvidence (e : StageEntry) (row : Evidence) : Bool :=
  row.sourceName ≠ usomSourceName || row.sourceUrl ≠ usomAddressEndpoint ||
    row.category ≠ e.category || row.note ≠ e.note || row.providerFingerprint ≠ e.providerFingerprint

/-- The update in `upsertEvidence`. -/
def rewriteEvidence (e : StageEntry) (row : Evidence) : Evidence :=
  if rewritesEvidence e row then insertedEvidence row.key e else row

/-- A row of `ioc_observables`, under the key of its IOC. -/
structure ObservableRow where
  item : ItemKey
  (observableType observableValue : String)
  deriving DecidableEq

/-- The row of a canonical row. -/
def observableRow (key : ItemKey) (e : StageEntry) : ObservableRow where
  item := key
  observableType := e.observableType
  observableValue :=
    if e.observableType = "domain" ∨ e.observableType = "url" then lowerCase e.observable
    else e.observable

end TalonHound.Usom
