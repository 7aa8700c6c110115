import TalonHound.FileArtifacts.Hash

/-!
# Expiration policies

The feed-level policy of a feed, its overrides for single IOC types, and the expiry that a
policy gives to a membership. Times are milliseconds.
-/

namespace TalonHound.IocExpiration

open TalonHound.FileArtifacts (lowerCase)

/-- `EXPIRATION_MODES`, and the legacy mode that older rows may carry. -/
inductive ExpirationMode where
  | never | fixedTtl | missingFromFeedTtl | lastSeenTtl
  deriving DecidableEq

/-- The text of a mode. -/
def ExpirationMode.text : ExpirationMode → String
  | .never => "never"
  | .fixedTtl => "fixed_ttl"
  | .missingFromFeedTtl => "missing_from_feed_ttl"
  | .lastSeenTtl => "last_seen_ttl"

/-- `canonicalExpirationMode`. -/
def canonicalExpirationMode : ExpirationMode → ExpirationMode
  | .lastSeenTtl => .fixedTtl
  | mode => mode

/-- The columns of `threat_feed_expiration_policies` that a policy is made of. -/
structure FeedPolicy where
  enabled : Bool
  expirationMode : ExpirationMode
  (ttlDays graceDays : Option ℤ)
  deriving DecidableEq

/-- `withCanonicalExpirationMode`. -/
def withCanonicalExpirationMode (policy : Option FeedPolicy) : Option FeedPolicy :=
  policy.map fun p => { p with expirationMode := canonicalExpirationMode p.expirationMode }

/-- `TYPE_POLICY_MODES`. -/
inductive TypePolicyMode where
  | inherit | noExpire | fixedTtl
  deriving DecidableEq

/-- The override of `integration_feed_expiration_type_policies` for an IOC type. -/
structure TypeOverride where
  mode : TypePolicyMode
  ttlDays : Option ℤ
  deriving DecidableEq

/-- `HASH_OBSERVABLE_TYPES`. -/
def hashObservableTypes : List String :=
  ["hash", "md5", "sha1", "sha256", "ssdeep", "imphash", "tlsh"]

/-- `normalizeIocTypeForPolicy`. -/
def normalizeIocTypeForPolicy (observableType : String) : Option String :=
  let t := lowerCase (trim observableType)
  if t = "" then none
  else if t = "domain" ∨ t = "url" then some t
  else if t = "ip" ∨ t = "ip6" ∨ t = "ipv4" ∨ t = "ipv6" then some "ip"
  else if t = "file_hash" then some "file_hash"
  else if t ∈ hashObservableTypes then some "file_hash"
  else none

/-- What `resolveExpirationPolicy` returns. -/
structure ResolvedPolicy where
  enabled : Bool
  ttlDays : Option ℤ
  /-- `source` is `type_override`, not `feed_default`. -/
  fromTypeOverride : Bool

/-- `resolveExpirationPolicy`. -/
def resolveExpirationPolicy (enabled : Bool) (ttlDays : Option ℤ)
    (typeOverride : Option TypeOverride) : ResolvedPolicy :=
  match typeOverride with
  | some ⟨.noExpire, _⟩ => ⟨false, none, true⟩
  | some ⟨.fixedTtl, some ttl⟩ =>
    if 0 < ttl then ⟨true, some ttl, true⟩ else ⟨enabled, ttlDays, false⟩
  | _ => ⟨enabled, ttlDays, false⟩

/-- `applyTypeOverrideToFeedPolicy`. -/
def applyTypeOverrideToFeedPolicy (basePolicy : Option FeedPolicy)
    (typeOverrideRow : Option TypeOverride) : Option FeedPolicy :=
  match typeOverrideRow with
  | none => basePolicy
  | some ⟨.inherit, _⟩ => basePolicy
  | some row =>
    let resolved := resolveExpirationPolicy (basePolicy.any (·.enabled))
      (basePolicy.bind (·.ttlDays)) (some row)
    let graceDays := basePolicy.bind (·.graceDays)
    if !resolved.fromTypeOverride then basePolicy
    else if !resolved.enabled then some ⟨false, .never, none, graceDays⟩
    else some ⟨true, .fixedTtl, resolved.ttlDays, graceDays⟩

/-- A row of `threat_feed_expiration_policies`. -/
structure FeedPolicyRow where
  feedId : ℕ
  observableType : String
  policy : FeedPolicy
  deriving DecidableEq

/-- A row of `integration_feed_expiration_type_policies`. -/
structure TypePolicyRow where
  feedId : ℕ
  iocType : String
  override : TypeOverride
  deriving DecidableEq

/-- The two policy tables. Feed and type are unique in each. -/
structure PolicyTables where
  policies : List FeedPolicyRow
  typePolicies : List TypePolicyRow
  deriving DecidableEq

namespace PolicyTables

variable (t : PolicyTables) (feedId : ℕ) (observableType : String)

/-- The row of a feed for exactly one observable type. -/
def policyRow? : Option FeedPolicyRow :=
  t.policies.find? fun r => decide (r.feedId = feedId ∧ r.observableType = observableType)

/-- The feed-level default, unless the feed has a row for the type. -/
def basePolicy : Option FeedPolicy :=
  ((t.policyRow? feedId observableType).or (t.policyRow? feedId "all")).map (·.policy)

/-- `loadTypeOverrideRow`. -/
def loadTypeOverrideRow : Option TypeOverride :=
  (normalizeIocTypeForPolicy observableType).bind fun policyType =>
    (t.typePolicies.find? fun r => decide (r.feedId = feedId ∧ r.iocType = policyType)).map
      (·.override)

/-- `getFeedPolicy`. -/
def getFeedPolicy : Option FeedPolicy :=
  if observableType = "" ∨ observableType = "all" then
    withCanonicalExpirationMode (t.basePolicy feedId observableType)
  else
    withCanonicalExpirationMode (applyTypeOverrideToFeedPolicy (t.basePolicy feedId observableType)
      (t.loadTypeOverrideRow feedId observableType))

end PolicyTables

/-- The milliseconds of a day. -/
def msPerDay : ℤ := 86400000

/-- `addDays`. -/
def addDays (base days : ℤ) : Option ℤ := if 0 < days then some (base + days * msPerDay) else none

/-- `computePolicyExpiresAt`. -/
def computePolicyExpiresAt (policy : Option FeedPolicy)
    (firstSeenInFeed lastSeenInFeed missingSince : Option ℤ) : Option ℤ :=
  match policy with
  | none => none
  | some p =>
    if !p.enabled then none
    else
      match canonicalExpirationMode p.expirationMode with
      | .fixedTtl =>
        (lastSeenInFeed <|> firstSeenInFeed).bind fun ttlBase => p.ttlDays.bind (addDays ttlBase)
      | .missingFromFeedTtl =>
        missingSince.bind fun since => (p.graceDays <|> p.ttlDays).bind (addDays since)
      | _ => none

/-- `computeMatchReactivationExpiresAt`. -/
def computeMatchReactivationExpiresAt (policy : Option FeedPolicy) (now : ℤ) : Option ℤ :=
  match policy with
  | none => none
  | some p =>
    if !p.enabled then none
    else
      match canonicalExpirationMode p.expirationMode with
      | .missingFromFeedTtl => (p.graceDays <|> p.ttlDays).bind (addDays now)
      | .fixedTtl => p.ttlDays.bind (addDays now)
      | _ => none

/-- A date that `addDays` gives lies after its base. -/
theorem lt_of_addDays {base days date : ℤ} (h : addDays base days = some date) : base < date := by
  unfold addDays msPerDay at h
  split at h
  · simp only [Option.some.injEq] at h
    omega
  · cases h

/-- A disabled policy gives no expiry. -/
theorem computePolicyExpiresAt_of_disabled {policy : Option FeedPolicy}
    (h : policy.all fun p => !p.enabled) (firstSeenInFeed lastSeenInFeed missingSince : Option ℤ) :
    computePolicyExpiresAt policy firstSeenInFeed lastSeenInFeed missingSince = none := by
  cases policy with
  | none => rfl
  | some p =>
    rw [Option.all_some] at h
    simp [computePolicyExpiresAt, h]

end TalonHound.IocExpiration
