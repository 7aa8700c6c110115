import TalonHound.Library.Run
import TalonHound.IocExpiration.Import

/-!
# The operations on a membership

Besides the importer, a membership is written by the end of a snapshot run, by the override
requests of an analyst, by the purge of a feed, by the expiration worker and by correlation
matches. Each is a function of the row.
-/

namespace TalonHound.IocExpiration

/-- The policy that the importer uses for a membership. -/
def PolicyTables.policyFor (tables : PolicyTables) (m : Membership) : Option FeedPolicy :=
  tables.getFeedPolicy m.feedId m.iocObservableType

/-- The feed-level policy, as `getFeedPolicy(client, feedId)` looks it up. -/
def PolicyTables.feedLevel (tables : PolicyTables) (m : Membership) : Option FeedPolicy :=
  tables.getFeedPolicy m.feedId "all"

/-- The loop body of `finalizeSnapshotFeedRun` for a membership whose key was not seen: an
active row of a feed whose own policy counts from the absence. -/
def finalizeMissing (tables : PolicyTables) (now : ℤ) (m : Membership) : Membership :=
  let policy := tables.feedLevel m
  if (policy.any fun p => p.enabled && decide (p.expirationMode = .missingFromFeedTtl)) &&
      decide (m.status = .active) then
    let missing := { m with missingSince := m.missingSince <|> some now }
    (applyMembershipComputedFields policy now missing missing).1
  else m

/-- The body of an override request: the status and the expiry that it asks for. -/
structure OverrideRequest where
  overrideStatus : Option OverrideStatus
  overrideExpiresAt : Option ℤ

/-- The date that the request writes. -/
def OverrideRequest.expiresAt (r : OverrideRequest) (now : ℤ) : Option ℤ :=
  if r.overrideStatus = some .expired then r.overrideExpiresAt <|> some now
  else r.overrideExpiresAt

/-- The update of a request that sets an override. -/
def setOverride (r : OverrideRequest) (now : ℤ) (m : Membership) : Membership :=
  { m with
    overrideEnabled := true
    overrideStatus := r.overrideStatus
    overrideExpiresAt := r.expiresAt now
    expiresAt := r.expiresAt now
    status := (r.overrideStatus.map OverrideStatus.toStatus).getD m.status
    expiredAt := if r.overrideStatus = some .expired then m.expiredAt <|> some now else none }

/-- The two updates of a request that clears the override. -/
def clearOverride (tables : PolicyTables) (now : ℤ) (m : Membership) : Membership :=
  let cleared := { m with
    overrideEnabled := false
    overrideExpiresAt := none
    overrideStatus := none }
  let policyExpiresAt := computePolicyExpiresAt (tables.feedLevel m) (some m.firstSeenInFeed)
    (some m.lastSeenInFeed) m.missingSince
  { cleared with
    policyExpiresAt := policyExpiresAt
    expiresAt := policyExpiresAt
    status := resolveMembershipStatus
      { m with overrideEnabled := false, policyExpiresAt := policyExpiresAt } now }

/-- Who purges a feed, and why. -/
structure PurgeRequest where
  reason : Option String
  actorUserId : Option ℕ
  actorUsername : Option String

/-- The update of a purge, on the rows it selects. -/
def purge (r : PurgeRequest) (now : ℤ) (m : Membership) : Membership :=
  if m.status = .active ∧ m.purgedAt = none then
    { m with
      status := .purged
      purgedAt := some now
      purgedBy := r.actorUserId
      purgedByUsername := r.actorUsername
      purgeReason := r.reason
      missingSince := none
      expiresAt := none
      expiredAt := none
      expirationReason := r.reason }
  else m

/-- The rows that `runExpirationWorkerBatch` selects. -/
def Membership.isDue (m : Membership) (now : ℤ) : Bool :=
  decide (m.status = .active) && m.expiresAt.any fun date => decide (date ≤ now)

/-- The update of the worker, on the rows it selects. -/
def expireDue (now : ℤ) (m : Membership) : Membership :=
  if m.isDue now then
    { m with
      status := .expired
      expiredAt := m.expiredAt <|> some now
      expirationReason := m.expirationReason <|> some "policy_ttl" }
  else m

/-- `reactivateMembershipOnMatch`, on the rows that `reactivateIocOnCorrelationMatch` selects. -/
def reactivateMembershipOnMatch (tables : PolicyTables) (matchAt : ℤ) (m : Membership) :
    Membership :=
  if m.status ≠ .expired then m
  else if m.overrideEnabled then
    if m.overrideStatus = some .expired then m
    else
      let seen := { m with lastSeenInFeed := max m.lastSeenInFeed matchAt, missingSince := none }
      (applyMembershipComputedFields (tables.policyFor m) matchAt seen seen).1
  else
    let date := computeMatchReactivationExpiresAt (tables.policyFor m) matchAt
    { m with
      status := .active
      expiredAt := none
      expirationReason := none
      lastSeenInFeed := max m.lastSeenInFeed matchAt
      missingSince := none
      policyExpiresAt := date
      expiresAt := date }

/-- An operation on a membership. The policies are those of the moment. -/
inductive MembershipAction where
  | importCall (tables : PolicyTables) (call : ImportCall)
  | finalize (tables : PolicyTables) (now : ℤ)
  | setOverride (request : OverrideRequest) (now : ℤ)
  | clearOverride (tables : PolicyTables) (now : ℤ)
  | purge (request : PurgeRequest) (now : ℤ)
  | expire (now : ℤ)
  | reactivate (tables : PolicyTables) (matchAt : ℤ)

/-- What an operation other than an import makes of a row. -/
def MembershipAction.apply : MembershipAction → Membership → Membership
  | .importCall tables call, m => (importKnown (tables.policyFor m) call m).membership
  | .finalize tables now, m => finalizeMissing tables now m
  | .setOverride request now, m => IocExpiration.setOverride request now m
  | .clearOverride tables now, m => IocExpiration.clearOverride tables now m
  | .purge request now, m => IocExpiration.purge request now m
  | .expire now, m => expireDue now m
  | .reactivate tables matchAt, m => reactivateMembershipOnMatch tables matchAt m

/-- One operation on the membership `key`, which an import creates with the id `id`. -/
def membershipStep (id : ℕ) (key : MembershipKey) (s : Option Membership)
    (a : MembershipAction) : Option (Option Membership) :=
  match s, a with
  | some m, a => some (some (a.apply m))
  | none, .importCall tables call =>
    let policy := tables.getFeedPolicy key.feedId key.item.observableType
    some (some (importNew policy call id key).membership)
  | none, _ => some none

end TalonHound.IocExpiration
