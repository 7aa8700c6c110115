import TalonHound.IocExpiration.Policy

/-!
# Feed memberships

The membership of an IOC in a feed, and the fields that the importer computes for it from
the policy of the feed.
-/

namespace TalonHound.IocExpiration

/-- `ioc_feed_memberships_status_check`. -/
inductive MembershipStatus where
  | active | expired | purged
  deriving DecidableEq

/-- `ioc_feed_memberships_override_status_check`. -/
inductive OverrideStatus where
  | active | expired
  deriving DecidableEq

/-- An override status as a membership status. -/
def OverrideStatus.toStatus : OverrideStatus → MembershipStatus
  | .active => .active
  | .expired => .expired

/-- A row of `ioc_feed_memberships`. -/
structure Membership where
  (id iocItemId : ℕ)
  iocObservableType : String
  feedId : ℕ
  (firstSeenInFeed lastSeenInFeed : ℤ)
  lastChangedInSource : Option ℤ
  contentFingerprint : Option String
  (missingSince policyExpiresAt expiresAt expiredAt : Option ℤ)
  status : MembershipStatus
  expirationReason : Option String
  overrideEnabled : Bool
  overrideStatus : Option OverrideStatus
  overrideExpiresAt : Option ℤ
  explicitConfidence : Option String
  purgedAt : Option ℤ
  purgedBy : Option ℕ
  (purgedByUsername purgeReason : Option String)
  deriving DecidableEq

/-- `resolveEffectiveExpiresAt`. -/
def resolveEffectiveExpiresAt (m : Membership) : Option ℤ :=
  if m.overrideEnabled then
    match m.overrideExpiresAt, m.overrideStatus with
    | some date, _ => some date
    | none, some .expired => some 0
    | none, some .active => none
    | none, none => m.policyExpiresAt
  else m.policyExpiresAt

/-- `resolveMembershipStatus`. -/
def resolveMembershipStatus (m : Membership) (now : ℤ) : MembershipStatus :=
  match m.overrideEnabled, m.overrideStatus with
  | true, some status => status.toStatus
  | _, _ =>
    if (resolveEffectiveExpiresAt m).any fun date => decide (date ≤ now) then .expired else .active

/-- What `computeMembershipFieldPatch` returns. -/
structure MembershipPatch where
  (policyExpiresAt expiresAt : Option ℤ)
  status : MembershipStatus
  expiredAt : Option ℤ
  expirationReason : Option String
  missingSince : Option ℤ

/-- The `expiresAt` of `computeMembershipFieldPatch`. -/
def patchExpiresAt (m : Membership) (policyExpiresAt : Option ℤ) : Option ℤ :=
  if m.overrideEnabled then
    match m.overrideExpiresAt, m.overrideStatus with
    | some date, _ => some date
    | none, some .active => none
    | none, some .expired => some 0
    | none, none => policyExpiresAt
  else policyExpiresAt

/-- `computeMembershipFieldPatch`. -/
def computeMembershipFieldPatch (m : Membership) (policy : Option FeedPolicy) (now : ℤ) :
    MembershipPatch :=
  let policyExpiresAt := computePolicyExpiresAt policy (some m.firstSeenInFeed)
    (some m.lastSeenInFeed) m.missingSince
  let expiresAt := patchExpiresAt m policyExpiresAt
  let status := resolveMembershipStatus
    { m with policyExpiresAt := policyExpiresAt, expiresAt := expiresAt } now
  { policyExpiresAt := policyExpiresAt
    expiresAt := expiresAt
    status := status
    expiredAt := if status = .expired then m.expiredAt <|> some now else none
    expirationReason :=
      if status = .expired then
        if m.overrideEnabled && decide (m.overrideStatus = some .expired) then
          some "manual_override"
        else some ((policy.map fun p => p.expirationMode.text).getD "policy")
      else none
    missingSince := m.missingSince }

/-- The text of a date, for comparisons: `String(date)` prints it to the second. -/
def dateText (date : Option ℤ) : Option ℤ := date.map (· / 1000)

/-- `membershipComputedFieldsUnchanged`. -/
def membershipComputedFieldsUnchanged (m : Membership) (patch : MembershipPatch) : Bool :=
  decide (dateText m.policyExpiresAt = dateText patch.policyExpiresAt ∧
    dateText m.expiresAt = dateText patch.expiresAt ∧
    m.status = patch.status ∧
    dateText m.expiredAt = dateText patch.expiredAt ∧
    m.expirationReason.getD "" = patch.expirationReason.getD "" ∧
    dateText m.missingSince = dateText patch.missingSince)

/-- The `SET` of `applyMembershipComputedFields`. -/
def Membership.withPatch (m : Membership) (patch : MembershipPatch) : Membership :=
  { m with
    policyExpiresAt := patch.policyExpiresAt
    expiresAt := patch.expiresAt
    status := patch.status
    expiredAt := patch.expiredAt
    expirationReason := patch.expirationReason
    missingSince := patch.missingSince }

/-- `applyMembershipComputedFields` for the row `stored`, computed from the row in hand. The
second component is `updated`. -/
def applyMembershipComputedFields (policy : Option FeedPolicy) (now : ℤ)
    (row stored : Membership) : Membership × Bool :=
  let patch := computeMembershipFieldPatch row policy now
  if membershipComputedFieldsUnchanged row patch then (stored, false)
  else (stored.withPatch patch, decide (stored.withPatch patch ≠ stored))

section Patch

variable {m : Membership} {policy : Option FeedPolicy} {now : ℤ}

/-- The two ways to compute the effective expiry agree. -/
theorem patchExpiresAt_eq (m : Membership) (date : Option ℤ) :
    patchExpiresAt m date = resolveEffectiveExpiresAt { m with policyExpiresAt := date } := by
  unfold patchExpiresAt resolveEffectiveExpiresAt
  cases m.overrideEnabled with
  | false => rfl
  | true =>
    cases m.overrideExpiresAt with
    | some date => rfl
    | none =>
      cases m.overrideStatus with
      | none => rfl
      | some status => cases status <;> rfl

/-- An override that keeps a membership active past its own expiry. -/
def Membership.OverrideHoldsPast (m : Membership) (now : ℤ) : Prop :=
  m.overrideEnabled = true ∧ m.overrideStatus = some .active ∧
    ∃ date, m.overrideExpiresAt = some date ∧ date ≤ now
  deriving Decidable

/-- Active with an effective expiry that is past: only an override does that. -/
theorem resolved_active_due_iff (m : Membership) (now : ℤ) :
    (resolveMembershipStatus m now = .active ∧
        ∃ date, resolveEffectiveExpiresAt m = some date ∧ date ≤ now) ↔ m.OverrideHoldsPast now := by
  constructor
  · rintro ⟨hactive, date, hdate, hle⟩
    cases henabled : m.overrideEnabled with
    | false => simp [resolveMembershipStatus, henabled, hdate, hle] at hactive
    | true =>
      cases hstatus : m.overrideStatus with
      | none => simp [resolveMembershipStatus, henabled, hstatus, hdate, hle] at hactive
      | some status =>
        cases status with
        | expired =>
          simp [resolveMembershipStatus, henabled, hstatus, OverrideStatus.toStatus] at hactive
        | active =>
          refine ⟨henabled, hstatus, date, ?_, hle⟩
          unfold resolveEffectiveExpiresAt at hdate
          rw [henabled, hstatus] at hdate
          cases hoverride : m.overrideExpiresAt with
          | none => simp [hoverride] at hdate
          | some d => simpa [hoverride] using hdate
  · rintro ⟨henabled, hstatus, date, hdate, hle⟩
    refine ⟨?_, date, ?_, hle⟩
    · simp [resolveMembershipStatus, henabled, hstatus, OverrideStatus.toStatus]
    · simp [resolveEffectiveExpiresAt, henabled, hdate]

/-- The patch makes a membership active and due exactly when an override holds it past its own
expiry. -/
theorem patch_active_due_iff :
    ((computeMembershipFieldPatch m policy now).status = .active ∧
        ∃ date, (computeMembershipFieldPatch m policy now).expiresAt = some date ∧ date ≤ now) ↔
      m.OverrideHoldsPast now := by
  unfold computeMembershipFieldPatch
  simp only [patchExpiresAt_eq]
  exact resolved_active_due_iff _ now

end Patch

end TalonHound.IocExpiration
