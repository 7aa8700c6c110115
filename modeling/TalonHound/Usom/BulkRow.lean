import TalonHound.Usom.FinalizeEffect

/-!
# A row in the bulk import and in the row import

The policy statement of the bulk import against `computeMembershipFieldPatch`, for one membership:
they agree without an override, and with one only under a condition on its columns.
-/

namespace TalonHound.Usom

open TalonHound.IocExpiration

variable {policy : Option FeedPolicy} {seenAt : ℤ} {e : StageEntry} {m : Membership}
  {feedId : ℕ} {call : FinalizeCall}

/-- The four columns are those that the row importer computes for the row. -/
structure AgreesWithRowImporter (policy : Option FeedPolicy) (seenAt : ℤ) (m : Membership) :
    Prop where
  policyExpiresAt : m.policyExpiresAt = (computeMembershipFieldPatch m policy seenAt).policyExpiresAt
  expiresAt : m.expiresAt = (computeMembershipFieldPatch m policy seenAt).expiresAt
  status : m.status = (computeMembershipFieldPatch m policy seenAt).status
  expiredAt : m.expiredAt = (computeMembershipFieldPatch m policy seenAt).expiredAt

/-- The policy expires rows by their last sighting. -/
def givesFixedTtl (policy : Option FeedPolicy) : Bool :=
  policy.any fun p => p.enabled && p.expirationMode = .fixedTtl && p.ttlDays.any (0 < ·)

/-- The columns of an override that both importers read in the same way. -/
def OverrideAgrees (policy : Option FeedPolicy) (seenAt : ℤ) (m : Membership) : Prop :=
  match m.overrideEnabled, m.overrideStatus, m.overrideExpiresAt with
  | false, _, _ => True
  | true, some .expired, date => (date = none ∨ date = some 0) ∧ m.expiredAt ≠ none
  | true, some .active, date => date = none ∧ m.expiredAt = none
  | true, none, some date =>
    if date ≤ seenAt then m.status = .expired ∧ m.expiredAt ≠ none
    else m.status = .active ∧ m.expiredAt = none
  | true, none, none => givesFixedTtl policy = false ∧ m.status = .active ∧ m.expiredAt = none

instance (policy : Option FeedPolicy) (seenAt : ℤ) (m : Membership) :
    Decidable (OverrideAgrees policy seenAt m) := by
  unfold OverrideAgrees
  split <;> infer_instance

/-- The membership is live after the import. -/
def staysLive (policy : Option FeedPolicy) (seenAt : ℤ) (e : StageEntry) (m : Membership) : Bool :=
  if m.overrideEnabled then
    m.purgedAt.isNone && match m.overrideStatus with
      | some status => status = .active
      | none => m.status = .active
  else upserts e (adoptMissingFingerprint e m) || !(policySql policy m).any (· ≤ seenAt)

/-- The policies that are read have no legacy mode. -/
def IsCanonical (policy : Option FeedPolicy) : Prop :=
  ∀ p ∈ policy, p.expirationMode ≠ .lastSeenTtl

theorem isCanonical_withCanonicalExpirationMode (policy : Option FeedPolicy) :
    IsCanonical (withCanonicalExpirationMode policy) := by
  intro p hp
  obtain ⟨p₀, -, rfl⟩ := Option.map_eq_some_iff.mp hp
  cases hmode : p₀.expirationMode <;> simp [canonicalExpirationMode]

theorem isCanonical_policyFor (call : FinalizeCall) (feedId : ℕ) (m : Membership) :
    IsCanonical (call.policyFor feedId m) := by
  unfold FinalizeCall.policyFor PolicyTables.getFeedPolicy
  split
  · exact isCanonical_withCanonicalExpirationMode _
  · exact isCanonical_withCanonicalExpirationMode _

/-- The expression of the bulk import is `computePolicyExpiresAt`. -/
theorem policySql_eq (h : IsCanonical policy) (m : Membership) :
    policySql policy m = computePolicyExpiresAt policy (some m.firstSeenInFeed)
      (some m.lastSeenInFeed) m.missingSince := by
  cases policy with
  | none => rfl
  | some p =>
    have hmode := h p rfl
    obtain ⟨enabled, mode, ttlDays, graceDays⟩ := p
    unfold policySql computePolicyExpiresAt
    dsimp only at hmode ⊢
    cases enabled with
    | false => rfl
    | true =>
      cases mode with
      | never => rfl
      | lastSeenTtl => exact absurd rfl hmode
      | fixedTtl =>
        cases ttlDays with
        | none => rfl
        | some ttl =>
          by_cases hpos : 0 < ttl <;> simp [canonicalExpirationMode, addDays, hpos]
      | missingFromFeedTtl =>
        cases hgrace : (graceDays <|> ttlDays) with
        | none => cases m.missingSince <;> simp [canonicalExpirationMode]
        | some grace =>
          by_cases hpos : 0 < grace <;>
            cases m.missingSince <;> simp [canonicalExpirationMode, addDays, hpos]

/-- On a row that is not missing only a fixed TTL gives a date. -/
theorem policySql_eq_none_iff (hmissing : m.missingSince = none) :
    policySql policy m = none ↔ givesFixedTtl policy = false := by
  cases policy with
  | none => exact ⟨fun _ => rfl, fun _ => rfl⟩
  | some p =>
    obtain ⟨enabled, mode, ttlDays, graceDays⟩ := p
    unfold policySql givesFixedTtl
    cases enabled <;> cases mode <;> cases ttlDays <;> simp [hmissing]

/-- A row that was just seen is not due. -/
theorem policySql_of_seen (hmissing : m.missingSince = none) (hseen : m.lastSeenInFeed = seenAt) :
    (policySql policy m).any (· ≤ seenAt) = false := by
  cases policy with
  | none => rfl
  | some p =>
    obtain ⟨enabled, mode, ttlDays, graceDays⟩ := p
    unfold policySql
    cases enabled <;> cases mode <;> cases ttlDays <;> simp [hmissing, hseen]
    rename_i ttl
    by_cases hpos : 0 < ttl
    · simp only [hpos, if_true, Option.any_some, decide_eq_false_iff_not, not_le]
      unfold msPerDay
      omega
    · simp [hpos]

/-- The change guard asks for what the update writes. -/
theorem applyPolicy_eq : applyPolicy policy seenAt m = policyFields policy seenAt m := by
  unfold applyPolicy
  split
  · rfl
  · next hsame =>
    unfold policyChanges at hsame
    simp only [Bool.or_eq_true, decide_eq_true_eq, not_or, not_not] at hsame
    obtain ⟨⟨⟨⟨hpolicy, hexpires⟩, hstatus⟩, hexpired⟩, hreason⟩ := hsame
    have hfields : policyFields policy seenAt m = { m with
        policyExpiresAt := (policyFields policy seenAt m).policyExpiresAt
        expiresAt := (policyFields policy seenAt m).expiresAt
        status := (policyFields policy seenAt m).status
        expiredAt := (policyFields policy seenAt m).expiredAt
        expirationReason := (policyFields policy seenAt m).expirationReason } := rfl
    rw [hfields, ← hpolicy, ← hexpires, ← hstatus, ← hexpired, ← hreason]

/-- What adoption and upsert leave for the policies. -/
structure UpsertedFacts (policy : Option FeedPolicy) (seenAt : ℤ) (e : StageEntry)
    (m u : Membership) : Prop where
  overrideEnabled : u.overrideEnabled = m.overrideEnabled
  overrideStatus : u.overrideStatus = m.overrideStatus
  overrideExpiresAt : u.overrideExpiresAt = m.overrideExpiresAt
  missingSince : u.missingSince = none
  contentFingerprint : u.contentFingerprint = some e.providerFingerprint
  keeps : m.overrideEnabled = true →
    u.status = m.status ∧ u.expiredAt = m.expiredAt ∧ u.purgedAt = m.purgedAt
  resets : m.overrideEnabled = false → u.status = .active ∧ u.purgedAt = none
  seen : upserts e (adoptMissingFingerprint e m) = true → u.lastSeenInFeed = seenAt
  unwritten : upserts e (adoptMissingFingerprint e m) = false →
    policySql policy u = policySql policy m

theorem adoptMissingFingerprint_eq (e : StageEntry) (m : Membership) :
    adoptMissingFingerprint e m =
      { m with contentFingerprint := (adoptMissingFingerprint e m).contentFingerprint } := by
  unfold adoptMissingFingerprint
  split <;> rfl

theorem upserted_facts (policy : Option FeedPolicy) (seenAt : ℤ) (e : StageEntry)
    (m : Membership) :
    UpsertedFacts policy seenAt e m (upsertMembership e seenAt (adoptMissingFingerprint e m)) := by
  have hadopted := adoptMissingFingerprint_eq e m
  cases hupserts : upserts e (adoptMissingFingerprint e m) with
  | true =>
    have hwritten : upsertMembership e seenAt (adoptMissingFingerprint e m) = _ := if_pos hupserts
    rw [hwritten, hadopted]
    refine ⟨rfl, rfl, rfl, rfl, rfl, fun h => ?_, fun h => ?_, fun _ => rfl, fun h => ?_⟩
    · simp [h]
    · simp [h]
    · rw [hupserts] at h
      cases h
  | false =>
    have hwritten : upsertMembership e seenAt (adoptMissingFingerprint e m) =
        adoptMissingFingerprint e m := if_neg (by rw [hupserts]; exact Bool.false_ne_true)
    -- A row that the upsert passes over is healthy.
    have hhealthy : (adoptMissingFingerprint e m).contentFingerprint = some e.providerFingerprint ∧
        m.status = .active ∧ m.missingSince = none ∧ m.purgedAt = none := by
      rw [hadopted] at hupserts
      simpa [upserts, and_assoc] using hupserts
    rw [hwritten, hadopted]
    refine ⟨rfl, rfl, rfl, hhealthy.2.2.1, hhealthy.1, fun _ => ⟨rfl, rfl, rfl⟩,
      fun _ => ⟨hhealthy.2.1, hhealthy.2.2.2⟩, fun h => ?_, fun _ => rfl⟩
    rw [hupserts] at h
    cases h

theorem agreesWithRowImporter_iff : AgreesWithRowImporter policy seenAt m ↔
    m.policyExpiresAt = (computeMembershipFieldPatch m policy seenAt).policyExpiresAt ∧
      m.expiresAt = (computeMembershipFieldPatch m policy seenAt).expiresAt ∧
      m.status = (computeMembershipFieldPatch m policy seenAt).status ∧
      m.expiredAt = (computeMembershipFieldPatch m policy seenAt).expiredAt :=
  ⟨fun h => ⟨h.1, h.2, h.3, h.4⟩, fun ⟨h₁, h₂, h₃, h₄⟩ => ⟨h₁, h₂, h₃, h₄⟩⟩

/-- The policy statement on a row that is not missing agrees with the row importer exactly under
the condition on the override. -/
theorem policyFields_agrees_iff (h : IsCanonical policy) (hmissing : m.missingSince = none)
    (hactive : m.overrideEnabled = false → m.status = .active) :
    AgreesWithRowImporter policy seenAt (policyFields policy seenAt m) ↔
      OverrideAgrees policy seenAt m := by
  have hexpiry := policySql_eq h m
  have hnone : policySql policy m = none ↔ givesFixedTtl policy = false :=
    policySql_eq_none_iff hmissing
  rw [agreesWithRowImporter_iff]
  unfold OverrideAgrees computeMembershipFieldPatch policyFields
  simp only [← hexpiry]
  generalize policySql policy m = expiry at hnone
  have hdated : m.expiredAt = some (m.expiredAt.getD seenAt) ↔ ¬ m.expiredAt = none := by
    cases m.expiredAt <;> simp
  cases hon : m.overrideEnabled with
  | false =>
    have hstatus := hactive hon
    cases expiry with
    | none =>
      simp [hon, hstatus, overrideExpiry, patchExpiresAt, policyExpires, resolveMembershipStatus,
        resolveEffectiveExpiresAt]
    | some date =>
      by_cases hdue : date ≤ seenAt <;>
        simp [hon, hstatus, hdue, overrideExpiry, patchExpiresAt, policyExpires,
          resolveMembershipStatus, resolveEffectiveExpiresAt]
  | true =>
    cases hstatus : m.overrideStatus with
    | some status =>
      cases status with
      | active =>
        cases hdate : m.overrideExpiresAt <;>
          simp [hon, hstatus, overrideExpiry, patchExpiresAt, policyExpires,
            resolveMembershipStatus, OverrideStatus.toStatus]
      | expired =>
        cases hdate : m.overrideExpiresAt <;>
          simp [hon, hstatus, hdated, overrideExpiry, patchExpiresAt, policyExpires,
            resolveMembershipStatus, OverrideStatus.toStatus, eq_comm (a := (0 : ℤ))]
    | none =>
      cases hdate : m.overrideExpiresAt with
      | some date =>
        by_cases hdue : date ≤ seenAt <;>
          simp [hon, hstatus, hdate, hdue, hdated, overrideExpiry, patchExpiresAt, policyExpires,
            resolveMembershipStatus, resolveEffectiveExpiresAt]
      | none =>
        cases expiry with
        | none =>
          simp [hon, hstatus, hdate, ← hnone, overrideExpiry, patchExpiresAt, policyExpires,
            resolveMembershipStatus, resolveEffectiveExpiresAt]
        | some due =>
          simp [hon, hstatus, hdate, ← hnone, overrideExpiry, patchExpiresAt]

/-- A settled membership agrees with the row importer exactly under the condition on its
override. -/
theorem settle_agrees_iff (feedId : ℕ) (call : FinalizeCall) (e : StageEntry) (m : Membership) :
    AgreesWithRowImporter (call.policyFor feedId m) call.seenAt (settle feedId call e m) ↔
      OverrideAgrees (call.policyFor feedId m) call.seenAt m := by
  have hfacts := upserted_facts (call.policyFor feedId m) call.seenAt e m
  unfold settle
  rw [applyPolicy_eq, policyFields_agrees_iff (isCanonical_policyFor call feedId m)
    hfacts.missingSince]
  · unfold OverrideAgrees
    rw [hfacts.overrideEnabled, hfacts.overrideStatus, hfacts.overrideExpiresAt]
    cases hon : m.overrideEnabled with
    | false => exact Iff.rfl
    | true =>
      obtain ⟨hstatus, hexpired, -⟩ := hfacts.keeps hon
      rw [hstatus, hexpired]
  · intro hoff
    rw [hfacts.overrideEnabled] at hoff
    exact (hfacts.resets hoff).1

theorem status_policyFields_of_off (hoff : m.overrideEnabled = false) :
    (policyFields policy seenAt m).status =
      if (policySql policy m).any (· ≤ seenAt) then .expired else m.status := by
  simp [policyFields, policyExpires, hoff]

theorem status_policyFields_of_on (hon : m.overrideEnabled = true) :
    (policyFields policy seenAt m).status =
      (m.overrideStatus.map OverrideStatus.toStatus).getD m.status := by
  cases hstatus : m.overrideStatus <;> simp [policyFields, policyExpires, hon, hstatus]

/-- Which settled memberships are live. -/
theorem isLive_settle (feedId : ℕ) (call : FinalizeCall) (e : StageEntry) (m : Membership) :
    (settle feedId call e m).isLive = staysLive (call.policyFor feedId m) call.seenAt e m := by
  have hfacts := upserted_facts (call.policyFor feedId m) call.seenAt e m
  unfold settle
  rw [applyPolicy_eq]
  generalize upsertMembership e call.seenAt (adoptMissingFingerprint e m) = u at hfacts
  have hpurgedAt : (policyFields (call.policyFor feedId m) call.seenAt u).purgedAt = u.purgedAt :=
    rfl
  unfold Membership.isLive staysLive
  rw [hpurgedAt]
  cases hon : m.overrideEnabled with
  | false =>
    obtain ⟨hstatus, hpurged⟩ := hfacts.resets hon
    rw [status_policyFields_of_off (hfacts.overrideEnabled.trans hon), hpurged, hstatus]
    cases hupserts : upserts e (adoptMissingFingerprint e m) with
    | true =>
      rw [policySql_of_seen hfacts.missingSince (hfacts.seen hupserts)]
      rfl
    | false =>
      rw [hfacts.unwritten hupserts]
      cases (policySql (call.policyFor feedId m) m).any (· ≤ call.seenAt) <;> rfl
  | true =>
    obtain ⟨hstatus, -, hpurged⟩ := hfacts.keeps hon
    rw [status_policyFields_of_on (hfacts.overrideEnabled.trans hon), hfacts.overrideStatus,
      hstatus, hpurged]
    cases m.overrideStatus with
    | none => simp [Bool.and_comm]
    | some status => cases status <;> simp [OverrideStatus.toStatus]

/-- An inserted membership agrees with the row importer. -/
theorem inserted_agrees (feedId : ℕ) (call : FinalizeCall) (id : ℕ) (key : ItemKey)
    (e : StageEntry) :
    OverrideAgrees (call.policyFor feedId (insertedMembership id feedId key e call.seenAt))
      call.seenAt (insertedMembership id feedId key e call.seenAt) := trivial

/-- An inserted membership stays live. -/
theorem inserted_staysLive (feedId : ℕ) (call : FinalizeCall) (id : ℕ) (key : ItemKey)
    (e : StageEntry) :
    staysLive (call.policyFor feedId (insertedMembership id feedId key e call.seenAt)) call.seenAt e
      (insertedMembership id feedId key e call.seenAt) = true := by
  have hnot : (policySql (call.policyFor feedId (insertedMembership id feedId key e call.seenAt))
      (insertedMembership id feedId key e call.seenAt)).any (· ≤ call.seenAt) = false :=
    policySql_of_seen rfl rfl
  unfold staysLive
  rw [hnot]
  simp [insertedMembership]

end TalonHound.Usom
