import TalonHound.IocExpiration.ImportRun

/-!
# The policy behind the fields of a membership

Imports compute the expiry and the status of a membership from the policy of its own IOC type.
A correlation match counts from the match, a request writes what it asks for. The end of a
snapshot run and the clearing of an override look up the feed-level policy.
-/

namespace TalonHound.IocExpiration

/-- The two dates and the status are those that the policy gives at `now`, the dates to the
second, as the code compares them. -/
def FollowsPolicy (policy : Option FeedPolicy) (now : ℤ) (m : Membership) : Prop :=
  let patch := computeMembershipFieldPatch m policy now
  dateText m.policyExpiresAt = dateText patch.policyExpiresAt ∧
    dateText m.expiresAt = dateText patch.expiresAt ∧ m.status = patch.status

/-- The two dates and the status were not written, or not to another value. -/
def SameFields (m m' : Membership) : Prop :=
  m'.policyExpiresAt = m.policyExpiresAt ∧ m'.expiresAt = m.expiresAt ∧ m'.status = m.status

section Rows

variable {policy : Option FeedPolicy} {now : ℤ} {m : Membership} {tables : PolicyTables}

theorem Agrees.followsPolicy (h : Agrees policy now m) : FollowsPolicy policy now m := by
  unfold Agrees membershipComputedFieldsUnchanged at h
  rw [decide_eq_true_eq] at h
  exact ⟨h.1, h.2.1, h.2.2.1⟩

theorem followsPolicy_computedRow : FollowsPolicy policy now (computedRow policy now m) :=
  agrees_computedRow.followsPolicy

/-- Another explicit confidence follows the same policy. -/
theorem FollowsPolicy.withConfidence (h : FollowsPolicy policy now m) (level : Option String) :
    FollowsPolicy policy now { m with explicitConfidence := level } := h

/-- A new membership follows the policy. -/
theorem importNew_followsPolicy (policy : Option FeedPolicy) (c : ImportCall) (id : ℕ)
    (key : MembershipKey) :
    FollowsPolicy policy c.seenAt (importNew policy c id key).membership := by
  obtain ⟨level, hmembership⟩ := importNew_membership policy c id key
  rw [hmembership]
  exact followsPolicy_computedRow.withConfidence level

/-- A known membership keeps its fields or follows the policy. -/
theorem importKnown_followsPolicy (policy : Option FeedPolicy) (c : ImportCall) (m : Membership) :
    SameFields m (importKnown policy c m).membership ∨
      FollowsPolicy policy c.seenAt (importKnown policy c m).membership := by
  cases importKnown_effect policy c m with
  | untouched fingerprint hmembership =>
    left
    rw [hmembership]
    exact ⟨rfl, rfl, rfl⟩
  | computed row level htouched hrow hmembership =>
    right
    rw [hmembership]
    exact followsPolicy_computedRow.withConfidence level

/-- The end of a snapshot run follows the feed-level policy. -/
theorem finalizeMissing_followsPolicy (tables : PolicyTables) (now : ℤ) (m : Membership) :
    SameFields m (finalizeMissing tables now m) ∨
      FollowsPolicy (tables.feedLevel m) now (finalizeMissing tables now m) := by
  unfold finalizeMissing
  dsimp only
  split
  · exact .inr followsPolicy_computedRow
  · exact .inl ⟨rfl, rfl, rfl⟩

/-- So does the clearing of an override. -/
theorem clearOverride_followsPolicy (tables : PolicyTables) (now : ℤ) (m : Membership) :
    FollowsPolicy (tables.feedLevel m) now (clearOverride tables now m) :=
  ⟨rfl, rfl, rfl⟩

/-- What a request writes: it follows every policy where it names a status, and keeps the
stored status where it names none. -/
theorem setOverride_fields (policy : Option FeedPolicy) (r : OverrideRequest) (now : ℤ)
    (m : Membership) :
    (setOverride r now m).policyExpiresAt = m.policyExpiresAt ∧
      (r.overrideStatus ≠ none → (setOverride r now m).expiresAt =
            (computeMembershipFieldPatch (setOverride r now m) policy now).expiresAt ∧
          (setOverride r now m).status =
            (computeMembershipFieldPatch (setOverride r now m) policy now).status) ∧
      (r.overrideStatus = none → (setOverride r now m).expiresAt = r.overrideExpiresAt ∧
          (setOverride r now m).status = m.status) := by
  refine ⟨rfl, ?_, ?_⟩
  · intro hstatus
    obtain ⟨status, hstatus⟩ := Option.ne_none_iff_exists'.mp hstatus
    constructor
    · cases status with
      | active | expired =>
        cases hdate : r.overrideExpiresAt <;>
          simp [setOverride, OverrideRequest.expiresAt, computeMembershipFieldPatch,
            patchExpiresAt, hstatus, hdate]
    · simp [setOverride, computeMembershipFieldPatch, resolveMembershipStatus, hstatus]
  · intro hstatus
    simp [setOverride, OverrideRequest.expiresAt, hstatus]

/-- A match on an expired membership: with an override it keeps its fields or follows the
policy of its type, without one it is active until the date that the policy counts from the
match. -/
theorem reactivateMembershipOnMatch_fields (tables : PolicyTables) (matchAt : ℤ) (m : Membership) :
    (m.status ≠ .expired ∨ m.overrideEnabled = true →
      SameFields m (reactivateMembershipOnMatch tables matchAt m) ∨
        FollowsPolicy (tables.policyFor m) matchAt (reactivateMembershipOnMatch tables matchAt m)) ∧
    (m.status = .expired → m.overrideEnabled = false →
      (reactivateMembershipOnMatch tables matchAt m).status = .active ∧
        (reactivateMembershipOnMatch tables matchAt m).policyExpiresAt =
          computeMatchReactivationExpiresAt (tables.policyFor m) matchAt ∧
        (reactivateMembershipOnMatch tables matchAt m).expiresAt =
          computeMatchReactivationExpiresAt (tables.policyFor m) matchAt) := by
  unfold reactivateMembershipOnMatch
  constructor
  · intro hcase
    split
    · exact .inl ⟨rfl, rfl, rfl⟩
    · next hexpired =>
      have hoverride : m.overrideEnabled = true := hcase.resolve_left hexpired
      rw [if_pos hoverride]
      split
      · exact .inl ⟨rfl, rfl, rfl⟩
      · exact .inr followsPolicy_computedRow
  · intro hexpired hoverride
    simp [hexpired, hoverride]

end Rows

/-- The type of a membership has an override that switches expiry off. -/
def NoExpireType (tables : PolicyTables) (key : MembershipKey) : Prop :=
  ∃ ttl, tables.loadTypeOverrideRow key.feedId key.item.observableType = some ⟨.noExpire, ttl⟩

/-- Such a type has a disabled policy. -/
theorem NoExpireType.disabled {tables : PolicyTables} {key : MembershipKey}
    (h : NoExpireType tables key) :
    (tables.getFeedPolicy key.feedId key.item.observableType).all fun p => !p.enabled := by
  obtain ⟨ttl, hrow⟩ := h
  have htype : ¬ (key.item.observableType = "" ∨ key.item.observableType = "all") := by
    have hnone : ∀ type, type = "" ∨ type = "all" →
        tables.loadTypeOverrideRow key.feedId type = none := by
      rintro type (rfl | rfl)
      · have hnormal : normalizeIocTypeForPolicy "" = none := by decide
        simp [PolicyTables.loadTypeOverrideRow, hnormal]
      · have hnormal : normalizeIocTypeForPolicy "all" = none := by decide
        simp [PolicyTables.loadTypeOverrideRow, hnormal]
    intro hcase
    rw [hnone _ hcase] at hrow
    cases hrow
  unfold PolicyTables.getFeedPolicy
  rw [if_neg htype, hrow]
  simp [applyTypeOverrideToFeedPolicy, resolveExpirationPolicy, withCanonicalExpirationMode]

/-- The operation looks up the policy of the type: every import and match does, the end of a
snapshot run and the clearing of an override when the type has the policy of the feed. -/
def UsesTypePolicy (key : MembershipKey) : MembershipAction → Prop
  | .importCall tables _ => NoExpireType tables key
  | .reactivate tables _ => NoExpireType tables key
  | .finalize tables _ => NoExpireType tables key ∧
      tables.getFeedPolicy key.feedId "all" =
        tables.getFeedPolicy key.feedId key.item.observableType
  | .clearOverride tables _ => NoExpireType tables key ∧
      tables.getFeedPolicy key.feedId "all" =
        tables.getFeedPolicy key.feedId key.item.observableType
  | _ => True

/-- The membership `key` has no date of a policy, and without an override no date at all. -/
def WithoutDate (key : MembershipKey) (s : Option Membership) : Prop :=
  ∀ m ∈ s, m.key = key ∧ m.policyExpiresAt = none ∧ (m.overrideEnabled = false → m.expiresAt = none)

section NoExpiry

variable {policy : Option FeedPolicy} {now : ℤ} {m : Membership} {id : ℕ} {key : MembershipKey}
  {s s' : Option Membership} {a : MembershipAction}

/-- A row that follows a disabled policy has no date of its own. -/
theorem FollowsPolicy.withoutDate (h : FollowsPolicy policy now m)
    (hdisabled : policy.all fun p => !p.enabled) :
    m.policyExpiresAt = none ∧ (m.overrideEnabled = false → m.expiresAt = none) := by
  obtain ⟨hpolicy, hexpires, -⟩ := h
  unfold computeMembershipFieldPatch at hpolicy hexpires
  rw [computePolicyExpiresAt_of_disabled hdisabled] at hpolicy hexpires
  refine ⟨by simpa [dateText] using hpolicy, ?_⟩
  intro hoverride
  simpa [dateText, patchExpiresAt, hoverride] using hexpires

theorem computeMatchReactivationExpiresAt_of_disabled
    (hdisabled : policy.all fun p => !p.enabled) (matchAt : ℤ) :
    computeMatchReactivationExpiresAt policy matchAt = none := by
  cases policy with
  | none => rfl
  | some p =>
    rw [Option.all_some] at hdisabled
    simp [computeMatchReactivationExpiresAt, hdisabled]

theorem key_computedRow : (computedRow policy now m).key = m.key := SameBasis.key sameBasis_computedRow

/-- Fields that were not written are as dateless as before. -/
theorem SameFields.withoutDate {m' : Membership} (h : SameFields m m')
    (hoverride : m'.overrideEnabled = m.overrideEnabled) (hpolicy : m.policyExpiresAt = none)
    (hexpires : m.overrideEnabled = false → m.expiresAt = none) :
    m'.policyExpiresAt = none ∧ (m'.overrideEnabled = false → m'.expiresAt = none) := by
  refine ⟨h.1.trans hpolicy, ?_⟩
  intro hnone
  exact h.2.1.trans (hexpires (hoverride.symm.trans hnone))

theorem reactivateMembershipOnMatch_basis (tables : PolicyTables) (matchAt : ℤ) (m : Membership) :
    SameBasis m (reactivateMembershipOnMatch tables matchAt m) := by
  unfold reactivateMembershipOnMatch
  split
  · exact SameBasis.refl m
  · split
    · split
      · exact SameBasis.refl m
      · have hseen : SameBasis m
            { m with lastSeenInFeed := max m.lastSeenInFeed matchAt, missingSince := none } :=
          ⟨rfl, rfl, rfl, rfl, rfl, rfl⟩
        exact hseen.trans sameBasis_computedRow
    · exact ⟨rfl, rfl, rfl, rfl, rfl, rfl⟩

/-- One operation that uses the policy of the type gives no date. -/
theorem withoutDate_step (hs : WithoutDate key s) (huses : UsesTypePolicy key a)
    (hstep : membershipStep id key s a = some s') : WithoutDate key s' := by
  cases s with
  | none =>
    cases a with
    | importCall tables c =>
      cases hstep
      intro m' hm'
      cases hm'
      have hfollows := importNew_followsPolicy
        (tables.getFeedPolicy key.feedId key.item.observableType) c id key
      obtain ⟨level, hmembership⟩ := importNew_membership
        (tables.getFeedPolicy key.feedId key.item.observableType) c id key
      refine ⟨?_, hfollows.withoutDate (NoExpireType.disabled huses)⟩
      rw [hmembership]
      exact key_computedRow
    | _ =>
      cases hstep
      exact hs
  | some m =>
    obtain ⟨rfl, hpolicy, hexpires⟩ := hs m rfl
    cases hstep
    intro m' hm'
    cases hm'
    cases a with
    | importCall tables c =>
      obtain ⟨-, hkey, hoverride⟩ := importKnown_kept (tables.policyFor m) c m
      refine ⟨hkey, ?_⟩
      rcases importKnown_followsPolicy (tables.policyFor m) c m with hsame | hfollows
      · exact hsame.withoutDate hoverride hpolicy hexpires
      · exact hfollows.withoutDate (NoExpireType.disabled huses)
    | finalize tables now =>
      have hbasis := finalizeMissing_basis tables now m
      refine ⟨hbasis.key, ?_⟩
      rcases finalizeMissing_followsPolicy tables now m with hsame | hfollows
      · exact hsame.withoutDate hbasis.overrideEnabled hpolicy hexpires
      · have hdisabled := NoExpireType.disabled huses.1
        rw [← huses.2] at hdisabled
        exact hfollows.withoutDate hdisabled
    | setOverride request now =>
      refine ⟨rfl, hpolicy, ?_⟩
      intro h
      cases h
    | clearOverride tables now =>
      have hdisabled := NoExpireType.disabled huses.1
      rw [← huses.2] at hdisabled
      exact ⟨rfl, (clearOverride_followsPolicy tables now m).withoutDate hdisabled⟩
    | purge request now =>
      simp only [MembershipAction.apply, purge]
      split
      · exact ⟨rfl, hpolicy, fun _ => rfl⟩
      · exact ⟨rfl, hpolicy, hexpires⟩
    | expire now =>
      simp only [MembershipAction.apply, expireDue]
      split
      · exact ⟨rfl, hpolicy, hexpires⟩
      · exact ⟨rfl, hpolicy, hexpires⟩
    | reactivate tables matchAt =>
      have hbasis := reactivateMembershipOnMatch_basis tables matchAt m
      have hdisabled : (tables.policyFor m).all fun p => !p.enabled := NoExpireType.disabled huses
      obtain ⟨hheld, hfree⟩ := reactivateMembershipOnMatch_fields tables matchAt m
      refine ⟨hbasis.key, ?_⟩
      by_cases hcase : m.status = .expired ∧ m.overrideEnabled = false
      · obtain ⟨-, hdate, hdate'⟩ := hfree hcase.1 hcase.2
        rw [computeMatchReactivationExpiresAt_of_disabled hdisabled] at hdate hdate'
        exact ⟨hdate, fun _ => hdate'⟩
      · have hcase' : m.status ≠ .expired ∨ m.overrideEnabled = true := by
          by_cases h : m.status = .expired
          · exact .inr (by simpa [h] using hcase)
          · exact .inl h
        rcases hheld hcase' with hsame | hfollows
        · exact hsame.withoutDate hbasis.overrideEnabled hpolicy hexpires
        · exact hfollows.withoutDate hdisabled

end NoExpiry

/-- An import writes the fields that the policy of the type gives. So do the end of a snapshot
run and the clearing of an override, when the type has the policy of the feed. A request writes
what it names, a match on an expired membership counts from the match, and over any run under
the policy of a type without expiry no policy gives a date. -/
theorem membership_fields_follow (tables : PolicyTables) :
    (∀ c id key, FollowsPolicy (tables.getFeedPolicy key.feedId key.item.observableType) c.seenAt
      (importNew (tables.getFeedPolicy key.feedId key.item.observableType) c id key).membership) ∧
    (∀ c m, SameFields m (importKnown (tables.policyFor m) c m).membership ∨
      FollowsPolicy (tables.policyFor m) c.seenAt
        (importKnown (tables.policyFor m) c m).membership) ∧
    (∀ now m, tables.feedLevel m = tables.policyFor m →
      (SameFields m (finalizeMissing tables now m) ∨
        FollowsPolicy (tables.policyFor m) now (finalizeMissing tables now m)) ∧
      FollowsPolicy (tables.policyFor m) now (clearOverride tables now m)) ∧
    (∀ r now m, (setOverride r now m).policyExpiresAt = m.policyExpiresAt ∧
      (r.overrideStatus ≠ none → (setOverride r now m).expiresAt =
            (computeMembershipFieldPatch (setOverride r now m) (tables.policyFor m) now).expiresAt ∧
          (setOverride r now m).status =
            (computeMembershipFieldPatch (setOverride r now m) (tables.policyFor m) now).status) ∧
      (r.overrideStatus = none → (setOverride r now m).expiresAt = r.overrideExpiresAt ∧
          (setOverride r now m).status = m.status)) ∧
    (∀ matchAt m, (m.status ≠ .expired ∨ m.overrideEnabled = true →
      SameFields m (reactivateMembershipOnMatch tables matchAt m) ∨
        FollowsPolicy (tables.policyFor m) matchAt (reactivateMembershipOnMatch tables matchAt m)) ∧
      (m.status = .expired → m.overrideEnabled = false →
        (reactivateMembershipOnMatch tables matchAt m).status = .active ∧
          (reactivateMembershipOnMatch tables matchAt m).policyExpiresAt =
            computeMatchReactivationExpiresAt (tables.policyFor m) matchAt ∧
          (reactivateMembershipOnMatch tables matchAt m).expiresAt =
            computeMatchReactivationExpiresAt (tables.policyFor m) matchAt)) ∧
    (∀ id key s s' actions, WithoutDate key s →
      Run (membershipStep id key) (fun _ => UsesTypePolicy key) s actions s' → WithoutDate key s') := by
  refine ⟨?_, ?_, ?_, ?_, ?_, ?_⟩
  · intro c id key
    exact importNew_followsPolicy _ c id key
  · intro c m
    exact importKnown_followsPolicy _ c m
  · intro now m hlevel
    have hfinalize := finalizeMissing_followsPolicy tables now m
    have hclear := clearOverride_followsPolicy tables now m
    rw [hlevel] at hfinalize hclear
    exact ⟨hfinalize, hclear⟩
  · intro r now m
    exact setOverride_fields (tables.policyFor m) r now m
  · intro matchAt m
    exact reactivateMembershipOnMatch_fields tables matchAt m
  · intro id key s s' actions hs hrun
    apply hrun.invariant _ hs
    intro s₁ a s₂ hs₁ huses hstep
    exact withoutDate_step hs₁ huses hstep

/-- Feed 1 lets an IOC expire a day after it went missing, and never lets a domain expire. -/
def graceTables : PolicyTables where
  policies := [⟨1, "all", ⟨true, .missingFromFeedTtl, none, some 1⟩⟩]
  typePolicies := [⟨1, "domain", ⟨.noExpire, none⟩⟩]

/-- An active membership of an IOC of feed 1. -/
def activeMembership (observableType : String) : Membership :=
  insertedMembership 1 ⟨⟨1, observableType⟩, 1⟩ ⟨0, none, none, none, none, false⟩

/-- It expired. -/
def expiredMembership (observableType : String) : Membership :=
  { activeMembership observableType with
    status := .expired
    expiredAt := some 5 }

/-- The theorem on an import and a match of a domain, and on an IP that went missing. -/
theorem membership_fields_follow_domain :
    FollowsPolicy (graceTables.policyFor (activeMembership "ip")) 7
        (clearOverride graceTables 7 (activeMembership "ip")) ∧
      ∃ s', Run (membershipStep 1 ⟨⟨1, "domain"⟩, 1⟩)
        (fun _ => UsesTypePolicy ⟨⟨1, "domain"⟩, 1⟩) none
        [.importCall graceTables ⟨5, none, none, none, none, false⟩, .expire 6,
          .reactivate graceTables 7] s' ∧
      WithoutDate ⟨⟨1, "domain"⟩, 1⟩ s' := by
  have hempty : WithoutDate ⟨⟨1, "domain"⟩, 1⟩ none := by
    intro m hm
    cases hm
  have htype : NoExpireType graceTables ⟨⟨1, "domain"⟩, 1⟩ := ⟨none, by decide⟩
  have hrun : ∃ s', Run (membershipStep 1 ⟨⟨1, "domain"⟩, 1⟩)
      (fun _ => UsesTypePolicy ⟨⟨1, "domain"⟩, 1⟩) none
      [.importCall graceTables ⟨5, none, none, none, none, false⟩, .expire 6,
        .reactivate graceTables 7] s' :=
    ⟨_, .cons htype rfl (.cons trivial rfl (.cons htype rfl (.nil _)))⟩
  obtain ⟨s', hrun⟩ := hrun
  have hlevel : graceTables.feedLevel (activeMembership "ip") =
      graceTables.policyFor (activeMembership "ip") := by decide
  obtain ⟨-, -, hfeed, -, -, hruns⟩ := membership_fields_follow graceTables
  exact ⟨(hfeed 7 (activeMembership "ip") hlevel).2, s', hrun, hruns 1 _ none s' _ hempty hrun⟩

/-- A match gives an expired IP a date that its policy does not give. -/
theorem match_date_not_of_policy :
    (reactivateMembershipOnMatch graceTables 7 (expiredMembership "ip")).policyExpiresAt =
        some 86400007 ∧
      (computeMembershipFieldPatch
        (reactivateMembershipOnMatch graceTables 7 (expiredMembership "ip"))
        (graceTables.policyFor (expiredMembership "ip")) 7).policyExpiresAt = none ∧
      ¬ (SameFields (expiredMembership "ip")
          (reactivateMembershipOnMatch graceTables 7 (expiredMembership "ip")) ∨
        FollowsPolicy (graceTables.policyFor (expiredMembership "ip")) 7
          (reactivateMembershipOnMatch graceTables 7 (expiredMembership "ip"))) := by
  have hdate : (reactivateMembershipOnMatch graceTables 7 (expiredMembership "ip")).policyExpiresAt =
      some 86400007 := by decide
  have hpatch : (computeMembershipFieldPatch
      (reactivateMembershipOnMatch graceTables 7 (expiredMembership "ip"))
      (graceTables.policyFor (expiredMembership "ip")) 7).policyExpiresAt = none := by
    decide
  refine ⟨hdate, hpatch, ?_⟩
  rintro (hsame | hfollows)
  · have hold := hsame.1
    cases hold
  · have htext := hfollows.1
    cases htext

/-- The fields that a patch has, as a row has them. -/
def Membership.computedFields (m : Membership) : MembershipPatch :=
  ⟨m.policyExpiresAt, m.expiresAt, m.status, m.expiredAt, m.expirationReason, m.missingSince⟩

/-- The date that a TTL counts from the last sight, or a grace time from the start of an absence. -/
def dueDate (policy : Option FeedPolicy) (m : Membership) : Option ℤ :=
  match policy with
  | some ⟨true, .fixedTtl, ttl, _⟩ | some ⟨true, .lastSeenTtl, ttl, _⟩ =>
    (ttl.filter (0 < ·)).map fun days => m.lastSeenInFeed + days * msPerDay
  | some ⟨true, .missingFromFeedTtl, ttl, grace⟩ =>
    m.missingSince.bind fun since =>
      ((grace <|> ttl).filter (0 < ·)).map fun days => since + days * msPerDay
  | _ => none

/-- An override chooses another date. -/
def countedDate (policy : Option FeedPolicy) (m : Membership) : Option ℤ :=
  if m.overrideEnabled then
    m.overrideExpiresAt <|> match m.overrideStatus with
      | some .active => none
      | some .expired => some 0
      | none => dueDate policy m
  else dueDate policy m

/-- The membership has lapsed, by its override or by its date. -/
def lapsed (policy : Option FeedPolicy) (now : ℤ) (m : Membership) : Bool :=
  match m.overrideEnabled, m.overrideStatus with
  | true, some status => decide (status = .expired)
  | _, _ => (countedDate policy m).any fun date => decide (date ≤ now)

/-- The row has its two dates to the second, and its other fields as they are due, where an empty
reason counts as none. -/
structure StoredToTheSecond (policy : Option FeedPolicy) (now : ℤ) (m : Membership) : Prop where
  policyDate : dateText m.policyExpiresAt = dateText (dueDate policy m)
  date : dateText m.expiresAt = dateText (countedDate policy m)
  status : m.status = if lapsed policy now m then .expired else .active
  expiredAt : m.expiredAt.isSome = lapsed policy now m
  reason : m.expirationReason.getD "" = if lapsed policy now m then
      if m.overrideEnabled ∧ m.overrideStatus = some .expired then "manual_override"
      else (policy.map fun p => p.expirationMode.text).getD "policy"
    else ""

/-- Two dates of one second have other milliseconds. -/
def OtherMilliseconds (stored due : Option ℤ) : Prop :=
  ∃ t t', stored = some t ∧ due = some t' ∧ t ≠ t' ∧ t / 1000 = t' / 1000

theorem computePolicyExpiresAt_eq (policy : Option FeedPolicy) (m : Membership) :
    computePolicyExpiresAt policy (some m.firstSeenInFeed) (some m.lastSeenInFeed) m.missingSince =
      dueDate policy m := by
  have hdays : ∀ (start : ℤ) (days : Option ℤ), days.bind (addDays start) =
      (days.filter (0 < ·)).map fun days => start + days * msPerDay := by
    intro start days
    cases days with
    | none => rfl
    | some days => by_cases hpos : 0 < days <;> simp [addDays, hpos, Option.filter]
  cases policy with
  | none => rfl
  | some p =>
    obtain ⟨enabled, mode, ttl, grace⟩ := p
    unfold computePolicyExpiresAt dueDate
    cases enabled <;> cases mode <;> simp [canonicalExpirationMode, hdays]

theorem patchExpiresAt_dueDate (policy : Option FeedPolicy) (m : Membership) :
    patchExpiresAt m (dueDate policy m) = countedDate policy m := by
  unfold patchExpiresAt countedDate
  cases m.overrideEnabled <;> cases m.overrideExpiresAt <;> cases m.overrideStatus with
  | none => rfl
  | some status => cases status <;> rfl

/-- The computed fields are those that are due. -/
theorem computeMembershipFieldPatch_eq (policy : Option FeedPolicy) (now : ℤ) (m : Membership) :
    computeMembershipFieldPatch m policy now =
      { policyExpiresAt := dueDate policy m
        expiresAt := countedDate policy m
        status := if lapsed policy now m then .expired else .active
        expiredAt := if lapsed policy now m then m.expiredAt <|> some now else none
        expirationReason := if lapsed policy now m then some
            (if m.overrideEnabled ∧ m.overrideStatus = some .expired then "manual_override"
            else (policy.map fun p => p.expirationMode.text).getD "policy") else none
        missingSince := m.missingSince } := by
  have hstatus : resolveMembershipStatus { m with
      policyExpiresAt := dueDate policy m, expiresAt := countedDate policy m } now =
        if lapsed policy now m then .expired else .active := by
    have heffective : resolveEffectiveExpiresAt { m with
        policyExpiresAt := dueDate policy m, expiresAt := countedDate policy m } =
          countedDate policy m := by
      rw [← patchExpiresAt_dueDate, patchExpiresAt_eq]
      rfl
    unfold resolveMembershipStatus lapsed
    rw [heffective]
    cases m.overrideEnabled <;> cases m.overrideStatus with
    | none => rfl
    | some status => cases status <;> rfl
  unfold computeMembershipFieldPatch
  simp only [computePolicyExpiresAt_eq, patchExpiresAt_dueDate, hstatus]
  cases lapsed policy now m <;> simp [apply_ite]

/-- The fields are found unchanged when they are stored to the second. -/
theorem agrees_iff {policy : Option FeedPolicy} {now : ℤ} {m : Membership} :
    Agrees policy now m ↔ StoredToTheSecond policy now m := by
  have hexpired : ∀ lapsed : Bool, dateText m.expiredAt =
      dateText (if lapsed then m.expiredAt <|> some now else none) ↔ m.expiredAt.isSome = lapsed := by
    intro lapsed
    cases m.expiredAt <;> cases lapsed <;> simp [dateText]
  unfold Agrees membershipComputedFieldsUnchanged
  rw [decide_eq_true_eq, computeMembershipFieldPatch_eq]
  dsimp only
  rw [hexpired]
  constructor
  · rintro ⟨hpolicy, hdate, hstatus, hexpiredAt, hreason, -⟩
    refine ⟨hpolicy, hdate, hstatus, hexpiredAt, hreason.trans ?_⟩
    cases lapsed policy now m <;> rfl
  · rintro ⟨hpolicy, hdate, hstatus, hexpiredAt, hreason⟩
    refine ⟨hpolicy, hdate, hstatus, hexpiredAt, hreason.trans ?_, rfl⟩
    cases lapsed policy now m <;> rfl

/-- Dates of one second are the same, or have other milliseconds. -/
theorem ne_iff_otherMilliseconds {stored due : Option ℤ} (h : dateText stored = dateText due) :
    stored ≠ due ↔ OtherMilliseconds stored due := by
  unfold dateText at h
  cases stored <;> cases due <;> simp_all [OtherMilliseconds]

/-- Of the fields of a row that is stored to the second, a date or an empty reason can differ. -/
theorem computedFields_ne_iff {policy : Option FeedPolicy} {now : ℤ} {m : Membership}
    (h : StoredToTheSecond policy now m) :
    m.computedFields ≠ computeMembershipFieldPatch m policy now ↔
      OtherMilliseconds m.policyExpiresAt (dueDate policy m) ∨
        OtherMilliseconds m.expiresAt (countedDate policy m) ∨ m.expirationReason = some "" := by
  obtain ⟨hpolicy, hdate, hstatus, hexpiredAt, hreason⟩ := h
  have htext : (policy.map fun p => p.expirationMode.text).getD "policy" ≠ "" := by
    cases policy with
    | none => decide
    | some p => cases hmode : p.expirationMode <;> simp [hmode, ExpirationMode.text]
  rw [← ne_iff_otherMilliseconds hpolicy, ← ne_iff_otherMilliseconds hdate,
    computeMembershipFieldPatch_eq, Membership.computedFields, ne_eq, MembershipPatch.mk.injEq]
  cases hl : lapsed policy now m <;> cases hr : m.expirationReason <;>
    cases he : m.expiredAt <;> grind

/-- An application stores what it computes, and is skipped the second time, unless the row is stored
to the second with other milliseconds or an empty reason. -/
theorem applyMembershipComputedFields_stores_iff (policy : Option FeedPolicy) (now : ℤ)
    (m : Membership) :
    let after := (applyMembershipComputedFields policy now m m).1
    (after.computedFields = computeMembershipFieldPatch m policy now ∧
        membershipComputedFieldsUnchanged after (computeMembershipFieldPatch after policy now) = true) ↔
      ¬(StoredToTheSecond policy now m ∧
        (OtherMilliseconds m.policyExpiresAt (dueDate policy m) ∨
          OtherMilliseconds m.expiresAt (countedDate policy m) ∨ m.expirationReason = some "")) := by
  change ((computedRow policy now m).computedFields = _ ∧ Agrees policy now (computedRow policy now m)) ↔ _
  rw [and_iff_left agrees_computedRow, not_and]
  by_cases h : Agrees policy now m
  · have hstored := agrees_iff.mp h
    rw [computedRow_of_agrees h, ← computedFields_ne_iff hstored, not_not]
    exact ⟨fun hexact _ => hexact, fun hexact => hexact hstored⟩
  · rw [computedRow_of_not_agrees h]
    exact iff_of_true rfl fun hstored => absurd (agrees_iff.mpr hstored) h

/-- A membership that is seen again within a second. -/
def seenTwice : Membership :=
  { activeMembership "domain" with
    firstSeenInFeed := 1000
    lastSeenInFeed := 1500
    policyExpiresAt := some 86401000
    expiresAt := some 86401000 }

/-- The dates of the first sight stay. -/
theorem seen_within_a_second_is_skipped :
    let policy : Option FeedPolicy := some ⟨true, .fixedTtl, some 1, none⟩
    (computeMembershipFieldPatch seenTwice policy 1500).expiresAt = some 86401500 ∧
      (applyMembershipComputedFields policy 1500 seenTwice seenTwice).1.expiresAt = some 86401000 := by
  decide

end TalonHound.IocExpiration
