import TalonHound.IocExpiration.Operations
import TalonHound.IocExpiration.ImportEffect
import TalonHound.IocExpiration.SourceTimes

/-!
# Purged and due memberships

An active membership is not purged, unless an override brings a purged one back. The worker
and the importer agree on a membership, unless an override keeps it active past its own expiry
or a date moved within a second.
-/

namespace TalonHound.IocExpiration

open Option

/-- An active membership is not purged. -/
def Consistent (s : Option Membership) : Prop :=
  ∀ m ∈ s, m.status = .active → m.purgedAt = none

/-- The row with the dates that the call gives to a membership that is not healthy. -/
def datedRow (c : ImportCall) (m : Membership) : Membership :=
  { m with
    firstSeenInFeed := loweredFirstSeen c m
    lastSeenInFeed := max (observedLastSeen c m) c.lastSeenWriteAt
    missingSince := none }

/-- The condition on an operation: no override, and no lifting of one, makes a purged membership
active. -/
def KeepsConsistent (s : Option Membership) (a : MembershipAction) : Prop :=
  ∀ m ∈ s, m.purgedAt ≠ none → match a with
    | .importCall tables c => m.overrideEnabled = true →
        (computeMembershipFieldPatch (datedRow c m) (tables.policyFor m) c.seenAt).status ≠ .active
    | .setOverride request _ => request.overrideStatus ≠ some .active
    | .clearOverride tables now => ∃ date ≤ now, computePolicyExpiresAt (tables.feedLevel m)
        (some m.firstSeenInFeed) (some m.lastSeenInFeed) m.missingSince = some date
    | .reactivate _ _ => m.status ≠ .expired
    | _ => True

section Import

variable {policy : Option FeedPolicy} {c : ImportCall} {m : Membership} {now : ℤ}

theorem computedRow_missingSince : (computedRow policy now m).missingSince = m.missingSince := by
  by_cases h : Agrees policy now m
  · rw [computedRow_of_agrees h]
  · rw [computedRow_of_not_agrees h]
    rfl

theorem reimportSet_missingSince (overridden : Bool) :
    (reimportSet c overridden m).missingSince = none := by
  cases overridden <;> rfl

/-- An import ends the absence of a membership that is not healthy. -/
theorem importKnown_missingSince (h : m.healthyActive = false) :
    (importKnown policy c m).membership.missingSince = none := by
  have hbefore := beforeReimport_spec policy c m
  have hexit : healthyExit policy c m = none := by
    unfold healthyExit
    simp [h]
  have hfinish : ∀ (reactivated : Bool) (st : ImportState), Coupled policy c.seenAt st →
      st.row.missingSince = none →
        (finishImport policy c reactivated st).membership.missingSince = none := by
    intro reactivated st hcoupled hrow
    have hstored : (st.applyComputed policy c.seenAt).stored.missingSince = none := by
      rw [applyComputed_stored hcoupled, computedRow_missingSince, hrow]
    unfold finishImport writeExplicitConfidence
    split
    · exact hstored
    · split
      · exact hstored
      · exact hstored
  unfold importKnown
  rw [hexit]
  unfold reimport
  set st := beforeReimport policy c m
  dsimp only
  split
  · apply hfinish _ _ (.inl rfl)
    exact reimportSet_missingSince _
  · next hwhere =>
    apply hfinish _ _ hbefore.coupled
    have hstored : st.stored.missingSince = none := by
      simp only [reimportWhere, Bool.or_eq_true, not_or, Bool.not_eq_true,
        isSome_eq_false_iff, isNone_iff_eq_none] at hwhere
      exact hwhere.1.2
    rcases hbefore.coupled with hsame | hsame
    · rw [← hsame, hstored]
    · rwa [hsame, computedRow_missingSince] at hstored

/-- The computed status depends on the dates and the override alone. -/
theorem patch_status_congr {m' : Membership} (hfirst : m'.firstSeenInFeed = m.firstSeenInFeed)
    (hlast : m'.lastSeenInFeed = m.lastSeenInFeed) (hmissing : m'.missingSince = m.missingSince)
    (henabled : m'.overrideEnabled = m.overrideEnabled)
    (hstatus : m'.overrideStatus = m.overrideStatus)
    (hexpires : m'.overrideExpiresAt = m.overrideExpiresAt) :
    (computeMembershipFieldPatch m' policy now).status =
      (computeMembershipFieldPatch m policy now).status := by
  unfold computeMembershipFieldPatch resolveMembershipStatus resolveEffectiveExpiresAt
  rw [hfirst, hlast, hmissing, henabled, hstatus, hexpires]

/-- The status of an overridden membership that is not healthy is untouched or computed from
the dates of the call. -/
theorem importKnown_status (policy : Option FeedPolicy) (c : ImportCall)
    (h : m.healthyActive = false) :
    (importKnown policy c m).membership.status = m.status ∨
      (importKnown policy c m).membership.status =
        (computeMembershipFieldPatch (datedRow c m) policy c.seenAt).status := by
  have htimes := importKnown_sourceTimes policy c m
  simp only [Membership.sourceTimes, Prod.mk.injEq] at htimes
  obtain ⟨hfirst, hlast, -⟩ := htimes
  have hmissing : (importKnown policy c m).membership.missingSince = none :=
    importKnown_missingSince h
  have hlast' : (importKnown policy c m).membership.lastSeenInFeed =
      max (observedLastSeen c m) c.lastSeenWriteAt := by
    rw [hlast]
    split
    · rfl
    · next hrewrites =>
      have hexit : healthyExit policy c m = none := by
        unfold healthyExit
        simp [h]
      have hbefore := beforeReimport_sourceTimes policy c m
      simp only [Membership.sourceTimes, Prod.mk.injEq] at hbefore
      simp only [rewrites, hexit, isNone_none, Bool.true_and, reimportWhere,
        Bool.or_eq_true, not_or, decide_eq_true_eq, not_lt] at hrewrites
      rw [hbefore.2.1] at hrewrites
      exact (max_eq_left hrewrites.1.1.1).symm
  cases importKnown_effect policy c m with
  | untouched fingerprint hmembership =>
    left
    rw [hmembership]
  | computed row level htouched hrow hmembership =>
    right
    have hbasis : SameBasis row (computedRow policy c.seenAt row) := sameBasis_computedRow
    rw [hmembership] at hfirst hlast' hmissing ⊢
    rw [agrees_computedRow.status_eq]
    apply patch_status_congr
    · exact hfirst
    · exact hlast'
    · exact hmissing
    · exact hbasis.overrideEnabled.trans hrow.overrideEnabled
    · exact hbasis.overrideStatus.trans hrow.overrideStatus
    · exact hbasis.overrideExpiresAt.trans hrow.overrideExpiresAt

/-- An import ends a purge, unless it leaves the status alone or the membership has an
override. -/
theorem importKnown_purgedAt (policy : Option FeedPolicy) (c : ImportCall) (m : Membership) :
    (importKnown policy c m).membership.purgedAt = none ∨
      (importKnown policy c m).membership.purgedAt = m.purgedAt ∧
        ((importKnown policy c m).membership.status = m.status ∨ m.overrideEnabled = true) := by
  cases importKnown_effect policy c m with
  | untouched fingerprint hmembership =>
    right
    rw [hmembership]
    exact ⟨rfl, .inl rfl⟩
  | computed row level htouched hrow hmembership =>
    have hbasis : SameBasis row (computedRow policy c.seenAt row) := sameBasis_computedRow
    have hpurged : (importKnown policy c m).membership.purgedAt = row.purgedAt := by
      rw [hmembership]
      exact hbasis.purgedAt
    rw [hpurged, hrow.purgedAt]
    cases hoverride : m.overrideEnabled with
    | true => exact .inr ⟨if_pos rfl, .inr rfl⟩
    | false => exact .inl (if_neg Bool.false_ne_true)

end Import

section Steps

variable {id : ℕ} {key : MembershipKey} {s s' : Option Membership} {a : MembershipAction}
  {m : Membership} {tables : PolicyTables} {now : ℤ}

section

variable (hm : m.status = .active → m.purgedAt = none)

include hm

/-- An import of a known membership. -/
theorem consistent_importKnown {c : ImportCall}
    (hkeeps : m.purgedAt ≠ none → m.overrideEnabled = true →
      (computeMembershipFieldPatch (datedRow c m) (tables.policyFor m) c.seenAt).status ≠ .active)
    (hactive : (importKnown (tables.policyFor m) c m).membership.status = .active) :
    (importKnown (tables.policyFor m) c m).membership.purgedAt = none := by
  rcases importKnown_purgedAt (tables.policyFor m) c m with hnone | ⟨hsame, hcase⟩
  · exact hnone
  · rw [hsame]
    by_contra hpurged
    have hinactive : m.status ≠ .active := fun h => hpurged (hm h)
    have hunhealthy : m.healthyActive = false := by simp [Membership.healthyActive, hinactive]
    rcases hcase with hstatus | hoverride
    · exact hinactive (hstatus.symm.trans hactive)
    · rcases importKnown_status (tables.policyFor m) c hunhealthy with hstatus | hstatus
      · exact hinactive (hstatus.symm.trans hactive)
      · exact hkeeps hpurged hoverride (hstatus.symm.trans hactive)

/-- The end of a snapshot run writes active memberships alone. -/
theorem consistent_finalize :
    (finalizeMissing tables now m).status = .active → (finalizeMissing tables now m).purgedAt = none := by
  unfold finalizeMissing
  dsimp only
  split
  · next hcase =>
    intro _
    simp only [Bool.and_eq_true, decide_eq_true_eq] at hcase
    have hbasis : SameBasis { m with missingSince := m.missingSince <|> some now }
      (computedRow (tables.feedLevel m) now { m with missingSince := m.missingSince <|> some now }) :=
      sameBasis_computedRow
    exact hbasis.purgedAt.trans (hm hcase.2)
  · exact hm

/-- An override that does not ask for `active`. -/
theorem consistent_setOverride {request : OverrideRequest}
    (hkeeps : m.purgedAt ≠ none → request.overrideStatus ≠ some .active)
    (hactive : (setOverride request now m).status = .active) :
    (setOverride request now m).purgedAt = none := by
  by_contra hpurged
  have hinactive : m.status ≠ .active := fun h => hpurged (hm h)
  cases hstatus : request.overrideStatus with
  | none => exact hinactive (by simpa [setOverride, hstatus] using hactive)
  | some status =>
    cases status with
    | active => exact hkeeps hpurged hstatus
    | expired => simp [setOverride, hstatus, OverrideStatus.toStatus] at hactive

/-- A purge takes the status along. -/
theorem consistent_purge {request : PurgeRequest} :
    (purge request now m).status = .active → (purge request now m).purgedAt = none := by
  unfold purge
  split
  · intro h
    cases h
  · exact hm

/-- The worker makes no row active. -/
theorem consistent_expire :
    (expireDue now m).status = .active → (expireDue now m).purgedAt = none := by
  unfold expireDue
  split
  · intro h
    cases h
  · exact hm

end

/-- A status resolved under a date that is past. -/
theorem clearOverride_status {date : ℤ} (hdate : computePolicyExpiresAt (tables.feedLevel m)
    (some m.firstSeenInFeed) (some m.lastSeenInFeed) m.missingSince = some date)
    (hle : date ≤ now) : (clearOverride tables now m).status = .expired := by
  simp [clearOverride, resolveMembershipStatus, resolveEffectiveExpiresAt, hdate, hle]

/-- A match reactivates expired memberships alone. -/
theorem consistent_reactivate (hm : m.status = .active → m.purgedAt = none)
    (hkeeps : m.purgedAt ≠ none → m.status ≠ .expired) :
    (reactivateMembershipOnMatch tables now m).status = .active →
      (reactivateMembershipOnMatch tables now m).purgedAt = none := by
  unfold reactivateMembershipOnMatch
  split
  · exact hm
  · next hexpired =>
    rw [not_not] at hexpired
    have hpurged : m.purgedAt = none := by
      by_contra h
      exact hkeeps h hexpired
    intro _
    split
    · split
      · exact hpurged
      · have hbasis : SameBasis
            { m with lastSeenInFeed := max m.lastSeenInFeed now, missingSince := none }
            (computedRow (tables.policyFor m) now
              { m with lastSeenInFeed := max m.lastSeenInFeed now, missingSince := none }) :=
          sameBasis_computedRow
        exact hbasis.purgedAt.trans hpurged
    · exact hpurged

/-- One operation under the condition keeps a membership consistent. -/
theorem consistent_step (hs : Consistent s) (hkeeps : KeepsConsistent s a)
    (hstep : membershipStep id key s a = some s') : Consistent s' := by
  cases s with
  | none =>
    cases a with
    | importCall tables c =>
      cases hstep
      intro m' hm' _
      cases hm'
      obtain ⟨level, hmembership⟩ := importNew_membership
        (tables.getFeedPolicy key.feedId key.item.observableType) c id key
      rw [hmembership]
      exact SameBasis.purgedAt sameBasis_computedRow
    | _ =>
      cases hstep
      exact hs
  | some m =>
    have hm := hs m rfl
    cases hstep
    have hkeeps := hkeeps m rfl
    rintro m' hm'
    cases hm'
    cases a with
    | importCall tables c => exact consistent_importKnown hm hkeeps
    | finalize tables now => exact consistent_finalize hm
    | setOverride request now => exact consistent_setOverride hm hkeeps
    | clearOverride tables now =>
      intro hactive
      by_contra hpurged
      obtain ⟨date, hle, hdate⟩ := hkeeps hpurged
      have hexpired := clearOverride_status hdate hle
      rw [MembershipAction.apply, hexpired] at hactive
      cases hactive
    | purge request now => exact consistent_purge hm
    | expire now => exact consistent_expire hm
    | reactivate tables matchAt => exact consistent_reactivate hm hkeeps

end Steps

section Due

variable {policy : Option FeedPolicy} {now : ℤ} {m : Membership}

/-- The condition on a row: where the computed fields are in place already, to the second, it
is not active and due; elsewhere no override holds it past its own expiry. -/
def StaysUndue (policy : Option FeedPolicy) (now : ℤ) (m : Membership) : Prop :=
  if membershipComputedFieldsUnchanged m (computeMembershipFieldPatch m policy now) then
    m.isDue now = false
  else ¬ m.OverrideHoldsPast now
  deriving Decidable

theorem isDue_iff : m.isDue now = true ↔
    m.status = .active ∧ ∃ date, m.expiresAt = some date ∧ date ≤ now := by
  unfold Membership.isDue
  rw [Bool.and_eq_true, decide_eq_true_eq, any_eq_true]
  simp

/-- After the computed fields were applied, the row is active and due exactly outside the
condition. -/
theorem computedRow_isDue_iff : (computedRow policy now m).isDue now = false ↔
    StaysUndue policy now m := by
  unfold StaysUndue
  by_cases h : Agrees policy now m
  · rw [computedRow_of_agrees h]
    unfold Agrees at h
    rw [if_pos h]
  · rw [computedRow_of_not_agrees h]
    unfold Agrees at h
    rw [if_neg h, ← patch_active_due_iff, ← Bool.not_eq_true, isDue_iff]
    rfl

/-- The worker leaves a row alone exactly when it is not due. -/
theorem expireDue_eq_self_iff : expireDue now m = m ↔ m.isDue now = false := by
  unfold expireDue
  constructor
  · intro h
    by_contra hdue
    rw [Bool.not_eq_false] at hdue
    rw [if_pos hdue] at h
    have hstatus := congrArg Membership.status h
    rw [(isDue_iff.mp hdue).1] at hstatus
    cases hstatus
  · intro h
    rw [h]
    rfl

end Due

/-- In a run under the condition an active membership is never purged. At any time, the row
that the importer has computed is not active and due, and the worker leaves it alone, exactly
under the condition on the row. -/
theorem membership_consistent (id : ℕ) (key : MembershipKey) :
    (∀ s s' actions, Consistent s →
      Run (membershipStep id key) KeepsConsistent s actions s' → Consistent s') ∧
    ∀ policy now m, (computedRow policy now m).isDue now = false ∧
        expireDue now (computedRow policy now m) = computedRow policy now m ↔
      StaysUndue policy now m := by
  constructor
  · intro s s' actions hs hrun
    apply hrun.invariant _ hs
    intro s₁ a s₂ hs₁ hkeeps hstep
    exact consistent_step hs₁ hkeeps hstep
  · intro policy now m
    rw [expireDue_eq_self_iff, and_self]
    exact computedRow_isDue_iff

/-- No policies. -/
def noPolicies : PolicyTables := ⟨[], []⟩

/-- A plain import at a time. -/
def plainCall (seenAt : ℤ) : ImportCall := ⟨seenAt, none, none, none, none, false⟩

/-- A purge by the system. -/
def plainPurge : PurgeRequest := ⟨some "feed_removed", none, none⟩

/-- A membership that an analyst keeps active until a date. -/
def heldMembership (untilDate : ℤ) : Membership :=
  { insertedMembership 1 ⟨⟨1, "ip"⟩, 1⟩ (plainCall 0) with
    overrideEnabled := true
    overrideStatus := some .active
    overrideExpiresAt := some untilDate
    expiresAt := some untilDate }

/-- The theorem on an import and a purge, and on a held membership before its expiry. -/
theorem membership_consistent_purged :
    (∃ s', Run (membershipStep 1 ⟨⟨1, "ip"⟩, 1⟩) KeepsConsistent none
        [.importCall noPolicies (plainCall 5), .purge plainPurge 6] s' ∧ Consistent s') ∧
      (computedRow none 5 (heldMembership 9)).isDue 5 = false := by
  obtain ⟨hruns, hdue⟩ := membership_consistent 1 ⟨⟨1, "ip"⟩, 1⟩
  constructor
  · have hempty : Consistent none := by
      intro m hm
      cases hm
    have hrun : ∃ s', Run (membershipStep 1 ⟨⟨1, "ip"⟩, 1⟩) KeepsConsistent none
        [.importCall noPolicies (plainCall 5), .purge plainPurge 6] s' := by
      refine ⟨_, .cons ?_ rfl (.cons ?_ rfl (.nil _))⟩
      · intro m hm
        cases hm
      · intro m hm hpurged
        exact trivial
    obtain ⟨s', hrun⟩ := hrun
    exact ⟨s', hrun, hruns none s' _ hempty hrun⟩
  · exact ((hdue none 5 (heldMembership 9)).mpr (by decide)).1

/-- An override brings a purged membership back without ending the purge. A membership held
active past its own expiry is expired by the worker and made active by the next import. -/
theorem membership_inconsistent :
    (∃ s', Run (membershipStep 1 ⟨⟨1, "ip"⟩, 1⟩) (fun _ _ => True) none
        [.importCall noPolicies (plainCall 5), .purge plainPurge 6,
          .setOverride ⟨some .active, none⟩ 7] s' ∧ ¬ Consistent s') ∧
      (computedRow none 9 (heldMembership 9) = heldMembership 9 ∧
        (expireDue 9 (heldMembership 9)).status = .expired ∧
        (importKnown none (plainCall 9) (expireDue 9 (heldMembership 9))).membership.status =
          .active) := by
  constructor
  · have hpurged : ((Run.exec (membershipStep 1 ⟨⟨1, "ip"⟩, 1⟩) (fun _ _ => True) none
        [.importCall noPolicies (plainCall 5), .purge plainPurge 6,
          .setOverride ⟨some .active, none⟩ 7]).bind fun s' =>
            s'.map fun m => (m.status, m.purgedAt)) = some (.active, some 6) := by decide
    obtain ⟨s', hexec, hmap⟩ := bind_eq_some_iff.mp hpurged
    obtain ⟨m, rfl, hvalues⟩ := map_eq_some_iff.mp hmap
    simp only [Prod.mk.injEq] at hvalues
    refine ⟨some m, .of_exec hexec, ?_⟩
    intro hconsistent
    rw [hconsistent m rfl hvalues.1] at hvalues
    cases hvalues.2
  · exact ⟨by decide, by decide, by decide⟩

end TalonHound.IocExpiration
