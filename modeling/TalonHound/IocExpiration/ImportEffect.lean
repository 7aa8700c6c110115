import TalonHound.IocExpiration.Import

/-!
# The effect of an import

An import that touches a membership ends with the computed fields applied to a row that differs
from the old one in its source times and, unless it has an override, in what a reactivation
resets. An import that does not touch it adopts at most a fingerprint.
-/

namespace TalonHound.IocExpiration

section Apply

variable {policy : Option FeedPolicy} {now : ℤ} {m : Membership}

/-- The stored fields are those that the policy gives at `now`, as the code compares them. -/
def Agrees (policy : Option FeedPolicy) (now : ℤ) (m : Membership) : Prop :=
  membershipComputedFieldsUnchanged m (computeMembershipFieldPatch m policy now) = true

/-- The computed fields, applied to a row. -/
def computedRow (policy : Option FeedPolicy) (now : ℤ) (m : Membership) : Membership :=
  (applyMembershipComputedFields policy now m m).1

theorem computedRow_of_agrees (h : Agrees policy now m) : computedRow policy now m = m := by
  unfold Agrees at h
  simp [computedRow, applyMembershipComputedFields, h]

theorem computedRow_of_not_agrees (h : ¬ Agrees policy now m) :
    computedRow policy now m = m.withPatch (computeMembershipFieldPatch m policy now) := by
  unfold Agrees at h
  simp [computedRow, applyMembershipComputedFields, h]

/-- A second date of expiry changes nothing. -/
theorem expiredAt_again :
    (if (computeMembershipFieldPatch m policy now).status = .expired then
        (computeMembershipFieldPatch m policy now).expiredAt <|> some now
      else none) = (computeMembershipFieldPatch m policy now).expiredAt := by
  have hdate : (computeMembershipFieldPatch m policy now).expiredAt =
      if (computeMembershipFieldPatch m policy now).status = .expired then
        m.expiredAt <|> some now
      else none := rfl
  rw [hdate]
  split
  · cases m.expiredAt <;> rfl
  · rfl

/-- The computed fields of a row that has them are the same. -/
theorem computeMembershipFieldPatch_withPatch :
    computeMembershipFieldPatch (m.withPatch (computeMembershipFieldPatch m policy now)) policy now =
      computeMembershipFieldPatch m policy now := by
  have hsame : computeMembershipFieldPatch
      (m.withPatch (computeMembershipFieldPatch m policy now)) policy now =
        { computeMembershipFieldPatch m policy now with
          expiredAt := if (computeMembershipFieldPatch m policy now).status = .expired then
              (computeMembershipFieldPatch m policy now).expiredAt <|> some now
            else none } := rfl
  rw [hsame, expiredAt_again]

/-- After the application the fields agree. -/
theorem agrees_computedRow : Agrees policy now (computedRow policy now m) := by
  by_cases h : Agrees policy now m
  · rwa [computedRow_of_agrees h]
  · rw [computedRow_of_not_agrees h, Agrees, computeMembershipFieldPatch_withPatch]
    simp [membershipComputedFieldsUnchanged, Membership.withPatch]

/-- Fields that agree have the computed status. -/
theorem Agrees.status_eq (h : Agrees policy now m) :
    m.status = (computeMembershipFieldPatch m policy now).status := by
  exact (of_decide_eq_true h).2.2.1

/-- The columns that no application of the computed fields writes. -/
structure SameBasis (m m' : Membership) : Prop where
  id : m'.id = m.id
  key : m'.key = m.key
  overrideEnabled : m'.overrideEnabled = m.overrideEnabled
  overrideStatus : m'.overrideStatus = m.overrideStatus
  overrideExpiresAt : m'.overrideExpiresAt = m.overrideExpiresAt
  purgedAt : m'.purgedAt = m.purgedAt

theorem SameBasis.refl (m : Membership) : SameBasis m m := ⟨rfl, rfl, rfl, rfl, rfl, rfl⟩

theorem SameBasis.trans {m₁ m₂ m₃ : Membership} (h₁ : SameBasis m₁ m₂) (h₂ : SameBasis m₂ m₃) :
    SameBasis m₁ m₃ :=
  ⟨h₂.id.trans h₁.id, h₂.key.trans h₁.key, h₂.overrideEnabled.trans h₁.overrideEnabled,
    h₂.overrideStatus.trans h₁.overrideStatus, h₂.overrideExpiresAt.trans h₁.overrideExpiresAt,
    h₂.purgedAt.trans h₁.purgedAt⟩

theorem sameBasis_computedRow : SameBasis m (computedRow policy now m) := by
  by_cases h : Agrees policy now m
  · rw [computedRow_of_agrees h]
    exact SameBasis.refl m
  · rw [computedRow_of_not_agrees h]
    exact ⟨rfl, rfl, rfl, rfl, rfl, rfl⟩

end Apply

section State

variable {policy : Option FeedPolicy} {c : ImportCall} {m : Membership} {st : ImportState}

/-- The row in hand is the stored one, or the computed fields were applied to it since. -/
def Coupled (policy : Option FeedPolicy) (now : ℤ) (st : ImportState) : Prop :=
  st.stored = st.row ∨ st.stored = computedRow policy now st.row

/-- Applying the computed fields of the row in hand to the stored row. -/
theorem applyComputed_stored {now : ℤ} (h : Coupled policy now st) :
    (st.applyComputed policy now).stored = computedRow policy now st.row := by
  by_cases hagrees : Agrees policy now st.row
  · have hsame : (st.applyComputed policy now).stored = st.stored := by
      unfold Agrees at hagrees
      simp [ImportState.applyComputed, applyMembershipComputedFields, hagrees]
    rw [hsame, computedRow_of_agrees hagrees]
    rcases h with h | h
    · exact h
    · rwa [computedRow_of_agrees hagrees] at h
  · have hpatch : (st.applyComputed policy now).stored =
        st.stored.withPatch (computeMembershipFieldPatch st.row policy now) := by
      unfold Agrees at hagrees
      simp [ImportState.applyComputed, applyMembershipComputedFields, hagrees]
    rw [hpatch, computedRow_of_not_agrees hagrees]
    rcases h with h | h
    · rw [h]
    · rw [h, computedRow_of_not_agrees hagrees]
      rfl

/-- An untouched state after the application has not changed. -/
theorem applyComputed_untouched {now : ℤ} (h : (st.applyComputed policy now).touched = false) :
    st.touched = false ∧ (st.applyComputed policy now).stored = st.stored := by
  unfold ImportState.applyComputed applyMembershipComputedFields at h ⊢
  dsimp only at h ⊢
  split at h
  · next hagrees =>
    rw [if_pos hagrees]
    exact ⟨by simpa using h, rfl⟩
  · next hagrees =>
    rw [if_neg hagrees]
    simpa using h

/-- The state before the last update. -/
structure BeforeReimport (policy : Option FeedPolicy) (c : ImportCall) (m : Membership)
    (st : ImportState) : Prop where
  coupled : Coupled policy c.seenAt st
  basis_row : SameBasis m st.row
  basis_stored : SameBasis m st.stored
  untouched : st.touched = false → st.row = m ∧ st.stored = m

theorem beforeReimport_spec (policy : Option FeedPolicy) (c : ImportCall) (m : Membership) :
    BeforeReimport policy c m (beforeReimport policy c m) := by
  have hlowered : BeforeReimport policy c m (lowerFirstSeen policy c m) := by
    unfold lowerFirstSeen
    split
    · have hsame : SameBasis m { m with firstSeenInFeed := c.firstNow } := ⟨rfl, rfl, rfl, rfl, rfl, rfl⟩
      have hcoupled : Coupled policy c.seenAt ⟨{ m with firstSeenInFeed := c.firstNow },
          { m with firstSeenInFeed := c.firstNow }, true, .unchanged⟩ := .inl rfl
      have hstored := applyComputed_stored hcoupled
      refine ⟨.inr hstored, hsame, ?_, ?_⟩
      · rw [hstored]
        exact hsame.trans sameBasis_computedRow
      · intro h
        simp [ImportState.applyComputed] at h
    · exact ⟨.inl rfl, SameBasis.refl m, SameBasis.refl m, fun _ => ⟨rfl, rfl⟩⟩
  unfold beforeReimport observeSource
  split
  · exact hlowered
  · next observed _ =>
    split
    · have hsame : SameBasis m
          { (lowerFirstSeen policy c m).stored with
            lastSeenInFeed := max (lowerFirstSeen policy c m).stored.lastSeenInFeed observed } :=
        hlowered.basis_stored.trans ⟨rfl, rfl, rfl, rfl, rfl, rfl⟩
      exact ⟨.inl rfl, hsame, hsame, nofun⟩
    · exact hlowered

end State

section Effect

variable {policy : Option FeedPolicy} {c : ImportCall} {m : Membership} {st : ImportState}

/-- The row whose computed fields a touching import applies. -/
structure ReimportedRow (m row : Membership) : Prop where
  id : row.id = m.id
  key : row.key = m.key
  overrideEnabled : row.overrideEnabled = m.overrideEnabled
  overrideStatus : row.overrideStatus = m.overrideStatus
  overrideExpiresAt : row.overrideExpiresAt = m.overrideExpiresAt
  purgedAt : row.purgedAt = if m.overrideEnabled then m.purgedAt else none

/-- An import leaves the membership as it was, up to the adoption of a fingerprint, or applies
the computed fields to a row of its own. -/
inductive ImportEffect (policy : Option FeedPolicy) (c : ImportCall) (m : Membership)
    (result : ImportResult) : Prop
  | untouched (fingerprint : Option String)
      (hmembership : result.membership = { m with contentFingerprint := fingerprint }) :
      ImportEffect policy c m result
  | computed (row : Membership) (level : Option String) (htouched : result.touched = true)
      (hrow : ReimportedRow m row)
      (hmembership : result.membership =
        { computedRow policy c.seenAt row with explicitConfidence := level }) :
      ImportEffect policy c m result

/-- A row that only differs in its fields of the source. -/
theorem SameBasis.reimportedRow {row : Membership} (h : SameBasis m row)
    (hpurged : m.overrideEnabled = false → m.purgedAt = none) : ReimportedRow m row := by
  refine ⟨h.id, h.key, h.overrideEnabled, h.overrideStatus, h.overrideExpiresAt, ?_⟩
  rw [h.purgedAt]
  split
  · rfl
  · next hoverride => exact hpurged (by simpa using hoverride)

/-- What the end of the call stores. -/
theorem finishImport_membership (reactivated : Bool) (hcoupled : Coupled policy c.seenAt st) :
    ∃ level, (finishImport policy c reactivated st).membership =
      { computedRow policy c.seenAt st.row with explicitConfidence := level } := by
  have hstored := applyComputed_stored hcoupled
  unfold finishImport writeExplicitConfidence
  split
  · exact ⟨_, by rw [← hstored]⟩
  · split
    · exact ⟨_, by rw [← hstored]⟩
    · exact ⟨_, by rw [← hstored]⟩

/-- What a first import stores. -/
theorem importNew_membership (policy : Option FeedPolicy) (c : ImportCall) (id : ℕ)
    (key : MembershipKey) : ∃ level, (importNew policy c id key).membership =
      { computedRow policy c.seenAt (insertedMembership id key c) with
        explicitConfidence := level } :=
  finishImport_membership false (.inl rfl)

/-- The end of the call, on an untouched or a touched row. -/
theorem finishImport_effect (reactivated : Bool) (hcoupled : Coupled policy c.seenAt st)
    (huntouched : st.touched = false → st.row = m ∧ st.stored = m)
    (hrow : ReimportedRow m st.row) :
    ImportEffect policy c m (finishImport policy c reactivated st) := by
  cases htouched : (finishImport policy c reactivated st).touched with
  | false =>
    apply ImportEffect.untouched m.contentFingerprint
    have hnot : ((st.applyComputed policy c.seenAt).touched = false) ∧
        writeExplicitConfidence c (st.applyComputed policy c.seenAt) =
          st.applyComputed policy c.seenAt := by
      unfold finishImport writeExplicitConfidence at htouched
      unfold writeExplicitConfidence
      split at htouched
      · exact ⟨htouched, rfl⟩
      · split at htouched
        · next hsame => exact ⟨htouched, by rw [if_pos hsame]⟩
        · cases htouched
    obtain ⟨hbefore, hsame⟩ := applyComputed_untouched hnot.1
    have hm := (huntouched hbefore).2
    unfold finishImport
    dsimp only
    rw [hnot.2, hsame, hm]
  | true =>
    obtain ⟨level, hmembership⟩ := finishImport_membership reactivated hcoupled
    exact .computed st.row level htouched hrow hmembership

/-- The end of a call on a healthy membership. -/
theorem finishHealthyNoop_effect (outcome : ImportOutcome)
    (hcoupled : Coupled policy c.seenAt st) (hrow : ReimportedRow m st.row)
    (huntouched : st.touched = false →
      ∃ fingerprint, st.stored = { m with contentFingerprint := fingerprint }) :
    ImportEffect policy c m (finishHealthyNoop policy c outcome st) := by
  cases htouched : st.touched with
  | false =>
    obtain ⟨fingerprint, hstored⟩ := huntouched htouched
    apply ImportEffect.untouched fingerprint
    simp [finishHealthyNoop, htouched, hstored]
  | true =>
    apply ImportEffect.computed st.row (computedRow policy c.seenAt st.row).explicitConfidence _
      hrow
    · simp only [finishHealthyNoop, htouched, if_true]
      rw [applyComputed_stored hcoupled]
    · simp [finishHealthyNoop, htouched, ImportState.applyComputed]

/-- The exits of a call on a healthy membership. -/
theorem healthyExit_effect {result : ImportResult} (h : healthyExit policy c m = some result) :
    ImportEffect policy c m result := by
  have hbefore := beforeReimport_spec policy c m
  unfold healthyExit at h
  dsimp only at h
  set st := beforeReimport policy c m
  split at h
  · cases h
  · next hhealthy =>
    have hpurged : m.overrideEnabled = false → m.purgedAt = none := by
      intro _
      simp only [Membership.healthyActive, Bool.not_eq_true', decide_eq_false_iff_not,
        not_not] at hhealthy
      exact hhealthy.2.2.2
    have hrow := hbefore.basis_row.reimportedRow hpurged
    have hsame : st.touched = false →
        ∃ fingerprint, st.stored = { m with contentFingerprint := fingerprint } :=
      fun htouched => ⟨m.contentFingerprint, (hbefore.untouched htouched).2⟩
    split at h
    · cases h
      exact finishHealthyNoop_effect _ hbefore.coupled hrow hsame
    · split at h
      · next fingerprint _ =>
        split at h
        · cases h
          split
          · unfold adoptFingerprint
            split
            · -- the adopted row is the stored one
              apply finishHealthyNoop_effect
              · exact .inl rfl
              · have hadopted : SameBasis m { st.stored with contentFingerprint := some fingerprint } :=
                  hbefore.basis_stored.trans ⟨rfl, rfl, rfl, rfl, rfl, rfl⟩
                exact hadopted.reimportedRow hpurged
              · intro htouched
                exact ⟨some fingerprint, by rw [(hbefore.untouched htouched).2]⟩
            · exact finishHealthyNoop_effect _ hbefore.coupled hrow hsame
          · exact finishHealthyNoop_effect _ hbefore.coupled hrow hsame
        · cases h
      · split at h
        · cases h
          exact finishHealthyNoop_effect _ hbefore.coupled hrow hsame
        · cases h

/-- The effect of an import on a known membership. -/
theorem importKnown_effect (policy : Option FeedPolicy) (c : ImportCall) (m : Membership) :
    ImportEffect policy c m (importKnown policy c m) := by
  have hbefore := beforeReimport_spec policy c m
  unfold importKnown
  cases hexit : healthyExit policy c m with
  | some result => exact healthyExit_effect hexit
  | none =>
    unfold reimport
    set st := beforeReimport policy c m
    dsimp only
    split
    · apply finishImport_effect _ (.inl rfl)
      · intro h
        cases h
      have hbasis := hbefore.basis_stored
      have hoverride : st.row.overrideEnabled = m.overrideEnabled := hbefore.basis_row.overrideEnabled
      cases henabled : m.overrideEnabled with
      | true =>
        rw [hoverride, henabled]
        refine ⟨hbasis.id, hbasis.key, hbasis.overrideEnabled, hbasis.overrideStatus,
          hbasis.overrideExpiresAt, ?_⟩
        rw [henabled, if_pos rfl]
        exact hbasis.purgedAt
      | false =>
        rw [hoverride, henabled]
        refine ⟨hbasis.id, hbasis.key, hbasis.overrideEnabled, hbasis.overrideStatus,
          hbasis.overrideExpiresAt, ?_⟩
        rw [henabled, if_neg Bool.false_ne_true]
        rfl
    · next hwhere =>
      apply finishImport_effect _ hbefore.coupled hbefore.untouched
      apply hbefore.basis_row.reimportedRow
      intro henabled
      have hoverride : st.row.overrideEnabled = false :=
        hbefore.basis_row.overrideEnabled.trans henabled
      rw [hoverride] at hwhere
      simp only [reimportWhere, Bool.not_false, Bool.true_and, Bool.or_eq_true, not_or,
        Bool.not_eq_true, Option.isSome_eq_false_iff, Option.isNone_iff_eq_none] at hwhere
      rw [← hbefore.basis_stored.purgedAt]
      simpa using hwhere.2.1.1.1.2

end Effect

end TalonHound.IocExpiration
