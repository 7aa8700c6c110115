import TalonHound.Library.Run
import TalonHound.IocExpiration.Import
import Mathlib.Order.Bounds.Basic

/-!
# The source times of a membership

`first_seen_in_feed` is a minimum and `last_seen_in_feed` a maximum over the imports.
`last_changed_in_source` is overwritten with the time of the call, whatever it was before, and
nothing orders the two dates of an insertion.
-/

namespace TalonHound.IocExpiration

open Option

/-- The three source times of a row. -/
def Membership.sourceTimes (m : Membership) : ℤ × ℤ × Option ℤ :=
  (m.firstSeenInFeed, m.lastSeenInFeed, m.lastChangedInSource)

section Import

variable {policy : Option FeedPolicy} {c : ImportCall} {m : Membership} {st : ImportState}

/-- The computed fields are no source times. -/
theorem applyComputed_sourceTimes (now : ℤ) :
    (st.applyComputed policy now).stored.sourceTimes = st.stored.sourceTimes := by
  unfold ImportState.applyComputed applyMembershipComputedFields
  dsimp only
  split <;> rfl

theorem finishHealthyNoop_sourceTimes (outcome : ImportOutcome) :
    (finishHealthyNoop policy c outcome st).membership.sourceTimes = st.stored.sourceTimes := by
  unfold finishHealthyNoop
  split
  · exact applyComputed_sourceTimes c.seenAt
  · rfl

theorem finishImport_sourceTimes (reactivated : Bool) :
    (finishImport policy c reactivated st).membership.sourceTimes = st.stored.sourceTimes := by
  unfold finishImport writeExplicitConfidence
  split
  · exact applyComputed_sourceTimes c.seenAt
  · split
    · exact applyComputed_sourceTimes c.seenAt
    · exact applyComputed_sourceTimes c.seenAt

theorem adoptFingerprint_sourceTimes (fingerprint : String) :
    (adoptFingerprint fingerprint st).stored.sourceTimes = st.stored.sourceTimes := by
  unfold adoptFingerprint
  split <;> rfl

/-- The first date after the lowering. -/
def loweredFirstSeen (c : ImportCall) (m : Membership) : ℤ :=
  if lowersFirstSeen c m then c.firstNow else m.firstSeenInFeed

/-- The last date after the observation. -/
def observedLastSeen (c : ImportCall) (m : Membership) : ℤ :=
  c.observedAt.elim m.lastSeenInFeed (max m.lastSeenInFeed)

theorem lowerFirstSeen_sourceTimes (policy : Option FeedPolicy) (c : ImportCall) (m : Membership) :
    (lowerFirstSeen policy c m).stored.sourceTimes =
      (loweredFirstSeen c m, m.lastSeenInFeed, m.lastChangedInSource) := by
  unfold lowerFirstSeen loweredFirstSeen
  split
  · exact applyComputed_sourceTimes c.seenAt
  · rfl

/-- The times before the last update. -/
theorem beforeReimport_sourceTimes (policy : Option FeedPolicy) (c : ImportCall) (m : Membership) :
    (beforeReimport policy c m).stored.sourceTimes =
      (loweredFirstSeen c m, observedLastSeen c m, m.lastChangedInSource) := by
  have hlowered := lowerFirstSeen_sourceTimes policy c m
  unfold Membership.sourceTimes at hlowered
  simp only [Prod.mk.injEq] at hlowered
  obtain ⟨hfirst, hlast, hchanged⟩ := hlowered
  unfold beforeReimport observeSource observedLastSeen
  cases hobserved : c.observedAt with
  | none => simp [Membership.sourceTimes, hfirst, hlast, hchanged]
  | some observed =>
    dsimp only
    rw [hlast]
    split
    · simp [Membership.sourceTimes, hfirst, hchanged]
    · next hlt => simp [Membership.sourceTimes, hfirst, hlast, hchanged, not_lt.mp hlt]

/-- The call reaches the last update and changes the row. -/
def rewrites (policy : Option FeedPolicy) (c : ImportCall) (m : Membership) : Bool :=
  (healthyExit policy c m).isNone && reimportWhere c (beforeReimport policy c m).row.overrideEnabled
      (beforeReimport policy c m).stored

/-- The call writes `last_changed_in_source`. -/
def writesLastChanged (policy : Option FeedPolicy) (c : ImportCall) (m : Membership) : Bool :=
  c.fingerprint.isSome && rewrites policy c m

theorem reimportSet_sourceTimes (overridden : Bool) :
    (reimportSet c overridden m).sourceTimes =
      (m.firstSeenInFeed, max m.lastSeenInFeed c.lastSeenWriteAt,
        if c.fingerprint.isSome then some c.lastSeenWriteAt else m.lastChangedInSource) := by
  cases overridden <;> rfl

/-- An exit for a healthy membership leaves the times as they were before it. -/
theorem healthyExit_sourceTimes {result : ImportResult} (h : healthyExit policy c m = some result) :
    result.membership.sourceTimes = (beforeReimport policy c m).stored.sourceTimes := by
  unfold healthyExit at h
  split at h
  · cases h
  · split at h
    · cases h
      exact finishHealthyNoop_sourceTimes _
    · split at h
      · obtain ⟨-, rfl⟩ := Run.enabled h
        rw [finishHealthyNoop_sourceTimes]
        split
        · exact adoptFingerprint_sourceTimes _
        · rfl
      · obtain ⟨-, rfl⟩ := Run.enabled h
        exact finishHealthyNoop_sourceTimes _

/-- The times after a call on a known membership. -/
theorem importKnown_sourceTimes (policy : Option FeedPolicy) (c : ImportCall) (m : Membership) :
    (importKnown policy c m).membership.sourceTimes =
      (loweredFirstSeen c m,
        if rewrites policy c m then max (observedLastSeen c m) c.lastSeenWriteAt
        else observedLastSeen c m,
        if writesLastChanged policy c m then some c.lastSeenWriteAt else m.lastChangedInSource) := by
  have hbefore := beforeReimport_sourceTimes policy c m
  unfold importKnown writesLastChanged rewrites
  cases hexit : healthyExit policy c m with
  | some result => simp [healthyExit_sourceTimes hexit, hbefore]
  | none =>
    unfold reimport
    by_cases hwhere : reimportWhere c (beforeReimport policy c m).row.overrideEnabled
        (beforeReimport policy c m).stored = true
    · rw [if_pos hwhere, finishImport_sourceTimes, reimportSet_sourceTimes]
      unfold Membership.sourceTimes at hbefore
      simp only [Prod.mk.injEq] at hbefore
      obtain ⟨hfirst, hlast, hchanged⟩ := hbefore
      simp [hwhere, hfirst, hlast, hchanged]
    · rw [if_neg hwhere, finishImport_sourceTimes, hbefore]
      simp [hwhere]

theorem loweredFirstSeen_le (c : ImportCall) (m : Membership) : loweredFirstSeen c m ≤ m.firstSeenInFeed := by
  unfold loweredFirstSeen lowersFirstSeen ImportCall.firstNow
  cases hfirst : c.firstSeenAt with
  | none => simp
  | some incoming =>
    split
    · next hlt => exact (of_decide_eq_true hlt).le
    · exact le_rfl

theorem loweredFirstSeen_of_some {incoming : ℤ} (h : c.firstSeenAt = some incoming) :
    loweredFirstSeen c m = min m.firstSeenInFeed incoming := by
  unfold loweredFirstSeen lowersFirstSeen ImportCall.firstNow
  rw [h, any_some, getD_some]
  by_cases hlt : incoming < m.firstSeenInFeed
  · simp [hlt, hlt.le]
  · simp [hlt, not_lt.mp hlt]

theorem le_observedLastSeen : m.lastSeenInFeed ≤ observedLastSeen c m := by
  unfold observedLastSeen
  cases c.observedAt with
  | none => exact le_rfl
  | some observed => exact le_max_left _ _

end Import

/-- An import call, with the policy that the feed has at the time. -/
structure ImportEvent where
  policy : Option FeedPolicy
  call : ImportCall

/-- One import of the membership `key`, which gets the id `id` when it is new. -/
def importStep (id : ℕ) (key : MembershipKey) (s : Option Membership) (e : ImportEvent) :
    Option (Option Membership) :=
  some (some (upsertMembershipOnImport e.policy e.call id key s).membership)

/-- The dates of a membership are in order. -/
def TimesOrdered (s : Option Membership) : Prop := ∀ m ∈ s, m.firstSeenInFeed ≤ m.lastSeenInFeed

/-- From the first state to the second, no source time moves against its direction. -/
def TimesAdvance (s s' : Option Membership) : Prop :=
  ∀ m ∈ s, ∃ m' ∈ s', m'.firstSeenInFeed ≤ m.firstSeenInFeed ∧
    m.lastSeenInFeed ≤ m'.lastSeenInFeed ∧
    ∀ t ∈ m.lastChangedInSource, ∃ t' ∈ m'.lastChangedInSource, t ≤ t'

/-- The condition on a call: an insertion gets its dates in order, and a call that writes
`last_changed_in_source` is not older than the time stored there. -/
def KeepsTimes (s : Option Membership) (e : ImportEvent) : Prop :=
  match s with
  | none => e.call.firstNow ≤ e.call.lastSeenWriteAt
  | some m => writesLastChanged e.policy e.call m = true →
      ∀ t ∈ m.lastChangedInSource, t ≤ e.call.lastSeenWriteAt

instance (s : Option Membership) (e : ImportEvent) : Decidable (KeepsTimes s e) :=
  match s with
  | none => inferInstanceAs (Decidable (_ ≤ _))
  | some m => decidable_of_iff (writesLastChanged e.policy e.call m = true →
      (m.lastChangedInSource.all fun t => decide (t ≤ e.call.lastSeenWriteAt)) = true) (by
    simp [KeepsTimes, all_eq_true])

section Runs

variable {id : ℕ} {key : MembershipKey} {s s' : Option Membership} {e : ImportEvent}
  {events : List ImportEvent}

theorem TimesAdvance.refl (s : Option Membership) : TimesAdvance s s :=
  fun m hm => ⟨m, hm, le_rfl, le_rfl, fun t ht => ⟨t, ht, le_rfl⟩⟩

theorem TimesAdvance.trans {s₁ s₂ s₃ : Option Membership} (h₁ : TimesAdvance s₁ s₂)
    (h₂ : TimesAdvance s₂ s₃) : TimesAdvance s₁ s₃ := by
  intro m₁ hm₁
  obtain ⟨m₂, hm₂, hfirst₁, hlast₁, hchanged₁⟩ := h₁ m₁ hm₁
  obtain ⟨m₃, hm₃, hfirst₂, hlast₂, hchanged₂⟩ := h₂ m₂ hm₂
  refine ⟨m₃, hm₃, hfirst₂.trans hfirst₁, hlast₁.trans hlast₂, ?_⟩
  intro t₁ ht₁
  obtain ⟨t₂, ht₂, hle₁⟩ := hchanged₁ t₁ ht₁
  obtain ⟨t₃, ht₃, hle₂⟩ := hchanged₂ t₂ ht₂
  exact ⟨t₃, ht₃, hle₁.trans hle₂⟩

/-- The dates of an inserted row. -/
theorem importNew_sourceTimes (policy : Option FeedPolicy) (c : ImportCall) (id : ℕ)
    (key : MembershipKey) :
    (importNew policy c id key).membership.sourceTimes =
      (c.firstNow, c.lastSeenWriteAt,
        if c.fingerprint.isSome then some c.lastSeenWriteAt else none) := by
  unfold importNew
  rw [finishImport_sourceTimes]
  rfl

/-- One call keeps the times advancing and in order exactly under its condition. -/
theorem importStep_times_iff (hs : TimesOrdered s) (hstep : importStep id key s e = some s') :
    TimesAdvance s s' ∧ TimesOrdered s' ↔ KeepsTimes s e := by
  cases hstep
  cases s with
  | none =>
    have htimes := importNew_sourceTimes e.policy e.call id key
    simp only [Membership.sourceTimes, Prod.mk.injEq] at htimes
    simp [TimesAdvance, TimesOrdered, KeepsTimes, upsertMembershipOnImport, htimes.1, htimes.2.1]
  | some m =>
    have htimes := importKnown_sourceTimes e.policy e.call m
    simp only [Membership.sourceTimes, Prod.mk.injEq] at htimes
    obtain ⟨hfirst, hlast, hchanged⟩ := htimes
    have hordered : m.firstSeenInFeed ≤ m.lastSeenInFeed := hs m rfl
    have hlower := loweredFirstSeen_le e.call m
    have hraise : m.lastSeenInFeed ≤ (importKnown e.policy e.call m).membership.lastSeenInFeed := by
      rw [hlast]
      split
      · exact le_max_of_le_left le_observedLastSeen
      · exact le_observedLastSeen
    simp only [TimesAdvance, TimesOrdered, KeepsTimes, upsertMembershipOnImport, mem_def,
      Option.some.injEq, exists_eq_left', forall_eq']
    rw [hfirst, hchanged]
    constructor
    · rintro ⟨⟨-, -, hkeeps⟩, -⟩ hwrites t ht
      obtain ⟨t', ht', hle⟩ := hkeeps t ht
      rw [if_pos hwrites, Option.some.injEq] at ht'
      rwa [ht']
    · intro hkeeps
      refine ⟨⟨hlower, hraise, ?_⟩, by omega⟩
      intro t ht
      by_cases hwrites : writesLastChanged e.policy e.call m = true
      · rw [if_pos hwrites]
        exact ⟨_, rfl, hkeeps hwrites t ht⟩
      · rw [if_neg hwrites]
        exact ⟨t, ht, le_rfl⟩

/-- A run of calls under the condition. -/
theorem importRun_times (hs : TimesOrdered s) (hrun : Run (importStep id key) KeepsTimes s events s') :
    TimesAdvance s s' ∧ TimesOrdered s' := by
  apply hrun.invariant (I := fun s₁ => TimesAdvance s s₁ ∧ TimesOrdered s₁) _
    ⟨TimesAdvance.refl s, hs⟩
  rintro s₁ e s₂ ⟨hadvance, hordered⟩ hkeeps hstep
  obtain ⟨hnext, hordered'⟩ := (importStep_times_iff hordered hstep).mpr hkeeps
  exact ⟨hadvance.trans hnext, hordered'⟩

/-- The first dates of calls. -/
def firstDates (events : List ImportEvent) : Set ℤ :=
  {t | ∃ e ∈ events, e.call.firstSeenAt = some t}

/-- The observations of calls. -/
def observations (events : List ImportEvent) : Set ℤ :=
  {t | ∃ e ∈ events, e.call.observedAt = some t}

/-- Every call carries its observation and its first date. -/
def FullyDated (events : List ImportEvent) : Prop :=
  ∀ e ∈ events, ∃ first observed, e.call.firstSeenAt = some first ∧ e.call.observedAt = some observed

theorem firstDates_cons {first : ℤ} (h : e.call.firstSeenAt = some first) :
    firstDates (e :: events) = insert first (firstDates events) := by
  ext t
  simp [firstDates, h, eq_comm]

theorem observations_cons {observed : ℤ} (h : e.call.observedAt = some observed) :
    observations (e :: events) = insert observed (observations events) := by
  ext t
  simp [observations, h, eq_comm]

/-- A fully dated call on a known membership takes the minimum and the maximum. -/
theorem importKnown_dates (m : Membership) {first observed : ℤ}
    (hfirst : e.call.firstSeenAt = some first) (hobserved : e.call.observedAt = some observed) :
    (importKnown e.policy e.call m).membership.firstSeenInFeed = min m.firstSeenInFeed first ∧
      (importKnown e.policy e.call m).membership.lastSeenInFeed =
        max m.lastSeenInFeed observed := by
  have htimes := importKnown_sourceTimes e.policy e.call m
  simp only [Membership.sourceTimes, Prod.mk.injEq] at htimes
  have hlast : observedLastSeen e.call m = max m.lastSeenInFeed observed := by
    simp [observedLastSeen, hobserved]
  have hwrite : e.call.lastSeenWriteAt = observed := by simp [ImportCall.lastSeenWriteAt, hobserved]
  refine ⟨htimes.1.trans (loweredFirstSeen_of_some hfirst), ?_⟩
  rw [htimes.2.1, hlast, hwrite, max_assoc, max_self, ite_self]

theorem isLeast_insert_min {a b x : ℤ} {dates : Set ℤ} (h : IsLeast (insert (min a b) dates) x) :
    IsLeast (insert a (insert b dates)) x := by
  obtain ⟨hmem, hlower⟩ := h
  have hmin : x ≤ min a b := hlower (Set.mem_insert _ _)
  constructor
  · rcases hmem with rfl | hmem
    · rcases min_choice a b with hmin | hmin
      · exact .inl hmin
      · exact .inr (.inl hmin)
    · exact .inr (.inr hmem)
  · rintro t (rfl | rfl | ht)
    · exact hmin.trans (min_le_left _ _)
    · exact hmin.trans (min_le_right _ _)
    · exact hlower (Set.mem_insert_of_mem _ ht)

theorem isGreatest_insert_max {a b x : ℤ} {dates : Set ℤ}
    (h : IsGreatest (insert (max a b) dates) x) : IsGreatest (insert a (insert b dates)) x := by
  obtain ⟨hmem, hupper⟩ := h
  have hmax : max a b ≤ x := hupper (Set.mem_insert _ _)
  constructor
  · rcases hmem with rfl | hmem
    · rcases max_choice a b with hmax | hmax
      · exact .inl hmax
      · exact .inr (.inl hmax)
    · exact .inr (.inr hmem)
  · rintro t (rfl | rfl | ht)
    · exact (le_max_left _ _).trans hmax
    · exact (le_max_right _ _).trans hmax
    · exact hupper (Set.mem_insert_of_mem _ ht)

/-- Fully dated calls on a known membership end with the least and the greatest date. -/
theorem importRun_dates {m : Membership} (hdated : FullyDated events)
    (hrun : Run (importStep id key) (fun _ _ => True) (some m) events s') :
    ∃ m' ∈ s', IsLeast (insert m.firstSeenInFeed (firstDates events)) m'.firstSeenInFeed ∧
      IsGreatest (insert m.lastSeenInFeed (observations events)) m'.lastSeenInFeed := by
  induction events generalizing m with
  | nil =>
    cases hrun
    refine ⟨m, rfl, ?_, ?_⟩
    · simp [firstDates, isLeast_singleton]
    · simp [observations, isGreatest_singleton]
  | cons e events ih =>
    cases hrun with
    | cons _ hstep hrest =>
      obtain ⟨first, observed, hfirst, hobserved⟩ := hdated e List.mem_cons_self
      cases hstep
      obtain ⟨hmin, hmax⟩ := importKnown_dates m hfirst hobserved
      obtain ⟨m', hm', hleast, hgreatest⟩ :=
        ih (fun e he => hdated e (List.mem_cons_of_mem _ he)) hrest
      refine ⟨m', hm', ?_, ?_⟩
      · rw [firstDates_cons hfirst]
        exact isLeast_insert_min (hmin ▸ hleast)
      · rw [observations_cons hobserved]
        exact isGreatest_insert_max (hmax ▸ hgreatest)

/-- Under the condition no source time of a membership moves against its direction and its
dates stay in order. Whatever the condition, fully dated calls end with the least first date
and the greatest observation among them. -/
theorem upsertMembershipOnImport_sourceTimes (id : ℕ) (key : MembershipKey) :
    (∀ s s' events, TimesOrdered s → Run (importStep id key) KeepsTimes s events s' →
      TimesAdvance s s' ∧ TimesOrdered s') ∧
    (∀ s s' e, TimesOrdered s → importStep id key s e = some s' →
      (TimesAdvance s s' ∧ TimesOrdered s' ↔ KeepsTimes s e)) ∧
    ∀ s' events, events ≠ [] → FullyDated events →
      Run (importStep id key) (fun _ _ => True) none events s' →
        ∃ m' ∈ s', IsLeast (firstDates events) m'.firstSeenInFeed ∧
          IsGreatest (observations events) m'.lastSeenInFeed := by
  refine ⟨fun s s' events => importRun_times, fun s s' e => importStep_times_iff, ?_⟩
  intro s' events hne hdated hrun
  cases hrun with
  | nil => exact absurd rfl hne
  | @cons _ _ _ e events _ hstep hrest =>
    obtain ⟨first, observed, hfirst, hobserved⟩ := hdated e List.mem_cons_self
    cases hstep
    have htimes := importNew_sourceTimes e.policy e.call id key
    simp only [Membership.sourceTimes, Prod.mk.injEq] at htimes
    obtain ⟨m', hm', hleast, hgreatest⟩ :=
      importRun_dates (fun e he => hdated e (List.mem_cons_of_mem _ he)) hrest
    refine ⟨m', hm', ?_, ?_⟩
    · rw [firstDates_cons hfirst]
      simpa only [upsertMembershipOnImport, htimes.1, ImportCall.firstNow, hfirst,
        getD_some] using hleast
    · rw [observations_cons hobserved]
      simpa only [upsertMembershipOnImport, htimes.2.1, ImportCall.lastSeenWriteAt, hobserved,
        getD_some] using hgreatest

end Runs

/-- A call with both dates and a fingerprint. -/
def datedCall (first observed : ℤ) (fingerprint : String) : ImportEvent :=
  ⟨none, ⟨observed, some first, some observed, none, some fingerprint, false⟩⟩

/-- A membership whose source changes its content, and later reports an older date. -/
def twoDatedCalls : List ImportEvent := [datedCall 3 8 "a", datedCall 1 9 "b"]

/-- The theorem on two calls. -/
theorem upsertMembershipOnImport_sourceTimes_twoDatedCalls :
    ∃ s', Run (importStep 1 ⟨⟨1, "ip"⟩, 1⟩) KeepsTimes none twoDatedCalls s' ∧ TimesOrdered s' ∧
      ∃ m' ∈ s', IsLeast {1, 3} m'.firstSeenInFeed ∧ IsGreatest {8, 9} m'.lastSeenInFeed := by
  obtain ⟨hruns, -, hdates⟩ := upsertMembershipOnImport_sourceTimes 1 ⟨⟨1, "ip"⟩, 1⟩
  have hempty : TimesOrdered none := by
    intro m hm
    cases hm
  have hexec : (Run.exec (importStep 1 ⟨⟨1, "ip"⟩, 1⟩) KeepsTimes none twoDatedCalls).isSome =
      true := by decide
  have hexec' : Run.exec (importStep 1 ⟨⟨1, "ip"⟩, 1⟩) (fun _ _ => True) none twoDatedCalls =
      Run.exec (importStep 1 ⟨⟨1, "ip"⟩, 1⟩) KeepsTimes none twoDatedCalls := by decide
  obtain ⟨s', hs'⟩ := isSome_iff_exists.mp hexec
  have hrun := Run.of_exec hs'
  have hdated : FullyDated twoDatedCalls := by
    intro e he
    rcases List.mem_pair.mp he with rfl | rfl
    · exact ⟨3, 8, rfl, rfl⟩
    · exact ⟨1, 9, rfl, rfl⟩
  obtain ⟨m', hm', hleast, hgreatest⟩ :=
    hdates s' twoDatedCalls (List.cons_ne_nil _ _) hdated (Run.of_exec (hexec'.trans hs'))
  refine ⟨s', hrun, (hruns none s' twoDatedCalls hempty hrun).2, m', hm', ?_, ?_⟩
  · have hset : firstDates twoDatedCalls = {1, 3} := by
      ext t
      simp [firstDates, twoDatedCalls, datedCall, eq_comm, or_comm]
    rwa [← hset]
  · have hset : observations twoDatedCalls = {8, 9} := by
      ext t
      simp [observations, twoDatedCalls, datedCall, eq_comm]
    rwa [← hset]

/-- A changed fingerprint with an older observation takes `last_changed_in_source` back. -/
theorem upsertMembershipOnImport_lastChanged_back :
    ∃ s s', Run (importStep 1 ⟨⟨1, "ip"⟩, 1⟩) (fun _ _ => True) none [datedCall 3 8 "a"] s ∧
      importStep 1 ⟨⟨1, "ip"⟩, 1⟩ s (datedCall 3 5 "b") = some s' ∧
        s.map (·.lastChangedInSource) = some (some 8) ∧
          s'.map (·.lastChangedInSource) = some (some 5) := by
  have hpair : ((Run.exec (importStep 1 ⟨⟨1, "ip"⟩, 1⟩) (fun _ _ => True) none
      [datedCall 3 8 "a"]).bind fun s => (importStep 1 ⟨⟨1, "ip"⟩, 1⟩ s (datedCall 3 5 "b")).map
        fun s' => (s.map (·.lastChangedInSource), s'.map (·.lastChangedInSource))) =
      some (some (some 8), some (some 5)) := by decide
  obtain ⟨s, hexec, hmap⟩ := bind_eq_some_iff.mp hpair
  obtain ⟨s', hstep, hvalues⟩ := map_eq_some_iff.mp hmap
  simp only [Prod.mk.injEq] at hvalues
  exact ⟨s, s', .of_exec hexec, hstep, hvalues.1, hvalues.2⟩

end TalonHound.IocExpiration
