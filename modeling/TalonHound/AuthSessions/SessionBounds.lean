import TalonHound.AuthSessions.Rotation

/-!
# Sessions keep their bounds

What the answer of a refresh does, what every other step does, and what runs keep by that: a
session that is over stays over, and each secret rotates at most once.
-/

namespace TalonHound.AuthSessions

open Bool List

variable {hashSecret : String → String} {config : SessionConfig} {s s' : SessionState}
  {row : SessionRow} {user : UserRow} {a : SessionAction}
  {path method nextSecret rawRefresh sessionId secret : String}
  {userId authVersion absolute now t v : ℤ} {n i : ℕ} {call : RefreshCall}

/-- The gate lets a token through only with the user's version and a living session. -/
theorem gate_succeeds {token : AccessToken} {number : ℕ}
    (h : (Event.gate number (token.request path method)
      (s.gate (token.request path method) now)).succeeded = true) :
    token.authVersion = s.user.authVersion ∧ ∃ row, s.row = some row ∧ ¬ row.DeadAt now := by
  unfold Event.succeeded at h
  rw [and_eq_true, not_eq_true', decide_eq_true_iff] at h
  obtain ⟨hexempt, hnext⟩ := h
  unfold SessionState.gate authVersionGate at hnext
  rw [if_neg (by rw [hexempt]; exact false_ne_true)] at hnext
  unfold AccessToken.request at hnext
  have hbearer : decide ("cookie" = "bearer") = false := by decide
  simp only [hbearer, decide_true, Bool.true_and, Bool.false_and, if_true, Bool.false_eq_true,
    if_false] at hnext
  split at hnext
  · cases hnext
  · split at hnext
    · cases hnext
    · next u huser =>
      split at hnext
      · cases hnext
      · split at hnext
        · cases hnext
        · next hversion =>
          split at hnext
          · cases hnext
          · next row hrow =>
            obtain ⟨sid, -, hfilter⟩ := Option.bind_eq_some_iff.mp hrow
            split at hnext
            · cases hnext
            · next hrevoked =>
              split at hnext
              · cases hnext
              · next habsolute =>
                split at hnext
                · cases hnext
                · next hidle =>
                  have hu : s.user = u := by
                    split at huser
                    · exact Option.some.inj huser
                    · cases huser
                  subst hu
                  refine ⟨(not_not.mp hversion).symm, row, (Option.filter_eq_some_iff.mp hfilter).1, ?_⟩
                  rintro (hdead | hdead | hdead)
                  · exact hrevoked hdead
                  · exact habsolute hdead
                  · exact hidle hdead

/-- What every step does but the answer of a refresh. -/
structure Unlocked (s s' : SessionState) : Prop where
  chain : s'.chain = s.chain
  tokens : s'.tokens = s.tokens
  userId : s'.user.id = s.user.id
  version : s.user.authVersion ≤ s'.user.authVersion
  clock : s.clock ≤ s'.clock
  began : s.began ≤ s'.began
  row : ∀ row', s'.row = some row' → ∃ row, s.row = some row ∧ row.Kept row' ∧
    ∀ t ≤ s'.clock, row.DeadAt t → row'.DeadAt t
  calls : ∀ call ∈ s'.calls, call ∈ s.calls ∨
    (call.number = s.began ∧ call.now = s'.clock ∧ call.user = s.user ∧ s.began < s'.began)
  rotated : s'.events.filterMap Event.rotatedSecret = s.events.filterMap Event.rotatedSecret
  events : ∀ e ∈ s'.events, e ∈ s.events ∨
    (e.number = s.began ∧ s.began < s'.began ∧ (∀ r, e ≠ .refresh r) ∧
      (e.succeeded = true → ∃ row, s.row = some row ∧ ¬ row.DeadAt s'.clock) ∧
      (e.succeeded = true → e.isTouch = false →
        ∃ token ∈ s.tokens, token.authVersion = s.user.authVersion))

/-- Steps that answer no request. -/
theorem Unlocked.of_silent (hchain : s'.chain = s.chain) (htokens : s'.tokens = s.tokens)
    (huserId : s'.user.id = s.user.id) (hversion : s.user.authVersion ≤ s'.user.authVersion)
    (hclock : s.clock ≤ s'.clock) (hbegan : s'.began = s.began) (hcalls : s'.calls = s.calls)
    (hevents : s'.events = s.events)
    (hrow : ∀ row', s'.row = some row' → ∃ row reason now, s.row = some row ∧
      (row' = row ∨ row' = row.revoke reason now)) : Unlocked s s' where
  chain := hchain
  tokens := htokens
  userId := huserId
  version := hversion
  clock := hclock
  began := hbegan.ge
  row := by
    intro row' hrow'
    obtain ⟨row, reason, now, hold, rfl | rfl⟩ := hrow row' hrow'
    · exact ⟨row', hold, .refl row', fun _ _ h => h⟩
    · exact ⟨row, hold, SessionRow.revoke_kept, fun _ _ _ => SessionRow.deadAt_revoke⟩
  calls := by
    intro call hcall
    rw [hcalls] at hcall
    exact .inl hcall
  rotated := by rw [hevents]
  events := by
    intro e he
    rw [hevents] at he
    exact .inl he

theorem sessionStep_unlocked (hguard : InOrder hashSecret s a)
    (hstep : sessionStep hashSecret config s a = some s') :
    Unlocked s s' ∨ ∃ i nextSecret call, a = .lock i nextSecret ∧ s.calls[i]? = some call ∧
      s.answer hashSecret config i call nextSecret = s' := by
  cases a with
  | lock i nextSecret =>
    obtain ⟨call, hcall, rfl⟩ := Option.map_eq_some_iff.mp hstep
    exact .inr ⟨i, nextSecret, call, rfl, hcall, rfl⟩
  | refresh rawRefresh now =>
    cases hstep
    refine .inl ⟨rfl, rfl, rfl, le_refl _, hguard.1 now rfl, Nat.le_succ _, fun row hrow => ?_,
      fun call hcall => ?_, rfl, fun e he => .inl he⟩
    · exact ⟨row, hrow, .refl row, fun _ _ h => h⟩
    · rcases mem_cons.mp hcall with rfl | hold
      · exact .inr ⟨rfl, rfl, rfl, Nat.lt_succ_self _⟩
      · exact .inl hold
  | touchActivity sessionId now =>
    cases hstep
    have hclock := hguard.1 now rfl
    rcases touchActivity_cases config s.row sessionId now with
      hnot | ⟨row, hrow, hliving, hkept, htouched⟩
    · refine .inl ⟨rfl, rfl, rfl, le_refl _, hclock, Nat.le_succ _, fun row hrow => ?_,
        fun call hcall => .inl hcall, rfl, fun e he => ?_⟩
      · dsimp only at hrow
        rw [hnot] at hrow
        exact ⟨row, hrow, .refl row, fun _ _ h => h⟩
      · rcases mem_cons.mp he with rfl | hold
        · rw [hnot]
          refine .inr ⟨rfl, Nat.lt_succ_self _, (fun r h => by cases h), (fun h => by cases h), ?_⟩
          intro h
          cases h
        · exact .inl hold
    · refine .inl ⟨rfl, rfl, rfl, le_refl _, hclock, Nat.le_succ _, fun row' hrow' => ?_,
        fun call hcall => .inl hcall, rfl, fun e he => ?_⟩
      · dsimp only at hrow'
        rw [htouched] at hrow'
        cases hrow'
        exact ⟨row, hrow, hkept, fun t ht hdead => absurd (hdead.mono ht) hliving⟩
      · rcases mem_cons.mp he with rfl | hold
        · refine .inr ⟨rfl, Nat.lt_succ_self _, (fun r h => by cases h), ?_, ?_⟩
          · exact fun _ => ⟨row, hrow, hliving⟩
          · nofun
        · exact .inl hold
  | gate path method i now =>
    obtain ⟨token, htoken, rfl⟩ := Option.map_eq_some_iff.mp hstep
    refine .inl ⟨rfl, rfl, rfl, le_refl _, hguard.1 now rfl, Nat.le_succ _, fun row hrow => ?_,
      fun call hcall => .inl hcall, rfl, fun e he => ?_⟩
    · exact ⟨row, hrow, .refl row, fun _ _ h => h⟩
    · rcases mem_cons.mp he with rfl | hold
      · refine .inr ⟨rfl, Nat.lt_succ_self _, (fun r h => by cases h), fun h => ?_, fun h _ => ?_⟩
        · exact (gate_succeeds h).2
        · exact ⟨token, mem_of_getElem? htoken, (gate_succeeds h).1⟩
      · exact .inl hold
  | revokeSession sessionId reason now | revokeAllForUser userId reason now =>
    cases hstep
    refine .inl (.of_silent rfl rfl rfl (le_refl _) (hguard.1 now rfl) rfl rfl rfl ?_)
    intro row' hrow'
    obtain ⟨row, hrow, hcases⟩ := revoke_cases hrow'
    exact ⟨row, reason, now, hrow, hcases⟩
  | bumpAuthVersion userId =>
    cases hstep
    refine .inl (.of_silent rfl rfl ?_ ?_ (le_refl _) rfl rfl rfl
      fun row hrow => ⟨row, "", 0, hrow, .inl rfl⟩)
    · dsimp only
      split <;> rfl
    · dsimp only
      split
      · dsimp only
        omega
      · exact le_refl _
  | setStatus status =>
    cases hstep
    exact .inl (.of_silent rfl rfl rfl (le_refl _) (le_refl _) rfl rfl rfl
      fun row hrow => ⟨row, "", 0, hrow, .inl rfl⟩)
  | cleanupSessions batched now =>
    cases hstep
    refine .inl (.of_silent rfl rfl rfl (le_refl _) (hguard.1 now rfl) rfl rfl rfl ?_)
    intro row hrow
    refine ⟨row, "", 0, ?_, .inl rfl⟩
    split at hrow
    · exact cleanupSessions_eq_some hrow
    · exact hrow

/-- What the answer of a refresh does. -/
inductive Answered (hashSecret : String → String) (config : SessionConfig)
    (before : Option SessionRow) (call : RefreshCall) (nextSecret : String) :
    Option SessionRow → RotateResult → Prop where
  | refused (reason : String) :
    Answered hashSecret config before call nextSecret before (.refused reason)
  | revoked (row : SessionRow) (hbefore : before = some row) (reason refusal : String) :
    Answered hashSecret config before call nextSecret (some (row.revoke reason call.now))
      (.refused refusal)
  | kept (row : SessionRow) (hbefore : before = some row) (hliving : ¬ row.DeadAt call.now)
    (hversion : call.user.authVersion = row.authVersionAtIssue) :
    Answered hashSecret config before call nextSecret before (.kept call.user.authVersion)
  | rotated (row : SessionRow) (hbefore : before = some row) (hliving : ¬ row.DeadAt call.now)
    (hversion : call.user.authVersion = row.authVersionAtIssue) (secret : String)
    (hparse : parseRefreshToken call.rawRefresh = some (row.sessionId, secret))
    (hcurrent : hashSecret secret = row.refreshTokenHash) :
    Answered hashSecret config before call nextSecret
      (some { row with
        prevRefreshTokenHash := some row.refreshTokenHash
        refreshTokenHash := hashSecret nextSecret
        rotatedAt := some call.now }) (.rotated nextSecret call.user.authVersion)

theorem rotateRefresh_answered {before after : Option SessionRow} {result : RotateResult}
    (h : (after, result) = rotateRefresh hashSecret config before call.user call.rawRefresh
      nextSecret call.now) : Answered hashSecret config before call nextSecret after result := by
  rcases rotateRefresh_cases h with
    ⟨rfl, ⟨reason, rfl⟩, -⟩ | ⟨row, secret, after', hbefore, rfl, hparse, hlocked⟩
  · exact .refused reason
  · have hcases := rotateLocked_cases hlocked
    cases hcases with
    | revoked hrevoked =>
      rw [← hbefore]
      exact .refused _
    | revokes reason refusal => exact .revoked row hbefore reason refusal
    | kept hliving hversion hgrace =>
      rw [← hbefore]
      exact .kept row hbefore hliving hversion
    | rotated hliving hversion hcurrent =>
      exact .rotated row hbefore hliving hversion secret hparse hcurrent

/-- A refresh is granted only to a living session of the user's version. -/
theorem Answered.ok {before after : Option SessionRow} {result : RotateResult}
    (h : Answered hashSecret config before call nextSecret after result) (hok : result.ok = true) :
    ∃ row, before = some row ∧ ¬ row.DeadAt call.now ∧
      call.user.authVersion = row.authVersionAtIssue := by
  cases h with
  | refused reason => cases hok
  | revoked row hbefore reason refusal => cases hok
  | kept row hbefore hliving hversion => exact ⟨row, hbefore, hliving, hversion⟩
  | rotated row hbefore hliving hversion => exact ⟨row, hbefore, hliving, hversion⟩

/-- The row keeps the version of the issue, and the token that is handed out has it. -/
theorem Answered.version {before after : Option SessionRow} {result : RotateResult}
    (h : Answered hashSecret config before call nextSecret after result)
    (hrow : ∀ row, before = some row → row.authVersionAtIssue = authVersion) :
    (∀ row, after = some row → row.authVersionAtIssue = authVersion) ∧
      ∀ token ∈ result.token after, token.authVersion = authVersion := by
  cases h with
  | refused reason => exact ⟨hrow, forall_mem_nil _⟩
  | revoked row hbefore reason refusal =>
    exact ⟨fun _ hnew => Option.some.inj hnew ▸ hrow row hbefore, forall_mem_nil _⟩
  | kept row hbefore hliving hversion =>
    subst hbefore
    exact ⟨hrow, forall_mem_singleton.mpr (hversion.trans (hrow row rfl))⟩
  | rotated row hbefore hliving hversion =>
    exact ⟨fun _ hnew => Option.some.inj hnew ▸ hrow row hbefore,
      forall_mem_singleton.mpr (hversion.trans (hrow row hbefore))⟩

/-- The row fits the chain, tokens carry the version of the issue, and every secret that rotated
has a successor. -/
structure SessionInv (hashSecret : String → String) (config : SessionConfig) (sessionId : String)
    (userId authVersion absolute : ℤ) (s : SessionState) : Prop where
  row : ∀ row, s.row = some row → row.Fits hashSecret sessionId userId authVersion absolute s.chain
  nodup : (s.chain.map fun m => hashSecret m.secret).Nodup
  tokens : ∀ token ∈ s.tokens, token.authVersion = authVersion
  rotations : (s.events.filterMap Event.rotatedSecret).map hashSecret =
    (s.chain.map fun m => hashSecret m.secret).tail
  refreshes : ∀ r, .refresh r ∈ s.events → ∀ (k : ℕ) (m : Minted), r.chain[k]? = some m →
    parseRefreshToken r.call.rawRefresh = some (sessionId, m.secret) → r.Obeys hashSecret config k
  calls : ∀ call ∈ s.calls, call.number < s.began
  events : ∀ e ∈ s.events, e.number < s.began

namespace SessionInv

theorem created (user : UserRow) :
    SessionInv hashSecret config sessionId user.id authVersion (now + config.absoluteMs)
      (SessionState.created hashSecret config sessionId user authVersion now secret) where
  row := by
    intro row hrow
    cases hrow
    exact ⟨rfl, rfl, rfl, rfl, ⟨secret, now⟩, [], rfl, rfl, rfl, rfl⟩
  nodup := nodup_singleton _
  tokens := by
    intro token htoken
    obtain rfl := mem_singleton.mp htoken
    rfl
  rotations := rfl
  refreshes := fun r hr => absurd hr not_mem_nil
  calls := fun call hcall => absurd hcall not_mem_nil
  events := fun e he => absurd he not_mem_nil

section

variable (h : SessionInv hashSecret config sessionId userId authVersion absolute s)

include h

theorem unlocked (hstep : Unlocked s s') :
    SessionInv hashSecret config sessionId userId authVersion absolute s' where
  row := by
    intro row' hrow'
    obtain ⟨row, hrow, hkept, -⟩ := hstep.row row' hrow'
    rw [hstep.chain]
    exact (h.row row hrow).of_kept hkept
  nodup := by
    rw [hstep.chain]
    exact h.nodup
  tokens := by
    rw [hstep.tokens]
    exact h.tokens
  rotations := by
    rw [hstep.rotated, hstep.chain]
    exact h.rotations
  refreshes := by
    intro r hr
    rcases hstep.events _ hr with hold | ⟨-, -, hnot, -⟩
    · exact h.refreshes r hold
    · exact absurd rfl (hnot r)
  calls := by
    intro call hcall
    have hle := hstep.began
    rcases hstep.calls call hcall with hold | ⟨hnumber, -, -, hlt⟩
    · have := h.calls call hold
      omega
    · omega
  events := by
    intro e he
    have hle := hstep.began
    rcases hstep.events e he with hold | ⟨hnumber, hlt, -⟩
    · have := h.events e hold
      omega
    · omega

theorem answer (hfresh : ∀ m ∈ s.chain, hashSecret m.secret ≠ hashSecret nextSecret)
    (hcall : s.calls[i]? = some call) :
    SessionInv hashSecret config sessionId userId authVersion absolute
      (s.answer hashSecret config i call nextSecret) := by
  unfold SessionState.answer
  generalize hout : rotateRefresh hashSecret config s.row call.user call.rawRefresh nextSecret
    call.now = out
  obtain ⟨after, result⟩ := out
  have hanswered := rotateRefresh_answered hout.symm
  have hcalls : ∀ call' ∈ s.calls.eraseIdx i, call'.number < s.began :=
    fun call' hmem => h.calls call' (mem_of_mem_eraseIdx hmem)
  have hnumber : call.number < s.began := h.calls call (mem_of_getElem? hcall)
  have hevents : ∀ e ∈ Event.refresh ⟨call, s.row, s.chain, after, result⟩ :: s.events,
      e.number < s.began := forall_mem_cons.mpr ⟨hnumber, h.events⟩
  have htokens : ∀ token ∈ result.token after ++ s.tokens, token.authVersion = authVersion := forall_mem_append.mpr
    ⟨(hanswered.version fun row hrow => (h.row row hrow).authVersion).2, h.tokens⟩
  have hrefreshes : ∀ r, .refresh r ∈ Event.refresh ⟨call, s.row, s.chain, after, result⟩ ::
      s.events → ∀ (k : ℕ) (m : Minted), r.chain[k]? = some m →
        parseRefreshToken r.call.rawRefresh = some (sessionId, m.secret) →
          r.Obeys hashSecret config k := by
    intro r hr k m hk hparse
    rcases mem_cons.mp hr with hnew | hold
    · obtain rfl := Event.refresh.inj hnew
      exact Refresh.obeys h.row h.nodup hout.symm hk hparse
    · exact h.refreshes r hold k m hk hparse
  cases hanswered with
  | refused reason | kept row hbefore hliving hversion =>
    exact ⟨h.row, h.nodup, htokens, h.rotations, hrefreshes, hcalls, hevents⟩
  | revoked row hbefore reason refusal =>
    refine ⟨fun row' hrow' => ?_, h.nodup, htokens, h.rotations, hrefreshes, hcalls, hevents⟩
    cases hrow'
    exact (h.row row hbefore).of_kept SessionRow.revoke_kept
  | rotated row hbefore hliving hversion secret hparse hcurrent =>
    have hfits := h.row row hbefore
    obtain ⟨newest, rest, hchain, hhash, -, -⟩ := hfits.history
    refine ⟨fun row' hrow' => ?_, ?_, htokens, ?_, hrefreshes, hcalls, hevents⟩
    · cases hrow'
      refine ⟨hfits.sessionId, hfits.userId, hfits.authVersion, hfits.absolute, _, s.chain, rfl,
        rfl, rfl, ?_⟩
      rw [hchain]
      exact congrArg some hhash
    · refine nodup_cons.mpr ⟨fun hmem => ?_, h.nodup⟩
      obtain ⟨m, hm, hsame⟩ := mem_map.mp hmem
      exact hfresh m hm hsame
    · have hrotated : Event.rotatedSecret (.refresh ⟨call, s.row, s.chain,
          some { row with
            prevRefreshTokenHash := some row.refreshTokenHash
            refreshTokenHash := hashSecret nextSecret
            rotatedAt := some call.now },
          .rotated nextSecret call.user.authVersion⟩) = some secret := by
        unfold Event.rotatedSecret
        dsimp only
        rw [hparse]
        rfl
      rw [filterMap_cons_some hrotated, map_cons, h.rotations, hcurrent, hhash, hchain]
      rfl

theorem step (hguard : InOrder hashSecret s a) (hstep : sessionStep hashSecret config s a = some s')
    : SessionInv hashSecret config sessionId userId authVersion absolute s' := by
  rcases sessionStep_unlocked hguard hstep with hother | ⟨i, nextSecret, call, rfl, hcall, rfl⟩
  · exact h.unlocked hother
  · exact h.answer hguard.2 hcall

end

end SessionInv

/-- Since a moment at which the session was over, every request that began later fails. -/
structure DeadInv (t : ℤ) (n : ℕ) (s : SessionState) : Prop where
  row : ∀ row, s.row = some row → row.DeadAt t
  clock : t ≤ s.clock
  calls : ∀ call ∈ s.calls, n ≤ call.number → t ≤ call.now
  events : ∀ e ∈ s.events, n ≤ e.number → e.succeeded = false

theorem DeadInv.step (h : DeadInv t n s) (hguard : InOrder hashSecret s a)
    (hstep : sessionStep hashSecret config s a = some s') : DeadInv t n s' := by
  rcases sessionStep_unlocked hguard hstep with hother | ⟨i, nextSecret, call, rfl, hcall, rfl⟩
  · have hclock := hother.clock
    have ht := h.clock
    refine ⟨fun row' hrow' => ?_, by omega, fun call hcall hnumber => ?_, fun e he hnumber => ?_⟩
    · obtain ⟨row, hrow, -, hdead⟩ := hother.row row' hrow'
      exact hdead t (by omega) (h.row row hrow)
    · rcases hother.calls call hcall with hold | ⟨-, hnow, -, -⟩
      · exact h.calls call hold hnumber
      · omega
    · rcases hother.events e he with hold | ⟨-, -, -, hliving, -⟩
      · exact h.events e hold hnumber
      · cases hsucceeded : e.succeeded with
        | false => rfl
        | true =>
          obtain ⟨row, hrow, hnot⟩ := hliving hsucceeded
          exact absurd ((h.row row hrow).mono (by omega)) hnot
  · unfold SessionState.answer
    generalize hout : rotateRefresh hashSecret config s.row call.user call.rawRefresh nextSecret
      call.now = out
    obtain ⟨after, result⟩ := out
    have hanswered := rotateRefresh_answered hout.symm
    refine ⟨?_, h.clock, fun call' hmem => h.calls call' (mem_of_mem_eraseIdx hmem),
      forall_mem_cons.mpr ⟨fun hnumber => eq_false_iff.mpr fun hok => ?_, h.events⟩⟩
    · cases hanswered with
      | refused reason => exact h.row
      | revoked row hbefore => exact fun _ hnew => Option.some.inj hnew ▸ SessionRow.deadAt_revoke
      | kept row hbefore => exact h.row
      | rotated row hbefore => exact fun _ hnew => Option.some.inj hnew ▸ h.row row hbefore
    · obtain ⟨row, hrow, hliving, -⟩ := hanswered.ok hok
      have hlate := h.calls call (mem_of_getElem? hcall) hnumber
      exact hliving ((h.row row hrow).mono hlate)

/-- Since a moment at which the version was newer than the session's, every refresh and every check
that began later fails. -/
structure OutdatedInv (authVersion v : ℤ) (n : ℕ) (s : SessionState) : Prop where
  row : ∀ row, s.row = some row → row.authVersionAtIssue = authVersion
  tokens : ∀ token ∈ s.tokens, token.authVersion = authVersion
  version : v ≤ s.user.authVersion
  calls : ∀ call ∈ s.calls, n ≤ call.number → v ≤ call.user.authVersion
  events : ∀ e ∈ s.events, n ≤ e.number → e.isTouch = false → e.succeeded = false

theorem OutdatedInv.step (h : OutdatedInv authVersion v n s) (hv : authVersion < v)
    (hguard : InOrder hashSecret s a) (hstep : sessionStep hashSecret config s a = some s') :
    OutdatedInv authVersion v n s' := by
  rcases sessionStep_unlocked hguard hstep with hother | ⟨i, nextSecret, call, rfl, hcall, rfl⟩
  · have hversion := hother.version
    have hle := h.version
    refine ⟨fun row' hrow' => ?_, fun token htoken => ?_, by omega, fun call hcall hnumber => ?_,
      fun e he hnumber htouch => ?_⟩
    · obtain ⟨row, hrow, hkept, -⟩ := hother.row row' hrow'
      exact hkept.authVersionAtIssue.trans (h.row row hrow)
    · rw [hother.tokens] at htoken
      exact h.tokens token htoken
    · rcases hother.calls call hcall with hold | ⟨-, -, huser, -⟩
      · exact h.calls call hold hnumber
      · rw [huser]
        exact h.version
    · rcases hother.events e he with hold | ⟨-, -, -, -, hgate⟩
      · exact h.events e hold hnumber htouch
      · cases hsucceeded : e.succeeded with
        | false => rfl
        | true =>
          obtain ⟨token, htoken, hsame⟩ := hgate hsucceeded htouch
          have htokenVersion := h.tokens token htoken
          omega
  · unfold SessionState.answer
    generalize hout : rotateRefresh hashSecret config s.row call.user call.rawRefresh nextSecret
      call.now = out
    obtain ⟨after, result⟩ := out
    have hanswered := rotateRefresh_answered hout.symm
    obtain ⟨hrow, htokens⟩ := hanswered.version h.row
    refine ⟨hrow, forall_mem_append.mpr ⟨htokens, h.tokens⟩, h.version,
      fun call' hmem => h.calls call' (mem_of_mem_eraseIdx hmem),
      forall_mem_cons.mpr ⟨fun hnumber _ => eq_false_iff.mpr fun hok => ?_, h.events⟩⟩
    obtain ⟨row, hrow, -, hversion⟩ := hanswered.ok hok
    have hissue := h.row row hrow
    have hlater := h.calls call (mem_of_getElem? hcall) hnumber
    omega

/-- What holds of a session in a state, and of every run that goes on from there. -/
structure Bounded (hashSecret : String → String) (config : SessionConfig) (sessionId : String)
    (absolute : ℤ) (s : SessionState) : Prop where
  absolute : ∀ row, s.row = some row → row.absoluteExpiresAt = absolute
  /-- One secret is current: the newest. -/
  current : ∀ row, s.row = some row → ∀ (k : ℕ) (m : Minted), s.chain[k]? = some m →
    (hashSecret m.secret = row.refreshTokenHash ↔ k = 0)
  refreshes : ∀ r, .refresh r ∈ s.events → ∀ (k : ℕ) (m : Minted), r.chain[k]? = some m →
    parseRefreshToken r.call.rawRefresh = some (sessionId, m.secret) → r.Obeys hashSecret config k
  /-- No secret rotates twice. -/
  once : (s.events.filterMap Event.rotatedSecret).Nodup
  dead : s.Dead → ∀ (later : List SessionAction) (s' : SessionState),
    Run (sessionStep hashSecret config) (InOrder hashSecret) s later s' →
      ∀ e ∈ s'.events, s.began ≤ e.number → e.succeeded = false
  outdated : s.Outdated → ∀ (later : List SessionAction) (s' : SessionState),
    Run (sessionStep hashSecret config) (InOrder hashSecret) s later s' →
      ∀ e ∈ s'.events, s.began ≤ e.number → e.isTouch = false → e.succeeded = false

/-- A session keeps its bounds in every run. -/
theorem session_keeps_bounds (hashSecret : String → String) (config : SessionConfig)
    (sessionId : String) (user : UserRow) (authVersion now : ℤ) (secret : String)
    {actions : List SessionAction} {s : SessionState}
    (hrun : Run (sessionStep hashSecret config) (InOrder hashSecret)
      (SessionState.created hashSecret config sessionId user authVersion now secret) actions s) :
    Bounded hashSecret config sessionId (now + config.absoluteMs) s := by
  have hinv : SessionInv hashSecret config sessionId user.id authVersion
      (now + config.absoluteMs) s :=
    Run.invariant (fun _ _ _ h hguard hstep => h.step hguard hstep) hrun (.created user)
  have hbegan : ∀ e ∈ s.events, ¬ s.began ≤ e.number := by
    intro e he hle
    have := hinv.events e he
    omega
  have hwaiting : ∀ call ∈ s.calls, ¬ s.began ≤ call.number := by
    intro call hcall hle
    have := hinv.calls call hcall
    omega
  have hafterDeath : s.Dead → ∀ (later : List SessionAction) (s' : SessionState),
      Run (sessionStep hashSecret config) (InOrder hashSecret) s later s' →
        ∀ e ∈ s'.events, s.began ≤ e.number → e.succeeded = false := by
    intro hdead later s' hlater
    have hover : DeadInv s.clock s.began s' := by
      refine Run.invariant (fun _ _ _ h hguard hstep => h.step hguard hstep) hlater ?_
      exact ⟨hdead, le_refl _, fun call hcall hle => absurd hle (hwaiting call hcall),
        fun e he hle => absurd hle (hbegan e he)⟩
    exact hover.events
  refine ⟨fun row hrow => (hinv.row row hrow).absolute, ?_, hinv.refreshes, ?_, hafterDeath, ?_⟩
  · intro row hrow k m hk
    obtain ⟨newest, rest, hchain, hhash, -, -⟩ := (hinv.row row hrow).history
    have hzero : s.chain[0]? = some newest := by
      rw [hchain]
      rfl
    constructor
    · intro hsame
      refine (getElem?_inj ?_ hinv.nodup).mp ?_
      · rw [List.length_map]
        exact (List.getElem?_eq_some_iff.mp hk).1
      · rw [List.getElem?_map, List.getElem?_map, hk, hzero]
        exact congrArg some (hsame.trans hhash)
    · rintro rfl
      obtain rfl := Option.some.inj (hzero.symm.trans hk)
      exact hhash.symm
  · refine List.Nodup.of_map hashSecret ?_
    rw [hinv.rotations]
    exact hinv.nodup.tail
  · intro houtdated later s' hlater
    cases hrow : s.row with
    | none =>
      intro e he hle _
      refine hafterDeath ?_ later s' hlater e he hle
      intro row hrow'
      rw [hrow] at hrow'
      cases hrow'
    | some row =>
      have hissue := (hinv.row row hrow).authVersion
      have hv := houtdated row hrow
      rw [hissue] at hv
      have hover : OutdatedInv authVersion s.user.authVersion s.began s' := by
        refine Run.invariant (fun _ _ _ h hguard hstep => h.step hv hguard hstep) hlater ?_
        exact ⟨fun row hrow => (hinv.row row hrow).authVersion, hinv.tokens, le_refl _,
          fun call hcall hle => absurd hle (hwaiting call hcall),
          fun e he hle => absurd hle (hbegan e he)⟩
      exact hover.events

/-- Two tabs refresh with one secret; the old secret comes again after the grace time. -/
def twoTabs : List SessionAction :=
  [.refresh "s.a" 1000, .refresh "s.a" 1001, .lock 1 "b", .lock 0 "c", .gate "/api/x" "GET" 1 2000,
    .touchActivity "s" 90000, .refresh "s.a" 90001, .lock 0 "d", .gate "/api/x" "GET" 1 90002]

theorem session_keeps_bounds_twoTabs :
    ∃ s, Run (sessionStep id ⟨3600000, 86400000, 60000, 30000, 7⟩) (InOrder id)
        (SessionState.created id ⟨3600000, 86400000, 60000, 30000, 7⟩ "s" ⟨7, 1, none⟩ 1 0 "a")
        twoTabs s ∧
      s.events.map Event.succeeded = [false, false, true, true, true, true] ∧
      Bounded id ⟨3600000, 86400000, 60000, 30000, 7⟩ "s" (0 + 86400000) s := by
  have hrun : ∃ s, Run (sessionStep id ⟨3600000, 86400000, 60000, 30000, 7⟩) (InOrder id)
        (SessionState.created id ⟨3600000, 86400000, 60000, 30000, 7⟩ "s" ⟨7, 1, none⟩ 1 0 "a")
        twoTabs s ∧
      s.events.map Event.succeeded = [false, false, true, true, true, true] :=
    Run.exists_of_any (by decide)
  obtain ⟨s, hrun, hanswers⟩ := hrun
  exact ⟨s, hrun, hanswers, session_keeps_bounds id _ "s" ⟨7, 1, none⟩ 1 0 "a" hrun⟩

/-- A heartbeat extends a session that was issued under an older version. -/
theorem touch_after_bump :
    ∃ s, Run (sessionStep id ⟨3600000, 86400000, 60000, 30000, 7⟩) (InOrder id)
        (SessionState.created id ⟨3600000, 86400000, 60000, 30000, 7⟩ "s" ⟨7, 1, none⟩ 1 0 "a")
        [.bumpAuthVersion 7] s ∧ s.Outdated ∧
      ∃ s', Run (sessionStep id ⟨3600000, 86400000, 60000, 30000, 7⟩) (InOrder id) s
          [.touchActivity "s" 90000] s' ∧
        ∃ e ∈ s'.events, s.began ≤ e.number ∧ e.succeeded = true := by
  refine ⟨_, Run.of_exec rfl, ?_, _, Run.of_exec rfl, _, mem_cons_self, le_refl _, rfl⟩
  intro row hrow
  cases hrow
  decide

end TalonHound.AuthSessions
