import TalonHound.AuthSessions.Session

/-!
# Rotation of refresh secrets

What each request does to the row of a session, and what a refresh with a secret of the chain may
do by the position of the secret.
-/

namespace TalonHound.AuthSessions

variable {hashSecret : String → String} {config : SessionConfig} {row : SessionRow} {user : UserRow}
  {a : SessionAction}
  {presentedHash nextSecret nextHash rawRefresh reason sessionId secret : String}
  {userId authVersion absolute now t : ℤ}

/-- Nothing but the activity, the idle limit and the revocation changed. -/
structure SessionRow.Kept (row row' : SessionRow) : Prop where
  sessionId : row'.sessionId = row.sessionId
  userId : row'.userId = row.userId
  refreshTokenHash : row'.refreshTokenHash = row.refreshTokenHash
  prevRefreshTokenHash : row'.prevRefreshTokenHash = row.prevRefreshTokenHash
  authVersionAtIssue : row'.authVersionAtIssue = row.authVersionAtIssue
  rotatedAt : row'.rotatedAt = row.rotatedAt
  absoluteExpiresAt : row'.absoluteExpiresAt = row.absoluteExpiresAt

theorem SessionRow.Kept.refl (row : SessionRow) : row.Kept row := ⟨rfl, rfl, rfl, rfl, rfl, rfl, rfl⟩

theorem SessionRow.revoke_kept : row.Kept (row.revoke reason now) :=
  ⟨rfl, rfl, rfl, rfl, rfl, rfl, rfl⟩

theorem SessionRow.revokedAt_revoke : (row.revoke reason now).revokedAt ≠ none := by
  unfold SessionRow.revoke
  cases row.revokedAt <;> simp

theorem SessionRow.deadAt_revoke : (row.revoke reason now).DeadAt t :=
  .inl SessionRow.revokedAt_revoke

/-- A limit that is passed stays passed. -/
theorem SessionRow.DeadAt.mono (h : row.DeadAt t) {t' : ℤ} (hle : t ≤ t') : row.DeadAt t' := by
  rcases h with hrevoked | habsolute | hidle
  · exact .inl hrevoked
  · exact .inr (.inl (by omega))
  · exact .inr (.inr (by omega))

/-- A heartbeat changes a living row only. -/
theorem touchActivity_cases (config : SessionConfig) (before : Option SessionRow)
    (sessionId : String) (now : ℤ) :
    touchActivity config before sessionId now = (before, false) ∨
      ∃ row, before = some row ∧ ¬ row.DeadAt now ∧ row.Kept
          { row with lastActivityAt := now, idleExpiresAt := now + config.idleMs } ∧
        touchActivity config before sessionId now =
          (some { row with lastActivityAt := now, idleExpiresAt := now + config.idleMs }, true) := by
  cases before with
  | none => exact .inl rfl
  | some row =>
    unfold touchActivity
    dsimp only
    split
    · next hliving =>
      obtain ⟨-, hrevoked, habsolute, hidle, -⟩ := hliving
      refine .inr ⟨row, rfl, ?_, ⟨rfl, rfl, rfl, rfl, rfl, rfl, rfl⟩, rfl⟩
      rintro (hdead | hdead | hdead)
      · exact hdead hrevoked
      · omega
      · omega
    · exact .inl rfl

variable {before : Option SessionRow}

/-- An update that revokes where a condition holds. -/
theorem revoke_cases {p : SessionRow → Prop} [DecidablePred p] {after : SessionRow}
    (h : (before.map fun row => if p row then row.revoke reason now else row) = some after) :
    ∃ row, before = some row ∧ (after = row ∨ after = row.revoke reason now) := by
  obtain ⟨row, rfl, rfl⟩ := Option.map_eq_some_iff.mp h
  refine ⟨row, rfl, ?_⟩
  split
  · exact .inr rfl
  · exact .inl rfl

theorem cleanupSessions_eq_some (h : cleanupSessions config before now = some row) :
    before = some row := by
  obtain ⟨kept, hbefore, hsome⟩ := Option.bind_eq_some_iff.mp h
  split at hsome
  · cases hsome
  · rw [hbefore]
    exact hsome

/-- What a refresh with the lock does: it leaves a revoked row alone, revokes, accepts the previous
secret, or rotates. -/
inductive RotateLocked (config : SessionConfig) (row : SessionRow) (user : UserRow)
    (presentedHash nextSecret nextHash : String) (now : ℤ) : SessionRow × RotateResult → Prop where
  | revoked (h : row.revokedAt ≠ none) :
    RotateLocked config row user presentedHash nextSecret nextHash now (row, .refused "revoked")
  | revokes (reason refusal : String) :
    RotateLocked config row user presentedHash nextSecret nextHash now
      (row.revoke reason now, .refused refusal)
  | kept (hliving : ¬ row.DeadAt now) (hversion : user.authVersion = row.authVersionAtIssue)
    (hgrace : row.withinGrace config presentedHash now = true) :
    RotateLocked config row user presentedHash nextSecret nextHash now (row, .kept user.authVersion)
  | rotated (hliving : ¬ row.DeadAt now) (hversion : user.authVersion = row.authVersionAtIssue)
    (hcurrent : presentedHash = row.refreshTokenHash) :
    RotateLocked config row user presentedHash nextSecret nextHash now
      ({ row with
        prevRefreshTokenHash := some row.refreshTokenHash
        refreshTokenHash := nextHash
        rotatedAt := some now }, .rotated nextSecret user.authVersion)

theorem rotateLocked_cases {out : SessionRow × RotateResult}
    (h : out = rotateLocked config row user presentedHash nextSecret nextHash now) :
    RotateLocked config row user presentedHash nextSecret nextHash now out := by
  subst h
  unfold rotateLocked
  dsimp only
  split
  · next hrevoked => exact .revoked hrevoked
  · next hrevoked =>
    split
    · exact .revokes _ _
    · next habsolute =>
      split
      · exact .revokes _ _
      · next hidle =>
        have hliving : ¬ row.DeadAt now := by
          rintro (hdead | hdead | hdead)
          · exact hrevoked hdead
          · exact habsolute hdead
          · exact hidle hdead
        split
        · exact .revokes _ _
        · next hmatches =>
          split
          · exact .revokes _ _
          · split
            · exact .revokes _ _
            · next hversion =>
              have hversion' := not_not.mp hversion
              split
              · next hgrace =>
                exact .kept hliving hversion' (Bool.and_eq_true_iff.mp hgrace).1
              · next hnot =>
                refine .rotated hliving hversion' ?_
                by_contra hother
                simp [hother] at hmatches hnot
                rw [hmatches] at hnot
                cases hnot

/-- The current secret of a living session rotates. -/
theorem rotateLocked_current (hliving : ¬ row.DeadAt now) (hactive : user.isPassive = false)
    (hversion : user.authVersion = row.authVersionAtIssue) :
    (rotateLocked config row user row.refreshTokenHash nextSecret nextHash now).2.rotates =
      true := by
  unfold SessionRow.DeadAt at hliving
  simp only [not_or, not_not, not_le] at hliving
  obtain ⟨hrevoked, habsolute, hidle⟩ := hliving
  unfold rotateLocked
  rw [if_neg (by simp [hrevoked]), if_neg (by omega), if_neg (by omega), if_neg (by simp),
    if_neg (by simp [hactive]), if_neg (by simp [hversion]), if_neg (by simp)]
  rfl

/-- A refresh reaches the checks of its session's row, or it is refused and changes nothing. -/
theorem rotateRefresh_cases {after : Option SessionRow} {result : RotateResult}
    (h : (after, result) = rotateRefresh hashSecret config before user rawRefresh nextSecret now) :
    (after = before ∧ (∃ reason, result = .refused reason) ∧ ∀ row, before = some row →
        ∀ secret, parseRefreshToken rawRefresh ≠ some (row.sessionId, secret)) ∨
      ∃ row secret after', before = some row ∧ after = some after' ∧
        parseRefreshToken rawRefresh = some (row.sessionId, secret) ∧
        (after', result) = rotateLocked config row user (hashSecret secret) nextSecret
          (hashSecret nextSecret) now := by
  unfold rotateRefresh at h
  cases hparse : parseRefreshToken rawRefresh with
  | none =>
    rw [hparse] at h
    obtain ⟨rfl, rfl⟩ := Prod.mk.inj h
    exact .inl ⟨rfl, ⟨_, rfl⟩, fun row _ secret hfalse => by cases hfalse⟩
  | some token =>
    rw [hparse] at h
    obtain ⟨sessionId, secret⟩ := token
    cases before with
    | none =>
      obtain ⟨rfl, rfl⟩ := Prod.mk.inj h
      exact .inl ⟨rfl, ⟨_, rfl⟩, fun row hrow => by cases hrow⟩
    | some row =>
      dsimp only at h
      split at h
      · next hsame =>
        subst hsame
        obtain ⟨rfl, rfl⟩ := Prod.mk.inj h
        exact .inr ⟨row, secret, _, rfl, rfl, rfl, rfl⟩
      · next hother =>
        obtain ⟨rfl, rfl⟩ := Prod.mk.inj h
        refine .inl ⟨rfl, ⟨_, rfl⟩, fun row' hrow secret' hparse' => hother ?_⟩
        cases hrow
        exact (congrArg Prod.fst (Option.some.inj hparse')).symm

/-- A row of a session with the hashes of the newest two secrets. -/
structure SessionRow.Fits (hashSecret : String → String) (sessionId : String)
    (userId authVersion absolute : ℤ) (chain : List Minted) (row : SessionRow) : Prop where
  sessionId : row.sessionId = sessionId
  userId : row.userId = userId
  authVersion : row.authVersionAtIssue = authVersion
  absolute : row.absoluteExpiresAt = absolute
  history : ∃ newest rest, chain = newest :: rest ∧
    row.refreshTokenHash = hashSecret newest.secret ∧ row.rotatedAt = some newest.mintedAt ∧
      row.prevRefreshTokenHash = rest.head?.map fun m => hashSecret m.secret

theorem SessionRow.Fits.of_kept {chain : List Minted} {row' : SessionRow}
    (h : row.Fits hashSecret sessionId userId authVersion absolute chain) (hkept : row.Kept row') :
    row'.Fits hashSecret sessionId userId authVersion absolute chain := by
  obtain ⟨newest, rest, hchain, hcurrent, hrotated, hprevious⟩ := h.history
  refine ⟨hkept.sessionId.trans h.sessionId, hkept.userId.trans h.userId,
    hkept.authVersionAtIssue.trans h.authVersion, hkept.absoluteExpiresAt.trans h.absolute,
    newest, rest, hchain, hkept.refreshTokenHash.trans hcurrent, hkept.rotatedAt.trans hrotated,
    hkept.prevRefreshTokenHash.trans hprevious⟩

/-- What a refresh with a secret of the chain does, by the position of the secret. -/
theorem Refresh.obeys {r : Refresh} {k : ℕ} {m : Minted}
    (hbefore : ∀ row, r.before = some row →
      row.Fits hashSecret sessionId userId authVersion absolute r.chain)
    (hnodup : (r.chain.map fun m => hashSecret m.secret).Nodup)
    (hanswer : (r.after, r.result) = rotateRefresh hashSecret config r.before r.call.user
      r.call.rawRefresh nextSecret r.call.now)
    (hk : r.chain[k]? = some m)
    (hparse : parseRefreshToken r.call.rawRefresh = some (sessionId, m.secret)) :
    r.Obeys hashSecret config k := by
  -- A secret with the hash of another position is at that position.
  have hposition : ∀ (j : ℕ) (m' : Minted), r.chain[j]? = some m' →
      hashSecret m.secret = hashSecret m'.secret → k = j := by
    intro j m' hj hsame
    have hkj : (r.chain.map fun m => hashSecret m.secret)[k]? =
        (r.chain.map fun m => hashSecret m.secret)[j]? := by
      rw [List.getElem?_map, List.getElem?_map, hk, hj]
      exact congrArg some hsame
    refine (List.getElem?_inj ?_ hnodup).mp hkj
    rw [List.length_map]
    exact (List.getElem?_eq_some_iff.mp hk).1
  rcases rotateRefresh_cases hanswer with
    ⟨hafter, ⟨reason, hresult⟩, hother⟩ | ⟨row, secret, after, hrow, hafter, hsecret, hlocked⟩
  · refine ⟨fun hfalse => ?_, fun hfalse => ?_, fun _ row hrow => ?_, fun _ row hrow => ?_⟩
    · rw [hresult] at hfalse
      cases hfalse
    · rw [hresult] at hfalse
      cases hfalse
    · refine absurd hparse ?_
      rw [← (hbefore row hrow).sessionId]
      exact hother row hrow _
    · rw [hafter] at hrow
      refine absurd hparse ?_
      rw [← (hbefore row hrow).sessionId]
      exact hother row hrow _
  · obtain ⟨-, -, -, -, newest, rest, hchain, hcurrent, hrotated, hprevious⟩ := hbefore row hrow
    have hsame : secret = m.secret := by
      rw [hparse] at hsecret
      exact (congrArg Prod.snd (Option.some.inj hsecret)).symm
    subst hsame
    have hzero : r.chain[0]? = some newest := by
      rw [hchain]
      rfl
    have hcurrentRotates : k = 0 → ∀ row, r.before = some row → ¬ row.DeadAt r.call.now →
        r.call.user.isPassive = false → r.call.user.authVersion = row.authVersionAtIssue →
          r.result.rotates = true := by
      intro hk0 row' hrow' hliving hactive hversion
      obtain rfl := Option.some.inj (hrow.symm.trans hrow')
      subst hk0
      obtain rfl := Option.some.inj (hzero.symm.trans hk)
      rw [← hcurrent] at hlocked
      have hresult := congrArg Prod.snd hlocked
      dsimp only at hresult
      rw [hresult]
      exact rotateLocked_current hliving hactive hversion
    have hcases := rotateLocked_cases hlocked
    generalize hresult : r.result = result at hcases
    -- A revoked row after a refusal; the first two fields do not speak of refusals.
    have hrefused : ∀ reason, result = .refused reason → after.revokedAt ≠ none →
        r.Obeys hashSecret config k := by
      rintro reason rfl hrevoked
      refine ⟨fun hfalse => ?_, fun hfalse => ?_, hcurrentRotates, fun _ row hrow => ?_⟩
      · rw [hresult] at hfalse
        cases hfalse
      · rw [hresult] at hfalse
        cases hfalse
      · obtain rfl := Option.some.inj (hafter.symm.trans hrow)
        exact hrevoked
    cases hcases with
    | revoked hrevoked => exact hrefused _ rfl hrevoked
    | revokes reason refusal => exact hrefused _ rfl SessionRow.revokedAt_revoke
    | kept hliving hversion hgrace =>
      unfold SessionRow.withinGrace at hgrace
      rw [Bool.and_eq_true, hrotated] at hgrace
      obtain ⟨hpreviousHash, hwithin⟩ := hgrace
      have hone : k = 1 := by
        rw [hprevious] at hpreviousHash
        obtain ⟨previous, hhead, hhash⟩ := Option.map_eq_some_iff.mp (of_decide_eq_true hpreviousHash)
        refine hposition 1 previous ?_ hhash.symm
        rw [hchain, List.getElem?_cons_succ, ← List.head?_eq_getElem?]
        exact hhead
      refine ⟨fun hfalse => ?_, fun _ _ => ⟨hone, newest, hzero, ?_⟩, hcurrentRotates, fun htwo => ?_⟩
      · rw [hresult] at hfalse
        cases hfalse
      · simpa using hwithin
      · omega
    | rotated hliving hversion hmatches =>
      have hk0 : k = 0 := hposition 0 newest hzero (hmatches.trans hcurrent)
      refine ⟨fun _ => hk0, fun _ hfalse => ?_, hcurrentRotates, fun htwo => ?_⟩
      · rw [hresult] at hfalse
        cases hfalse
      · omega

end TalonHound.AuthSessions
