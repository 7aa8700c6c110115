import TalonHound.Library.Run
import TalonHound.PublishedFeed.Text

/-!
# Login sessions

`authSessions.js` and the gate of `authVersion.js`. A session row holds the hash of the current
refresh secret and of the one before it, an absolute and an idle limit, and the version of the
user's credentials at its issue. Times are in milliseconds.
-/

namespace TalonHound.AuthSessions

/-- What `getSessionConfig` gives. -/
structure SessionConfig where
  (idleMs absoluteMs activityMinUpdateMs refreshGraceMs cleanupRetentionDays : ℤ)

/-- A row of `auth_sessions`. -/
structure SessionRow where
  sessionId : String
  userId : ℤ
  refreshTokenHash : String
  prevRefreshTokenHash : Option String
  (authVersionAtIssue lastActivityAt : ℤ)
  rotatedAt : Option ℤ
  (idleExpiresAt absoluteExpiresAt : ℤ)
  revokedAt : Option ℤ
  revokedReason : Option String

/-- What a session reads of its row of `users`. -/
structure UserRow where
  (id authVersion : ℤ)
  status : Option String

/-- `String(status || 'active') === 'passive'`. -/
def UserRow.isPassive (u : UserRow) : Bool := u.status = some "passive"

/-- `parseRefreshToken`: the wire format is the session and the secret with a dot between them. -/
def parseRefreshToken (raw : String) : Option (String × String) :=
  let s := (trim raw).toList
  (s.idxOf? '.').bind fun idx =>
    if idx = 0 ∨ s.length - 1 ≤ idx then none
    else some (String.ofList (s.take idx), String.ofList (s.drop (idx + 1)))

/-- The row that `createSession` inserts. -/
def createSession (config : SessionConfig) (sessionId : String) (userId authVersion now : ℤ)
    (tokenHash : String) : SessionRow where
  sessionId := sessionId
  userId := userId
  refreshTokenHash := tokenHash
  prevRefreshTokenHash := none
  authVersionAtIssue := authVersion
  lastActivityAt := now
  rotatedAt := some now
  idleExpiresAt := now + config.idleMs
  absoluteExpiresAt := now + config.absoluteMs
  revokedAt := none
  revokedReason := none

/-- The update of `revokeWithin`: an earlier revocation stays. -/
def SessionRow.revoke (row : SessionRow) (reason : String) (now : ℤ) : SessionRow :=
  { row with
    revokedAt := row.revokedAt.orElse fun _ => some now
    revokedReason := row.revokedReason.orElse fun _ => some reason }

/-- `touchActivity`, with its row count. -/
def touchActivity (config : SessionConfig) (row : Option SessionRow) (sessionId : String)
    (now : ℤ) : Option SessionRow × Bool :=
  match row with
  | none => (none, false)
  | some row =>
    if row.sessionId = sessionId ∧ row.revokedAt = none ∧ now < row.absoluteExpiresAt ∧
        now < row.idleExpiresAt ∧ row.lastActivityAt ≤ now - config.activityMinUpdateMs then
      (some { row with lastActivityAt := now, idleExpiresAt := now + config.idleMs }, true)
    else (some row, false)

/-- `revokeSession`. -/
def revokeSession (row : Option SessionRow) (sessionId reason : String) (now : ℤ) :
    Option SessionRow :=
  row.map fun row =>
    if row.sessionId = sessionId ∧ row.revokedAt = none then row.revoke reason now else row

/-- `revokeAllForUser`. -/
def revokeAllForUser (row : Option SessionRow) (userId : ℤ) (reason : String) (now : ℤ) :
    Option SessionRow :=
  row.map fun row =>
    if row.userId = userId ∧ row.revokedAt = none then row.revoke reason now else row

/-- `cleanupSessions`, for a row that its batch reaches. -/
def cleanupSessions (config : SessionConfig) (row : Option SessionRow) (now : ℤ) :
    Option SessionRow :=
  let cutoff := now - config.cleanupRetentionDays * 24 * 60 * 60 * 1000
  row.bind fun row =>
    if row.revokedAt.any (· < cutoff) ∨ row.absoluteExpiresAt < cutoff then none else some row

/-- What `rotateRefresh` answers. -/
inductive RotateResult where
  | rotated (nextSecret : String) (authVersion : ℤ)
  /-- `rotated: false`: the refresh token stays as it is. -/
  | kept (authVersion : ℤ)
  | refused (reason : String)

/-- `ok`. -/
def RotateResult.ok : RotateResult → Bool
  | .refused _ => false
  | _ => true

/-- `rotated`. -/
def RotateResult.rotates : RotateResult → Bool
  | .rotated _ _ => true
  | _ => false

/-- The secret is the previous one, within the grace time of the rotation that replaced it. -/
def SessionRow.withinGrace (config : SessionConfig) (row : SessionRow) (presentedHash : String)
    (now : ℤ) : Bool :=
  row.prevRefreshTokenHash = some presentedHash &&
    row.rotatedAt.any fun rotatedAt => now - rotatedAt ≤ config.refreshGraceMs

/-- The checks of `rotateRefresh` on a locked row, in their order; `user` is what the join read. -/
def rotateLocked (config : SessionConfig) (row : SessionRow) (user : UserRow)
    (presentedHash nextSecret nextHash : String) (now : ℤ) : SessionRow × RotateResult :=
  let matchesCurrent : Bool := presentedHash = row.refreshTokenHash
  let withinGrace := row.withinGrace config presentedHash now
  if row.revokedAt ≠ none then (row, .refused "revoked")
  else if row.absoluteExpiresAt ≤ now then (row.revoke "absolute_timeout" now, .refused "absolute")
  else if row.idleExpiresAt ≤ now then (row.revoke "idle_timeout" now, .refused "idle")
  else if !matchesCurrent && !withinGrace then
    (row.revoke "refresh_reuse" now, .refused "reuse")
  else if user.isPassive then (row.revoke "user_disabled" now, .refused "user_disabled")
  else if user.authVersion ≠ row.authVersionAtIssue then
    (row.revoke "auth_version" now, .refused "auth_version")
  else if withinGrace && !matchesCurrent then (row, .kept user.authVersion)
  else
    ({ row with
      prevRefreshTokenHash := some row.refreshTokenHash
      refreshTokenHash := nextHash
      rotatedAt := some now }, .rotated nextSecret user.authVersion)

/-- `rotateRefresh` from the moment that it has the lock of the row. -/
def rotateRefresh (hashSecret : String → String) (config : SessionConfig)
    (row : Option SessionRow) (user : UserRow) (rawRefresh nextSecret : String) (now : ℤ) :
    Option SessionRow × RotateResult :=
  match parseRefreshToken rawRefresh, row with
  | none, row => (row, .refused "invalid")
  | some _, none => (none, .refused "not_found")
  | some (sessionId, secret), some row =>
    if row.sessionId = sessionId then
      let (row, result) := rotateLocked config row user (hashSecret secret) nextSecret
        (hashSecret nextSecret) now
      (some row, result)
    else (some row, .refused "not_found")

/-- What the gate reads of a request. -/
structure GateRequest where
  (path method authVia : String)
  /-- `req.user` is set. -/
  hasUser : Bool
  /-- The id of `req.user` and the version in its token, where they are numbers. -/
  (userId tokenAuthVersion : Option ℤ)
  tokenSessionId : Option String
  tokenExp : Option ℤ

/-- `next()` or a status with a message and a code. -/
inductive GateAnswer where
  | next
  | refused (status : ℕ) (message : String) (code : Option String)
  deriving DecidableEq

/-- The paths and principals that the gate lets through unchecked. -/
def GateRequest.exempt (req : GateRequest) : Bool :=
  !("/api".toList.isPrefixOf req.path.toList) ||
    (req.path = "/api/auth/logout" && req.method = "POST") ||
    (req.authVia = "ingest" || req.authVia = "api_key") || !req.hasUser

/-- `createAuthVersionGate` with session enforcement; `user` and `session` are the two sides of
its join. -/
def authVersionGate (user : ℤ → Option UserRow) (session : String → ℤ → Option SessionRow)
    (req : GateRequest) (now : ℤ) : GateAnswer :=
  let unauthorized := GateAnswer.refused 401 "Unauthorized" none
  if req.exempt then .next
  else match req.userId, req.tokenAuthVersion with
  | some userId, some claimAv =>
    let enforceSession : Bool := req.authVia = "cookie"
    let sid := if enforceSession then req.tokenSessionId.filter (· ≠ "") else none
    if enforceSession && sid = none then unauthorized
    else if req.authVia = "bearer" && req.tokenExp = none then unauthorized
    else if req.authVia = "bearer" && req.tokenExp.any (· * 1000 ≤ now) then
      .refused 401 "Session expired" (some "TOKEN_EXPIRED")
    else match user userId with
    | none => unauthorized
    | some u =>
      if u.isPassive then unauthorized
      else if u.authVersion ≠ claimAv then unauthorized
      else if enforceSession then
        match sid.bind fun sid => session sid u.id with
        | none => unauthorized
        | some row =>
          if row.revokedAt ≠ none then unauthorized
          else if row.absoluteExpiresAt ≤ now then
            .refused 401 "Session expired" (some "SESSION_EXPIRED_ABSOLUTE")
          else if row.idleExpiresAt ≤ now then
            .refused 401 "Session expired" (some "SESSION_EXPIRED_IDLE")
          else .next
      else .next
  | _, _ => unauthorized

/-!
## Requests on one session

Requests, revocations and version bumps in any order on one session. A refresh is two steps: its
statement reads the user, then it waits for the lock of the session's row.
-/

/-- A refresh secret that was handed out. -/
structure Minted where
  secret : String
  mintedAt : ℤ

/-- The claims of an access token. -/
structure AccessToken where
  (userId authVersion : ℤ)
  sessionId : String

/-- A refresh that waits for the lock, with what its statement read of the user. -/
structure RefreshCall where
  number : ℕ
  rawRefresh : String
  now : ℤ
  user : UserRow

/-- A refresh that was answered, with the row and the secrets that it found. -/
structure Refresh where
  call : RefreshCall
  before : Option SessionRow
  chain : List Minted
  after : Option SessionRow
  result : RotateResult

/-- An answered request; requests are numbered as they begin. -/
inductive Event where
  | refresh (r : Refresh)
  | touch (number : ℕ) (updated : Bool)
  | gate (number : ℕ) (req : GateRequest) (answer : GateAnswer)

/-- The number of the request. -/
def Event.number : Event → ℕ
  | .refresh r => r.call.number
  | .touch number _ => number
  | .gate number _ _ => number

/-- The request was granted; what the gate lets through unchecked is no grant. -/
def Event.succeeded : Event → Bool
  | .refresh r => r.result.ok
  | .touch _ updated => updated
  | .gate _ req answer => !req.exempt && answer = .next

/-- The request is a heartbeat. -/
def Event.isTouch : Event → Bool
  | .touch _ _ => true
  | _ => false

/-- The secret that a rotating refresh presented. -/
def Event.rotatedSecret : Event → Option String
  | .refresh r =>
    match r.result with
    | .rotated _ _ => (parseRefreshToken r.call.rawRefresh).map Prod.snd
    | _ => none
  | _ => none

/-- One session with its user. -/
structure SessionState where
  user : UserRow
  row : Option SessionRow
  /-- The clock of the last request. -/
  clock : ℤ
  /-- How many requests began. -/
  began : ℕ
  calls : List RefreshCall
  tokens : List AccessToken
  /-- The secrets of the session, the newest first. -/
  chain : List Minted
  /-- The answered requests, the last one first. -/
  events : List Event

/-- What happens. -/
inductive SessionAction where
  | refresh (rawRefresh : String) (now : ℤ)
  /-- A waiting refresh gets the lock; `nextSecret` is the secret it draws. -/
  | lock (i : ℕ) (nextSecret : String)
  | touchActivity (sessionId : String) (now : ℤ)
  /-- A request with an access token of the session in its cookie. -/
  | gate (path method : String) (token : ℕ) (now : ℤ)
  | revokeSession (sessionId reason : String) (now : ℤ)
  | revokeAllForUser (userId : ℤ) (reason : String) (now : ℤ)
  | bumpAuthVersion (userId : ℤ)
  | setStatus (status : Option String)
  | cleanupSessions (batched : Bool) (now : ℤ)

/-- The clock of an action. -/
def SessionAction.now : SessionAction → Option ℤ
  | .refresh _ now | .touchActivity _ now | .gate _ _ _ now | .revokeSession _ _ now
  | .revokeAllForUser _ _ now | .cleanupSessions _ now => some now
  | .lock _ _ | .bumpAuthVersion _ | .setStatus _ => none

/-- The token that a granted refresh mints. -/
def RotateResult.token (row : Option SessionRow) : RotateResult → List AccessToken
  | .rotated _ authVersion | .kept authVersion =>
    (row.map fun row => ⟨row.userId, authVersion, row.sessionId⟩).toList
  | .refused _ => []

/-- The secret that a granted refresh hands out. -/
def RotateResult.minted (now : ℤ) : RotateResult → List Minted
  | .rotated nextSecret _ => [⟨nextSecret, now⟩]
  | _ => []

/-- The answer of the gate to a cookie with a token. -/
def SessionState.gate (s : SessionState) (req : GateRequest) (now : ℤ) : GateAnswer :=
  authVersionGate (fun id => if id = s.user.id then some s.user else none)
    (fun sid userId => s.row.filter fun row => row.sessionId = sid && row.userId = userId) req now

/-- A request with a token in its cookie. -/
def AccessToken.request (token : AccessToken) (path method : String) : GateRequest where
  path := path
  method := method
  authVia := "cookie"
  hasUser := true
  userId := some token.userId
  tokenAuthVersion := some token.authVersion
  tokenSessionId := some token.sessionId
  tokenExp := none

section Step

-- SHA-256 of a secret, and the limits.
variable (hashSecret : String → String) (config : SessionConfig)

/-- A session right after its login. -/
def SessionState.created (sessionId : String) (user : UserRow) (authVersion now : ℤ)
    (secret : String) : SessionState where
  user := user
  row := some (createSession config sessionId user.id authVersion now (hashSecret secret))
  clock := now
  began := 0
  calls := []
  tokens := [⟨user.id, authVersion, sessionId⟩]
  chain := [⟨secret, now⟩]
  events := []

/-- A waiting refresh is answered. -/
def SessionState.answer (s : SessionState) (i : ℕ) (call : RefreshCall) (nextSecret : String) :
    SessionState :=
  let (row, result) :=
    rotateRefresh hashSecret config s.row call.user call.rawRefresh nextSecret call.now
  { s with
    row := row
    calls := s.calls.eraseIdx i
    tokens := result.token row ++ s.tokens
    chain := result.minted call.now ++ s.chain
    events := .refresh ⟨call, s.row, s.chain, row, result⟩ :: s.events }

/-- One step. -/
def sessionStep (s : SessionState) : SessionAction → Option SessionState
  | .refresh rawRefresh now => some { s with
      clock := now
      began := s.began + 1
      calls := ⟨s.began, rawRefresh, now, s.user⟩ :: s.calls }
  | .lock i nextSecret =>
    s.calls[i]?.map fun call => s.answer hashSecret config i call nextSecret
  | .touchActivity sessionId now =>
    let touched := touchActivity config s.row sessionId now
    some { s with
      clock := now
      began := s.began + 1
      row := touched.1
      events := .touch s.began touched.2 :: s.events }
  | .gate path method i now =>
    s.tokens[i]?.map fun token =>
      let req := token.request path method
      { s with
        clock := now
        began := s.began + 1
        events := .gate s.began req (s.gate req now) :: s.events }
  | .revokeSession sessionId reason now =>
    some { s with clock := now, row := revokeSession s.row sessionId reason now }
  | .revokeAllForUser userId reason now =>
    some { s with clock := now, row := revokeAllForUser s.row userId reason now }
  | .bumpAuthVersion userId =>
    some { s with
      user := if userId = s.user.id then { s.user with authVersion := s.user.authVersion + 1 }
        else s.user }
  | .setStatus status => some { s with user := { s.user with status := status } }
  | .cleanupSessions batched now =>
    some { s with
      clock := now
      row := if batched then cleanupSessions config s.row now else s.row }

/-- Request clocks do not go back, and a drawn secret has a new hash. -/
def InOrder (s : SessionState) (a : SessionAction) : Prop :=
  (∀ now ∈ a.now, s.clock ≤ now) ∧ match a with
    | .lock _ nextSecret => ∀ m ∈ s.chain, hashSecret m.secret ≠ hashSecret nextSecret
    | _ => True

instance (s : SessionState) (a : SessionAction) : Decidable (InOrder hashSecret s a) := by
  cases a <;> unfold InOrder <;> infer_instance

end Step

/-- Revoked, or past a limit at a time. -/
def SessionRow.DeadAt (row : SessionRow) (t : ℤ) : Prop :=
  row.revokedAt ≠ none ∨ row.absoluteExpiresAt ≤ t ∨ row.idleExpiresAt ≤ t

/-- The session is deleted, revoked or past a limit. -/
def SessionState.Dead (s : SessionState) : Prop := ∀ row, s.row = some row → row.DeadAt s.clock

/-- The session was issued under an older version. -/
def SessionState.Outdated (s : SessionState) : Prop :=
  ∀ row, s.row = some row → row.authVersionAtIssue < s.user.authVersion

/-- What a refresh with the secret at position `k` of the chain may do. -/
structure Refresh.Obeys (hashSecret : String → String) (config : SessionConfig) (r : Refresh)
    (k : ℕ) : Prop where
  rotates : r.result.rotates = true → k = 0
  keeps : r.result.ok = true → r.result.rotates = false →
    k = 1 ∧ ∃ newest, r.chain[0]? = some newest ∧
      r.call.now - newest.mintedAt ≤ config.refreshGraceMs
  /-- The current secret of a living session rotates. -/
  current : k = 0 → ∀ row, r.before = some row → ¬ row.DeadAt r.call.now →
    r.call.user.isPassive = false → r.call.user.authVersion = row.authVersionAtIssue →
      r.result.rotates = true
  replay : 2 ≤ k → ∀ row, r.after = some row → row.revokedAt ≠ none

end TalonHound.AuthSessions
