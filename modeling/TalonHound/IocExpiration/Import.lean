import TalonHound.IocExpiration.Recompute

/-!
# Importing a membership

`upsertMembershipOnImport` on the membership of one IOC in one feed: insertion, the lowering
of the first date, the monotone observation, the exits for an unchanged membership, and the
update that a change or a reactivation makes.
-/

namespace TalonHound.IocExpiration

/-- The options of `upsertMembershipOnImport` that concern the membership. -/
structure ImportCall where
  seenAt : ℤ
  (firstSeenAt observedAt : Option ℤ)
  (explicitConfidence contentFingerprint : Option String)
  reactivateOnly : Bool

namespace ImportCall

/-- `fp`: a blank fingerprint is none. -/
def fingerprint (c : ImportCall) : Option String :=
  (c.contentFingerprint.map trim).filter (· ≠ "")

/-- `firstNow`. -/
def firstNow (c : ImportCall) : ℤ := c.firstSeenAt.getD c.seenAt

/-- `lastSeenWriteAt`. -/
def lastSeenWriteAt (c : ImportCall) : ℤ := c.observedAt.getD c.seenAt

/-- `explicit`, when it is one of the three levels. -/
def explicit (c : ImportCall) : Option String :=
  (c.explicitConfidence.map fun s => FileArtifacts.lowerCase (trim s)).filter
    fun s => decide (s ∈ ["low", "medium", "high"])

end ImportCall

/-- The outcomes of an import. -/
inductive ImportOutcome where
  | created | changed | reactivated | unchanged | adopted | reobserved
  deriving DecidableEq

/-- What an import leaves behind: the stored row, and what decides whether the status of the
IOC is recomputed. -/
structure ImportResult where
  membership : Membership
  outcome : ImportOutcome
  /-- `membershipTouched` -/
  (touched reactivated : Bool)
  /-- The call returned through `finishHealthyNoop`. -/
  healthyNoop : Bool

/-- The stored row and the copy of it that the call works on. -/
structure ImportState where
  (stored row : Membership)
  touched : Bool
  outcome : ImportOutcome

/-- `healthyActive`. -/
def Membership.healthyActive (m : Membership) : Bool :=
  decide (m.status = .active ∧ m.missingSince = none ∧ m.expiredAt = none ∧ m.purgedAt = none)

/-- `applyMembershipComputedFields` on the row in hand. -/
def ImportState.applyComputed (policy : Option FeedPolicy) (now : ℤ) (st : ImportState) :
    ImportState :=
  let computed := applyMembershipComputedFields policy now st.row st.stored
  { st with stored := computed.1, touched := st.touched || computed.2 }

/-- An explicit earlier date lowers the first one. -/
def lowersFirstSeen (c : ImportCall) (m : Membership) : Bool :=
  c.firstSeenAt.any fun incoming => decide (incoming < m.firstSeenInFeed)

/-- The lowering of `first_seen_in_feed`, and the recomputation that follows it. -/
def lowerFirstSeen (policy : Option FeedPolicy) (c : ImportCall) (m : Membership) : ImportState :=
  if lowersFirstSeen c m then
    let lowered := { m with firstSeenInFeed := c.firstNow }
    ImportState.applyComputed policy c.seenAt ⟨lowered, lowered, true, .unchanged⟩
  else ⟨m, m, false, .unchanged⟩

/-- `applyMonotonicLastSeenInFeed`, for a call with an observation. -/
def observeSource (c : ImportCall) (st : ImportState) : ImportState :=
  match c.observedAt with
  | none => st
  | some observed =>
    if st.stored.lastSeenInFeed < observed then
      let moved := { st.stored with lastSeenInFeed := max st.stored.lastSeenInFeed observed }
      { stored := moved, row := moved, touched := true, outcome := .reobserved }
    else st

/-- The adoption of a fingerprint by a membership that has none. -/
def adoptFingerprint (fingerprint : String) (st : ImportState) : ImportState :=
  if st.stored.contentFingerprint = none then
    let adopted := { st.stored with contentFingerprint := some fingerprint }
    { st with stored := adopted, row := adopted, outcome := .adopted }
  else st

/-- `finishHealthyNoop`. -/
def finishHealthyNoop (policy : Option FeedPolicy) (c : ImportCall) (outcome : ImportOutcome)
    (st : ImportState) : ImportResult :=
  let st := if st.touched then st.applyComputed policy c.seenAt else st
  { membership := st.stored
    outcome := outcome
    touched := st.touched
    reactivated := false
    healthyNoop := true }

/-- The `SET` of the last update. A membership with an override keeps its status and its purge
fields. -/
def reimportSet (c : ImportCall) (overridden : Bool) (m : Membership) : Membership :=
  let seen := { m with
    lastSeenInFeed := max m.lastSeenInFeed c.lastSeenWriteAt
    lastChangedInSource :=
      if c.fingerprint.isSome then some c.lastSeenWriteAt else m.lastChangedInSource
    contentFingerprint := c.fingerprint <|> m.contentFingerprint
    missingSince := none }
  if overridden then seen
  else
    { seen with
      status := .active
      expiredAt := none
      expirationReason := none
      purgedAt := none
      purgedBy := none
      purgedByUsername := none
      purgeReason := none }

/-- The `WHERE` of the last update. -/
def reimportWhere (c : ImportCall) (overridden : Bool) (m : Membership) : Bool :=
  decide (m.lastSeenInFeed < c.lastSeenWriteAt) ||
    (c.fingerprint.isSome && decide (m.contentFingerprint ≠ c.fingerprint)) ||
    m.missingSince.isSome ||
    (!overridden && (decide (m.status ≠ .active) || m.expiredAt.isSome ||
      m.expirationReason.isSome || m.purgedAt.isSome || m.purgedBy.isSome ||
      m.purgedByUsername.isSome || m.purgeReason.isSome))

/-- The write of an explicit confidence. -/
def writeExplicitConfidence (c : ImportCall) (st : ImportState) : ImportState :=
  match c.explicit with
  | none => st
  | some level =>
    if st.stored.explicitConfidence = some level then st
    else { st with stored := { st.stored with explicitConfidence := some level }, touched := true }

/-- The end of the call, from the computed fields on. -/
def finishImport (policy : Option FeedPolicy) (c : ImportCall) (reactivated : Bool)
    (st : ImportState) : ImportResult :=
  let st := writeExplicitConfidence c (st.applyComputed policy c.seenAt)
  { membership := st.stored
    outcome := st.outcome
    touched := st.touched
    reactivated := reactivated
    healthyNoop := false }

/-- The last update of a known membership. -/
def reimport (policy : Option FeedPolicy) (c : ImportCall) (healthyActive : Bool)
    (st : ImportState) : ImportResult :=
  let overridden := st.row.overrideEnabled
  if reimportWhere c overridden st.stored then
    let written := reimportSet c overridden st.stored
    finishImport policy c (!healthyActive)
      { stored := written
        row := written
        touched := true
        outcome := if healthyActive then .changed else .reactivated }
  else finishImport policy c false st

/-- A healthy membership whose fingerprint is the one of the call, or still missing. -/
def sameFingerprint (m : Membership) (fingerprint : String) : Bool :=
  match m.contentFingerprint.filter (· ≠ "") with
  | none => true
  | some stored => decide (stored = fingerprint)

/-- The row as the call finds it after the lowering and the observation. -/
def beforeReimport (policy : Option FeedPolicy) (c : ImportCall) (m : Membership) : ImportState :=
  observeSource c (lowerFirstSeen policy c m)

/-- The exit of a call on a healthy membership, if it takes one: the outcome to return. -/
def healthyExit (policy : Option FeedPolicy) (c : ImportCall) (m : Membership) :
    Option ImportResult :=
  let st := beforeReimport policy c m
  if !m.healthyActive then none
  else if c.reactivateOnly then
    some (finishHealthyNoop policy c (if lowersFirstSeen c m then .changed else st.outcome) st)
  else
    match c.fingerprint with
    | some fingerprint =>
      if sameFingerprint st.row fingerprint then
        let adopted := if (st.row.contentFingerprint.filter (· ≠ "")).isNone then
            adoptFingerprint fingerprint st
          else st
        some (finishHealthyNoop policy c adopted.outcome adopted)
      else none
    | none =>
      if c.lastSeenWriteAt ≤ st.row.lastSeenInFeed then
        some (finishHealthyNoop policy c st.outcome st)
      else none

/-- `upsertMembershipOnImport` on a known membership. -/
def importKnown (policy : Option FeedPolicy) (c : ImportCall) (m : Membership) : ImportResult :=
  match healthyExit policy c m with
  | some result => result
  | none => reimport policy c m.healthyActive (beforeReimport policy c m)

/-- The row that a first import inserts. -/
def insertedMembership (id : ℕ) (key : MembershipKey) (c : ImportCall) : Membership where
  id := id
  iocItemId := key.item.id
  iocObservableType := key.item.observableType
  feedId := key.feedId
  firstSeenInFeed := c.firstNow
  lastSeenInFeed := c.lastSeenWriteAt
  lastChangedInSource := if c.fingerprint.isSome then some c.lastSeenWriteAt else none
  contentFingerprint := c.fingerprint
  missingSince := none
  policyExpiresAt := none
  expiresAt := none
  expiredAt := none
  status := .active
  expirationReason := none
  overrideEnabled := false
  overrideStatus := none
  overrideExpiresAt := none
  explicitConfidence := none
  purgedAt := none
  purgedBy := none
  purgedByUsername := none
  purgeReason := none

/-- `upsertMembershipOnImport` for a new membership. -/
def importNew (policy : Option FeedPolicy) (c : ImportCall) (id : ℕ) (key : MembershipKey) :
    ImportResult :=
  let inserted := insertedMembership id key c
  finishImport policy c false ⟨inserted, inserted, true, .created⟩

/-- `upsertMembershipOnImport` on the membership of one IOC in one feed. -/
def upsertMembershipOnImport (policy : Option FeedPolicy) (c : ImportCall) (id : ℕ)
    (key : MembershipKey) (existing : Option Membership) : ImportResult :=
  match existing with
  | none => importNew policy c id key
  | some m => importKnown policy c m

end TalonHound.IocExpiration
