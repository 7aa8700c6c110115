import TalonHound.IocExpiration.Operations
import TalonHound.IocExpiration.ImportEffect

/-!
# Import runs and worker batches

A run writes memberships one by one. It recomputes the IOC of a reactivated membership at once
and defers the recomputation of the others to its end. When it fails, what is still deferred is
dropped. The expiration worker works in the same two phases.
-/

namespace TalonHound.IocExpiration

open Rows

section

variable (policy : Option FeedPolicy) (c : ImportCall)
include policy c

/-- An import keeps the id, the identity and the override of the membership. -/
theorem importKnown_kept (m : Membership) :
    (importKnown policy c m).membership.id = m.id ∧
      (importKnown policy c m).membership.key = m.key ∧
      (importKnown policy c m).membership.overrideEnabled = m.overrideEnabled := by
  cases importKnown_effect policy c m with
  | untouched fingerprint hmembership =>
    rw [hmembership]
    exact ⟨rfl, rfl, rfl⟩
  | computed row level htouched hrow hmembership =>
    have hbasis : SameBasis row (computedRow policy c.seenAt row) := sameBasis_computedRow
    rw [hmembership]
    exact ⟨hbasis.id.trans hrow.id, hbasis.key.trans hrow.key,
      hbasis.overrideEnabled.trans hrow.overrideEnabled⟩

theorem importKnown_same (m : Membership) :
    (importKnown policy c m).membership.id = m.id ∧
      (importKnown policy c m).membership.key = m.key :=
  have hkept := importKnown_kept policy c m
  ⟨hkept.1, hkept.2.1⟩

/-- A new membership has the id and the identity of the insertion. -/
theorem importNew_same (id : ℕ) (key : MembershipKey) :
    (importNew policy c id key).membership.id = id ∧
      (importNew policy c id key).membership.key = key := by
  obtain ⟨level, hmembership⟩ := importNew_membership policy c id key
  have hbasis : SameBasis (insertedMembership id key c)
      (computedRow policy c.seenAt (insertedMembership id key c)) := sameBasis_computedRow
  rw [hmembership]
  exact ⟨hbasis.id, hbasis.key⟩

end

/-- The end of a snapshot run keeps the columns that are not computed. -/
theorem finalizeMissing_basis (tables : PolicyTables) (now : ℤ) (m : Membership) :
    SameBasis m (finalizeMissing tables now m) := by
  unfold finalizeMissing
  dsimp only
  split
  · have hmissing : SameBasis m { m with missingSince := m.missingSince <|> some now } :=
      ⟨rfl, rfl, rfl, rfl, rfl, rfl⟩
    exact hmissing.trans sameBasis_computedRow
  · exact SameBasis.refl m

theorem finalizeMissing_same (tables : PolicyTables) (now : ℤ) (m : Membership) :
    (finalizeMissing tables now m).id = m.id ∧ (finalizeMissing tables now m).key = m.key :=
  ⟨(finalizeMissing_basis tables now m).id, (finalizeMissing_basis tables now m).key⟩

theorem expireDue_same (now : ℤ) (m : Membership) :
    (expireDue now m).id = m.id ∧ (expireDue now m).key = m.key := by
  unfold expireDue
  split
  · exact ⟨rfl, rfl⟩
  · exact ⟨rfl, rfl⟩

namespace IocTables

variable (t : IocTables)

/-- The membership with a key. -/
def membership? (key : MembershipKey) : Option Membership :=
  Rows.lookup Membership.key t.memberships key

/-- The update of one membership. -/
def updateMembership (key : MembershipKey) (f : Membership → Membership)
    (hf : ∀ m, (f m).id = m.id ∧ (f m).key = m.key) : IocTables :=
  { t with
    memberships := t.memberships.map (Rows.updateWhere (fun m => decide (m.key = key)) f)
    unique_membership := nodup_map_update (updateWhere_keeps fun m => (hf m).2) t.unique_membership
    unique_id := nodup_map_update (updateWhere_keeps fun m => (hf m).1) t.unique_id }

/-- The insertion of a membership. -/
def insertMembership (m : Membership) (hkey : m.key ∉ t.memberships.map Membership.key)
    (hid : m.id ∉ t.memberships.map Membership.id) : IocTables :=
  { t with
    memberships := t.memberships ++ [m]
    unique_membership := nodup_map_append t.unique_membership hkey
    unique_id := nodup_map_append t.unique_id hid }

/-- The insertion of an IOC. -/
def insertItem (i : IocItem) (hkey : i.key ∉ t.items.map IocItem.key) : IocTables :=
  { t with
    items := t.items ++ [i]
    unique_item := nodup_map_append t.unique_item hkey }

end IocTables

/-- Value and type of an IOC. -/
structure Observed where
  (observable observableType : String)
  deriving DecidableEq

/-- Value and type of a row. -/
def IocItem.observed (i : IocItem) : Observed := ⟨i.observable, i.observableType⟩

/-- The memberships that count for an observable. -/
def IocTables.membershipsOn (t : IocTables) (o : Observed) : List Membership :=
  t.membershipsOf o.observable o.observableType

/-- A run, or a worker batch, with the recomputations that it still has to make. -/
structure RunState where
  tables : IocTables
  /-- The keys of `deferredRecomputes`, or of `iocTouches`. -/
  deferred : List ItemKey
  /-- The observables whose memberships the run wrote: a history variable. -/
  written : List Observed

/-- `scheduleDeferredIocRecompute`. -/
def scheduleDeferred (deferred : List ItemKey) (key : ItemKey) : List ItemKey :=
  if key ∈ deferred then deferred else deferred ++ [key]

/-- The row that the importer inserts. -/
def newItem (id : ℕ) (o : Observed) : IocItem where
  id := id
  observable := o.observable
  observableType := o.observableType
  status := .active
  expiresAt := none
  expiredAt := none
  expirationReason := none
  manualStatusOverride := false
  manualStatus := none
  manualExpiresAt := none

/-- The membership is one that `finalizeSnapshotFeedRun` writes. -/
def finalizes (policies : PolicyTables) (m : Membership) : Bool :=
  ((policies.feedLevel m).any fun p =>
    p.enabled && decide (p.expirationMode = .missingFromFeedTtl)) && decide (m.status = .active)

/-- A step of a run. Recomputations get the decider of the moment: the index of the run, or the
database. -/
inductive RunAction where
  | insertItem (id : ℕ) (observed : Observed)
  | upsert (policies : PolicyTables) (call : ImportCall) (id : ℕ) (key : MembershipKey)
      (isIocSuppressed : String → String → Bool) (now : ℤ)
  | finalize (policies : PolicyTables) (now : ℤ) (key : MembershipKey)
  | expire (now : ℤ) (key : MembershipKey)
  | recompute (isIocSuppressed : String → String → Bool) (now : ℤ)
  | fail

/-- The write of `upsertMembershipOnImport`, with its result. -/
def upsertTables (policies : PolicyTables) (call : ImportCall) (id : ℕ) (key : MembershipKey)
    (t : IocTables) : Option (ImportResult × IocTables) :=
  let policy := policies.getFeedPolicy key.feedId key.item.observableType
  match h : t.membership? key with
  | some m =>
    some (importKnown policy call m,
      t.updateMembership key (fun m => (importKnown policy call m).membership)
        (importKnown_same policy call))
  | none =>
    if hid : id ∉ t.memberships.map Membership.id then
      some (importNew policy call id key,
        t.insertMembership (importNew policy call id key).membership
          (by
            rw [(importNew_same policy call id key).2]
            exact lookup_eq_none.mp h)
          (by
            rw [(importNew_same policy call id key).1]
            exact hid))
    else none

/-- The recomputation that follows an upsert, at once or deferred. -/
def afterUpsert (isIocSuppressed : String → String → Bool) (now : ℤ) (key : ItemKey)
    (result : ImportResult) (s : RunState) : RunState :=
  if result.reactivated then
    { s with tables := (recomputeIocGlobalStatus isIocSuppressed now s.tables key).2 }
  else if result.touched then { s with deferred := scheduleDeferred s.deferred key }
  else s

/-- The upsert of an entry whose IOC row is `ioc`. -/
def upsertEntry (policies : PolicyTables) (call : ImportCall) (id : ℕ) (key : MembershipKey)
    (isIocSuppressed : String → String → Bool) (now : ℤ) (ioc : IocItem) (s : RunState) :
    Option RunState :=
  (upsertTables policies call id key s.tables).map fun (result, tables) =>
    afterUpsert isIocSuppressed now key.item result
      { s with
        tables := tables
        written := if s.tables.membership? key = some result.membership then s.written
          else ioc.observed :: s.written }

/-- One write of a membership that schedules the recomputation of its IOC. -/
def writeAndSchedule (key : MembershipKey) (f : Membership → Membership)
    (hf : ∀ m, (f m).id = m.id ∧ (f m).key = m.key) (s : RunState) : RunState where
  tables := s.tables.updateMembership key f hf
  deferred := scheduleDeferred s.deferred key.item
  written := ((s.tables.item? key.item).map IocItem.observed).toList ++ s.written

/-- One step of a run. -/
def runStep (s : RunState) : RunAction → Option RunState
  | .insertItem id observed =>
    -- the row is inserted when the lookup by value and type finds none
    if h : (newItem id observed).key ∉ s.tables.items.map IocItem.key then
      if (∀ i ∈ s.tables.items, i.observed ≠ observed) ∧
          ∀ m ∈ s.tables.memberships, m.itemKey ≠ (newItem id observed).key then
        some { s with tables := s.tables.insertItem (newItem id observed) h }
      else none
    else none
  | .upsert policies call id key isIocSuppressed now =>
    (s.tables.item? key.item).bind fun ioc =>
      upsertEntry policies call id key isIocSuppressed now ioc s
  | .finalize policies now key =>
    (s.tables.membership? key).bind fun m =>
      if finalizes policies m then
        some (writeAndSchedule key (finalizeMissing policies now)
          (finalizeMissing_same policies now) s)
      else none
  | .expire now key =>
    (s.tables.membership? key).bind fun m =>
      if m.isDue now && (s.tables.item? key.item).isSome then
        some (writeAndSchedule key (expireDue now) (expireDue_same now) s)
      else none
  | .recompute isIocSuppressed now =>
    match s.deferred with
    | [] => none
    | key :: rest =>
      some { s with
        tables := (recomputeIocGlobalStatus isIocSuppressed now s.tables key).2
        deferred := rest }
  | .fail => some { s with deferred := [] }

/-- A run that begins. -/
def RunState.begin (t : IocTables) : RunState := ⟨t, [], []⟩

end TalonHound.IocExpiration
