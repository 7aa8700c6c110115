import TalonHound.Library.Rows
import TalonHound.IocExpiration.Membership

/-!
# The global status of an IOC

`recomputeIocGlobalStatus`: a suppressed, disabled or manually overridden row is settled on its
own; any other row takes the fold of the memberships of its observable, and so do all rows of
that observable.
-/

namespace TalonHound.IocExpiration

/-- `IOC_STATUSES`. -/
inductive IocStatus where
  | active | expired | disabled | suppressed
  deriving DecidableEq

/-- The columns of `ioc_items` that the status is made of. `ioc_items_manual_status_check`
leaves `active` and `expired` for the manual status. -/
structure IocItem where
  id : ℕ
  (observable observableType : String)
  status : IocStatus
  (expiresAt expiredAt : Option ℤ)
  expirationReason : Option String
  manualStatusOverride : Bool
  manualStatus : Option OverrideStatus
  manualExpiresAt : Option ℤ
  deriving DecidableEq

/-- The primary key of `ioc_items`. -/
structure ItemKey where
  id : ℕ
  observableType : String
  deriving DecidableEq

/-- The key of a row. -/
def IocItem.key (i : IocItem) : ItemKey := ⟨i.id, i.observableType⟩

/-- The item that a membership belongs to. -/
def Membership.itemKey (m : Membership) : ItemKey := ⟨m.iocItemId, m.iocObservableType⟩

/-- The identity of a membership: the IOC row and the feed. -/
structure MembershipKey where
  item : ItemKey
  feedId : ℕ
  deriving DecidableEq

/-- The identity of a row. -/
def Membership.key (m : Membership) : MembershipKey := ⟨m.itemKey, m.feedId⟩

/-- `ioc_items` and `ioc_feed_memberships`, under their keys. -/
structure IocTables where
  items : List IocItem
  memberships : List Membership
  unique_item : (items.map IocItem.key).Nodup
  unique_membership : (memberships.map Membership.key).Nodup
  unique_id : (memberships.map Membership.id).Nodup

namespace IocTables

/-- The row with a key. -/
def item? (t : IocTables) (key : ItemKey) : Option IocItem := Rows.lookup IocItem.key t.items key

/-- `UPDATE ioc_items SET f WHERE p`. -/
def updateItems (t : IocTables) (p : IocItem → Bool) (f : IocItem → IocItem)
    (hf : ∀ i, (f i).key = i.key) : IocTables :=
  { t with
    items := t.items.map (Rows.updateWhere p f)
    unique_item := Rows.nodup_map_update (Rows.updateWhere_keeps hf) t.unique_item }

/-- The memberships of the rows with an observable and type. -/
def membershipsOf (t : IocTables) (observable observableType : String) : List Membership :=
  t.memberships.filter fun m => t.items.any fun i =>
    decide (i.key = m.itemKey ∧ i.observable = observable ∧ i.observableType = observableType)

end IocTables

/-- The four columns that a recomputation writes. -/
structure StatusFields where
  status : IocStatus
  (expiresAt expiredAt : Option ℤ)
  expirationReason : Option String
  deriving DecidableEq

/-- The four columns of a row. -/
def IocItem.fields (i : IocItem) : StatusFields :=
  ⟨i.status, i.expiresAt, i.expiredAt, i.expirationReason⟩

/-- The `SET` of a recomputation. -/
def IocItem.withFields (f : StatusFields) (i : IocItem) : IocItem :=
  { i with
    status := f.status
    expiresAt := f.expiresAt
    expiredAt := f.expiredAt
    expirationReason := f.expirationReason }

/-- The `SET` of a suppression. -/
def IocItem.suppress (i : IocItem) : IocItem := { i with status := .suppressed }

@[simp] theorem IocItem.key_withFields (f : StatusFields) (i : IocItem) :
    (i.withFields f).key = i.key := rfl

@[simp] theorem IocItem.key_suppress (i : IocItem) : i.suppress.key = i.key := rfl

/-- An override status as the status of an IOC. -/
def OverrideStatus.toIocStatus : OverrideStatus → IocStatus
  | .active => .active
  | .expired => .expired

/-- The status that a manual override asks for. -/
def manualNextStatus (now : ℤ) (ioc : IocItem) : IocStatus :=
  if ioc.manualExpiresAt.any fun date => decide (date ≤ now) then .expired
  else (ioc.manualStatus.getD .active).toIocStatus

/-- The patch of a row with a manual override. `manual_override_reason` is not among the
columns that are read. -/
def manualPatch (now : ℤ) (ioc : IocItem) : StatusFields where
  status := manualNextStatus now ioc
  expiresAt := ioc.manualExpiresAt
  expiredAt := if manualNextStatus now ioc = .expired then ioc.expiredAt <|> some now else none
  expirationReason := some "manual_override"

/-- The row has the patch already. -/
def manualSettled (now : ℤ) (ioc : IocItem) : Bool :=
  let patch := manualPatch now ioc
  decide (ioc.status = patch.status ∧ ioc.expiresAt = patch.expiresAt ∧
    ioc.expiredAt = patch.expiredAt ∧
    ioc.expirationReason.getD "" = patch.expirationReason.getD "")

/-- A membership that keeps its IOC active. -/
def Membership.isLive (m : Membership) : Bool :=
  decide (m.status = .active) && m.purgedAt.isNone

/-- The status that memberships fold to. -/
def foldStatus (memberships : List Membership) : IocStatus :=
  if memberships.isEmpty || memberships.any (·.isLive) then .active else .expired

/-- The `MIN(m.expires_at)` over the live memberships. -/
def minExpires (memberships : List Membership) : Option ℤ :=
  ((memberships.filter (·.isLive)).filterMap (·.expiresAt)).min?

/-- The fields of the fold, for a row with the date `expiredAt`. -/
def foldFields (now : ℤ) (memberships : List Membership) (expiredAt : Option ℤ) : StatusFields where
  status := foldStatus memberships
  expiresAt := minExpires memberships
  expiredAt := if foldStatus memberships = .expired then expiredAt <|> some now else none
  expirationReason :=
    if foldStatus memberships = .expired then some "all_feed_memberships_expired" else none

/-- The row has the fields of the fold already. -/
def foldSettled (now : ℤ) (memberships : List Membership) (ioc : IocItem) : Bool :=
  let f := foldFields now memberships ioc.expiredAt
  decide (ioc.status = f.status ∧ ioc.expiresAt = f.expiresAt ∧
    (f.status ≠ .expired ∨ ioc.expiredAt.isSome) ∧
    ioc.expirationReason.getD "" = f.expirationReason.getD "" ∧
    (f.status ≠ .expired ∨ ioc.expiredAt = f.expiredAt))

/-- What `recomputeIocGlobalStatus` returns. -/
inductive RecomputeResult where
  | notFound
  | unchanged (status : IocStatus)
  | changed (status : IocStatus)

namespace IocTables

/-- The memberships that count for a row. -/
def membershipsFor (t : IocTables) (ioc : IocItem) : List Membership :=
  t.membershipsOf ioc.observable ioc.observableType

/-- The update of one row. -/
def updateItem (t : IocTables) (key : ItemKey) (f : IocItem → IocItem)
    (hf : ∀ i, (f i).key = i.key) : IocTables :=
  t.updateItems (fun i => decide (i.key = key)) f hf

/-- The update of all rows of an observable. -/
def updateObservable (t : IocTables) (observable observableType : String)
    (f : StatusFields) : IocTables :=
  t.updateItems (fun i => decide (i.observable = observable ∧ i.observableType = observableType))
    (IocItem.withFields f) (IocItem.key_withFields f)

end IocTables

/-- The last part of `recomputeIocGlobalStatus`: the fold over the memberships. -/
def recomputeFold (now : ℤ) (t : IocTables) (ioc : IocItem) : RecomputeResult × IocTables :=
  let memberships := t.membershipsFor ioc
  let f := foldFields now memberships ioc.expiredAt
  if foldSettled now memberships ioc then (.unchanged f.status, t)
  else
    let rowCount := (t.items.filter fun i =>
      decide (i.observable = ioc.observable ∧ i.observableType = ioc.observableType ∧
        i.fields ≠ f)).length
    (if rowCount = 0 then .unchanged f.status else .changed f.status,
      t.updateObservable ioc.observable ioc.observableType f)

/-- `recomputeIocGlobalStatus`, with the answer of `isIocSuppressed`. -/
def recomputeIocGlobalStatus (isIocSuppressed : String → String → Bool) (now : ℤ) (t : IocTables)
    (key : ItemKey) : RecomputeResult × IocTables :=
  match t.item? key with
  | none => (.notFound, t)
  | some ioc =>
    if isIocSuppressed ioc.observable ioc.observableType then
      if ioc.status = .suppressed then (.unchanged .suppressed, t)
      else (.changed .suppressed, t.updateItem key IocItem.suppress IocItem.key_suppress)
    else if ioc.status = .disabled then (.unchanged .disabled, t)
    else if ioc.manualStatusOverride then
      let patch := manualPatch now ioc
      if manualSettled now ioc then (.unchanged patch.status, t)
      else
        (.changed patch.status,
          t.updateItem key (IocItem.withFields patch) (IocItem.key_withFields patch))
    else recomputeFold now t ioc

end TalonHound.IocExpiration
