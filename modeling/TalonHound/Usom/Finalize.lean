import TalonHound.Usom.Stage

/-!
# The transaction of a USOM import

`finalizeUsomImport`: classification, new IOCs, memberships, evidence, policies, absence and the
global status, in this order and in one transaction.
-/

namespace TalonHound.Usom

open TalonHound.FileArtifacts (ScopedSuppression)
open List TalonHound.IocExpiration

/-- The tables that an import writes. Ids come from sequences, so no row has a later one. -/
structure UsomDb where
  tables : IocTables
  evidence : List Evidence
  observables : List ObservableRow
  (nextItem nextMembership : ℕ)
  /-- `usom_import_state.full_snapshot_hash`. -/
  fullSnapshotHash : Option String
  items_lt : ∀ i ∈ tables.items, i.id < nextItem
  memberships_lt : ∀ m ∈ tables.memberships, m.id < nextMembership ∧ m.iocItemId < nextItem
  observables_lt : ∀ o ∈ observables, o.item.id < nextItem

/-- A new installation. -/
def emptyDb : UsomDb where
  tables := ⟨[], [], nodup_nil, nodup_nil, nodup_nil⟩
  evidence := []
  observables := []
  nextItem := 0
  nextMembership := 0
  fullSnapshotHash := none
  items_lt := fun _ hi => absurd hi not_mem_nil
  memberships_lt := fun _ hm => absurd hm not_mem_nil
  observables_lt := fun _ ho => absurd ho not_mem_nil

namespace UsomDb

/-- `UPDATE ioc_feed_memberships`. -/
def updateMemberships (db : UsomDb) (f : Membership → Membership)
    (hf : ∀ m, (f m).id = m.id ∧ (f m).key = m.key) : UsomDb :=
  { db with
    tables := { db.tables with
      memberships := db.tables.memberships.map f
      unique_membership := Rows.nodup_map_update (fun m => (hf m).2) db.tables.unique_membership
      unique_id := Rows.nodup_map_update (fun m => (hf m).1) db.tables.unique_id }
    memberships_lt := by
      intro m hm
      obtain ⟨m₀, hm₀, rfl⟩ := mem_map.mp hm
      have hkey : (f m₀).iocItemId = m₀.iocItemId := congrArg (fun k => k.item.id) (hf m₀).2
      rw [(hf m₀).1, hkey]
      exact db.memberships_lt m₀ hm₀ }

/-- `UPDATE ioc_items`. -/
def updateItems (db : UsomDb) (f : IocItem → IocItem) (hf : ∀ i, (f i).key = i.key) : UsomDb :=
  { db with
    tables := { db.tables with
      items := db.tables.items.map f
      unique_item := Rows.nodup_map_update hf db.tables.unique_item }
    items_lt := by
      intro i hi
      obtain ⟨i₀, hi₀, rfl⟩ := mem_map.mp hi
      have hid : (f i₀).id = i₀.id := congrArg ItemKey.id (hf i₀)
      rw [hid]
      exact db.items_lt i₀ hi₀ }

/-- A new row of `ioc_items`. -/
def insertItem (db : UsomDb) (o : Observed) : UsomDb :=
  { db with
    tables := db.tables.insertItem (newItem db.nextItem o) (by
      intro hmem
      obtain ⟨i, hi, hkey⟩ := mem_map.mp hmem
      have hlt := db.items_lt i hi
      have hid : i.id = db.nextItem := congrArg ItemKey.id hkey
      omega)
    nextItem := db.nextItem + 1
    items_lt := by
      intro i hi
      rcases mem_append.mp hi with hold | hnew
      · have := db.items_lt i hold
        omega
      · obtain rfl := mem_singleton.mp hnew
        exact Nat.lt_succ_self _
    memberships_lt := by
      intro m hm
      have := db.memberships_lt m hm
      omega
    observables_lt := by
      intro o ho
      have := db.observables_lt o ho
      omega }

/-- A new row of `ioc_observables` for an IOC, unless it is there. -/
def insertObservable (db : UsomDb) (row : ObservableRow) : UsomDb :=
  if h : row ∉ db.observables ∧ row.item.id < db.nextItem then
    { db with
      observables := db.observables ++ [row]
      observables_lt := by
        intro o ho
        rcases mem_append.mp ho with hold | hnew
        · exact db.observables_lt o hold
        · obtain rfl := mem_singleton.mp hnew
          exact h.2 }
  else db

/-- A new membership of an IOC, unless it is there. -/
def insertMembership (db : UsomDb) (feedId : ℕ) (key : ItemKey) (e : StageEntry) (seenAt : ℤ) :
    UsomDb :=
  let m := insertedMembership db.nextMembership feedId key e seenAt
  if h : m.key ∉ db.tables.memberships.map Membership.key ∧ key.id < db.nextItem then
    { db with
      tables := db.tables.insertMembership m h.1 (by
        intro hmem
        obtain ⟨m₀, hm₀, hid⟩ := mem_map.mp hmem
        have hlt := (db.memberships_lt m₀ hm₀).1
        have hid' : m₀.id = db.nextMembership := hid
        omega)
      nextMembership := db.nextMembership + 1
      memberships_lt := by
        intro m₀ hm₀
        rcases mem_append.mp hm₀ with hold | hnew
        · have := db.memberships_lt m₀ hold
          omega
        · obtain rfl := mem_singleton.mp hnew
          exact ⟨Nat.lt_succ_self _, h.2⟩ }
  else db

end UsomDb

/-- `mode`. -/
inductive RunMode where
  | incremental | fullReconciliation
  deriving DecidableEq

/-- The stage of an import, its parameters, and the tables of policies and suppressions. -/
structure FinalizeCall where
  stage : Stage
  seenAt : ℤ
  /-- `NOW()`. -/
  now : ℤ
  mode : RunMode
  snapshotHash : Option String
  snapshotStable : Bool
  policies : PolicyTables
  suppressions : List ScopedSuppression

/-- An incremental import of one domain, without policies. -/
def importOf (name : String) (seenAt : ℤ) : FinalizeCall where
  stage := oneDomain name
  seenAt := seenAt
  now := seenAt
  mode := .incremental
  snapshotHash := none
  snapshotStable := true
  policies := ⟨[], []⟩
  suppressions := []

/-- The stage without suppressed entries. -/
def FinalizeCall.kept (call : FinalizeCall) : Stage :=
  removeSuppressedStageEntries call.now call.suppressions call.stage

/-- What `removeSuppressedStageEntries` returns. -/
def FinalizeCall.suppressed (call : FinalizeCall) : ℕ :=
  call.stage.entries.length - call.kept.entries.length

section Statements

variable (feedId : ℕ) (call : FinalizeCall) (canonical : List CanonicalRow)

/-- The policy of a membership. -/
def FinalizeCall.policyFor (m : Membership) : Option FeedPolicy :=
  call.policies.getFeedPolicy feedId m.iocObservableType

/-- The staged entry that a membership of the feed is joined with. -/
def stagedEntry (m : Membership) : Option StageEntry :=
  if m.feedId = feedId then
    (canonical.find? fun c => c.item = some m.itemKey).map CanonicalRow.entry
  else none

/-- An update of the memberships that are joined with a staged entry. -/
def onStaged (f : StageEntry → Membership → Membership) (m : Membership) : Membership :=
  match stagedEntry feedId canonical m with
  | some e => f e m
  | none => m

/-- The memberships that `markMissingMemberships` writes: active ones of a visited type whose IOC
is not staged. -/
def isAbsent (t : IocTables) (m : Membership) : Bool :=
  m.feedId = feedId && m.iocObservableType ∈ storedIocTypes &&
    (absenceGrace (call.policyFor feedId m)).isSome && m.status = .active &&
      !(t.items.any fun i => i.key = m.itemKey && call.kept.entries.any (·.observed = i.observed))

/-- `markMissingMemberships`, on a row. Its batches over the ids are one pass. -/
def markAbsent (t : IocTables) (m : Membership) : Membership :=
  match absenceGrace (call.policyFor feedId m) with
  | some grace => if isAbsent feedId call t m then markMissing grace call.seenAt m else m
  | none => m

/-- `applyPoliciesForSeenMemberships`, on a row of a stored type. -/
def policyStep (m : Membership) : Membership :=
  onStaged feedId canonical
    (fun _ m =>
      if m.iocObservableType ∈ storedIocTypes then
        applyPolicy (call.policyFor feedId m) call.seenAt m
      else m) m

/-- `refreshGlobalIocStatus`, on a row of `ioc_items`. -/
def refreshStep (t : IocTables) (i : IocItem) : IocItem :=
  if call.kept.entries.any (·.observed = i.observed) then
    refreshItem call.seenAt (t.membershipsFor i) i
  else i

end Statements

section Keys

variable {feedId : ℕ} {call : FinalizeCall} {canonical : List CanonicalRow} {t : IocTables}

theorem onStaged_same {f : StageEntry → Membership → Membership}
    (hf : ∀ e m, (f e m).id = m.id ∧ (f e m).key = m.key) (m : Membership) :
    (onStaged feedId canonical f m).id = m.id ∧ (onStaged feedId canonical f m).key = m.key := by
  unfold onStaged
  split
  · exact hf _ m
  · exact ⟨rfl, rfl⟩

theorem adoptMissingFingerprint_same (e : StageEntry) (m : Membership) :
    (adoptMissingFingerprint e m).id = m.id ∧ (adoptMissingFingerprint e m).key = m.key := by
  unfold adoptMissingFingerprint
  split <;> exact ⟨rfl, rfl⟩

theorem upsertMembership_same (seenAt : ℤ) (e : StageEntry) (m : Membership) :
    (upsertMembership e seenAt m).id = m.id ∧ (upsertMembership e seenAt m).key = m.key := by
  unfold upsertMembership
  split <;> exact ⟨rfl, rfl⟩

theorem applyPolicy_same (policy : Option FeedPolicy) (seenAt : ℤ) (m : Membership) :
    (applyPolicy policy seenAt m).id = m.id ∧ (applyPolicy policy seenAt m).key = m.key := by
  unfold applyPolicy
  split <;> exact ⟨rfl, rfl⟩

theorem policyStep_same (m : Membership) :
    (policyStep feedId call canonical m).id = m.id ∧
      (policyStep feedId call canonical m).key = m.key := by
  refine onStaged_same (fun _ m => ?_) m
  split
  · exact applyPolicy_same _ _ m
  · exact ⟨rfl, rfl⟩

theorem markAbsent_same (m : Membership) :
    (markAbsent feedId call t m).id = m.id ∧ (markAbsent feedId call t m).key = m.key := by
  unfold markAbsent
  split
  · split <;> exact ⟨rfl, rfl⟩
  · exact ⟨rfl, rfl⟩

theorem refreshStep_key (i : IocItem) : (refreshStep call t i).key = i.key := by
  unfold refreshStep refreshItem
  split
  · split <;> rfl
  · rfl

end Keys

section Finalize

variable (createdAt : ItemKey → Option ℤ) (feedId : ℕ)

/-- A staged observable gets a row of `ioc_items`, unless it has one. -/
def insertNewItem (db : UsomDb) (e : StageEntry) : UsomDb :=
  if db.tables.items.any (·.observed = e.observed) then db else db.insertItem e.observed

/-- The first statement of `insertNewIocs`. -/
def insertNewItems (stage : Stage) (db : UsomDb) : UsomDb := stage.entries.foldl insertNewItem db

/-- A canonical row with an IOC gets a row of `ioc_observables`. -/
def insertObservableOf (db : UsomDb) (c : CanonicalRow) : UsomDb :=
  match c.item with
  | some key => db.insertObservable (observableRow key c.entry)
  | none => db

/-- The second statement of `insertNewIocs`, over the canonical rows from before the first. -/
def insertObservables (canonical : List CanonicalRow) (db : UsomDb) : UsomDb :=
  canonical.foldl insertObservableOf db

/-- A canonical row with an IOC gets a membership. -/
def insertMembershipOf (seenAt : ℤ) (db : UsomDb) (c : CanonicalRow) : UsomDb :=
  match c.item with
  | some key => db.insertMembership feedId key c.entry seenAt
  | none => db

/-- The insertions of `upsertMemberships`. -/
def insertMemberships (canonical : List CanonicalRow) (seenAt : ℤ) (db : UsomDb) : UsomDb :=
  canonical.foldl (insertMembershipOf feedId seenAt) db

/-- The evidence of a canonical row is inserted or rewritten. -/
def upsertEvidenceOf (rows : List Evidence) (c : CanonicalRow) : List Evidence :=
  match c.item with
  | some key =>
    if rows.any (·.key = ⟨key, feedId⟩) then
      rows.map (Rows.updateWhere (fun r => r.key = ⟨key, feedId⟩) (rewriteEvidence c.entry))
    else rows ++ [insertedEvidence ⟨key, feedId⟩ c.entry]
  | none => rows

/-- `upsertEvidence`. -/
def upsertEvidence (canonical : List CanonicalRow) (rows : List Evidence) : List Evidence :=
  canonical.foldl (upsertEvidenceOf feedId) rows

/-- What `finalizeUsomImport` returns, and how many rows its statements wrote. -/
structure FinalizeResult where
  db : UsomDb
  outcomes : List Outcome
  suppressed : ℕ
  /-- `records_removed`. -/
  (newlyMissing markedMissing : ℕ)
  /-- The row counts of the statements. -/
  writes : List ℕ

/-- How many staged rows have an outcome. -/
def FinalizeResult.count (r : FinalizeResult) (outcome : Outcome) : ℕ := r.outcomes.count outcome

/-- `canSkipAbsentReconciliation`. -/
def canSkipAbsentReconciliation (call : FinalizeCall) (priorSnapshotHash : Option String) : Bool :=
  call.mode = .fullReconciliation && call.snapshotHash.any (· ≠ "") &&
    priorSnapshotHash.any (· ≠ "") && call.snapshotHash = priorSnapshotHash && call.suppressed = 0

/-- `markMissingMemberships` is called, and the stage is not empty. -/
def marksAbsence (call : FinalizeCall) (priorSnapshotHash : Option String) : Bool :=
  call.mode = .fullReconciliation && call.snapshotStable &&
    !canSkipAbsentReconciliation call priorSnapshotHash && !call.kept.entries.isEmpty

/-- The tables after the insertions and updates of memberships. -/
def upsertMemberships (canonical : List CanonicalRow) (seenAt : ℤ) (db : UsomDb) : UsomDb :=
  insertMemberships feedId canonical seenAt
    (db.updateMemberships (onStaged feedId canonical fun e => upsertMembership e seenAt)
      (onStaged_same fun e => upsertMembership_same seenAt e))

/-- The changes of evidence rows: insertions and rewritings. -/
def evidenceWrites (canonical : List CanonicalRow) (rows : List Evidence) : ℕ :=
  canonical.countP fun c =>
    c.item.any fun key =>
      match rows.find? (·.key = ⟨key, feedId⟩) with
      | some row => rewritesEvidence c.entry row
      | none => true

section Stages

variable (call : FinalizeCall) (db : UsomDb)

/-- The canonical rows that `classifyStageAgainstExisting` reads. -/
def canonicalBefore : List CanonicalRow := buildStageCanonical createdAt db.tables call.kept

/-- `classifyStageAgainstExisting`, row by row. -/
def outcomes : List Outcome :=
  (canonicalBefore createdAt call db).map fun c =>
    classify c.entry (c.item.bind fun key => db.tables.membership? ⟨key, feedId⟩)

/-- `insertNewIocs`. -/
def insertNewIocs : UsomDb :=
  insertObservables (canonicalBefore createdAt call db) (insertNewItems call.kept db)

/-- The canonical rows of all later statements. -/
def canonicalRows : List CanonicalRow :=
  buildStageCanonical createdAt (insertNewIocs createdAt call db).tables call.kept

/-- The tables after `adoptMissingFingerprints`. -/
def adoptedDb : UsomDb :=
  (insertNewIocs createdAt call db).updateMemberships
    (onStaged feedId (canonicalRows createdAt call db) adoptMissingFingerprint)
    (onStaged_same adoptMissingFingerprint_same)

/-- The tables after `upsertMemberships`. -/
def upsertedDb : UsomDb :=
  upsertMemberships feedId (canonicalRows createdAt call db) call.seenAt
    (adoptedDb createdAt feedId call db)

/-- The tables after `upsertEvidence`. -/
def evidencedDb : UsomDb :=
  { upsertedDb createdAt feedId call db with
    evidence := upsertEvidence feedId (canonicalRows createdAt call db)
      (upsertedDb createdAt feedId call db).evidence }

/-- The tables after `applyPoliciesForSeenMemberships`. -/
def policedDb : UsomDb :=
  (evidencedDb createdAt feedId call db).updateMemberships
    (policyStep feedId call (canonicalRows createdAt call db)) policyStep_same

/-- The rows that `markMissingMemberships` writes. -/
def absentRows (priorSnapshotHash : Option String) : List Membership :=
  if marksAbsence call priorSnapshotHash then
    (policedDb createdAt feedId call db).tables.memberships.filter
      (isAbsent feedId call (policedDb createdAt feedId call db).tables)
  else []

/-- The tables after `markMissingMemberships`, where it is called. -/
def markedDb (priorSnapshotHash : Option String) : UsomDb :=
  if marksAbsence call priorSnapshotHash then
    (policedDb createdAt feedId call db).updateMemberships
      (markAbsent feedId call (policedDb createdAt feedId call db).tables) markAbsent_same
  else policedDb createdAt feedId call db

/-- The tables after `refreshGlobalIocStatus`. -/
def refreshedDb (priorSnapshotHash : Option String) : UsomDb :=
  (markedDb createdAt feedId call db priorSnapshotHash).updateItems
    (refreshStep call (markedDb createdAt feedId call db priorSnapshotHash).tables) refreshStep_key

/-- The row counts of the statements that write the tables of the import. -/
def writes (priorSnapshotHash : Option String) : List ℕ :=
  let inserted := insertNewIocs createdAt call db
  let canonical := canonicalRows createdAt call db
  let adopted := adoptedDb createdAt feedId call db
  let upserted := upsertedDb createdAt feedId call db
  let marked := markedDb createdAt feedId call db priorSnapshotHash
  [inserted.tables.items.length - db.tables.items.length,
    inserted.observables.length - db.observables.length,
    inserted.tables.memberships.countP fun m =>
      (stagedEntry feedId canonical m).isSome && adopts m,
    adopted.tables.memberships.countP fun m =>
      (stagedEntry feedId canonical m).any fun e => upserts e m,
    upserted.tables.memberships.length - adopted.tables.memberships.length,
    evidenceWrites feedId canonical upserted.evidence,
    upserted.tables.memberships.countP fun m =>
      (stagedEntry feedId canonical m).isSome && m.iocObservableType ∈ storedIocTypes &&
        policyChanges (call.policyFor feedId m) call.seenAt m,
    (absentRows createdAt feedId call db priorSnapshotHash).length,
    marked.tables.items.countP fun i => call.kept.entries.any (·.observed = i.observed) &&
      refreshes call.seenAt (marked.tables.membershipsFor i) i]

/-- `finalizeUsomImport`, up to the cursors and the record of the run. -/
def finalizeUsomImport (priorSnapshotHash : Option String) : FinalizeResult where
  db := { refreshedDb createdAt feedId call db priorSnapshotHash with
    fullSnapshotHash :=
      if call.mode = .fullReconciliation ∧ call.snapshotStable then call.snapshotHash
      else db.fullSnapshotHash }
  outcomes := outcomes createdAt feedId call db
  suppressed := call.suppressed
  newlyMissing :=
    (absentRows createdAt feedId call db priorSnapshotHash).countP (·.missingSince.isNone)
  markedMissing := (absentRows createdAt feedId call db priorSnapshotHash).length
  writes := writes createdAt feedId call db priorSnapshotHash

/-- An import with the snapshot hash that the database holds. -/
def importUsom : FinalizeResult :=
  finalizeUsomImport createdAt feedId call db db.fullSnapshotHash

end Stages

end Finalize

end TalonHound.Usom
