import TalonHound.FileArtifacts.SuppressionIndex
import TalonHound.IocExpiration.GlobalFold

/-!
# An import beside analysts

An import run decides suppressions by the index that it loaded at its start. Analysts meanwhile
commit suppressions and recompute the IOCs that these concern, by a query. Time passes, and
files gain hashes. Every step is one committed change.
-/

namespace TalonHound.IocExpiration

open TalonHound.FileArtifacts (ScopedSuppression SuppressionIndex isIocSuppressedFromIndex
  lowerCase queryIocSuppressedFromDb)

/-- The database, the import run and its index. -/
structure SharedState where
  run : RunState
  files : FileArtifacts.Tables
  suppressions : List ScopedSuppression
  now : ℤ
  index : SuppressionIndex
  /-- The IOCs that an analyst operation still has to recompute. -/
  owed : List ItemKey
  /-- The IOCs that were recomputed: a history variable. -/
  recomputed : List ItemKey

namespace SharedState

variable (s : SharedState)

/-- `isIocSuppressed` within the import run. -/
def inIndex (observable observableType : String) : Bool :=
  isIocSuppressedFromIndex lowerCase s.index observable observableType

/-- `isIocSuppressed` without an import context: an active suppression is committed. -/
def inDatabase (observable observableType : String) : Bool :=
  queryIocSuppressedFromDb lowerCase s.now (s.suppressions.map (·.toSuppressionRow)) observable
    observableType s.files

/-- `createImportOptimizationContext`: the run loads its index. -/
def begin (t : IocTables) (files : FileArtifacts.Tables) (suppressions : List ScopedSuppression)
    (now : ℤ) (owed : List ItemKey) : SharedState where
  run := .begin t
  files := files
  suppressions := suppressions
  now := now
  index := files.loadActiveSuppressionIndex lowerCase lowerCase now suppressions
  owed := owed
  recomputed := []

end SharedState

/-- A step of the import run. -/
inductive ImportStep where
  | insertItem (id : ℕ) (observed : Observed)
  | upsert (policies : PolicyTables) (call : ImportCall) (id : ℕ) (key : MembershipKey)
  | finalize (policies : PolicyTables) (key : MembershipKey)
  | flush
  | fail

/-- The step with the decider of the run. -/
def ImportStep.action (s : SharedState) : ImportStep → RunAction
  | .insertItem id observed => .insertItem id observed
  | .upsert policies call id key => .upsert policies call id key s.inIndex s.now
  | .finalize policies key => .finalize policies s.now key
  | .flush => .recompute s.inIndex s.now
  | .fail => .fail

/-- The IOC that the step recomputes. -/
def ImportStep.recomputes (s : SharedState) : ImportStep → Option ItemKey
  | .upsert policies call id key =>
    (upsertTables policies call id key s.run.tables).bind fun (result, _) =>
      if result.reactivated then some key.item else none
  | .flush => s.run.deferred.head?
  | _ => none

/-- A step of the system. An analyst commits suppressions and names the IOCs that are affected;
these are recomputed one by one. -/
inductive SharedAction where
  | importStep (step : ImportStep)
  | commit (suppressions : List ScopedSuppression) (affected : List ItemKey)
  | recompute (key : ItemKey)
  | drift (now : ℤ) (files : FileArtifacts.Tables)

/-- The operation names every IOC whose suppression it begins or ends. -/
def NamesAffected (s : SharedState) (suppressions : List ScopedSuppression)
    (affected : List ItemKey) : Prop :=
  ∀ i ∈ s.run.tables.items,
    { s with suppressions := suppressions }.inDatabase i.observable i.observableType =
        s.inDatabase i.observable i.observableType ∨ i.key ∈ affected
  deriving Decidable

/-- One step of the system. -/
def sharedStep (s : SharedState) : SharedAction → Option SharedState
  | .importStep step =>
    (runStep s.run (step.action s)).map fun run =>
      { s with run := run, recomputed := (step.recomputes s).toList ++ s.recomputed }
  | .commit suppressions affected =>
    if NamesAffected s suppressions affected then
      some { s with suppressions := suppressions, owed := affected ++ s.owed }
    else none
  | .recompute key =>
    some { s with
      run := { s.run with
        tables := (recomputeIocGlobalStatus s.inDatabase s.now s.run.tables key).2 }
      owed := s.owed.filter (· ≠ key)
      recomputed := key :: s.recomputed }
  | .drift now files => if s.now ≤ now then some { s with now := now, files := files } else none

/-- No recomputed IOC is suppressed without a suppression, unless an analyst operation still has
to recompute it. -/
def SuppressedWithCause (s : SharedState) : Prop :=
  ∀ key ∈ s.recomputed, key ∉ s.owed → ∀ i, s.run.tables.item? key = some i →
    i.status = .suppressed → s.inDatabase i.observable i.observableType = true

/-- A step takes no row out of `suppressed` while an active suppression of it is committed. -/
def KeepsSuppressed (s s' : SharedState) : Prop :=
  ∀ key i i', s.run.tables.item? key = some i → s'.run.tables.item? key = some i' →
    i.status = .suppressed → s'.inDatabase i'.observable i'.observableType = true →
      i'.status = .suppressed

/-- What the index says of a row is still true of the database: it is suppressed there, or its
operation will recompute it; and it is not suppressed there, or no row of it is `suppressed`. -/
def IndexCurrent (s : SharedState) (key : ItemKey) : Prop :=
  ∀ i, s.run.tables.item? key = some i → if s.inIndex i.observable i.observableType then
      s.inDatabase i.observable i.observableType = true ∨ key ∈ s.owed
    else
      s.inDatabase i.observable i.observableType = false ∨
        ∀ r ∈ s.run.tables.items, r.observed = i.observed → r.status ≠ .suppressed
  deriving Decidable

/-- The condition on a step: the import recomputes IOCs that its index is current for, and the
time and the files take no recomputed IOC out of its suppressions. -/
def DecidesCurrently (s : SharedState) : SharedAction → Prop
  | .importStep step => ∀ key, step.recomputes s = some key → IndexCurrent s key
  | .drift now files => ∀ key ∈ s.recomputed, key ∉ s.owed → ∀ i,
      s.run.tables.item? key = some i → i.status = .suppressed →
        s.inDatabase i.observable i.observableType = true →
          { s with now := now, files := files }.inDatabase i.observable i.observableType = true
  | _ => True

instance (s : SharedState) : DecidablePred (DecidesCurrently s)
  | .importStep step => inferInstanceAs (Decidable (∀ key ∈ step.recomputes s, IndexCurrent s key))
  | .drift now files => inferInstanceAs (Decidable (∀ key ∈ s.recomputed, key ∉ s.owed →
      ∀ i ∈ s.run.tables.item? key, i.status = .suppressed →
        s.inDatabase i.observable i.observableType = true →
          { s with now := now, files := files }.inDatabase i.observable i.observableType = true))
  | .commit _ _ => inferInstanceAs (Decidable True)
  | .recompute _ => inferInstanceAs (Decidable True)

end TalonHound.IocExpiration
