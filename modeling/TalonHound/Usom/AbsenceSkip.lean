import TalonHound.IocExpiration.PolicyFields
import TalonHound.Usom.FinalizeEffect

/-!
# Skipping the absence step

A full reconciliation skips `markMissingMemberships` when the hash of its snapshot is the stored
one. That is sound as long as nothing adds an active membership that the stored snapshot does not
list.
-/

namespace TalonHound.Usom

open TalonHound.IocExpiration

/-- The identity of an entry, as the pipeline collects it. -/
def identity (o : Observed) : String := o.observableType ++ "|" ++ o.observable

/-- `buildUsomCanonicalSnapshotHash`. -/
def buildUsomCanonicalSnapshotHash (sha256 : String → String) (identities : List String) : String :=
  sha256 (String.intercalate "\n" (identities.dedup.insertionSort (· ≤ ·)))

/-- The observables that a stage lists, suppressed ones included. -/
def FinalizeCall.listed (call : FinalizeCall) : List Observed :=
  call.stage.entries.map StageEntry.observed

/-- The hash that the pipeline gives to a run. -/
def FinalizeCall.pipelineHash (sha256 : String → String) (call : FinalizeCall) : Option String :=
  match call.mode with
  | .fullReconciliation =>
    some (buildUsomCanonicalSnapshotHash sha256 (call.listed.map identity))
  | .incremental => none

/-- The tables of the feed over time. -/
structure SkipState where
  db : UsomDb
  policies : PolicyTables
  /-- What the snapshot with the stored hash listed: a history variable. -/
  listed : List Observed

/-- What writes the memberships of the feed. -/
inductive SkipAction where
  | finalize (call : FinalizeCall)
  | editPolicies (policies : PolicyTables)
  | reactivate (key : MembershipKey) (matchAt : ℤ)

section Step

variable (sha256 : String → String) (createdAt : ItemKey → Option ℤ) (feedId : ℕ)

/-- The call is one of the pipeline, under the policies of the moment. -/
def SkipState.Calls (s : SkipState) (call : FinalizeCall) : Prop :=
  call.policies = s.policies ∧ call.snapshotHash = call.pipelineHash sha256
  deriving Decidable

/-- The run stores its snapshot hash. -/
def FinalizeCall.storesHash (call : FinalizeCall) : Bool :=
  call.mode = .fullReconciliation && call.snapshotStable

/-- `reactivateMembershipOnMatch` on the membership with a key. -/
def reactivateAt (policies : PolicyTables) (key : MembershipKey) (matchAt : ℤ) (m : Membership) :
    Membership :=
  if m.key = key then reactivateMembershipOnMatch policies matchAt m else m

theorem reactivateAt_same {policies : PolicyTables} {key : MembershipKey} {matchAt : ℤ}
    (m : Membership) : (reactivateAt policies key matchAt m).id = m.id ∧
      (reactivateAt policies key matchAt m).key = m.key := by
  unfold reactivateAt
  split
  · have hbasis := reactivateMembershipOnMatch_basis policies matchAt m
    exact ⟨hbasis.id, hbasis.key⟩
  · exact ⟨rfl, rfl⟩

/-- One step. -/
def skipStep (s : SkipState) : SkipAction → Option SkipState
  | .finalize call =>
    if s.Calls sha256 call then
      some { s with
        db := (importUsom createdAt feedId call s.db).db
        listed := if call.storesHash then call.listed else s.listed }
    else none
  | .editPolicies policies => some { s with policies := policies }
  | .reactivate key matchAt =>
    some { s with
      db := s.db.updateMemberships (reactivateAt s.policies key matchAt) reactivateAt_same }

/-- A snapshot hash is stored. -/
def SkipState.hasSnapshot (s : SkipState) : Bool := s.db.fullSnapshotHash.any (· ≠ "")

/-- The IOC of a membership has an observable in a list. -/
def isListed (t : IocTables) (listed : List Observed) (m : Membership) : Bool :=
  t.items.any fun i => i.key = m.itemKey && i.observed ∈ listed

/-- Nothing adds an active membership beyond the stored snapshot: other runs stage listed
observables only, no type gets a grace time, matches reactivate listed memberships, and a stable
full reconciliation keeps a staged entry. Snapshots with one hash list the same. -/
def StaysListed (s : SkipState) : SkipAction → Prop
  | .finalize call =>
    (s.hasSnapshot = true → call.snapshotHash = s.db.fullSnapshotHash → s.listed ⊆ call.listed) ∧
      (s.hasSnapshot = true → call.storesHash = false →
        ∀ e ∈ call.kept.entries, e.observed ∈ s.listed) ∧
      (call.storesHash = true → call.kept.entries ≠ [])
  | .editPolicies policies => s.hasSnapshot = true → ∀ type ∈ storedIocTypes,
      (absenceGrace (policies.getFeedPolicy feedId type)).isSome →
        (absenceGrace (s.policies.getFeedPolicy feedId type)).isSome
  | .reactivate key _ => s.hasSnapshot = true → key.feedId = feedId →
      ∀ m ∈ s.db.tables.memberships, m.key = key → isListed s.db.tables s.listed m = true

instance (s : SkipState) (a : SkipAction) : Decidable (StaysListed feedId s a) := by
  cases a <;> unfold StaysListed <;> infer_instance

/-- A run that skips the absence step would not have found a membership to mark. -/
def SkipIsSound (s : SkipState) (call : FinalizeCall) : Prop :=
  canSkipAbsentReconciliation call s.db.fullSnapshotHash = true →
    ∀ m ∈ (policedDb createdAt feedId call s.db).tables.memberships,
      isAbsent feedId call (policedDb createdAt feedId call s.db).tables m = true →
        m.missingSince ≠ none
  deriving Decidable

end Step

variable {sha256 : String → String} {createdAt : ItemKey → Option ℤ} {feedId : ℕ}
  {s s' : SkipState} {a : SkipAction} {call : FinalizeCall} {m : Membership} {t t' : IocTables}
  {listed listed' : List Observed}

/-- Active memberships of a type with a grace time that the stored snapshot does not list are
marked missing. -/
def SkipInv (feedId : ℕ) (s : SkipState) : Prop :=
  s.hasSnapshot = true → ∀ m ∈ s.db.tables.memberships, m.feedId = feedId →
    m.iocObservableType ∈ storedIocTypes →
      (absenceGrace (s.policies.getFeedPolicy feedId m.iocObservableType)).isSome = true →
        m.status = .active → isListed s.db.tables s.listed m = false → m.missingSince ≠ none

theorem isListed_eq_true :
    isListed t listed m = true ↔ ∃ i ∈ t.items, i.key = m.itemKey ∧ i.observed ∈ listed := by
  simp [isListed]

/-- What is not listed later was not listed before. -/
theorem isListed_mono {m' : Membership} (hkey : m'.key = m.key)
    (hitems : ∀ i ∈ t.items, ∃ i' ∈ t'.items, i'.key = i.key ∧ i'.observed = i.observed)
    (hlisted : listed ⊆ listed') (h : isListed t' listed' m' = false) :
    isListed t listed m = false := by
  rw [Bool.eq_false_iff] at h ⊢
  intro hold
  obtain ⟨i, hi, hitem, hmem⟩ := isListed_eq_true.mp hold
  obtain ⟨i', hi', hkey', hobserved⟩ := hitems i hi
  refine h (isListed_eq_true.mpr ⟨i', hi', ?_, ?_⟩)
  · exact (hkey'.trans hitem).trans (congrArg MembershipKey.item hkey).symm
  · rw [hobserved]
    exact hlisted hmem

/-- After a run that marks absence, what is active and of a visited type is staged or missing. -/
theorem markAbsent_missing {m : Membership} (hfeed : m.feedId = feedId)
    (htype : m.iocObservableType ∈ storedIocTypes)
    (hgrace : (absenceGrace (call.policyFor feedId m)).isSome = true) (hactive : m.status = .active)
    (hstaged : ¬ ∃ i ∈ t.items, i.key = m.itemKey ∧
      ∃ e ∈ call.kept.entries, e.observed = i.observed) :
    (markAbsent feedId call t m).missingSince ≠ none := by
  have habsent : isAbsent feedId call t m = true := by
    unfold isAbsent
    have hnone : (t.items.any fun i => i.key = m.itemKey &&
        call.kept.entries.any (·.observed = i.observed)) = false := by
      rw [Bool.eq_false_iff]
      intro hany
      obtain ⟨i, hi, hboth⟩ := List.any_eq_true.mp hany
      simp only [Bool.and_eq_true, decide_eq_true_eq, List.any_eq_true] at hboth
      exact hstaged ⟨i, hi, hboth⟩
    rw [hnone]
    simp [hfeed, htype, hgrace, hactive]
  obtain ⟨grace, hsome⟩ := Option.isSome_iff_exists.mp hgrace
  unfold markAbsent
  rw [hsome, habsent]
  simp [markMissing]

theorem isAbsent_eq_true : isAbsent feedId call t m = true ↔ m.feedId = feedId ∧
    m.iocObservableType ∈ storedIocTypes ∧
      (absenceGrace (call.policyFor feedId m)).isSome = true ∧ m.status = .active ∧
        ¬ ∃ i ∈ t.items, i.key = m.itemKey ∧ ∃ e ∈ call.kept.entries, e.observed = i.observed := by
  simp [isAbsent, and_assoc]

/-- Without suppressed entries the whole stage is kept. -/
theorem kept_of_suppressed_eq_zero (h : call.suppressed = 0) :
    call.kept.entries = call.stage.entries := by
  have hsublist : call.kept.entries.Sublist call.stage.entries := List.filter_sublist
  refine hsublist.eq_of_length_le ?_
  unfold FinalizeCall.suppressed at h
  omega

/-- A run that stores its hash skips the absence step only under the stored hash. -/
theorem snapshotHash_of_canSkip {priorSnapshotHash : Option String}
    (h : canSkipAbsentReconciliation call priorSnapshotHash = true) :
    call.snapshotHash = priorSnapshotHash ∧ priorSnapshotHash.any (· ≠ "") = true ∧
      call.suppressed = 0 := by
  unfold canSkipAbsentReconciliation at h
  simp only [Bool.and_eq_true, decide_eq_true_eq] at h
  exact ⟨h.1.2, h.1.1.2, h.2⟩

/-- A run that does not store its hash leaves the stored one. -/
theorem hasSnapshot_of_not_stores (hstores : call.storesHash = false)
    (h : (SkipState.mk (importUsom createdAt feedId call s.db).db s.policies listed).hasSnapshot =
      true) : s.hasSnapshot = true := by
  unfold FinalizeCall.storesHash at hstores
  have hnot : ¬ (call.mode = .fullReconciliation ∧ call.snapshotStable = true) := by
    simpa using hstores
  have hhash : (importUsom createdAt feedId call s.db).db.fullSnapshotHash =
      s.db.fullSnapshotHash := if_neg hnot
  unfold SkipState.hasSnapshot at h ⊢
  rw [hhash] at h
  exact h

section

variable (h : SkipInv feedId s)
include h

theorem SkipInv.finalize (hguard : StaysListed feedId s (.finalize call))
    (hcalls : s.Calls sha256 call) :
    SkipInv feedId { s with
      db := (importUsom createdAt feedId call s.db).db
      listed := if call.storesHash then call.listed else s.listed } := by
  intro hsnapshot m' hm' hfeed htype hgrace hactive hlisted
  obtain ⟨hsame, hother, hkept⟩ := hguard
  obtain ⟨news, hmemberships, hnews⟩ := memberships_markedDb
  have hmem : m' ∈ (s.db.tables.memberships ++ news).map
      (finalMembership createdAt feedId call s.db s.db.fullSnapshotHash) := by
    rw [← hmemberships]
    exact hm'
  obtain ⟨m, hm, rfl⟩ := List.mem_map.mp hmem
  have hkey := (finalMembership_same createdAt feedId call s.db s.db.fullSnapshotHash m).2
  -- An IOC with a staged entry is listed afterwards.
  have hunstaged : ¬ ∃ i ∈ (insertNewIocs createdAt call s.db).tables.items, i.key = m.itemKey ∧
      ∃ e ∈ call.kept.entries, e.observed = i.observed := by
    rintro ⟨i, hi, hitem, e, he, hobserved⟩
    obtain ⟨i', hi', hkey', hobserved'⟩ := item_finalizeUsomImport hi
    have hin : e.observed ∈ if call.storesHash then call.listed else s.listed := by
      cases hstores : call.storesHash with
      | true => exact List.mem_map_of_mem (List.mem_of_mem_filter he)
      | false => exact hother (hasSnapshot_of_not_stores hstores hsnapshot) hstores e he
    rw [Bool.eq_false_iff] at hlisted
    refine hlisted (isListed_eq_true.mpr ⟨i', hi', ?_, ?_⟩)
    · exact (hkey'.trans hitem).trans (congrArg MembershipKey.item hkey).symm
    · rw [hobserved', ← hobserved]
      exact hin
  have hnone : stagedEntry feedId (canonicalRows createdAt call s.db) m = none := by
    cases hstaged : stagedEntry feedId (canonicalRows createdAt call s.db) m with
    | none => rfl
    | some e =>
      obtain ⟨-, -, he, i, hi, hitem, hobserved⟩ := staged_facts hstaged
      exact absurd ⟨i, hi, hitem, e, he, hobserved.symm⟩ hunstaged
  have hold : m ∈ s.db.tables.memberships := by
    rcases List.mem_append.mp hm with hold | hnew
    · exact hold
    · obtain ⟨c, hc, key, id, hitem, -, rfl⟩ := hnews m hnew
      rw [stagedEntry_inserted feedId hc hitem] at hnone
      cases hnone
  unfold finalMembership at hfeed htype hgrace hactive hlisted hkey ⊢
  rw [hnone] at hfeed htype hgrace hactive hlisted hkey ⊢
  cases hmarks : marksAbsence call s.db.fullSnapshotHash with
  | true =>
    rw [hmarks, if_pos rfl] at hfeed htype hgrace hactive
    obtain ⟨hstatus', hfeed', htype'⟩ :=
      markAbsent_columns feedId call (insertNewIocs createdAt call s.db).tables m
    rw [if_pos rfl]
    rw [hstatus'] at hactive
    rw [hfeed'] at hfeed
    rw [htype'] at htype hgrace
    refine markAbsent_missing hfeed htype ?_ hactive hunstaged
    unfold FinalizeCall.policyFor
    rw [hcalls.1]
    exact hgrace
  | false =>
    rw [hmarks, if_neg Bool.false_ne_true] at hfeed htype hgrace hactive hlisted hkey
    rw [if_neg Bool.false_ne_true]
    have hitems : ∀ i ∈ s.db.tables.items,
        ∃ i' ∈ (importUsom createdAt feedId call s.db).db.tables.items,
          i'.key = i.key ∧ i'.observed = i.observed := by
      intro i hi
      exact item_finalizeUsomImport (item_insertNewIocs createdAt call s.db hi)
    cases hstores : call.storesHash with
    | false =>
      rw [hstores] at hlisted
      exact h (hasSnapshot_of_not_stores hstores hsnapshot) m hold hfeed htype hgrace hactive
        (isListed_mono hkey hitems (List.Subset.refl _) hlisted)
    | true =>
      rw [hstores] at hlisted
      have hskip : canSkipAbsentReconciliation call s.db.fullSnapshotHash = true := by
        have hnonempty := hkept hstores
        unfold FinalizeCall.storesHash at hstores
        unfold marksAbsence at hmarks
        rw [hstores] at hmarks
        simpa [hnonempty] using hmarks
      obtain ⟨hhash, hstored, -⟩ := snapshotHash_of_canSkip hskip
      exact h hstored m hold hfeed htype hgrace hactive
        (isListed_mono hkey hitems (hsame hstored hhash) hlisted)

theorem SkipInv.editPolicies {policies : PolicyTables}
    (hguard : StaysListed feedId s (.editPolicies policies)) :
    SkipInv feedId { s with policies := policies } := by
  intro hsnapshot m hm hfeed htype hgrace hactive hlisted
  exact h hsnapshot m hm hfeed htype (hguard hsnapshot _ htype hgrace) hactive hlisted

theorem SkipInv.reactivate {key : MembershipKey} {matchAt : ℤ}
    (hguard : StaysListed feedId s (.reactivate key matchAt)) :
    SkipInv feedId { s with
      db := s.db.updateMemberships (reactivateAt s.policies key matchAt) reactivateAt_same } := by
  intro hsnapshot m' hm' hfeed htype hgrace hactive hlisted
  obtain ⟨m, hm, rfl⟩ := List.mem_map.mp hm'
  have hsame : (reactivateAt s.policies key matchAt m).key = m.key := (reactivateAt_same m).2
  by_cases hkey : m.key = key
  · refine absurd (hguard hsnapshot ?_ m hm hkey) ?_
    · rw [← hkey]
      exact (congrArg MembershipKey.feedId hsame).symm.trans hfeed
    · rw [Bool.not_eq_true]
      exact isListed_mono hsame (fun i hi => ⟨i, hi, rfl, rfl⟩) (List.Subset.refl _) hlisted
  · have hnoop : reactivateAt s.policies key matchAt m = m := if_neg hkey
    rw [hnoop] at hfeed htype hgrace hactive hlisted ⊢
    exact h hsnapshot m hm hfeed htype hgrace hactive hlisted

theorem SkipInv.step (hguard : StaysListed feedId s a)
    (hstep : skipStep sha256 createdAt feedId s a = some s') : SkipInv feedId s' := by
  cases a with
  | finalize call =>
    obtain ⟨hcalls, rfl⟩ := Run.enabled hstep
    exact h.finalize hguard hcalls
  | editPolicies policies =>
    cases hstep
    exact h.editPolicies hguard
  | reactivate key matchAt =>
    cases hstep
    exact h.reactivate hguard

/-- Under the invariant a skip leaves nothing out. -/
theorem SkipInv.skipIsSound (hguard : StaysListed feedId s (.finalize call))
    (hcalls : s.Calls sha256 call) : SkipIsSound createdAt feedId s call := by
  intro hskip m hm habsent
  obtain ⟨hhash, hstored, hsuppressed⟩ := snapshotHash_of_canSkip hskip
  have hpoliced : (policedDb createdAt feedId call s.db).tables.memberships =
      (markedDb createdAt feedId call s.db s.db.fullSnapshotHash).tables.memberships := by
    unfold markedDb marksAbsence
    rw [hskip]
    simp
  obtain ⟨news, hmemberships, hnews⟩ := memberships_markedDb
  rw [hpoliced, hmemberships] at hm
  obtain ⟨m₀, hm₀, rfl⟩ := List.mem_map.mp hm
  have hkey := (finalMembership_same createdAt feedId call s.db s.db.fullSnapshotHash m₀).2
  rw [isAbsent_congr items_policedDb] at habsent
  obtain ⟨hfeed, htype, hgrace, hactive, hunstaged⟩ := isAbsent_eq_true.mp habsent
  have hitem := congrArg MembershipKey.item hkey
  have hnone : stagedEntry feedId (canonicalRows createdAt call s.db) m₀ = none := by
    cases hstaged : stagedEntry feedId (canonicalRows createdAt call s.db) m₀ with
    | none => rfl
    | some e =>
      obtain ⟨-, -, he, i, hi, hsame, hobserved⟩ := staged_facts hstaged
      exact absurd ⟨i, hi, hsame.trans hitem.symm, e, he, hobserved.symm⟩ hunstaged
  have hold : m₀ ∈ s.db.tables.memberships := by
    rcases List.mem_append.mp hm₀ with hold | hnew
    · exact hold
    · obtain ⟨c, hc, key, id, hsome, -, rfl⟩ := hnews m₀ hnew
      rw [stagedEntry_inserted feedId hc hsome] at hnone
      cases hnone
  have hmarks : marksAbsence call s.db.fullSnapshotHash = false := by
    unfold marksAbsence
    rw [hskip]
    simp
  have hnoop : finalMembership createdAt feedId call s.db s.db.fullSnapshotHash m₀ = m₀ := by
    unfold finalMembership
    rw [hnone, hmarks]
    rfl
  rw [hnoop] at hfeed htype hgrace hactive hunstaged ⊢
  refine h hstored m₀ hold hfeed htype ?_ hactive ?_
  · rw [← hcalls.1]
    exact hgrace
  · rw [Bool.eq_false_iff]
    intro hlisted
    obtain ⟨i, hi, hsame, hmem⟩ := isListed_eq_true.mp hlisted
    obtain ⟨e, he, hobserved⟩ := List.mem_map.mp (hguard.1 hstored hhash hmem)
    refine hunstaged ⟨i, item_insertNewIocs createdAt call s.db hi, hsame, e, ?_, hobserved⟩
    rw [kept_of_suppressed_eq_zero hsuppressed]
    exact he

end

/-- All types of the feed get seven days of grace. -/
def sevenDays : PolicyTables := ⟨[⟨1, "all", ⟨true, .missingFromFeedTtl, none, some 7⟩⟩], []⟩

/-- A full reconciliation of one domain. -/
def fullOf (name : String) (seenAt : ℤ) : FinalizeCall where
  stage := oneDomain name
  seenAt := seenAt
  now := seenAt
  mode := .fullReconciliation
  snapshotHash := some (identity ⟨name, "domain"⟩)
  snapshotStable := true
  policies := sevenDays
  suppressions := []

/-- An incremental run of one domain. -/
def incrementalOf (name : String) (seenAt : ℤ) : FinalizeCall :=
  { fullOf name seenAt with mode := .incremental, snapshotHash := none }

end TalonHound.Usom
