import TalonHound.Usom.SecondRun

/-!
# The counters of an import

`classifyStageAgainstExisting` runs before any write; its counts against what the later statements
do to memberships.
-/

namespace TalonHound.Usom

open Bool List TalonHound.IocExpiration

/-- The counters are the numbers of memberships that were inserted, that became healthy, and that
were healthy and got another fingerprint. -/
structure CountsMemberships (db : UsomDb) (r : FinalizeResult) : Prop where
  created : r.count .created =
    r.db.tables.memberships.countP fun m => (db.tables.membership? m.key).isNone
  reactivated : r.count .reactivated = db.tables.memberships.countP fun m =>
    !isHealthy m && (r.db.tables.membership? m.key).any isHealthy
  changed : r.count .changed = db.tables.memberships.countP fun m =>
    isHealthy m && m.contentFingerprint.isSome &&
      (r.db.tables.membership? m.key).any (·.contentFingerprint ≠ m.contentFingerprint)

variable {createdAt : ItemKey → Option ℤ} {feedId : ℕ} {call : FinalizeCall} {db : UsomDb}
  {priorSnapshotHash : Option String} {e : StageEntry} {m : Membership} {i : IocItem}
  {key : ItemKey} {c : CanonicalRow}

section Counts

variable (feedId db) in
/-- The membership from before on a canonical row. -/
def priorMembership (c : CanonicalRow) : Option Membership :=
  c.item.bind fun key => db.tables.membership? ⟨key, feedId⟩

/-- A new IOC has no membership, so entries are classified by the canonical rows of the later
statements. -/
theorem outcomes_eq : outcomes createdAt feedId call db =
    (canonicalRows createdAt call db).map fun c =>
      classify c.entry (priorMembership feedId db c) := by
  unfold outcomes canonicalBefore canonicalRows buildStageCanonical
  rw [map_map, map_map]
  refine map_congr_left fun e he => ?_
  unfold Function.comp priorMembership
  dsimp only
  rcases itemKeys_insertNewIocs createdAt call db e.observed with hsame | ⟨hempty, hnew⟩
  · rw [hsame]
  · have hnone : oldest createdAt (itemKeys db.tables e.observed) = none :=
      oldest_eq_none.mpr hempty
    rw [hnone]
    cases hitem : oldest createdAt (itemKeys (insertNewIocs createdAt call db).tables e.observed) with
    | none => rfl
    | some key =>
      have habsent : db.tables.membership? ⟨key, feedId⟩ = none := by
        refine Rows.lookup_eq_none.mpr fun hmem => ?_
        obtain ⟨m, hm, hkey⟩ := mem_map.mp hmem
        have hlt := (db.memberships_lt m hm).2
        have hid : db.nextItem ≤ key.id := hnew key (oldest_mem hitem)
        have hsame : m.iocItemId = key.id := congrArg (fun k => k.item.id) hkey
        omega
      rw [Option.bind_some, habsent]
      rfl

variable (createdAt feedId call db) in
/-- Canonical rows are told apart by their memberships. -/
theorem nodup_canonicalRows : ((canonicalRows createdAt call db).map fun c =>
    c.item.map fun key => MembershipKey.mk key feedId).Nodup := by
  have hrows : (canonicalRows createdAt call db).Nodup := by
    refine List.Nodup.of_map CanonicalRow.entry ?_
    have hentries : (canonicalRows createdAt call db).map CanonicalRow.entry = call.kept.entries := by
      unfold canonicalRows buildStageCanonical
      rw [map_map]
      exact map_id _
    rw [hentries]
    exact List.Nodup.of_map _ call.kept.unique
  refine List.Nodup.map_on (fun c hc c' hc' hsame => ?_) hrows
  obtain ⟨i, -, hitem, -⟩ := canonicalRows_item hc
  obtain ⟨i', -, hitem', -⟩ := canonicalRows_item hc'
  rw [hitem, hitem'] at hsame
  have hkey : i.key = i'.key := congrArg MembershipKey.item (Option.some.inj hsame)
  exact canonical_inj hc hc' (hitem.trans (congrArg some hkey)) hitem'

theorem nodup_some_key {memberships : List Membership}
    (h : (memberships.map Membership.key).Nodup) :
    (memberships.map fun m => some m.key).Nodup := by
  have hmap : (memberships.map fun m => some m.key) = (memberships.map Membership.key).map some := by
    rw [map_map]
    rfl
  rw [hmap]
  exact h.map (Option.some_injective _)

theorem priorMembership_eq_some : priorMembership feedId db c = some m ↔
    m ∈ db.tables.memberships ∧ m.feedId = feedId ∧ c.item = some m.itemKey := by
  unfold priorMembership
  rw [Option.bind_eq_some_iff]
  constructor
  · rintro ⟨key, hkey, hm⟩
    obtain ⟨hmem, hsame⟩ := Rows.mem_of_lookup hm
    refine ⟨hmem, congrArg MembershipKey.feedId hsame, ?_⟩
    rw [hkey]
    exact congrArg some (congrArg MembershipKey.item hsame).symm
  · rintro ⟨hmem, hfeed, hitem⟩
    refine ⟨m.itemKey, hitem, ?_⟩
    have hkey : m.key = ⟨m.itemKey, feedId⟩ := congrArg (MembershipKey.mk m.itemKey) hfeed
    rw [← hkey]
    exact Rows.lookup_key db.tables.unique_membership hmem

/-- Counting canonical rows by their membership is counting staged memberships. -/
theorem countP_priorMembership (q : StageEntry → Membership → Bool) :
    (canonicalRows createdAt call db).countP
        (fun c => (priorMembership feedId db c).any (q c.entry)) =
      db.tables.memberships.countP fun m =>
        (stagedEntry feedId (canonicalRows createdAt call db) m).any fun e => q e m := by
  refine Rows.countP_eq_of_keys (nodup_canonicalRows createdAt feedId call db)
    (nodup_some_key db.tables.unique_membership) fun k => ?_
  constructor
  · rintro ⟨c, hc, hany, hk⟩
    obtain ⟨m, hm, hq⟩ := (Option.any_eq_true _ _).mp hany
    obtain ⟨hmem, hfeed, hitem⟩ := priorMembership_eq_some.mp hm
    refine ⟨m, hmem, (Option.any_eq_true _ _).mpr ⟨c.entry, ?_, hq⟩, ?_⟩
    · exact stagedEntry_eq_some.mpr ⟨hfeed, c, hc, hitem, rfl⟩
    · rw [← hk, hitem, ← hfeed]
      rfl
  · rintro ⟨m, hmem, hany, hk⟩
    obtain ⟨e, hstaged, hq⟩ := (Option.any_eq_true _ _).mp hany
    obtain ⟨hfeed, c, hc, hitem, rfl⟩ := stagedEntry_eq_some.mp hstaged
    refine ⟨c, hc, (Option.any_eq_true _ _).mpr ⟨m, ?_, hq⟩, ?_⟩
    · exact priorMembership_eq_some.mpr ⟨hmem, hfeed, hitem⟩
    · rw [← hk, hitem, ← hfeed]
      rfl

variable {membership : Option Membership}

theorem classify_created_iff : classify e membership = .created ↔ membership.isNone = true := by
  cases membership with
  | none => exact ⟨fun _ => rfl, fun _ => rfl⟩
  | some m =>
    unfold classify
    dsimp only
    split
    · simp
    · split <;> simp

theorem classify_reactivated_iff :
    classify e membership = .reactivated ↔ membership.any (fun m => !isHealthy m) = true := by
  cases membership with
  | none => simp [classify]
  | some m =>
    rw [Option.any_some]
    unfold classify
    dsimp only
    split
    · next hnot => exact ⟨fun _ => hnot, fun _ => rfl⟩
    · next hhealthy =>
      refine ⟨fun h => ?_, fun h => absurd h hhealthy⟩
      split at h <;> cases h

theorem classify_changed_iff :
    classify e membership = .changed ↔ membership.any (fun m => isHealthy m &&
      m.contentFingerprint.any (· ≠ e.providerFingerprint)) = true := by
  cases membership with
  | none => simp [classify]
  | some m =>
    rw [Option.any_some]
    unfold classify
    dsimp only
    split
    · next hnot =>
      rw [not_eq_true'] at hnot
      rw [hnot]
      simp
    · next hhealthy =>
      rw [Bool.not_eq_true', Bool.not_eq_false] at hhealthy
      rw [hhealthy, Bool.true_and]
      split
      · next hchanged => exact ⟨fun _ => hchanged, fun _ => rfl⟩
      · next hsame => exact ⟨(fun h => by cases h), fun h => absurd h hsame⟩

/-- Entries with an outcome are counted by their memberships. -/
theorem count_outcomes (o : Outcome) (p : StageEntry → Option Membership → Bool)
    (hp : ∀ e membership, classify e membership = o ↔ p e membership = true) :
    (outcomes createdAt feedId call db).count o =
      (canonicalRows createdAt call db).countP fun c => p c.entry (priorMembership feedId db c) := by
  rw [outcomes_eq, count_eq_countP, countP_map]
  refine countP_congr fun c _ => ?_
  simp only [Function.comp, beq_iff_eq]
  exact hp c.entry (priorMembership feedId db c)

/-- What an import leaves under the key of a membership. -/
theorem membership?_finalizeUsomImport (hm : m ∈ db.tables.memberships) :
    (finalizeUsomImport createdAt feedId call db priorSnapshotHash).db.tables.membership? m.key =
      some (finalMembership createdAt feedId call db priorSnapshotHash m) := by
  obtain ⟨news, hmemberships, -⟩ := memberships_markedDb
  rw [← (finalMembership_same createdAt feedId call db priorSnapshotHash m).2]
  refine Rows.lookup_key
    (finalizeUsomImport createdAt feedId call db priorSnapshotHash).db.tables.unique_membership ?_
  rw [memberships_finalizeUsomImport, hmemberships]
  exact mem_map_of_mem (mem_append_left _ hm)

/-- Entries that are counted as created get memberships. -/
theorem count_created : (outcomes createdAt feedId call db).count .created =
    (finalizeUsomImport createdAt feedId call db priorSnapshotHash).db.tables.memberships.countP
      fun m => (db.tables.membership? m.key).isNone := by
  obtain ⟨news, hmemberships, hnews⟩ := memberships_markedDb
  rw [count_outcomes .created (fun _ membership => membership.isNone)
    fun _ _ => classify_created_iff]
  refine Rows.countP_eq_of_keys (nodup_canonicalRows createdAt feedId call db)
    (nodup_some_key (finalizeUsomImport createdAt feedId call db
      priorSnapshotHash).db.tables.unique_membership) fun k => ?_
  constructor
  · rintro ⟨c, hc, hnone, hk⟩
    obtain ⟨i, -, hitem, -⟩ := canonicalRows_item hc
    obtain ⟨m, hm, hkey⟩ := mem_map.mp (present_markedDb hc hitem)
    refine ⟨m, hm, ?_, ?_⟩
    · unfold priorMembership at hnone
      rw [hitem, Option.bind_some] at hnone
      rw [hkey]
      exact hnone
    · rw [← hk, hitem, hkey]
      rfl
  · rintro ⟨m', hm', hnone, hk⟩
    rw [memberships_finalizeUsomImport, hmemberships] at hm'
    obtain ⟨m, hm, rfl⟩ := mem_map.mp hm'
    have hsame := (finalMembership_same createdAt feedId call db priorSnapshotHash m).2
    rw [hsame] at hnone hk
    rcases mem_append.mp hm with hold | hnew
    · have hlookup : db.tables.membership? m.key = some m :=
        Rows.lookup_key db.tables.unique_membership hold
      rw [hlookup] at hnone
      cases hnone
    · obtain ⟨c, hc, key, id, hitem, -, rfl⟩ := hnews m hnew
      refine ⟨c, hc, ?_, ?_⟩
      · unfold priorMembership
        rw [hitem, Option.bind_some]
        exact hnone
      · rw [← hk, hitem]
        rfl

variable (priorSnapshotHash) in
/-- A membership that is not staged does not become healthy, and keeps its fingerprint. -/
theorem finalMembership_unstaged
    (hnone : stagedEntry feedId (canonicalRows createdAt call db) m = none) :
    (isHealthy (finalMembership createdAt feedId call db priorSnapshotHash m) = true →
        isHealthy m = true) ∧
      (finalMembership createdAt feedId call db priorSnapshotHash m).contentFingerprint =
        m.contentFingerprint := by
  unfold finalMembership
  rw [hnone]
  dsimp only
  split
  · unfold markAbsent
    split
    · split
      · refine ⟨fun h => ?_, rfl⟩
        unfold isHealthy markMissing at h
        simp at h
      · exact ⟨id, rfl⟩
    · exact ⟨id, rfl⟩
  · exact ⟨id, rfl⟩

/-- Entries that are counted as changed get another fingerprint in a healthy membership. -/
theorem count_changed : (outcomes createdAt feedId call db).count .changed =
    db.tables.memberships.countP fun m => isHealthy m && m.contentFingerprint.isSome &&
      ((finalizeUsomImport createdAt feedId call db priorSnapshotHash).db.tables.membership?
        m.key).any (·.contentFingerprint ≠ m.contentFingerprint) := by
  rw [count_outcomes .changed (fun e membership => membership.any fun m =>
      isHealthy m && m.contentFingerprint.any (· ≠ e.providerFingerprint))
    fun _ _ => classify_changed_iff,
    countP_priorMembership fun e m =>
      isHealthy m && m.contentFingerprint.any (· ≠ e.providerFingerprint)]
  refine countP_congr fun m hm => ?_
  rw [membership?_finalizeUsomImport hm, Option.any_some]
  cases hstaged : stagedEntry feedId (canonicalRows createdAt call db) m with
  | none =>
    rw [(finalMembership_unstaged priorSnapshotHash hstaged).2]
    simp
  | some e =>
    rw [finalMembership_staged hstaged, (settle_columns feedId call e m).1, Option.any_some]
    cases m.contentFingerprint with
    | none => simp
    | some fingerprint => simp [eq_comm (a := fingerprint)]

/-- Entries that are counted as reactivated become healthy, where staged memberships end live. -/
theorem count_reactivated (hlive : ∀ m ∈ db.tables.memberships,
      ∀ e ∈ stagedEntry feedId (canonicalBefore createdAt call db) m,
        staysLive (call.policyFor feedId m) call.seenAt e m = true) :
    (outcomes createdAt feedId call db).count .reactivated =
      db.tables.memberships.countP fun m => !isHealthy m &&
        ((finalizeUsomImport createdAt feedId call db priorSnapshotHash).db.tables.membership?
          m.key).any isHealthy := by
  rw [count_outcomes .reactivated (fun _ membership =>
      membership.any fun m => !isHealthy m) fun _ _ => classify_reactivated_iff,
    countP_priorMembership fun _ m => !isHealthy m]
  refine countP_congr fun m hm => ?_
  rw [membership?_finalizeUsomImport hm, Option.any_some]
  cases hstaged : stagedEntry feedId (canonicalRows createdAt call db) m with
  | none =>
    have hkeeps := (finalMembership_unstaged priorSnapshotHash hstaged).1
    cases hhealthy : isHealthy m with
    | true => simp
    | false =>
      have hfinal : isHealthy (finalMembership createdAt feedId call db priorSnapshotHash m) =
          false := by
        rw [eq_false_iff]
        intro h
        rw [hkeeps h] at hhealthy
        cases hhealthy
      rw [hfinal]
      simp
  | some e =>
    rw [finalMembership_staged hstaged, isHealthy_settle, isLive_settle,
      hlive m hm e (stagedEntry_canonicalBefore hm ▸ hstaged), Option.any_some,
      Bool.and_true]

end Counts

end TalonHound.Usom
