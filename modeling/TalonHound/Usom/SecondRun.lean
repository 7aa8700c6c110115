import TalonHound.Usom.BulkItems

/-!
# A second import of the same stage

What the statements of `finalizeUsomImport` find in the tables that an import with the same stage
has left: the same canonical rows, settled memberships and settled evidence.
-/

namespace TalonHound.Usom

open List TalonHound.IocExpiration

variable {createdAt : ItemKey → Option ℤ} {feedId : ℕ} {call : FinalizeCall} {db : UsomDb}
  {canonical : List CanonicalRow} {e : StageEntry} {m : Membership} {i : IocItem} {key : ItemKey}
  {c : CanonicalRow} {seenAt : ℤ} {t : IocTables} {policy : Option FeedPolicy}
  {rows : List Evidence}

/-- An import reads the time only to know which suppressions are live. -/
theorem importUsom_now {now' : ℤ}
    (hkept : FinalizeCall.kept { call with now := now' } = call.kept) :
    importUsom createdAt feedId { call with now := now' } db = importUsom createdAt feedId call db := by
  have hsuppressed : FinalizeCall.suppressed { call with now := now' } = call.suppressed := by
    unfold FinalizeCall.suppressed
    rw [hkept]
  have hbefore : ∀ db, canonicalBefore createdAt { call with now := now' } db =
      canonicalBefore createdAt call db := by
    intro db
    unfold canonicalBefore
    rw [hkept]
  have hinserted : ∀ db, insertNewIocs createdAt { call with now := now' } db =
      insertNewIocs createdAt call db := by
    intro db
    unfold insertNewIocs
    rw [hkept, hbefore]
  have hcanonical : ∀ db, canonicalRows createdAt { call with now := now' } db =
      canonicalRows createdAt call db := by
    intro db
    unfold canonicalRows
    rw [hkept, hinserted]
  have hadopted : ∀ db, adoptedDb createdAt feedId { call with now := now' } db =
      adoptedDb createdAt feedId call db := by
    intro db
    unfold adoptedDb
    simp only [hinserted, hcanonical]
  have hupserted : ∀ db, upsertedDb createdAt feedId { call with now := now' } db =
      upsertedDb createdAt feedId call db := by
    intro db
    unfold upsertedDb
    simp only [hadopted, hcanonical]
  have hpoliced : ∀ db, policedDb createdAt feedId { call with now := now' } db =
      policedDb createdAt feedId call db := by
    intro db
    unfold policedDb evidencedDb
    simp only [hupserted, hcanonical]
    rfl
  have hmarks : ∀ hash, marksAbsence { call with now := now' } hash = marksAbsence call hash := by
    intro hash
    unfold marksAbsence canSkipAbsentReconciliation
    simp only [hkept, hsuppressed]
  have habsent : ∀ t, isAbsent feedId { call with now := now' } t = isAbsent feedId call t := by
    intro t
    funext m
    unfold isAbsent
    rw [hkept]
    rfl
  have hmark : ∀ t, markAbsent feedId { call with now := now' } t = markAbsent feedId call t := by
    intro t
    funext m
    unfold markAbsent
    rw [habsent]
    rfl
  have hmarked : ∀ db hash, markedDb createdAt feedId { call with now := now' } db hash =
      markedDb createdAt feedId call db hash := by
    intro db hash
    unfold markedDb
    simp only [hpoliced, hmarks, hmark]
  have hrefresh : ∀ t, refreshStep { call with now := now' } t = refreshStep call t := by
    intro t
    funext i
    unfold refreshStep
    rw [hkept]
  have hrefreshed : ∀ db hash, refreshedDb createdAt feedId { call with now := now' } db hash =
      refreshedDb createdAt feedId call db hash := by
    intro db hash
    unfold refreshedDb
    simp only [hmarked, hrefresh]
  have hrows : ∀ db hash, absentRows createdAt feedId { call with now := now' } db hash =
      absentRows createdAt feedId call db hash := by
    intro db hash
    unfold absentRows
    simp only [hpoliced, hmarks, habsent]
  have hpolicy : ∀ m, FinalizeCall.policyFor feedId { call with now := now' } m =
      call.policyFor feedId m := fun m => rfl
  unfold importUsom finalizeUsomImport outcomes writes
  simp only [hadopted, hupserted, hmarked, hrefreshed, hrows, hbefore, hinserted, hcanonical,
    hsuppressed, hkept, hpolicy]

/-- The policy statement reads no column that it writes, but for the ones it keeps. -/
theorem policySql_policyFields (policy : Option FeedPolicy) (seenAt : ℤ) (m : Membership) :
    policySql policy (policyFields policy seenAt m) = policySql policy m := rfl

theorem policyExpires_policyFields (policy : Option FeedPolicy) (seenAt : ℤ) (m : Membership) :
    policyExpires (policyFields policy seenAt m)
      (policySql policy (policyFields policy seenAt m)) seenAt =
        policyExpires m (policySql policy m) seenAt := rfl

theorem overrideEnabled_policyFields (policy : Option FeedPolicy) (seenAt : ℤ) (m : Membership) :
    (policyFields policy seenAt m).overrideEnabled = m.overrideEnabled := rfl

theorem status_policyFields_policyFields (policy : Option FeedPolicy) (seenAt : ℤ)
    (m : Membership) :
    (policyFields policy seenAt (policyFields policy seenAt m)).status =
      (policyFields policy seenAt m).status := by
  cases hon : m.overrideEnabled with
  | false =>
    have hoff : (policyFields policy seenAt m).overrideEnabled = false := hon
    rw [status_policyFields_of_off hoff, policySql_policyFields, status_policyFields_of_off hon]
    split <;> rfl
  | true =>
    have hon' : (policyFields policy seenAt m).overrideEnabled = true := hon
    have hstatus : (policyFields policy seenAt m).overrideStatus = m.overrideStatus := rfl
    rw [status_policyFields_of_on hon', hstatus, status_policyFields_of_on hon]
    cases m.overrideStatus <;> rfl

/-- A date that the policy statement sets once it keeps. -/
theorem expiredAt_policyFields_policyFields (policy : Option FeedPolicy) (seenAt : ℤ)
    (m : Membership) :
    (policyFields policy seenAt (policyFields policy seenAt m)).expiredAt =
      (policyFields policy seenAt m).expiredAt := by
  have hfields : ∀ m, (policyFields policy seenAt m).expiredAt =
      if policyExpires m (policySql policy m) seenAt then m.expiredAt <|> some seenAt
      else if m.overrideEnabled then m.expiredAt else none := fun _ => rfl
  rw [hfields (policyFields policy seenAt m), policyExpires_policyFields,
    overrideEnabled_policyFields, hfields m]
  cases policyExpires m (policySql policy m) seenAt with
  | true => cases m.expiredAt <;> rfl
  | false => cases m.overrideEnabled <;> rfl

theorem expirationReason_policyFields_policyFields (policy : Option FeedPolicy) (seenAt : ℤ)
    (m : Membership) :
    (policyFields policy seenAt (policyFields policy seenAt m)).expirationReason =
      (policyFields policy seenAt m).expirationReason := by
  have hfields : ∀ m, (policyFields policy seenAt m).expirationReason =
      if policyExpires m (policySql policy m) seenAt then
        some ((policy.map fun p => p.expirationMode.text).getD "never")
      else if m.overrideEnabled then m.expirationReason else none := fun _ => rfl
  rw [hfields (policyFields policy seenAt m), policyExpires_policyFields,
    overrideEnabled_policyFields, hfields m]
  cases policyExpires m (policySql policy m) seenAt with
  | true => rfl
  | false => cases m.overrideEnabled <;> rfl

/-- The change guard passes over what the policy statement has written. -/
theorem policyChanges_policyFields (policy : Option FeedPolicy) (seenAt : ℤ) (m : Membership) :
    policyChanges policy seenAt (policyFields policy seenAt m) = false := by
  have hpolicyExpiresAt : (policyFields policy seenAt (policyFields policy seenAt m)).policyExpiresAt =
      (policyFields policy seenAt m).policyExpiresAt := rfl
  have hexpiresAt : (policyFields policy seenAt (policyFields policy seenAt m)).expiresAt =
      (policyFields policy seenAt m).expiresAt := rfl
  unfold policyChanges
  dsimp only
  rw [hpolicyExpiresAt, hexpiresAt, status_policyFields_policyFields,
    expiredAt_policyFields_policyFields, expirationReason_policyFields_policyFields]
  simp

/-- A settled membership has the fingerprint of its entry and is not missing. -/
theorem settle_columns (feedId : ℕ) (call : FinalizeCall) (e : StageEntry) (m : Membership) :
    (settle feedId call e m).contentFingerprint = some e.providerFingerprint ∧
      (settle feedId call e m).missingSince = none := by
  have hfacts := upserted_facts (call.policyFor feedId m) call.seenAt e m
  unfold settle
  rw [applyPolicy_eq]
  exact ⟨hfacts.contentFingerprint, hfacts.missingSince⟩

theorem isHealthy_settle (feedId : ℕ) (call : FinalizeCall) (e : StageEntry) (m : Membership) :
    isHealthy (settle feedId call e m) = (settle feedId call e m).isLive := by
  unfold isHealthy Membership.isLive
  rw [(settle_columns feedId call e m).2]
  simp

/-- The policy statement passes over a settled membership. -/
theorem policyChanges_settle (feedId : ℕ) (call : FinalizeCall) (e : StageEntry) (m : Membership) :
    policyChanges (call.policyFor feedId (settle feedId call e m)) call.seenAt
      (settle feedId call e m) = false := by
  have htype : (settle feedId call e m).iocObservableType = m.iocObservableType :=
    congrArg (fun k => k.item.observableType) (settle_same m).2
  have hpolicy : call.policyFor feedId (settle feedId call e m) = call.policyFor feedId m := by
    unfold FinalizeCall.policyFor
    rw [htype]
  rw [hpolicy]
  unfold settle
  rw [applyPolicy_eq]
  exact policyChanges_policyFields _ _ _

/-- The upsert passes over a settled membership that is live. -/
theorem upserts_settle (hlive : (settle feedId call e m).isLive = true) :
    upserts e (settle feedId call e m) = false := by
  obtain ⟨hfingerprint, hmissing⟩ := settle_columns feedId call e m
  unfold Membership.isLive at hlive
  unfold upserts
  rw [hfingerprint, hmissing]
  simpa using hlive

/-- An import leaves a settled membership as it is, where it is live. -/
theorem settle_settle (hlive : (settle feedId call e m).isLive = true) :
    settle feedId call e (settle feedId call e m) = settle feedId call e m := by
  have hadopt : adoptMissingFingerprint e (settle feedId call e m) = settle feedId call e m := by
    unfold adoptMissingFingerprint adopts
    rw [(settle_columns feedId call e m).1]
    rfl
  have hupsert : upsertMembership e call.seenAt (settle feedId call e m) =
      settle feedId call e m := by
    unfold upsertMembership
    rw [upserts_settle hlive]
    rfl
  have hpolicy : applyPolicy (call.policyFor feedId (settle feedId call e m)) call.seenAt
      (settle feedId call e m) = settle feedId call e m := by
    unfold applyPolicy
    rw [policyChanges_settle feedId call e m]
    rfl
  have hstep : settle feedId call e (settle feedId call e m) =
      applyPolicy (call.policyFor feedId (settle feedId call e m)) call.seenAt
        (upsertMembership e call.seenAt (adoptMissingFingerprint e (settle feedId call e m))) := rfl
  rw [hstep, hadopt, hupsert]
  exact hpolicy

/-- The row of an entry is there, and nothing in it would be rewritten. -/
def EvidenceSettled (feedId : ℕ) (rows : List Evidence) (c : CanonicalRow) : Prop :=
  ∀ key, c.item = some key → (∃ row ∈ rows, row.key = ⟨key, feedId⟩) ∧
    ∀ row ∈ rows, row.key = ⟨key, feedId⟩ → rewritesEvidence c.entry row = false

theorem rewritesEvidence_inserted (key : MembershipKey) (e : StageEntry) :
    rewritesEvidence e (insertedEvidence key e) = false := by
  simp [rewritesEvidence, insertedEvidence]

theorem rewriteEvidence_key (e : StageEntry) (row : Evidence) :
    (rewriteEvidence e row).key = row.key := by
  unfold rewriteEvidence
  split <;> rfl

theorem rewritesEvidence_rewrite (e : StageEntry) (row : Evidence) :
    rewritesEvidence e (rewriteEvidence e row) = false := by
  unfold rewriteEvidence
  split
  · exact rewritesEvidence_inserted row.key e
  · next hnot => exact Bool.eq_false_of_not_eq_true hnot

/-- A canonical row settles its own evidence. -/
theorem evidenceSettled_self (feedId : ℕ) (rows : List Evidence) (c : CanonicalRow) :
    EvidenceSettled feedId (upsertEvidenceOf feedId rows c) c := by
  intro key hkey
  unfold upsertEvidenceOf
  rw [hkey]
  dsimp only
  split
  · next hany =>
    obtain ⟨row, hrow, hsame⟩ := any_eq_true.mp hany
    refine ⟨⟨_, mem_map_of_mem hrow, ?_⟩, fun row' hrow' hkey' => ?_⟩
    · rw [Rows.updateWhere_keeps (rewriteEvidence_key c.entry)]
      exact of_decide_eq_true hsame
    · rcases Rows.mem_map_updateWhere.mp hrow' with ⟨row₀, -, -, rfl⟩ | ⟨-, hnot⟩
      · exact rewritesEvidence_rewrite c.entry row₀
      · rw [hkey'] at hnot
        exact absurd rfl (of_decide_eq_false hnot)
  · next hnone =>
    refine ⟨⟨_, mem_append_right _ (mem_singleton_self _), rfl⟩, fun row' hrow' hkey' => ?_⟩
    rcases mem_append.mp hrow' with hold | hnew
    · exact absurd (any_eq_true.mpr ⟨row', hold, decide_eq_true hkey'⟩) hnone
    · obtain rfl := mem_singleton.mp hnew
      exact rewritesEvidence_inserted _ c.entry

/-- Another canonical row leaves it alone. -/
theorem EvidenceSettled.upsert {c' : CanonicalRow} (h : EvidenceSettled feedId rows c)
    (hother : ∀ key, c.item = some key → c'.item ≠ some key) :
    EvidenceSettled feedId (upsertEvidenceOf feedId rows c') c := by
  intro key hkey
  obtain ⟨⟨row, hrow, hsame⟩, hall⟩ := h key hkey
  unfold upsertEvidenceOf
  split
  · next key' hkey' =>
    have hne : key ≠ key' := by
      rintro rfl
      exact hother key hkey hkey'
    split
    · refine ⟨⟨_, mem_map_of_mem hrow, ?_⟩, fun row' hrow' hkey₁ => ?_⟩
      · rw [Rows.updateWhere_keeps (rewriteEvidence_key c'.entry)]
        exact hsame
      · rcases Rows.mem_map_updateWhere.mp hrow' with ⟨row₀, -, hp, rfl⟩ | ⟨hin, -⟩
        · rw [rewriteEvidence_key, of_decide_eq_true hp] at hkey₁
          exact absurd (congrArg MembershipKey.item hkey₁).symm hne
        · exact hall row' hin hkey₁
    · refine ⟨⟨row, mem_append_left _ hrow, hsame⟩, fun row' hrow' hkey₁ => ?_⟩
      rcases mem_append.mp hrow' with hin | hnew
      · exact hall row' hin hkey₁
      · obtain rfl := mem_singleton.mp hnew
        exact absurd (congrArg MembershipKey.item hkey₁).symm hne
  · exact ⟨⟨row, hrow, hsame⟩, hall⟩

/-- After the statement the evidence of every canonical row is settled. -/
theorem evidenceSettled_upsertEvidence
    (hdistinct : ∀ c ∈ canonical, ∀ c' ∈ canonical, ∀ key, c.item = some key → c'.item = some key →
      c = c') (rows : List Evidence) :
    ∀ c ∈ canonical, EvidenceSettled feedId (upsertEvidence feedId canonical rows) c := by
  unfold upsertEvidence
  induction canonical using List.reverseRecOn with
  | nil => simp
  | append_singleton canonical c ih =>
    rw [foldl_append, foldl_cons, foldl_nil]
    have hinit : ∀ c₀ ∈ canonical, c₀ ∈ canonical ++ [c] := fun _ h => mem_append_left _ h
    have hlast : c ∈ canonical ++ [c] := mem_append_right _ (mem_singleton_self _)
    intro c' hc'
    by_cases hsame : c' = c
    · subst hsame
      exact evidenceSettled_self feedId _ c'
    · have hold : c' ∈ canonical := by
        rcases mem_append.mp hc' with hold | hnew
        · exact hold
        · exact absurd (mem_singleton.mp hnew) hsame
      refine (ih (fun a ha b hb => hdistinct a (hinit a ha) b (hinit b hb)) c' hold).upsert ?_
      intro key hkey hkey'
      exact hsame (hdistinct c' hc' c hlast key hkey hkey')

theorem upsertEvidenceOf_of_settled (h : EvidenceSettled feedId rows c) :
    upsertEvidenceOf feedId rows c = rows := by
  unfold upsertEvidenceOf
  split
  · next key hkey =>
    obtain ⟨⟨row, hrow, hsame⟩, hall⟩ := h key hkey
    rw [if_pos (any_eq_true.mpr ⟨row, hrow, decide_eq_true hsame⟩)]
    refine Rows.map_eq_self fun row' hrow' => ?_
    unfold Rows.updateWhere rewriteEvidence
    split
    · next hp => rw [if_neg (by rw [hall row' hrow' (of_decide_eq_true hp)]; exact Bool.false_ne_true)]
    · rfl
  · rfl

/-- Settled evidence is not written again. -/
theorem upsertEvidence_of_settled (h : ∀ c ∈ canonical, EvidenceSettled feedId rows c) :
    upsertEvidence feedId canonical rows = rows := by
  unfold upsertEvidence
  induction canonical with
  | nil => rfl
  | cons c canonical ih =>
    rw [foldl_cons, upsertEvidenceOf_of_settled (h c mem_cons_self)]
    exact ih fun c' hc' => h c' (.tail _ hc')

theorem evidenceWrites_of_settled (h : ∀ c ∈ canonical, EvidenceSettled feedId rows c) :
    evidenceWrites feedId canonical rows = 0 := by
  unfold evidenceWrites
  rw [countP_eq_zero]
  intro c hc hwrites
  obtain ⟨key, hkey, hwrites⟩ := (Option.any_eq_true _ _).mp hwrites
  obtain ⟨⟨row, hrow, hsame⟩, hall⟩ := h c hc key hkey
  cases hfind : rows.find? (·.key = ⟨key, feedId⟩) with
  | none =>
    have hnot := find?_eq_none.mp hfind row hrow
    exact hnot (decide_eq_true hsame)
  | some row' =>
    rw [hfind] at hwrites
    dsimp only at hwrites
    rw [hall row' (mem_of_find?_eq_some hfind) (by simpa using find?_some hfind)] at hwrites
    cases hwrites

/-- What an insertion of observables does to them. -/
theorem insertObservables_spec (canonical : List CanonicalRow) (db : UsomDb) :
    ∃ news, (insertObservables canonical db).observables = db.observables ++ news ∧
      (∀ row ∈ news, row ∉ db.observables ∧ ∃ c ∈ canonical, ∃ key, c.item = some key ∧
        row = observableRow key c.entry) ∧
      ∀ c ∈ canonical, ∀ key, c.item = some key → key.id < db.nextItem →
        observableRow key c.entry ∈ (insertObservables canonical db).observables := by
  unfold insertObservables
  induction canonical generalizing db with
  | nil => exact ⟨[], by simp, by simp, by simp⟩
  | cons c canonical ih =>
    rw [foldl_cons]
    obtain ⟨news, hobservables, hnews, hall⟩ := ih (insertObservableOf db c)
    obtain ⟨-, -, hnext, -⟩ := insertObservableOf_frame db c
    -- The first canonical row inserts at most one row.
    have hfirst : ∃ first, (insertObservableOf db c).observables = db.observables ++ first ∧
        (∀ row ∈ first, row ∉ db.observables ∧ ∃ key, c.item = some key ∧
          row = observableRow key c.entry) ∧
        ∀ key, c.item = some key → key.id < db.nextItem →
          observableRow key c.entry ∈ db.observables ++ first := by
      unfold insertObservableOf
      split
      · next key hkey =>
        unfold UsomDb.insertObservable
        split
        · next hnew =>
          refine ⟨[observableRow key c.entry], rfl, fun row hrow => ?_, fun key' hkey' _ => ?_⟩
          · obtain rfl := mem_singleton.mp hrow
            exact ⟨hnew.1, key, hkey, rfl⟩
          · obtain rfl := Option.some.inj (hkey.symm.trans hkey')
            exact mem_append_right _ (mem_singleton_self _)
        · next hnot =>
          refine ⟨[], by simp, by simp, fun key' hkey' hlt => ?_⟩
          obtain rfl := Option.some.inj (hkey.symm.trans hkey')
          rw [append_nil]
          by_contra habsent
          exact hnot ⟨habsent, hlt⟩
      · next hnone =>
        refine ⟨[], by simp, by simp, fun key hkey => ?_⟩
        rw [hnone] at hkey
        cases hkey
    obtain ⟨first, hsame, hfirsts, hthere⟩ := hfirst
    refine ⟨first ++ news, ?_, fun row hrow => ?_, fun c' hc' key hkey hlt => ?_⟩
    · rw [hobservables, hsame, append_assoc]
    · rcases mem_append.mp hrow with hin | hin
      · obtain ⟨hnew, hrest⟩ := hfirsts row hin
        exact ⟨hnew, c, mem_cons_self, hrest⟩
      · obtain ⟨hnew, c', hc', hrest⟩ := hnews row hin
        refine ⟨fun hold => hnew ?_, c', mem_cons_of_mem _ hc', hrest⟩
        rw [hsame]
        exact mem_append_left _ hold
    · rcases mem_cons.mp hc' with rfl | hlater
      · rw [hobservables, hsame]
        exact mem_append_left _ (hthere key hkey hlt)
      · exact hall c' hlater key hkey (by omega)

end TalonHound.Usom
