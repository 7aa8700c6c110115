import TalonHound.Candidates.RefreshGuard
import TalonHound.Candidates.ReconcileRows

/-!
# What the refresh guard predicts

The guard compares the members that the document itself has. Of these an applied refresh loses
nothing; the other rows that it writes have to keep their links and their membership by themselves.
-/

namespace TalonHound.Candidates

open Rows List

/-- The values that a refresh gives an identity. -/
def refreshedValues (candidates : List CandidateInput) : List Next :=
  candidates.map (candidateColumns .original)

/-- What a refresh leaves of a stored row. -/
def Row.refreshed (links : List (ℕ × ℕ)) (next : List Next) (row : Row) : Option Row :=
  match Rows.lookup Next.identity next row.identity with
  | some n => some (row.write .original n)
  | none => Report.settleMissing links row

variable {report : Report} {candidates : List CandidateInput} {next : List Next} {r r' : Row}
  {n : Next} {links : List (ℕ × ℕ)}

theorem refreshedValues_nodup (h : (candidates.map CandidateInput.identity).Nodup) :
    ((refreshedValues candidates).map Next.identity).Nodup := by
  unfold refreshedValues
  rw [map_map]
  exact h

theorem reconcile_original_eq (h : (candidates.map CandidateInput.identity).Nodup) :
    reconcileReportCandidates report ⟨.original, candidates⟩ =
      report.reconcile .original (refreshedValues candidates) := by
  have hnext : Call.nextByKey ⟨.original, candidates⟩ = refreshedValues candidates :=
    InsertionMap.ofList_eq_self (refreshedValues_nodup h)
  unfold reconcileReportCandidates
  rw [hnext]

/-- The row with the id of a stored row is what the refresh leaves of it. -/
theorem mem_reconcile_iff_refreshed (hwf : report.WellFormed)
    (hnext : (next.map Next.identity).Nodup) (hr : r ∈ report.rows) :
    r' ∈ (report.reconcile .original next).rows ∧ r'.id = r.id ↔
      r.refreshed report.links next = some r' := by
  have hids : ∀ r₀ ∈ report.rows, r₀.id = r.id → r₀ = r := fun r₀ hr₀ hid =>
    inj_on_of_nodup_map hwf.ids hr₀ hr hid
  rw [Report.mem_reconcile_original]
  unfold Row.refreshed
  constructor
  · rintro ⟨⟨hlisted, hall⟩ | ⟨r₀, hr₀, hmissing, hsettle⟩, hid⟩
    · rcases Report.mem_writeAll.mp hall with ⟨r₀, hr₀, rfl⟩ | hnew
      · obtain rfl := hids r₀ hr₀ (Row.written_id.symm.trans hid)
        rw [Row.written_identity] at hlisted
        obtain ⟨n, hn, hidentity⟩ := mem_map.mp hlisted
        rw [Row.written_listed hnext hn hidentity, ← hidentity, lookup_key hnext hn]
      · have hfresh := hwf.fresh r hr
        have hge := (Report.mem_inserted hnew).1
        omega
    · obtain rfl := hids r₀ hr₀ ((Report.settleMissing_identity hsettle).2.symm.trans hid)
      rw [lookup_eq_none.mpr hmissing]
      exact hsettle
  · intro h
    cases hlookup : Rows.lookup Next.identity next r.identity with
    | some n =>
      rw [hlookup] at h
      cases h
      obtain ⟨hn, hidentity⟩ := mem_of_lookup hlookup
      refine ⟨Or.inl ⟨?_, ?_⟩, Row.write_id⟩
      · rw [Row.write_identity, ← hidentity]
        exact mem_map_of_mem hn
      · refine Report.mem_writeAll.mpr (Or.inl ⟨r, hr, ?_⟩)
        exact Row.written_listed hnext hn hidentity
    | none =>
      rw [hlookup] at h
      exact ⟨Or.inr ⟨r, hr, lookup_eq_none.mp hlookup, h⟩, (Report.settleMissing_identity h).2⟩

/-- A listed row has the membership of its candidate, unless nothing changes. -/
theorem Row.isUnionMember_write (hidentity : n.identity = r.identity) :
    (r.write .original n).isUnionMember links =
      if changedCandidateColumns r.columns n.columns = [] then r.isUnionMember links
      else n.isUnionReportIndicatorMember (Report.isLinked links r) := by
  unfold Row.isUnionMember
  rw [isLinked_of_id Row.write_id]
  unfold Row.write
  dsimp only
  split
  · rfl
  · unfold Row.values
    rw [← hidentity]

/-- A member that the document loses stays one by its link. -/
theorem Row.isUnionMember_cleared (hunion : r.isUnionMember links = true)
    (hlinked : Report.isLinked links r = true) :
    ({ r with hasOriginalDocumentOccurrence := false } : Row).isUnionMember links = true := by
  have hgates := (Next.isUnionReportIndicatorMember_iff.mp hunion).1
  refine Next.isUnionReportIndicatorMember_iff.mpr ⟨?_, Or.inr ?_⟩
  · exact (Next.passesIndicatorTypeGates_of_columns rfl rfl).trans hgates
  · have hkept : Report.isLinked links
        ({ r with hasOriginalDocumentOccurrence := false } : Row) = true :=
      (isLinked_of_id rfl).trans hlinked
    unfold Next.isLinkedSourceAssertedIoc
    rw [hkept, Bool.or_true]

/-- The diff compares the row with its own candidate: it is a row of the document, and no other
row of the document and no other candidate has its key. -/
def Row.IsCompared (rows : List Row) (candidates : List CandidateInput) (row : Row) : Prop :=
  row.hasOriginalDocumentOccurrence = true ∧
    (∀ r ∈ rows, r.hasOriginalDocumentOccurrence = true →
      diffKey r.identity = diffKey row.identity → r.identity = row.identity) ∧
    ∀ c ∈ candidates, diffKey c.identity = diffKey row.identity → c.identity = row.identity
  deriving Decidable

variable {input : RefreshInput}

theorem RefreshInput.compare_mem (hids : (input.previousRows.map Row.identity).Nodup)
    (hr : r ∈ input.previousRows) (hcompared : r.IsCompared input.previousRows input.nextCandidates) :
    input.compare r ∈ input.comparisons := by
  refine mem_map_of_mem (InsertionMap.mem_ofList (mem_filter.mpr ⟨hr, hcompared.1⟩) ?_)
  intro s hs hkey
  obtain ⟨hmem, hflag⟩ := mem_filter.mp hs
  exact inj_on_of_nodup_map hids hmem hr (hcompared.2.1 s hmem hflag hkey)

/-- A compared row is compared with its candidate. -/
theorem RefreshInput.compare_after
    (hnodup : (input.nextCandidates.map CandidateInput.identity).Nodup)
    (hcompared : r.IsCompared input.previousRows input.nextCandidates) :
    (input.compare r).after =
      Rows.lookup Next.identity (refreshedValues input.nextCandidates) r.identity := by
  have hnext := refreshedValues_nodup hnodup
  have hown : ∀ s ∈ refreshedValues input.nextCandidates,
      diffKey s.identity = diffKey r.identity → s.identity = r.identity := by
    intro s hs hkey
    obtain ⟨c, hc, rfl⟩ := mem_map.mp hs
    exact hcompared.2.2 c hc hkey
  have hkeys : (input.next.map (diffKey ∘ Next.identity)).Nodup := InsertionMap.nodup_ofList _ _
  unfold RefreshInput.compare
  cases hlookup : Rows.lookup Next.identity (refreshedValues input.nextCandidates) r.identity with
  | some n =>
    obtain ⟨hn, hidentity⟩ := mem_of_lookup hlookup
    rw [← hidentity] at hown ⊢
    have hmem : n ∈ input.next := InsertionMap.mem_ofList hn fun s hs hkey =>
      inj_on_of_nodup_map hnext hs hn (hown s hs hkey)
    exact lookup_key hkeys hmem
  | none =>
    refine lookup_eq_none.mpr fun hmem => lookup_eq_none.mp hlookup ?_
    obtain ⟨s, hs, hkey⟩ := mem_map.mp hmem
    have hsmem := InsertionMap.mem_of_mem_ofList hs
    rw [← hown s hsmem hkey]
    exact mem_map_of_mem hsmem

/-- What an applied refresh says of the compared rows. -/
structure RefreshInput.IsApplied (input : RefreshInput) : Prop where
  reviewed : ∀ c ∈ input.comparisons, c.isRemoved = true → c.row.isReviewed = true →
    c.unionMemberAfter = true
  publisher : ∀ c ∈ input.comparisons, c.isRemoved = true → c.row.values.isExplicit = false
  deleted : ∀ c ∈ input.comparisons, c.rowOutcome = .deleted → c.row.isReviewed = false
  links : ∀ c ∈ input.comparisons, c.isIocLinkChange = false

theorem RefreshInput.isApplied {digest : List MaterialLine → String} {policy : RefreshPolicy}
    {role : AcceptorRole}
    (h : evaluateRefreshMembershipGuard (buildRefreshMembershipDiff digest input) policy role =
      .apply) : input.IsApplied := by
  obtain ⟨hreviewed, hdeleted, hpublisher, -, hlinks⟩ := evaluate_eq_apply.mp h
  unfold MembershipDiff.removedReviewedIndicators at hreviewed
  unfold MembershipDiff.removedPublisherAsserted at hpublisher
  rw [countP_eq_zero] at hreviewed hpublisher
  have hremoved : ∀ c ∈ input.comparisons, c.isRemoved = true →
      c.removedIndicator ∈ (buildRefreshMembershipDiff digest input).removed :=
    fun c hc hremoved => mem_map_of_mem (mem_filter.mpr ⟨hc, hremoved⟩)
  refine ⟨?_, ?_, ?_, ?_⟩
  · intro c hc hleaves hrow
    by_contra hunion
    refine hreviewed _ (hremoved c hc hleaves) ?_
    rw [Bool.not_eq_true] at hunion
    unfold Comparison.removedIndicator
    rw [hrow, hunion]
    rfl
  · intro c hc hleaves
    by_contra hexplicit
    rw [Bool.not_eq_false] at hexplicit
    exact hpublisher _ (hremoved c hc hleaves) hexplicit
  · intro c hc houtcome
    by_contra hrow
    rw [Bool.not_eq_false] at hrow
    refine eq_nil_iff_forall_not_mem.mp hdeleted c (mem_filter.mpr ⟨hc, ?_⟩)
    unfold Comparison.isReviewedDeleted
    rw [houtcome, hrow]
    rfl
  · intro c hc
    by_contra hchange
    rw [Bool.not_eq_false] at hchange
    exact eq_nil_iff_forall_not_mem.mp hlinks c (mem_filter.mpr ⟨hc, hchange⟩)

/-- The refresh extracts the identity of the row. -/
def Row.IsListed (candidates : List CandidateInput) (row : Row) : Prop :=
  row.identity ∈ candidates.map CandidateInput.identity
  deriving Decidable

/-- The write does with the row what the outcome says. -/
def RowOutcome.Happens (candidates : List CandidateInput) (report' : Report) (row : Row) :
    RowOutcome → Prop
  | deleted => ∀ r' ∈ report'.rows, r'.id ≠ row.id
  | originalOccurrenceCleared =>
    ({ row with hasOriginalDocumentOccurrence := false } : Row) ∈ report'.rows
  | kept => row.IsListed candidates ∧ ∃ r' ∈ report'.rows, r'.id = row.id

/-- The write keeps what the guard protects, and leaves of the removed Indicators what the diff
says. -/
structure PredictsWrite (report report' : Report) (input : RefreshInput) : Prop where
  decisions : ∀ r ∈ report.rows, r.isReviewed = true → ∃ r' ∈ report'.rows, r'.id = r.id
  links : ∀ r ∈ report.rows, ∀ r' ∈ report'.rows, r'.id = r.id →
    r.columns.matchedIocId.isSome = true → r'.columns.matchedIocId = r.columns.matchedIocId
  members : ∀ r ∈ report.rows, r.values.isExplicit = true ∨ r.isReviewed = true →
    r.isUnionMember report.links = true →
      ∃ r' ∈ report'.rows, r'.id = r.id ∧ r'.isUnionMember report'.links = true
  outcomes : ∀ c ∈ input.comparisons, c.isRemoved = true →
    c.rowOutcome.Happens input.nextCandidates report' c.row

/-- The rows that the diff does not compare with their own candidate keep their decision and their
link, and the protected members among them, and those that only a source makes members, stay
members. -/
structure KeepsUncompared (report : Report) (input : RefreshInput) : Prop where
  decisions : ∀ r ∈ report.rows, ¬ r.IsCompared report.rows input.nextCandidates →
    r.isReviewed = true → r.IsListed input.nextCandidates ∨
      r.hasOriginalDocumentOccurrence = false ∨ Report.isLinked report.links r = true
  links : ∀ r ∈ report.rows, ¬ r.IsCompared report.rows input.nextCandidates →
    r.columns.matchedIocId.isSome = true → ∀ c ∈ input.nextCandidates, c.identity = r.identity →
      c.matchedIocId = r.columns.matchedIocId
  members : ∀ r ∈ report.rows,
    ¬ (r.IsCompared report.rows input.nextCandidates ∧ r.values.isReportIndicatorMember = true) →
    r.values.isExplicit = true ∨ r.isReviewed = true → r.isUnionMember report.links = true →
      (∀ c ∈ input.nextCandidates, c.identity = r.identity →
        (candidateColumns .original c).columns = r.columns ∨
          (candidateColumns .original c).isUnionReportIndicatorMember
            (Report.isLinked report.links r) = true) ∧
      (r.IsListed input.nextCandidates ∨ r.hasOriginalDocumentOccurrence = false ∨
        Report.isLinked report.links r = true)
  outcomes : ∀ c ∈ input.comparisons, ¬ c.row.IsCompared report.rows input.nextCandidates →
    c.isRemoved = true → (c.after.isSome = true ↔ c.row.IsListed input.nextCandidates)

theorem mem_map_identity_refreshedValues :
    r.identity ∈ (refreshedValues candidates).map Next.identity ↔ r.IsListed candidates := by
  unfold refreshedValues Row.IsListed
  rw [map_map]
  rfl

/-- A listed row is written with the values of its candidate. -/
theorem refreshed_listed {c : CandidateInput}
    (hnodup : (candidates.map CandidateInput.identity).Nodup) (hc : c ∈ candidates)
    (hidentity : c.identity = r.identity) : r.refreshed links (refreshedValues candidates) =
      some (r.write .original (candidateColumns .original c)) := by
  have hmem : candidateColumns .original c ∈ refreshedValues candidates := mem_map_of_mem hc
  have hkey : (candidateColumns .original c).identity = r.identity := hidentity
  unfold Row.refreshed
  rw [← hkey, lookup_key (refreshedValues_nodup hnodup) hmem]

theorem refreshed_unlisted (h : ¬ r.IsListed candidates) :
    r.refreshed links (refreshedValues candidates) = Report.settleMissing links r := by
  unfold Row.refreshed
  rw [lookup_eq_none.mpr (mt mem_map_identity_refreshedValues.mp h)]

/-- A row stays as long as it is extracted, outside of the document, or linked. -/
theorem refreshed_isSome (hnodup : (candidates.map CandidateInput.identity).Nodup) :
    (∃ r', r.refreshed links (refreshedValues candidates) = some r') ↔
      r.IsListed candidates ∨ r.hasOriginalDocumentOccurrence = false ∨
        Report.isLinked links r = true := by
  by_cases hlisted : r.IsListed candidates
  · obtain ⟨c, hc, hidentity⟩ := mem_map.mp hlisted
    rw [refreshed_listed hnodup hc hidentity]
    exact iff_of_true ⟨_, rfl⟩ (Or.inl hlisted)
  · rw [refreshed_unlisted hlisted]
    constructor
    · rintro ⟨r', hsettle⟩
      exact Or.inr (Report.settleMissing_eq_some hsettle).2
    · rintro (h | h)
      · exact absurd h hlisted
      · exact Report.exists_settleMissing h

theorem settleMissing_columns (h : Report.settleMissing links r = some r') :
    r'.columns = r.columns := by
  unfold Report.settleMissing at h
  split at h
  · cases h
    rfl
  · split at h
    · cases h
      rfl
    · cases h

/-- A linked row of the document stays without it. -/
theorem settleMissing_cleared (hflag : r.hasOriginalDocumentOccurrence = true)
    (hlinked : Report.isLinked links r = true) : Report.settleMissing links r =
      some { r with hasOriginalDocumentOccurrence := false } := by
  unfold Report.settleMissing
  rw [hflag, hlinked]
  rfl

section

variable {report : Report} {input : RefreshInput}

theorem hasLinks_compare (hlinks : ∀ r ∈ report.rows, r.id ∈ input.linkedCandidateIds ↔
    Report.isLinked report.links r = true) (hr : r ∈ report.rows) :
    (input.compare r).hasLinks = Report.isLinked report.links r := by
  rw [Bool.eq_iff_iff, ← hlinks r hr]
  unfold RefreshInput.compare
  simp

variable (hnodup : (input.nextCandidates.map CandidateInput.identity).Nodup)

include hnodup

theorem compare_after_listed (hcompared : r.IsCompared input.previousRows input.nextCandidates)
    {c : CandidateInput} (hc : c ∈ input.nextCandidates) (hidentity : c.identity = r.identity) :
    (input.compare r).after = some (candidateColumns .original c) := by
  have hkey : (candidateColumns .original c).identity = r.identity := hidentity
  rw [RefreshInput.compare_after hnodup hcompared, ← hkey]
  exact lookup_key (refreshedValues_nodup hnodup) (mem_map_of_mem hc)

theorem compare_after_unlisted (hcompared : r.IsCompared input.previousRows input.nextCandidates)
    (hlisted : ¬ r.IsListed input.nextCandidates) : (input.compare r).after = none := by
  rw [RefreshInput.compare_after hnodup hcompared]
  exact lookup_eq_none.mpr (mt mem_map_identity_refreshedValues.mp hlisted)

variable (hwf : report.WellFormed)

include hwf

/-- The row that a refresh writes for a stored row. -/
theorem mem_written_iff (hr : r ∈ report.rows) :
    r' ∈ (reconcileReportCandidates report ⟨.original, input.nextCandidates⟩).rows ∧ r'.id = r.id ↔
      r.refreshed report.links (refreshedValues input.nextCandidates) = some r' := by
  rw [reconcile_original_eq hnodup]
  exact mem_reconcile_iff_refreshed hwf (refreshedValues_nodup hnodup) hr

theorem exists_written (hr : r ∈ report.rows) :
    (∃ r' ∈ (reconcileReportCandidates report ⟨.original, input.nextCandidates⟩).rows,
        r'.id = r.id) ↔
      r.IsListed input.nextCandidates ∨ r.hasOriginalDocumentOccurrence = false ∨
        Report.isLinked report.links r = true := by
  rw [← refreshed_isSome hnodup]
  exact exists_congr fun _ => mem_written_iff hnodup hwf hr

/-- The outcome of a row of the document is right when the diff knows whether it is extracted. -/
theorem happens_iff (hlinks : ∀ r ∈ report.rows, r.id ∈ input.linkedCandidateIds ↔
      Report.isLinked report.links r = true)
    (hr : r ∈ report.rows) (hflag : r.hasOriginalDocumentOccurrence = true) :
    (input.compare r).rowOutcome.Happens input.nextCandidates
        (reconcileReportCandidates report ⟨.original, input.nextCandidates⟩) r ↔
      ((input.compare r).after.isSome = true ↔ r.IsListed input.nextCandidates) := by
  have hstays := exists_written hnodup hwf hr
  unfold Comparison.rowOutcome
  rw [hasLinks_compare hlinks hr]
  cases hafter : (input.compare r).after.isSome with
  | true =>
    rw [if_pos rfl]
    constructor
    · intro h
      exact iff_of_true rfl h.1
    · intro h
      exact ⟨h.mp rfl, hstays.mpr (Or.inl (h.mp rfl))⟩
  | false =>
    rw [if_neg Bool.false_ne_true]
    have hiff : (false = true ↔ r.IsListed input.nextCandidates) ↔
        ¬ r.IsListed input.nextCandidates := by simp
    rw [hiff]
    cases hlinked : Report.isLinked report.links r with
    | true =>
      rw [if_pos rfl]
      constructor
      · intro hmem hlisted
        -- A row that is written keeps the flag with the columns, or changes the columns.
        obtain ⟨c, hc, hidentity⟩ := mem_map.mp hlisted
        have hwritten := (mem_written_iff hnodup hwf hr).mp ⟨hmem, rfl⟩
        rw [refreshed_listed hnodup hc hidentity] at hwritten
        have hsame := Option.some.inj hwritten
        unfold Row.write at hsame
        dsimp only at hsame
        split at hsame
        · rw [hsame] at hflag
          cases hflag
        · next hchanged =>
          refine hchanged (changedCandidateColumns_eq_nil.mpr ?_)
          exact (congrArg Row.columns hsame).symm
      · intro hlisted
        have hcleared := settleMissing_cleared hflag hlinked
        rw [← refreshed_unlisted hlisted] at hcleared
        exact ((mem_written_iff hnodup hwf hr).mpr hcleared).1
    | false =>
      rw [if_neg Bool.false_ne_true]
      simp only [hflag, hlinked, Bool.true_eq_false, Bool.false_eq_true, or_false] at hstays
      rw [← hstays]
      simp [RowOutcome.Happens]

end

/-- A listed member stays one exactly when its candidate changes nothing or is one. -/
theorem isUnionMember_write_iff (hidentity : n.identity = r.identity)
    (hunion : r.isUnionMember links = true) :
    (r.write .original n).isUnionMember links = true ↔ n.columns = r.columns ∨
        n.isUnionReportIndicatorMember (Report.isLinked links r) = true := by
  rw [Row.isUnionMember_write hidentity]
  split
  · next hsame =>
    exact iff_of_true hunion (Or.inl (changedCandidateColumns_eq_nil.mp hsame).symm)
  · next hchanged =>
    constructor
    · exact Or.inr
    · rintro (hsame | hmember)
      · exact absurd (changedCandidateColumns_eq_nil.mpr hsame.symm) hchanged
      · exact hmember

/-- A removed Indicator that is still extracted is not said to stay in the inventory. -/
theorem Comparison.unionMemberAfter_of_after {c : Comparison} (h : c.after.isSome = true) :
    c.unionMemberAfter = false := by
  unfold Comparison.unionMemberAfter Comparison.rowOutcome
  rw [if_pos h]
  rfl

section

variable {report : Report} {input : RefreshInput} (hwf : report.WellFormed)
  (hrows : input.previousRows = report.rows)
  (hnodup : (input.nextCandidates.map CandidateInput.identity).Nodup)
  (hlinks : ∀ r ∈ report.rows, r.id ∈ input.linkedCandidateIds ↔
    Report.isLinked report.links r = true)
  (happlied : input.IsApplied)

include hwf hrows hnodup hlinks happlied

section

variable (hr : r ∈ report.rows) (hcompared : r.IsCompared report.rows input.nextCandidates)
include hr hcompared

/-- An applied refresh keeps the protected members that the diff compares. -/
theorem members_of_compared (hmember : r.values.isReportIndicatorMember = true)
    (hprotected : r.values.isExplicit = true ∨ r.isReviewed = true)
    (hunion : r.isUnionMember report.links = true) :
    ∃ r', r.refreshed report.links (refreshedValues input.nextCandidates) = some r' ∧
      r'.isUnionMember report.links = true := by
  rw [← hrows] at hcompared
  have hids : (input.previousRows.map Row.identity).Nodup := hrows ▸ hwf.identities
  have hmem := RefreshInput.compare_mem hids (hrows ▸ hr) hcompared
  have hremains : (input.compare r).isRemoved = true → (input.compare r).unionMemberAfter = true := by
    intro hremoved
    rcases hprotected with hexplicit | hreviewed
    · have hnot := happlied.publisher _ hmem hremoved
      rw [show (input.compare r).row = r from rfl, hexplicit] at hnot
      cases hnot
    · exact happlied.reviewed _ hmem hremoved hreviewed
  by_cases hlisted : r.IsListed input.nextCandidates
  · obtain ⟨c, hc, hidentity⟩ := mem_map.mp hlisted
    refine ⟨_, refreshed_listed hnodup hc hidentity, ?_⟩
    have hvalues := compare_after_listed hnodup hcompared hc hidentity
    have hstays : (candidateColumns .original c).isReportIndicatorMember = true := by
      by_contra hleaves
      rw [Bool.not_eq_true] at hleaves
      have hremoved : (input.compare r).isRemoved = true := by
        unfold Comparison.isRemoved
        rw [hvalues, Option.any_some, hleaves, Bool.not_false, Bool.and_true]
        exact hmember
      have hremain := hremains hremoved
      rw [Comparison.unionMemberAfter_of_after (by rw [hvalues]; rfl)] at hremain
      cases hremain
    refine (isUnionMember_write_iff (n := candidateColumns .original c) hidentity hunion).mpr (Or.inr ?_)
    unfold Next.isUnionReportIndicatorMember
    rw [hstays, Bool.true_or]
  · have hnone := compare_after_unlisted hnodup hcompared hlisted
    have hremoved : (input.compare r).isRemoved = true := by
      unfold Comparison.isRemoved
      rw [hnone, Option.any_none, Bool.not_false, Bool.and_true]
      exact hmember
    have hremain := hremains hremoved
    have hlinked : Report.isLinked report.links r = true := by
      unfold Comparison.unionMemberAfter Comparison.rowOutcome at hremain
      rw [hnone, hasLinks_compare hlinks hr] at hremain
      by_contra hnot
      simp [hnot] at hremain
    refine ⟨_, ?_, Row.isUnionMember_cleared hunion hlinked⟩
    rw [refreshed_unlisted hlisted]
    exact settleMissing_cleared hcompared.1 hlinked

/-- It keeps the reviewed rows that the diff compares. -/
theorem stays_of_compared (hreviewed : r.isReviewed = true) :
    r.IsListed input.nextCandidates ∨ r.hasOriginalDocumentOccurrence = false ∨
      Report.isLinked report.links r = true := by
  by_contra hgone
  push Not at hgone
  obtain ⟨hlisted, -, hlinked⟩ := hgone
  rw [← hrows] at hcompared
  have hids : (input.previousRows.map Row.identity).Nodup := hrows ▸ hwf.identities
  have hmem := RefreshInput.compare_mem hids (hrows ▸ hr) hcompared
  have hdeleted : (input.compare r).rowOutcome = .deleted := by
    unfold Comparison.rowOutcome
    rw [compare_after_unlisted hnodup hcompared hlisted, hasLinks_compare hlinks hr,
      Bool.eq_false_of_not_eq_true hlinked]
    rfl
  have hnot := happlied.deleted _ hmem hdeleted
  rw [show (input.compare r).row = r from rfl, hreviewed] at hnot
  cases hnot

end

omit hlinks in
/-- It keeps the links of the rows that the diff compares. -/
theorem link_of_compared (hr : r ∈ report.rows)
    (hcompared : r.IsCompared report.rows input.nextCandidates)
    (hmatched : r.columns.matchedIocId.isSome = true) {c : CandidateInput}
    (hc : c ∈ input.nextCandidates) (hidentity : c.identity = r.identity) :
    c.matchedIocId = r.columns.matchedIocId := by
  rw [← hrows] at hcompared
  have hids : (input.previousRows.map Row.identity).Nodup := hrows ▸ hwf.identities
  have hchange := happlied.links _ (RefreshInput.compare_mem hids (hrows ▸ hr) hcompared)
  unfold Comparison.isIocLinkChange at hchange
  rw [compare_after_listed hnodup hcompared hc hidentity, show (input.compare r).row = r from rfl,
    hmatched] at hchange
  have hsame : (candidateColumns .original c).columns.matchedIocId = r.columns.matchedIocId := by
    simpa using hchange
  exact hsame

end

/-- An applied refresh does what the guard predicts exactly when the rows that it does not compare
keep what it protects. -/
theorem guard_predicts_write {report : Report} {input : RefreshInput}
    {digest : List MaterialLine → String} {policy : RefreshPolicy} {role : AcceptorRole}
    (hwf : report.WellFormed) (hrows : input.previousRows = report.rows)
    (hnodup : (input.nextCandidates.map CandidateInput.identity).Nodup)
    (hlinks : ∀ r ∈ report.rows, r.id ∈ input.linkedCandidateIds ↔
      Report.isLinked report.links r = true)
    (happly : evaluateRefreshMembershipGuard (buildRefreshMembershipDiff digest input) policy role =
      .apply) :
    PredictsWrite report (reconcileReportCandidates report ⟨.original, input.nextCandidates⟩) input ↔
      KeepsUncompared report input := by
  have happlied := RefreshInput.isApplied happly
  have hspec : ∀ r ∈ report.rows, ∀ r',
      r' ∈ (reconcileReportCandidates report ⟨.original, input.nextCandidates⟩).rows ∧
        r'.id = r.id ↔
      r.refreshed report.links (refreshedValues input.nextCandidates) = some r' :=
    fun _ hr _ => mem_written_iff hnodup hwf hr
  have hprior : ∀ c ∈ input.comparisons, ∃ r ∈ report.rows,
      r.hasOriginalDocumentOccurrence = true ∧ c = input.compare r := by
    intro c hc
    obtain ⟨r, hr, rfl⟩ := mem_map.mp hc
    obtain ⟨hmem, hflag⟩ := mem_filter.mp (InsertionMap.mem_of_mem_ofList hr)
    exact ⟨r, hrows ▸ hmem, hflag, rfl⟩
  constructor
  · intro hpredicts
    refine ⟨?_, ?_, ?_, ?_⟩
    · intro r hr _ hreviewed
      exact (exists_written hnodup hwf hr).mp (hpredicts.decisions r hr hreviewed)
    · intro r hr _ hmatched c hc hidentity
      obtain ⟨hr', hid⟩ := (hspec r hr _).mpr (refreshed_listed hnodup hc hidentity)
      have hkept := hpredicts.links r hr _ hr' hid hmatched
      rw [Row.write_original_columns] at hkept
      exact hkept
    · intro r hr huncompared hprotected hunion
      obtain ⟨r', hr', hid, hmember⟩ := hpredicts.members r hr hprotected hunion
      have hrefreshed := (hspec r hr r').mp ⟨hr', hid⟩
      refine ⟨fun c hc hidentity => ?_, (refreshed_isSome hnodup).mp ⟨r', hrefreshed⟩⟩
      rw [refreshed_listed hnodup hc hidentity] at hrefreshed
      cases hrefreshed
      exact (isUnionMember_write_iff (n := candidateColumns .original c) hidentity hunion).mp hmember
    · intro c hc _ hremoved
      obtain ⟨r, hr, hflag, rfl⟩ := hprior c hc
      exact (happens_iff hnodup hwf hlinks hr hflag).mp (hpredicts.outcomes _ hc hremoved)
  · intro hkeeps
    refine ⟨?_, ?_, ?_, ?_⟩
    · intro r hr hreviewed
      refine (exists_written hnodup hwf hr).mpr ?_
      by_cases hcompared : r.IsCompared report.rows input.nextCandidates
      · exact stays_of_compared hwf hrows hnodup hlinks happlied hr hcompared hreviewed
      · exact hkeeps.decisions r hr hcompared hreviewed
    · intro r hr r' hr' hid hmatched
      have hrefreshed := (hspec r hr r').mp ⟨hr', hid⟩
      by_cases hlisted : r.IsListed input.nextCandidates
      · obtain ⟨c, hc, hidentity⟩ := mem_map.mp hlisted
        rw [refreshed_listed hnodup hc hidentity] at hrefreshed
        cases hrefreshed
        rw [Row.write_original_columns]
        by_cases hcompared : r.IsCompared report.rows input.nextCandidates
        · exact link_of_compared hwf hrows hnodup happlied hr hcompared hmatched hc hidentity
        · exact hkeeps.links r hr hcompared hmatched c hc hidentity
      · rw [refreshed_unlisted hlisted] at hrefreshed
        rw [settleMissing_columns hrefreshed]
    · intro r hr hprotected hunion
      suffices hstays : ∃ r',
          r.refreshed report.links (refreshedValues input.nextCandidates) = some r' ∧
            r'.isUnionMember report.links = true by
        obtain ⟨r', hrefreshed, hmember⟩ := hstays
        obtain ⟨hr', hid⟩ := (hspec r hr r').mpr hrefreshed
        exact ⟨r', hr', hid, hmember⟩
      by_cases hcompared : r.IsCompared report.rows input.nextCandidates ∧
          r.values.isReportIndicatorMember = true
      · exact members_of_compared hwf hrows hnodup hlinks happlied hr hcompared.1 hcompared.2
          hprotected hunion
      · obtain ⟨hcandidates, hstays⟩ := hkeeps.members r hr hcompared hprotected hunion
        by_cases hlisted : r.IsListed input.nextCandidates
        · obtain ⟨c, hc, hidentity⟩ := mem_map.mp hlisted
          refine ⟨_, refreshed_listed hnodup hc hidentity, ?_⟩
          exact (isUnionMember_write_iff (n := candidateColumns .original c) hidentity hunion).mpr
            (hcandidates c hc hidentity)
        · rw [refreshed_unlisted hlisted]
          cases hflag : r.hasOriginalDocumentOccurrence with
          | false => exact ⟨r, by simp [Report.settleMissing, hflag], hunion⟩
          | true =>
            have hlinked : Report.isLinked report.links r = true := by
              simpa [hlisted, hflag] using hstays
            exact ⟨_, settleMissing_cleared hflag hlinked, Row.isUnionMember_cleared hunion hlinked⟩
    · intro c hc hremoved
      obtain ⟨r, hr, hflag, rfl⟩ := hprior c hc
      refine (happens_iff hnodup hwf hlinks hr hflag).mpr ?_
      by_cases hcompared : r.IsCompared report.rows input.nextCandidates
      · rw [RefreshInput.compare_after hnodup (hrows ▸ hcompared),
          ← mem_map_identity_refreshedValues, lookup_isSome]
      · exact hkeeps.outcomes _ hc hcompared hremoved

/-- A domain that a source of the report gives, approved and linked to an IOC. -/
def linkedOnlyRow : Row where
  id := 1
  identity := ⟨"domain", "a.test"⟩
  columns := { (candidateColumns .original (domainInput "a.test" "pack")).columns with
    reviewStatus := .approved
    matchState := .existing
    matchedIocId := some 7
    sourceAssertion := some linkedSourceIocAssertion }
  hasOriginalDocumentOccurrence := false
  promotionOutcome := some .created

/-- A domain of the document. -/
def documentRow : Row where
  id := 2
  identity := ⟨"domain", "b.test"⟩
  columns := { (candidateColumns .original (domainInput "b.test" "body")).columns with
    reviewStatus := .approved }
  hasOriginalDocumentOccurrence := true
  promotionOutcome := none

def linkedReport : Report := ⟨[linkedOnlyRow, documentRow], [(1, 1)], 3⟩

/-- A refresh of the report that finds the candidates. -/
def linkedRefresh (candidates : List CandidateInput) : RefreshInput where
  previousRows := linkedReport.rows
  nextCandidates := candidates
  linkedCandidateIds := [1]
  previousWarningCodes := []
  nextWarningCodes := []

/-- The document still has its domain, and a new one. -/
def keepingRefresh : RefreshInput :=
  linkedRefresh
    [{ domainInput "b.test" "body" with reviewStatus := some .approved }, domainInput "c.test" "body"]

/-- The document now mentions the domain of the sources. -/
def mentioningRefresh : RefreshInput :=
  linkedRefresh
    [{ domainInput "b.test" "body" with reviewStatus := some .approved },
      { domainInput "a.test" "body" with
        assessment := some .contextOnly
        reviewStatus := some .approved
        matchState := some .contextOnly
        matchedIocId := some 7 }]

theorem guard_predicts_write_keepingRefresh :
    evaluateRefreshMembershipGuard (buildRefreshMembershipDiff (fun _ => "") keepingRefresh)
        .protect .analyst = .apply ∧
      PredictsWrite linkedReport
        (reconcileReportCandidates linkedReport ⟨.original, keepingRefresh.nextCandidates⟩)
        keepingRefresh := by
  have happly : evaluateRefreshMembershipGuard
      (buildRefreshMembershipDiff (fun _ => "") keepingRefresh) .protect .analyst = .apply := by
    decide
  refine ⟨happly, (guard_predicts_write (by decide) rfl (by decide)
    (by decide) happly).mpr ?_⟩
  exact ⟨by decide, by decide, by decide, by decide⟩

/-- The guard applies a refresh that takes an approved row of a source out of the inventory. -/
theorem linked_row_rewritten :
    ¬ ∀ (report : Report) (input : RefreshInput) (digest : List MaterialLine → String)
        (policy : RefreshPolicy) (role : AcceptorRole),
      report.WellFormed → input.previousRows = report.rows →
      (input.nextCandidates.map CandidateInput.identity).Nodup →
      (∀ r ∈ report.rows, r.id ∈ input.linkedCandidateIds ↔ Report.isLinked report.links r = true) →
      evaluateRefreshMembershipGuard (buildRefreshMembershipDiff digest input) policy role =
        .apply →
      PredictsWrite report (reconcileReportCandidates report ⟨.original, input.nextCandidates⟩)
        input := by
  intro hclaim
  have hpredicts := hclaim linkedReport mentioningRefresh (fun _ => "") .protect .analyst
    (by decide) rfl (by decide) (by decide) (by decide)
  have hmembers : ¬ ∀ r ∈ linkedReport.rows, r.values.isExplicit = true ∨ r.isReviewed = true →
      r.isUnionMember linkedReport.links = true →
        ∃ r' ∈ (reconcileReportCandidates linkedReport
            ⟨.original, mentioningRefresh.nextCandidates⟩).rows,
          r'.id = r.id ∧ r'.isUnionMember (reconcileReportCandidates linkedReport
            ⟨.original, mentioningRefresh.nextCandidates⟩).links = true := by
    decide
  exact hmembers hpredicts.members

end TalonHound.Candidates
