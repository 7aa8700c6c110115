import TalonHound.Library.Run
import TalonHound.Candidates.ReconcileRows

/-!
# The candidate inventory

Runs of reconcile calls on one report. The rows are the union of the latest document extraction and
the latest extraction of each source, and a repeated call changes nothing, as long as no call lists
a linked-only row whose columns do not change.
-/

namespace TalonHound.Candidates

open Rows List

/-- A report, and what the latest calls of each scope have listed. -/
structure InventoryState where
  report : Report
  original : List Identity
  linked : ℕ → List Identity

def InventoryState.initial : InventoryState := ⟨.empty, [], fun _ => []⟩

/-- The identities that a call lists. -/
def Call.identities (call : Call) : List Identity := call.candidates.map CandidateInput.identity

/-- One call. -/
def inventoryStep (s : InventoryState) (call : Call) : Option InventoryState :=
  let report := reconcileReportCandidates s.report call
  match call.scope with
  | .original => some { s with report := report, original := call.identities }
  | .source sourceId => some { s with
      report := report
      linked := Function.update s.linked sourceId call.identities }

/-- The rows are the union of the sources. -/
structure InventoryState.IsUnion (s : InventoryState) : Prop where
  rows : ∀ k, (∃ r ∈ s.report.rows, r.identity = k) ↔
    k ∈ s.original ∨ ∃ sourceId, k ∈ s.linked sourceId
  original : ∀ r ∈ s.report.rows, r.hasOriginalDocumentOccurrence = true ↔ r.identity ∈ s.original
  links : ∀ r ∈ s.report.rows, ∀ sourceId,
    (r.id, sourceId) ∈ s.report.links ↔ r.identity ∈ s.linked sourceId
  owned : ∀ link ∈ s.report.links, ∃ r ∈ s.report.rows, r.id = link.1
  once : s.report.links.Nodup

/-- Identities that are there before and after keep their row id. -/
def Report.KeepsIds (report report' : Report) : Prop :=
  ∀ r ∈ report.rows, ∀ r' ∈ report'.rows, r'.identity = r.identity → r'.id = r.id

/-- In the scope of the document, a new or changed row is not said to be outside of it, and a row
that does not change is one of its rows already. In the scope of a source, a new row is not said to
be in the document, and an overlay does not take the match state Context Only. -/
def Next.Settles (report : Report) (n : Next) : Scope → Prop
  | .original =>
    match report.row? n.identity with
    | none => n.hasOriginalDocumentOccurrence = true
    | some row =>
      if changedCandidateColumns row.columns n.columns = [] then
        row.hasOriginalDocumentOccurrence = true
      else n.hasOriginalDocumentOccurrence = true
  | .source _ =>
    match report.row? n.identity with
    | none => n.hasOriginalDocumentOccurrence = false
    | some row => row.hasOriginalDocumentOccurrence = true →
        linkedAssertionOverridesDeferral row.columns n.columns = true →
          n.columns.matchState ≠ .contextOnly

/-- No candidate of the call leaves a stale flag or match state. -/
def SettlesAll (s : InventoryState) (call : Call) : Prop :=
  ∀ n ∈ call.nextByKey, n.Settles s.report call.scope

instance (report : Report) (n : Next) (scope : Scope) : Decidable (n.Settles report scope) := by
  unfold Next.Settles
  split <;> split <;> infer_instance

instance (s : InventoryState) (call : Call) : Decidable (SettlesAll s call) :=
  inferInstanceAs (Decidable (∀ n ∈ call.nextByKey, _))

variable {s s' : InventoryState} {call : Call} {r r' : Row} {n : Next} {next : List Next}
  {sourceId : ℕ}

variable {k : Identity} {report : Report} {links : List (ℕ × ℕ)}

theorem Call.mem_nextByKey : k ∈ call.nextByKey.map Next.identity ↔ k ∈ call.identities := by
  unfold Call.nextByKey Call.identities
  rw [InsertionMap.mem_map_key_ofList, map_map]
  rfl

/-- A stored identity has its one row. -/
theorem Report.row?_eq_some (hwf : report.WellFormed) :
    report.row? k = some r ↔ r ∈ report.rows ∧ r.identity = k :=
  lookup_eq_some hwf.identities

theorem Report.row?_eq_none :
    report.row? k = none ↔ k ∉ report.rows.map Row.identity := lookup_eq_none

/-- A listed row of an original call is marked, and has the columns of the call. -/
theorem original_listed (hwf : report.WellFormed) (hnext : (next.map Next.identity).Nodup)
    (hsettles : ∀ n ∈ next, n.Settles report .original) (hr : r ∈ report.writeAll .original next)
    (hn : n ∈ next) (hidentity : n.identity = r.identity) :
    r.hasOriginalDocumentOccurrence = true ∧ r.columns = n.columns := by
  have hn' := hsettles n hn
  unfold Next.Settles at hn'
  rcases Report.mem_writeAll.mp hr with ⟨r₀, hr₀, rfl⟩ | hnew
  · rw [Row.written_identity] at hidentity
    rw [Row.written_listed hnext hn hidentity]
    rw [(Report.row?_eq_some hwf).mpr ⟨hr₀, hidentity.symm⟩] at hn'
    dsimp only at hn'
    unfold Row.write
    dsimp only
    split
    · next hsame =>
      rw [if_pos hsame] at hn'
      exact ⟨hn', changedCandidateColumns_eq_nil.mp hsame⟩
    · next hchanged =>
      rw [if_neg hchanged] at hn'
      exact ⟨hn', rfl⟩
  · obtain ⟨-, hfresh, n', hnmem, hsame, hcolumns, hflag⟩ := Report.mem_inserted hnew
    obtain rfl : n = n' := inj_on_of_nodup_map hnext hn hnmem (hidentity.trans hsame.symm)
    rw [hidentity, Report.row?_eq_none.mpr hfresh] at hn'
    exact ⟨hflag ▸ hn', hcolumns.symm⟩

/-- A listed row of a source call keeps the flag; a new one does not have it. -/
theorem source_original (hsettles : ∀ n ∈ next, n.Settles report (.source sourceId))
    (hr : r ∈ report.writeAll (.source sourceId) next) :
    (∃ r₀ ∈ report.rows, r₀.identity = r.identity ∧ r₀.id = r.id ∧
        r.hasOriginalDocumentOccurrence = r₀.hasOriginalDocumentOccurrence) ∨
      r ∈ report.inserted next ∧ r.hasOriginalDocumentOccurrence = false := by
  rcases Report.mem_writeAll.mp hr with ⟨r₀, hr₀, rfl⟩ | hnew
  · refine Or.inl ⟨r₀, hr₀, Row.written_identity.symm, Row.written_id.symm, ?_⟩
    unfold Row.written
    split
    · exact Row.write_source_original
    · rfl
  · refine Or.inr ⟨hnew, ?_⟩
    obtain ⟨-, hfresh, n, hn, hidentity, -, hflag⟩ := Report.mem_inserted hnew
    have hn' := hsettles n hn
    unfold Next.Settles at hn'
    rw [hidentity, Report.row?_eq_none.mpr hfresh] at hn'
    exact hflag ▸ hn'

theorem Report.isLinked_iff :
    Report.isLinked links r = true ↔ ∃ sourceId, (r.id, sourceId) ∈ links := by
  unfold Report.isLinked
  rw [any_eq_true]
  constructor
  · rintro ⟨⟨id, sourceId⟩, hlink, hid⟩
    obtain rfl := of_decide_eq_true hid
    exact ⟨sourceId, hlink⟩
  · rintro ⟨sourceId, hlink⟩
    exact ⟨_, hlink, by simp⟩

/-- Ids and identities are unique, and the rows are the union of the sources. -/
structure InventoryInv (s : InventoryState) : Prop where
  wellFormed : s.report.WellFormed
  union : s.IsUnion

variable {scope : Scope}

namespace InventoryInv

section

variable (hinv : InventoryInv s)
include hinv

/-- A link of a new id does not exist. -/
theorem not_mem_links {id : ℕ} (hid : s.report.nextId ≤ id) :
    (id, sourceId) ∉ s.report.links := by
  intro hlink
  obtain ⟨r, hr, hsame⟩ := hinv.union.owned _ hlink
  have hfresh := hinv.wellFormed.fresh r hr
  omega

/-- An identity without a row is in no source. -/
theorem not_mem_linked (hk : k ∉ s.report.rows.map Row.identity) :
    k ∉ s.linked sourceId := by
  intro hmem
  obtain ⟨r, hr, rfl⟩ := (hinv.union.rows k).mpr (Or.inr ⟨sourceId, hmem⟩)
  exact hk (mem_map_of_mem hr)

/-- A linked-only row has a link. -/
theorem isLinked_of_not_original (hr : r ∈ s.report.rows)
    (hflag : r.hasOriginalDocumentOccurrence = false) :
    Report.isLinked s.report.links r = true := by
  have hout : r.identity ∉ s.original := by
    intro hmem
    rw [(hinv.union.original r hr).mpr hmem] at hflag
    cases hflag
  rcases (hinv.union.rows r.identity).mp ⟨r, hr, rfl⟩ with hmem | ⟨sourceId, hmem⟩
  · exact absurd hmem hout
  · exact Report.isLinked_iff.mpr ⟨sourceId, (hinv.union.links r hr sourceId).mpr hmem⟩

/-- A row after the loop has the links of its identity. -/
theorem writeAll_links (hr : r ∈ s.report.writeAll scope next) :
    (r.id, sourceId) ∈ s.report.links ↔ r.identity ∈ s.linked sourceId := by
  rcases Report.mem_writeAll.mp hr with ⟨r₀, hr₀, rfl⟩ | hnew
  · rw [Row.written_id, Row.written_identity]
    exact hinv.union.links r₀ hr₀ sourceId
  · obtain ⟨hid, hfresh, -⟩ := Report.mem_inserted hnew
    exact iff_of_false (hinv.not_mem_links hid) (hinv.not_mem_linked hfresh)

end

/-- Every listed identity has a row after the loop. -/
theorem exists_writeAll (report : Report) (scope : Scope) (hn : n ∈ next) :
    ∃ r ∈ report.writeAll scope next, r.identity = n.identity := by
  have hmem : n.identity ∈ (report.writeAll scope next).map Row.identity := by
    rw [Report.map_identity_writeAll, mem_append]
    by_cases hold : n.identity ∈ report.rows.map Row.identity
    · exact Or.inl hold
    · refine Or.inr (mem_filter.mpr ⟨mem_map_of_mem hn, ?_⟩)
      simpa using hold
  obtain ⟨r, hr, hidentity⟩ := mem_map.mp hmem
  exact ⟨r, hr, hidentity⟩

/-- A call for the document keeps the union. -/
theorem original (hinv : InventoryInv s) (hscope : call.scope = .original)
    (hguard : SettlesAll s call) :
    InventoryInv { s with
      report := reconcileReportCandidates s.report call
      original := call.identities } := by
  have hnodup := call.nodup_nextByKey
  unfold SettlesAll at hguard
  rw [hscope] at hguard
  unfold reconcileReportCandidates
  rw [hscope]
  have hwf := hinv.wellFormed.reconcile .original hnodup
  -- A row of the call is a listed row after the loop, or a stored row that its links keep.
  have hcases : ∀ r ∈ (s.report.reconcile .original call.nextByKey).rows,
      (r.identity ∈ call.identities ∧ r ∈ s.report.writeAll .original call.nextByKey ∧
        r.hasOriginalDocumentOccurrence = true) ∨
      (r.identity ∉ call.identities ∧ r.hasOriginalDocumentOccurrence = false ∧
        ∃ r₀ ∈ s.report.rows, r.identity = r₀.identity ∧ r.id = r₀.id ∧
          Report.isLinked s.report.links r₀ = true) := by
    intro r hr
    rcases Report.mem_reconcile_original.mp hr with ⟨hlisted, hall⟩ | ⟨r₀, hr₀, hmissing, hsettle⟩
    · obtain ⟨n, hn, hidentity⟩ := mem_map.mp hlisted
      exact Or.inl ⟨Call.mem_nextByKey.mp hlisted, hall,
        (original_listed hinv.wellFormed hnodup hguard hall hn hidentity).1⟩
    · obtain ⟨hidentity, hid⟩ := Report.settleMissing_identity hsettle
      obtain ⟨hflag, hkept⟩ := Report.settleMissing_eq_some hsettle
      refine Or.inr ⟨?_, hflag, r₀, hr₀, hidentity, hid, ?_⟩
      · rw [hidentity]
        exact fun hmem => hmissing (Call.mem_nextByKey.mpr hmem)
      · rcases hkept with hfalse | hlinked
        · exact hinv.isLinked_of_not_original hr₀ hfalse
        · exact hlinked
  have hkeeps : ∀ r₀ ∈ s.report.rows, Report.isLinked s.report.links r₀ = true →
      ∃ r ∈ (s.report.reconcile .original call.nextByKey).rows,
        r.identity = r₀.identity ∧ r.id = r₀.id := by
    intro r₀ hr₀ hlinked
    by_cases hlisted : r₀.identity ∈ call.nextByKey.map Next.identity
    · refine ⟨r₀.written .original call.nextByKey, ?_, Row.written_identity, Row.written_id⟩
      refine Report.mem_reconcile_original.mpr (Or.inl ⟨?_, ?_⟩)
      · rw [Row.written_identity]
        exact hlisted
      · exact Report.mem_writeAll.mpr (Or.inl ⟨r₀, hr₀, rfl⟩)
    · obtain ⟨r, hsettle⟩ := Report.exists_settleMissing (Or.inr hlinked)
      exact ⟨r, Report.mem_reconcile_original.mpr (Or.inr ⟨r₀, hr₀, hlisted, hsettle⟩),
        Report.settleMissing_identity hsettle⟩
  refine ⟨hwf, ⟨?_, ?_, ?_, ?_, hinv.union.once⟩⟩
  · intro k
    constructor
    · rintro ⟨r, hr, rfl⟩
      rcases hcases r hr with ⟨hlisted, -⟩ | ⟨-, -, r₀, hr₀, hidentity, -, hlinked⟩
      · exact Or.inl hlisted
      · obtain ⟨sourceId, hlink⟩ := Report.isLinked_iff.mp hlinked
        rw [hidentity]
        exact Or.inr ⟨sourceId, (hinv.union.links r₀ hr₀ sourceId).mp hlink⟩
    · rintro (hlisted | ⟨sourceId, hmem⟩)
      · obtain ⟨n, hn, rfl⟩ := mem_map.mp (Call.mem_nextByKey.mpr hlisted)
        obtain ⟨r, hr, hidentity⟩ := exists_writeAll _ _ hn
        refine ⟨r, Report.mem_reconcile_original.mpr (Or.inl ⟨?_, hr⟩), hidentity⟩
        rw [hidentity]
        exact mem_map_of_mem hn
      · obtain ⟨r₀, hr₀, rfl⟩ := (hinv.union.rows k).mpr (Or.inr ⟨sourceId, hmem⟩)
        obtain ⟨r, hr, hidentity, -⟩ := hkeeps r₀ hr₀
          (Report.isLinked_iff.mpr ⟨sourceId, (hinv.union.links r₀ hr₀ sourceId).mpr hmem⟩)
        exact ⟨r, hr, hidentity⟩
  · intro r hr
    rcases hcases r hr with ⟨hlisted, -, hflag⟩ | ⟨hmissing, hflag, -⟩
    · exact iff_of_true hflag hlisted
    · refine iff_of_false ?_ hmissing
      rw [hflag]
      decide
  · intro r hr sourceId
    rcases hcases r hr with ⟨-, hall, -⟩ | ⟨-, -, r₀, hr₀, hidentity, hid, -⟩
    · exact hinv.writeAll_links hall
    · rw [hidentity, hid]
      exact hinv.union.links r₀ hr₀ sourceId
  · intro link hlink
    obtain ⟨r₀, hr₀, hid⟩ := hinv.union.owned link hlink
    obtain ⟨r, hr, -, hsame⟩ := hkeeps r₀ hr₀
      (Report.isLinked_iff.mpr ⟨link.2, by rw [hid]; exact hlink⟩)
    exact ⟨r, hr, hsame.trans hid⟩

end InventoryInv

theorem mem_replaceLinks {rows : List Row} {id sourceId' : ℕ}
    (hrows : (rows.map Row.identity).Nodup) :
    (id, sourceId') ∈ Report.replaceLinks links rows sourceId next ↔
      (sourceId' ≠ sourceId ∧ (id, sourceId') ∈ links) ∨
        (sourceId' = sourceId ∧ ∃ r ∈ rows, r.identity ∈ next.map Next.identity ∧ r.id = id) := by
  unfold Report.replaceLinks
  rw [mem_append, mem_filter, mem_filterMap]
  refine or_congr ?_ ?_
  · rw [and_comm]
    simp
  · constructor
    · rintro ⟨n, hn, hlookup⟩
      obtain ⟨r, hr, hpair⟩ := Option.map_eq_some_iff.mp hlookup
      obtain ⟨rfl, rfl⟩ := Prod.mk.inj hpair
      obtain ⟨hmem, hidentity⟩ := mem_of_lookup hr
      exact ⟨rfl, r, hmem, hidentity ▸ mem_map_of_mem hn, rfl⟩
    · rintro ⟨rfl, r, hr, hlisted, rfl⟩
      obtain ⟨n, hn, hidentity⟩ := mem_map.mp hlisted
      refine ⟨n, hn, ?_⟩
      rw [hidentity, lookup_key hrows hr]
      rfl

theorem nodup_replaceLinks {rows : List Row} (hlinks : links.Nodup) (hids : (rows.map Row.id).Nodup)
    (hnext : (next.map Next.identity).Nodup) :
    (Report.replaceLinks links rows sourceId next).Nodup := by
  have hnew : (next.filterMap fun n => (Rows.lookup Row.identity rows n.identity).map fun row =>
      (row.id, sourceId)).Nodup := by
    have hkeys := hnext.filterMap
      (f := fun k => (Rows.lookup Row.identity rows k).map fun row => (row.id, sourceId)) ?_
    · rwa [filterMap_map] at hkeys
    · intro k k' link hk hk'
      obtain ⟨r, hr, rfl⟩ := Option.map_eq_some_iff.mp hk
      obtain ⟨r', hr', hsame⟩ := Option.map_eq_some_iff.mp hk'
      obtain ⟨hmem, rfl⟩ := mem_of_lookup hr
      obtain ⟨hmem', rfl⟩ := mem_of_lookup hr'
      rw [inj_on_of_nodup_map hids hmem' hmem (Prod.mk.inj hsame).1]
  refine nodup_append.mpr ⟨hlinks.filter _, hnew, ?_⟩
  rintro a ha b hb rfl
  obtain ⟨n, -, hlookup⟩ := mem_filterMap.mp hb
  obtain ⟨r, -, rfl⟩ := Option.map_eq_some_iff.mp hlookup
  simpa using (mem_filter.mp ha).2

namespace InventoryInv

/-- A call for a source keeps the union. -/
theorem source (hinv : InventoryInv s) (hscope : call.scope = .source sourceId)
    (hguard : SettlesAll s call) :
    InventoryInv { s with
      report := reconcileReportCandidates s.report call
      linked := Function.update s.linked sourceId call.identities } := by
  have hnodup := call.nodup_nextByKey
  unfold SettlesAll at hguard
  rw [hscope] at hguard
  unfold reconcileReportCandidates
  rw [hscope]
  have hall := hinv.wellFormed.writeAll (.source sourceId) [] hnodup
  have hwf := hinv.wellFormed.reconcile (.source sourceId) hnodup
  have hlinks : ∀ r ∈ s.report.writeAll (.source sourceId) call.nextByKey, ∀ sourceId',
      (r.id, sourceId') ∈ (s.report.reconcile (.source sourceId) call.nextByKey).links ↔
        r.identity ∈ Function.update s.linked sourceId call.identities sourceId' := by
    intro r hr sourceId'
    refine (mem_replaceLinks hall.identities).trans ?_
    by_cases hsame : sourceId' = sourceId
    · subst hsame
      rw [Function.update_self]
      constructor
      · rintro (⟨hne, -⟩ | ⟨-, r', hr', hlisted, hid⟩)
        · exact absurd rfl hne
        · obtain rfl : r' = r := inj_on_of_nodup_map hall.ids hr' hr hid
          exact Call.mem_nextByKey.mp hlisted
      · intro hmem
        exact Or.inr ⟨rfl, r, hr, Call.mem_nextByKey.mpr hmem, rfl⟩
    · rw [Function.update_of_ne hsame, ← hinv.writeAll_links hr]
      simp [hsame]
  -- A row is kept for the flag or for a link, and either gives it an origin.
  have hmem : ∀ r, r ∈ (s.report.reconcile (.source sourceId) call.nextByKey).rows ↔
      r ∈ s.report.writeAll (.source sourceId) call.nextByKey ∧
        (r.hasOriginalDocumentOccurrence = true ∨ ∃ sourceId',
          r.identity ∈ Function.update s.linked sourceId call.identities sourceId') := by
    intro r
    rw [Report.mem_reconcile_source]
    refine and_congr_right fun hr => or_congr_right ?_
    rw [Report.isLinked_iff]
    exact exists_congr fun sourceId' => hlinks r hr sourceId'
  have hflag : ∀ r ∈ s.report.writeAll (.source sourceId) call.nextByKey,
      (r.hasOriginalDocumentOccurrence = true ↔ r.identity ∈ s.original) := by
    intro r hr
    rcases source_original hguard hr with ⟨r₀, hr₀, hidentity, -, hsame⟩ | ⟨hnew, hfalse⟩
    · rw [hsame, ← hidentity]
      exact hinv.union.original r₀ hr₀
    · refine iff_of_false ?_ ?_
      · rw [hfalse]
        decide
      · obtain ⟨-, hfresh, -⟩ := Report.mem_inserted hnew
        intro horiginal
        obtain ⟨r₀, hr₀, hidentity⟩ := (hinv.union.rows r.identity).mpr (Or.inl horiginal)
        exact hfresh (hidentity ▸ mem_map_of_mem hr₀)
  -- Every identity of a source or of the document has a row after the loop.
  have hexists : ∀ k, (k ∈ s.original ∨ ∃ sourceId',
        k ∈ Function.update s.linked sourceId call.identities sourceId') →
      ∃ r ∈ s.report.writeAll (.source sourceId) call.nextByKey, r.identity = k := by
    have hstored : ∀ k, (k ∈ s.original ∨ ∃ sourceId', k ∈ s.linked sourceId') →
        ∃ r ∈ s.report.writeAll (.source sourceId) call.nextByKey, r.identity = k := by
      intro k hk
      obtain ⟨r₀, hr₀, rfl⟩ := (hinv.union.rows k).mpr hk
      exact ⟨r₀.written (.source sourceId) call.nextByKey,
        Report.mem_writeAll.mpr (Or.inl ⟨r₀, hr₀, rfl⟩), Row.written_identity⟩
    rintro k (horiginal | ⟨sourceId', hlinked⟩)
    · exact hstored k (Or.inl horiginal)
    · by_cases hsame : sourceId' = sourceId
      · subst hsame
        rw [Function.update_self] at hlinked
        obtain ⟨n, hn, rfl⟩ := mem_map.mp (Call.mem_nextByKey.mpr hlinked)
        exact exists_writeAll _ _ hn
      · rw [Function.update_of_ne hsame] at hlinked
        exact hstored k (Or.inr ⟨sourceId', hlinked⟩)
  refine ⟨hwf, ⟨?_, ?_, ?_, ?_, ?_⟩⟩
  · intro k
    constructor
    · rintro ⟨r, hr, rfl⟩
      obtain ⟨hr, hkept⟩ := (hmem r).mp hr
      exact hkept.imp_left (hflag r hr).mp
    · intro hk
      obtain ⟨r, hr, rfl⟩ := hexists k hk
      exact ⟨r, (hmem r).mpr ⟨hr, hk.imp_left (hflag r hr).mpr⟩, rfl⟩
  · intro r hr
    exact hflag r ((hmem r).mp hr).1
  · intro r hr sourceId'
    exact hlinks r ((hmem r).mp hr).1 sourceId'
  · rintro ⟨id, sourceId'⟩ hlink
    have howner : ∃ r ∈ s.report.writeAll (.source sourceId) call.nextByKey, r.id = id := by
      rcases (mem_replaceLinks hall.identities).mp hlink with ⟨-, hold⟩ | ⟨-, r, hr, -, hid⟩
      · obtain ⟨r₀, hr₀, hid⟩ := hinv.union.owned _ hold
        exact ⟨r₀.written (.source sourceId) call.nextByKey,
          Report.mem_writeAll.mpr (Or.inl ⟨r₀, hr₀, rfl⟩), Row.written_id.trans hid⟩
      · exact ⟨r, hr, hid⟩
    obtain ⟨r, hr, rfl⟩ := howner
    exact ⟨r, (hmem r).mpr ⟨hr, Or.inr ⟨sourceId', (hlinks r hr sourceId').mp hlink⟩⟩, rfl⟩
  · exact nodup_replaceLinks hinv.union.once hall.ids hnodup

end InventoryInv

theorem Report.WellFormed.keepsIds (hwf : report.WellFormed) :
    report.KeepsIds (report.reconcile scope next) := by
  intro r hr r' hr' hidentity
  have hsub := Report.reconcile_sublist report scope next (fun r => (r.identity, r.id))
    fun _ _ _ h => by
      obtain ⟨hidentity, hid⟩ := Report.settleMissing_identity h
      rw [hidentity, hid]
  obtain ⟨r₁, hr₁, hpair⟩ := mem_map.mp (hsub.subset (mem_map_of_mem hr'))
  obtain ⟨hsame, hid⟩ := Prod.mk.inj hpair
  rcases Report.mem_writeAll.mp hr₁ with ⟨r₀, hr₀, rfl⟩ | hnew
  · rw [Row.written_identity] at hsame
    rw [Row.written_id] at hid
    obtain rfl : r₀ = r := inj_on_of_nodup_map hwf.identities hr₀ hr (hsame.trans hidentity)
    exact hid.symm
  · obtain ⟨-, hfresh, -⟩ := Report.mem_inserted hnew
    rw [hsame, hidentity] at hfresh
    exact absurd (mem_map_of_mem hr) hfresh

/-- The loop leaves rows that it would not change, and inserts none. -/
theorem Report.writeAll_eq_self (hwritten : ∀ r ∈ report.rows, r.written scope next = r)
    (hold : ∀ n ∈ next, n.identity ∈ report.rows.map Row.identity) :
    report.inserted next = [] ∧ report.writeAll scope next = report.rows := by
  have hnone : report.inserted next = [] := by
    have hempty : (next.filter fun n => n.identity ∉ report.rows.map Row.identity) = [] := by
      rw [filter_eq_nil_iff]
      intro n hn
      simpa using hold n hn
    unfold Report.inserted
    rw [hempty]
    rfl
  refine ⟨hnone, ?_⟩
  rw [Report.writeAll_eq, hnone, append_nil]
  exact map_eq_self hwritten

/-- A second call for the document finds every column as the first has left it. -/
theorem reconcile_original_repeat (hwf : report.WellFormed) (hnext : (next.map Next.identity).Nodup)
    (hsettles : ∀ n ∈ next, n.Settles report .original) :
    (report.reconcile .original next).reconcile .original next =
      report.reconcile .original next := by
  have hwritten : ∀ r ∈ (report.reconcile .original next).rows, r.written .original next = r := by
    intro r hr
    by_cases hlisted : r.identity ∈ next.map Next.identity
    · obtain ⟨n, hn, hidentity⟩ := mem_map.mp hlisted
      have hall : r ∈ report.writeAll .original next := by
        rcases Report.mem_reconcile_original.mp hr with ⟨-, hall⟩ | ⟨r₀, -, hmissing, hsettle⟩
        · exact hall
        · rw [(Report.settleMissing_identity hsettle).1] at hlisted
          exact absurd hlisted hmissing
      have hcolumns := (original_listed hwf hnext hsettles hall hn hidentity).2
      rw [Row.written_listed hnext hn hidentity]
      exact if_pos (changedCandidateColumns_eq_nil.mpr hcolumns)
    · exact Row.written_unlisted hlisted
  have hold : ∀ n ∈ next, n.identity ∈ (report.reconcile .original next).rows.map Row.identity := by
    intro n hn
    obtain ⟨r, hr, hidentity⟩ := InventoryInv.exists_writeAll report .original hn
    refine mem_map.mpr ⟨r, Report.mem_reconcile_original.mpr (Or.inl ⟨?_, hr⟩), hidentity⟩
    rw [hidentity]
    exact mem_map_of_mem hn
  obtain ⟨hnone, hsame⟩ := Report.writeAll_eq_self hwritten hold
  have hrows : ((report.reconcile .original next).reconcile .original next).rows =
      (report.reconcile .original next).rows := by
    change List.filterMap _ (Report.writeAll _ _ _) = _
    rw [hsame]
    conv_rhs => rw [← filterMap_some (l := (report.reconcile .original next).rows)]
    refine filterMap_congr fun r hr => ?_
    split
    · rfl
    · next hmissing =>
      rcases Report.mem_reconcile_original.mp hr with ⟨hlisted, -⟩ | ⟨r₀, -, -, hsettle⟩
      · exact absurd hlisted hmissing
      · have hflag := (Report.settleMissing_eq_some hsettle).1
        unfold Report.settleMissing
        rw [hflag]
        rfl
  have hnextId : ((report.reconcile .original next).reconcile .original next).nextId =
      (report.reconcile .original next).nextId := by
    change _ + (Report.inserted _ _).length = _
    rw [hnone]
    rfl
  have hlinks : ((report.reconcile .original next).reconcile .original next).links =
      (report.reconcile .original next).links := rfl
  exact Report.ext hrows hlinks hnextId

theorem Columns.refreshMatch_eq_self {prior next : Columns}
    (hstate : prior.matchState = next.matchState) (hid : prior.matchedIocId = next.matchedIocId)
    (htype : prior.matchedIocObservableType = next.matchedIocObservableType) :
    prior.refreshMatch next = prior := by
  unfold Columns.refreshMatch Columns.matchChanged
  simp [hstate, hid, htype]

/-- The match after a refresh is that of the call. -/
theorem Columns.refreshMatch_spec (prior next : Columns) :
    (prior.refreshMatch next).matchState = next.matchState ∧
      (prior.refreshMatch next).matchedIocId = next.matchedIocId ∧
      (prior.refreshMatch next).matchedIocObservableType = next.matchedIocObservableType ∧
      (prior.refreshMatch next).isDeferral = prior.isDeferral := by
  unfold Columns.refreshMatch Columns.matchChanged
  split
  · exact ⟨rfl, rfl, rfl, rfl⟩
  · next hsame =>
    simp only [ne_eq, decide_not, Bool.or_eq_true, Bool.not_eq_true', decide_eq_false_iff_not,
      not_or, not_not] at hsame
    exact ⟨hsame.1.1, hsame.1.2, hsame.2, rfl⟩

/-- A source call that writes a row twice leaves what the first has written. -/
theorem Row.write_source_repeat (hguard : r.hasOriginalDocumentOccurrence = true →
      linkedAssertionOverridesDeferral r.columns n.columns = true →
        n.columns.matchState ≠ .contextOnly) :
    (r.write (.source sourceId) n).write (.source sourceId) n = r.write (.source sourceId) n := by
  by_cases hflag : r.hasOriginalDocumentOccurrence = true
  · by_cases hoverride : linkedAssertionOverridesDeferral r.columns n.columns = true
    · -- The overlay has given the row an assessment that is no deferral.
      have hwrite : r.write (.source sourceId) n =
          { r with columns := r.columns.overlay n.columns sourceId } := by
        unfold Row.write
        dsimp only
        rw [if_pos (by rw [hflag, hoverride]; rfl)]
      have hasserts : n.columns.asserts = true := (Bool.and_eq_true _ _ ▸ hoverride).2
      have hno : linkedAssertionOverridesDeferral (r.columns.overlay n.columns sourceId) n.columns =
          false := by
        have hassessment : n.columns.assessment ≠ .contextOnly := by
          unfold Columns.asserts at hasserts
          simp only [ne_eq, decide_not, Bool.and_eq_true, Bool.not_eq_true',
            decide_eq_false_iff_not] at hasserts
          exact hasserts.1.1
        unfold linkedAssertionOverridesDeferral Columns.isDeferral Columns.overlay
        simp [hassessment]
      have hrefresh : (r.columns.overlay n.columns sourceId).refreshMatch n.columns =
          r.columns.overlay n.columns sourceId :=
        Columns.refreshMatch_eq_self (if_neg (hguard hflag hoverride)) rfl rfl
      rw [hwrite]
      unfold Row.write
      dsimp only
      rw [if_neg (by rw [hno, Bool.and_false]; decide), if_pos hflag, hrefresh]
    · have hfalse : linkedAssertionOverridesDeferral r.columns n.columns = false := by
        simpa using hoverride
      obtain ⟨hstate, hid, htype, hdeferral⟩ := Columns.refreshMatch_spec r.columns n.columns
      have hwrite : r.write (.source sourceId) n =
          { r with columns := r.columns.refreshMatch n.columns } := by
        unfold Row.write
        dsimp only
        rw [if_neg (by rw [hfalse, Bool.and_false]; decide), if_pos hflag]
      have hno : linkedAssertionOverridesDeferral (r.columns.refreshMatch n.columns) n.columns =
          false := by
        unfold linkedAssertionOverridesDeferral at hfalse ⊢
        rw [hdeferral]
        exact hfalse
      rw [hwrite]
      unfold Row.write
      dsimp only
      rw [if_neg (by rw [hno, Bool.and_false]; decide), if_pos hflag,
        Columns.refreshMatch_eq_self hstate hid htype]
  · have hfalse : r.hasOriginalDocumentOccurrence = false := by simpa using hflag
    have hwrite : ∀ r : Row, r.hasOriginalDocumentOccurrence = false →
        r.write (.source sourceId) n = if changedCandidateColumns r.columns n.columns = [] then r
          else { r with columns := n.columns } := by
      intro r hr
      unfold Row.write
      rw [hr, Bool.false_and]
      rfl
    rw [hwrite r hfalse]
    split
    · next hsame => rw [hwrite r hfalse, if_pos hsame]
    · rw [hwrite { r with columns := n.columns } hfalse,
        if_pos (changedCandidateColumns_eq_nil.mpr rfl)]

/-- A second call for a source changes nothing. -/
theorem reconcile_source_repeat (hwf : report.WellFormed) (hnext : (next.map Next.identity).Nodup)
    (hsettles : ∀ n ∈ next, n.Settles report (.source sourceId)) :
    (report.reconcile (.source sourceId) next).reconcile (.source sourceId) next =
      report.reconcile (.source sourceId) next := by
  have hall := hwf.writeAll (.source sourceId) [] hnext
  have hwf' := hwf.reconcile (.source sourceId) hnext
  have hmem : ∀ r, r ∈ (report.reconcile (.source sourceId) next).rows ↔
      r ∈ report.writeAll (.source sourceId) next ∧ (r.hasOriginalDocumentOccurrence = true ∨
        Report.isLinked (report.reconcile (.source sourceId) next).links r = true) :=
    fun _ => Report.mem_reconcile_source
  have hwritten : ∀ r ∈ report.writeAll (.source sourceId) next,
      r.written (.source sourceId) next = r := by
    intro r hr
    by_cases hlisted : r.identity ∈ next.map Next.identity
    · obtain ⟨n, hn, hidentity⟩ := mem_map.mp hlisted
      have hn' := hsettles n hn
      unfold Next.Settles at hn'
      rw [Row.written_listed hnext hn hidentity]
      rcases Report.mem_writeAll.mp hr with ⟨r₀, hr₀, rfl⟩ | hnew
      · rw [Row.written_identity] at hidentity
        rw [(Report.row?_eq_some hwf).mpr ⟨hr₀, hidentity.symm⟩] at hn'
        rw [Row.written_listed hnext hn hidentity]
        exact Row.write_source_repeat hn'
      · obtain ⟨-, hfresh, n', hnmem, hsame, hcolumns, hflag⟩ := Report.mem_inserted hnew
        obtain rfl : n = n' := inj_on_of_nodup_map hnext hn hnmem (hidentity.trans hsame.symm)
        rw [hidentity, Report.row?_eq_none.mpr hfresh] at hn'
        have hfalse : r.hasOriginalDocumentOccurrence = false := hflag ▸ hn'
        unfold Row.write
        dsimp only
        rw [hfalse, Bool.false_and, if_neg (by decide), if_neg (by decide),
          if_pos (changedCandidateColumns_eq_nil.mpr hcolumns.symm)]
    · exact Row.written_unlisted hlisted
  -- A listed row is linked, so that no deletion takes it.
  have hkept : ∀ r ∈ report.writeAll (.source sourceId) next, r.identity ∈ next.map Next.identity →
      r ∈ (report.reconcile (.source sourceId) next).rows := by
    intro r hr hlisted
    refine (hmem r).mpr ⟨hr, Or.inr (Report.isLinked_iff.mpr ⟨sourceId, ?_⟩)⟩
    exact (mem_replaceLinks hall.identities).mpr (Or.inr ⟨rfl, r, hr, hlisted, rfl⟩)
  have hlookup : ∀ n ∈ next, ∃ r ∈ (report.reconcile (.source sourceId) next).rows,
      r ∈ report.writeAll (.source sourceId) next ∧ r.identity = n.identity := by
    intro n hn
    obtain ⟨r, hr, hidentity⟩ := InventoryInv.exists_writeAll report (.source sourceId) hn
    exact ⟨r, hkept r hr (hidentity ▸ mem_map_of_mem hn), hr, hidentity⟩
  have hold : ∀ n ∈ next,
      n.identity ∈ (report.reconcile (.source sourceId) next).rows.map Row.identity := by
    intro n hn
    obtain ⟨r, hr, -, hidentity⟩ := hlookup n hn
    exact mem_map.mpr ⟨r, hr, hidentity⟩
  obtain ⟨hnone, hsame⟩ := Report.writeAll_eq_self (fun r hr => hwritten r ((hmem r).mp hr).1) hold
  have hlinks : ((report.reconcile (.source sourceId) next).reconcile (.source sourceId) next).links =
      (report.reconcile (.source sourceId) next).links := by
    change Report.replaceLinks (Report.replaceLinks report.links _ sourceId next)
      (Report.writeAll _ _ _) sourceId next = Report.replaceLinks report.links _ sourceId next
    rw [hsame]
    unfold Report.replaceLinks
    rw [filter_append]
    have hothers : (report.links.filter fun link => link.2 ≠ sourceId).filter
        (fun link => link.2 ≠ sourceId) = report.links.filter fun link => link.2 ≠ sourceId := by
      simp
    have hnew : (next.filterMap fun n =>
        (Rows.lookup Row.identity (report.writeAll (.source sourceId) next) n.identity).map
          fun row => (row.id, sourceId)).filter (fun link => link.2 ≠ sourceId) = [] := by
      rw [filter_eq_nil_iff]
      intro link hlink
      obtain ⟨n, -, hrow⟩ := mem_filterMap.mp hlink
      obtain ⟨r, -, rfl⟩ := Option.map_eq_some_iff.mp hrow
      simp
    rw [hothers, hnew, append_nil]
    congr 1
    refine filterMap_congr fun n hn => ?_
    obtain ⟨r, hr, hr', hidentity⟩ := hlookup n hn
    rw [← hidentity, lookup_key hwf'.identities hr, lookup_key hall.identities hr']
  have hrows : ((report.reconcile (.source sourceId) next).reconcile (.source sourceId) next).rows =
      (report.reconcile (.source sourceId) next).rows := by
    change List.filter (fun row => row.hasOriginalDocumentOccurrence ||
      Report.isLinked ((report.reconcile (.source sourceId) next).reconcile
        (.source sourceId) next).links row) (Report.writeAll _ _ _) = _
    rw [hsame, hlinks, filter_eq_self]
    intro r hr
    rw [Bool.or_eq_true]
    exact ((hmem r).mp hr).2
  have hnextId : ((report.reconcile (.source sourceId) next).reconcile
      (.source sourceId) next).nextId = (report.reconcile (.source sourceId) next).nextId := by
    change _ + (Report.inserted _ _).length = _
    rw [hnone]
    rfl
  exact Report.ext hrows hlinks hnextId

theorem InventoryInv.initial : InventoryInv .initial := by
  refine ⟨⟨nodup_nil, nodup_nil, fun r hr => by cases hr⟩, ?_, ?_, ?_, ?_, ?_⟩
  · intro k
    constructor
    · rintro ⟨r, hr, -⟩
      cases hr
    · rintro (hk | ⟨sourceId, hk⟩) <;> cases hk
  · intro r hr
    cases hr
  · intro r hr
    cases hr
  · nofun
  · exact nodup_nil

theorem InventoryInv.step (hinv : InventoryInv s) (hguard : SettlesAll s call)
    (hstep : inventoryStep s call = some s') : InventoryInv s' := by
  unfold inventoryStep at hstep
  split at hstep
  · next hscope =>
    cases hstep
    exact hinv.original hscope hguard
  · next sourceId hscope =>
    cases hstep
    exact hinv.source hscope hguard

/-- One call keeps the ids of the rows that stay, and a second like it changes nothing. -/
theorem InventoryInv.repeats (hinv : InventoryInv s) (hguard : SettlesAll s call) :
    s.report.KeepsIds (reconcileReportCandidates s.report call) ∧
      reconcileReportCandidates (reconcileReportCandidates s.report call) call =
        reconcileReportCandidates s.report call := by
  refine ⟨hinv.wellFormed.keepsIds, ?_⟩
  unfold SettlesAll at hguard
  unfold reconcileReportCandidates
  cases hscope : call.scope with
  | original =>
    rw [hscope] at hguard
    exact reconcile_original_repeat hinv.wellFormed call.nodup_nextByKey hguard
  | source sourceId =>
    rw [hscope] at hguard
    exact reconcile_source_repeat hinv.wellFormed call.nodup_nextByKey hguard

/-- In every run whose calls settle what they list, the inventory is the union of its sources; a
call keeps the row ids, and repeating it changes nothing. -/
theorem inventory_is_union {calls : List Call}
    (hrun : Run inventoryStep SettlesAll .initial calls s) :
    s.IsUnion ∧ ∀ call s', SettlesAll s call → inventoryStep s call = some s' →
      s.report.KeepsIds s'.report ∧ reconcileReportCandidates s'.report call = s'.report := by
  have hinv : InventoryInv s :=
    Run.invariant (fun _ _ _ hinv hguard hstep => hinv.step hguard hstep) hrun .initial
  refine ⟨hinv.union, fun call s' hguard hstep => ?_⟩
  have hreport : s'.report = reconcileReportCandidates s.report call := by
    unfold inventoryStep at hstep
    split at hstep <;> cases hstep <;> rfl
  rw [hreport]
  exact hinv.repeats hguard

/-- A domain leaves the document, stays for its link, and comes back with another text. -/
def comesBack : List Call :=
  [⟨.original, [domainInput "a.test" "table"]⟩,
    ⟨.source 1, [domainInput "a.test" "pack", domainInput "b.test" "pack"]⟩,
    ⟨.original, []⟩, ⟨.original, [domainInput "a.test" "list"]⟩,
    ⟨.source 1, [domainInput "b.test" "pack"]⟩]

theorem inventory_is_union_comesBack : ∃ s, Run inventoryStep SettlesAll .initial comesBack s ∧
      s.report.rows.map (fun r => (r.id, r.identity.normalizedValue)) =
        [(0, "a.test"), (1, "b.test")] ∧
      s.IsUnion ∧ ∀ call s', SettlesAll s call → inventoryStep s call = some s' →
        s.report.KeepsIds s'.report ∧ reconcileReportCandidates s'.report call = s'.report := by
  have hexec : (Run.exec inventoryStep SettlesAll .initial comesBack).map
      (fun s => s.report.rows.map fun r => (r.id, r.identity.normalizedValue)) =
        some [(0, "a.test"), (1, "b.test")] := by
    decide
  obtain ⟨s, hs, hrows⟩ := Option.map_eq_some_iff.mp hexec
  have hrun := Run.of_exec hs
  exact ⟨s, hrun, hrows, inventory_is_union hrun⟩

/-- The domain comes back as it was, and the pack drops it. -/
def comesBackUnchanged : List Call :=
  [⟨.original, [domainInput "a.test" "table"]⟩, ⟨.source 1, [domainInput "a.test" "pack"]⟩,
    ⟨.original, []⟩, ⟨.original, [domainInput "a.test" "table"]⟩,
    ⟨.source 1, [domainInput "b.test" "pack"]⟩]

/-- The row is deleted, though the document has the domain. -/
theorem unchanged_row_deleted : ¬ ∀ (calls : List Call) (s : InventoryState),
      Run inventoryStep (fun _ _ => True) .initial calls s →
        s.IsUnion ∧ ∀ call s', inventoryStep s call = some s' → s.report.KeepsIds s'.report ∧
            reconcileReportCandidates s'.report call = s'.report := by
  intro hclaim
  have hexec : (Run.exec inventoryStep (fun _ _ => True) .initial comesBackUnchanged).map
      (fun s => (s.report.rows.map Row.identity, s.original)) =
        some ([⟨"domain", "b.test"⟩], [⟨"domain", "a.test"⟩]) := by
    decide
  obtain ⟨s, hs, hresult⟩ := Option.map_eq_some_iff.mp hexec
  obtain ⟨hrows, horiginal⟩ := Prod.mk.inj hresult
  have hunion := (hclaim _ s (Run.of_exec hs)).1
  have hlisted : (⟨"domain", "a.test"⟩ : Identity) ∈ s.original := by
    rw [horiginal]
    exact mem_cons_self
  obtain ⟨r, hr, hidentity⟩ := (hunion.rows _).mpr (Or.inl hlisted)
  have hmem := mem_map_of_mem (f := Row.identity) hr
  rw [hrows, hidentity] at hmem
  revert hmem
  decide

end TalonHound.Candidates
