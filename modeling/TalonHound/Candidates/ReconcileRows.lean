import TalonHound.Candidates.Reconcile

/-!
# The rows after a call

What `reconcileReportCandidates` leaves of each row: the loop over the listed candidates, then the
deletions.
-/

namespace TalonHound.Candidates

open List

variable {report : Report} {scope : Scope} {next : List Next} {links : List (ℕ × ℕ)} {r r' : Row}
  {n : Next}

/-- Identities and ids are unique, and the next id is new. -/
@[mk_iff]
structure Report.WellFormed (report : Report) : Prop where
  identities : (report.rows.map Row.identity).Nodup
  ids : (report.rows.map Row.id).Nodup
  fresh : ∀ r ∈ report.rows, r.id < report.nextId

instance (report : Report) : Decidable report.WellFormed :=
  decidable_of_iff _ (Report.wellFormed_iff report).symm

/-- A call has one candidate for each identity. -/
theorem Call.nodup_nextByKey {call : Call} : (call.nextByKey.map Next.identity).Nodup :=
  InsertionMap.nodup_ofList _ _

/-- A write keeps the identity. -/
theorem Row.write_identity : (r.write scope n).identity = r.identity := by
  unfold Row.write
  split
  · split
    · rfl
    · split
      · rfl
      · split <;> rfl
  · split <;> rfl

/-- A write keeps the id. -/
theorem Row.write_id : (r.write scope n).id = r.id := by
  unfold Row.write
  split
  · split
    · rfl
    · split
      · rfl
      · split <;> rfl
  · split <;> rfl

/-- The columns of a listed row are those of its candidate. -/
theorem Row.write_original_columns : (r.write .original n).columns = n.columns := by
  unfold Row.write
  dsimp only
  split
  · next hsame => exact changedCandidateColumns_eq_nil.mp hsame
  · rfl

/-- A source call keeps the occurrence flag. -/
theorem Row.write_source_original {sourceId : ℕ} :
    (r.write (.source sourceId) n).hasOriginalDocumentOccurrence =
      r.hasOriginalDocumentOccurrence := by
  unfold Row.write
  dsimp only
  split
  · rfl
  · split
    · rfl
    · split <;> rfl

/-- The row that the loop leaves for a stored row. -/
def Row.written (scope : Scope) (next : List Next) (row : Row) : Row :=
  match Rows.lookup Next.identity next row.identity with
  | some n => row.write scope n
  | none => row

/-- A reconciled row keeps its identity. -/
theorem Row.written_identity : (r.written scope next).identity = r.identity := by
  unfold Row.written
  split
  · exact Row.write_identity
  · rfl

/-- A reconciled row keeps its id. -/
theorem Row.written_id : (r.written scope next).id = r.id := by
  unfold Row.written
  split
  · exact Row.write_id
  · rfl

/-- A row that is not listed is not written. -/
theorem Row.written_unlisted (h : r.identity ∉ next.map Next.identity) :
    r.written scope next = r := by
  unfold Row.written
  rw [Rows.lookup_eq_none.mpr h]

/-- A listed row is written with the entry of its identity. -/
theorem Row.written_listed (hnext : (next.map Next.identity).Nodup) (hn : n ∈ next)
    (h : n.identity = r.identity) : r.written scope next = r.write scope n := by
  unfold Row.written
  rw [← h, Rows.lookup_key hnext hn]

namespace Report

/-- Inserted rows are listed, new, and have ids from `nextId` on. -/
theorem mem_inserted (hr : r ∈ report.inserted next) :
    report.nextId ≤ r.id ∧ r.identity ∉ report.rows.map Row.identity ∧
      ∃ n ∈ next, n.identity = r.identity ∧ n.columns = r.columns ∧
        n.hasOriginalDocumentOccurrence = r.hasOriginalDocumentOccurrence := by
  obtain ⟨⟨n, i⟩, hn, rfl⟩ := mem_map.mp hr
  obtain ⟨hmem, hnew⟩ := mem_filter.mp (fst_mem_of_mem_zipIdx hn)
  refine ⟨Nat.le_add_right _ _, ?_, n, hmem, rfl, rfl, rfl⟩
  simpa using hnew

/-- Inserted ids are used up in order. -/
theorem id_lt_of_mem_inserted (hr : r ∈ report.inserted next) :
    r.id < report.nextId + (report.inserted next).length := by
  unfold inserted at hr ⊢
  obtain ⟨⟨n, i⟩, hn, rfl⟩ := mem_map.mp hr
  have hi := snd_lt_add_of_mem_zipIdx hn
  rw [length_map, length_zipIdx]
  dsimp only
  omega

/-- The identities inserted are the listed ones without a row. -/
theorem map_identity_inserted : (report.inserted next).map Row.identity =
    (next.map Next.identity).filter fun k => k ∉ report.rows.map Row.identity := by
  unfold inserted
  rw [map_map]
  have hcomp : (Row.identity ∘ fun p : Next × ℕ =>
      ({ id := report.nextId + p.2
         identity := p.1.identity
         columns := p.1.columns
         hasOriginalDocumentOccurrence := p.1.hasOriginalDocumentOccurrence
         promotionOutcome := none } : Row)) =
      Next.identity ∘ Prod.fst := rfl
  rw [hcomp, ← map_map, zipIdx_map_fst, filter_map]
  rfl

/-- The ids inserted are consecutive. -/
theorem map_id_inserted : (report.inserted next).map Row.id =
    (List.range (report.inserted next).length).map fun i => report.nextId + i := by
  unfold inserted
  rw [map_map, length_map, length_zipIdx]
  have hcomp : (Row.id ∘ fun p : Next × ℕ =>
      ({ id := report.nextId + p.2
         identity := p.1.identity
         columns := p.1.columns
         hasOriginalDocumentOccurrence := p.1.hasOriginalDocumentOccurrence
         promotionOutcome := none } : Row)) =
      (fun i => report.nextId + i) ∘ Prod.snd := rfl
  rw [hcomp, ← map_map, zipIdx_map_snd, range_eq_range']

/-- Old rows come first, inserted ones after them. -/
theorem writeAll_eq : report.writeAll scope next =
    report.rows.map (Row.written scope next) ++ report.inserted next := rfl

/-- A row after the writes is an old one, written, or inserted. -/
theorem mem_writeAll : r' ∈ report.writeAll scope next ↔
    (∃ r ∈ report.rows, r.written scope next = r') ∨ r' ∈ report.inserted next := by
  rw [writeAll_eq, mem_append, mem_map]

/-- The identities after the writes. -/
theorem map_identity_writeAll : (report.writeAll scope next).map Row.identity =
    report.rows.map Row.identity ++
      (next.map Next.identity).filter fun k => k ∉ report.rows.map Row.identity := by
  rw [writeAll_eq, map_append, map_map, map_identity_inserted]
  congr 1
  exact map_congr_left fun _ _ => Row.written_identity

/-- The ids after the writes. -/
theorem map_id_writeAll : (report.writeAll scope next).map Row.id =
    report.rows.map Row.id ++ (report.inserted next).map Row.id := by
  rw [writeAll_eq, map_append, map_map]
  congr 1
  exact map_congr_left fun _ _ => Row.written_id

namespace WellFormed

/-- The loop keeps identities and ids unique. -/
theorem writeAll (hwf : report.WellFormed) (scope : Scope) (links : List (ℕ × ℕ))
    (hnext : (next.map Next.identity).Nodup) :
    WellFormed { rows := report.writeAll scope next
                 links := links
                 nextId := report.nextId + (report.inserted next).length } := by
  refine ⟨?_, ?_, ?_⟩
  · change ((report.writeAll scope next).map Row.identity).Nodup
    rw [map_identity_writeAll]
    refine nodup_append.mpr ⟨hwf.identities, hnext.filter _, ?_⟩
    rintro a ha b hb rfl
    have hnew := (mem_filter.mp hb).2
    simp only [decide_eq_true_eq] at hnew
    exact hnew ha
  · change ((report.writeAll scope next).map Row.id).Nodup
    rw [map_id_writeAll]
    refine nodup_append.mpr ⟨hwf.ids, ?_, ?_⟩
    · rw [map_id_inserted]
      exact nodup_range.map fun i j h => Nat.add_left_cancel h
    · rintro a ha b hb rfl
      obtain ⟨r, hr, hid⟩ := mem_map.mp ha
      obtain ⟨r', hr', hid'⟩ := mem_map.mp hb
      have hold := hwf.fresh r hr
      have hnew := (mem_inserted hr').1
      omega
  · intro r' hr'
    change r'.id < report.nextId + (report.inserted next).length
    rcases mem_writeAll.mp hr' with ⟨r, hr, rfl⟩ | hnew
    · rw [Row.written_id]
      have hold := hwf.fresh r hr
      omega
    · exact id_lt_of_mem_inserted hnew

end WellFormed

/-- A settled row keeps its identity and its id. -/
theorem settleMissing_identity (h : settleMissing links r = some r') :
    r'.identity = r.identity ∧ r'.id = r.id := by
  unfold settleMissing at h
  split at h
  · cases h
    exact ⟨rfl, rfl⟩
  · split at h
    · cases h
      exact ⟨rfl, rfl⟩
    · cases h

/-- A row that an original call does not list is kept for its links, without the flag. -/
theorem settleMissing_eq_some (h : settleMissing links r = some r') :
    r'.hasOriginalDocumentOccurrence = false ∧
      (r.hasOriginalDocumentOccurrence = false ∨ isLinked links r = true) := by
  unfold settleMissing at h
  split at h
  · next hflag =>
    cases h
    have hfalse : r.hasOriginalDocumentOccurrence = false := by simpa using hflag
    exact ⟨hfalse, Or.inl hfalse⟩
  · split at h
    · next hlinked =>
      cases h
      exact ⟨rfl, Or.inr hlinked⟩
    · cases h

/-- A row with a link, or without an occurrence, is settled and kept. -/
theorem exists_settleMissing
    (h : r.hasOriginalDocumentOccurrence = false ∨ isLinked links r = true) :
    ∃ r', settleMissing links r = some r' := by
  unfold settleMissing
  split
  · exact ⟨_, rfl⟩
  · next hflag =>
    split
    · exact ⟨_, rfl⟩
    · next hlinked =>
      rcases h with hfalse | hlink
      · rw [hfalse] at hflag
        exact absurd rfl hflag
      · exact absurd hlink hlinked

/-- The rows after the document has been reconciled. -/
theorem mem_reconcile_original : r' ∈ (report.reconcile .original next).rows ↔
    (r'.identity ∈ next.map Next.identity ∧ r' ∈ report.writeAll .original next) ∨
      ∃ r ∈ report.rows, r.identity ∉ next.map Next.identity ∧
        settleMissing report.links r = some r' := by
  change r' ∈ List.filterMap _ (report.writeAll .original next) ↔ _
  rw [mem_filterMap]
  constructor
  · rintro ⟨r, hr, hsettle⟩
    split at hsettle
    · next hlisted =>
      cases hsettle
      exact Or.inl ⟨hlisted, hr⟩
    · next hmissing =>
      rcases mem_writeAll.mp hr with ⟨r₀, hr₀, rfl⟩ | hnew
      · rw [Row.written_identity] at hmissing
        rw [Row.written_unlisted hmissing] at hsettle
        exact Or.inr ⟨r₀, hr₀, hmissing, hsettle⟩
      · obtain ⟨-, -, n, hn, hidentity, -⟩ := mem_inserted hnew
        exact absurd (hidentity ▸ mem_map_of_mem hn) hmissing
  · rintro (⟨hlisted, hr'⟩ | ⟨r, hr, hmissing, hsettle⟩)
    · exact ⟨r', hr', if_pos hlisted⟩
    · refine ⟨r, ?_, ?_⟩
      · exact mem_writeAll.mpr (Or.inl ⟨r, hr, Row.written_unlisted hmissing⟩)
      · rw [if_neg hmissing, hsettle]

/-- The rows after a source has been reconciled. -/
theorem mem_reconcile_source {sourceId : ℕ} :
    r' ∈ (report.reconcile (.source sourceId) next).rows ↔
      r' ∈ report.writeAll (.source sourceId) next ∧
        (r'.hasOriginalDocumentOccurrence = true ∨
          isLinked (report.reconcile (.source sourceId) next).links r' = true) := by
  change r' ∈ List.filter _ _ ↔ _
  rw [mem_filter, Bool.or_eq_true]
  rfl

/-- Every row after a call has the identity and the id of a row after the loop. -/
theorem reconcile_sublist {κ : Type*} (report : Report) (scope : Scope) (next : List Next)
    (key : Row → κ)
    (hkey : ∀ links r r', settleMissing links r = some r' → key r' = key r) :
    ((report.reconcile scope next).rows.map key).Sublist
      ((report.writeAll scope next).map key) := by
  cases scope with
  | original =>
    refine Rows.map_filterMap_sublist fun r r' h => ?_
    split at h
    · cases h
      rfl
    · exact hkey _ r r' h
  | source sourceId => exact filter_sublist.map key

/-- Reconciling keeps the report well formed. -/
theorem WellFormed.reconcile (hwf : report.WellFormed) (scope : Scope)
    (hnext : (next.map Next.identity).Nodup) :
    (report.reconcile scope next).WellFormed := by
  have hall := hwf.writeAll scope [] hnext
  refine ⟨?_, ?_, ?_⟩
  · exact hall.identities.sublist
      (reconcile_sublist _ _ _ Row.identity fun _ _ _ h => (settleMissing_identity h).1)
  · exact hall.ids.sublist
      (reconcile_sublist _ _ _ Row.id fun _ _ _ h => (settleMissing_identity h).2)
  · intro r hr
    have hsub := reconcile_sublist report scope next Row.id
      fun _ _ _ h => (settleMissing_identity h).2
    obtain ⟨r₀, hr₀, hid⟩ := mem_map.mp (hsub.subset (mem_map_of_mem hr))
    have hfresh := hall.fresh r₀ hr₀
    have hnextId : (report.reconcile scope next).nextId =
        report.nextId + (report.inserted next).length := by
      cases scope <;> rfl
    rw [hnextId, ← hid]
    exact hfresh

end Report

end TalonHound.Candidates
