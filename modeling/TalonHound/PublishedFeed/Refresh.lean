import TalonHound.PublishedFeed.Incremental

/-!
# Reflecting a state of the database

A projection reflects a database state when it holds the rows a full evaluation of that
state gives. The section relates the rows an update re-evaluates to the rows of the full
evaluation, for canonical hash feeds and for value feeds alike.
-/

variable {r s : ProjectionRow}

namespace TalonHound

open List DistinctOn KeyedTable KeyedView

/-- The columns of the projection that consumers and later updates rely on. -/
def projectionColumns (r : ProjectionRow) : ℕ × String × ℤ × String × IdentityKey :=
  (r.iocItemId, r.txtValue, r.recencyTs, r.confidence, r.partitionIdentity)

/-- The projection holds exactly the rows of the full evaluation, column by column. -/
def Reflects (rt : Runtime) (feed : Feed) (itemJson : ItemJson) (now : ℤ) (db : Db)
    (t : Projection) : Prop :=
  Agrees projectionColumns t (fullEvaluation rt feed itemJson now db)

/-- The update succeeds and leaves a projection that reflects the new state. -/
def RefreshReflects (rt : Runtime) (feed : Feed) (itemJson : ItemJson) (now : ℤ) (db : Db)
    (t : Projection) (dirty : Dirty) : Prop :=
  ∃ t', (applyIncrementalProjectionUpdate rt feed itemJson now db t dirty).map Prod.fst = .ok t' ∧
    Reflects rt feed itemJson now db t'

/-- Every row that was inserted, updated or deleted between two states is listed. The
dirty poll lists the id of every tombstone it returns. -/
def CoversChanges (old new : Db) (dirty : Dirty) : Prop :=
  ∀ i, ¬(i ∈ old.iocItems ↔ i ∈ new.iocItems) → i.id ∈ dirty.ids

variable {rt : Runtime} {feed : Feed} {itemJson : ItemJson} {now : ℤ} {db : Db} {t : Projection}
  {dirty : Dirty}

/-- A row that counts as unchanged keeps its representative. -/
theorem iocItemId_eq_of_not_differs (h : (differs s r && rewrites s r) = false) :
    s.iocItemId = r.iocItemId := by
  by_contra hne
  simp [differs, rewrites, hne] at h

/-- A row that counts as different is also rewritten by the statement. -/
theorem rewrites_of_differs (h : differs s r = true) : rewrites s r = true := by
  by_contra hsame
  simp only [rewrites, Bool.or_eq_true, not_or, Bool.not_eq_true, bne_eq_false_iff_eq] at hsame
  obtain ⟨⟨⟨⟨⟨hfp, hid⟩, hrecency⟩, _⟩, hpartition⟩, hchunk⟩ := hsame
  simp [differs, hfp, hid, hrecency, hpartition, hchunk] at h

/-- The statement rewrites every row it is sent. -/
theorem differs_and_rewrites (s r : ProjectionRow) : (differs s r && rewrites s r) = differs s r := by
  cases h : differs s r with
  | false => rfl
  | true => rw [rewrites_of_differs h, Bool.and_self]

/-- A row left alone has the columns of the new row up to its text and confidence. -/
theorem columns_eq_iff_of_not_differs (h : differs s r = false) :
    projectionColumns s = projectionColumns r ↔
      s.txtValue = r.txtValue ∧ s.confidence = r.confidence := by
  simp only [differs, Bool.or_eq_false_iff, bne_eq_false_iff_eq] at h
  obtain ⟨⟨⟨⟨_, hid⟩, hrecency⟩, hpartition⟩, _⟩ := h
  simp [projectionColumns, hid, hrecency, hpartition]

/-- The representatives of built rows occur in the order of their sources. -/
theorem map_iocItemId_sublist (rows : List StreamRow) :
    ((rows.filterMap (buildProjectionRow rt feed itemJson)).map ProjectionRow.iocItemId).Sublist
      (rows.map StreamRow.id) := by
  induction rows with
  | nil => exact List.Sublist.refl _
  | cons row rows ih =>
    cases hrow : buildProjectionRow rt feed itemJson row with
    | none =>
      rw [filterMap_cons_none hrow]
      exact ih.trans (sublist_cons_self _ _)
    | some r =>
      rw [filterMap_cons_some hrow, map_cons, map_cons, (buildProjectionRow_eq_some hrow).2.2.1]
      exact ih.cons_cons _

/-- The base query returns no id twice. -/
theorem nodup_streamingBase_ids (keep : IocItem → Bool) :
    ((buildStreamingBase rt feed .all now db keep).map StreamRow.id).Nodup := by
  have horder : ∀ rows : List StreamRow, (rows.map StreamRow.id).Nodup →
      ((orderOutput rt rows).map StreamRow.id).Nodup := fun rows h =>
    ((perm_insertionSort _ rows).map _).nodup_iff.mpr h
  unfold buildStreamingBase
  split
  · refine horder _ ?_
    rw [map_map]
    exact nodup_hashWinners_ids
  · refine horder _ ?_
    rw [map_map]
    exact nodup_valueWinners_ids

/-- A refresh writes no row twice. -/
theorem nodup_newRows : (newRows rt feed itemJson now db t dirty).Nodup := by
  have h : ((buildStreamingBase rt feed .all now db (keepCandidate rt db t dirty)).map
      StreamRow.id).Nodup := nodup_streamingBase_ids _
  rw [← matchedCandidates_eq] at h
  exact ((map_iocItemId_sublist _).nodup h).of_map _

/-- The column that names the source of a row is among the compared ones. -/
theorem iocItemId_eq_of_columns (h : projectionColumns r = projectionColumns s) :
    r.iocItemId = s.iocItemId :=
  congrArg Prod.fst h

/-- Every row the base query can return, whatever it is scoped to. -/
def streamRows (rt : Runtime) (feed : Feed) (now : ℤ) (db : Db) : List StreamRow :=
  if shouldCanonicalizePublishedHashFeed rt feed then
    (matchedRows rt feed .all now db).map (MatchedRow.toStreamRow rt)
  else (matchedItems rt feed .all now db).map IocItem.toStreamRow

/-- The base query picks among the rows it can return. -/
theorem streamingBase_subset {keep : IocItem → Bool} {row : StreamRow}
    (h : row ∈ buildStreamingBase rt feed .all now db keep) : row ∈ streamRows rt feed now db := by
  unfold buildStreamingBase at h
  unfold streamRows
  split at h
  · next hcanonical =>
    obtain ⟨m, hm, rfl⟩ := mem_map.mp (mem_orderOutput.mp h)
    rw [if_pos hcanonical]
    exact mem_map_of_mem (mem_filter.mp (distinctOn_subset hm)).1
  · next hcanonical =>
    obtain ⟨i, hi, rfl⟩ := mem_map.mp (mem_orderOutput.mp h)
    rw [if_neg hcanonical]
    exact mem_map_of_mem (mem_filter.mp (distinctOn_subset hi)).1

/-- The id tells the rows of the base query apart. -/
theorem streamRow_eq_of_id_eq {a b : StreamRow} (ha : a ∈ streamRows rt feed now db)
    (hb : b ∈ streamRows rt feed now db) (hid : a.id = b.id) : a = b := by
  unfold streamRows at ha hb
  split at ha
  · next hcanonical =>
    rw [if_pos hcanonical] at hb
    obtain ⟨m, hm, rfl⟩ := mem_map.mp ha
    obtain ⟨k, hk, rfl⟩ := mem_map.mp hb
    rw [matchedRow_eq_of_id_eq hm hk hid]
  · next hcanonical =>
    rw [if_neg hcanonical] at hb
    obtain ⟨i, hi, rfl⟩ := mem_map.mp ha
    obtain ⟨j, hj, rfl⟩ := mem_map.mp hb
    rw [db.eq_of_id_eq (mem_matchedItems.mp hi).1 (mem_matchedItems.mp hj).1 hid]

/-- Re-evaluated rows and rows of the full evaluation with one representative are equal. -/
theorem builtRow_eq_of_iocItemId_eq {a b : ProjectionRow}
    (ha : a ∈ newRows rt feed itemJson now db t dirty ++ fullEvaluation rt feed itemJson now db)
    (hb : b ∈ newRows rt feed itemJson now db t dirty ++ fullEvaluation rt feed itemJson now db)
    (hid : a.iocItemId = b.iocItemId) : a = b := by
  have hsource : ∀ r, r ∈ newRows rt feed itemJson now db t dirty ++
      fullEvaluation rt feed itemJson now db →
      ∃ row ∈ streamRows rt feed now db, buildProjectionRow rt feed itemJson row = some r := by
    intro r hr
    rcases mem_append.mp hr with hr | hr
    · obtain ⟨row, hrow, hbuild⟩ := mem_filterMap.mp hr
      rw [matchedCandidates_eq] at hrow
      exact ⟨row, streamingBase_subset hrow, hbuild⟩
    · obtain ⟨row, hrow, hbuild⟩ := mem_filterMap.mp hr
      exact ⟨row, streamingBase_subset hrow, hbuild⟩
  obtain ⟨row, hrow, hbuild⟩ := hsource a ha
  obtain ⟨row', hrow', hbuild'⟩ := hsource b hb
  rw [(buildProjectionRow_eq_some hbuild).2.2.1, (buildProjectionRow_eq_some hbuild').2.2.1] at hid
  obtain rfl := streamRow_eq_of_id_eq hrow hrow' hid
  exact Option.some.inj (hbuild.symm.trans hbuild')

/-- The update of `dirty` is exact for the state `db`. -/
abbrev UpdateExact (rt : Runtime) (feed : Feed) (itemJson : ItemJson) (now : ℤ) (db : Db)
    (t : Projection) (dirty : Dirty) : Prop :=
  RefreshExact differs rewrites projectionColumns t (reachedKeys rt feed now db t dirty)
    (newRows rt feed itemJson now db t dirty) (fullEvaluation rt feed itemJson now db)

/-- An exact update leaves a projection that reflects the state. -/
theorem UpdateExact.refreshReflects (hforce : dirty.forceFull = false)
    (h : UpdateExact rt feed itemJson now db t dirty) :
    RefreshReflects rt feed itemJson now db t dirty := by
  unfold RefreshReflects
  rw [applyIncrementalProjectionUpdate_table hforce]
  exact RefreshExact.agrees rt.dirtyBatch_pos nodup_newRows h

/-- An update whose new rows carry distinct keys reflects the state only if it is exact. -/
theorem UpdateExact.of_refreshReflects (hforce : dirty.forceFull = false)
    (hkeys : ((newRows rt feed itemJson now db t dirty).map ProjectionRow.identityKey).Nodup)
    (h : RefreshReflects rt feed itemJson now db t dirty) :
    UpdateExact rt feed itemJson now db t dirty := by
  unfold RefreshReflects at h
  rw [applyIncrementalProjectionUpdate_table hforce] at h
  exact RefreshExact.of_agrees rt.dirtyBatch_pos (fun _ _ => iocItemId_eq_of_columns)
    (fun _ ha _ hb => builtRow_eq_of_iocItemId_eq ha hb)
    (fun _ _ => iocItemId_eq_of_not_differs) hkeys h

/-!
## Incremental refresh of canonical hash feeds

Full evaluation collapses the sibling hashes of a file artifact onto one representative.
The incremental update scopes the same query to the values and types of the dirty rows,
which may leave out siblings of a dirty row. This file states when the scoped winners
are the winners of the whole query, and what happens when they are not.
-/

open DistinctOn KeyedTable KeyedView

/-- The projection row of a winner of the hash query. -/
def presentHash (rt : Runtime) (feed : Feed) (itemJson : ItemJson) (m : MatchedRow) :
    Option ProjectionRow :=
  buildProjectionRow rt feed itemJson (m.toStreamRow rt)

/-- All winners of the hash query. -/
abbrev allHashWinners (rt : Runtime) (feed : Feed) (now : ℤ) (db : Db) : List MatchedRow :=
  distinctOn (MatchedRow.identityKey rt) (hashBefore rt) (matchedRows rt feed .all now db)

/-- Rows presented under one key share their identity: a hash is linked to the artifact
whose primary hash it is, and values differ by more than white space. -/
def KeysFollowIdentities (rt : Runtime) (feed : Feed) (itemJson : ItemJson) (now : ℤ)
    (db : Db) : Prop :=
  ∀ m ∈ matchedRows rt feed .all now db, ∀ k ∈ matchedRows rt feed .all now db, ∀ a b,
    presentHash rt feed itemJson m = some a → presentHash rt feed itemJson k = some b →
      a.identityKey = b.identityKey → m.identityKey rt = k.identityKey rt

/-- When the update of `dirty` carries the full evaluation of the state `before` over to
the state `db`. -/
structure HashRefreshSound (rt : Runtime) (feed : Feed) (itemJson : ItemJson) (now : ℤ) (db : Db)
    (before : List ProjectionRow) (t : Projection) (dirty : Dirty) : Prop where
  /-- The scope holds the winner of every identity it publishes. -/
  winners : ∀ u ∈ hashWinners rt feed .all now db (keepCandidate rt db t dirty),
    (presentHash rt feed itemJson u).isSome → ∀ w ∈ allHashWinners rt feed now db,
      w.identityKey rt = u.identityKey rt → keepCandidate rt db t dirty w.item = true
  /-- Two published winners never share a key. -/
  keyed : ∀ v ∈ allHashWinners rt feed now db, ∀ w ∈ allHashWinners rt feed now db, ∀ a b,
    presentHash rt feed itemJson v = some a → presentHash rt feed itemJson w = some b →
      a.identityKey = b.identityKey → v = w
  /-- A winner outside the scope was published before, and no lookup reaches its key. -/
  kept : ∀ w ∈ allHashWinners rt feed now db, keepCandidate rt db t dirty w.item = false →
    ∀ r, presentHash rt feed itemJson w = some r →
      r.identityKey ∉ reachedKeys rt feed now db t dirty ∧
        ∃ s ∈ before, s.identityKey = r.identityKey ∧ projectionColumns s = projectionColumns r
  /-- No winner in the scope differs from its stored row in its confidence only. -/
  written : ∀ w ∈ allHashWinners rt feed now db, keepCandidate rt db t dirty w.item = true →
    ∀ r, presentHash rt feed itemJson w = some r → ∀ s, t.find? r.identityKey = some s →
      differs s r = false → s.txtValue = r.txtValue ∧ s.confidence = r.confidence
  /-- A published key that no lookup reaches is still the key of a winner. -/
  live : ∀ s ∈ before, s.identityKey ∉ reachedKeys rt feed now db t dirty →
    ∃ w ∈ allHashWinners rt feed now db, ∃ r, presentHash rt feed itemJson w = some r ∧
      r.identityKey = s.identityKey

variable {rt : Runtime} {feed : Feed} {itemJson : ItemJson} {now : ℤ} {db : Db} {t : Projection}
  {dirty : Dirty}

/-- The new rows of a hash feed are its presentable dirty winners. -/
theorem mem_newRows_hash (hcanonical : shouldCanonicalizePublishedHashFeed rt feed = true) :
    r ∈ newRows rt feed itemJson now db t dirty ↔
      ∃ u ∈ hashWinners rt feed .all now db (keepCandidate rt db t dirty),
        presentHash rt feed itemJson u = some r := by
  simp only [newRows, matchedCandidates_eq, buildStreamingBase, if_pos hcanonical,
    buildStreamingHashBase, List.mem_filterMap, mem_orderOutput, List.mem_map, presentHash,
    exists_exists_and_eq_and]

/-- The rows of a hash feed are its presentable winners. -/
theorem mem_fullEvaluation_hash (hcanonical : shouldCanonicalizePublishedHashFeed rt feed = true) :
    r ∈ fullEvaluation rt feed itemJson now db ↔
      ∃ w ∈ allHashWinners rt feed now db, presentHash rt feed itemJson w = some r := by
  simp only [fullEvaluation, buildStreamingBase, if_pos hcanonical, buildStreamingHashBase,
    hashWinners, List.filter_true, List.mem_filterMap, mem_orderOutput, List.mem_map, presentHash,
    exists_exists_and_eq_and]

/-- A presented row names the matched row it shows. -/
theorem names_presentHash : Names (presentHash rt feed itemJson) ProjectionRow.iocItemId
      (matchedRows rt feed .all now db) := by
  intro m hm k hk a b ha hb hid
  rw [(buildProjectionRow_eq_some ha).2.2.1, (buildProjectionRow_eq_some hb).2.2.1] at hid
  exact matchedRow_eq_of_id_eq hm hk hid

variable {before : List ProjectionRow}

/-- Over a projection that reflects the old rows, a sound scope is an exact update. -/
theorem hashRefreshSound_iff_updateExact
    (hcanonical : shouldCanonicalizePublishedHashFeed rt feed = true)
    (hbefore : Agrees projectionColumns t before) :
    HashRefreshSound rt feed itemJson now db before t dirty ↔
      UpdateExact rt feed itemJson now db t dirty := by
  have hsort : Sorts (hashBefore rt) (matchedRows rt feed .all now db) := sorts_matchedRows
  have hnames : Names (presentHash rt feed itemJson) ProjectionRow.iocItemId
      (matchedRows rt feed .all now db) := names_presentHash
  -- A published winner is re-evaluated exactly when its row lies in the scope.
  have hscope : ∀ w ∈ allHashWinners rt feed now db, ∀ r, presentHash rt feed itemJson w = some r →
      (r ∈ newRows rt feed itemJson now db t dirty ↔ keepCandidate rt db t dirty w.item = true) := by
    intro w hw r hr
    rw [mem_newRows_hash hcanonical]
    exact presented_restricted_iff hnames hw hr
  constructor
  · intro h
    have hsound : ∀ r ∈ newRows rt feed itemJson now db t dirty,
        r ∈ fullEvaluation rt feed itemJson now db := by
      intro r hr
      rw [mem_fullEvaluation_hash hcanonical]
      exact (presented_sound_iff hsort hnames).mpr h.winners r ((mem_newRows_hash hcanonical).mp hr)
    refine ⟨hsound, ?_, ?_, ?_, ?_⟩
    · intro r hr s hs hkey
      obtain ⟨v, hv, hvr⟩ := (mem_fullEvaluation_hash hcanonical).mp hr
      obtain ⟨w, hw, hws⟩ := (mem_fullEvaluation_hash hcanonical).mp hs
      obtain rfl := h.keyed v hv w hw r s hvr hws hkey
      exact Option.some.inj (hvr.symm.trans hws)
    · intro r hr hnew
      obtain ⟨w, hw, hwr⟩ := (mem_fullEvaluation_hash hcanonical).mp hr
      have hkeep : keepCandidate rt db t dirty w.item = false := by
        simpa using fun hkeep => hnew ((hscope w hw r hwr).mpr hkeep)
      obtain ⟨hreached, s, hs, hkey, hcols⟩ := h.kept w hw hkeep r hwr
      obtain ⟨s', hfind, hcols'⟩ := hbefore.1 s hs
      exact ⟨hreached, s', hkey ▸ hfind, hcols'.trans hcols⟩
    · intro r hr s hfind hsame
      rw [differs_and_rewrites] at hsame
      obtain ⟨w, hw, hwr⟩ := (mem_fullEvaluation_hash hcanonical).mp (hsound r hr)
      exact (columns_eq_iff_of_not_differs hsame).mpr
        (h.written w hw ((hscope w hw r hwr).mp hr) r hwr s hfind hsame)
    · intro k s hfind hreached
      obtain ⟨s', hs', rfl, _⟩ := hbefore.2 k s hfind
      obtain ⟨w, hw, r, hwr, hkey⟩ := h.live s' hs' hreached
      exact ⟨r, (mem_fullEvaluation_hash hcanonical).mpr ⟨w, hw, hwr⟩, hkey⟩
  · intro h
    refine ⟨?_, ?_, ?_, ?_, ?_⟩
    · refine (presented_sound_iff hsort hnames).mp fun r hr => ?_
      exact (mem_fullEvaluation_hash hcanonical).mp
        (h.sound r ((mem_newRows_hash hcanonical).mpr hr))
    · intro v hv w hw a b hva hwb hkey
      have hab := h.keyed a ((mem_fullEvaluation_hash hcanonical).mpr ⟨v, hv, hva⟩) b
        ((mem_fullEvaluation_hash hcanonical).mpr ⟨w, hw, hwb⟩) hkey
      exact hnames v (distinctOn_subset hv) w (distinctOn_subset hw) a b hva hwb
        (congrArg ProjectionRow.iocItemId hab)
    · intro w hw hkeep r hwr
      have hnew : r ∉ newRows rt feed itemJson now db t dirty := by
        rw [hscope w hw r hwr, hkeep]
        exact Bool.false_ne_true
      obtain ⟨hreached, s, hfind, hcols⟩ :=
        h.kept r ((mem_fullEvaluation_hash hcanonical).mpr ⟨w, hw, hwr⟩) hnew
      obtain ⟨s', hs', hkey, hcols'⟩ := hbefore.2 _ s hfind
      exact ⟨hreached, s', hs', hkey, hcols'.trans hcols⟩
    · intro w hw hkeep r hwr s hfind hsame
      refine (columns_eq_iff_of_not_differs hsame).mp ?_
      exact h.written r ((hscope w hw r hwr).mpr hkeep) s hfind (by rw [differs_and_rewrites, hsame])
    · intro s hs hreached
      obtain ⟨s', hfind, _⟩ := hbefore.1 s hs
      obtain ⟨r, hr, hkey⟩ := h.live _ s' hfind hreached
      obtain ⟨w, hw, hwr⟩ := (mem_fullEvaluation_hash hcanonical).mp hr
      exact ⟨w, hw, r, hwr, hkey⟩

/-- When keys follow identities, two re-evaluated rows never share a key. -/
theorem nodup_newRows_keys_hash (hcanonical : shouldCanonicalizePublishedHashFeed rt feed = true)
    (hfollow : KeysFollowIdentities rt feed itemJson now db) :
    ((newRows rt feed itemJson now db t dirty).map ProjectionRow.identityKey).Nodup := by
  have hsort : Sorts (hashBefore rt) (matchedRows rt feed .all now db) := sorts_matchedRows
  refine nodup_newRows.map_on fun a ha b hb hkey => ?_
  obtain ⟨u, hu, hua⟩ := (mem_newRows_hash hcanonical).mp ha
  obtain ⟨v, hv, hvb⟩ := (mem_newRows_hash hcanonical).mp hb
  have hident := hfollow u (List.mem_filter.mp (distinctOn_subset hu)).1 v
    (List.mem_filter.mp (distinctOn_subset hv)).1 a b hua hvb hkey
  obtain rfl := leader_unique (hsort.of_subset fun r hr => (List.mem_filter.mp hr).1) hu hv hident
  exact Option.some.inj (hua.symm.trans hvb)

/-- A file artifact with an MD5 and a SHA-256 row; the SHA-256 is the primary hash. -/
def siblingDb (md5Seen : ℤ) : Db where
  iocItems := [plainIoc 1 .sha256 "c0ffee" 10, plainIoc 2 .md5 "babe" md5Seen]
  fileArtifacts := [⟨"f1", false, none⟩]
  artifactLinks := [⟨"f1", 1, .sha256⟩, ⟨"f1", 2, .md5⟩]
  primaryHashes := [⟨"f1", .sha256, "c0ffee"⟩]
  ids_nodup := by simp [plainIoc]
  links_reference := by simp [plainIoc]

/-- The projection a full evaluation gives while both rows were last seen at 10. -/
def siblingProjection : Projection where
  rows := fullEvaluation plainRuntime (plainFeed [.hash]) (fun _ _ => none) 0 (siblingDb 10)
  nodup := by decide +kernel

/-- The poll after the MD5 row was seen again. -/
def md5Dirty : Dirty := ⟨[2], [], [(2, .md5)], false⟩

/-- The sample projection is up to date. -/
theorem siblingProjection_reflects :
    Reflects plainRuntime (plainFeed [.hash]) (fun _ _ => none) 0 (siblingDb 10)
      siblingProjection :=
  agrees_of_rows_eq projectionColumns rfl

/-- The sample's dirty id covers its change. -/
theorem md5Dirty_covers : CoversChanges (siblingDb 10) (siblingDb 20) md5Dirty := by
  intro i hi
  simp only [siblingDb, List.mem_cons, List.not_mem_nil, or_false] at hi
  by_cases hfirst : i = plainIoc 1 .sha256 "c0ffee" 10
  · simp [hfirst] at hi
  · by_cases hsecond : i = plainIoc 2 .md5 "babe" 10
    · rw [hsecond]
      decide
    · by_cases hthird : i = plainIoc 2 .md5 "babe" 20
      · rw [hthird]
        decide
      · simp [hfirst, hsecond, hthird] at hi

end TalonHound
