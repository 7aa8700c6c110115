import Mathlib.Data.List.TakeWhile
import TalonHound.Library.Rows
import TalonHound.Library.Run

/-!
# Moving the records of a source

A move hands the rows of a source to another one, or merges them into its rows. It conserves the
observables, and recomputes the status of all of them where no text has the separator of the keys
that it collects.
-/

namespace TalonHound.IocSources

open List

/-- The columns of `ioc_items` that a move reads or writes. -/
structure Item where
  id : ℕ
  (observable observableType : String)
  sourceId : Option ℕ
  (sourceName confidence confidenceSource confidenceSourceName threatClassification : Option String)
  manualExpiresAt : Option ℤ
  (manualOverrideReason manualStatus : Option String)
  manualStatusOverride : Bool
  createdAt : ℤ
  lastSeenAt : Option ℤ

/-- A row of `ioc_sources`. -/
structure Source where
  name : String
  (archived active : Bool)

/-- What `buildTargetDefaults` gives. -/
structure TargetDefaults where
  (confidence threatClassification : String)
  manualExpiresAt : Option ℤ
  manualOverrideReason : Option String

variable (sources : ℕ → Option Source) (defaults : Option TargetDefaults) (items : List Item)
  (source target : ℕ)

/-- The rows of the source. -/
def fetchMoveCandidates : List Item := items.filter (·.sourceId = some source)

/-- The target of an accepted move, or the status and the message. -/
def previewIocSourceMove : Option ℕ → Except (ℕ × String) Source
  | none => .error (400, "target_source_id is required")
  | some target =>
    if target = source then
      .error (400, "Target source must differ from the source being moved")
    else if sources source = none then .error (404, "Source not found")
    else match sources target with
      | none => .error (400, "Target source not found")
      | some target =>
        if target.archived then .error (400, "Target source is archived")
        else if !target.active then .error (400, "Target source is disabled")
        else if fetchMoveCandidates items source = [] then
          .error (400, "This source has no IOC records to move")
        else .ok target

/-- `t` is another row of the observable, at the target. -/
def Item.isTargetOf (t i : Item) : Bool :=
  t.observable = i.observable && t.observableType = i.observableType &&
    t.sourceId = some target && t.id ≠ i.id

/-- The condition of the `UPDATE` that moves. -/
def isMoved (i : Item) : Bool :=
  i.sourceId = some source && !items.any (Item.isTargetOf target · i)

/-- The columns of a moved row. -/
def Item.moveTo (targetName : String) (i : Item) : Item :=
  match defaults with
  | none => { i with sourceId := some target, sourceName := some targetName }
  | some d =>
    let moved := { i with
      sourceId := some target, sourceName := some targetName,
      manualStatusOverride := true, manualStatus := some "active" }
    if i.confidenceSource = some "analyst_override" then moved
    else { moved with
      confidence := some d.confidence
      confidenceSource := some "ioc_source_default"
      confidenceSourceName := some targetName
      threatClassification := some d.threatClassification
      manualExpiresAt := d.manualExpiresAt
      manualOverrideReason := d.manualOverrideReason }

/-- The `UPDATE` that moves. -/
def moveItems (targetName : String) : List Item :=
  items.map (Rows.updateWhere (isMoved items source target)
    (Item.moveTo defaults target targetName))

/-- `s` is merged into `t`. -/
def isMergedInto (s t : Item) : Bool := s.sourceId = some source && t.isTargetOf target s

/-- A target is seen when the row that is merged into it was. -/
def Item.touch (t : Item) : Item :=
  match items.find? (isMergedInto source target · t) with
  | none => t
  | some s => { t with
      lastSeenAt := some (max (t.lastSeenAt.getD t.createdAt) (s.lastSeenAt.getD s.createdAt)) }

/-- The statement that merges. -/
def mergeItems : List Item :=
  (items.filter fun s => !items.any (isMergedInto source target s)).map
    (Item.touch items source target)

/-- `type|observable`. -/
def affectedKey (i : Item) : List Char := i.observableType.toList ++ '|' :: i.observable.toList

/-- The keys of the rows that are moved, and of all candidates. -/
def affectedObservables : List (List Char) :=
  Rows.firstOfEach id ((items.filter (isMoved items source target) ++
    fetchMoveCandidates items source).map affectedKey)

/-- The first two parts of `key.split('|')`. -/
def splitKey (key : List Char) : String × String :=
  (String.ofList (key.takeWhile (· ≠ '|')),
    String.ofList (((key.dropWhile (· ≠ '|')).drop 1).takeWhile (· ≠ '|')))

/-- The newest row of an observable. -/
def newestItem (observable observableType : String) : Option Item :=
  ((items.filter fun i => i.observable = observable && i.observableType = observableType).mergeSort
    fun i j => j.createdAt ≤ i.createdAt).head?

/-- The call of `recomputeIocGlobalStatus` for a key. -/
def recomputeCall (key : List Char) : Option (ℕ × String) :=
  (newestItem items (splitKey key).2 (splitKey key).1).map fun i => (i.id, (splitKey key).1)

/-- The rows after the transaction, the response, and the calls that recompute a status. -/
structure MoveResult where
  items : List Item
  (matched moved merged : ℕ)
  recomputed : List (ℕ × String)

/-- Merges what is there already and moves the rest. -/
def executeIocSourceMove (requested : Option ℕ) : Except (ℕ × String) MoveResult :=
  (previewIocSourceMove sources items source requested).map fun targetSource =>
    let target := requested.getD 0
    let movedItems := moveItems defaults items source target targetSource.name
    let after := mergeItems movedItems source target
    { items := after
      matched := (fetchMoveCandidates items source).length
      moved := items.countP (isMoved items source target)
      merged := movedItems.countP fun s =>
        movedItems.any (isMergedInto source target s)
      recomputed := (affectedObservables items source target).filterMap
        (recomputeCall after) }

/-- At most one row has an observable, a type and a source. -/
def Item.identity (i : Item) : String × String × Option ℕ :=
  (i.observable, i.observableType, i.sourceId)

/-- Nothing is left at the source, every observable it had has its one row at the target, and the
rows of other sources are as they were. -/
structure Conserves (result : MoveResult) : Prop where
  left : ∀ i ∈ result.items, i.sourceId ≠ some source
  once : (result.items.map Item.identity).Nodup
  kept : ∀ i ∈ items, i.sourceId = some source →
    (i.observable, i.observableType, some target) ∈ result.items.map Item.identity
  others : ∀ i, i.sourceId ≠ some source → i.sourceId ≠ some target → (i ∈ result.items ↔ i ∈ items)
  counts : result.moved + result.merged = items.countP (·.sourceId = some source)

/-- The status of an observable has been recomputed. -/
def MoveResult.Recomputed (result : MoveResult) (observable observableType : String) : Prop :=
  ∃ i ∈ result.items, (i.id, i.observableType) ∈ result.recomputed ∧
    i.observable = observable ∧ i.observableType = observableType
  deriving Decidable

variable {sources defaults items source target} {targetName : String} {i t : Item}
  {result : MoveResult}

theorem sourceId_of_identity {place : String × String × Option ℕ} (h : i.identity = place) :
    i.sourceId = place.2.2 := h ▸ rfl

theorem isTargetOf_iff : t.isTargetOf target i = true ↔
    t.identity = (i.observable, i.observableType, some target) ∧ t.id ≠ i.id := by
  simp [Item.isTargetOf, Item.identity, and_assoc]

theorem isMoved_iff : isMoved items source target i = true ↔
    i.sourceId = some source ∧ ∀ t ∈ items, t.isTargetOf target i = false := by
  simp [isMoved]

theorem moveTo_identity : (i.moveTo defaults target targetName).identity =
      (i.observable, i.observableType, some target) ∧
    (i.moveTo defaults target targetName).id = i.id := by
  unfold Item.moveTo
  split
  · exact ⟨rfl, rfl⟩
  · dsimp only
    split <;> exact ⟨rfl, rfl⟩

theorem touch_identity : (i.touch items source target).identity = i.identity ∧
    (i.touch items source target).id = i.id := by
  unfold Item.touch
  split <;> exact ⟨rfl, rfl⟩

theorem mem_moveItems : i ∈ moveItems defaults items source target targetName ↔
    (∃ s ∈ items, isMoved items source target s = true ∧ i = s.moveTo defaults target targetName) ∨
    i ∈ items ∧ isMoved items source target i = false := Rows.mem_map_updateWhere

/-- An accepted move has another target. -/
theorem ne_of_preview {requested : Option ℕ} {targetSource : Source}
    (hpreview : previewIocSourceMove sources items source requested = .ok targetSource) :
    source ≠ requested.getD 0 := by
  cases requested with
  | none => cases hpreview
  | some requested =>
    rintro rfl
    simp [previewIocSourceMove] at hpreview

/-- A row that is not at the source is not moved. -/
theorem mem_moveItems_of_ne (hi : i ∈ items) (hne : i.sourceId ≠ some source) :
    i ∈ moveItems defaults items source target targetName :=
  mem_moveItems.mpr (.inr ⟨hi, by simp [isMoved, hne]⟩)

section

variable {moved : List Item} (hne : source ≠ target)
  (hids : (items.map Item.id).Nodup) (honce : (items.map Item.identity).Nodup)
  (hmoved : moveItems defaults items source target targetName = moved)
include hne hmoved

/-- The rows that are still at the source are merged. -/
theorem any_isMergedInto (hi : i ∈ moved) :
    moved.any (isMergedInto source target i) = decide (i.sourceId = some source) := by
  subst hmoved
  by_cases hsource : i.sourceId = some source
  · rw [decide_eq_true hsource, any_eq_true]
    rcases mem_moveItems.mp hi with ⟨s, -, -, rfl⟩ | ⟨hi, hstays⟩
    · rw [sourceId_of_identity moveTo_identity.1] at hsource
      exact absurd (Option.some.inj hsource).symm hne
    · have htarget : ∃ t ∈ items, t.isTargetOf target i = true := by
        simpa [isMoved, hsource] using hstays
      obtain ⟨t, ht, htarget⟩ := htarget
      have hplace := sourceId_of_identity (isTargetOf_iff.mp htarget).1
      refine ⟨t, mem_moveItems_of_ne ht ?_, by simp [isMergedInto, hsource, htarget]⟩
      simp [hplace, hne.symm]
  · simp [isMergedInto, hsource]

theorem mem_mergeItems : i ∈ mergeItems moved source target ↔
    ∃ s ∈ moved, s.sourceId ≠ some source ∧ s.touch moved source target = i := by
  unfold mergeItems
  simp only [mem_map, mem_filter, and_assoc]
  refine exists_congr fun s => and_congr_right fun hs => ?_
  rw [any_isMergedInto hne hmoved hs]
  simp

include hids honce in
/-- A row keeps its id, and no two rows get one identity. -/
theorem nodup_mergeItems : ((mergeItems moved source target).map Item.id).Nodup ∧
    ((mergeItems moved source target).map Item.identity).Nodup := by
  have hsub : ∀ {β : Type} (f : Item → β), (∀ s : Item,
      f (s.touch moved source target) = f s) → (moved.map f).Nodup →
        ((mergeItems moved source target).map f).Nodup := by
    intro β f hf h
    unfold mergeItems
    rw [map_map, show f ∘ Item.touch moved source target = f from funext hf]
    exact h.sublist (filter_sublist.map f)
  refine ⟨hsub _ (fun _ => touch_identity.2) ?_, hsub _ (fun _ => touch_identity.1) ?_⟩
  · rw [← hmoved]
    unfold moveItems
    rwa [Rows.map_update (Rows.updateWhere_keeps fun _ => moveTo_identity.2)]
  · rw [← hmoved]
    unfold moveItems
    rw [map_map]
    have hplace : ∀ s ∈ items, ∀ t ∈ items, isMoved items source target s = true →
        t.identity = (s.observable, s.observableType, some target) → False := by
      intro s hs t ht hmove hsame
      obtain ⟨hsource, hfree⟩ := isMoved_iff.mp hmove
      refine Bool.false_ne_true ((hfree t ht).symm.trans (isTargetOf_iff.mpr ⟨hsame, fun hid => ?_⟩))
      obtain rfl := inj_on_of_nodup_map hids ht hs hid
      exact hne (Option.some.inj (hsource.symm.trans (sourceId_of_identity hsame)))
    refine Nodup.map_on (fun s hs t ht hsame => ?_) (Nodup.of_map _ hids)
    simp only [Function.comp, Rows.updateWhere] at hsame
    split at hsame <;> split at hsame
    · next hs' ht' =>
      rw [moveTo_identity.1, moveTo_identity.1] at hsame
      refine inj_on_of_nodup_map honce hs ht ?_
      simp only [Prod.mk.injEq] at hsame
      simp [Item.identity, hsame, (isMoved_iff.mp hs').1, (isMoved_iff.mp ht').1]
    · next hs' _ =>
      rw [moveTo_identity.1] at hsame
      exact (hplace s hs t ht hs' hsame.symm).elim
    · next _ ht' =>
      rw [moveTo_identity.1] at hsame
      exact (hplace t ht s hs ht' hsame).elim
    · exact inj_on_of_nodup_map honce hs ht hsame

theorem counts_moved : items.countP (isMoved items source target) +
    (moved.countP fun s => moved.any (isMergedInto source target s)) =
      items.countP (·.sourceId = some source) := by
  have hmerged := countP_congr fun s (hs : s ∈ moved) =>
    iff_of_eq (congrArg (· = true) (any_isMergedInto hne hmoved hs))
  rw [hmerged, ← hmoved, countP_eq_countP_filter_add items (·.sourceId = some source)
    (isMoved items source target), countP_filter, countP_filter]
  unfold moveItems
  rw [countP_map]
  refine congrArg₂ _ (countP_congr fun s _ => ?_) (countP_congr fun s _ => ?_)
  · rw [Bool.and_eq_true, decide_eq_true_eq]
    exact ⟨fun h => ⟨(isMoved_iff.mp h).1, h⟩, fun h => h.2⟩
  · simp only [Function.comp, Rows.updateWhere]
    split
    · next hmove =>
      rw [sourceId_of_identity moveTo_identity.1]
      simp [hmove, hne.symm]
    · next hstays => simp [hstays]

/-- An observable of the source has a row at the target. -/
theorem exists_mergeItems (hi : i ∈ items) (hsource : i.sourceId = some source) :
    ∃ j ∈ mergeItems moved source target,
      j.identity = (i.observable, i.observableType, some target) := by
  obtain ⟨s, hs, hidentity⟩ : ∃ s ∈ moved,
      s.identity = (i.observable, i.observableType, some target) := by
    subst hmoved
    by_cases hmove : isMoved items source target i = true
    · exact ⟨_, mem_moveItems.mpr (.inl ⟨i, hi, hmove, rfl⟩), moveTo_identity.1⟩
    · obtain ⟨t, ht, htarget⟩ : ∃ t ∈ items, t.isTargetOf target i = true := by
        simpa [isMoved, hsource] using hmove
      have hidentity := (isTargetOf_iff.mp htarget).1
      refine ⟨t, mem_moveItems_of_ne ht ?_, hidentity⟩
      simp [sourceId_of_identity hidentity, hne.symm]
  refine ⟨_, (mem_mergeItems hne hmoved).mpr ⟨s, hs, ?_, rfl⟩, touch_identity.1.trans hidentity⟩
  simp [sourceId_of_identity hidentity, hne.symm]

theorem mem_mergeItems_of_other (hsource : i.sourceId ≠ some source)
    (htarget : i.sourceId ≠ some target) :
    i ∈ mergeItems moved source target ↔ i ∈ items := by
  have htouch : ∀ s : Item, s.sourceId ≠ some target → s.touch moved source target = s := by
    intro s hs
    have hnone : moved.find? (isMergedInto source target · s) = none := by
      simp [isMergedInto, Item.isTargetOf, hs]
    rw [Item.touch, hnone]
  rw [mem_mergeItems hne hmoved]
  constructor
  · rintro ⟨s, hs, -, rfl⟩
    rw [sourceId_of_identity touch_identity.1] at htarget
    rw [htouch s htarget]
    subst hmoved
    rcases mem_moveItems.mp hs with ⟨t, -, -, rfl⟩ | ⟨hs, -⟩
    · exact absurd (sourceId_of_identity moveTo_identity.1) htarget
    · exact hs
  · intro hi
    exact ⟨i, hmoved ▸ mem_moveItems_of_ne hi hsource, hsource, htouch i htarget⟩

end

theorem splitKey_affectedKey (hsep : '|' ∉ i.observable.toList ∧ '|' ∉ i.observableType.toList) :
    splitKey (affectedKey i) = (i.observableType, i.observable) := by
  have hplain : ∀ {l : List Char}, '|' ∉ l → ∀ c ∈ l, decide (c ≠ '|') = true :=
    fun h c hc => decide_eq_true fun hsame => h (hsame ▸ hc)
  unfold splitKey affectedKey
  rw [takeWhile_append_of_pos (hplain hsep.2), dropWhile_append_of_pos (hplain hsep.2),
    takeWhile_cons_of_neg (by decide), dropWhile_cons_of_neg (by decide), drop_one, tail_cons,
    takeWhile_eq_self_iff.mpr (hplain hsep.1), append_nil, String.ofList_toList,
    String.ofList_toList]

/-- No part of a key has the separator. -/
theorem not_mem_splitKey (key : List Char) :
    '|' ∉ (splitKey key).2.toList ∧ '|' ∉ (splitKey key).1.toList := by
  unfold splitKey
  rw [String.toList_ofList, String.toList_ofList]
  constructor <;> intro h <;> simpa using mem_takeWhile_imp h

theorem of_newestItem {observable observableType : String}
    (h : newestItem items observable observableType = some i) :
    i ∈ items ∧ i.observable = observable ∧ i.observableType = observableType := by
  simpa using mem_mergeSort.mp (mem_of_head? h)

/-- The status of an observable of the source is recomputed when its texts have no separator. -/
theorem recomputed_iff (hi : i ∈ items) (hsource : i.sourceId = some source)
    (hids : (result.items.map Item.id).Nodup)
    (hrow : ∃ j ∈ result.items, j.observable = i.observable ∧ j.observableType = i.observableType)
    (hcalls : result.recomputed = (affectedObservables items source target).filterMap
      (recomputeCall result.items)) :
    result.Recomputed i.observable i.observableType ↔
      '|' ∉ i.observable.toList ∧ '|' ∉ i.observableType.toList := by
  unfold MoveResult.Recomputed
  constructor
  · rintro ⟨j, hj, hcall, hobservable, htype⟩
    rw [hcalls] at hcall
    obtain ⟨key, -, hcall⟩ := mem_filterMap.mp hcall
    obtain ⟨k, hk, hpair⟩ := Option.map_eq_some_iff.mp hcall
    obtain ⟨hid, hsame⟩ := Prod.mk.inj hpair
    obtain ⟨hk, hkey, -⟩ := of_newestItem hk
    obtain rfl := inj_on_of_nodup_map hids hk hj hid
    rw [← hobservable, ← htype, hkey, ← hsame]
    exact not_mem_splitKey key
  · intro hsep
    cases hnewest : newestItem result.items i.observable i.observableType with
    | none =>
      obtain ⟨j, hj, hsame⟩ := hrow
      rw [newestItem, head?_eq_none_iff, ← length_eq_zero_iff, length_mergeSort,
        length_eq_zero_iff] at hnewest
      have hempty := filter_eq_nil_iff.mp hnewest j hj
      exact absurd (by simpa using hsame) hempty
    | some j =>
      obtain ⟨hj, hobservable, htype⟩ := of_newestItem hnewest
      refine ⟨j, hj, ?_, hobservable, htype⟩
      rw [hcalls, mem_filterMap]
      refine ⟨affectedKey i, ?_, ?_⟩
      · rw [affectedObservables, ← map_id (Rows.firstOfEach _ _), Rows.mem_map_firstOfEach, map_id]
        exact mem_map_of_mem (mem_append_right _ (mem_filter.mpr ⟨hi, decide_eq_true hsource⟩))
      · rw [recomputeCall, splitKey_affectedKey hsep, hnewest, Option.map_some, htype]

/-- An accepted move conserves the observables and recomputes the status of each exactly when no
text of the source's rows has the separator. -/
theorem move_conserves_and_refreshes_iff {requested : Option ℕ}
    (hids : (items.map Item.id).Nodup) (honce : (items.map Item.identity).Nodup)
    (hok : executeIocSourceMove sources defaults items source requested = .ok result) :
    (Conserves items source (requested.getD 0) result ∧ ∀ i ∈ items, i.sourceId = some source →
      result.Recomputed i.observable i.observableType) ↔
    ∀ i ∈ items, i.sourceId = some source →
      '|' ∉ i.observable.toList ∧ '|' ∉ i.observableType.toList := by
  unfold executeIocSourceMove at hok
  cases hpreview : previewIocSourceMove sources items source requested with
  | error e => rw [hpreview] at hok; cases hok
  | ok targetSource =>
    have hne := ne_of_preview hpreview
    rw [hpreview] at hok
    cases hok
    obtain ⟨hafter, hidentities⟩ := nodup_mergeItems hne hids honce
      (rfl : moveItems defaults items source _ targetSource.name = _)
    have hrow : ∀ i ∈ items, i.sourceId = some source → ∃ j ∈ mergeItems (moveItems defaults items
        source _ targetSource.name) source _, j.identity = _ :=
      fun i hi hsource => exists_mergeItems hne rfl hi hsource
    refine (and_iff_right ⟨?_, hidentities, ?_, fun i => mem_mergeItems_of_other hne rfl,
      counts_moved hne rfl⟩).trans (forall₃_congr fun i hi hsource =>
        recomputed_iff hi hsource hafter ?_ rfl)
    · obtain ⟨j, hj, hidentity⟩ := hrow i hi hsource
      exact ⟨j, hj, congrArg (·.1) hidentity, congrArg (·.2.1) hidentity⟩
    · intro i hi hsource
      obtain ⟨s, -, hs, rfl⟩ := (mem_mergeItems hne rfl).mp hi
      exact hs ((sourceId_of_identity touch_identity.1).symm.trans hsource)
    · intro i hi hsource
      obtain ⟨j, hj, hidentity⟩ := hrow i hi hsource
      exact hidentity ▸ mem_map_of_mem hj

/-- A row of an analyst's source. -/
def plainItem (id : ℕ) (observable observableType : String) (source : ℕ) : Item :=
  ⟨id, observable, observableType, some source, none, none, none, none, none, none, none, none,
    false, id, none⟩

/-- The source `1` and the source `2`. -/
def plainSources (id : ℕ) : Option Source :=
  if id = 1 ∨ id = 2 then some ⟨"source", false, true⟩ else none

/-- A domain is moved and an address is merged. -/
theorem move_conserves_and_refreshes_two : ∃ result,
    executeIocSourceMove plainSources none [plainItem 1 "a.test" "domain" 1,
      plainItem 2 "1.1.1.1" "ip" 1, plainItem 3 "1.1.1.1" "ip" 2] 1 (some 2) = .ok result ∧
    Conserves [plainItem 1 "a.test" "domain" 1, plainItem 2 "1.1.1.1" "ip" 1,
      plainItem 3 "1.1.1.1" "ip" 2] 1 2 result ∧ result.Recomputed "1.1.1.1" "ip" := by
  have hboth := (move_conserves_and_refreshes_iff (by decide) (by decide)
    (rfl : executeIocSourceMove plainSources none [plainItem 1 "a.test" "domain" 1,
      plainItem 2 "1.1.1.1" "ip" 1, plainItem 3 "1.1.1.1" "ip" 2] 1 (some 2) = .ok _)).mpr
    (by decide)
  exact ⟨_, rfl, hboth.1, hboth.2 (plainItem 2 "1.1.1.1" "ip" 1) (by simp) rfl⟩

/-- The status of a URL with the separator is not recomputed. -/
theorem separator_not_recomputed : ¬ ∀ (sources : ℕ → Option Source)
    (defaults : Option TargetDefaults) (items : List Item) (source : ℕ) (requested : Option ℕ)
    (result : MoveResult), (items.map Item.id).Nodup → (items.map Item.identity).Nodup →
      executeIocSourceMove sources defaults items source requested = .ok result →
      Conserves items source (requested.getD 0) result ∧ ∀ i ∈ items, i.sourceId = some source →
        result.Recomputed i.observable i.observableType := by
  intro hclaim
  have hboth := hclaim plainSources none [plainItem 1 "http://a.test/?q=x|y" "url" 1] 1 (some 2) _
    (by decide) (by decide) rfl
  exact absurd (hboth.2 _ (.head _) rfl) (by decide +kernel)

/-- A move, with the sources and the defaults of its moment. -/
structure MoveRequest where
  sources : ℕ → Option Source
  defaults : Option TargetDefaults
  source : ℕ
  target : Option ℕ

/-- The rows after an accepted move. -/
def moveStep (items : List Item) (m : MoveRequest) : Option (List Item) :=
  (executeIocSourceMove m.sources m.defaults items m.source m.target).toOption.map MoveResult.items

def Item.observed (i : Item) : String × String := (i.observable, i.observableType)

theorem observed_of_identity {j : Item} {place : Option ℕ}
    (h : j.identity = (i.observable, i.observableType, place)) : j.observed = i.observed :=
  congrArg (fun p => (p.1, p.2.1)) h

/-- What a sequence of moves leaves: unique ids and rows, no new rows, and every observable. -/
structure Kept (items after : List Item) : Prop where
  ids : (after.map Item.id).Nodup
  once : (after.map Item.identity).Nodup
  length : after.length ≤ items.length
  observed : ∀ o, o ∈ after.map Item.observed ↔ o ∈ items.map Item.observed

theorem Kept.step {before after : List Item} {m : MoveRequest} (h : Kept items before)
    (hstep : moveStep before m = some after) : Kept items after := by
  obtain ⟨result, hok, rfl⟩ := Option.map_eq_some_iff.mp hstep
  unfold executeIocSourceMove at hok
  cases hpreview : previewIocSourceMove m.sources before m.source m.target with
  | error e => rw [hpreview] at hok; cases hok
  | ok targetSource =>
    rw [hpreview] at hok
    cases hok
    have hne := ne_of_preview hpreview
    have hmoved :
        moveItems m.defaults before m.source (m.target.getD 0) targetSource.name = _ := rfl
    obtain ⟨hids, honce⟩ := nodup_mergeItems hne h.ids h.once hmoved
    refine ⟨hids, honce, ?_, fun o => .trans ?_ (h.observed o)⟩
    · refine (length_map _).trans_le ((length_filter_le _ _).trans ?_)
      exact (length_map _).trans_le h.length
    constructor
    · intro ho
      obtain ⟨i, hi, rfl⟩ := mem_map.mp ho
      obtain ⟨s, hs, -, rfl⟩ := (mem_mergeItems hne hmoved).mp hi
      rw [observed_of_identity touch_identity.1]
      rcases mem_moveItems.mp hs with ⟨t, ht, -, rfl⟩ | ⟨hs, -⟩
      · rw [observed_of_identity moveTo_identity.1]
        exact mem_map_of_mem ht
      · exact mem_map_of_mem hs
    · intro ho
      obtain ⟨i, hi, rfl⟩ := mem_map.mp ho
      by_cases hsource : i.sourceId = some m.source
      · obtain ⟨j, hj, hidentity⟩ := exists_mergeItems hne hmoved hi hsource
        exact mem_map.mpr ⟨j, hj, observed_of_identity hidentity⟩
      · have hmem := (mem_mergeItems hne hmoved).mpr
          ⟨i, mem_moveItems_of_ne hi hsource, hsource, rfl⟩
        exact mem_map.mpr ⟨_, hmem, observed_of_identity touch_identity.1⟩

/-- No sequence of moves loses an observable, adds a row, or gives an observable two rows of one
source. -/
theorem moves_keep_observables {moves : List MoveRequest} {after : List Item}
    (hids : (items.map Item.id).Nodup) (honce : (items.map Item.identity).Nodup)
    (hrun : Run moveStep (fun _ _ => True) items moves after) : Kept items after :=
  Run.invariant (fun _ _ _ h _ hstep => h.step hstep) hrun
    ⟨hids, honce, le_rfl, fun _ => Iff.rfl⟩

/-- The domain of the first source merges with the row that the second source has of it, and the
row that is left moves back. -/
theorem moves_keep_observables_twice : ∃ after, after.length = 2 ∧
    Run moveStep (fun _ _ => True) [plainItem 1 "a.test" "domain" 1,
        plainItem 2 "a.test" "domain" 2, plainItem 3 "b.test" "domain" 1]
      [⟨plainSources, none, 1, some 2⟩, ⟨plainSources, none, 2, some 1⟩] after ∧
    Kept [plainItem 1 "a.test" "domain" 1, plainItem 2 "a.test" "domain" 2,
      plainItem 3 "b.test" "domain" 1] after := by
  obtain ⟨after, hrun, hlength⟩ : ∃ after, Run moveStep (fun _ _ => True)
      [plainItem 1 "a.test" "domain" 1, plainItem 2 "a.test" "domain" 2,
        plainItem 3 "b.test" "domain" 1]
      [⟨plainSources, none, 1, some 2⟩, ⟨plainSources, none, 2, some 1⟩] after ∧ after.length = 2 :=
    Run.exists_of_any (by decide +kernel)
  exact ⟨after, hlength, hrun, moves_keep_observables (by decide) (by decide) hrun⟩

end TalonHound.IocSources
