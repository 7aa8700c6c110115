import TalonHound.IocExpiration.ImportRun
import TalonHound.IocExpiration.Coherence

/-!
# The global status as the fold of the memberships

Every observable whose memberships a run writes waits for a recomputation, is at the fold, or
has a row that the fold does not decide. At the end of a run nothing waits.
-/

namespace TalonHound.IocExpiration

open Rows List

/-- The row is neither suppressed, disabled nor manually overridden. -/
def IocItem.isPlain (i : IocItem) : Bool :=
  decide (i.status ≠ .suppressed) && decide (i.status ≠ .disabled) && !i.manualStatusOverride

/-- Every row of the observable has the status and the expiry of the fold. -/
def AtFold (t : IocTables) (o : Observed) : Prop :=
  ∀ i ∈ t.items, i.observed = o →
    i.status = foldStatus (t.membershipsOn o) ∧ i.expiresAt = minExpires (t.membershipsOn o)

/-- Some row of the observable is suppressed, disabled or overridden. -/
def HasHeld (t : IocTables) (o : Observed) : Prop :=
  ∃ i ∈ t.items, i.observed = o ∧ i.isPlain = false

/-- The observable waits for a recomputation. -/
def Pending (s : RunState) (o : Observed) : Prop :=
  ∃ key ∈ s.deferred, ∃ i, s.tables.item? key = some i ∧ i.observed = o

/-- The observable is at the fold, or the fold does not decide it. -/
def Resolved (t : IocTables) (o : Observed) : Prop := AtFold t o ∨ HasHeld t o

/-- What a run keeps. -/
def FoldInvariant (s : RunState) : Prop :=
  ∀ o ∈ s.written, Pending s o ∨ Resolved s.tables o

/-- A row that a recomputation finds at the fold has no sibling that is not. -/
def RecomputeReaches (isIocSuppressed : String → String → Bool) (now : ℤ) (t : IocTables)
    (key : ItemKey) : Prop :=
  ∀ ioc, t.item? key = some ioc → isIocSuppressed ioc.observable ioc.observableType = false →
    ioc.heldByAnalyst = false → foldSettled now (t.membershipsFor ioc) ioc = true →
      Resolved t ioc.observed

/-- Recomputations reach their observables, a write that schedules none finds its observable
at the fold or waiting, and no failure drops a recomputation that is still needed. -/
def KeepsFold (s : RunState) : RunAction → Prop
  | .upsert policies call id key isIocSuppressed now =>
    ∀ result tables, upsertTables policies call id key s.tables = some (result, tables) →
      (result.reactivated = true → RecomputeReaches isIocSuppressed now tables key.item) ∧
      (result.reactivated = false → result.touched = false →
        s.tables.membership? key ≠ some result.membership →
          ∀ ioc, s.tables.item? key.item = some ioc →
            Pending s ioc.observed ∨ Resolved s.tables ioc.observed)
  | .recompute isIocSuppressed now =>
    ∀ key ∈ s.deferred.head?, RecomputeReaches isIocSuppressed now s.tables key
  | .fail => ∀ o, Pending s o → Resolved s.tables o
  | _ => True

variable {f : Membership → Membership}

section Frames

variable {t t' : IocTables} {o : Observed} {key : MembershipKey}

theorem resolved_congr (hitems : t'.items = t.items) (hon : t'.membershipsOn o = t.membershipsOn o)
    (h : Resolved t o) : Resolved t' o := by
  rcases h with h | h
  · left
    unfold AtFold
    rw [hitems, hon]
    exact h
  · right
    unfold HasHeld
    rw [hitems]
    exact h

/-- A membership counts for the observable of its row only. -/
theorem not_counted {m : Membership} (h : ∀ i ∈ t.items, i.key = m.itemKey → i.observed ≠ o) :
    (t.items.any fun i => decide (i.key = m.itemKey ∧ i.observable = o.observable ∧
      i.observableType = o.observableType)) = false := by
  rw [any_eq_false]
  intro i hi
  simp only [decide_eq_true_eq, not_and]
  intro hkey hobservable htype
  apply h i hi hkey
  cases o
  cases hobservable
  cases htype
  rfl

theorem membershipsOn_updateMembership (hf : ∀ m, (f m).id = m.id ∧ (f m).key = m.key)
    (h : ∀ i ∈ t.items, i.key = key.item → i.observed ≠ o) :
    (t.updateMembership key f hf).membershipsOn o = t.membershipsOn o := by
  unfold IocTables.membershipsOn IocTables.membershipsOf IocTables.updateMembership
  have hitem : ∀ m, (Rows.updateWhere (fun m => decide (m.key = key)) f m).itemKey = m.itemKey :=
    updateWhere_keeps fun m => congrArg MembershipKey.item (hf m).2
  apply filter_map_of_fixed
  · intro m _
    rw [hitem]
  · intro m _ hcounted
    apply updateWhere_of_not
    rw [decide_eq_false_iff_not]
    rintro rfl
    rw [not_counted h] at hcounted
    cases hcounted

theorem membershipsOn_insertMembership {m : Membership}
    {hkey : m.key ∉ t.memberships.map Membership.key}
    {hid : m.id ∉ t.memberships.map Membership.id}
    (h : ∀ i ∈ t.items, i.key = m.itemKey → i.observed ≠ o) :
    (t.insertMembership m hkey hid).membershipsOn o = t.membershipsOn o := by
  unfold IocTables.membershipsOn IocTables.membershipsOf IocTables.insertMembership
  rw [filter_append, filter_singleton, not_counted h]
  exact append_nil _

end Frames

section Recompute

variable {isIocSuppressed : String → String → Bool} {now : ℤ} {t : IocTables} {key : ItemKey}
  {ioc : IocItem} {o : Observed}

theorem IocItem.observed_withFields (f : StatusFields) (i : IocItem) :
    (i.withFields f).observed = i.observed := rfl

/-- What a recomputation writes: rows of the observable of its seed, in place. -/
structure RecomputeFrame (t t' : IocTables) (o : Observed) (g : IocItem → IocItem) : Prop where
  items : t'.items = t.items.map g
  key : ∀ i, (g i).key = i.key
  observed : ∀ i, (g i).observed = i.observed
  fixed : ∀ i ∈ t.items, i.observed ≠ o → g i = i
  membershipsOn : ∀ o, t'.membershipsOn o = t.membershipsOn o

variable (isIocSuppressed now) in
theorem recompute_frame (hioc : t.item? key = some ioc) :
    ∃ g, RecomputeFrame t (recomputeIocGlobalStatus isIocSuppressed now t key).2 ioc.observed g := by
  have hon : ∀ o : Observed, (recomputeIocGlobalStatus isIocSuppressed now t key).2.membershipsOn o =
      t.membershipsOn o := fun o => membershipsFor_recompute (newItem 0 o)
  have hsame : ∃ g, RecomputeFrame t t ioc.observed g :=
    ⟨id, by simp, fun _ => rfl, fun _ => rfl, fun _ _ _ => rfl, fun _ => rfl⟩
  have hrow : ∀ (f : IocItem → IocItem) (hf : ∀ i, (f i).key = i.key),
      (∀ i, (f i).observed = i.observed) →
        (∀ o, (t.updateItem key f hf).membershipsOn o = t.membershipsOn o) →
          ∃ g, RecomputeFrame t (t.updateItem key f hf) ioc.observed g := by
    intro f hf hobserved hon
    refine ⟨Rows.updateWhere (fun i => decide (i.key = key)) f, rfl, updateWhere_keeps hf,
      updateWhere_keeps hobserved, ?_, hon⟩
    intro i hi hne
    apply updateWhere_of_not
    rw [decide_eq_false_iff_not]
    rintro rfl
    rw [IocTables.item?_of_mem hi, Option.some.injEq] at hioc
    exact hne (congrArg IocItem.observed hioc)
  unfold recomputeIocGlobalStatus at hon ⊢
  simp only [hioc] at hon ⊢
  split at hon
  · next hsuppressed =>
    rw [if_pos hsuppressed]
    split at hon
    · next hstatus =>
      rw [if_pos hstatus]
      exact hsame
    · next hstatus =>
      rw [if_neg hstatus]
      exact hrow IocItem.suppress IocItem.key_suppress (fun _ => rfl) hon
  · next hsuppressed =>
    rw [if_neg hsuppressed]
    split at hon
    · next hdisabled =>
      rw [if_pos hdisabled]
      exact hsame
    · next hdisabled =>
      rw [if_neg hdisabled]
      split at hon
      · next hmanual =>
        rw [if_pos hmanual]
        split at hon
        · next hsettled =>
          rw [if_pos hsettled]
          exact hsame
        · next hsettled =>
          rw [if_neg hsettled]
          exact hrow _ (IocItem.key_withFields _) (fun _ => rfl) hon
      · next hmanual =>
        rw [if_neg hmanual]
        unfold recomputeFold at hon ⊢
        dsimp only at hon ⊢
        split at hon
        · next hsettled =>
          rw [if_pos hsettled]
          exact hsame
        · next hsettled =>
          rw [if_neg hsettled]
          refine ⟨_, rfl, updateWhere_keeps (IocItem.key_withFields _),
            updateWhere_keeps fun _ => rfl, ?_, hon⟩
          intro i hi hne
          apply updateWhere_of_not
          rw [decide_eq_false_iff_not]
          rintro ⟨hobservable, htype⟩
          apply hne
          unfold IocItem.observed
          rw [hobservable, htype]

/-- A recomputation keeps what is resolved for the other observables. -/
theorem resolved_recompute_other (hioc : t.item? key = some ioc) (hne : o ≠ ioc.observed)
    (h : Resolved t o) :
    Resolved (recomputeIocGlobalStatus isIocSuppressed now t key).2 o := by
  obtain ⟨g, hframe⟩ := recompute_frame isIocSuppressed now hioc
  have hfixed : ∀ i ∈ t.items, i.observed = o → g i = i := by
    intro i hi hobserved
    apply hframe.fixed i hi
    rw [hobserved]
    exact hne
  rcases h with h | ⟨i, hi, hobserved, hheld⟩
  · left
    intro i hi hobserved
    rw [hframe.items, mem_map] at hi
    obtain ⟨i, hi, rfl⟩ := hi
    rw [hframe.observed] at hobserved
    rw [hframe.membershipsOn, hfixed i hi hobserved]
    exact h i hi hobserved
  · right
    refine ⟨i, ?_, hobserved, hheld⟩
    rw [hframe.items, mem_map]
    exact ⟨i, hi, hfixed i hi hobserved⟩

/-- A row that the fold does not decide. -/
theorem resolved_of_held {i : IocItem} (hi : t.item? key = some i) (hplain : i.isPlain = false) :
    Resolved t i.observed :=
  .inr ⟨i, (IocTables.mem_of_item? hi).1, rfl, hplain⟩

/-- The row of a key after its own update. -/
theorem item?_updateItem_self {f : IocItem → IocItem} (hf : ∀ i, (f i).key = i.key)
    (hioc : t.item? key = some ioc) : (t.updateItem key f hf).item? key = some (f ioc) := by
  rw [IocTables.item?_updateItem, hioc, Option.map_some, if_pos (IocTables.mem_of_item? hioc).2]

/-- Rows that were given the fields of the fold are at the fold. -/
theorem atFold_updateObservable (ioc : IocItem) :
    AtFold (t.updateObservable ioc.observable ioc.observableType
      (foldFields now (t.membershipsFor ioc) ioc.expiredAt)) ioc.observed := by
  intro i hi hobserved
  have hon : (t.updateObservable ioc.observable ioc.observableType
      (foldFields now (t.membershipsFor ioc) ioc.expiredAt)).membershipsOn ioc.observed =
        t.membershipsFor ioc := IocTables.membershipsFor_updateObservable ioc
  rw [hon]
  obtain ⟨i₀, -, rfl⟩ := mem_map.mp hi
  have hwritten : i₀.observable = ioc.observable ∧ i₀.observableType = ioc.observableType := by
    have hsame : (Rows.updateWhere (fun i => decide (i.observable = ioc.observable ∧
        i.observableType = ioc.observableType)) (IocItem.withFields
          (foldFields now (t.membershipsFor ioc) ioc.expiredAt)) i₀).observed = i₀.observed :=
      updateWhere_keeps (IocItem.observed_withFields _) i₀
    rw [hsame] at hobserved
    exact ⟨congrArg Observed.observable hobserved, congrArg Observed.observableType hobserved⟩
  have hrow : Rows.updateWhere (fun i => decide (i.observable = ioc.observable ∧
      i.observableType = ioc.observableType)) (IocItem.withFields
        (foldFields now (t.membershipsFor ioc) ioc.expiredAt)) i₀ =
      i₀.withFields (foldFields now (t.membershipsFor ioc) ioc.expiredAt) :=
    if_pos (decide_eq_true hwritten)
  rw [hrow]
  exact ⟨rfl, rfl⟩

/-- A recomputation resolves the observable of its seed. -/
theorem resolved_recompute (hioc : t.item? key = some ioc)
    (hreaches : RecomputeReaches isIocSuppressed now t key) :
    Resolved (recomputeIocGlobalStatus isIocSuppressed now t key).2 ioc.observed := by
  have hreaches := hreaches ioc hioc
  unfold recomputeIocGlobalStatus
  simp only [hioc]
  split
  · split
    · next hstatus => exact resolved_of_held hioc (by simp [IocItem.isPlain, hstatus])
    · exact resolved_of_held (i := ioc.suppress) (item?_updateItem_self IocItem.key_suppress hioc)
        (by simp [IocItem.isPlain, IocItem.suppress])
  · next hsuppressed =>
    split
    · next hdisabled => exact resolved_of_held hioc (by simp [IocItem.isPlain, hdisabled])
    · next hdisabled =>
      split
      · next hmanual =>
        split
        · exact resolved_of_held hioc (by simp [IocItem.isPlain, hmanual])
        · exact resolved_of_held (i := ioc.withFields (manualPatch now ioc))
            (item?_updateItem_self (IocItem.key_withFields _) hioc) (by simp [IocItem.isPlain, IocItem.withFields, hmanual])
      · next hmanual =>
        unfold recomputeFold
        dsimp only
        split
        · next hsettled =>
          apply hreaches (by simpa using hsuppressed) _ hsettled
          simp [IocItem.heldByAnalyst, hdisabled, hmanual]
        · exact .inl (atFold_updateObservable ioc)

end Recompute

section Writes

variable {t t' : IocTables} {o : Observed} {key : MembershipKey} {policies : PolicyTables}
  {call : ImportCall} {id : ℕ} {result : ImportResult}

/-- An update that keeps what the fold reads keeps the fold. -/
theorem fold_map {memberships : List Membership}
    (h : ∀ m ∈ memberships, (f m).isLive = m.isLive ∧ (f m).expiresAt = m.expiresAt) :
    foldStatus (memberships.map f) = foldStatus memberships ∧
      minExpires (memberships.map f) = minExpires memberships := by
  have hdates : ((memberships.map f).filter (·.isLive)).filterMap (·.expiresAt) =
      (memberships.filter (·.isLive)).filterMap (·.expiresAt) := by
    induction memberships with
    | nil => rfl
    | cons m memberships ih =>
      obtain ⟨hlive, hexpires⟩ := h m mem_cons_self
      have ih := ih (fun m' hm' => h m' (.tail _ hm'))
      rw [map_cons, filter_cons, filter_cons, hlive]
      split
      · rw [filterMap_cons, filterMap_cons, hexpires, ih]
      · exact ih
  have hany : (memberships.map f).any (·.isLive) = memberships.any (·.isLive) := by
    rw [any_map]
    apply Bool.eq_iff_iff.mpr
    simp only [any_eq_true, Function.comp]
    exact exists_congr fun m => and_congr_right fun hm => by rw [(h m hm).1]
  constructor
  · unfold foldStatus
    rw [isEmpty_map, hany]
  · unfold minExpires
    rw [hdates]

/-- The memberships of an observable after the update of one. -/
theorem membershipsOn_updateMembership_map (hf : ∀ m, (f m).id = m.id ∧ (f m).key = m.key) :
    (t.updateMembership key f hf).membershipsOn o =
      (t.membershipsOn o).map (Rows.updateWhere (fun m => decide (m.key = key)) f) := by
  unfold IocTables.membershipsOn IocTables.membershipsOf IocTables.updateMembership
  rw [filter_map]
  congr 1
  apply filter_congr
  intro m _
  have hitem : (Rows.updateWhere (fun m => decide (m.key = key)) f m).itemKey = m.itemKey :=
    updateWhere_keeps (c := Membership.itemKey) (fun m => congrArg MembershipKey.item (hf m).2) m
  simp only [Function.comp, hitem]

/-- An update that keeps what the fold reads keeps what is resolved. -/
theorem resolved_updateMembership {f : Membership → Membership}
    (hf : ∀ m, (f m).id = m.id ∧ (f m).key = m.key)
    (hsame : ∀ m ∈ t.memberships, m.key = key →
      (f m).isLive = m.isLive ∧ (f m).expiresAt = m.expiresAt) (h : Resolved t o) :
    Resolved (t.updateMembership key f hf) o := by
  rcases h with h | h
  · left
    intro i hi hobserved
    rw [membershipsOn_updateMembership_map]
    have hreads : ∀ m ∈ t.membershipsOn o,
        (Rows.updateWhere (fun m => decide (m.key = key)) f m).isLive = m.isLive ∧
          (Rows.updateWhere (fun m => decide (m.key = key)) f m).expiresAt = m.expiresAt := by
      intro m hm
      unfold Rows.updateWhere
      split
      · next hkey => exact hsame m (mem_filter.mp hm).1 (of_decide_eq_true hkey)
      · exact ⟨rfl, rfl⟩
    have hfold := fold_map hreads
    rw [hfold.1, hfold.2]
    exact h i hi hobserved
  · exact .inr h

/-- No row of another observable has the key. -/
theorem observed_ne {ioc : IocItem} {itemKey : ItemKey} (hioc : t.item? itemKey = some ioc)
    (hne : o ≠ ioc.observed) : ∀ i ∈ t.items, i.key = itemKey → i.observed ≠ o := by
  rintro i hi rfl rfl
  rw [IocTables.item?_of_mem hi, Option.some.injEq] at hioc
  exact hne (congrArg IocItem.observed hioc)

/-- A first import touches its membership. -/
theorem importNew_touched (policy : Option FeedPolicy) : (importNew policy call id key).touched = true := by
  unfold importNew finishImport writeExplicitConfidence ImportState.applyComputed
  dsimp only
  split
  · simp
  · split
    · simp
    · rfl

/-- What an upsert writes: nothing but the membership. -/
theorem upsertTables_frame (h : upsertTables policies call id key t = some (result, t')) :
    t'.items = t.items ∧
      (∀ o, (∀ i ∈ t.items, i.key = key.item → i.observed ≠ o) →
        t'.membershipsOn o = t.membershipsOn o) ∧
      (result.reactivated = false → result.touched = false →
        ∀ o, Resolved t o → Resolved t' o) := by
  unfold upsertTables at h
  dsimp only at h
  split at h
  · next m hm =>
    obtain ⟨rfl, rfl⟩ := Prod.mk.injEq _ _ _ _ ▸ Option.some.inj h
    refine ⟨rfl, fun o ho => membershipsOn_updateMembership _ ho, ?_⟩
    intro _ htouched o ho
    apply resolved_updateMembership _ _ ho
    intro m' hm' hkey
    have hm : m' = m := by
      have hlookup := (lookup_eq_some t.unique_membership).mpr ⟨hm', hkey⟩
      exact Option.some.inj (hlookup.symm.trans hm)
    subst hm
    cases importKnown_effect (policies.getFeedPolicy key.feedId key.item.observableType) call m' with
    | untouched fingerprint hmembership =>
      rw [hmembership]
      exact ⟨rfl, rfl⟩
    | computed row level htouched' hrow hmembership =>
      rw [htouched'] at htouched
      cases htouched
  · next hnone =>
    split at h
    · obtain ⟨rfl, rfl⟩ := Prod.mk.injEq _ _ _ _ ▸ Option.some.inj h
      refine ⟨rfl, ?_, ?_⟩
      · intro o ho
        apply membershipsOn_insertMembership
        have hkey := (importNew_same (policies.getFeedPolicy key.feedId key.item.observableType)
          call id key).2
        intro i hi hik
        exact ho i hi (hik.trans (congrArg MembershipKey.item hkey))
      · intro _ htouched
        rw [importNew_touched] at htouched
        cases htouched
    · cases h

end Writes

section Step

variable {s s' : RunState} {a : RunAction} {o : Observed}

theorem mem_scheduleDeferred {deferred : List ItemKey} {key k : ItemKey} :
    k ∈ scheduleDeferred deferred key ↔ k ∈ deferred ∨ k = key := by
  unfold scheduleDeferred
  split
  · next hmem =>
    constructor
    · exact .inl
    · rintro (h | rfl)
      · exact h
      · exact hmem
  · rw [mem_append, mem_singleton]

/-- What waits, waits on when only memberships are written. -/
theorem Pending.of_items {s' : RunState} (hdeferred : s.deferred ⊆ s'.deferred)
    (hitems : s'.tables.items = s.tables.items) (h : Pending s o) : Pending s' o := by
  obtain ⟨key, hkey, i, hi, hobserved⟩ := h
  refine ⟨key, hdeferred hkey, i, ?_, hobserved⟩
  unfold IocTables.item?
  rw [hitems]
  exact hi

/-- A write that schedules its IOC. -/
theorem foldInvariant_writeAndSchedule {key : MembershipKey}
    {hf : ∀ m, (f m).id = m.id ∧ (f m).key = m.key} (hs : FoldInvariant s) :
    FoldInvariant (writeAndSchedule key f hf s) := by
  intro o ho
  have hsub : s.deferred ⊆ (writeAndSchedule key f hf s).deferred :=
    fun k hk => mem_scheduleDeferred.mpr (.inl hk)
  cases hioc : s.tables.item? key.item with
  | some ioc =>
    by_cases hne : o = ioc.observed
    · left
      exact ⟨key.item, mem_scheduleDeferred.mpr (.inr rfl), ioc, hioc, hne.symm⟩
    · have ho : o ∈ s.written := by
        simpa [writeAndSchedule, hioc, hne] using ho
      rcases hs o ho with h | h
      · exact .inl (h.of_items hsub rfl)
      · exact .inr (resolved_congr (t := s.tables) rfl
          (membershipsOn_updateMembership hf (observed_ne hioc hne)) h)
  | none =>
    have ho : o ∈ s.written := by simpa [writeAndSchedule, hioc] using ho
    rcases hs o ho with h | h
    · exact .inl (h.of_items hsub rfl)
    · refine .inr (resolved_congr (t := s.tables) rfl (membershipsOn_updateMembership hf ?_) h)
      rintro i hi hkey
      rw [← hkey, IocTables.item?_of_mem hi] at hioc
      cases hioc

/-- An insertion of the row of an observable without rows. -/
theorem foldInvariant_insertItem {id : ℕ} {observed : Observed}
    (h : (newItem id observed).key ∉ s.tables.items.map IocItem.key)
    (hnone : ∀ i ∈ s.tables.items, i.observed ≠ observed)
    (hfree : ∀ m ∈ s.tables.memberships, m.itemKey ≠ (newItem id observed).key)
    (hs : FoldInvariant s) :
    FoldInvariant { s with tables := s.tables.insertItem (newItem id observed) h } := by
  intro o ho
  have hon : (s.tables.insertItem (newItem id observed) h).membershipsOn o =
      s.tables.membershipsOn o := by
    unfold IocTables.membershipsOn IocTables.membershipsOf IocTables.insertItem
    apply filter_congr
    intro m hm
    have hkey : (newItem id observed).key ≠ m.itemKey := (hfree m hm).symm
    simp [hkey]
  by_cases hne : o = observed
  · subst hne
    right
    left
    intro i hi hobserved
    rw [hon]
    have hempty : s.tables.membershipsOn o = [] := by
      unfold IocTables.membershipsOn IocTables.membershipsOf
      rw [filter_eq_nil_iff]
      intro m _
      rw [not_counted fun i hi _ => hnone i hi]
      exact Bool.false_ne_true
    rw [hempty]
    rcases mem_append.mp hi with hi | hi
    · exact absurd hobserved (hnone i hi)
    · rw [mem_singleton] at hi
      rw [hi]
      exact ⟨rfl, rfl⟩
  · rcases hs o ho with ⟨key, hkey, i, hi, hobserved⟩ | hresolved
    · left
      refine ⟨key, hkey, i, ?_, hobserved⟩
      obtain ⟨hmem, rfl⟩ := IocTables.mem_of_item? hi
      exact IocTables.item?_of_mem (mem_append_left _ hmem)
    · right
      rcases hresolved with hfold | ⟨i, hi, hobserved, hheld⟩
      · left
        intro i hi hobserved
        rw [hon]
        rcases mem_append.mp hi with hi | hi
        · exact hfold i hi hobserved
        · rw [mem_singleton] at hi
          rw [hi] at hobserved
          exact absurd hobserved.symm hne
      · exact .inr ⟨i, mem_append_left _ hi, hobserved, hheld⟩

/-- Rows keep their value and type in a recomputation. -/
theorem observed_recompute (isIocSuppressed : String → String → Bool) (now : ℤ) {t : IocTables}
    {key k : ItemKey} {ioc : IocItem} (hioc : t.item? key = some ioc)
    (h : ∃ i, t.item? k = some i ∧ i.observed = o) :
    ∃ i, (recomputeIocGlobalStatus isIocSuppressed now t key).2.item? k = some i ∧
      i.observed = o := by
  obtain ⟨i, hi, hobserved⟩ := h
  obtain ⟨g, hframe⟩ := recompute_frame _ _ hioc
  refine ⟨g i, ?_, (hframe.observed i).trans hobserved⟩
  unfold IocTables.item?
  rw [hframe.items, lookup_map hframe.key]
  exact congrArg (Option.map g) hi

/-- A recomputation of the first waiting IOC. -/
theorem foldInvariant_recompute {isIocSuppressed : String → String → Bool} {now : ℤ}
    {key : ItemKey} {rest : List ItemKey} (hdeferred : s.deferred = key :: rest)
    (hreaches : RecomputeReaches isIocSuppressed now s.tables key) (hs : FoldInvariant s) :
    FoldInvariant { s with
      tables := (recomputeIocGlobalStatus isIocSuppressed now s.tables key).2
      deferred := rest } := by
  intro o ho
  cases hioc : s.tables.item? key with
  | none =>
    have hsame : (recomputeIocGlobalStatus isIocSuppressed now s.tables key).2 = s.tables := by
      unfold recomputeIocGlobalStatus
      rw [hioc]
    rw [hsame]
    rcases hs o ho with ⟨k, hk, i, hi, hobserved⟩ | h
    · rw [hdeferred, mem_cons] at hk
      rcases hk with rfl | hk
      · rw [hioc] at hi
        cases hi
      · exact .inl ⟨k, hk, i, hi, hobserved⟩
    · exact .inr h
  | some ioc =>
    by_cases hne : o = ioc.observed
    · right
      rw [hne]
      exact resolved_recompute hioc hreaches
    · rcases hs o ho with ⟨k, hk, i, hi, hobserved⟩ | h
      · left
        rw [hdeferred, mem_cons] at hk
        rcases hk with rfl | hk
        · rw [hioc, Option.some.injEq] at hi
          rw [← hobserved, hi] at hne
          exact absurd rfl hne
        · exact ⟨k, hk, observed_recompute isIocSuppressed now hioc ⟨i, hi, hobserved⟩⟩
      · exact .inr (resolved_recompute_other hioc hne h)

/-- An upsert, with the recomputation that follows it. -/
theorem foldInvariant_upsert {policies : PolicyTables} {call : ImportCall} {id : ℕ}
    {key : MembershipKey} {isIocSuppressed : String → String → Bool} {now : ℤ} {ioc : IocItem}
    (hioc : s.tables.item? key.item = some ioc)
    (hkeeps : KeepsFold s (.upsert policies call id key isIocSuppressed now))
    (hstep : upsertEntry policies call id key isIocSuppressed now ioc s = some s')
    (hs : FoldInvariant s) : FoldInvariant s' := by
  obtain ⟨⟨result, tables⟩, hupsert, rfl⟩ := Option.map_eq_some_iff.mp hstep
  obtain ⟨hitems, hon, hsame⟩ := upsertTables_frame hupsert
  obtain ⟨hrecompute, hadopted⟩ := hkeeps result tables hupsert
  have hioc' : tables.item? key.item = some ioc := by
    unfold IocTables.item? at hioc ⊢
    rw [hitems]
    exact hioc
  have hother : ∀ o, o ≠ ioc.observed → Resolved s.tables o → Resolved tables o :=
    fun o hne h => resolved_congr hitems (hon o (observed_ne hioc hne)) h
  have hold : ∀ o ∈ (if s.tables.membership? key = some result.membership then s.written
      else ioc.observed :: s.written), o ≠ ioc.observed → o ∈ s.written := by
    intro o ho hne
    split at ho
    · exact ho
    · exact (mem_cons.mp ho).resolve_left hne
  unfold afterUpsert
  dsimp only
  split
  · next hreactivated =>
    intro o ho
    by_cases hne : o = ioc.observed
    · right
      rw [hne]
      exact resolved_recompute hioc' (hrecompute hreactivated)
    · rcases hs o (hold o ho hne) with ⟨k, hk, i, hi, hobserved⟩ | h
      · left
        refine ⟨k, hk, observed_recompute isIocSuppressed now hioc' ⟨i, ?_, hobserved⟩⟩
        unfold IocTables.item? at hi ⊢
        rw [hitems]
        exact hi
      · exact .inr (resolved_recompute_other hioc' hne (hother o hne h))
  · next hnot =>
    rw [Bool.not_eq_true] at hnot
    split
    · intro o ho
      by_cases hne : o = ioc.observed
      · exact .inl ⟨key.item, mem_scheduleDeferred.mpr (.inr rfl), ioc, hioc', hne.symm⟩
      · rcases hs o (hold o ho hne) with h | h
        · exact .inl (h.of_items (fun k hk => mem_scheduleDeferred.mpr (.inl hk)) hitems)
        · exact .inr (hother o hne h)
    · next huntouched =>
      rw [Bool.not_eq_true] at huntouched
      -- at most a fingerprint was written
      have hkept : ∀ o, Pending s o ∨ Resolved s.tables o →
          Pending { s with
            tables := tables
            written := if s.tables.membership? key = some result.membership then s.written
              else ioc.observed :: s.written } o ∨ Resolved tables o := by
        rintro o (h | h)
        · exact .inl (Pending.of_items (s := s) (List.Subset.refl _) hitems h)
        · exact .inr (hsame hnot huntouched o h)
      intro o ho
      apply hkept
      by_cases hwritten : s.tables.membership? key = some result.membership
      · rw [if_pos hwritten] at ho
        exact hs o ho
      · rw [if_neg hwritten, mem_cons] at ho
        rcases ho with rfl | ho
        · exact hadopted hnot huntouched hwritten ioc hioc
        · exact hs o ho

/-- One step keeps the invariant. -/
theorem foldInvariant_step (hs : FoldInvariant s) (hkeeps : KeepsFold s a)
    (hstep : runStep s a = some s') : FoldInvariant s' := by
  cases a with
  | insertItem id observed =>
    simp only [runStep] at hstep
    split at hstep
    · next hkey =>
      obtain ⟨hfree, rfl⟩ := Run.enabled hstep
      exact foldInvariant_insertItem hkey hfree.1 hfree.2 hs
    · cases hstep
  | upsert policies call id key isIocSuppressed now =>
    obtain ⟨ioc, hioc, hentry⟩ := Option.bind_eq_some_iff.mp hstep
    exact foldInvariant_upsert hioc hkeeps hentry hs
  | finalize policies now key | expire now key =>
    obtain ⟨m, -, hwrite⟩ := Option.bind_eq_some_iff.mp hstep
    obtain ⟨-, rfl⟩ := Run.enabled hwrite
    exact foldInvariant_writeAndSchedule hs
  | recompute isIocSuppressed now =>
    cases hdeferred : s.deferred with
    | nil =>
      simp only [runStep, hdeferred] at hstep
      cases hstep
    | cons key rest =>
      simp only [runStep, hdeferred] at hstep
      cases hstep
      apply foldInvariant_recompute hdeferred _ hs
      apply hkeeps
      rw [hdeferred]
      rfl
  | fail =>
    cases hstep
    intro o ho
    rcases hs o ho with h | h
    · exact .inr (hkeeps o h)
    · exact .inr h

end Step

/-- When a run under the condition is over, every observable whose memberships it wrote and
whose rows are all plain has the status and the expiry of the fold. -/
theorem globalStatus_eq_fold (t : IocTables) {s : RunState} {actions : List RunAction}
    (hrun : Run runStep KeepsFold (.begin t) actions s) (hover : s.deferred = []) :
    ∀ o ∈ s.written, (∀ i ∈ s.tables.items, i.observed = o → i.isPlain = true) →
      AtFold s.tables o := by
  have hbegin : FoldInvariant (.begin t) := by
    nofun
  have hs : FoldInvariant s := by
    apply hrun.invariant _ hbegin
    intro s₁ a s₂ hs₁ hkeeps hstep
    exact foldInvariant_step hs₁ hkeeps hstep
  intro o ho hplain
  rcases hs o ho with ⟨key, hkey, -⟩ | hfold | ⟨i, hi, hobserved, hheld⟩
  · rw [hover] at hkey
    cases hkey
  · exact hfold
  · rw [hplain i hi hobserved] at hheld
    cases hheld

/-- An expired IOC without memberships. -/
def expiredAlone : IocTables where
  items := [{ newItem 1 ⟨"evil.example", "domain"⟩ with status := .expired }]
  memberships := []
  unique_item := nodup_singleton _
  unique_membership := nodup_nil
  unique_id := nodup_nil

/-- The import of a first membership. -/
def firstUpsert : RunAction :=
  .upsert ⟨[], []⟩ ⟨5, none, none, none, none, false⟩ 1 ⟨⟨1, "domain"⟩, 1⟩ (fun _ _ => false) 5

/-- After it the recomputation waits, and the row is not at the fold. -/
theorem firstUpsert_waits {s : RunState}
    (h : runStep (.begin expiredAlone) firstUpsert = some s) :
    s.deferred = [⟨1, "domain"⟩] ∧ s.written = [⟨"evil.example", "domain"⟩] ∧
      (s.tables.item? ⟨1, "domain"⟩).map (fun i =>
        (i.isPlain, foldSettled 5 (s.tables.membershipsFor i) i)) = some (true, false) := by
  have hvalues : ((runStep (.begin expiredAlone) firstUpsert).map fun s => (s.deferred, s.written,
      (s.tables.item? ⟨1, "domain"⟩).map fun i =>
        (i.isPlain, foldSettled 5 (s.tables.membershipsFor i) i))) =
      some ([⟨1, "domain"⟩], [⟨"evil.example", "domain"⟩], some (true, false)) := by
    decide
  rw [h, Option.map_some, Option.some.injEq, Prod.mk.injEq, Prod.mk.injEq] at hvalues
  exact hvalues

/-- The theorem on a run that imports a membership of an expired IOC. -/
theorem globalStatus_eq_fold_import : ∃ s,
    Run runStep KeepsFold (.begin expiredAlone) [firstUpsert, .recompute (fun _ _ => false) 5] s ∧
      ∀ o ∈ s.written, (∀ i ∈ s.tables.items, i.observed = o → i.isPlain = true) →
        AtFold s.tables o := by
  obtain ⟨s, hs⟩ : ∃ s, runStep (.begin expiredAlone) firstUpsert = some s := ⟨_, rfl⟩
  obtain ⟨hdeferred, -, hrow⟩ := firstUpsert_waits hs
  have hfirst : KeepsFold (.begin expiredAlone) firstUpsert := by
    intro result tables hupsert
    have hflags : ((upsertTables ⟨[], []⟩ ⟨5, none, none, none, none, false⟩ 1 ⟨⟨1, "domain"⟩, 1⟩
        expiredAlone).map fun r => (r.1.reactivated, r.1.touched)) = some (false, true) := by
      decide
    rw [show upsertTables _ _ _ _ expiredAlone = _ from hupsert, Option.map_some,
      Option.some.injEq, Prod.mk.injEq] at hflags
    refine ⟨fun h => ?_, fun _ h => ?_⟩
    · rw [hflags.1] at h
      cases h
    · rw [hflags.2] at h
      cases h
  have hsecond : KeepsFold s (.recompute (fun _ _ => false) 5) := by
    intro key hkey ioc hioc _ _ hsettled
    rw [hdeferred] at hkey
    cases hkey
    rw [hioc, Option.map_some, hsettled, Option.some.injEq, Prod.mk.injEq] at hrow
    cases hrow.2
  have hstep : runStep s (.recompute (fun _ _ => false) 5) = some { s with
      tables := (recomputeIocGlobalStatus (fun _ _ => false) 5 s.tables ⟨1, "domain"⟩).2
      deferred := [] } := by
    simp only [runStep, hdeferred]
  have hrun := Run.cons hfirst hs (.cons hsecond hstep (.nil _))
  exact ⟨_, hrun, globalStatus_eq_fold expiredAlone hrun rfl⟩

/-- A run that fails after its first upsert leaves the IOC expired next to an active
membership. -/
theorem failed_run_not_fold : ∃ s,
    Run runStep (fun _ _ => True) (.begin expiredAlone) [firstUpsert, .fail] s ∧
      s.deferred = [] ∧ ∃ o ∈ s.written,
        (∀ i ∈ s.tables.items, i.observed = o → i.isPlain = true) ∧ ¬ AtFold s.tables o := by
  obtain ⟨s, hs⟩ : ∃ s, runStep (.begin expiredAlone) firstUpsert = some s := ⟨_, rfl⟩
  obtain ⟨-, hwritten, -⟩ := firstUpsert_waits hs
  have hvalues : ((runStep (.begin expiredAlone) firstUpsert).map fun s =>
      (s.tables.items.map fun i => (i.isPlain, i.observed, i.status),
        foldStatus (s.tables.membershipsOn ⟨"evil.example", "domain"⟩))) =
      some ([(true, ⟨"evil.example", "domain"⟩, .expired)], .active) := by decide
  rw [hs, Option.map_some, Option.some.injEq, Prod.mk.injEq] at hvalues
  obtain ⟨hrows, hfold⟩ := hvalues
  have hrow : ∀ i ∈ s.tables.items, i.isPlain = true := by
    intro i hi
    have hmem := mem_map_of_mem (f := fun i => (i.isPlain, i.observed, i.status)) hi
    rw [hrows, mem_singleton] at hmem
    exact congrArg Prod.fst hmem
  refine ⟨{ s with deferred := [] }, .cons trivial hs (.cons trivial rfl (.nil _)), rfl,
    ⟨"evil.example", "domain"⟩, ?_, fun i hi _ => hrow i hi, ?_⟩
  · rw [hwritten]
    exact mem_singleton_self _
  · intro hat
    have hmem : (true, ⟨"evil.example", "domain"⟩, IocStatus.expired) ∈
        s.tables.items.map fun i => (i.isPlain, i.observed, i.status) := by
      rw [hrows]
      exact mem_singleton_self _
    obtain ⟨i, hi, heq⟩ := mem_map.mp hmem
    simp only [Prod.mk.injEq] at heq
    have hstatus := (hat i hi heq.2.1).1
    rw [heq.2.2, hfold] at hstatus
    cases hstatus

end TalonHound.IocExpiration
