import TalonHound.IocExpiration.Recompute

/-!
# Sibling rows of an observable

A recomputation that starts from an ordinary row writes the fold to every row of the
observable, whatever those rows are. One that starts from a suppressed, disabled or overridden
row writes that row alone.
-/

namespace TalonHound.IocExpiration

open Bool Option

namespace IocTables

variable {t : IocTables} {key : ItemKey} {i : IocItem} {p : IocItem → Bool}
  {f : IocItem → IocItem} {hf : ∀ i, (f i).key = i.key}

theorem item?_of_mem (h : i ∈ t.items) : t.item? i.key = some i :=
  (Rows.lookup_eq_some t.unique_item).mpr ⟨h, rfl⟩

theorem mem_of_item? (h : t.item? key = some i) : i ∈ t.items ∧ i.key = key := Rows.mem_of_lookup h

/-- A lookup after an update. -/
theorem item?_updateItems :
    (t.updateItems p f hf).item? key = (t.item? key).map (Rows.updateWhere p f) :=
  Rows.lookup_map (Rows.updateWhere_keeps hf)

/-- A lookup after the update of one row. -/
theorem item?_updateItem {k : ItemKey} :
    (t.updateItem key f hf).item? k = (t.item? k).map fun i => if i.key = key then f i else i := by
  unfold updateItem
  rw [item?_updateItems]
  congr 1
  funext i
  simp [Rows.updateWhere]

/-- A lookup after the update of an observable. -/
theorem item?_updateObservable {k : ItemKey} {observable observableType : String}
    {fields : StatusFields} :
    (t.updateObservable observable observableType fields).item? k = (t.item? k).map fun i =>
        if i.observable = observable ∧ i.observableType = observableType then
          i.withFields fields
        else i := by
  unfold updateObservable
  rw [item?_updateItems]
  congr 1
  funext i
  simp [Rows.updateWhere]

/-- Updates of the status columns move no membership to another observable. -/
theorem membershipsOf_updateItems (hobservable : ∀ i, (f i).observable = i.observable)
    (observable observableType : String) :
    (t.updateItems p f hf).membershipsOf observable observableType =
      t.membershipsOf observable observableType := by
  have htype : ∀ i, (f i).observableType = i.observableType := fun i =>
    congrArg ItemKey.observableType (hf i)
  unfold membershipsOf updateItems
  congr 1
  funext m
  rw [List.any_map]
  congr 1
  funext i
  simp only [Function.comp]
  rw [Rows.updateWhere_keeps hf i, Rows.updateWhere_keeps hobservable i,
    Rows.updateWhere_keeps htype i]

theorem membershipsFor_updateObservable {observable observableType : String}
    {fields : StatusFields} (i : IocItem) :
    (t.updateObservable observable observableType fields).membershipsFor i =
      t.membershipsFor i := by
  apply membershipsOf_updateItems
  intro i
  rfl

end IocTables

section Recompute

variable {isIocSuppressed : String → String → Bool} {now : ℤ} {t : IocTables} {key : ItemKey}
  {ioc : IocItem}

/-- The row is not the business of the fold: it is disabled or has a manual override. -/
def IocItem.heldByAnalyst (i : IocItem) : Bool :=
  decide (i.status = .disabled) || i.manualStatusOverride

/-- A recomputation of the row would leave it as it is. -/
def Settled (isIocSuppressed : String → String → Bool) (now : ℤ) (t : IocTables)
    (ioc : IocItem) : Bool :=
  if isIocSuppressed ioc.observable ioc.observableType then decide (ioc.status = .suppressed)
  else if ioc.status = .disabled then true
  else if ioc.manualStatusOverride then manualSettled now ioc
  else foldSettled now (t.membershipsFor ioc) ioc

/-- A row that has its patch is settled. -/
theorem manualSettled_of_fields (h : ioc.fields = manualPatch now ioc) :
    manualSettled now ioc = true := by
  unfold manualSettled
  rw [← h]
  simp [IocItem.fields]

/-- A row that has the fields of the fold is settled. -/
theorem foldSettled_of_fields {memberships : List Membership}
    (h : ioc.fields = foldFields now memberships ioc.expiredAt) :
    foldSettled now memberships ioc = true := by
  have hdate : (foldFields now memberships ioc.expiredAt).status = .expired →
      ioc.expiredAt.isSome = true := by
    intro hexpired
    have hfield : ioc.expiredAt = (foldFields now memberships ioc.expiredAt).expiredAt :=
      congrArg StatusFields.expiredAt h
    unfold foldFields at hexpired hfield
    rw [if_pos hexpired] at hfield
    rw [hfield]
    cases ioc.expiredAt <;> rfl
  unfold foldSettled
  simp only [decide_eq_true_eq]
  rw [← h]
  refine ⟨rfl, rfl, ?_, rfl, .inr rfl⟩
  by_cases hexpired : ioc.fields.status = .expired
  · exact .inr (hdate (by rwa [← h]))
  · exact .inl hexpired

/-- A settled row makes the recomputation leave everything as it is. -/
theorem recompute_of_settled (hioc : t.item? key = some ioc)
    (hsettled : Settled isIocSuppressed now t ioc = true) :
    (recomputeIocGlobalStatus isIocSuppressed now t key).2 = t := by
  unfold Settled at hsettled
  unfold recomputeIocGlobalStatus
  simp only [hioc]
  split
  · next hsuppressed =>
    rw [if_pos hsuppressed, decide_eq_true_eq] at hsettled
    rw [if_pos hsettled]
  · next hsuppressed =>
    rw [if_neg hsuppressed] at hsettled
    split
    · rfl
    · next hdisabled =>
      rw [if_neg hdisabled] at hsettled
      split
      · next hmanual =>
        rw [if_pos hmanual] at hsettled
        rw [if_pos hsettled]
      · next hmanual =>
        rw [if_neg hmanual] at hsettled
        unfold recomputeFold
        rw [if_pos hsettled]

/-- A row keeps its content in its own recomputation exactly when it is settled. -/
theorem recompute_keeps_iff (hioc : t.item? key = some ioc) :
    (recomputeIocGlobalStatus isIocSuppressed now t key).2.item? key = some ioc ↔
      Settled isIocSuppressed now t ioc = true := by
  constructor
  · intro hkeeps
    have hkey := (IocTables.mem_of_item? hioc).2
    unfold recomputeIocGlobalStatus at hkeeps
    simp only [hioc] at hkeeps
    unfold Settled
    by_cases hsuppressed : isIocSuppressed ioc.observable ioc.observableType = true
    · rw [if_pos hsuppressed] at hkeeps ⊢
      by_cases hstatus : ioc.status = .suppressed
      · exact decide_eq_true hstatus
      · rw [if_neg hstatus, IocTables.item?_updateItem, hioc, map_some, if_pos hkey,
          Option.some.injEq] at hkeeps
        exact absurd (congrArg IocItem.status hkeeps).symm hstatus
    · rw [if_neg hsuppressed] at hkeeps ⊢
      by_cases hdisabled : ioc.status = .disabled
      · rw [if_pos hdisabled]
      · rw [if_neg hdisabled] at hkeeps ⊢
        by_cases hmanual : ioc.manualStatusOverride = true
        · rw [if_pos hmanual] at hkeeps ⊢
          by_contra hsettled
          rw [if_neg hsettled, IocTables.item?_updateItem, hioc, map_some, if_pos hkey,
            Option.some.injEq] at hkeeps
          exact hsettled (manualSettled_of_fields (congrArg IocItem.fields hkeeps).symm)
        · rw [if_neg hmanual] at hkeeps ⊢
          by_contra hsettled
          unfold recomputeFold at hkeeps
          rw [if_neg hsettled, IocTables.item?_updateObservable, hioc, map_some,
            if_pos ⟨rfl, rfl⟩, Option.some.injEq] at hkeeps
          exact hsettled (foldSettled_of_fields (congrArg IocItem.fields hkeeps).symm)
  · intro hsettled
    rw [recompute_of_settled hioc hsettled]
    exact hioc

/-- Another row of the same observable. -/
def IsSibling (t : IocTables) (seed i : IocItem) : Prop :=
  i ∈ t.items ∧ i.key ≠ seed.key ∧ i.observable = seed.observable ∧
    i.observableType = seed.observableType

/-- The recomputation of the row takes the last branch and writes all rows of its observable. -/
def RewritesSiblings (isIocSuppressed : String → String → Bool) (now : ℤ) (t : IocTables)
    (seed : IocItem) : Bool :=
  !isIocSuppressed seed.observable seed.observableType && !seed.heldByAnalyst &&
    !foldSettled now (t.membershipsFor seed) seed

/-- The condition: where the recomputation of the row rewrites its siblings, none of them is
disabled or overridden; where it does not, each of them is settled already. -/
def SiblingsReady (isIocSuppressed : String → String → Bool) (now : ℤ) (t : IocTables)
    (seed : IocItem) : Prop :=
  ∀ i, IsSibling t seed i →
    if RewritesSiblings isIocSuppressed now t seed then i.heldByAnalyst = false
    else Settled isIocSuppressed now t i = true

/-- What the recomputation of `seed`, which leads to `t'`, does to another row: its own
recomputation would leave it as it is, a disabled or overridden row keeps its status and
expiry, and it is not active under a suppression. -/
def KeepsCoherent (isIocSuppressed : String → String → Bool) (now : ℤ) (t' : IocTables)
    (i : IocItem) : Prop :=
  ∃ i', t'.item? i.key = some i' ∧
    (recomputeIocGlobalStatus isIocSuppressed now t' i.key).2.item? i.key = some i' ∧
    (i.heldByAnalyst = true → i'.status = i.status ∧ i'.expiresAt = i.expiresAt) ∧
    (isIocSuppressed i.observable i.observableType = true → i'.status ≠ .active)

/-- The row that is not rewritten. -/
theorem recompute_sibling_same (hseed : t.item? key = some ioc) {i : IocItem}
    (hsibling : IsSibling t ioc i)
    (hnot : RewritesSiblings isIocSuppressed now t ioc = false) :
    (recomputeIocGlobalStatus isIocSuppressed now t key).2.item? i.key = some i := by
  obtain ⟨hmem, hne, -, -⟩ := hsibling
  have hkey := (IocTables.mem_of_item? hseed).2
  have hi := IocTables.item?_of_mem hmem
  have hother : ∀ (f : IocItem → IocItem) (hf : ∀ i, (f i).key = i.key),
      (t.updateItem key f hf).item? i.key = some i := by
    intro f hf
    rw [IocTables.item?_updateItem, hi, map_some, if_neg (hkey ▸ hne)]
  unfold recomputeIocGlobalStatus
  simp only [hseed]
  split
  · split
    · exact hi
    · exact hother IocItem.suppress IocItem.key_suppress
  · next hsuppressed =>
    split
    · exact hi
    · next hdisabled =>
      split
      · split
        · exact hi
        · exact hother _ (IocItem.key_withFields _)
      · next hmanual =>
        have hsettled : foldSettled now (t.membershipsFor ioc) ioc = true := by
          simpa [RewritesSiblings, IocItem.heldByAnalyst, hsuppressed, hdisabled, hmanual]
            using hnot
        unfold recomputeFold
        rw [if_pos hsettled]
        exact hi

/-- The memberships that count for a row are those of its siblings. -/
theorem membershipsFor_sibling {i : IocItem} (hsibling : IsSibling t ioc i) :
    t.membershipsFor i = t.membershipsFor ioc := by
  obtain ⟨-, -, hobservable, htype⟩ := hsibling
  unfold IocTables.membershipsFor
  rw [hobservable, htype]

/-- The fields of the fold for a row that was given them. -/
theorem foldFields_again (memberships : List Membership) (expiredAt : Option ℤ) :
    foldFields now memberships (foldFields now memberships expiredAt).expiredAt =
      foldFields now memberships expiredAt := by
  unfold foldFields
  split
  · cases expiredAt <;> rfl
  · rfl

/-- The recomputation that rewrites its siblings. -/
theorem recompute_of_rewrites (hseed : t.item? key = some ioc)
    (hrewrites : RewritesSiblings isIocSuppressed now t ioc = true) :
    (recomputeIocGlobalStatus isIocSuppressed now t key).2 =
      t.updateObservable ioc.observable ioc.observableType
        (foldFields now (t.membershipsFor ioc) ioc.expiredAt) := by
  simp only [RewritesSiblings, IocItem.heldByAnalyst, and_eq_true, not_eq_true',
    or_eq_false_iff, decide_eq_false_iff_not] at hrewrites
  obtain ⟨⟨hsuppressed, hdisabled, hmanual⟩, hsettled⟩ := hrewrites
  unfold recomputeIocGlobalStatus recomputeFold
  simp [hseed, hsuppressed, hdisabled, hmanual, hsettled]

/-- A fold never asks for `disabled`, and gives no row the reason of an override. -/
theorem foldFields_status_ne (now : ℤ) (memberships : List Membership) (expiredAt : Option ℤ) :
    (foldFields now memberships expiredAt).status ≠ .disabled ∧
      (foldFields now memberships expiredAt).status ≠ .suppressed ∧
      (foldFields now memberships expiredAt).expirationReason.getD "" ≠ "manual_override" := by
  have hstatus : foldStatus memberships = .active ∨ foldStatus memberships = .expired := by
    unfold foldStatus
    split
    · exact .inl rfl
    · exact .inr rfl
  unfold foldFields
  rcases hstatus with h | h <;> rw [h] <;> simp

/-- A sibling that is rewritten is coherent exactly when no analyst holds it. -/
theorem keepsCoherent_of_rewrites (hseed : t.item? key = some ioc) {i : IocItem}
    (hsibling : IsSibling t ioc i)
    (hrewrites : RewritesSiblings isIocSuppressed now t ioc = true) :
    KeepsCoherent isIocSuppressed now
        (recomputeIocGlobalStatus isIocSuppressed now t key).2 i ↔ i.heldByAnalyst = false := by
  have hsame := membershipsFor_sibling hsibling
  obtain ⟨hmem, hne, hobservable, htype⟩ := hsibling
  have hnotSuppressed : isIocSuppressed i.observable i.observableType = false := by
    rw [hobservable, htype]
    simp only [RewritesSiblings, and_eq_true, not_eq_true'] at hrewrites
    exact hrewrites.1.1
  rw [recompute_of_rewrites hseed hrewrites]
  set f := foldFields now (t.membershipsFor ioc) ioc.expiredAt with hfields
  obtain ⟨hnotDisabled, -, hreason⟩ := foldFields_status_ne now (t.membershipsFor ioc) ioc.expiredAt
  have hi' : (t.updateObservable ioc.observable ioc.observableType f).item? i.key =
      some (i.withFields f) := by
    rw [IocTables.item?_updateObservable, IocTables.item?_of_mem hmem, map_some,
      if_pos ⟨hobservable, htype⟩]
  have hnotSuppressed' : ¬ isIocSuppressed (i.withFields f).observable
      (i.withFields f).observableType = true := by
    change ¬ isIocSuppressed i.observable i.observableType = true
    simp [hnotSuppressed]
  have hnotDisabled' : (i.withFields f).status ≠ .disabled := hnotDisabled
  unfold KeepsCoherent
  simp only [hi', Option.some.injEq, exists_eq_left']
  rw [recompute_keeps_iff hi']
  unfold Settled
  rw [if_neg hnotSuppressed', if_neg hnotDisabled']
  constructor
  · rintro ⟨hsettled, hkeeps, -⟩
    by_contra hheld
    rw [not_eq_false] at hheld
    obtain ⟨hstatus, -⟩ := hkeeps hheld
    have hdisabled : i.status ≠ .disabled := by
      intro h
      exact hnotDisabled (hstatus.trans h)
    have hmanual : i.manualStatusOverride = true := by
      simpa [IocItem.heldByAnalyst, hdisabled] using hheld
    have hmanual' : (i.withFields f).manualStatusOverride = true := hmanual
    rw [if_pos hmanual'] at hsettled
    exact hreason (of_decide_eq_true hsettled).2.2.2
  · intro hheld
    have hmanual : ¬ (i.withFields f).manualStatusOverride = true := by
      change ¬ i.manualStatusOverride = true
      simp only [IocItem.heldByAnalyst, or_eq_false_iff] at hheld
      simp [hheld.2]
    refine ⟨?_, fun h => absurd h (by simp [hheld]), fun h => absurd h (by simp [hnotSuppressed])⟩
    rw [if_neg hmanual, IocTables.membershipsFor_updateObservable]
    apply foldSettled_of_fields
    change f = foldFields now (t.membershipsFor i) f.expiredAt
    rw [hsame, hfields, foldFields_again]

/-- A recomputation moves no membership to another observable. -/
theorem membershipsFor_recompute (i : IocItem) :
    (recomputeIocGlobalStatus isIocSuppressed now t key).2.membershipsFor i =
      t.membershipsFor i := by
  have hrow : ∀ (f : IocItem → IocItem) (hf : ∀ i, (f i).key = i.key),
      (∀ i, (f i).observable = i.observable) →
        (t.updateItem key f hf).membershipsFor i = t.membershipsFor i :=
    fun f hf hobservable => IocTables.membershipsOf_updateItems hobservable _ _
  unfold recomputeIocGlobalStatus
  split
  · rfl
  · split
    · split
      · rfl
      · exact hrow IocItem.suppress IocItem.key_suppress fun _ => rfl
    · split
      · rfl
      · split
        · split
          · rfl
          · exact hrow _ (IocItem.key_withFields _) fun _ => rfl
        · unfold recomputeFold
          dsimp only
          split
          · rfl
          · exact IocTables.membershipsFor_updateObservable i

/-- A sibling that is not rewritten is coherent exactly when it is settled. -/
theorem keepsCoherent_of_same (hseed : t.item? key = some ioc) {i : IocItem}
    (hsibling : IsSibling t ioc i)
    (hnot : RewritesSiblings isIocSuppressed now t ioc = false) :
    KeepsCoherent isIocSuppressed now (recomputeIocGlobalStatus isIocSuppressed now t key).2 i ↔
      Settled isIocSuppressed now t i = true := by
  have hi := recompute_sibling_same hseed hsibling hnot
  have hsettled : Settled isIocSuppressed now
      (recomputeIocGlobalStatus isIocSuppressed now t key).2 i = Settled isIocSuppressed now t i := by
    unfold Settled
    rw [membershipsFor_recompute]
  unfold KeepsCoherent
  simp only [hi, Option.some.injEq, exists_eq_left']
  rw [recompute_keeps_iff hi, hsettled]
  constructor
  · exact fun h => h.1
  · intro h
    refine ⟨h, by simp, ?_⟩
    intro hsuppressed
    unfold Settled at h
    rw [if_pos hsuppressed, decide_eq_true_eq] at h
    rw [h]
    exact nofun

/-- The recomputation of a row leaves its siblings coherent exactly under the condition. -/
theorem recomputeIocGlobalStatus_coherent_iff (isIocSuppressed : String → String → Bool) (now : ℤ)
    (t : IocTables) (key : ItemKey) (ioc : IocItem) (hseed : t.item? key = some ioc) :
    (∀ i, IsSibling t ioc i → KeepsCoherent isIocSuppressed now
          (recomputeIocGlobalStatus isIocSuppressed now t key).2 i) ↔
      SiblingsReady isIocSuppressed now t ioc := by
  refine forall_congr' fun i => imp_congr_right fun hsibling => ?_
  cases hrewrites : RewritesSiblings isIocSuppressed now t ioc with
  | true =>
    exact keepsCoherent_of_rewrites hseed hsibling hrewrites
  | false =>
    exact keepsCoherent_of_same hseed hsibling hrewrites

end Recompute

/-- A row of the observable `evil.example`. -/
def plainItem (id : ℕ) (status : IocStatus) : IocItem :=
  ⟨id, "evil.example", "domain", status, none, none, none, false, none, none⟩

/-- The rows 1 and 2 of one observable, without memberships. -/
def twoRows (first second : IocStatus) : IocTables where
  items := [plainItem 1 first, plainItem 2 second]
  memberships := []
  unique_item := by simp [plainItem, IocItem.key]
  unique_membership := List.nodup_nil
  unique_id := List.nodup_nil

/-- The recomputation of an expired row brings its expired sibling along. -/
theorem recomputeIocGlobalStatus_coherent_expired :
    IsSibling (twoRows .expired .expired) (plainItem 1 .expired) (plainItem 2 .expired) ∧
      KeepsCoherent (fun _ _ => false) 0
        (recomputeIocGlobalStatus (fun _ _ => false) 0 (twoRows .expired .expired)
          ⟨1, "domain"⟩).2 (plainItem 2 .expired) := by
  have hsibling : IsSibling (twoRows .expired .expired) (plainItem 1 .expired)
      (plainItem 2 .expired) := by
    simp [IsSibling, twoRows, plainItem, IocItem.key]
  refine ⟨hsibling, ?_⟩
  apply (recomputeIocGlobalStatus_coherent_iff (fun _ _ => false) 0 (twoRows .expired .expired)
    ⟨1, "domain"⟩ (plainItem 1 .expired) rfl).mpr _ (plainItem 2 .expired) hsibling
  intro i hsibling
  have hall : ∀ i ∈ (twoRows .expired .expired).items, i.heldByAnalyst = false := by decide
  have hrewrites : RewritesSiblings (fun _ _ => false) 0 (twoRows .expired .expired)
      (plainItem 1 .expired) = true := by decide
  exact hall i hsibling.1

/-- The recomputation of an expired row enables its disabled sibling. -/
theorem recomputeIocGlobalStatus_enables_disabled :
    IsSibling (twoRows .expired .disabled) (plainItem 1 .expired) (plainItem 2 .disabled) ∧
      ¬ KeepsCoherent (fun _ _ => false) 0
        (recomputeIocGlobalStatus (fun _ _ => false) 0 (twoRows .expired .disabled)
          ⟨1, "domain"⟩).2 (plainItem 2 .disabled) := by
  refine ⟨by simp [IsSibling, twoRows, plainItem, IocItem.key], ?_⟩
  rintro ⟨i', hi', -, hkeeps, -⟩
  have hrow : ((recomputeIocGlobalStatus (fun _ _ => false) 0 (twoRows .expired .disabled)
      ⟨1, "domain"⟩).2.item? (plainItem 2 .disabled).key).map (·.status) = some .active := by
    decide
  rw [hi', map_some, Option.some.injEq] at hrow
  have hstatus := (hkeeps (by decide)).1
  rw [hrow] at hstatus
  cases hstatus

end TalonHound.IocExpiration
