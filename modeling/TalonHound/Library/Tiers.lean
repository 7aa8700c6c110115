import TalonHound.Library.Greatest

/-!
# Tiers of values

Values come in tiers. The strongest value is the greatest of the first tier that has any; a
loop that keeps the greatest value seen so far finds the greatest of a tier.
-/

namespace Tiers

open Option List

variable {α τ : Type*} [LinearOrder α]

/-- The greatest value of the first tier that is not empty. -/
def strongest : List (List α) → Option α
  | [] => none
  | tier :: rest => tier.max?.or (strongest rest)

variable {tiers : List (List α)}

/-- The strongest value depends on what the tiers hold alone. -/
theorem strongest_congr {tiers' : List (List α)}
    (h : List.Forall₂ (fun tier tier' => ∀ a, a ∈ tier ↔ a ∈ tier') tiers tiers') :
    strongest tiers = strongest tiers' := by
  induction h with
  | nil => rfl
  | cons hsame _ ih =>
    unfold strongest
    rw [ih, Greatest.max?_eq_iff.mpr]
    intro b
    simp only [hsame]

theorem strongest_append (tiers rest : List (List α)) :
    strongest (tiers ++ rest) = (strongest tiers).or (strongest rest) := by
  induction tiers with
  | nil => rfl
  | cons tier tiers ih =>
    rw [cons_append, strongest, strongest, ih, Option.or_assoc]

/-- The strongest value is in a tier. -/
theorem mem_of_strongest {a : α} (h : strongest tiers = some a) : ∃ tier ∈ tiers, a ∈ tier := by
  induction tiers with
  | nil => cases h
  | cons tier rest ih =>
    rcases or_eq_some_iff.mp h with hmax | ⟨-, hrest⟩
    · exact ⟨tier, mem_cons_self, (max?_eq_some_iff.mp hmax).1⟩
    · obtain ⟨tier', htier', ha⟩ := ih hrest
      exact ⟨tier', mem_cons_of_mem _ htier', ha⟩

section Evidence

variable {ε : Type*} (tier : ε → ℕ) (level : ε → Option α) (n : ℕ)

/-- The levels of the evidence of one tier. -/
def levelsAt (evidence : List ε) (i : ℕ) : List α :=
  evidence.filterMap fun e => if tier e = i then level e else none

/-- The tiers of the evidence, from the highest below `n`. -/
def tiersOf (evidence : List ε) : List (List α) :=
  (List.range n).reverse.map (levelsAt tier level evidence)

variable {tier level n} {evidence other : List ε} {a b : α} {i : ℕ}

omit [LinearOrder α] in
theorem mem_levelsAt : a ∈ levelsAt tier level evidence i ↔
    ∃ e ∈ evidence, tier e = i ∧ level e = some a := by
  unfold levelsAt
  rw [mem_filterMap]
  apply exists_congr
  intro e
  apply and_congr_right
  intro _
  split
  · next htier => rw [and_iff_right htier]
  · next htier =>
    constructor
    · intro h
      cases h
    · rintro ⟨h, -⟩
      exact absurd h htier

variable (tier level n) in
/-- In the first tier in which either has a level, both have the same pieces with a level. -/
def SameFirst (evidence other : List ε) : Prop :=
  ∀ e ∈ evidence ++ other, tier e < n → (level e).isSome = true →
    (∀ e' ∈ evidence ++ other, tier e < tier e' → tier e' < n → level e' = none) →
      e ∈ evidence ∧ e ∈ other

omit [LinearOrder α] in
theorem tiersOf_succ : tiersOf tier level (n + 1) evidence =
    levelsAt tier level evidence n :: tiersOf tier level n evidence := by
  simp [tiersOf, List.range_succ]

/-- The greatest level of the first tier that has any is the strongest. -/
theorem strongest_tiersOf (hi : i < n)
    (habove : ∀ e ∈ evidence, i < tier e → tier e < n → level e = none)
    (hmax : (levelsAt tier level evidence i).max? = some a) :
    strongest (tiersOf tier level n evidence) = some a := by
  induction n with
  | zero => omega
  | succ n ih =>
    rw [tiersOf_succ, strongest]
    rcases Nat.lt_succ_iff_lt_or_eq.mp hi with hlt | rfl
    · have hempty : levelsAt tier level evidence n = [] := by
        refine eq_nil_iff_forall_not_mem.mpr fun b hb => ?_
        obtain ⟨e, he, htier, hlevel⟩ := mem_levelsAt.mp hb
        rw [habove e he (by omega) (by omega)] at hlevel
        cases hlevel
      rw [hempty]
      exact ih hlt fun e he hlow hhigh => habove e he hlow (by omega)
    · rw [hmax, some_or]

/-- Evidence with the same first tier has the same strongest level, -/
theorem strongest_eq_of_sameFirst (h : SameFirst tier level n evidence other) :
    strongest (tiersOf tier level n evidence) = strongest (tiersOf tier level n other) := by
  induction n with
  | zero => rfl
  | succ n ih =>
    have hfirst : ∀ e ∈ evidence ++ other, tier e = n → (level e).isSome = true →
        e ∈ evidence ∧ e ∈ other := fun e he htier hsome =>
      h e he (by omega) hsome fun e' _ hlow hhigh => by omega
    have hsame : ∀ b, b ∈ levelsAt tier level evidence n ↔ b ∈ levelsAt tier level other n := by
      intro b
      rw [mem_levelsAt, mem_levelsAt]
      constructor
      · rintro ⟨e, he, htier, hlevel⟩
        exact ⟨e, (hfirst e (mem_append_left _ he) htier (by simp [hlevel])).2, htier, hlevel⟩
      · rintro ⟨e, he, htier, hlevel⟩
        exact ⟨e, (hfirst e (mem_append_right _ he) htier (by simp [hlevel])).1, htier, hlevel⟩
    have hmax : (levelsAt tier level evidence n).max? = (levelsAt tier level other n).max? := by
      rw [Greatest.max?_eq_iff]
      simp only [hsame, implies_true]
    rw [tiersOf_succ, tiersOf_succ, strongest, strongest, ← hmax]
    cases hempty : (levelsAt tier level evidence n).max? with
    | some b => rfl
    | none =>
      refine congrArg _ (ih fun e₀ he₀ hn hsome₀ habove =>
        h e₀ he₀ (by omega) hsome₀ fun e he hlow hhigh => ?_)
      rcases Nat.lt_succ_iff_lt_or_eq.mp hhigh with hlt | htier
      · exact habove e he hlow hlt
      · rw [max?_eq_none_iff, eq_nil_iff_forall_not_mem] at hempty
        by_contra hsome
        obtain ⟨b, hb⟩ := Option.ne_none_iff_exists'.mp hsome
        refine hempty b ?_
        rcases mem_append.mp he with he | he
        · exact mem_levelsAt.mpr ⟨e, he, htier, hb⟩
        · exact (hsame b).mpr (mem_levelsAt.mpr ⟨e, he, htier, hb⟩)

/-- and other evidence has not: with other levels on the same pieces the strongest differ. -/
theorem exists_levels_of_not_sameFirst {low high : α} (hlt : low < high)
    (h : ¬SameFirst tier level n evidence other) :
    ∃ level' : ε → Option α, (∀ e, (level' e).isSome = (level e).isSome) ∧
      strongest (tiersOf tier level' n evidence) ≠ strongest (tiersOf tier level' n other) := by
  classical
  unfold SameFirst at h
  push Not at h
  obtain ⟨e, he, hi, hsome, habove, hone⟩ := h
  -- the piece that only one has is high, all others are low
  let level' : ε → Option α := fun x => (level x).map fun _ => if x = e then high else low
  have hlevel : ∀ {x b}, level' x = some b → b ≤ high ∧ (b = high → x = e) := by
    intro x b hb
    obtain ⟨_, -, rfl⟩ := Option.map_eq_some_iff.mp hb
    by_cases hx : x = e
    · simp [hx]
    · simp [hx, hlt.le, hlt.ne]
  have hhigh : level' e = some high := by
    obtain ⟨b, hb⟩ := Option.isSome_iff_exists.mp hsome
    simp [level', hb]
  have hside : ∀ {evidence other : List ε}, e ∈ evidence → e ∉ other →
      (∀ x ∈ evidence, tier e < tier x → tier x < n → level x = none) →
      strongest (tiersOf tier level' n evidence) ≠ strongest (tiersOf tier level' n other) := by
    intro evidence other hin hout hnone heq
    have hfirst : strongest (tiersOf tier level' n evidence) = some high := by
      refine strongest_tiersOf hi (fun x hx hlow hn => ?_) (max?_eq_some_iff.mpr
        ⟨mem_levelsAt.mpr ⟨e, hin, rfl, hhigh⟩, fun b hb => ?_⟩)
      · simp [level', hnone x hx hlow hn]
      · obtain ⟨x, -, -, hb⟩ := mem_levelsAt.mp hb
        exact (hlevel hb).1
    obtain ⟨levels, hlevels, hmem⟩ := mem_of_strongest (heq.symm.trans hfirst)
    obtain ⟨j, -, rfl⟩ := mem_map.mp hlevels
    obtain ⟨x, hx, -, hb⟩ := mem_levelsAt.mp hmem
    exact hout ((hlevel hb).2 rfl ▸ hx)
  refine ⟨level', fun x => by simp [level'], ?_⟩
  by_cases hin : e ∈ evidence
  · exact hside hin (hone hin) fun x hx => habove x (mem_append_left _ hx)
  · refine (hside ((mem_append.mp he).resolve_left hin) hin fun x hx => ?_).symm
    exact habove x (mem_append_right _ hx)

end Evidence

/-- One step of a loop that keeps the greatest value; later values win ties. -/
def keepGreatest (value : τ → α) (best : Option τ) (c : τ) : Option τ :=
  match best with
  | none => some c
  | some b => if value b ≤ value c then some c else some b

theorem map_keepGreatest (value : τ → α) (best : Option τ) (c : τ) :
    (keepGreatest value best c).map value =
      some ((best.map value).elim (value c) fun b => max b (value c)) := by
  cases best with
  | none => rfl
  | some b =>
    unfold keepGreatest
    dsimp only [map_some, Option.elim]
    split
    · next h => rw [max_eq_right h, map_some]
    · next h => rw [max_eq_left (not_le.mp h).le, map_some]

/-- The loop keeps an element that no later one reaches. -/
theorem last_of_foldl_keepGreatest {value : τ → α} {cs : List τ} {c : τ}
    (h : cs.foldl (keepGreatest value) none = some c) :
    ∃ before after, cs = before ++ c :: after ∧ ∀ d ∈ after, value d < value c := by
  induction cs using List.reverseRecOn generalizing c with
  | nil => cases h
  | append_singleton cs d ih =>
    rw [foldl_append, foldl_cons, foldl_nil] at h
    unfold keepGreatest at h
    split at h
    · cases h
      exact ⟨cs, [], rfl, by simp⟩
    · next b hb =>
      split at h
      · cases h
        exact ⟨cs, [], rfl, by simp⟩
      · next hlt =>
        cases h
        obtain ⟨before, after, rfl, hafter⟩ := ih hb
        refine ⟨before, after ++ [d], by simp, fun x hx => ?_⟩
        rcases mem_append.mp hx with hx | hx
        · exact hafter x hx
        · rw [mem_singleton.mp hx]
          exact not_le.mp hlt

/-- The loop finds the greatest value. -/
theorem map_foldl_keepGreatest (value : τ → α) (cs : List τ) :
    (cs.foldl (keepGreatest value) none).map value = (cs.map value).max? := by
  induction cs using List.reverseRecOn with
  | nil => rfl
  | append_singleton cs c ih =>
    rw [foldl_append, foldl_cons, foldl_nil, map_keepGreatest, ih, map_append, map_cons, map_nil]
    cases hmax : (cs.map value).max? with
    | none =>
      rw [max?_eq_none_iff.mp hmax]
      rfl
    | some m =>
      obtain ⟨hm, hgreatest⟩ := max?_eq_some_iff.mp hmax
      symm
      rw [elim_some, max?_eq_some_iff]
      constructor
      · rcases max_choice m (value c) with h | h
        · rw [h]
          exact mem_append_left _ hm
        · rw [h]
          exact mem_append_right _ (mem_singleton_self _)
      · intro b hb
        rcases mem_append.mp hb with hb | hb
        · exact (hgreatest b hb).trans (le_max_left _ _)
        · rw [mem_singleton.mp hb]
          exact le_max_right _ _

end Tiers
