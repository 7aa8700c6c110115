import Mathlib.Data.List.Basic

/-!
# `SELECT DISTINCT ON` over a list of rows

`SELECT DISTINCT ON (k) … ORDER BY k, …` returns, for every value of `k`, the row
that the remaining sort columns put first. The rows that a query keeps are called
the leaders of their groups. The lemmas relate the leaders of a table to the
leaders of a part of it, which is what a restricted re-evaluation computes.
-/

namespace DistinctOn

open List

variable {ρ ι : Type*} [DecidableEq ι]

/-- The row `r` is sorted before every other row of its group. -/
def leads (ident : ρ → ι) (before : ρ → ρ → Bool) (rows : List ρ) (r : ρ) : Bool :=
  rows.all fun s => !(decide (ident s = ident r) && before s r)

/-- The rows kept by `DISTINCT ON (ident)` under the sort order `before`. -/
def distinctOn (ident : ρ → ι) (before : ρ → ρ → Bool) (rows : List ρ) : List ρ :=
  rows.filter (leads ident before rows)

/-- A sort order that leaves no two rows of the list tied. -/
structure Sorts (before : ρ → ρ → Bool) (rows : List ρ) : Prop where
  /-- No row is sorted before itself. -/
  irrefl : ∀ r, before r r = false
  /-- The order is transitive. -/
  trans : ∀ r s t, before r s = true → before s t = true → before r t = true
  /-- Rows of the list that are not sorted either way are the same row. -/
  total : ∀ r ∈ rows, ∀ s ∈ rows, before r s = false → before s r = false → r = s

variable {ident : ρ → ι} {before : ρ → ρ → Bool} {rows : List ρ}

variable {r : ρ}

theorem leads_iff : leads ident before rows r = true ↔
      ∀ s ∈ rows, ident s = ident r → before s r = false := by
  simp only [leads, all_eq_true, Bool.not_eq_true', Bool.and_eq_false_iff, decide_eq_false_iff_not]
  constructor
  · intro h s hs hident
    rcases h s hs with h | h
    · exact absurd hident h
    · exact h
  · intro h s hs
    by_cases hident : ident s = ident r
    · exact Or.inr (h s hs hident)
    · exact Or.inl hident

/-- A row is kept exactly when it is in the table and nothing in its group precedes it. -/
theorem mem_distinctOn : r ∈ distinctOn ident before rows ↔
      r ∈ rows ∧ ∀ s ∈ rows, ident s = ident r → before s r = false := by
  rw [distinctOn, mem_filter, leads_iff]

theorem distinctOn_subset (h : r ∈ distinctOn ident before rows) : r ∈ rows :=
  (mem_distinctOn.mp h).1

/-- An order on a list sorts every part of it. -/
theorem Sorts.of_subset {part : List ρ} (h : Sorts before rows)
    (hpart : ∀ r ∈ part, r ∈ rows) : Sorts before part :=
  ⟨h.irrefl, h.trans, fun r hr s hs => h.total r (hpart r hr) s (hpart s hs)⟩

/-- Every row belongs to a group that has a leader, at or before that row. The
induction is on the table: a new row either leads its group or keeps the old leader. -/
theorem exists_leader (ident : ρ → ι) (h : Sorts before rows) (hr : r ∈ rows) :
    ∃ w ∈ distinctOn ident before rows, ident w = ident r ∧ (w = r ∨ before w r = true) := by
  suffices key : ∀ part : List ρ, ∀ r ∈ part, ∃ w ∈ part, ident w = ident r ∧
      (w = r ∨ before w r = true) ∧ ∀ s ∈ part, ident s = ident r → before s w = false by
    obtain ⟨w, hw, hident, hle, hmin⟩ := key rows r hr
    exact ⟨w, mem_distinctOn.mpr ⟨hw, fun s hs hs' => hmin s hs (hs'.trans hident)⟩, hident, hle⟩
  have hasymm : ∀ {a b}, before a b = true → before b a = false := by
    intro a b hab
    by_contra hba
    have haa := h.trans a b a hab (by simpa using hba)
    rw [h.irrefl] at haa
    exact Bool.false_ne_true haa
  intro part
  induction part with
  | nil => intro r hr; cases hr
  | cons a part ih =>
    intro r hr
    rcases mem_cons.mp hr with rfl | hr
    · by_cases hex : ∃ s ∈ part, ident s = ident r ∧ before s r = true
      · obtain ⟨s, hs, hsident, hsr⟩ := hex
        obtain ⟨w, hw, hident, hle, hmin⟩ := ih s hs
        have hwr : before w r = true := by
          rcases hle with rfl | hle
          · exact hsr
          · exact h.trans w s r hle hsr
        refine ⟨w, mem_cons_of_mem _ hw, hident.trans hsident, Or.inr hwr, ?_⟩
        intro t ht htident
        rcases mem_cons.mp ht with rfl | ht
        · exact hasymm hwr
        · exact hmin t ht (htident.trans hsident.symm)
      · refine ⟨r, mem_cons_self, rfl, Or.inl rfl, ?_⟩
        intro t ht htident
        rcases mem_cons.mp ht with rfl | ht
        · exact h.irrefl t
        · by_contra hbefore
          exact hex ⟨t, ht, htident, by simpa using hbefore⟩
    · obtain ⟨w, hw, hident, hle, hmin⟩ := ih r hr
      by_cases haw : ident a = ident r ∧ before a w = true
      · obtain ⟨haident, haw⟩ := haw
        have har : before a r = true := by
          rcases hle with rfl | hle
          · exact haw
          · exact h.trans a w r haw hle
        refine ⟨a, mem_cons_self, haident, Or.inr har, ?_⟩
        intro t ht htident
        rcases mem_cons.mp ht with rfl | ht
        · exact h.irrefl t
        · by_contra hta
          have htw := h.trans t a w (by simpa using hta) haw
          rw [hmin t ht htident] at htw
          exact Bool.false_ne_true htw
      · refine ⟨w, mem_cons_of_mem _ hw, hident, hle, ?_⟩
        intro t ht htident
        rcases mem_cons.mp ht with rfl | ht
        · by_contra htw
          exact haw ⟨htident, by simpa using htw⟩
        · exact hmin t ht htident

variable {w : ρ}

/-- A group has one leader. -/
theorem leader_unique (h : Sorts before rows) {v : ρ} (hv : v ∈ distinctOn ident before rows)
    (hw : w ∈ distinctOn ident before rows) (hident : ident v = ident w) : v = w := by
  have hv' := mem_distinctOn.mp hv
  have hw' := mem_distinctOn.mp hw
  exact h.total v hv'.1 w hw'.1 (hw'.2 v hv'.1 hident) (hv'.2 w hw'.1 hident.symm)

variable {p : ρ → Bool}

/-- A leader that survives a restriction leads the restricted group. -/
theorem leader_of_restricted (hw : w ∈ distinctOn ident before rows) (hp : p w = true) :
    w ∈ distinctOn ident before (rows.filter p) := by
  have hw' := mem_distinctOn.mp hw
  refine mem_distinctOn.mpr ⟨mem_filter.mpr ⟨hw'.1, hp⟩, ?_⟩
  intro s hs hident
  exact hw'.2 s (mem_filter.mp hs).1 hident

/-- A leader of the restricted table leads its group exactly when the restriction
keeps the leader of that group. -/
theorem restricted_leader_leads_iff (h : Sorts before rows) {u : ρ}
    (hu : u ∈ distinctOn ident before (rows.filter p)) :
    u ∈ distinctOn ident before rows ↔
      ∀ w ∈ distinctOn ident before rows, ident w = ident u → p w = true := by
  have humem := mem_filter.mp (distinctOn_subset hu)
  constructor
  · intro hlead w hw hident
    rw [leader_unique h hw hlead hident]
    exact humem.2
  · intro hkeep
    obtain ⟨w, hw, hident, _⟩ := exists_leader ident h humem.1
    have hpart : Sorts before (rows.filter p) := h.of_subset fun r hr => (mem_filter.mp hr).1
    have hwu := leader_unique hpart (leader_of_restricted hw (hkeep w hw hident)) hu hident
    rwa [← hwu]

/-! ## Presented leaders

A query presents each leader by a partial function; the presented rows carry a name that
identifies the row they come from.
-/

section Presented

variable {τ ν : Type*} {emit : ρ → Option τ} {name : τ → ν}

/-- A name identifies the row of the table that is presented under it. -/
def Names (emit : ρ → Option τ) (name : τ → ν) (rows : List ρ) : Prop :=
  ∀ r ∈ rows, ∀ s ∈ rows, ∀ a b, emit r = some a → emit s = some b → name a = name b → r = s

/-- A row presented by the restricted query and by the whole query has one source. -/
theorem Names.source (h : Names emit name rows) {u : ρ} {a : τ}
    (hu : u ∈ distinctOn ident before (rows.filter p)) (hw : w ∈ distinctOn ident before rows)
    (hua : emit u = some a) (hwa : emit w = some a) : u = w :=
  h u (mem_filter.mp (distinctOn_subset hu)).1 w (distinctOn_subset hw) a a hua hwa rfl

/-- The restricted query presents only rows of the whole query exactly when the
restriction keeps the leader of every group it presents. -/
theorem presented_sound_iff (hsort : Sorts before rows) (hnames : Names emit name rows) :
    (∀ a, (∃ u ∈ distinctOn ident before (rows.filter p), emit u = some a) →
        ∃ w ∈ distinctOn ident before rows, emit w = some a) ↔
      ∀ u ∈ distinctOn ident before (rows.filter p), (emit u).isSome →
        ∀ w ∈ distinctOn ident before rows, ident w = ident u → p w = true := by
  constructor
  · intro h u hu hsome
    obtain ⟨a, ha⟩ := Option.isSome_iff_exists.mp hsome
    obtain ⟨w, hw, hwa⟩ := h a ⟨u, hu, ha⟩
    obtain rfl := hnames.source hu hw ha hwa
    exact (restricted_leader_leads_iff hsort hu).mp hw
  · rintro h a ⟨u, hu, ha⟩
    exact ⟨u, (restricted_leader_leads_iff hsort hu).mpr (h u hu (by simp [ha])), ha⟩

/-- A presented leader is presented by the restricted query exactly when it is kept. -/
theorem presented_restricted_iff (hnames : Names emit name rows) {a : τ}
    (hw : w ∈ distinctOn ident before rows) (ha : emit w = some a) :
    (∃ u ∈ distinctOn ident before (rows.filter p), emit u = some a) ↔ p w = true := by
  constructor
  · rintro ⟨u, hu, hua⟩
    obtain rfl := hnames.source hu hw hua ha
    exact (mem_filter.mp (distinctOn_subset hu)).2
  · intro hp
    exact ⟨w, leader_of_restricted hw hp, ha⟩

end Presented

end DistinctOn
