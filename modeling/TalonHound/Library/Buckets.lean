import Mathlib.Data.List.Sort

/-!
# Writing sorted rows bucket by bucket

A stream of rows sorted by a bucket key is written one bucket at a time: the first row of a
bucket opens it, further rows are added, and the next key, or the end of the stream, closes
it. Adding may fail. The results say what the closed buckets give and when nothing fails.
-/

namespace Buckets

open List

variable {ρ κ γ : Type*} [LinearOrder κ]

universe u v

variable {ε : Type u} {σ : Type v}

section Writing

variable (key : ρ → κ) (start : κ → σ) (add : σ → ρ → Except ε σ) (close : κ → σ → List γ)

/-- The bucket that is open, and what the closed ones gave. -/
structure Writing (κ : Type*) (σ : Type v) (γ : Type*) where
  current : Option (κ × σ)
  done : List γ

/-- What the open bucket gives when it is closed now. -/
def Writing.flush (w : Writing κ σ γ) : List γ :=
  match w.current with
  | none => w.done
  | some (k, s) => w.done ++ close k s

/-- The open bucket and the closed ones after one more row. -/
def Writing.push (w : Writing κ σ γ) (r : ρ) : Except ε (κ × σ × List γ) :=
  match w.current with
  | some (k, s) =>
    if k = key r then (add s r).map fun s' => (k, s', w.done)
    else (add (start (key r)) r).map fun s' => (key r, s', w.done ++ close k s)
  | none => (add (start (key r)) r).map fun s' => (key r, s', w.done)

/-- The state after some rows, or the first failure. -/
def writing : Writing κ σ γ → List ρ → Except ε (Writing κ σ γ)
  | w, [] => .ok w
  | w, r :: rest =>
    match w.push key start add close r with
    | .error e => .error e
    | .ok (k, s, done) => writing ⟨some (k, s), done⟩ rest

/-- Write all rows and close the last bucket. -/
def writeBuckets (rows : List ρ) : Except ε (List γ) :=
  match writing key start add close ⟨none, []⟩ rows with
  | .error e => .error e
  | .ok w => .ok (w.flush close)

/-- The slots of a bucket after some rows. -/
def fill : σ → List ρ → Except ε σ
  | s, [] => .ok s
  | s, r :: rest =>
    match add s r with
    | .error e => .error e
    | .ok s' => fill s' rest

end Writing

variable {key : ρ → κ} {start : κ → σ} {add : σ → ρ → Except ε σ} {close : κ → σ → List γ}

/-- The rows of a bucket. -/
def bucket (key : ρ → κ) (rows : List ρ) (k : κ) : List ρ := rows.filter fun r => decide (key r = k)

theorem mem_bucket {rows : List ρ} {k : κ} {r : ρ} : r ∈ bucket key rows k ↔ r ∈ rows ∧ key r = k := by
  simp [bucket]

theorem bucket_cons_of_ne {rows : List ρ} {k : κ} {r : ρ} (hne : k ≠ key r) :
    bucket key (r :: rows) k = bucket key rows k :=
  filter_cons_of_neg (by simpa using hne.symm)

/-- Every row to come has a larger key, so the open bucket is complete. -/
theorem bucket_eq_nil_of_lt {rows : List ρ} {k : κ} {r : ρ} (hsorted : ∀ a ∈ rows, key r ≤ key a)
    (hlt : k < key r) : bucket key (r :: rows) k = [] := by
  refine filter_eq_nil_iff.mpr fun a ha => ?_
  have hle : key r ≤ key a := by
    rcases mem_cons.mp ha with rfl | ha
    · exact le_refl _
    · exact hsorted a ha
  simpa using (lt_of_lt_of_le hlt hle).ne'

/-- Adding the first row of a bucket. -/
theorem fill_bucket_cons {rows : List ρ} {r : ρ} {s s' : σ} (hadd : add s r = .ok s') :
    fill add s (bucket key (r :: rows) (key r)) = fill add s' (bucket key rows (key r)) := by
  simp [bucket, fill, hadd]

omit [LinearOrder κ] in
/-- The keys of a stream other than that of its first row are keys of the rest. -/
theorem mem_keys_of_ne {rows : List ρ} {k : κ} {r : ρ} (hk : k ∈ (r :: rows).map key)
    (hne : k ≠ key r) : k ∈ rows.map key :=
  (mem_cons.mp hk).resolve_left hne

/-- The open bucket with the rows still to come, and the later buckets, are what the rest of a
sorted stream writes. -/
theorem mem_flush_writing {rows : List ρ} {k : κ} {s : σ} {done : List γ} {w : Writing κ σ γ}
    (hsorted : rows.Pairwise fun a b => key a ≤ key b) (hfirst : ∀ r ∈ rows, k ≤ key r)
    (hok : writing key start add close ⟨some (k, s), done⟩ rows = .ok w) {c : γ} :
    c ∈ w.flush close ↔ c ∈ done ∨
      (∃ s', fill add s (bucket key rows k) = .ok s' ∧ c ∈ close k s') ∨
      ∃ k' ∈ rows.map key, k' ≠ k ∧ ∃ s', fill add (start k') (bucket key rows k') = .ok s' ∧
        c ∈ close k' s' := by
  induction rows generalizing k s done with
  | nil =>
    obtain rfl := Except.ok.inj hok
    simp [Writing.flush, bucket, fill]
  | cons r rest ih =>
    rw [pairwise_cons] at hsorted
    have hrest : ∀ a ∈ rest, k ≤ key a := fun a ha => hfirst a (.tail _ ha)
    by_cases hkey : k = key r
    · subst hkey
      cases hadd : add s r with
      | error e => simp [writing, Writing.push, hadd, Except.map] at hok
      | ok s₁ =>
        simp only [writing, Writing.push, if_true, hadd, Except.map] at hok
        rw [ih hsorted.2 hrest hok]
        rw [fill_bucket_cons hadd]
        refine or_congr_right (or_congr_right ?_)
        constructor
        · rintro ⟨k', hk', hne, hclose⟩
          exact ⟨k', mem_cons_of_mem _ hk', hne, by rwa [bucket_cons_of_ne hne]⟩
        · rintro ⟨k', hk', hne, hclose⟩
          exact ⟨k', mem_keys_of_ne hk' hne, hne, by rwa [bucket_cons_of_ne hne] at hclose⟩
    · have hlt : k < key r := lt_of_le_of_ne (hfirst r mem_cons_self) hkey
      cases hadd : add (start (key r)) r with
      | error e => simp [writing, Writing.push, hkey, hadd, Except.map] at hok
      | ok s₁ =>
        simp only [writing, Writing.push, if_neg hkey, hadd, Except.map] at hok
        rw [ih hsorted.2 hsorted.1 hok]
        rw [bucket_eq_nil_of_lt hsorted.1 hlt, mem_append, or_assoc]
        refine or_congr_right ?_
        constructor
        · rintro (hc | ⟨s', hfill, hc⟩ | ⟨k', hk', hne, hclose⟩)
          · exact Or.inl ⟨s, rfl, hc⟩
          · exact Or.inr ⟨key r, mem_cons_self, hkey ∘ Eq.symm, s', by rwa [fill_bucket_cons hadd], hc⟩
          · refine Or.inr ⟨k', mem_cons_of_mem _ hk', ?_, by rwa [bucket_cons_of_ne hne]⟩
            obtain ⟨a, ha, rfl⟩ := mem_map.mp hk'
            exact (lt_of_lt_of_le hlt (hsorted.1 a ha)).ne'
        · rintro (⟨s', hfill, hc⟩ | ⟨k', hk', hne, hclose⟩)
          · obtain rfl := Except.ok.inj hfill
            exact Or.inl hc
          · by_cases hsame : k' = key r
            · subst hsame
              rw [fill_bucket_cons hadd] at hclose
              exact Or.inr (Or.inl hclose)
            · exact Or.inr (Or.inr ⟨k', mem_keys_of_ne hk' hsame, hsame,
                by rwa [bucket_cons_of_ne hsame] at hclose⟩)

/-- Of a sorted stream, every bucket with a row is filled with its rows and closed. -/
theorem mem_writeBuckets {rows : List ρ} {out : List γ}
    (hsorted : rows.Pairwise fun a b => key a ≤ key b)
    (hok : writeBuckets key start add close rows = .ok out) {c : γ} :
    c ∈ out ↔ ∃ k ∈ rows.map key, ∃ s, fill add (start k) (bucket key rows k) = .ok s ∧
      c ∈ close k s := by
  cases rows with
  | nil =>
    obtain rfl := Except.ok.inj hok
    simp [Writing.flush]
  | cons r rest =>
    rw [pairwise_cons] at hsorted
    cases hadd : add (start (key r)) r with
    | error e => simp [writeBuckets, writing, Writing.push, hadd, Except.map] at hok
    | ok s₁ =>
      simp only [writeBuckets, writing, Writing.push, hadd, Except.map] at hok
      split at hok
      · cases hok
      · next w hwriting =>
        obtain rfl := Except.ok.inj hok
        rw [mem_flush_writing hsorted.2 hsorted.1 hwriting]
        constructor
        · rintro (hc | hclose | ⟨k', hk', hne, hclose⟩)
          · cases hc
          · exact ⟨key r, mem_cons_self, by rwa [fill_bucket_cons hadd]⟩
          · exact ⟨k', mem_cons_of_mem _ hk', by rwa [bucket_cons_of_ne hne]⟩
        · rintro ⟨k', hk', hclose⟩
          by_cases hsame : k' = key r
          · subst hsame
            rw [fill_bucket_cons hadd] at hclose
            exact Or.inr (Or.inl hclose)
          · exact Or.inr (Or.inr ⟨k', mem_keys_of_ne hk' hsame, hsame,
              by rwa [bucket_cons_of_ne hsame] at hclose⟩)

variable (good : σ → Prop) {rows : List ρ}

section

variable (hstart : ∀ k, good (start k))
  (hadd : ∀ r ∈ rows, ∀ s, good s → ∃ s', add s r = .ok s' ∧ good s')
include hstart hadd

/-- Rows that can be added to every good state are all written. -/
theorem writing_isOk {w : Writing κ σ γ} (hw : ∀ k s, w.current = some (k, s) → good s) :
    ∃ w', writing key start add close w rows = .ok w' := by
  induction rows generalizing w with
  | nil => exact ⟨w, rfl⟩
  | cons r rest ih =>
    have hrest := fun a ha => hadd a (mem_cons_of_mem r ha)
    have hnext : ∀ k s done, good s →
        ∃ w', writing key start add close ⟨some (k, s), done⟩ rest = .ok w' := by
      intro k s done hs
      refine ih hrest fun k' s' hcurrent => ?_
      obtain ⟨rfl, rfl⟩ := Prod.mk.inj (Option.some.inj hcurrent)
      exact hs
    obtain ⟨s₁, hs₁, hgood₁⟩ := hadd r mem_cons_self _ (hstart (key r))
    cases hcurrent : w.current with
    | none =>
      simp only [writing, Writing.push, hcurrent, hs₁, Except.map]
      exact hnext _ _ _ hgood₁
    | some open_ =>
      obtain ⟨k, s⟩ := open_
      by_cases hkey : k = key r
      · obtain ⟨s₂, hs₂, hgood₂⟩ := hadd r mem_cons_self _ (hw k s hcurrent)
        simp only [writing, Writing.push, hcurrent, if_pos hkey, hs₂, Except.map]
        exact hnext _ _ _ hgood₂
      · simp only [writing, Writing.push, hcurrent, if_neg hkey, hs₁, Except.map]
        exact hnext _ _ _ hgood₁

/-- A stream whose rows can be added to every good state is written. -/
theorem writeBuckets_isOk :
    ∃ out : List γ, writeBuckets key start add close rows = .ok out := by
  have hwriting : ∃ w, writing key start add close ⟨none, []⟩ rows = .ok w :=
    writing_isOk good hstart hadd fun k s h => by cases h
  obtain ⟨w, hw⟩ := hwriting
  exact ⟨_, by rw [writeBuckets, hw]⟩

end

/-- A sorted stream that was written filled the open bucket and every later one. -/
theorem exists_fill_of_writing {k : κ} {s : σ} {done : List γ} {w : Writing κ σ γ}
    (hsorted : rows.Pairwise fun a b => key a ≤ key b) (hfirst : ∀ r ∈ rows, k ≤ key r)
    (hok : writing key start add close ⟨some (k, s), done⟩ rows = .ok w) :
    (∃ s', fill add s (bucket key rows k) = .ok s') ∧
      ∀ k' ∈ rows.map key, k' ≠ k → ∃ s', fill add (start k') (bucket key rows k') = .ok s' := by
  induction rows generalizing k s done with
  | nil => exact ⟨⟨s, rfl⟩, fun k' hk' => absurd hk' not_mem_nil⟩
  | cons r rest ih =>
    rw [pairwise_cons] at hsorted
    have hrest : ∀ a ∈ rest, k ≤ key a := fun a ha => hfirst a (.tail _ ha)
    by_cases hkey : k = key r
    · subst hkey
      cases hadd : add s r with
      | error e => simp [writing, Writing.push, hadd, Except.map] at hok
      | ok s₁ =>
        simp only [writing, Writing.push, if_true, hadd, Except.map] at hok
        obtain ⟨hopen, hlater⟩ := ih hsorted.2 hrest hok
        refine ⟨by rwa [fill_bucket_cons hadd], fun k' hk' hne => ?_⟩
        rw [bucket_cons_of_ne hne]
        exact hlater k' (mem_keys_of_ne hk' hne) hne
    · have hlt : k < key r := lt_of_le_of_ne (hfirst r mem_cons_self) hkey
      cases hadd : add (start (key r)) r with
      | error e => simp [writing, Writing.push, hkey, hadd, Except.map] at hok
      | ok s₁ =>
        simp only [writing, Writing.push, if_neg hkey, hadd, Except.map] at hok
        obtain ⟨hopen, hlater⟩ := ih hsorted.2 hsorted.1 hok
        constructor
        · rw [bucket_eq_nil_of_lt hsorted.1 hlt]
          exact ⟨s, rfl⟩
        · intro k' hk' hne
          by_cases hsame : k' = key r
          · subst hsame
            rwa [fill_bucket_cons hadd]
          · rw [bucket_cons_of_ne hsame]
            exact hlater k' (mem_keys_of_ne hk' hsame) hsame

/-- A sorted stream that was written filled the bucket of each of its keys. -/
theorem exists_fill_of_writeBuckets {out : List γ}
    (hsorted : rows.Pairwise fun a b => key a ≤ key b)
    (hok : writeBuckets key start add close rows = .ok out) {k : κ} (hk : k ∈ rows.map key) :
    ∃ s, fill add (start k) (bucket key rows k) = .ok s := by
  cases rows with
  | nil => cases hk
  | cons r rest =>
    rw [pairwise_cons] at hsorted
    cases hadd : add (start (key r)) r with
    | error e => simp [writeBuckets, writing, Writing.push, hadd, Except.map] at hok
    | ok s₁ =>
      simp only [writeBuckets, writing, Writing.push, hadd, Except.map] at hok
      split at hok
      · cases hok
      · next w hwriting =>
        obtain ⟨hopen, hlater⟩ := exists_fill_of_writing hsorted.2 hsorted.1 hwriting
        by_cases hsame : k = key r
        · subst hsame
          rwa [fill_bucket_cons hadd]
        · rw [bucket_cons_of_ne hsame]
          exact hlater k (mem_keys_of_ne hk hsame) hsame

end Buckets
