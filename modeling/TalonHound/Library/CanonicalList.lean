import Mathlib.Data.List.Sort
import TalonHound.Library.InsertionMap

/-!
# Lists that do not depend on the order of their input

Entries go into a map by their key, and its values are sorted by a rank, where entries of one rank stay
in the order of the map. The list does not depend on the order of the input exactly if entries that
share their key or their rank are equal.
-/

namespace CanonicalList

open InsertionMap (ofList)
open List

variable {τ κ γ : Type*} {key : τ → κ} {inputs inputs' rows rows' : List τ} {p q r : τ}

/-- A list of entries of the input, one for each key. -/
structure IsMap (key : τ → κ) (inputs rows : List τ) : Prop where
  nodup : (rows.map key).Nodup
  mem : ∀ r ∈ rows, r ∈ inputs
  covers : ∀ r ∈ inputs, key r ∈ rows.map key

/-- Entries under one key are equal. -/
def KeysAgree (key : τ → κ) (inputs : List τ) : Prop :=
  ∀ r ∈ inputs, ∀ r' ∈ inputs, key r = key r' → r = r'

/-- Where entries of one key agree, a map holds exactly the entries of its input. -/
theorem IsMap.mem_iff (h : IsMap key inputs rows) (hagree : KeysAgree key inputs) :
    r ∈ rows ↔ r ∈ inputs := by
  refine ⟨h.mem r, fun hr => ?_⟩
  obtain ⟨s, hs, hsame⟩ := mem_map.mp (h.covers r hr)
  rwa [hagree s (h.mem s hs) r hr hsame] at hs

theorem KeysAgree.perm (h : KeysAgree key inputs) (hperm : inputs'.Perm inputs) : KeysAgree key inputs' :=
  fun r hr r' hr' => h r (hperm.subset hr) r' (hperm.subset hr')

theorem IsMap.perm (h : IsMap key inputs rows) (h' : IsMap key inputs' rows')
    (hagree : KeysAgree key inputs) (hperm : inputs'.Perm inputs) : rows'.Perm rows := by
  refine (perm_ext_iff_of_nodup h'.nodup.of_map h.nodup.of_map).mpr fun r => ?_
  rw [h'.mem_iff (hagree.perm hperm), h.mem_iff hagree]
  exact hperm.mem_iff

variable [DecidableEq κ]

/-- Set an entry, unless its key is there. -/
def keepFirst (key : τ → κ) (rows : List τ) (r : τ) : List τ :=
  if key r ∈ rows.map key then rows else rows ++ [r]

/-- The map that keeps the first entry of each key. -/
def firstOfList (key : τ → κ) (inputs : List τ) : List τ := inputs.foldl (keepFirst key) []

theorem isMap_ofList (key : τ → κ) (inputs : List τ) : IsMap key inputs (ofList key inputs) where
  nodup := InsertionMap.nodup_ofList key inputs
  mem := fun _ hr => InsertionMap.mem_of_mem_ofList hr
  covers := fun _ hr => InsertionMap.mem_map_key_ofList.mpr (mem_map_of_mem hr)

theorem isMap_firstOfList (key : τ → κ) (inputs : List τ) : IsMap key inputs (firstOfList key inputs) := by
  have hfold : ∀ (before rest : List τ), IsMap key before (firstOfList key before) →
      IsMap key (before ++ rest) (rest.foldl (keepFirst key) (firstOfList key before)) := by
    intro before rest
    induction rest generalizing before with
    | nil => simp
    | cons r rest ih =>
      intro h
      have hstep : IsMap key (before ++ [r]) (keepFirst key (firstOfList key before) r) := by
        unfold keepFirst
        split
        · next hold =>
          refine ⟨h.nodup, fun s hs => mem_append_left _ (h.mem s hs), fun s hs => ?_⟩
          rcases mem_append.mp hs with hs | hs
          · exact h.covers s hs
          · rw [mem_singleton.mp hs]
            exact hold
        · next hnew =>
          refine ⟨?_, fun s hs => ?_, fun s hs => ?_⟩
          · rw [map_append, nodup_append]
            refine ⟨h.nodup, nodup_singleton _, ?_⟩
            rintro a ha b hb rfl
            exact hnew (mem_singleton.mp hb ▸ ha)
          · rcases mem_append.mp hs with hs | hs
            · exact mem_append_left _ (h.mem s hs)
            · exact mem_append_right _ hs
          · rw [map_append, mem_append]
            rcases mem_append.mp hs with hs | hs
            · exact .inl (h.covers s hs)
            · exact .inr (mem_map_of_mem hs)
      have hfirst : firstOfList key (before ++ [r]) = keepFirst key (firstOfList key before) r := by
        simp [firstOfList]
      have hnext := ih (before ++ [r]) (by rw [hfirst]; exact hstep)
      rw [hfirst, append_assoc] at hnext
      exact hnext
  have hempty : IsMap key ([] : List τ) (firstOfList key []) :=
    ⟨nodup_nil, fun _ h => (nomatch h), fun _ h => (nomatch h)⟩
  have hall := hfold [] inputs hempty
  rwa [nil_append] at hall

/-- Where entries of one key agree, setting an entry again changes nothing. -/
theorem set_eq_keepFirst (hagree : ∀ s ∈ rows, key s = key r → s = r) :
    InsertionMap.set key rows r = keepFirst key rows r := by
  unfold InsertionMap.set keepFirst
  split
  · conv_rhs => rw [← map_id rows]
    refine map_congr_left fun s hs => ?_
    split
    · next hsame => exact (hagree s hs hsame).symm
    · rfl
  · rfl

theorem ofList_eq_firstOfList (hagree : KeysAgree key inputs) : ofList key inputs = firstOfList key inputs := by
  have hfold : ∀ (rest rows : List τ), (∀ r ∈ rows, r ∈ inputs) → (∀ r ∈ rest, r ∈ inputs) →
      rest.foldl (InsertionMap.set key) rows = rest.foldl (keepFirst key) rows := by
    intro rest
    induction rest with
    | nil => exact fun _ _ _ => rfl
    | cons r rest ih =>
      intro rows hrows hrest
      have hr := hrest r mem_cons_self
      rw [foldl_cons, foldl_cons,
        set_eq_keepFirst fun s hs hsame => hagree s (hrows s hs) r hr hsame]
      refine ih _ (fun s hs => ?_) fun s hs => hrest s (.tail _ hs)
      unfold keepFirst at hs
      split at hs
      · exact hrows s hs
      · rcases mem_append.mp hs with hs | hs
        · exact hrows s hs
        · rw [mem_singleton.mp hs]
          exact hr
  exact hfold inputs [] (fun _ h => nomatch h) fun _ h => h

/-- What is added to a map depends on its keys alone. -/
theorem foldl_keepFirst_eq (key : τ → κ) (rest rows rows' : List τ) (hkeys : ∀ k, k ∈ rows.map key ↔ k ∈ rows'.map key) :
    ∃ added, rest.foldl (keepFirst key) rows = rows ++ added ∧
      rest.foldl (keepFirst key) rows' = rows' ++ added := by
  induction rest generalizing rows rows' with
  | nil => exact ⟨[], by simp, by simp⟩
  | cons r rest ih =>
    rw [foldl_cons, foldl_cons]
    by_cases hold : key r ∈ rows.map key
    · have hold' := (hkeys _).mp hold
      obtain ⟨added, hadded, hadded'⟩ := ih rows rows' hkeys
      exact ⟨added, by rw [keepFirst, if_pos hold, hadded], by rw [keepFirst, if_pos hold', hadded']⟩
    · have hold' : key r ∉ rows'.map key := fun h => hold ((hkeys _).mpr h)
      obtain ⟨added, hadded, hadded'⟩ := ih (rows ++ [r]) (rows' ++ [r]) fun k => by
        rw [map_append, map_append, mem_append, mem_append, hkeys]
      exact ⟨r :: added, by rw [keepFirst, if_neg hold, hadded]; simp,
        by rw [keepFirst, if_neg hold', hadded']; simp⟩

variable [LinearOrder γ] {rank : τ → γ}

/-- The entries in the order of their ranks; those of one rank stay as they are. -/
def sorted (rank : τ → γ) (rows : List τ) : List τ := rows.insertionSort fun a b => rank a ≤ rank b

theorem perm_sorted (rank : τ → γ) (rows : List τ) : (sorted rank rows).Perm rows :=
  perm_insertionSort _ _

theorem pairwise_sorted (rank : τ → γ) (rows : List τ) :
    (sorted rank rows).Pairwise fun a b => rank a ≤ rank b := by
  exact pairwise_insertionSort _ _

/-- Entries of different ranks have one order. -/
theorem sorted_eq_of_perm (hperm : rows'.Perm rows)
    (hranks : ∀ r ∈ rows, ∀ r' ∈ rows, rank r = rank r' → r = r') : sorted rank rows' = sorted rank rows := by
  have hboth : (sorted rank rows').Perm (sorted rank rows) :=
    ((perm_sorted rank rows').trans hperm).trans (perm_sorted rank rows).symm
  refine hboth.eq_of_pairwise (fun a b ha hb hab hba => ?_) (pairwise_sorted rank rows')
    (pairwise_sorted rank rows)
  exact hranks a (hperm.subset ((perm_sorted rank rows').subset ha)) b
    ((perm_sorted rank rows).subset hb) (le_antisymm hab hba)

/-- Two first entries of one rank keep their order. -/
theorem sorted_cons_cons (h : rank p = rank q) (rows : List τ) : ∃ low high,
    sorted rank (p :: q :: rows) = low ++ p :: q :: high ∧
      sorted rank (q :: p :: rows) = low ++ q :: p :: high := by
  have hinsert : ∀ (a b : τ) (l : List τ), rank a = rank b →
      (l.orderedInsert (fun a b => rank a ≤ rank b) b).orderedInsert (fun a b => rank a ≤ rank b) a =
        (l.takeWhile fun c => ¬rank a ≤ rank c) ++ a :: b :: l.dropWhile fun c => ¬rank a ≤ rank c := by
    intro a b l hab
    induction l with
    | nil => simp [hab]
    | cons c l ih =>
      by_cases hc : rank a ≤ rank c
      · have hbc : rank b ≤ rank c := hab ▸ hc
        simp [List.orderedInsert, hbc, hab]
      · have hbc : ¬rank b ≤ rank c := hab ▸ hc
        rw [orderedInsert_cons, if_neg hbc, orderedInsert_cons, if_neg hc, ih,
          takeWhile_cons_of_pos (by simpa using hc), dropWhile_cons_of_pos (by simpa using hc)]
        rfl
  refine ⟨_, _, hinsert p q (sorted rank rows) h, ?_⟩
  have hother := hinsert q p (sorted rank rows) h.symm
  rw [← h] at hother
  exact hother

/-- A way to build a map: it keeps one entry for each key, each entry of the input can be the one that
is kept, and where entries agree it keeps them in the order in which they come. -/
structure Builds (key : τ → κ) (build : List τ → List τ) : Prop where
  isMap : ∀ inputs, IsMap key inputs (build inputs)
  choice : ∀ inputs, ∀ r ∈ inputs, ∃ inputs', inputs'.Perm inputs ∧ r ∈ build inputs'
  inOrder : ∀ inputs, KeysAgree key inputs → build inputs = firstOfList key inputs

theorem builds_firstOfList (key : τ → κ) : Builds key (firstOfList key) where
  isMap := isMap_firstOfList key
  choice := by
    intro inputs r hr
    obtain ⟨front, rest, rfl⟩ := append_of_mem hr
    refine ⟨r :: (front ++ rest), perm_middle.symm, ?_⟩
    obtain ⟨added, hadded, -⟩ := foldl_keepFirst_eq key (front ++ rest) [r] [r] fun _ => Iff.rfl
    have hfirst : firstOfList key (r :: (front ++ rest)) = [r] ++ added := hadded
    rw [hfirst]
    exact mem_cons_self
  inOrder := fun _ _ => rfl

theorem builds_ofList (key : τ → κ) : Builds key (ofList key) where
  isMap := isMap_ofList key
  choice := by
    intro inputs r hr
    obtain ⟨front, rest, rfl⟩ := append_of_mem hr
    refine ⟨(front ++ rest) ++ [r], (perm_append_singleton r _).trans perm_middle.symm, ?_⟩
    have hlast : ofList key ((front ++ rest) ++ [r]) = InsertionMap.set key (ofList key (front ++ rest)) r := by
      simp [ofList]
    rw [hlast]
    unfold InsertionMap.set
    split
    · next hold =>
      obtain ⟨s, hs, hsame⟩ := mem_map.mp hold
      exact mem_map.mpr ⟨s, hs, if_pos hsame⟩
    · exact mem_append_right _ mem_cons_self
  inOrder := fun _ hagree => ofList_eq_firstOfList hagree

/-- The sorted values are the same for every order of the input exactly if entries that share their
key or their rank are equal. -/
theorem Builds.order_free_iff {build : List τ → List τ} (hbuild : Builds key build) (rank : τ → γ)
    (inputs : List τ) :
    (∀ inputs', inputs'.Perm inputs → sorted rank (build inputs') = sorted rank (build inputs)) ↔
      ∀ r ∈ inputs, ∀ r' ∈ inputs, key r = key r' ∨ rank r = rank r' → r = r' := by
  constructor
  · intro hfree
    have hagree : KeysAgree key inputs := by
      intro r hr r' hr' hsame
      obtain ⟨first, hfirst, hmem⟩ := hbuild.choice inputs r hr
      obtain ⟨second, hsecond, hmem'⟩ := hbuild.choice inputs r' hr'
      -- One list holds both entries, of one key.
      have heq := (hfree first hfirst).trans (hfree second hsecond).symm
      have hboth : r ∈ build second := by
        rw [← (perm_sorted rank (build second)).mem_iff, ← heq]
        exact (perm_sorted rank (build first)).mem_iff.mpr hmem
      exact inj_on_of_nodup_map (hbuild.isMap second).nodup hboth hmem' hsame
    intro r hr r' hr' hshare
    by_contra hne
    have hrank : rank r = rank r' := by
      rcases hshare with hkey | hrank
      · exact absurd (hagree r hr r' hr' hkey) hne
      · exact hrank
    have hkey : key r ≠ key r' := fun hkey => hne (hagree r hr r' hr' hkey)
    -- Both entries first, in either order.
    obtain ⟨rest, hrest⟩ : ∃ rest, (r :: r' :: rest).Perm inputs := by
      obtain ⟨front, tail, rfl⟩ := append_of_mem hr
      have hmem : r' ∈ front ++ tail := by
        rcases mem_append.mp hr' with h | h
        · exact mem_append_left _ h
        · rcases mem_cons.mp h with h | h
          · exact absurd h.symm hne
          · exact mem_append_right _ h
      obtain ⟨front', tail', heq⟩ := append_of_mem hmem
      refine ⟨front' ++ tail', ?_⟩
      have hsecond : (r' :: (front' ++ tail')).Perm (front ++ tail) := by
        rw [heq]
        exact perm_middle.symm
      exact (hsecond.cons r).trans perm_middle.symm
    have hswap : (r' :: r :: rest).Perm inputs := (List.Perm.swap r r' rest).trans hrest
    have heq := (hfree _ hrest).trans (hfree _ hswap).symm
    rw [hbuild.inOrder _ (hagree.perm hrest), hbuild.inOrder _ (hagree.perm hswap)] at heq
    obtain ⟨added, hadded, hadded'⟩ := foldl_keepFirst_eq key rest [r, r'] [r', r] fun k => by
      simp [or_comm]
    have hfirst : firstOfList key (r :: r' :: rest) = r :: r' :: added := by
      have hstart : firstOfList key (r :: r' :: rest) = rest.foldl (keepFirst key) [r, r'] := by
        simp [firstOfList, keepFirst, hkey.symm]
      rw [hstart, hadded]
      rfl
    have hsecond : firstOfList key (r' :: r :: rest) = r' :: r :: added := by
      have hstart : firstOfList key (r' :: r :: rest) = rest.foldl (keepFirst key) [r', r] := by
        simp [firstOfList, keepFirst, hkey]
      rw [hstart, hadded']
      rfl
    rw [hfirst, hsecond] at heq
    obtain ⟨low, high, hlow, hlow'⟩ := sorted_cons_cons hrank added
    rw [hlow, hlow'] at heq
    exact hne (List.cons.inj (append_cancel_left heq)).1
  · intro hequal inputs' hperm
    have hagree : KeysAgree key inputs := fun r hr r' hr' hkey => hequal r hr r' hr' (.inl hkey)
    refine sorted_eq_of_perm ((hbuild.isMap inputs).perm (hbuild.isMap inputs') hagree hperm)
      fun r hr r' hr' hrank => ?_
    exact hequal r ((hbuild.isMap inputs).mem r hr) r' ((hbuild.isMap inputs).mem r' hr') (.inr hrank)

/-- Every order of what a list is mapped to comes from an order of the list. -/
theorem exists_perm_filterMap {σ : Type*} {f : σ → Option τ} {l : List σ} {l' : List τ}
    (h : l'.Perm (l.filterMap f)) : ∃ l'' : List σ, l''.Perm l ∧ l''.filterMap f = l' := by
  induction l' generalizing l with
  | nil => exact ⟨l, List.Perm.refl l, h.symm.eq_nil⟩
  | cons a l' ih =>
    obtain ⟨x, hx, hfx⟩ := mem_filterMap.mp (h.subset mem_cons_self)
    obtain ⟨front, tail, rfl⟩ := append_of_mem hx
    have hrest : l'.Perm ((front ++ tail).filterMap f) := by
      rw [filterMap_append, filterMap_cons_some hfx] at h
      rw [filterMap_append]
      exact (h.trans perm_middle).cons_inv
    obtain ⟨rows, hrows, heq⟩ := ih hrest
    exact ⟨x :: rows, (hrows.cons x).trans perm_middle.symm, by
      rw [filterMap_cons_some hfx, heq]⟩

/-- The list that is built from what a list is mapped to. -/
theorem Builds.order_free_filterMap_iff {σ : Type*} {build : List τ → List τ} (hbuild : Builds key build)
    (rank : τ → γ) (f : σ → Option τ) (l : List σ) :
    (∀ l' : List σ, l'.Perm l → sorted rank (build (l'.filterMap f)) = sorted rank (build (l.filterMap f))) ↔
      ∀ r ∈ l.filterMap f, ∀ r' ∈ l.filterMap f, key r = key r' ∨ rank r = rank r' → r = r' := by
  rw [← hbuild.order_free_iff rank]
  constructor
  · intro hfree inputs' hperm
    obtain ⟨l', hl', rfl⟩ := exists_perm_filterMap hperm
    exact hfree l' hl'
  · intro hfree l' hl'
    exact hfree _ (hl'.filterMap f)

end CanonicalList
