import Mathlib.Logic.Relation
import TalonHound.Library.Run

/-!
# Components of a family of blocks

Elements are grouped by a partial equivalence. Uniting a block puts its elements, and every
group that it meets, into one group. Whatever the order in which blocks are united, two
elements end in one group exactly when a chain of shared groups and shared blocks connects
them.
-/

open Relation (TransGen)

namespace Components

variable {α : Type*}

/-- The elements that one block brings together. -/
def Touched (same : α → α → Prop) (block : Set α) (a : α) : Prop :=
  a ∈ block ∨ ∃ b ∈ block, same b a

/-- The groups after the block was united: one for everything that it touches, and the old ones
elsewhere. -/
def United (same same' : α → α → Prop) (block : Set α) : Prop :=
  ∀ a b, same' a b ↔ Touched same block a ∧ Touched same block b ∨ ¬ Touched same block a ∧ same a b

/-- One step between elements: a shared group, or a shared block. -/
def Linked (same : α → α → Prop) (blocks : Set (Set α)) (a b : α) : Prop :=
  same a b ∨ ∃ block ∈ blocks, a ∈ block ∧ b ∈ block

variable {same same' : α → α → Prop} {block : Set α} {blocks : Set (Set α)} {a b : α}

section

variable (htrans : ∀ a b c, same a b → same b c → same a c) (hsymm : ∀ a b, same a b → same b a)
include htrans hsymm

/-- Elements of one group are touched together. -/
theorem touched_iff (h : same a b) :
    Touched same block a ↔ Touched same block b := by
  have hone : ∀ a b, same a b → Touched same block a → Touched same block b := by
    intro a b hab ha
    rcases ha with hmem | ⟨d, hd, hda⟩
    · exact .inr ⟨a, hmem, hab⟩
    · exact .inr ⟨d, hd, htrans d a b hda hab⟩
  exact ⟨hone a b h, hone b a (hsymm a b h)⟩

/-- Uniting a block connects through the old groups and the block. -/
theorem United.iff_transGen (h : United same same' block) :
    same' a b ↔ TransGen (Linked same {block}) a b := by
  have hblock : ∀ {a b}, a ∈ block → b ∈ block → Linked same {block} a b := fun ha hb =>
    .inr ⟨block, rfl, ha, hb⟩
  constructor
  · intro hab
    rcases (h a b).mp hab with ⟨ha, hb⟩ | ⟨-, hold⟩
    · -- from `a` into the block, and out of it to `b`
      obtain ⟨d, hd, had⟩ : ∃ d ∈ block, TransGen (Linked same {block}) a d := by
        rcases ha with hmem | ⟨d, hd, hda⟩
        · exact ⟨a, hmem, .single (hblock hmem hmem)⟩
        · exact ⟨d, hd, .single (.inl (hsymm d a hda))⟩
      rcases hb with hmem | ⟨e, he, heb⟩
      · exact had.tail (hblock hd hmem)
      · exact (had.tail (hblock hd he)).tail (.inl heb)
    · exact .single (.inl hold)
  · have hstep : ∀ {a b}, Linked same {block} a b → same' a b := by
      rintro a b (hold | ⟨_, rfl, ha, hb⟩)
      · by_cases ha : Touched same block a
        · exact (h a b).mpr (.inl ⟨ha, (touched_iff htrans hsymm hold).mp ha⟩)
        · exact (h a b).mpr (.inr ⟨ha, hold⟩)
      · exact (h a b).mpr (.inl ⟨.inl ha, .inl hb⟩)
    have htrans' : ∀ {a b c}, same' a b → same' b c → same' a c := by
      intro a b c hab hbc
      rcases (h a b).mp hab with ⟨ha, hb⟩ | ⟨ha, hold⟩
      · rcases (h b c).mp hbc with ⟨-, hc⟩ | ⟨hb', -⟩
        · exact (h a c).mpr (.inl ⟨ha, hc⟩)
        · exact absurd hb hb'
      · rcases (h b c).mp hbc with ⟨hb, -⟩ | ⟨-, hold'⟩
        · exact absurd ((touched_iff htrans hsymm hold).mpr hb) ha
        · exact (h a c).mpr (.inr ⟨ha, htrans a b c hold hold'⟩)
    intro hab
    induction hab with
    | single hab => exact hstep hab
    | tail _ hbc ih => exact htrans' ih (hstep hbc)

end

/-- Connecting through groups that were connected through blocks before. -/
theorem transGen_linked_transGen {more : Set (Set α)} :
    TransGen (Linked (TransGen (Linked same blocks)) more) a b ↔
      TransGen (Linked same (blocks ∪ more)) a b := by
  have hmono : ∀ a b, Linked same blocks a b → Linked same (blocks ∪ more) a b := by
    rintro a b (h | ⟨d, hd, ha, hb⟩)
    · exact .inl h
    · exact .inr ⟨d, .inl hd, ha, hb⟩
  constructor
  · intro h
    induction h with
    | single h =>
      rcases h with h | ⟨d, hd, ha, hb⟩
      · exact TransGen.mono hmono _ _ h
      · exact .single (.inr ⟨d, .inr hd, ha, hb⟩)
    | tail _ h ih =>
      rcases h with h | ⟨d, hd, ha, hb⟩
      · exact ih.trans (TransGen.mono hmono _ _ h)
      · exact ih.tail (.inr ⟨d, .inr hd, ha, hb⟩)
  · apply TransGen.mono
    rintro a b (h | ⟨d, hd | hd, ha, hb⟩)
    · exact .inl (.single (.inl h))
    · exact .inl (.single (.inr ⟨d, hd, ha, hb⟩))
    · exact .inr ⟨d, hd, ha, hb⟩

/-- A run whose steps each unite a block ends with the components of the groups that it started
from and of its blocks. -/
theorem run_iff_transGen {σ ι : Type*} {step : σ → ι → Option σ} {guard : σ → ι → Prop}
    {same : σ → α → α → Prop} {block : ι → Set α}
    (htrans : ∀ s a b c, same s a b → same s b c → same s a c)
    (hsymm : ∀ s a b, same s a b → same s b a)
    (hstep : ∀ s i s', guard s i → step s i = some s' → United (same s) (same s') (block i))
    {s s' : σ} {actions : List ι} (hrun : Run step guard s actions s') :
    ∀ a b, same s' a b ↔ TransGen (Linked (same s) {d | ∃ i ∈ actions, block i = d}) a b := by
  induction hrun with
  | nil s =>
    intro a b
    constructor
    · exact fun h => .single (.inl h)
    · intro h
      have hlinked : ∀ {a b}, Linked (same s) {d | ∃ i ∈ [], block i = d} a b → same s a b := by
        rintro a b (h | ⟨_, ⟨i, hi, -⟩, -⟩)
        · exact h
        · cases hi
      induction h with
      | single h => exact hlinked h
      | tail _ h ih => exact htrans s _ _ _ ih (hlinked h)
  | @cons s s₁ s₂ i actions hguard hnext _ ih =>
    intro a b
    have hunited : same s₁ = TransGen (Linked (same s) {block i}) := by
      funext a b
      exact propext ((hstep s i s₁ hguard hnext).iff_transGen (htrans s) (hsymm s))
    have hblocks : {d | ∃ j ∈ i :: actions, block j = d} =
        {block i} ∪ {d | ∃ j ∈ actions, block j = d} := by
      ext d
      constructor
      · rintro ⟨j, hj, rfl⟩
        rcases List.mem_cons.mp hj with rfl | hj
        · exact .inl rfl
        · exact .inr ⟨j, hj, rfl⟩
      · rintro (rfl | ⟨j, hj, rfl⟩)
        · exact ⟨i, List.mem_cons_self .., rfl⟩
        · exact ⟨j, List.mem_cons_of_mem _ hj, rfl⟩
    rw [ih, hunited, transGen_linked_transGen, hblocks]

end Components
