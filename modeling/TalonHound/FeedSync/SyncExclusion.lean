import TalonHound.FeedSync.SyncLock
import TalonHound.Library.IndexedList

/-!
# One sync per feed

While no session ends under its sync and every unlock query runs, a lock is held on the connection
of the one sync that acquired it.
-/

namespace TalonHound.FeedSync

open Indexed List

variable {hashtext : String → ℤ} {s s' : LockState} {i j c : ℕ} {sync : Sync} {x x' : Connection}
  {stage : Stage} {key : ℤ} {a : LockAction}

/-- The locks that the session of a sync holds. -/
def Sync.locks (hashtext : String → ℤ) (sync : Sync) : List ℤ :=
  if sync.stage.holds then [sync.key hashtext] else []

/-- Pooled connections hold no locks, no two sessions hold one, and the connection of a sync is its
own and holds what the sync holds. -/
structure LockInv (hashtext : String → ℤ) (s : LockState) : Prop where
  pooled : ∀ (c : ℕ) (x : Connection), s.connections[c]? = some x → x.pooled = true → x.locks = []
  unique : ∀ (c c' : ℕ) (x x' : Connection) (key : ℤ), s.connections[c]? = some x →
    s.connections[c']? = some x' → key ∈ x.locks → key ∈ x'.locks → c = c'
  uses : ∀ (i : ℕ) (sync : Sync) (c : ℕ), s.syncs[i]? = some sync → sync.stage.connection = some c →
      ∃ x, s.connections[c]? = some x ∧ x.pooled = false ∧ x.locks = sync.locks hashtext
  own : ∀ (i j : ℕ) (a b : Sync) (c : ℕ), s.syncs[i]? = some a → s.syncs[j]? = some b →
    a.stage.connection = some c → b.stage.connection = some c → i = j
  released : ∀ r ∈ s.releases, r.free = true ∧ r.clean = true

theorem withConnection_eq_some {p : Sync × ℕ × Connection} :
    s.withConnection i = some p ↔ s.syncs[i]? = some p.1 ∧
      p.1.stage.connection = some p.2.1 ∧ s.connections[p.2.1]? = some p.2.2 := by
  obtain ⟨sync, c, x⟩ := p
  unfold LockState.withConnection
  simp only [Option.bind_eq_some_iff, Option.map_eq_some_iff, Prod.mk.injEq]
  constructor
  · rintro ⟨sync', hsync, c', hc, x', hx, rfl, rfl, rfl⟩
    exact ⟨hsync, hc, hx⟩
  · rintro ⟨hsync, hc, hx⟩
    exact ⟨sync, hsync, c, hc, x, hx, rfl, rfl, rfl⟩

/-- What a step of a sync on its connection does. -/
theorem exists_of_withConnection {P : Sync → ℕ → Connection → Prop}
    {_ : ∀ sync c x, Decidable (P sync c x)} {f : Sync → ℕ → Connection → LockState}
    {g : Sync × ℕ × Connection → Option LockState} (h : (s.withConnection i).bind g = some s')
    (hg : ∀ sync c x, g (sync, c, x) = if P sync c x then some (f sync c x) else none) :
    ∃ sync c x, s.syncs[i]? = some sync ∧ sync.stage.connection = some c ∧
      s.connections[c]? = some x ∧ P sync c x ∧ f sync c x = s' := by
  obtain ⟨⟨sync, c, x⟩, hp, hsome⟩ := Option.bind_eq_some_iff.mp h
  obtain ⟨hi, hc, hx⟩ := withConnection_eq_some.mp hp
  obtain ⟨hP, hf⟩ := Option.ite_none_right_eq_some.mp ((hg sync c x).symm.trans hsome)
  exact ⟨sync, c, x, hi, hc, hx, hP, Option.some.inj hf⟩

theorem heldElsewhere_eq_false (h : s.heldElsewhere c key = false) {c' : ℕ}
    (hx : s.connections[c']? = some x) (hne : c' ≠ c) : key ∉ x.locks := by
  unfold LockState.heldElsewhere at h
  rw [any_eq_false] at h
  have hnot := h (x, c') (mem_zipIdx_iff_getElem?.mpr hx)
  simpa [hne] using hnot

theorem Stage.holds_of_imports (h : stage.imports = true) : stage.holds = true := by
  cases stage <;> first | rfl | cases h

theorem Stage.connection_of_imports (h : stage.imports = true) : ∃ c, stage.connection = some c := by
  cases stage with
  | importing c timedOut => exact ⟨c, rfl⟩
  | _ => cases h

namespace LockInv

theorem empty : LockInv hashtext LockState.empty where
  pooled := fun c x hx => by cases hx
  unique := fun c c' x x' key hx => by cases hx
  uses := fun i sync c hi => by cases hi
  own := fun i j a b c hi => by cases hi
  released := fun r hr => absurd hr not_mem_nil

section

variable (h : LockInv hashtext s)

include h

section

variable (hi : s.syncs[i]? = some sync)
include hi

section

variable (hx : s.connections[c]? = some x) (huse : sync.stage.connection = some c ∨ x.pooled = true)
include hx huse

/-- A connection that one sync uses, or that is in the pool, is used by no other sync. -/
theorem not_used {b : Sync} (hj : s.syncs[j]? = some b) (hb : b.stage.connection = some c) :
    j = i := by
  rcases huse with hmine | hpooled
  · exact h.own j i b sync c hj hi hb hmine
  · obtain ⟨y, hy, hout, -⟩ := h.uses j b c hj hb
    obtain rfl := Option.some.inj (hx.symm.trans hy)
    rw [hpooled] at hout
    cases hout

/-- A sync moves on with its connection. -/
theorem move (hpool : x'.pooled = true → x'.locks = [])
    (hstage : stage.connection = none ∨ (stage.connection = some c ∧ x'.pooled = false ∧ x'.locks = Sync.locks hashtext { sync with stage := stage }))
    (hkeys : ∀ key ∈ x'.locks, key ∈ x.locks ∨ s.heldElsewhere c key = false) :
    LockInv hashtext (s.move i sync stage c x') := by
  have hfree : ∀ (c' : ℕ) (y : Connection) (key : ℤ), c' ≠ c → s.connections[c']? = some y →
      key ∈ x'.locks → key ∉ y.locks := by
    intro c' y key hne hy hkey hkey'
    rcases hkeys key hkey with hold | hnew
    · exact hne (h.unique c' c y x key hy hx hkey' hold)
    · exact heldElsewhere_eq_false hnew hy hne hkey'
  refine ⟨?_, ?_, ?_, ?_, h.released⟩
  · intro c' y hy hypooled
    rcases getElem?_set_cases hy with ⟨-, rfl⟩ | ⟨-, hold⟩
    · exact hpool hypooled
    · exact h.pooled c' y hold hypooled
  · intro c₁ c₂ y z key hy hz hkey₁ hkey₂
    rcases getElem?_set_cases hy with ⟨rfl, rfl⟩ | ⟨hne₁, hy'⟩ <;>
      rcases getElem?_set_cases hz with ⟨rfl, rfl⟩ | ⟨hne₂, hz'⟩
    · rfl
    · exact absurd hkey₂ (hfree c₂ z key hne₂ hz' hkey₁)
    · exact absurd hkey₁ (hfree c₁ y key hne₁ hy' hkey₂)
    · exact h.unique c₁ c₂ y z key hy' hz' hkey₁ hkey₂
  · intro j b c' hj hb
    rcases getElem?_set_cases hj with ⟨rfl, rfl⟩ | ⟨hne, hold⟩
    · rcases hstage with hnone | ⟨hsome, hout, hlocks⟩
      · rw [hnone] at hb
        cases hb
      · obtain rfl := Option.some.inj (hsome.symm.trans hb)
        exact ⟨x', getElem?_set_self hx, hout, hlocks⟩
    · obtain ⟨y, hy, hout, hlocks⟩ := h.uses j b c' hold hb
      have hne' : c ≠ c' := by
        rintro rfl
        exact hne (h.not_used hi hx huse hold hb)
      refine ⟨y, ?_, hout, hlocks⟩
      change (s.connections.set c x')[c']? = some y
      rw [getElem?_set, if_neg hne']
      exact hy
  · intro j₁ j₂ b₁ b₂ c' hj₁ hj₂ hb₁ hb₂
    have hmoved : ∀ (j : ℕ) (b : Sync), j ≠ i → s.syncs[j]? = some b →
        b.stage.connection = some c' → stage.connection = some c' → False := by
      intro j b hne hj hb hsame
      rcases hstage with hnone | ⟨hsome, -, -⟩
      · rw [hnone] at hsame
        cases hsame
      · obtain rfl := Option.some.inj (hsome.symm.trans hsame)
        exact hne (h.not_used hi hx huse hj hb)
    rcases getElem?_set_cases hj₁ with ⟨rfl, rfl⟩ | ⟨hne₁, hold₁⟩ <;>
      rcases getElem?_set_cases hj₂ with ⟨rfl, rfl⟩ | ⟨hne₂, hold₂⟩
    · rfl
    · exact (hmoved j₂ b₂ hne₂ hold₂ hb₂ hb₁).elim
    · exact (hmoved j₁ b₁ hne₁ hold₁ hb₁ hb₂).elim
    · exact h.own j₁ j₂ b₁ b₂ c' hold₁ hold₂ hb₁ hb₂

end

section

variable (hc : sync.stage.connection = some c) (hx : s.connections[c]? = some x)
include hc hx

/-- The session of a sync that uses a connection holds what the sync holds. -/
theorem locks_eq : x.pooled = false ∧ x.locks = sync.locks hashtext := by
  obtain ⟨y, hy, hout, hlocks⟩ := h.uses i sync c hi hc
  obtain rfl := Option.some.inj (hx.symm.trans hy)
  exact ⟨hout, hlocks⟩

/-- Syncs that move on in place keep what they hold. -/
theorem moveHolding
    (hstage : stage.connection = none ∨ (stage.connection = some c ∧ stage.holds = sync.stage.holds)) :
    LockInv hashtext (s.move i sync stage c x) := by
  obtain ⟨hout, hlocks⟩ := h.locks_eq hi hc hx
  refine h.move hi hx (.inl hc) (fun hpooled => ?_) ?_ fun key hkey => .inl hkey
  · rw [hout] at hpooled
    cases hpooled
  · rcases hstage with hnone | ⟨hsome, hholds⟩
    · exact .inl hnone
    · refine .inr ⟨hsome, hout, ?_⟩
      rw [hlocks]
      unfold Sync.locks Sync.key
      rw [hholds]

end

section

variable (hstage : sync.stage = .locking c) (hx : s.connections[c]? = some x)
include hstage hx

theorem tryLock : LockInv hashtext (s.tryLock hashtext i sync c x) := by
  have hc : sync.stage.connection = some c := by
    rw [hstage]
    rfl
  obtain ⟨hout, hlocks⟩ := h.locks_eq hi hc hx
  have hnone : x.locks = [] := by
    rw [hlocks]
    unfold Sync.locks
    rw [hstage]
    rfl
  unfold LockState.tryLock
  split
  · exact h.move hi hx (.inl hc) (fun _ => hnone) (.inl rfl) fun key hkey => .inl hkey
  · next hfree =>
    refine h.move hi hx (.inl hc) (fun hpooled => ?_) (.inr ⟨rfl, hout, ?_⟩) fun key hkey => ?_
    · rw [hout] at hpooled
      cases hpooled
    · rw [hnone]
      rfl
    · rcases mem_cons.mp hkey with rfl | hold
      · exact .inr (by simpa using hfree)
      · exact .inl hold

theorem lockFails (taken : Bool) :
    LockInv hashtext (s.move i sync .ended c
      { x with
        usable := false
        locks := if taken && x.usable && !s.heldElsewhere c (sync.key hashtext) then
          sync.key hashtext :: x.locks else x.locks }) := by
  have hc : sync.stage.connection = some c := by
    rw [hstage]
    rfl
  obtain ⟨hout, -⟩ := h.locks_eq hi hc hx
  refine h.move hi hx (.inl hc) (fun hpooled => ?_) (.inl rfl) fun key hkey => ?_
  · rw [hout] at hpooled
    cases hpooled
  · dsimp only at hkey
    split at hkey
    · next hcondition =>
      rcases mem_cons.mp hkey with rfl | hold
      · simp only [Bool.and_eq_true, Bool.not_eq_true'] at hcondition
        exact .inr hcondition.2
      · exact .inl hold
    · exact .inl hkey

end

/-- After the release of a lock no session holds it. -/
theorem unlock (hstage : sync.stage = .releasing c) (hx : s.connections[c]? = some x)
    (husable : x.usable = true) :
    LockInv hashtext (s.unlock hashtext i sync c x false) := by
  have hc : sync.stage.connection = some c := by
    rw [hstage]
    rfl
  obtain ⟨hout, hlocks⟩ := h.locks_eq hi hc hx
  have hone : x.locks = [sync.key hashtext] := by
    rw [hlocks]
    unfold Sync.locks
    rw [hstage]
    rfl
  have herased : (if x.usable && !false then x.locks.erase (sync.key hashtext) else x.locks) =
      [] := by
    rw [husable, hone]
    simp
  unfold LockState.unlock
  rw [herased]
  have hmoved : LockInv hashtext
      (s.move i sync .ended c { x with pooled := x.usable, locks := [] }) :=
    h.move hi hx (.inl hc) (fun _ => rfl) (.inl rfl) fun key hkey => absurd hkey not_mem_nil
  have hnobody : ∀ y ∈ (s.move i sync .ended c { x with pooled := x.usable, locks := [] }).connections,
      sync.key hashtext ∉ y.locks := by
    intro y hy hkey
    obtain ⟨c', hc'⟩ := mem_iff_getElem?.mp hy
    rcases getElem?_set_cases hc' with ⟨-, rfl⟩ | ⟨hne, hold⟩
    · cases hkey
    · refine hne (h.unique c' c y x (sync.key hashtext) hold hx hkey ?_)
      rw [hone]
      exact mem_singleton_self _
  refine ⟨hmoved.pooled, hmoved.unique, hmoved.uses, hmoved.own, fun r hr => ?_⟩
  rcases mem_append.mp hr with hold | hnew
  · exact h.released r hold
  · obtain rfl := mem_singleton.mp hnew
    unfold LockState.released
    constructor
    · rw [all_eq_true]
      intro y hy
      simpa using hnobody y hy
    · rw [all_eq_true]
      intro y hy
      simp [hnobody y hy]

end

/-- A new connection comes after all others, and no other sync uses it. -/
theorem connectNew :
    LockInv hashtext { s with
      syncs := s.syncs.set i { sync with stage := .locking s.connections.length }
      connections := s.connections ++ [⟨sync.worker, true, false, []⟩] } := by
  have hnew : ∀ (c : ℕ) (y : Connection),
      (s.connections ++ [⟨sync.worker, true, false, []⟩])[c]? = some y →
        s.connections[c]? = some y ∨
          (c = s.connections.length ∧ y = ⟨sync.worker, true, false, []⟩) := by
    intro c y hy
    rw [getElem?_append] at hy
    split at hy
    · exact .inl hy
    · rw [getElem?_singleton] at hy
      split at hy
      · exact .inr ⟨by omega, (Option.some.inj hy).symm⟩
      · cases hy
  have hold : ∀ (c : ℕ) (y : Connection), s.connections[c]? = some y →
      (s.connections ++ [⟨sync.worker, true, false, []⟩])[c]? = some y := by
    intro c y hy
    rw [List.getElem?_append_left (List.getElem?_eq_some_iff.mp hy).1]
    exact hy
  have hless : ∀ (j : ℕ) (b : Sync), s.syncs[j]? = some b →
      b.stage.connection ≠ some s.connections.length := by
    intro j b hj hb
    obtain ⟨y, hy, -⟩ := h.uses j b _ hj hb
    have hlt := (List.getElem?_eq_some_iff.mp hy).1
    omega
  refine ⟨?_, ?_, ?_, ?_, h.released⟩
  · intro c y hy hpooled
    rcases hnew c y hy with hy | ⟨rfl, rfl⟩
    · exact h.pooled c y hy hpooled
    · rfl
  · intro c₁ c₂ y z key hy hz hkey₁ hkey₂
    rcases hnew c₁ y hy with hy | ⟨rfl, rfl⟩
    · rcases hnew c₂ z hz with hz | ⟨rfl, rfl⟩
      · exact h.unique c₁ c₂ y z key hy hz hkey₁ hkey₂
      · cases hkey₂
    · cases hkey₁
  · intro j b c' hj hb
    rcases getElem?_set_cases hj with ⟨rfl, rfl⟩ | ⟨hne, hj⟩
    · cases hb
      refine ⟨⟨sync.worker, true, false, []⟩, ?_, rfl, rfl⟩
      simp
    · obtain ⟨y, hy, hout, hlocks⟩ := h.uses j b c' hj hb
      exact ⟨y, hold c' y hy, hout, hlocks⟩
  · intro j₁ j₂ b₁ b₂ c' hj₁ hj₂ hb₁ hb₂
    rcases getElem?_set_cases hj₁ with ⟨rfl, rfl⟩ | ⟨-, hold₁⟩ <;>
      rcases getElem?_set_cases hj₂ with ⟨rfl, rfl⟩ | ⟨-, hold₂⟩
    · rfl
    · cases hb₁
      exact absurd hb₂ (hless j₂ b₂ hold₂)
    · cases hb₂
      exact absurd hb₁ (hless j₁ b₁ hold₁)
    · exact h.own j₁ j₂ b₁ b₂ c' hold₁ hold₂ hb₁ hb₂

theorem connect (hi : s.syncs[i]? = some sync) {reused : Option ℕ}
    (hconnect : s.connect i sync reused = some s') : LockInv hashtext s' := by
  cases reused with
  | some c =>
    obtain ⟨x, hx, hsome⟩ := Option.bind_eq_some_iff.mp hconnect
    obtain ⟨hcondition, rfl⟩ := Run.enabled hsome
    simp only [Bool.and_eq_true] at hcondition
    have hpooled : x.pooled = true := hcondition.1.1
    have hnone := h.pooled c x hx hpooled
    refine h.move hi hx (.inr hpooled) (fun hfalse => by cases hfalse) (.inr ⟨rfl, rfl, hnone⟩)
      fun key hkey => .inl hkey
  | none =>
    cases hconnect
    exact h.connectNew

/-- Connections may leave the pool and lose locks that no sync holds, and syncs may end. -/
theorem shrink
    (hconnection : ∀ (c : ℕ) (y : Connection), s'.connections[c]? = some y →
      ∃ x, s.connections[c]? = some x ∧ (y.pooled = true → x.pooled = true) ∧ y.locks ⊆ x.locks)
    (hsync : ∀ (i : ℕ) (b : Sync) (c : ℕ), s'.syncs[i]? = some b →
      b.stage.connection = some c → s.syncs[i]? = some b ∧
        ∀ x, s.connections[c]? = some x → x.locks = b.locks hashtext →
          ∃ y, s'.connections[c]? = some y ∧ y.locks = b.locks hashtext)
    (hreleases : s'.releases = s.releases) : LockInv hashtext s' := by
  refine ⟨?_, ?_, ?_, ?_, ?_⟩
  · intro c y hy hpooled
    obtain ⟨x, hx, hpool, hsubset⟩ := hconnection c y hy
    have hnone := h.pooled c x hx (hpool hpooled)
    rw [hnone] at hsubset
    exact subset_nil.mp hsubset
  · intro c c' y y' key hy hy' hkey hkey'
    obtain ⟨x, hx, -, hsubset⟩ := hconnection c y hy
    obtain ⟨x', hx', -, hsubset'⟩ := hconnection c' y' hy'
    exact h.unique c c' x x' key hx hx' (hsubset hkey) (hsubset' hkey')
  · intro i b c hi hb
    obtain ⟨hold, hkeep⟩ := hsync i b c hi hb
    obtain ⟨x, hx, hout, hlocks⟩ := h.uses i b c hold hb
    obtain ⟨y, hy, hlocks'⟩ := hkeep x hx hlocks
    refine ⟨y, hy, ?_, hlocks'⟩
    obtain ⟨x', hx', hpool, -⟩ := hconnection c y hy
    obtain rfl := Option.some.inj (hx.symm.trans hx')
    cases hy' : y.pooled with
    | false => rfl
    | true =>
      rw [hpool hy'] at hout
      cases hout
  · intro i j a b c hi hj ha hb
    exact h.own i j a b c (hsync i a c hi ha).1 (hsync j b c hj hb).1 ha hb
  · rw [hreleases]
    exact h.released

theorem trigger (hnew : sync.stage = .connecting) :
    LockInv hashtext { s with syncs := s.syncs ++ [sync] } := by
  refine h.shrink (fun c y hy => ⟨y, hy, id, List.Subset.refl _⟩) (fun i b c hi hb => ?_) rfl
  refine ⟨?_, fun x hx hlocks => ⟨x, hx, hlocks⟩⟩
  rw [getElem?_append] at hi
  split at hi
  · exact hi
  · rw [getElem?_singleton] at hi
    obtain ⟨-, rfl⟩ := Run.enabled hi
    rw [hnew] at hb
    cases hb

/-- The socket of a connection breaks, or its session ends under no lock. -/
theorem close (hx : s.connections[c]? = some x) {sessionEnded : Bool}
    (hguard : sessionEnded = true →
      ∀ sync ∈ s.syncs, sync.stage.holds = true → sync.stage.connection ≠ some c) :
    LockInv hashtext { s with connections := s.connections.set c (x.close sessionEnded) } := by
  refine h.shrink (fun c' y hy => ?_) (fun i b c' hi hb => ⟨hi, fun z hz hlocks => ?_⟩) rfl
  · rcases getElem?_set_cases hy with ⟨rfl, rfl⟩ | ⟨-, hold⟩
    · refine ⟨x, hx, (fun hfalse => by cases hfalse), ?_⟩
      cases sessionEnded with
      | true => exact nil_subset _
      | false => exact List.Subset.refl _
    · exact ⟨y, hold, id, List.Subset.refl _⟩
  · by_cases hsame : c' = c
    · subst hsame
      obtain rfl := Option.some.inj (hx.symm.trans hz)
      refine ⟨_, getElem?_set_self hx, ?_⟩
      cases sessionEnded with
      | false => exact hlocks
      | true =>
        unfold Sync.locks
        cases hholds : b.stage.holds with
        | false => rfl
        | true => exact absurd hb (hguard rfl b (mem_iff_getElem?.mpr ⟨i, hi⟩) hholds)
    · refine ⟨z, ?_, hlocks⟩
      rw [getElem?_set, if_neg fun heq => hsame heq.symm]
      exact hz

theorem crash (worker : ℕ) :
    LockInv hashtext { s with
      syncs := s.syncs.map fun sync =>
        if sync.worker = worker then { sync with stage := .ended } else sync
      connections := s.connections.map fun x =>
        if x.worker = worker then x.close false else x } := by
  have hlocks : ∀ x : Connection, (if x.worker = worker then x.close false else x).locks =
      x.locks := by
    intro x
    split <;> rfl
  refine h.shrink (fun c y hy => ?_) (fun i b c hi hb => ?_) rfl
  · rw [getElem?_map] at hy
    obtain ⟨x, hx, rfl⟩ := Option.map_eq_some_iff.mp hy
    refine ⟨x, hx, fun hpooled => ?_, by rw [hlocks]; exact List.Subset.refl _⟩
    split at hpooled
    · cases hpooled
    · exact hpooled
  · rw [getElem?_map] at hi
    obtain ⟨b', hb', rfl⟩ := Option.map_eq_some_iff.mp hi
    split at hb
    · cases hb
    · next hother =>
      rw [if_neg hother]
      refine ⟨hb', fun x hx hheld => ?_⟩
      refine ⟨if x.worker = worker then x.close false else x, ?_, ?_⟩
      · dsimp only
        rw [getElem?_map, hx]
        rfl
      · rw [hlocks]
        exact hheld

/-- A step keeps the invariant. -/
theorem step (hguard : KeepsSessions s a) (hstep : lockStep hashtext s a = some s') :
    LockInv hashtext s' := by
  cases a with
  | trigger worker integrationKey jobName =>
    cases hstep
    exact h.trigger rfl
  | connect i reused =>
    obtain ⟨sync, hi, hsome⟩ := Option.bind_eq_some_iff.mp hstep
    split at hsome
    · exact h.connect hi hsome
    · cases hsome
  | tryLock i =>
    obtain ⟨sync, c, x, hi, -, hx, hstage, rfl⟩ := exists_of_withConnection hstep fun _ _ _ => rfl
    exact h.tryLock hi hstage.1 hx
  | lockFails i taken =>
    obtain ⟨sync, c, x, hi, -, hx, hstage, rfl⟩ := exists_of_withConnection hstep fun _ _ _ => rfl
    exact h.lockFails hi hstage hx taken
  | markRunning i fails =>
    obtain ⟨sync, c, x, hi, hc, hx, hstage, rfl⟩ := exists_of_withConnection hstep fun _ _ _ => rfl
    refine h.moveHolding hi hc hx ?_
    cases fails with
    | true => exact .inl rfl
    | false =>
      refine .inr ⟨rfl, ?_⟩
      rw [hstage]
      rfl
  | timeout i =>
    obtain ⟨sync, c, x, hi, hc, hx, hstage, rfl⟩ := exists_of_withConnection hstep fun _ _ _ => rfl
    refine h.moveHolding hi hc hx (.inr ⟨rfl, ?_⟩)
    rw [hstage]
    rfl
  | importEnds i =>
    obtain ⟨sync, c, x, hi, hc, hx, himports, rfl⟩ := exists_of_withConnection hstep fun _ _ _ => rfl
    refine h.moveHolding hi hc hx (.inr ⟨rfl, ?_⟩)
    exact (Stage.holds_of_imports himports).symm
  | unlock i fails =>
    obtain ⟨sync, c, x, hi, hc, hx, hstage, rfl⟩ := exists_of_withConnection hstep fun _ _ _ => rfl
    obtain ⟨rfl, husable⟩ := hguard
    exact h.unlock hi hstage hx (husable ⟨sync, c, x⟩ (withConnection_eq_some.mpr ⟨hi, hc, hx⟩))
  | breakClient c =>
    obtain ⟨x, hx, rfl⟩ := Option.map_eq_some_iff.mp hstep
    exact h.close hx fun hfalse => by cases hfalse
  | sessionEnds c =>
    obtain ⟨x, hx, rfl⟩ := Option.map_eq_some_iff.mp hstep
    exact h.close hx fun _ => hguard
  | crash worker =>
    cases hstep
    exact h.crash worker

/-- Two syncs that hold one lock are one. -/
theorem oneSyncAtATime : OneSyncAtATime s where
  exclusive := by
    intro i j a b hi hj ha hb hidentity
    have hkey : ∀ (i : ℕ) (sync : Sync), s.syncs[i]? = some sync → sync.stage.imports = true →
        ∃ c x, sync.stage.connection = some c ∧ s.connections[c]? = some x ∧
          sync.key hashtext ∈ x.locks := by
      intro i sync hi himports
      obtain ⟨c, hc⟩ := Stage.connection_of_imports himports
      obtain ⟨x, hx, -, hlocks⟩ := h.uses i sync c hi hc
      refine ⟨c, x, hc, hx, ?_⟩
      rw [hlocks]
      unfold Sync.locks
      rw [Stage.holds_of_imports himports]
      exact mem_singleton_self _
    obtain ⟨c, x, hc, hx, hmem⟩ := hkey i a hi ha
    obtain ⟨c', x', hc', hx', hmem'⟩ := hkey j b hj hb
    have hsame : a.key hashtext = b.key hashtext := by
      unfold Sync.key
      rw [hidentity]
    rw [hsame] at hmem
    obtain rfl := h.unique c c' x x' _ hx hx' hmem hmem'
    exact h.own i j a b c hi hj hc hc'
  released := h.released

end

end LockInv

/-- No two imports of one identity execute at the same time, and a release leaves the lock free. -/
theorem one_sync_at_a_time (hashtext : String → ℤ) {actions : List LockAction} {s : LockState}
    (hrun : Run (lockStep hashtext) KeepsSessions LockState.empty actions s) :
    OneSyncAtATime s :=
  (Run.invariant (fun _ _ _ h hguard hstep => LockInv.step h hguard hstep) hrun
    LockInv.empty).oneSyncAtATime

/-- A second trigger is refused while the first sync imports, and a third one reuses its
connection. -/
def threeTriggers : List LockAction :=
  [.trigger 0 "feed" "sync", .connect 0 none, .tryLock 0, .markRunning 0 false,
    .trigger 0 "feed" "sync", .connect 1 none, .tryLock 1, .timeout 0, .importEnds 0,
    .unlock 0 false, .trigger 0 "feed" "sync", .connect 2 (some 0), .tryLock 2,
    .markRunning 2 false]

theorem one_sync_at_a_time_threeTriggers :
    ∃ s, Run (lockStep fun _ => 0) KeepsSessions LockState.empty threeTriggers s ∧
      s.syncs.map Sync.stage = [.ended, .ended, .importing 0 false] ∧ OneSyncAtATime s := by
  obtain ⟨s, hrun, hstages⟩ :
      ∃ s, Run (lockStep fun _ => 0) KeepsSessions LockState.empty threeTriggers s ∧
        s.syncs.map Sync.stage = [.ended, .ended, .importing 0 false] :=
    ⟨_, Run.of_exec rfl, rfl⟩
  exact ⟨s, hrun, hstages, one_sync_at_a_time (fun _ => 0) hrun⟩

/-- When the database ends the session of a sync, a second sync imports beside it; and when an
unlock query fails, the pooled connection still holds the lock. -/
theorem overlap_after_session_end :
    (∃ s, Run (lockStep fun _ => 0) (fun _ _ => True) LockState.empty
        [.trigger 0 "feed" "sync", .connect 0 none, .tryLock 0, .markRunning 0 false,
          .sessionEnds 0, .trigger 1 "feed" "sync", .connect 1 none, .tryLock 1,
          .markRunning 1 false] s ∧ ¬ OneSyncAtATime s) ∧
      ∃ s, Run (lockStep fun _ => 0) (fun _ _ => True) LockState.empty
        [.trigger 0 "feed" "sync", .connect 0 none, .tryLock 0, .markRunning 0 false,
          .importEnds 0, .unlock 0 true] s ∧ ¬ OneSyncAtATime s := by
  constructor
  · refine ⟨_, Run.of_exec rfl, fun h => ?_⟩
    have hsame : 0 = 1 := h.exclusive 0 1 _ _ rfl rfl rfl rfl rfl
    omega
  · refine ⟨_, Run.of_exec rfl, fun h => ?_⟩
    have hclean := (h.released _ (mem_singleton_self _)).2
    cases hclean

end TalonHound.FeedSync
