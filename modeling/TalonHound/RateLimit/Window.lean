import Mathlib.Algebra.Order.Ring.Int
import TalonHound.Library.Rows
import TalonHound.Library.Run

/-!
# The rate limiter

Each key has a bucket that counts its calls since the window of the bucket opened. A key whose
window is over, or whose bucket is gone, starts at zero again, so that the calls of an interval are
limited where no window opens soon after a call that the last one let through.
-/

namespace TalonHound.RateLimit

open List

/-- A bucket of the map, which is in the order of insertion. -/
structure Bucket where
  key : String
  start : ℤ
  count : ℕ
  deriving DecidableEq

/-- The options of `createSlidingWindowRateLimit`, absent where they are no number. -/
structure Options where
  (windowMs maxBuckets : Option ℤ)

/-- A number that is given and not zero, or the default, and at least one. -/
def atLeastOne (given : Option ℤ) (fallback : ℤ) : ℤ :=
  max (if given.getD 0 = 0 then fallback else given.getD 0) 1

variable (o : Options) (limitPerWindow : ℕ)

def Options.window : ℤ := atLeastOne o.windowMs 60000

def Options.capacity : ℕ := (atLeastOne o.maxBuckets 10000).toNat

/-- Drops the buckets whose window is over. -/
def pruneExpired (now : ℤ) (buckets : List Bucket) : List Bucket :=
  buckets.filter fun bucket => now - bucket.start < o.window

/-- Evict the oldest insertion until the map fits. -/
def enforceMaxSize : List Bucket → List Bucket
  | [] => []
  | oldest :: rest => if rest.length + 1 > o.capacity then enforceMaxSize rest else oldest :: rest

def prune (now : ℤ) (buckets : List Bucket) : List Bucket :=
  enforceMaxSize o (pruneExpired o now buckets)

/-- The bucket of the key, unless its window is over. -/
def current (buckets : List Bucket) (now : ℤ) (key : String) : Option Bucket :=
  (Rows.lookup Bucket.key buckets key).filter fun bucket => now - bucket.start < o.window

/-- The map after a window has rolled over. -/
def openWindow (buckets : List Bucket) (now : ℤ) (key : String) : List Bucket :=
  prune o now (buckets.filter (·.key ≠ key) ++ [⟨key, now, 0⟩])

/-- Count a call of the key. -/
def countCall (key : String) (bucket : Bucket) : Bucket :=
  if bucket.key = key then { bucket with count := bucket.count + 1 } else bucket

/-- The map after `check`, and its answer. -/
def check (buckets : List Bucket) (now : ℤ) (key : String) : List Bucket × Bool :=
  match current o buckets now key with
  | some bucket => (buckets.map (countCall key), bucket.count + 1 ≤ limitPerWindow)
  | none => ((openWindow o buckets now key).map (countCall key), 1 ≤ limitPerWindow)

/-- The calls of a limiter. -/
inductive Call where
  | check (now : ℤ) (key : String)
  | prune (now : ℤ)

/-- The map and the clock; in history variables the calls answered `true` and the key that the last
call has counted. -/
structure State where
  buckets : List Bucket
  clock : ℤ
  allowed : List (String × ℤ)
  counted : Option String

def State.initial (now : ℤ) : State := ⟨[], now, [], none⟩

/-- One call, at an instant that is not before the last. -/
def step (s : State) : Call → Option State
  | .check now key =>
    let result := check o limitPerWindow s.buckets now key
    if s.clock ≤ now then some ⟨result.1, now,
      if result.2 then (key, now) :: s.allowed else s.allowed, some key⟩ else none
  | .prune now => if s.clock ≤ now then some ⟨prune o now s.buckets, now, s.allowed, none⟩ else none

variable {s s' : State}

/-- The calls of a key in a half-open interval of the length of the window are limited. -/
def State.Limited (s : State) : Prop := ∀ (key : String) (t : ℤ),
  s.allowed.countP (fun call => call.1 = key ∧ t ≤ call.2 ∧ call.2 < t + o.window) ≤ limitPerWindow

/-- The map fits, and has the bucket that the last call has counted. -/
def State.Stored (s : State) : Prop :=
  s.buckets.length ≤ o.capacity ∧ ∀ key ∈ s.counted, key ∈ s.buckets.map Bucket.key

/-- The keys with a window at the instant of the call fit into the map. -/
def FitsLiveKeys (s : State) : Call → Prop
  | .check now key => (pruneExpired o now (s.buckets.filter (·.key ≠ key))).length + 1 ≤ o.capacity
  | .prune _ => True

/-- A window opens when every call of its key that was let through is as old as a window. -/
def OpensLate (s : State) : Call → Prop
  | .check now key => current o s.buckets now key = none →
    ∀ call ∈ s.allowed, call.1 = key → call.2 + o.window ≤ now
  | .prune _ => True

instance (s : State) (c : Call) : Decidable (FitsLiveKeys o s c) := by
  cases c <;> unfold FitsLiveKeys <;> infer_instance

instance (s : State) (c : Call) : Decidable (OpensLate o s c) := by
  cases c <;> unfold OpensLate <;> infer_instance

variable {o limitPerWindow} {buckets : List Bucket} {bucket : Bucket} {now : ℤ} {key : String}

theorem enforceMaxSize_length : (enforceMaxSize o buckets).length ≤ o.capacity := by
  induction buckets with
  | nil => exact Nat.zero_le _
  | cons oldest rest ih =>
    unfold enforceMaxSize
    split
    · exact ih
    · simp only [length_cons]
      omega

theorem enforceMaxSize_subset : enforceMaxSize o buckets ⊆ buckets := by
  induction buckets with
  | nil => exact Subset.refl _
  | cons oldest rest ih =>
    unfold enforceMaxSize
    split
    · exact fun b hb => .tail _ (ih hb)
    · exact Subset.refl _

/-- The last insertion is not evicted. -/
theorem mem_enforceMaxSize_last : bucket ∈ enforceMaxSize o (buckets ++ [bucket]) := by
  have hcapacity : ¬ 0 + 1 > o.capacity := by
    have := le_max_right (if o.maxBuckets.getD 0 = 0 then 10000 else o.maxBuckets.getD 0) 1
    unfold Options.capacity atLeastOne
    omega
  induction buckets with
  | nil =>
    rw [nil_append, enforceMaxSize, length_nil, if_neg hcapacity]
    exact .head _
  | cons oldest rest ih =>
    rw [cons_append, enforceMaxSize]
    split
    · exact ih
    · simp

theorem prune_subset : prune o now buckets ⊆ buckets :=
  fun _ h => filter_sublist.subset (enforceMaxSize_subset h)

/-- A bucket of the key is new, and the others were there. -/
theorem mem_openWindow (h : bucket ∈ openWindow o buckets now key) :
    bucket ∈ buckets ∧ bucket.key ≠ key ∨ bucket = ⟨key, now, 0⟩ := by
  simpa using prune_subset h

theorem window_pos : 0 < o.window := lt_of_lt_of_le Int.one_pos (le_max_right _ 1)

theorem new_mem_openWindow : ⟨key, now, 0⟩ ∈ openWindow o buckets now key := by
  unfold openWindow prune pruneExpired
  rw [filter_append, filter_singleton, sub_self, decide_eq_true window_pos]
  exact mem_enforceMaxSize_last

@[simp] theorem countCall_key : (countCall key bucket).key = bucket.key := by
  unfold countCall
  split <;> rfl

@[simp] theorem countCall_start : (countCall key bucket).start = bucket.start := by
  unfold countCall
  split <;> rfl

theorem countCall_count : (countCall key bucket).count =
    if bucket.key = key then bucket.count + 1 else bucket.count := by
  unfold countCall
  split <;> rfl

theorem keys_countCall : (buckets.map (countCall key)).map Bucket.key = buckets.map Bucket.key := by
  simp

theorem stored_step {c : Call} (hs : s.Stored o) (hstep : step o limitPerWindow s c = some s') :
    s'.Stored o := by
  cases c with
  | prune now =>
    obtain ⟨-, rfl⟩ := Run.enabled hstep
    exact ⟨enforceMaxSize_length, by simp⟩
  | check now key =>
    obtain ⟨-, rfl⟩ := Run.enabled hstep
    unfold State.Stored check
    simp only [Option.mem_some_iff, forall_eq']
    cases hcurrent : current o s.buckets now key with
    | some bucket =>
      obtain ⟨hlookup, -⟩ := Option.filter_eq_some_iff.mp hcurrent
      obtain ⟨hmem, hkey⟩ := Rows.mem_of_lookup hlookup
      refine ⟨by simpa using hs.1, ?_⟩
      rw [keys_countCall, ← hkey]
      exact mem_map_of_mem hmem
    | none =>
      rw [keys_countCall, length_map]
      refine ⟨enforceMaxSize_length, ?_⟩
      exact mem_map_of_mem new_mem_openWindow

/-- A bucket counts the calls let through since it opened, and the others are a window older. -/
structure WindowInv (o : Options) (limitPerWindow : ℕ) (s : State) : Prop where
  past : ∀ call ∈ s.allowed, call.2 ≤ s.clock
  started : ∀ b ∈ s.buckets, b.start ≤ s.clock
  counts : ∀ b ∈ s.buckets,
    s.allowed.countP (fun call => call.1 = b.key ∧ b.start ≤ call.2) ≤ b.count
  older : ∀ b ∈ s.buckets, ∀ call ∈ s.allowed, call.1 = b.key →
    call.2 + o.window ≤ b.start ∨ b.start ≤ call.2
  limited : s.Limited o limitPerWindow

namespace WindowInv

theorem initial : WindowInv o limitPerWindow (.initial now) := by
  constructor <;> simp [State.initial, State.Limited]

section

variable (hs : WindowInv o limitPerWindow s)
include hs

/-- The clock may go on. -/
theorem wait (hnow : s.clock ≤ now) :
    WindowInv o limitPerWindow { s with clock := now } :=
  ⟨fun call hcall => (hs.past call hcall).trans hnow, fun b hb => (hs.started b hb).trans hnow,
    hs.counts, hs.older, hs.limited⟩

/-- Buckets may go. -/
theorem drop (h : buckets ⊆ s.buckets) :
    WindowInv o limitPerWindow ⟨buckets, s.clock, s.allowed, none⟩ :=
  ⟨hs.past, fun b hb => hs.started b (h hb), fun b hb => hs.counts b (h hb),
    fun b hb => hs.older b (h hb), hs.limited⟩

/-- A call is counted in a bucket. -/
theorem counted (hb : bucket ∈ s.buckets) :
    WindowInv o limitPerWindow ⟨s.buckets.map (countCall bucket.key), s.clock,
      if bucket.count + 1 ≤ limitPerWindow then (bucket.key, s.clock) :: s.allowed else s.allowed,
      some bucket.key⟩ := by
  have hstart := hs.started bucket hb
  constructor
  · intro call hcall
    split at hcall
    · rcases mem_cons.mp hcall with rfl | hcall
      · exact le_rfl
      · exact hs.past call hcall
    · exact hs.past call hcall
  · intro b' hb'
    obtain ⟨b, hb, rfl⟩ := mem_map.mp hb'
    simpa using hs.started b hb
  · intro b' hb'
    obtain ⟨b, hb, rfl⟩ := mem_map.mp hb'
    have hcount := hs.counts b hb
    rw [countCall_key, countCall_start, countCall_count]
    by_cases hkey : b.key = bucket.key
    · rw [if_pos hkey]
      split
      · rw [countP_cons]
        split <;> omega
      · exact Nat.le_succ_of_le hcount
    · rw [if_neg hkey]
      split
      · rwa [countP_cons_of_neg (by simp [Ne.symm hkey])]
      · exact hcount
  · intro b' hb' call hcall hkey
    obtain ⟨b, hb, rfl⟩ := mem_map.mp hb'
    rw [countCall_key] at hkey
    rw [countCall_start]
    split at hcall
    · rcases mem_cons.mp hcall with rfl | hcall
      · exact Or.inr (hs.started b hb)
      · exact hs.older b hb call hcall hkey
    · exact hs.older b hb call hcall hkey
  · intro key t
    have hold := hs.limited key t
    split
    · next hlimit =>
      rw [countP_cons]
      split
      · -- The calls of the interval came after the window of the bucket opened.
        next hin =>
        simp only [decide_eq_true_eq] at hin
        obtain ⟨rfl, hfirst, hlast⟩ := hin
        refine (Nat.add_le_add_right (le_trans ?_ (hs.counts bucket hb)) 1).trans hlimit
        refine countP_mono_left fun call hcall hinterval => ?_
        simp only [decide_eq_true_eq] at hinterval ⊢
        have hold := hs.older bucket hb call hcall hinterval.1
        exact ⟨hinterval.1, by omega⟩
      · exact hold
    · exact hold

/-- A window opens after every call of its key that was let through is over. -/
theorem opened (hnow : s.clock ≤ now)
    (hlate : ∀ call ∈ s.allowed, call.1 = key → call.2 + o.window ≤ now) :
    WindowInv o limitPerWindow ⟨openWindow o s.buckets now key, now, s.allowed, s.counted⟩ := by
  have hs' := hs.wait hnow
  refine ⟨hs'.past, ?_, ?_, ?_, hs.limited⟩ <;> intro b hb <;>
    rcases mem_openWindow hb with ⟨hb, -⟩ | rfl
  · exact hs'.started b hb
  · exact le_rfl
  · exact hs.counts b hb
  · refine (countP_eq_zero.mpr fun call hcall => ?_).le
    have hpos := window_pos (o := o)
    rw [decide_eq_true_eq]
    rintro ⟨hkey, hin⟩
    have hold := hlate call hcall hkey
    simp only at hin
    omega
  · exact hs.older b hb
  · exact fun call hcall hkey => Or.inl (hlate call hcall hkey)

theorem step {c : Call} (hguard : OpensLate o s c) (hstep : step o limitPerWindow s c = some s') :
    WindowInv o limitPerWindow s' := by
  cases c with
  | prune now =>
    obtain ⟨hnow, rfl⟩ := Run.enabled hstep
    exact (hs.wait hnow).drop prune_subset
  | check now key =>
    obtain ⟨hnow, rfl⟩ := Run.enabled hstep
    unfold check
    cases hcurrent : current o s.buckets now key with
    | some bucket =>
      obtain ⟨hlookup, -⟩ := Option.filter_eq_some_iff.mp hcurrent
      obtain ⟨hmem, rfl⟩ := Rows.mem_of_lookup hlookup
      simpa using (hs.wait hnow).counted hmem
    | none =>
      simpa using (hs.opened hnow (hguard hcurrent)).counted new_mem_openWindow

end

end WindowInv

/-- After every call the map fits and has the bucket that was counted; and where windows open late,
the calls of every interval are limited. -/
theorem limits_where_windows_open_late {calls : List Call}
    (hrun : Run (step o limitPerWindow) (fun _ _ => True) (.initial now) calls s) :
    s.Stored o ∧ (Run (step o limitPerWindow) (OpensLate o) (.initial now) calls s →
      s.Limited o limitPerWindow) := by
  constructor
  · refine Run.invariant (fun s c s' hs _ hstep => stored_step hs hstep) hrun ?_
    exact ⟨Nat.zero_le _, by simp [State.initial]⟩
  · intro hlate
    exact (Run.invariant (fun s c s' hs hguard hstep => WindowInv.step hs hguard hstep) hlate
      .initial).limited

/-- Three calls, the last in a new window. -/
theorem limits_where_windows_open_late_calls : ∃ s,
    Run (step ⟨some 10, none⟩ 2) (OpensLate ⟨some 10, none⟩) (.initial 0)
      [.check 0 "a", .check 3 "a", .prune 12, .check 13 "a"] s ∧
      s.Stored ⟨some 10, none⟩ ∧ s.Limited ⟨some 10, none⟩ 2 := by
  have hrun := Run.of_isSome (by decide : (Run.exec (step ⟨some 10, none⟩ 2)
    (OpensLate ⟨some 10, none⟩) (.initial 0)
      [.check 0 "a", .check 3 "a", .prune 12, .check 13 "a"]).isSome)
  have hboth := limits_where_windows_open_late (Run.of_isSome (by decide :
    (Run.exec (step ⟨some 10, none⟩ 2) (fun _ _ => True) (.initial 0)
      [.check 0 "a", .check 3 "a", .prune 12, .check 13 "a"]).isSome))
  exact ⟨_, hrun, hboth.1, hboth.2 hrun⟩

/-- Four calls around the end of a window are let through within its length, with the limit two. -/
theorem rolled_window_not_limited : ¬ ∀ (o : Options) (limitPerWindow : ℕ) (now : ℤ)
    (calls : List Call) (s : State),
      Run (step o limitPerWindow) (FitsLiveKeys o) (.initial now) calls s →
        s.Limited o limitPerWindow ∧ s.Stored o := by
  intro hclaim
  have hrun := Run.of_isSome (by decide : (Run.exec (step ⟨some 10, none⟩ 2)
    (FitsLiveKeys ⟨some 10, none⟩) (.initial 0)
      [.check 0 "a", .check 9 "a", .check 10 "a", .check 11 "a"]).isSome)
  exact absurd ((hclaim _ _ _ _ _ hrun).1 "a" 9) (by decide)

end TalonHound.RateLimit
