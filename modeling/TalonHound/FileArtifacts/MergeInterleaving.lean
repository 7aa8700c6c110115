import Mathlib.Data.Fintype.Basic
import TalonHound.Library.Run
import TalonHound.FileArtifacts.MergeContract
import TalonHound.FileArtifacts.Read

/-!
# Merges that interleave

Sessions run `mergeFileArtifacts` statement by statement on one table. Inside a
transaction the row locks of `FOR UPDATE` are held until it ends, and what it wrote is seen
by itself alone; outside one, as with `pool.query`, a statement drops its locks and
publishes its writes when it ends.
-/

namespace TalonHound.FileArtifacts

open Option List

/-- What an open transaction did, newest first. -/
inductive Entry where
  | savepoint
  | lock (id : ArtifactId)
  | tombstone (duplicateId canonicalId : ArtifactId)
  deriving DecidableEq

/-- Where a session is in a call of `mergeFileArtifacts`. -/
inductive CallState where
  | idle
  /-- `SELECT … FOR UPDATE` still has to lock the ids of `rest`. -/
  | locking (canonicalId duplicateId : ArtifactId) (rest : List ArtifactId)
  /-- Both rows were read as active; the tombstone is not written yet. -/
  | merging (canonicalId duplicateId : ArtifactId)
  deriving DecidableEq

/-- A session and the call it is in. -/
structure Session where
  inTransaction : Bool
  log : List Entry
  call : CallState

/-- One entry of a log written over the versions below it. -/
def Entry.over : Entry → Versions → Versions
  | .tombstone duplicateId canonicalId, v =>
    fun id => if id = duplicateId then (v id).map fun _ => .merged canonicalId else v id
  | _, v => v

/-- The versions with the writes of a log. -/
def Versions.overlay (committed : Versions) (log : List Entry) : Versions :=
  log.foldr Entry.over committed

/-- The committed rows and the sessions. -/
structure MergeSystem (ι : Type) where
  committed : Versions
  sessions : ι → Session

namespace MergeSystem

variable {ι : Type} [DecidableEq ι]

/-- What a session sees: the committed rows under its own writes. -/
def view (σ : MergeSystem ι) (i : ι) : Versions := σ.committed.overlay (σ.sessions i).log

/-- Another session holds the lock of a row. -/
def LockedByOther (σ : MergeSystem ι) (i : ι) (id : ArtifactId) : Prop :=
  ∃ j, j ≠ i ∧ Entry.lock id ∈ (σ.sessions j).log

instance [Fintype ι] (σ : MergeSystem ι) (i : ι) (id : ArtifactId) :
    Decidable (σ.LockedByOther i id) := Fintype.decidableExistsFintype

/-- Replace a session. -/
def setSession (σ : MergeSystem ι) (i : ι) (session : Session) : MergeSystem ι :=
  { σ with sessions := Function.update σ.sessions i session }

/-- A call of `mergeFileArtifacts` starts, from outside or from the call before it. -/
def startCall (canonicalId duplicateId : ArtifactId) : CallState :=
  if canonicalId = duplicateId then .idle
  else .locking canonicalId duplicateId [canonicalId, duplicateId]

/-- What the two rows, re-read after they were locked, let the call do. -/
def afterRead (v : Versions) (canonicalId duplicateId : ArtifactId) : CallState :=
  match mergeDecision id canonicalId duplicateId (v canonicalId) (v duplicateId) with
  | .artifactNotFound | .alreadyMerged => .idle
  | .follow canonicalId duplicateId => startCall canonicalId duplicateId
  | .proceed _ _ => .merging canonicalId duplicateId

/-- A step of one session. -/
inductive SessionEvent where
  /-- `BEGIN` -/
  | beginTransaction
  /-- `SAVEPOINT` -/
  | savepoint
  /-- `mergeFileArtifacts` is called. -/
  | call (canonicalId duplicateId : ArtifactId)
  /-- `FOR UPDATE` locks one of its rows. -/
  | lock (id : ArtifactId)
  /-- The rows are read again. -/
  | read
  /-- The tombstone is written. -/
  | write
  /-- The call raises outside a transaction. -/
  | raise
  /-- `ROLLBACK TO SAVEPOINT`, to the savepoint with `older` entries below it -/
  | rollbackTo (older : ℕ)
  /-- `ROLLBACK`, also after a deadlock or a lost connection -/
  | rollback
  /-- `COMMIT` -/
  | commit

/-- A session takes a step, if it is enabled. -/
def step [Fintype ι] (σ : MergeSystem ι) : ι × SessionEvent → Option (MergeSystem ι)
  | (i, event) =>
    let session := σ.sessions i
    match event with
    | .beginTransaction =>
      if session.inTransaction = false ∧ session.call = .idle then
        some (σ.setSession i { session with inTransaction := true })
      else none
    | .savepoint =>
      if session.inTransaction = true ∧ session.call = .idle then
        some (σ.setSession i { session with log := .savepoint :: session.log })
      else none
    | .call canonicalId duplicateId =>
      if session.call = .idle then
        some (σ.setSession i { session with call := startCall canonicalId duplicateId })
      else none
    | .lock id =>
      match session.call with
      | .locking canonicalId duplicateId rest =>
        if id ∈ rest ∧ ¬ σ.LockedByOther i id then
          some (σ.setSession i { session with
            log := if session.inTransaction ∧ σ.view i id ≠ none then .lock id :: session.log
              else session.log
            call := .locking canonicalId duplicateId (rest.filter (· ≠ id)) })
        else none
      | _ => none
    | .read =>
      match session.call with
      | .locking canonicalId duplicateId [] =>
        some (σ.setSession i { session with
          call := afterRead (σ.view i) canonicalId duplicateId })
      | _ => none
    | .write =>
      match session.call with
      | .merging canonicalId duplicateId =>
        if ¬ σ.LockedByOther i canonicalId ∧ ¬ σ.LockedByOther i duplicateId then
          if session.inTransaction then
            some (σ.setSession i { session with
              log := .tombstone duplicateId canonicalId :: session.log
              call := .idle })
          else
            some { σ.setSession i { session with call := .idle } with
              committed := σ.committed.overlay [.tombstone duplicateId canonicalId] }
        else none
      | _ => none
    | .raise =>
      if session.inTransaction = false then
        some (σ.setSession i { session with call := .idle })
      else none
    | .rollbackTo older =>
      if session.inTransaction = true ∧
          (session.log.drop (session.log.length - older - 1)).head? = some .savepoint then
        some (σ.setSession i { session with
          log := session.log.drop (session.log.length - older - 1)
          call := .idle })
      else none
    | .rollback =>
      if session.inTransaction = true then
        some (σ.setSession i ⟨false, [], .idle⟩)
      else none
    | .commit =>
      if session.inTransaction = true ∧ session.call = .idle then
        some { σ.setSession i ⟨false, [], .idle⟩ with committed := σ.view i }
      else none

/-- A call of `mergeFileArtifacts` is made inside a transaction. -/
def CallsInTransaction (σ : MergeSystem ι) : ι × SessionEvent → Prop
  | (i, .call _ _) => (σ.sessions i).inTransaction = true
  | _ => True

end MergeSystem

namespace Versions

variable {v : Versions} {log : List Entry} {id into : ArtifactId}

/-- A row that a log wrote has the last written target; the others are as below it. -/
theorem overlay_cases (v : Versions) (log : List Entry) (id : ArtifactId) :
    v.overlay log id = v id ∧ (∀ c, Entry.tombstone id c ∉ log) ∨
      ∃ c, Entry.tombstone id c ∈ log ∧ v.overlay log id = (v id).map fun _ => .merged c := by
  induction log with
  | nil => exact .inl ⟨rfl, fun _ => not_mem_nil⟩
  | cons entry log ih =>
    have hover : v.overlay (entry :: log) = entry.over (v.overlay log) := rfl
    rw [hover]
    by_cases hwrite : ∃ c, entry = .tombstone id c
    · obtain ⟨c, rfl⟩ := hwrite
      refine .inr ⟨c, mem_cons_self, ?_⟩
      simp only [Entry.over, if_true]
      rcases ih with ⟨h, -⟩ | ⟨c', -, h⟩ <;> simp [h, Function.comp_def]
    · have hsame : entry.over (v.overlay log) id = v.overlay log id := by
        cases entry with
        | savepoint => rfl
        | lock _ => rfl
        | tombstone d c =>
          have hne : id ≠ d := by
            rintro rfl
            exact hwrite ⟨c, rfl⟩
          simp [Entry.over, hne]
      rw [hsame]
      rcases ih with ⟨h, hnone⟩ | ⟨c, hc, h⟩
      · refine .inl ⟨h, fun c hmem => ?_⟩
        rcases mem_cons.mp hmem with heq | hmem
        · exact hwrite ⟨c, heq.symm⟩
        · exact hnone c hmem
      · exact .inr ⟨c, mem_cons_of_mem _ hc, h⟩

/-- A log makes and removes no row. -/
theorem overlay_eq_none : v.overlay log id = none ↔ v id = none := by
  rcases overlay_cases v log id with ⟨h, -⟩ | ⟨c, -, h⟩ <;> simp [h]

/-- A pointer that is seen is below the log or in it. -/
theorem overlay_mergedInto (h : (v.overlay log).mergedInto id = some into) :
    v.mergedInto id = some into ∨ Entry.tombstone id into ∈ log := by
  rw [mergedInto_eq_some] at h
  rcases overlay_cases v log id with ⟨hsame, -⟩ | ⟨c, hc, hwrite⟩
  · exact .inl (mergedInto_eq_some.mpr (hsame ▸ h))
  · rw [hwrite, map_eq_some_iff] at h
    obtain ⟨-, -, heq⟩ := h
    cases heq
    exact .inr hc

end Versions

/-- A log holds the locks of both rows before it writes a tombstone. -/
inductive Covered : List Entry → Prop
  | nil : Covered []
  | savepoint {log : List Entry} (h : Covered log) : Covered (.savepoint :: log)
  | lock {log : List Entry} (id : ArtifactId) (h : Covered log) : Covered (.lock id :: log)
  | tombstone {log : List Entry} {d c : ArtifactId} (hd : .lock d ∈ log) (hc : .lock c ∈ log)
      (h : Covered log) : Covered (.tombstone d c :: log)

namespace Covered

variable {log : List Entry} {d c : ArtifactId}

/-- What is written is locked. -/
theorem locked (h : Covered log) (hmem : Entry.tombstone d c ∈ log) :
    Entry.lock d ∈ log ∧ Entry.lock c ∈ log := by
  induction h with
  | nil => cases hmem
  | savepoint _ ih | lock _ _ ih =>
    rcases mem_cons.mp hmem with heq | hmem
    · cases heq
    · exact ⟨mem_cons_of_mem _ (ih hmem).1, mem_cons_of_mem _ (ih hmem).2⟩
  | tombstone hd hc _ ih =>
    rcases mem_cons.mp hmem with heq | hmem
    · cases heq
      exact ⟨mem_cons_of_mem _ hd, mem_cons_of_mem _ hc⟩
    · exact ⟨mem_cons_of_mem _ (ih hmem).1, mem_cons_of_mem _ (ih hmem).2⟩

/-- Going back to a savepoint drops the newest entries. -/
theorem drop (h : Covered log) (n : ℕ) : Covered (log.drop n) := by
  induction n generalizing log with
  | zero => exact h
  | succ n ih =>
    cases h with
    | nil => exact .nil
    | savepoint h | lock _ h | tombstone _ _ h => exact ih h

end Covered

/-- What a session's log and call promise about the pointers `all` of every session. -/
structure SessionOk (committed : Versions) (all : ArtifactId → Option ArtifactId)
    (session : Session) : Prop where
  covered : Covered session.log
  outside : session.inTransaction = false → session.log = [] ∧ session.call = .idle
  locking : ∀ c d rest, session.call = .locking c d rest → c ≠ d ∧
    ∀ id, id = c ∨ id = d → id ∉ rest → committed id ≠ none → Entry.lock id ∈ session.log
  merging : ∀ c d, session.call = .merging c d → c ≠ d ∧
    ∀ id, id = c ∨ id = d → Entry.lock id ∈ session.log ∧ all id = none ∧ committed id ≠ none

/-- A call starts without locks. -/
theorem SessionOk.startCall {committed : Versions} {all : ArtifactId → Option ArtifactId}
    {session : Session} (h : SessionOk committed all session)
    (htx : session.inTransaction = true) (c d : ArtifactId) :
    SessionOk committed all { session with call := MergeSystem.startCall c d } := by
  refine ⟨h.covered, fun hfalse => ?_, ?_, ?_⟩
  · exact absurd (htx.symm.trans hfalse) (by decide)
  · intro c' d' rest hcall
    unfold MergeSystem.startCall at hcall
    split at hcall
    · cases hcall
    · next hne =>
      cases hcall
      refine ⟨hne, fun id hid hrest => ?_⟩
      rcases hid with rfl | rfl <;> simp at hrest
  · intro c' d' hcall
    unfold MergeSystem.startCall at hcall
    split at hcall <;> cases hcall

/-- Without a call nothing is promised but the log. -/
theorem SessionOk.idle {committed : Versions} {all : ArtifactId → Option ArtifactId}
    {log : List Entry} {inTransaction : Bool} (hcovered : Covered log)
    (hout : inTransaction = false → log = []) :
    SessionOk committed all ⟨inTransaction, log, .idle⟩ :=
  ⟨hcovered, fun hfalse => ⟨hout hfalse, rfl⟩, nofun, nofun⟩

namespace MergeSystem

variable {ι : Type} [DecidableEq ι]

/-- `all` are the committed pointers with those that open transactions wrote. -/
structure Tracks (σ : MergeSystem ι) (all : ArtifactId → Option ArtifactId) : Prop where
  forest : Forest all
  committed : ∀ d c, σ.committed.mergedInto d = some c → all d = some c
  logged : ∀ i d c, Entry.tombstone d c ∈ (σ.sessions i).log → all d = some c
  only : ∀ d c, all d = some c →
    σ.committed.mergedInto d = some c ∨ ∃ i, Entry.tombstone d c ∈ (σ.sessions i).log
  rows : ∀ d c, all d = some c → σ.committed d ≠ none ∧ σ.committed c ≠ none
  exclusive : ∀ i j id, Entry.lock id ∈ (σ.sessions i).log → Entry.lock id ∈ (σ.sessions j).log →
    i = j
  session : ∀ i, SessionOk σ.committed all (σ.sessions i)

/-- The tombstones of every session form a forest. -/
def Sound (σ : MergeSystem ι) : Prop := ∃ all, σ.Tracks all

variable {σ : MergeSystem ι} {all : ArtifactId → Option ArtifactId} {i : ι} {session : Session}

@[simp] theorem sessions_setSession_self : (σ.setSession i session).sessions i = session :=
  Function.update_self ..

theorem sessions_setSession_of_ne {j : ι} (h : j ≠ i) :
    (σ.setSession i session).sessions j = σ.sessions j := Function.update_of_ne h ..

omit [DecidableEq ι] in
/-- A session keeps the other locks to itself. -/
theorem Tracks.notLocked (h : σ.Tracks all) {id : ArtifactId}
    (hlock : Entry.lock id ∈ (σ.sessions i).log) {j : ι} (hj : j ≠ i) :
    Entry.lock id ∉ (σ.sessions j).log :=
  fun hmem => hj (h.exclusive j i id hmem hlock)

/-- The locks stay exclusive when a session adds only free ones. -/
theorem Tracks.exclusive_setSession (h : σ.Tracks all)
    (hlocks : ∀ id, Entry.lock id ∈ session.log →
      Entry.lock id ∈ (σ.sessions i).log ∨ ¬ σ.LockedByOther i id) (j k : ι) (id : ArtifactId)
    (hj : Entry.lock id ∈ ((σ.setSession i session).sessions j).log)
    (hk : Entry.lock id ∈ ((σ.setSession i session).sessions k).log) : j = k := by
  have hother : ∀ l, l ≠ i → Entry.lock id ∈ (σ.sessions l).log → Entry.lock id ∉ session.log := by
    intro l hl hmem hnew
    rcases hlocks id hnew with hold | hfree
    · exact hl (h.exclusive l i id hmem hold)
    · exact hfree ⟨l, hl, hmem⟩
  by_cases hji : j = i
  · by_cases hki : k = i
    · rw [hji, hki]
    · subst hji
      rw [sessions_setSession_self] at hj
      rw [sessions_setSession_of_ne hki] at hk
      exact absurd hj (hother k hki hk)
  · rw [sessions_setSession_of_ne hji] at hj
    by_cases hki : k = i
    · subst hki
      rw [sessions_setSession_self] at hk
      exact absurd hk (hother j hji hj)
    · rw [sessions_setSession_of_ne hki] at hk
      exact h.exclusive j k id hj hk

/-- A step that writes nothing. -/
theorem Tracks.setSession (h : σ.Tracks all)
    (hwrites : ∀ d c, Entry.tombstone d c ∈ session.log ↔ Entry.tombstone d c ∈ (σ.sessions i).log)
    (hlocks : ∀ id, Entry.lock id ∈ session.log →
      Entry.lock id ∈ (σ.sessions i).log ∨ ¬ σ.LockedByOther i id)
    (hok : SessionOk σ.committed all session) : (σ.setSession i session).Tracks all := by
  have hsame : ∀ j d c, Entry.tombstone d c ∈ ((σ.setSession i session).sessions j).log ↔
      Entry.tombstone d c ∈ (σ.sessions j).log := by
    intro j d c
    by_cases hj : j = i
    · subst hj
      rw [sessions_setSession_self, hwrites]
    · rw [sessions_setSession_of_ne hj]
  refine { h with logged := ?_, only := ?_, exclusive := ?_, session := ?_ }
  · intro j d c hmem
    exact h.logged j d c ((hsame j d c).mp hmem)
  · intro d c hdc
    rcases h.only d c hdc with hc | ⟨j, hj⟩
    · exact .inl hc
    · exact .inr ⟨j, (hsame j d c).mpr hj⟩
  · exact h.exclusive_setSession hlocks
  · intro j
    by_cases hj : j = i
    · subst hj
      rw [sessions_setSession_self]
      exact hok
    · rw [sessions_setSession_of_ne hj]
      exact h.session j

/-- A tombstone written under both locks links a root under another root. -/
theorem Tracks.write {c d : ArtifactId} (h : σ.Tracks all)
    (hcall : (σ.sessions i).call = .merging c d) (htx : (σ.sessions i).inTransaction = true) :
    (σ.setSession i { σ.sessions i with
      log := .tombstone d c :: (σ.sessions i).log
      call := .idle }).Tracks (linkUnder all d c) := by
  obtain ⟨hne, hmerging⟩ := (h.session i).merging c d hcall
  obtain ⟨hclock, hcnone, hcrow⟩ := hmerging c (.inl rfl)
  obtain ⟨hdlock, hdnone, hdrow⟩ := hmerging d (.inr rfl)
  have hself : linkUnder all d c d = some c := Function.update_self ..
  have hkeep : ∀ {x y : ArtifactId}, all x = some y → linkUnder all d c x = some y := by
    intro x y hxy
    have hx : x ≠ d := by
      rintro rfl
      rw [hdnone] at hxy
      cases hxy
    exact (Function.update_of_ne hx _ _).trans hxy
  have hnew : ∀ {x y : ArtifactId}, linkUnder all d c x = some y →
      (x = d ∧ y = c) ∨ all x = some y := by
    intro x y hxy
    by_cases hx : x = d
    · subst hx
      exact .inl ⟨rfl, Option.some.inj (hxy.symm.trans hself)⟩
    · exact .inr ((Function.update_of_ne hx _ _).symm.trans hxy)
  constructor
  · exact h.forest.link hdnone hcnone hne
  · intro x y hxy
    exact hkeep (h.committed x y hxy)
  · intro j x y hmem
    by_cases hj : j = i
    · subst hj
      rw [sessions_setSession_self] at hmem
      rcases mem_cons.mp hmem with heq | hmem
      · cases heq
        exact hself
      · exact hkeep (h.logged j x y hmem)
    · rw [sessions_setSession_of_ne hj] at hmem
      exact hkeep (h.logged j x y hmem)
  · intro x y hxy
    rcases hnew hxy with ⟨rfl, rfl⟩ | hold
    · exact .inr ⟨i, by rw [sessions_setSession_self]; exact mem_cons_self⟩
    · rcases h.only x y hold with hc | ⟨j, hj⟩
      · exact .inl hc
      · refine .inr ⟨j, ?_⟩
        by_cases hji : j = i
        · subst hji
          rw [sessions_setSession_self]
          exact mem_cons_of_mem _ hj
        · rwa [sessions_setSession_of_ne hji]
  · intro x y hxy
    rcases hnew hxy with ⟨rfl, rfl⟩ | hold
    · exact ⟨hdrow, hcrow⟩
    · exact h.rows x y hold
  · apply h.exclusive_setSession
    intro id hmem
    rcases mem_cons.mp hmem with heq | hmem
    · cases heq
    · exact .inl hmem
  · intro j
    by_cases hj : j = i
    · subst hj
      rw [sessions_setSession_self]
      exact {
        covered := .tombstone hdlock hclock (h.session j).covered
        outside := fun hout => absurd htx (by simp [show (σ.sessions j).inTransaction = false from hout])
        locking := nofun
        merging := nofun }
    · rw [sessions_setSession_of_ne hj]
      refine { h.session j with merging := ?_ }
      intro c' d' hcall'
      obtain ⟨hne', hmerging'⟩ := (h.session j).merging c' d' hcall'
      refine ⟨hne', fun id hid => ?_⟩
      obtain ⟨hlock, hnone, hrow⟩ := hmerging' id hid
      have hid : id ≠ d := by
        rintro rfl
        exact h.notLocked hdlock hj hlock
      exact ⟨hlock, (Function.update_of_ne hid _ _).trans hnone, hrow⟩

open Classical in
/-- The pointers that are committed or in a log. -/
noncomputable def written (σ : MergeSystem ι) (all : ArtifactId → Option ArtifactId)
    (d : ArtifactId) : Option ArtifactId :=
  (all d).filter fun c => decide (σ.committed.mergedInto d = some c ∨
    ∃ j, Entry.tombstone d c ∈ (σ.sessions j).log)

omit [DecidableEq ι] in
theorem written_eq_some {d c : ArtifactId} : σ.written all d = some c ↔ all d = some c ∧
    (σ.committed.mergedInto d = some c ∨ ∃ j, Entry.tombstone d c ∈ (σ.sessions j).log) := by
  simp [written, filter_eq_some_iff]

/-- A session that goes back drops its newest writes. -/
theorem Tracks.goBack (h : σ.Tracks all) {log : List Entry} {inTransaction : Bool}
    (hsub : ∀ entry ∈ log, entry ∈ (σ.sessions i).log) (hcovered : Covered log)
    (hout : inTransaction = false → log = []) :
    (σ.setSession i ⟨inTransaction, log, .idle⟩).Tracks
      ((σ.setSession i ⟨inTransaction, log, .idle⟩).written all) := by
  have hlogs : ∀ j, ∀ entry ∈ ((σ.setSession i ⟨inTransaction, log, .idle⟩).sessions j).log,
      entry ∈ (σ.sessions j).log := by
    intro j entry hmem
    by_cases hj : j = i
    · subst hj
      rw [sessions_setSession_self] at hmem
      exact hsub entry hmem
    · rwa [sessions_setSession_of_ne hj] at hmem
  constructor
  · exact h.forest.of_le fun d c hdc => (written_eq_some.mp hdc).1
  · intro d c hdc
    exact written_eq_some.mpr ⟨h.committed d c hdc, .inl hdc⟩
  · intro j d c hmem
    exact written_eq_some.mpr ⟨h.logged j d c (hlogs j _ hmem), .inr ⟨j, hmem⟩⟩
  · intro d c hdc
    exact (written_eq_some.mp hdc).2
  · intro d c hdc
    exact h.rows d c (written_eq_some.mp hdc).1
  · exact h.exclusive_setSession fun id hmem => .inl (hsub _ hmem)
  · intro j
    by_cases hj : j = i
    · subst hj
      rw [sessions_setSession_self]
      exact ⟨hcovered, fun hfalse => ⟨hout hfalse, rfl⟩, nofun, nofun⟩
    · rw [sessions_setSession_of_ne hj]
      refine { h.session j with merging := ?_ }
      intro c d hcall
      obtain ⟨hne, hmerging⟩ := (h.session j).merging c d hcall
      refine ⟨hne, fun id hid => ?_⟩
      obtain ⟨hlock, hnone, hrow⟩ := hmerging id hid
      exact ⟨hlock, by simp [written, hnone], hrow⟩

omit [DecidableEq ι] in
/-- A session sees its own writes and what is committed. -/
theorem Tracks.view_mergedInto (h : σ.Tracks all) {d c : ArtifactId} (hdc : all d = some c)
    (hseen : σ.committed.mergedInto d = some c ∨ Entry.tombstone d c ∈ (σ.sessions i).log) :
    (σ.view i).mergedInto d = some c := by
  rw [Versions.mergedInto_eq_some]
  rcases Versions.overlay_cases σ.committed (σ.sessions i).log d with
    ⟨hsame, hnone⟩ | ⟨c', hmem, hwrite⟩
  · rcases hseen with hcommitted | hmem
    · exact hsame.trans (Versions.mergedInto_eq_some.mp hcommitted)
    · exact absurd hmem (hnone c)
  · obtain rfl := Option.some.inj (hdc.symm.trans (h.logged i d c' hmem))
    obtain ⟨status, hstatus⟩ := ne_none_iff_exists'.mp (h.rows d c hdc).1
    unfold view
    rw [hwrite, hstatus, map_some]

omit [DecidableEq ι] in
/-- What a session sees of the pointers is among them. -/
theorem Tracks.of_view (h : σ.Tracks all) {d c : ArtifactId}
    (hseen : (σ.view i).mergedInto d = some c) : all d = some c := by
  rcases Versions.overlay_mergedInto hseen with hcommitted | hmem
  · exact h.committed d c hcommitted
  · exact h.logged i d c hmem

/-- A commit publishes what the session wrote. -/
theorem Tracks.commit (h : σ.Tracks all) :
    Tracks { σ.setSession i ⟨false, [], .idle⟩ with committed := σ.view i } all := by
  have hrow : ∀ id, σ.view i id ≠ none ↔ σ.committed id ≠ none :=
    fun id => not_congr Versions.overlay_eq_none
  have hself : (σ.setSession i ⟨false, [], .idle⟩).sessions i = ⟨false, [], .idle⟩ :=
    sessions_setSession_self
  constructor
  · exact h.forest
  · intro d c hdc
    exact h.of_view hdc
  · intro j d c hmem
    by_cases hj : j = i
    · subst hj
      rw [hself] at hmem
      cases hmem
    · rw [sessions_setSession_of_ne hj] at hmem
      exact h.logged j d c hmem
  · intro d c hdc
    rcases h.only d c hdc with hcommitted | ⟨j, hmem⟩
    · exact .inl (h.view_mergedInto hdc (.inl hcommitted))
    · by_cases hj : j = i
      · subst hj
        exact .inl (h.view_mergedInto hdc (.inr hmem))
      · refine .inr ⟨j, ?_⟩
        rwa [sessions_setSession_of_ne hj]
  · intro d c hdc
    exact ⟨(hrow d).mpr (h.rows d c hdc).1, (hrow c).mpr (h.rows d c hdc).2⟩
  · apply h.exclusive_setSession
    nofun
  · intro j
    by_cases hj : j = i
    · subst hj
      rw [hself]
      exact ⟨.nil, fun _ => ⟨rfl, rfl⟩, nofun, nofun⟩
    · rw [sessions_setSession_of_ne hj]
      obtain ⟨hcovered, hout, hlocking, hmerging⟩ := h.session j
      refine ⟨hcovered, hout, ?_, ?_⟩
      · intro c d rest hcall
        obtain ⟨hne, hlocks⟩ := hlocking c d rest hcall
        exact ⟨hne, fun id hid hrest hid' => hlocks id hid hrest ((hrow id).mp hid')⟩
      · intro c d hcall
        obtain ⟨hne, hlocks⟩ := hmerging c d hcall
        refine ⟨hne, fun id hid => ?_⟩
        obtain ⟨hlock, hnone, hid'⟩ := hlocks id hid
        exact ⟨hlock, hnone, (hrow id).mpr hid'⟩

omit [DecidableEq ι] in
/-- A locked row that a session sees as active is a root for every session. -/
theorem Tracks.isRoot (h : σ.Tracks all) {id : ArtifactId}
    (hlock : Entry.lock id ∈ (σ.sessions i).log) (hactive : σ.view i id = some .active) :
    all id = none := by
  by_contra hne
  obtain ⟨c, hc⟩ := ne_none_iff_exists'.mp hne
  have hseen : σ.committed.mergedInto id = some c ∨ Entry.tombstone id c ∈ (σ.sessions i).log := by
    rcases h.only id c hc with hcommitted | ⟨j, hmem⟩
    · exact .inl hcommitted
    · have hj : j = i := h.exclusive j i id ((h.session j).covered.locked hmem).1 hlock
      exact .inr (hj ▸ hmem)
  have hmerged := Versions.mergedInto_eq_some.mp (h.view_mergedInto hc hseen)
  rw [hactive] at hmerged
  cases hmerged

omit [DecidableEq ι] in
/-- A session calls within a transaction. -/
theorem Tracks.inTransaction (h : σ.Tracks all) (hcall : (σ.sessions i).call ≠ .idle) :
    (σ.sessions i).inTransaction = true := by
  by_contra hfalse
  exact hcall ((h.session i).outside (by simpa using hfalse)).2

omit [DecidableEq ι] in
/-- What a call does after its read keeps what the session promises. -/
theorem Tracks.afterRead (h : σ.Tracks all) {c d : ArtifactId}
    (hcall : (σ.sessions i).call = .locking c d []) :
    SessionOk σ.committed all
      { σ.sessions i with call := MergeSystem.afterRead (σ.view i) c d } := by
  obtain ⟨hne, hlocks⟩ := (h.session i).locking c d [] hcall
  have htx := h.inTransaction (by rw [hcall]; exact nofun)
  have hidle : SessionOk σ.committed all { σ.sessions i with call := .idle } :=
    .idle (h.session i).covered fun hfalse => absurd (htx.symm.trans hfalse) (by decide)
  have hrow : ∀ id, id = c ∨ id = d → σ.view i id = some .active →
      Entry.lock id ∈ (σ.sessions i).log ∧ all id = none ∧ σ.committed id ≠ none := by
    intro id hid hactive
    have hexists : σ.committed id ≠ none := by
      intro hnone
      have hunseen : σ.view i id = none := Versions.overlay_eq_none.mpr hnone
      rw [hactive] at hunseen
      cases hunseen
    have hlock := hlocks id hid not_mem_nil hexists
    exact ⟨hlock, h.isRoot hlock hactive, hexists⟩
  unfold MergeSystem.afterRead mergeDecision
  cases hc : σ.view i c with
  | none => exact hidle
  | some canonical =>
    cases hd : σ.view i d with
    | none => exact hidle
    | some duplicate =>
      cases canonical with
      | merged into => exact (h.session i).startCall htx into d
      | active =>
        cases duplicate with
        | merged into =>
          by_cases hinto : into = c
          · simp only [id, hinto, if_true]
            exact hidle
          · simp only [id, hinto, if_false]
            exact (h.session i).startCall htx c into
        | active =>
          refine ⟨(h.session i).covered, fun hfalse => ?_, nofun, ?_⟩
          · exact absurd (htx.symm.trans hfalse) (by decide)
          · intro c' d' hmerging
            cases hmerging
            refine ⟨hne, fun id hid => ?_⟩
            rcases hid with rfl | rfl
            · exact hrow _ (.inl rfl) hc
            · exact hrow _ (.inr rfl) hd

/-- Locking a free row. -/
theorem Tracks.lock (h : σ.Tracks all) {c d id : ArtifactId} {rest : List ArtifactId}
    (hcall : (σ.sessions i).call = .locking c d rest) (hfree : ¬ σ.LockedByOther i id) :
    (σ.setSession i { σ.sessions i with
      log := if (σ.sessions i).inTransaction ∧ σ.view i id ≠ none then
        .lock id :: (σ.sessions i).log else (σ.sessions i).log
      call := .locking c d (rest.filter (· ≠ id)) }).Tracks all := by
  obtain ⟨hne, hlocks⟩ := (h.session i).locking c d rest hcall
  have htx := h.inTransaction (by rw [hcall]; exact nofun)
  apply h.setSession
  · intro d' c'
    split <;> simp
  · intro x hx
    split at hx
    · rcases mem_cons.mp hx with heq | hx
      · cases heq
        exact .inr hfree
      · exact .inl hx
    · exact .inl hx
  · refine ⟨?_, fun hfalse => ?_, ?_, nofun⟩
    · change Covered (if _ then _ else _)
      split
      · exact .lock id (h.session i).covered
      · exact (h.session i).covered
    · exact absurd (htx.symm.trans hfalse) (by decide)
    · intro c' d' rest' hcall'
      cases hcall'
      refine ⟨hne, fun x hx hrest hrow => ?_⟩
      by_cases hxid : x = id
      · have hseen : σ.view i id ≠ none := by
          intro hnone
          exact hrow (hxid ▸ Versions.overlay_eq_none.mp hnone)
        rw [if_pos ⟨htx, hseen⟩, hxid]
        exact mem_cons_self
      · have hold : Entry.lock x ∈ (σ.sessions i).log := by
          apply hlocks x hx _ hrow
          intro hmem
          exact hrest (mem_filter.mpr ⟨hmem, by simpa using hxid⟩)
        split
        · exact mem_cons_of_mem _ hold
        · exact hold

/-- A step whose calls are inside transactions keeps the forest of all sessions. -/
theorem sound_step [Fintype ι] (σ : MergeSystem ι) (event : ι × SessionEvent)
    (σ' : MergeSystem ι) (hsound : σ.Sound) (hguard : CallsInTransaction σ event)
    (hstep : step σ event = some σ') : σ'.Sound := by
  obtain ⟨all, h⟩ := hsound
  obtain ⟨i, event⟩ := event
  cases event with
  | beginTransaction =>
    simp only [step] at hstep
    split at hstep
    · next hidle =>
      cases hstep
      refine ⟨all, h.setSession (fun _ _ => Iff.rfl) (fun _ hmem => .inl hmem) ?_⟩
      refine ⟨(h.session i).covered, nofun, ?_, ?_⟩
      · exact (h.session i).locking
      · exact (h.session i).merging
    · cases hstep
  | savepoint =>
    simp only [step] at hstep
    split at hstep
    · next htx =>
      cases hstep
      refine ⟨all, h.setSession (fun _ _ => by simp) (fun _ hmem => .inl (by simpa using hmem)) ?_⟩
      rw [htx.2]
      exact .idle (.savepoint (h.session i).covered) fun hfalse =>
        absurd (htx.1.symm.trans hfalse) (by decide)
    · cases hstep
  | call c d =>
    simp only [step] at hstep
    split at hstep
    · cases hstep
      exact ⟨all, h.setSession (fun _ _ => Iff.rfl) (fun _ hmem => .inl hmem)
        ((h.session i).startCall hguard c d)⟩
    · cases hstep
  | lock id =>
    simp only [step] at hstep
    cases hcall : (σ.sessions i).call with
    | idle | merging => simp [hcall] at hstep
    | locking c d rest =>
      simp only [hcall] at hstep
      split at hstep
      · next hfree =>
        cases hstep
        exact ⟨all, h.lock hcall hfree.2⟩
      · cases hstep
  | read =>
    simp only [step] at hstep
    cases hcall : (σ.sessions i).call with
    | idle | merging => simp [hcall] at hstep
    | locking c d rest =>
      cases rest with
      | cons => simp [hcall] at hstep
      | nil =>
        simp only [hcall] at hstep
        cases hstep
        exact ⟨all, h.setSession (fun _ _ => Iff.rfl) (fun _ hmem => .inl hmem) (h.afterRead hcall)⟩
  | write =>
    simp only [step] at hstep
    cases hcall : (σ.sessions i).call with
    | idle | locking => simp [hcall] at hstep
    | merging c d =>
      have htx := h.inTransaction (by rw [hcall]; exact nofun)
      simp only [hcall, htx, if_true] at hstep
      split at hstep
      · cases hstep
        exact ⟨_, by simpa only [htx] using h.write hcall htx⟩
      · cases hstep
  | raise =>
    simp only [step] at hstep
    split at hstep
    · next hout =>
      cases hstep
      refine ⟨all, h.setSession (fun _ _ => Iff.rfl) (fun _ hmem => .inl hmem) ?_⟩
      exact .idle (h.session i).covered fun hfalse => ((h.session i).outside hfalse).1
    · cases hstep
  | rollbackTo older =>
    simp only [step] at hstep
    split at hstep
    · next htx =>
      cases hstep
      refine ⟨_, h.goBack (fun _ hmem => mem_of_mem_drop hmem)
        ((h.session i).covered.drop _) fun hfalse => ?_⟩
      exact absurd (htx.1.symm.trans hfalse) (by decide)
    · cases hstep
  | rollback =>
    simp only [step] at hstep
    split at hstep
    · cases hstep
      exact ⟨_, h.goBack nofun .nil fun _ => rfl⟩
    · cases hstep
  | commit =>
    simp only [step] at hstep
    split at hstep
    · cases hstep
      exact ⟨all, h.commit⟩
    · cases hstep

/-- The table of a database and sessions that have not begun. -/
def start (ι : Type) (s : Database) : MergeSystem ι :=
  ⟨s.tables.versions, fun _ => ⟨false, [], .idle⟩⟩

end MergeSystem

theorem neverRaises_write (change : Tables → Tables) :
    NeverRaises .endlessRecursion (write change) := by
  intro s s' h
  unfold write at h
  split at h
  · split at h <;> cases h
  · cases h

theorem neverRaises_query {α : Type} (read : Tables → α) :
    NeverRaises .endlessRecursion (query read) := nofun

theorem neverRaises_moveHash (canonicalId : ArtifactId) (h : HashRow) :
    NeverRaises .endlessRecursion (moveHash canonicalId h) := by
  apply (neverRaises_query _).bind
  intro existing
  cases existing.filter fun ex => decide (ex.id ≠ h.id) with
  | none => exact neverRaises_write _
  | some ex =>
    simp only
    split
    · exact (neverRaises_write _).bind fun _ => (neverRaises_write _).bind fun _ =>
        neverRaises_write _
    · exact .of_pure _ _

theorem neverRaises_moveLink (canonicalId : ArtifactId) (link : LinkRow) :
    NeverRaises .endlessRecursion (moveLink canonicalId link) := by
  apply (neverRaises_query _).bind
  intro existing
  cases existing.filter fun ex => decide (ex.id ≠ link.id) with
  | none => exact neverRaises_write _
  | some ex =>
    simp only
    split
    · exact neverRaises_write _
    · exact .of_pure _ _

/-- Moving the rows of a duplicate recurs nowhere. -/
theorem neverRaises_performMerge (input : MergeInput) (canonical duplicate : Artifact) :
    NeverRaises .endlessRecursion (performMerge input canonical duplicate) := by
  have hrecompute : NeverRaises .endlessRecursion (recomputePrimaryHash canonical.id) := by
    apply NeverRaises.of_returns
    intro s
    obtain ⟨r, s', h, -⟩ := recomputePrimaryHash_returns canonical.id s
    exact ⟨r, s', h⟩
  have hsync : NeverRaises .endlessRecursion (syncCanonicalIocFlag canonical.id) := by
    apply NeverRaises.of_returns
    intro s
    obtain ⟨s', h, -⟩ := syncCanonicalIocFlag_returns canonical.id s
    exact ⟨_, s', h⟩
  apply (neverRaises_query _).bind
  intro dupHashes
  apply (NeverRaises.forM (neverRaises_moveHash canonical.id) dupHashes).bind
  intro _
  apply (neverRaises_query _).bind
  intro dupLinks
  apply (NeverRaises.forM (neverRaises_moveLink canonical.id) dupLinks).bind
  intro _
  apply (neverRaises_write _).bind
  intro _
  apply (neverRaises_query _).bind
  intro attrs
  apply (NeverRaises.forM (fun a => neverRaises_write _) attrs).bind
  intro _
  apply (neverRaises_write _).bind
  intro _
  apply (neverRaises_write _).bind
  intro _
  apply (neverRaises_write _).bind
  intro _
  apply hrecompute.bind
  intro primary
  apply hsync.bind
  intro _
  exact .of_pure _ _

/-- Every recursion along the tombstones of `s` returns. -/
structure RecursionsEnd (s : Database) : Prop where
  findActiveArtifact : ∀ id, ∃ a, Returns (findActiveArtifact s.tables.chainBound id) s a s
  loadArtifactDetail : ∀ requestedPublicId id, ∃ detail,
    Returns (loadArtifactDetail requestedPublicId s.tables.chainBound id) s detail s
  mergeFileArtifacts : ∀ input s', mergeFileArtifacts input s ≠ .error .endlessRecursion s'

variable {s : Database}

/-- On a forest of tombstones every recursion ends. -/
theorem recursionsEnd (hforest : s.tables.TombstoneForest) : RecursionsEnd s := by
  refine ⟨fun id => ?_, fun requestedPublicId id => ?_, fun input s' h => ?_⟩
  · obtain ⟨n, root, hlead⟩ := hforest id
    exact ⟨_, findActiveArtifact_chainBound hlead⟩
  · obtain ⟨n, root, hlead⟩ := hforest id
    refine ⟨_, loadArtifactDetail_eq requestedPublicId hlead ?_⟩
    have := Tables.chain_length_le hlead
    unfold Tables.chainBound
    omega
  · cases hc : input.canonicalArtifactId with
    | none =>
      simp only [mergeFileArtifacts, hc] at h
      cases h
    | some c =>
      cases hd : input.duplicateArtifactId with
      | none =>
        simp only [mergeFileArtifacts, hc, hd] at h
        cases h
      | some d =>
        obtain ⟨n, rc, hcroot⟩ := hforest c
        obtain ⟨m, rd, hdroot⟩ := hforest d
        by_cases hrows : (s.tables.artifact? c).isSome ∧ (s.tables.artifact? d).isSome
        · cases mergeFileArtifacts_outcome hcroot hdroot hrows.1 hrows.2 ⟨hc, hd⟩ with
          | same _ result _ hreturns =>
            rw [hreturns] at h
            cases h
          | merges _ canonical duplicate _ _ _ _ heq =>
            rw [heq] at h
            exact neverRaises_performMerge _ _ _ _ _ h
        · have hrow : s.tables.artifact? c = none ∨ s.tables.artifact? d = none := by
            simpa [isSome_iff_ne_none, or_iff_not_imp_left] using hrows
          by_cases hne : c = d
          · subst hne
            rw [mergeFileArtifacts_self ⟨hc, hd⟩] at h
            cases h
          · rw [mergeFileArtifacts_notFound hne hrow ⟨hc, hd⟩] at h
            cases h

section Interleavings

variable {ι : Type}

/-- At the start the tombstones of every session are the committed ones. -/
theorem MergeSystem.sound_start (hforest : s.tables.TombstoneForest) :
    (MergeSystem.start ι s).Sound := by
  have hmerged : ∀ d c, s.tables.versions.mergedInto d = some c → s.tables.mergedInto d = some c := by
    intro d c hdc
    rwa [Tables.versions_mergedInto] at hdc
  refine ⟨s.tables.mergedInto, hforest, hmerged, nofun, ?_, ?_, nofun, fun _ => ?_⟩
  · intro d c hdc
    exact .inl (by rwa [← Tables.versions_mergedInto] at hdc)
  · intro d c hdc
    obtain ⟨a, ha, -⟩ := Tables.mergedInto_eq_some.mp hdc
    have hc := s.references.target hdc
    constructor
    · simp [MergeSystem.start, Tables.versions, ha]
    · simpa [MergeSystem.start, Tables.versions, isSome_iff_ne_none] using hc
  · exact .idle .nil fun _ => rfl

/-- Every version of the rows that a statement can read is a forest whose chains end in
active artifacts. -/
theorem MergeSystem.Tracks.chains {σ : MergeSystem ι} {all : ArtifactId → Option ArtifactId}
    (h : σ.Tracks all) {v : Versions} (hv : ∀ d c, v.mergedInto d = some c → all d = some c)
    (hrows : ∀ id, v id ≠ none ↔ σ.committed id ≠ none) :
    Forest v.mergedInto ∧
      ∀ id, v id ≠ none → ∃ n root, LeadsTo v.mergedInto n id root ∧ v root = some .active := by
  have hforest : Forest v.mergedInto := h.forest.of_le hv
  refine ⟨hforest, fun id hid => ?_⟩
  obtain ⟨n, root, hlead⟩ := hforest id
  refine ⟨n, root, hlead, ?_⟩
  have hroot : v root ≠ none := by
    induction hlead with
    | root => exact hid
    | step hinto _ ih =>
      apply ih
      rw [hrows]
      exact (h.rows _ _ (hv _ _ hinto)).2
  obtain ⟨status, hstatus⟩ := ne_none_iff_exists'.mp hroot
  cases status with
  | active => exact hstatus
  | merged into =>
    have hinto := Versions.mergedInto_eq_some.mpr hstatus
    rw [hlead.isRoot] at hinto
    cases hinto

variable [DecidableEq ι] [Fintype ι]

/-- When every call of `mergeFileArtifacts` is made inside a transaction, the tombstones stay
a forest whose chains end in active artifacts, for the committed rows and for what every
session sees, and the recursions along them end. -/
theorem merges_keep_forest {s₀ : Database} (hforest : s₀.tables.TombstoneForest)
    {events : List (ι × MergeSystem.SessionEvent)} {σ : MergeSystem ι}
    (hrun : Run MergeSystem.step MergeSystem.CallsInTransaction (MergeSystem.start ι s₀) events σ)
    {v : Versions} (hv : v = σ.committed ∨ ∃ i, v = σ.view i) :
    (∀ id, ¬ Relation.TransGen (fun d c => v.mergedInto d = some c) id id) ∧
      (∀ id, v id ≠ none → ∃ n root, LeadsTo v.mergedInto n id root ∧ v root = some .active) ∧
      ∀ s : Database, s.tables.versions = v → RecursionsEnd s := by
  obtain ⟨all, h⟩ := Run.invariant MergeSystem.sound_step hrun (MergeSystem.sound_start hforest)
  have hchains : Forest v.mergedInto ∧
      ∀ id, v id ≠ none → ∃ n root, LeadsTo v.mergedInto n id root ∧ v root = some .active := by
    rcases hv with rfl | ⟨i, rfl⟩
    · exact h.chains h.committed fun _ => Iff.rfl
    · exact h.chains (fun d c => h.of_view) fun id => not_congr Versions.overlay_eq_none
  refine ⟨hchains.1.acyclic, hchains.2, fun s hs => recursionsEnd ?_⟩
  rw [Tables.TombstoneForest, ← Tables.versions_mergedInto, hs]
  exact hchains.1

/-- Two sessions merge artifacts 1 and 2 into each other, one after the other in
transactions: the second finds the tombstone of the first. -/
def mergesInTransactions : List (Bool × MergeSystem.SessionEvent) :=
  [(true, .beginTransaction), (false, .beginTransaction), (true, .call 1 2), (false, .call 2 1),
    (true, .lock 1), (true, .lock 2), (true, .read), (true, .write), (true, .commit),
    (false, .lock 1), (false, .lock 2), (false, .read), (false, .commit)]

/-- The same two merges with each statement in a transaction of its own, as `pool.query` runs
them: both read both rows as active before either writes. -/
def mergesInAutocommit : List (Bool × MergeSystem.SessionEvent) :=
  [(true, .call 1 2), (false, .call 2 1), (true, .lock 1), (true, .lock 2), (true, .read),
    (false, .lock 1), (false, .lock 2), (false, .read), (true, .write), (false, .write)]

instance (σ : MergeSystem Bool) (event : Bool × MergeSystem.SessionEvent) :
    Decidable (MergeSystem.CallsInTransaction σ event) :=
  match event with
  | (i, .call _ _) => inferInstanceAs (Decidable ((σ.sessions i).inTransaction = true))
  | (_, .beginTransaction) | (_, .savepoint) | (_, .lock _) | (_, .read) | (_, .write)
  | (_, .raise) | (_, .rollbackTo _) | (_, .rollback) | (_, .commit) => isTrue trivial

/-- Two artifacts without tombstones. -/
theorem twoArtifacts_forest (hs : s.tables = twoArtifacts []) : s.tables.TombstoneForest := by
  intro id
  refine ⟨0, id, .root ?_⟩
  by_contra hne
  obtain ⟨into, hinto⟩ := ne_none_iff_exists'.mp hne
  obtain ⟨a, ha, hstatus⟩ := Tables.mergedInto_eq_some.mp hinto
  have hmem := (Rows.mem_of_lookup ha).1
  have hactive : ∀ a ∈ (twoArtifacts []).artifacts, a.status = .active := by decide
  rw [hs] at hmem
  rw [hactive a hmem] at hstatus
  cases hstatus

/-- In transactions artifact 2 ends below artifact 1 and artifact 1 stays active. -/
theorem merges_keep_forest_transactions : ∃ (s₀ : Database) (σ : MergeSystem Bool),
      Run MergeSystem.step MergeSystem.CallsInTransaction (MergeSystem.start Bool s₀)
        mergesInTransactions σ ∧
      σ.committed 2 = some (.merged 1) ∧
      ∀ id, ¬ Relation.TransGen (fun d c => σ.committed.mergedInto d = some c) id id := by
  let s₀ : Database := ⟨twoArtifacts [], by decide, by decide⟩
  have hexec : (Run.exec MergeSystem.step MergeSystem.CallsInTransaction
      (MergeSystem.start Bool s₀) mergesInTransactions).map (fun σ => σ.committed 2) =
        some (some (.merged 1)) := by decide +kernel
  obtain ⟨σ, hσ, htarget⟩ := map_eq_some_iff.mp hexec
  have hrun := Run.of_exec hσ
  exact ⟨s₀, σ, hrun, htarget, (merges_keep_forest (twoArtifacts_forest rfl) hrun (.inl rfl)).1⟩

/-- Without transactions the two merges leave a cycle. -/
theorem merges_leave_cycle : ∃ (s₀ : Database) (σ : MergeSystem Bool), s₀.tables.TombstoneForest ∧
      Run MergeSystem.step (fun _ _ => True) (MergeSystem.start Bool s₀) mergesInAutocommit σ ∧
      Relation.TransGen (fun d c => σ.committed.mergedInto d = some c) 1 1 := by
  let s₀ : Database := ⟨twoArtifacts [], by decide, by decide⟩
  have hexec : (Run.exec MergeSystem.step (fun _ _ => True) (MergeSystem.start Bool s₀)
      mergesInAutocommit).map (fun σ => (σ.committed 1, σ.committed 2)) =
        some (some (.merged 2), some (.merged 1)) := by decide +kernel
  obtain ⟨σ, hσ, htargets⟩ := map_eq_some_iff.mp hexec
  obtain ⟨h₁, h₂⟩ := Prod.mk.inj htargets
  refine ⟨s₀, σ, twoArtifacts_forest rfl, Run.of_exec hσ, ?_⟩
  exact .tail (.single (Versions.mergedInto_eq_some.mpr h₁)) (Versions.mergedInto_eq_some.mpr h₂)

end Interleavings

end TalonHound.FileArtifacts
