import TalonHound.ThreatJobs.FenceRun

/-!
# A displaced run writes nothing

On a fenced handle a connection writes only while it holds the lock of the row, and it got the
lock when the row still belonged to the worker. Nobody else changes the row before the
transaction ends.
-/

namespace TalonHound.ThreatJobs

open Bool Option

variable {token : OwnerToken} {now k : ℕ} {c : Conn} {t : Option Txn} {holds : Prop}
variable {s s' : FenceState} {stmt : Statement}

/-- No transaction is open on the connection. -/
def Conn.Closed : Conn → Prop
  | .inPool => True
  | .helper inTxn => inTxn = false
  | .broken => True
  | _ => False

/-- The fence confirmed the owner in the open transaction. -/
def Conn.Fenced : Conn → Prop
  | .helper inTxn => inTxn = true
  | .single _ _ => True
  | .committing _ => True
  | .callback => True
  | _ => False

theorem Back.closed_conn (back : Back) : back.conn.Closed := by
  cases back with
  | toPool => trivial
  | toHelper => rfl

theorem Conn.Fenced.not_closed (h : c.Fenced) : ¬ c.Closed := by
  intro hclosed
  cases c with
  | helper inTxn => exact false_ne_true ((show inTxn = false from hclosed).symm.trans h)
  | _ => first | exact h | exact hclosed

/-- A connection, its transaction, and whether it holds the lock of the row. -/
structure ConnInv (c : Conn) (t : Option Txn) (holds : Prop) : Prop where
  closed : c.Closed → t = none
  opened : ¬ c.Closed → t.isSome = true
  fenced : c.Fenced → holds
  written : ∀ u ∈ t, u.written ≠ [] → holds

namespace ConnInv

theorem mono {holds' : Prop} (h : ConnInv c t holds) (himp : holds → holds') :
    ConnInv c t holds' :=
  ⟨h.closed, h.opened, fun hc => himp (h.fenced hc), fun u hu hw => himp (h.written u hu hw)⟩

theorem of_closed (hc : c.Closed) : ConnInv c none holds := by
  refine ⟨fun _ => rfl, fun h => absurd hc h, fun h => absurd hc h.not_closed, ?_⟩
  nofun

/-- A connection that holds the lock. -/
theorem of_fenced {u : Txn} (hc : c.Fenced) (hholds : holds) : ConnInv c (some u) holds :=
  ⟨fun h => absurd h hc.not_closed, fun _ => rfl, fun _ => hholds, fun _ _ _ => hholds⟩

end ConnInv

/-- The invariant. -/
structure FenceInv (token : OwnerToken) (s : FenceState) : Prop where
  handle : s.mode.handle = .fenced
  conns : ∀ k, ConnInv (s.conns k) (s.txns k) (s.holder = some k)
  /-- Nobody changes the row under the lock. -/
  held : ∀ k, s.holder = some k → s.job.ownedBy token = true
  /-- The row does not come back to the worker. -/
  gone : s.displaced = true → s.job.ownedBy token = false
  onTime : ∀ e ∈ s.committed, e.origin = .run → e.late = false

namespace FenceInv

section

variable (hinv : FenceInv token s)
include hinv

theorem not_displaced (howned : s.job.ownedBy token = true) :
    s.displaced = false := by
  cases hd : s.displaced with
  | false => rfl
  | true =>
    rw [hinv.gone hd] at howned
    cases howned

theorem setConn (hc : ConnInv c (s.txns k) (s.holder = some k)) :
    FenceInv token (s.setConn k c) := by
  refine { hinv with conns := ?_ }
  intro i
  by_cases hi : i = k
  · subst hi
    simpa [FenceState.setConn] using hc
  · simpa [FenceState.setConn, hi] using hinv.conns i

theorem setTxn {u : Txn} (hc : ConnInv (s.conns k) (some u) (s.holder = some k)) :
    FenceInv token (s.setTxn k (some u)) := by
  refine { hinv with conns := ?_ }
  intro i
  by_cases hi : i = k
  · subst hi
    simpa [FenceState.setTxn] using hc
  · simpa [FenceState.setTxn, hi] using hinv.conns i

/-- The transaction of a connection ends without effect. -/
theorem dropTxn (hc : c.Closed) :
    FenceInv token ((s.dropTxn k).setConn k c) := by
  refine ⟨hinv.handle, ?_, ?_, hinv.gone, hinv.onTime⟩
  · intro i
    by_cases hi : i = k
    · subst hi
      simpa [FenceState.setConn, FenceState.dropTxn, FenceState.setTxn] using ConnInv.of_closed hc
    · have hother := hinv.conns i
      have hholder : s.holder = some i → ((s.dropTxn k).setConn k c).holder = some i := by
        intro h
        simp [FenceState.setConn, FenceState.dropTxn, FenceState.setTxn, h, hi]
      simpa [FenceState.setConn, FenceState.dropTxn, FenceState.setTxn, hi] using
        hother.mono hholder
  · intro i hi
    simp only [FenceState.setConn, FenceState.dropTxn, FenceState.setTxn] at hi
    split at hi
    · cases hi
    · exact hinv.held i hi

/-- A change of the transaction that adds no writes. -/
theorem updateTxn {f : Txn → Txn} (hf : ∀ u, (f u).written ≠ [] → u.written ≠ []) :
    FenceInv token (s.updateTxn k f) := by
  unfold FenceState.updateTxn
  split
  · next u hu =>
    have hk := hinv.conns k
    rw [hu] at hk
    refine hinv.setTxn ⟨?_, fun _ => rfl, hk.fenced, ?_⟩
    · intro hclosed
      cases hk.closed hclosed
    · intro v hv hw
      obtain rfl : f u = v := by simpa using hv
      exact hk.written u rfl (hf u hw)
  · exact hinv

end

variable {next : AfterFence}

section

variable (hinv : FenceInv token s)

include hinv

/-- `BEGIN` before the fence. -/
theorem begin : FenceInv token ((s.beginTxn now k).setConn k (.fencing next)) := by
  have hk := hinv.conns k
  unfold FenceState.beginTxn
  split
  · next u hu =>
    refine hinv.setConn ⟨fun h => h.elim, fun _ => by rw [hu]; rfl, fun h => h.elim, hk.written⟩
  · next hnone =>
    refine { hinv with conns := ?_ }
    intro i
    by_cases hi : i = k
    · subst hi
      have hstart : ConnInv (.fencing next) (some (Txn.start now)) (s.holder = some i) := by
        refine ⟨fun h => h.elim, fun _ => rfl, fun h => h.elim, ?_⟩
        intro u hu hw
        obtain rfl : Txn.start now = u := by simpa using hu
        exact absurd rfl hw
      simpa [FenceState.setConn, FenceState.setTxn] using hstart
    · simpa [FenceState.setConn, FenceState.setTxn, hi] using hinv.conns i

/-- Others change the row only while nobody holds its lock. -/
theorem setJob (job : JobRow) (hfree : s.holder = none)
    (hback : job.ownedBy token = true → s.job.ownedBy token = true) :
    FenceInv token (s.setJob token job) := by
  refine ⟨hinv.handle, hinv.conns, ?_, ?_, hinv.onTime⟩
  · intro i hi
    rw [show s.holder = some i from hi] at hfree
    cases hfree
  · intro hd
    change job.ownedBy token = false
    rcases or_eq_true_iff.mp hd with hd | hd
    · cases howned : job.ownedBy token with
      | false => rfl
      | true =>
        have hnot := hinv.gone hd
        rw [hback howned] at hnot
        cases hnot
    · simpa using hd

/-- The writes of the run take effect while the row belongs to the worker. -/
theorem take {writes : List Statement} (hfree : s.holder = none)
    (howned : s.job.ownedBy token = true) : FenceInv token (s.take token .run now writes) := by
  have hon := hinv.not_displaced howned
  have hset := hinv.setJob (writes.foldl (FenceState.applyPatch now) s.job) hfree (fun _ => howned)
  refine { hset with onTime := ?_ }
  intro e he horigin
  rcases List.mem_append.mp he with he | he
  · exact hinv.onTime e he horigin
  · obtain ⟨w, -, rfl⟩ := List.mem_map.mp he
    exact hon

/-- A commit takes effect under the lock, or has nothing to write. -/
theorem commitTxn (hfenced : (s.conns k).Fenced) (hc : c.Closed) :
    FenceInv token ((s.commitTxn token k).setConn k c) := by
  have hholder := (hinv.conns k).fenced hfenced
  have howned := hinv.held k hholder
  have hdrop := hinv.dropTxn (k := k) hc
  unfold FenceState.commitTxn
  split
  · split
    · exact hdrop
    · next t _ _ =>
      have hfree : ((s.dropTxn k).setConn k c).holder = none := by
        simp [FenceState.setConn, FenceState.dropTxn, FenceState.setTxn, hholder]
      exact hdrop.take hfree howned
  · next hnone =>
    have hopen := (hinv.conns k).opened hfenced.not_closed
    rw [hnone] at hopen
    cases hopen

/-- The database runs a statement that does not write, or one under the fence. -/
theorem exec (hsafe : (s.conns k).Fenced ∨ stmt.verb.writes = false)
    (hexec : s.exec token now k stmt = some s') : FenceInv token s' ∧ s'.conns = s.conns := by
  unfold FenceState.exec at hexec
  split at hexec
  · next hwrites =>
    have hfenced : (s.conns k).Fenced := by
      rcases hsafe with h | h
      · exact h
      · rw [hwrites] at h
        cases h
    have hk := hinv.conns k
    have hholder := hk.fenced hfenced
    split at hexec
    · cases hexec
    · split at hexec
      · next t ht =>
        split at hexec
        · cases hexec
          exact ⟨hinv, rfl⟩
        · cases hexec
          have hset := hinv.setTxn (k := k) (ConnInv.of_fenced (u := t.write stmt) hfenced hholder)
          have hsame : (if stmt.patch.isSome then some k else s.holder) = s.holder := by
            rw [hholder, ite_self]
          refine ⟨?_, rfl⟩
          rw [hsame]
          exact hset
      · next hnone =>
        have hopen := hk.opened hfenced.not_closed
        rw [hnone] at hopen
        cases hopen
  · cases hexec
    exact ⟨hinv, rfl⟩

/-- What a helper sends on a wrapped client. -/
theorem clientQuery {inTxn : Bool} {sql : Sql} (hconn : s.conns k = .helper inTxn)
    (hquery : s.clientQuery token now k inTxn sql = some s') : FenceInv token s' := by
  unfold FenceState.clientQuery at hquery
  rw [hinv.handle] at hquery
  cases sql with
  | statement stmt =>
    rw [show (Sql.statement stmt).text = stmt.text from rfl, stmt.beginRe_text, stmt.endRe_text,
      stmt.writeRe_text, if_neg Bool.false_ne_true, if_neg Bool.false_ne_true] at hquery
    dsimp only at hquery
    split at hquery
    · cases hquery
      exact hinv.begin
    · next hdirect =>
      -- The client is in a fenced transaction, or the statement only reads.
      refine (hinv.exec ?_ hquery).1
      cases hw : stmt.verb.writes with
      | false => exact Or.inr rfl
      | true =>
        have hin : inTxn = true := by simpa [hw] using hdirect
        rw [hconn]
        exact Or.inl hin
  | control c =>
    cases c with
    | begin =>
      cases hquery
      exact hinv.begin
    | commit =>
      cases hquery
      cases inTxn with
      | false =>
        have hnone := (hinv.conns k).closed (by rw [hconn]; rfl)
        have hsame : s.commitTxn token k = s := by
          unfold FenceState.commitTxn
          rw [hnone]
        rw [hsame]
        refine hinv.setConn ?_
        rw [hnone]
        exact ConnInv.of_closed rfl
      | true => exact hinv.commitTxn (by rw [hconn]; rfl) rfl
    | rollback =>
      cases hquery
      exact hinv.dropTxn rfl
    | savepoint name =>
      cases hquery
      exact hinv.updateTxn fun _ h => h
    | rollbackTo name =>
      cases hquery
      refine hinv.updateTxn ?_
      intro u h
      unfold Txn.rollbackTo at h
      split at h
      · intro hnil
        rw [hnil] at h
        simp at h
      · exact h
    | release name =>
      cases hquery
      refine hinv.updateTxn ?_
      intro u h
      unfold Txn.release at h
      split at h <;> exact h

/-- `query` of the handle. -/
theorem handleQuery (hquery : s.handleQuery token now k stmt = some s') : FenceInv token s' := by
  unfold FenceState.handleQuery at hquery
  rw [hinv.handle] at hquery
  dsimp only at hquery
  rw [stmt.writeRe_text] at hquery
  split at hquery
  · cases hquery
    exact hinv.begin
  · next hreads => exact (hinv.exec (Or.inr (by simpa using hreads)) hquery).1

/-- The fence confirms the owner and takes the lock. -/
theorem afterFence (hconn : s.conns k = .fencing next) (hfree : s.holder.any (· ≠ k) = false)
    (howned : s.job.ownedBy token = true) :
    FenceInv token ({ s with holder := some k }.afterFence k next) := by
  have hopen := (hinv.conns k).opened (by rw [hconn]; exact fun h => h)
  obtain ⟨u, hu⟩ := isSome_iff_exists.mp hopen
  have hheld : FenceInv token { s with holder := some k } := by
    refine { hinv with conns := ?_, held := ?_ }
    · intro i
      refine (hinv.conns i).mono ?_
      intro hi
      rw [hi] at hfree
      have hik : i = k := by simpa using hfree
      rw [hik]
    · intro i _
      exact howned
  have hall : ∀ c : Conn, c.Fenced → FenceInv token ({ s with holder := some k }.setConn k c) := by
    intro c hc
    refine hheld.setConn ?_
    rw [show ({ s with holder := some k } : FenceState).txns k = some u from hu]
    exact ConnInv.of_fenced hc rfl
  cases next with
  | helper => exact hall _ rfl
  | single stmt back => exact hall _ trivial
  | callback => exact hall _ trivial

/-- The fence refuses. -/
theorem failFence : FenceInv token (s.failFence k next) := by
  cases next with
  | helper => exact hinv.dropTxn rfl
  | single stmt back => exact hinv.dropTxn back.closed_conn
  | callback => exact hinv.dropTxn trivial

/-- A statement of `inFencedTransaction` and of the callback. -/
theorem single {back : Back} (hconn : s.conns k = .single stmt back)
    (hexec : s.exec token now k stmt = some s') :
    FenceInv token (s'.setConn k (.committing back)) := by
  have hfenced : (s.conns k).Fenced := by rw [hconn]; trivial
  obtain ⟨hnext, hconns⟩ := hinv.exec (Or.inl hfenced) hexec
  have hk := hnext.conns k
  have hfenced' : (s'.conns k).Fenced := by rw [hconns]; exact hfenced
  obtain ⟨u, hu⟩ := isSome_iff_exists.mp (hk.opened hfenced'.not_closed)
  refine hnext.setConn ?_
  rw [hu]
  exact ConnInv.of_fenced trivial (hk.fenced hfenced')

/-- The statement that a connection waits for fails. -/
theorem fails (hstep : fenceStep token s (.fails k) = some s') : FenceInv token s' := by
  unfold fenceStep at hstep
  dsimp only at hstep
  split at hstep
  · cases hstep
    exact hinv.updateTxn fun _ h => h
  · cases hstep
    exact hinv.failFence
  · cases hstep
    exact hinv.dropTxn (Back.closed_conn _)
  · cases hstep
    exact hinv.dropTxn (Back.closed_conn _)
  · cases hstep
    exact hinv.dropTxn trivial
  · cases hstep

/-- What the worker sends when the run is over leaves the row alone. -/
theorem afterRun (hpatch : stmt.patch = none) :
    FenceInv token (s.take token .afterRun now [stmt]) := by
  have hjob : [stmt].foldl (FenceState.applyPatch now) s.job = s.job := by
    simp [FenceState.applyPatch, hpatch]
  unfold FenceState.take FenceState.setJob
  rw [hjob]
  refine ⟨hinv.handle, hinv.conns, hinv.held, ?_, ?_⟩
  · intro hd
    rcases or_eq_true_iff.mp hd with hd | hd
    · exact hinv.gone hd
    · simpa using hd
  · intro e he horigin
    rcases List.mem_append.mp he with he | he
    · exact hinv.onTime e he horigin
    · obtain ⟨w, -, rfl⟩ := List.mem_map.mp he
      cases horigin

end

end FenceInv

variable {j : JobRow}

theorem ownedBy_iff : j.ownedBy token = true ↔ j.ownerToken = some token ∧ j.status = .running := by
  simp [JobRow.ownedBy]

theorem ownedBy_of_heartbeat (h : (j.heartbeat now token).1.ownedBy token = true) :
    j.ownedBy token = true := by
  unfold JobRow.heartbeat at h
  split at h <;> assumption

theorem ownedBy_of_requeue (h : (j.requeue token).ownedBy token = true) :
    j.ownedBy token = true := by
  unfold JobRow.requeue at h
  split at h
  · assumption
  · exact h

theorem not_ownedBy_claimed {other : OwnerToken} {bullmqJobId : Option ℕ} (hne : other ≠ token) :
    (j.claimed now other bullmqJobId).ownedBy token = false := by
  simp [JobRow.ownedBy, JobRow.claimed, hne]

/-- An update that does not set `running` does not give the row back. -/
theorem ownedBy_of_patched {patch : JobPatch} (hstatus : patch.status ≠ some .running)
    (h : (j.patched now patch).ownedBy token = true) : j.ownedBy token = true := by
  obtain ⟨howner, hrunning⟩ := ownedBy_iff.mp h
  refine ownedBy_iff.mpr ⟨howner, ?_⟩
  change patch.status.getD j.status = .running at hrunning
  cases hp : patch.status with
  | none => rwa [hp, getD_none] at hrunning
  | some status =>
    rw [hp, getD_some] at hrunning
    exact absurd (hp.trans (congrArg some hrunning)) hstatus

theorem FenceInv.step {a : FenceAction} (hinv : FenceInv token s)
    (hstep : fenceStep token s a = some s') : FenceInv token s' := by
  cases a with
  | fails k => exact hinv.fails hstep
  | query now k stmt =>
    unfold fenceStep at hstep
    dsimp only at hstep
    split at hstep
    · exact hinv.handleQuery hstep
    · cases hstep
  | connect k =>
    obtain ⟨hpool, rfl⟩ := Run.enabled hstep
    have hnone := (hinv.conns k).closed (by rw [hpool]; trivial)
    refine hinv.setConn ?_
    rw [hnone]
    exact ConnInv.of_closed rfl
  | clientQuery now k sql =>
    unfold fenceStep at hstep
    dsimp only at hstep
    split at hstep
    · next inTxn hconn => exact hinv.clientQuery hconn hstep
    · cases hstep
  | clientRelease k =>
    unfold fenceStep at hstep
    dsimp only at hstep
    split at hstep
    · obtain ⟨hnone, rfl⟩ := Run.enabled hstep
      refine hinv.setConn ?_
      rw [hnone]
      exact ConnInv.of_closed trivial
    · next hbroken =>
      cases hstep
      have hnone := (hinv.conns k).closed (by rw [hbroken]; trivial)
      refine hinv.setConn ?_
      rw [hnone]
      exact ConnInv.of_closed trivial
    · cases hstep
  | transaction now k =>
    obtain ⟨-, rfl⟩ := Run.enabled hstep
    exact hinv.begin
  | fence k =>
    unfold fenceStep at hstep
    dsimp only at hstep
    split at hstep
    · next next hconn =>
      split at hstep
      · cases hstep
      · next hfree =>
        split at hstep
        · next howned =>
          cases hstep
          exact hinv.afterFence hconn (by simpa using hfree) howned
        · cases hstep
          exact hinv.failFence
    · cases hstep
  | single now k =>
    unfold fenceStep at hstep
    dsimp only at hstep
    split at hstep
    · next stmt back hconn =>
      obtain ⟨s₁, hexec, rfl⟩ := map_eq_some_iff.mp hstep
      exact hinv.single hconn hexec
    · cases hstep
  | commit k =>
    unfold fenceStep at hstep
    dsimp only at hstep
    split at hstep
    · next back hconn =>
      cases hstep
      exact hinv.commitTxn (by rw [hconn]; trivial) back.closed_conn
    · cases hstep
  | callback now k stmt =>
    unfold fenceStep at hstep
    dsimp only at hstep
    split at hstep
    · next hconn => exact (hinv.exec (Or.inl (by rw [hconn]; trivial)) hstep).1
    · cases hstep
  | callbackDone k =>
    obtain ⟨hconn, rfl⟩ := Run.enabled hstep
    exact hinv.commitTxn (by rw [hconn]; trivial) trivial
  | disconnect k =>
    cases hstep
    refine hinv.dropTxn ?_
    split <;> trivial
  | finish =>
    cases hstep
    exact { hinv with }
  | afterRun now stmt =>
    obtain ⟨hover, rfl⟩ := Run.enabled hstep
    exact hinv.afterRun hover.2.2
  | heartbeat now =>
    obtain ⟨hfree, rfl⟩ := Run.enabled hstep
    exact hinv.setJob _ hfree ownedBy_of_heartbeat
  | requeue =>
    obtain ⟨hfree, rfl⟩ := Run.enabled hstep
    exact hinv.setJob _ hfree ownedBy_of_requeue
  | claim now other bullmqJobId =>
    obtain ⟨hclaim, rfl⟩ := Run.enabled hstep
    refine hinv.setJob _ hclaim.1 ?_
    rw [not_ownedBy_claimed hclaim.2.1]
    exact fun h => absurd h false_ne_true
  | recover now =>
    obtain ⟨hrecover, rfl⟩ := Run.enabled hstep
    refine hinv.setJob _ hrecover.1 ?_
    exact fun h => absurd h false_ne_true
  | update now patch =>
    obtain ⟨hupdate, rfl⟩ := Run.enabled hstep
    exact hinv.setJob _ hupdate.1 (ownedBy_of_patched hupdate.2)

theorem FenceInv.initial {mode : JobMode} {job : JobRow} (hmode : mode.isPipeline = true) :
    FenceInv token (.initial mode job) := by
  have hhandle : mode.handle = .fenced := by
    cases mode with
    | inspectIocSource => cases hmode
    | extractIocSource => cases hmode
    | _ => rfl
  refine ⟨hhandle, fun _ => ConnInv.of_closed trivial, ?_, ?_, ?_⟩ <;> simp [FenceState.initial]

/-- No write of a pipeline run takes effect after its job moved on. -/
theorem displaced_run_writes_nothing {mode : JobMode} (hmode : mode.isPipeline = true)
    (job : JobRow) {actions : List FenceAction}
    (hrun : Run (fenceStep token) (fun _ _ => True) (.initial mode job) actions s) :
    ∀ e ∈ s.committed, e.origin = .run → e.late = false :=
  (Run.invariant (fun _ _ _ hinv _ hstep => FenceInv.step hinv hstep) hrun
    (FenceInv.initial hmode)).onTime

/-- An analysis that worker 1 runs. -/
def runningAnalysis : JobRow where
  id := 1
  reportId := 1
  jobType := .analyze
  status := .running
  dispatch := none
  jobPayload := "\x7b\x7d"
  bullmqJobId := some 1
  ownerToken := some 1
  heartbeatAt := some 0
  notBefore := none
  createdAt := 0
  startedAt := some 0

/-- `updateReportStatus`. -/
def statusWrite : Statement where
  indent := [' ']
  verb := .update
  rest := " threat_reports".toList
  patch := none
  indent_blank := by decide
  rest_apart := by decide
  patch_writes := by decide

/-- The `updateJob` that completes the job. -/
def completion : Statement where
  indent := []
  verb := .update
  rest := " threat_library_jobs".toList
  patch := some ⟨some .completed, none, none⟩
  indent_blank := by decide
  rest_apart := by decide
  patch_writes := by decide

/-- A source that `runIocSourceDiscoveryForReport` found. -/
def discoveredSource : Statement where
  indent := []
  verb := .insert
  rest := " INTO threat_report_ioc_sources".toList
  patch := none
  indent_blank := by decide
  rest_apart := by decide
  patch_writes := by decide

/-- A write commits, another one waits at its fence until a second worker claimed the job. -/
def overtakenWrite : List FenceAction :=
  [.query 1 0 statusWrite, .fence 0, .single 2 0, .commit 0, .query 3 0 statusWrite,
    .claim 200000 2 none, .fence 0]

theorem displaced_run_writes_nothing_overtaken :
    ∃ s, Run (fenceStep 1) (fun _ _ => True) (.initial .analyze runningAnalysis) overtakenWrite s ∧
      s.committed.length = 1 ∧ s.job.ownerToken = some 2 ∧
      ∀ e ∈ s.committed, e.origin = .run → e.late = false := by
  have hexec : (Run.exec (fenceStep 1) (fun _ _ => True) (.initial .analyze runningAnalysis)
      overtakenWrite).map (fun s => (s.committed.length, s.job.ownerToken)) =
      some (1, some 2) := by decide
  obtain ⟨s, hs, hstate⟩ := map_eq_some_iff.mp hexec
  obtain ⟨hlength, howner⟩ := Prod.mk.inj hstate
  have hrun := Run.of_exec hs
  exact ⟨s, hrun, hlength, howner, displaced_run_writes_nothing rfl runningAnalysis hrun⟩

/-- The outcome and the completion are one transaction, and discovery follows it. -/
def completedRun : List FenceAction :=
  [.transaction 1 0, .fence 0, .callback 2 0 statusWrite, .callback 2 0 completion,
    .callbackDone 0, .finish, .afterRun 3 discoveredSource]

/-- The discovery after the completion writes when the job is no longer running. -/
theorem late_write_of_discovery :
    ¬ ∀ (mode : JobMode) (job : JobRow) (token : OwnerToken) (actions : List FenceAction)
      (s : FenceState), job.ownedBy token = true →
      Run (fenceStep token) (fun _ _ => True) (.initial mode job) actions s →
      ∀ e ∈ s.committed, e.late = false := by
  intro h
  have hexec : (Run.exec (fenceStep 1) (fun _ _ => True) (.initial .analyze runningAnalysis)
      completedRun).map FenceState.committed =
      some [⟨statusWrite, .run, false⟩, ⟨completion, .run, false⟩,
        ⟨discoveredSource, .afterRun, true⟩] := by decide
  obtain ⟨s, hs, hcommitted⟩ := map_eq_some_iff.mp hexec
  have hlate := h _ _ _ _ s rfl (Run.of_exec hs) ⟨discoveredSource, .afterRun, true⟩
    (by simp [hcommitted])
  cases hlate

end TalonHound.ThreatJobs
