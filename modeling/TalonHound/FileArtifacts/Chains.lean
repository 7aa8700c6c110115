import TalonHound.Library.ParentForest
import TalonHound.FileArtifacts.Attach
import TalonHound.FileArtifacts.Merge

/-!
# Following tombstones

Where the chain of tombstones that starts at an artifact ends, and what the recursions
that follow it return when every chain ends.
-/

namespace TalonHound.FileArtifacts

open Returns Option

/-- The rows of `file_artifacts` as far as tombstones go. -/
abbrev Versions := ArtifactId → Option Status

/-- Where a tombstone points. -/
def Versions.mergedInto (v : Versions) (id : ArtifactId) : Option ArtifactId :=
  (v id).bind fun status =>
    match status with
    | .active => none
    | .merged into => some into

variable {into : ArtifactId}

theorem Versions.mergedInto_eq_some {v : Versions} {id : ArtifactId} :
    v.mergedInto id = some into ↔ v id = some (.merged into) := by
  unfold mergedInto
  cases v id with
  | none => simp
  | some status => cases status <;> simp

namespace Tables

/-- The rows of `file_artifacts` of a database. -/
def versions (t : Tables) : Versions := fun id => (t.artifact? id).map Artifact.status

theorem versions_mergedInto (t : Tables) : t.versions.mergedInto = t.mergedInto := by
  funext id
  unfold versions Versions.mergedInto mergedInto
  rw [bind_map]
  rfl

variable {t : Tables} {id root : ArtifactId} {n : ℕ}

/-- Every chain of tombstones ends. -/
abbrev TombstoneForest (t : Tables) : Prop := Forest t.mergedInto

theorem mergedInto_of_row {a : Artifact} (h : t.artifact? id = some a) :
    t.mergedInto id = a.mergedInto := by
  rw [mergedInto, h, bind_some]

theorem mergedInto_eq_some :
    t.mergedInto id = some into ↔ ∃ a, t.artifact? id = some a ∧ a.status = .merged into := by
  rw [mergedInto, bind_eq_some_iff]
  apply exists_congr
  intro a
  apply and_congr_right
  intro _
  unfold Artifact.mergedInto
  cases a.status <;> simp

/-- An artifact is active exactly when it exists and points nowhere. -/
theorem isActive_iff : t.IsActive id ↔ (t.artifact? id).isSome ∧ t.mergedInto id = none := by
  constructor
  · rintro ⟨a, ha, hactive⟩
    rw [mergedInto_of_row ha, Artifact.mergedInto, hactive, ha]
    exact ⟨rfl, rfl⟩
  · rintro ⟨hsome, hnone⟩
    obtain ⟨a, ha⟩ := isSome_iff_exists.mp hsome
    refine ⟨a, ha, ?_⟩
    rw [mergedInto_of_row ha] at hnone
    unfold Artifact.mergedInto at hnone
    cases hstatus : a.status with
    | active => rfl
    | merged into => simp [hstatus] at hnone

/-- An id names a row exactly when it is one of the ids. -/
theorem isSome_artifact? : (t.artifact? id).isSome ↔ id ∈ t.artifacts.map Artifact.id := by
  rw [← not_iff_not, Bool.not_eq_true, isSome_eq_false_iff, isNone_iff_eq_none]
  exact Rows.lookup_eq_none

/-- A tombstone is one of the rows. -/
theorem mem_of_mergedInto (h : t.mergedInto id ≠ none) : id ∈ t.artifacts.map Artifact.id := by
  apply isSome_artifact?.mp
  by_contra hnone
  rw [Bool.not_eq_true, isSome_eq_false_iff, isNone_iff_eq_none] at hnone
  exact h (by rw [mergedInto, hnone, bind_none])

/-- A chain has at most as many tombstones as there are rows. -/
theorem chain_length_le (h : LeadsTo t.mergedInto n id root) : n ≤ t.artifacts.length := by
  have hle := h.length_le fun b hb => mem_of_mergedInto hb
  rwa [List.length_map] at hle

/-- The target of a tombstone exists. -/
theorem References.target (h : t.References) (hinto : t.mergedInto id = some into) :
    (t.artifact? into).isSome := by
  obtain ⟨a, ha, hstatus⟩ := mergedInto_eq_some.mp hinto
  apply isSome_artifact?.mpr
  apply h.merged_into a (Rows.mem_of_lookup ha).1
  simp [Artifact.mergedInto, hstatus]

/-- The chain of an existing artifact ends in an active one. -/
theorem References.isActive_root (h : t.References) (hid : (t.artifact? id).isSome)
    (hlead : LeadsTo t.mergedInto n id root) : t.IsActive root := by
  induction hlead with
  | root hnone => exact isActive_iff.mpr ⟨hid, hnone⟩
  | step hinto _ ih => exact ih (h.target hinto)

end Tables

variable {s : Database} {id root : ArtifactId} {n fuel : ℕ}

/-- A call that follows tombstones answers from the row at the end of the chain. -/
theorem follows_eq {β : Type} {call : ℕ → ArtifactId → Db β} (answer : Option Artifact → β)
    (hnone : ∀ fuel id, s.tables.artifact? id = none →
      Returns (call (fuel + 1) id) s (answer none) s)
    (hactive : ∀ fuel id a, s.tables.artifact? id = some a → a.status = .active →
      Returns (call (fuel + 1) id) s (answer (some a)) s)
    (hmerged : ∀ fuel id a into r, s.tables.artifact? id = some a → a.status = .merged into →
      Returns (call fuel into) s r s → Returns (call (fuel + 1) id) s r s)
    (hlead : LeadsTo s.tables.mergedInto n id root) (hfuel : n < fuel) :
    Returns (call fuel id) s (answer (s.tables.artifact? root)) s := by
  induction hlead generalizing fuel with
  | @root id hroot =>
    obtain ⟨fuel, rfl⟩ : ∃ k, fuel = k + 1 := ⟨fuel - 1, by omega⟩
    cases hrow : s.tables.artifact? id with
    | none => exact hnone fuel id hrow
    | some a =>
      rw [Tables.mergedInto_of_row hrow, Artifact.mergedInto] at hroot
      cases hstatus : a.status with
      | active => exact hactive fuel id a hrow hstatus
      | merged into => simp [hstatus] at hroot
  | @step n id into root hinto _ ih =>
    obtain ⟨fuel, rfl⟩ : ∃ k, fuel = k + 1 := ⟨fuel - 1, by omega⟩
    obtain ⟨a, hrow, hstatus⟩ := Tables.mergedInto_eq_some.mp hinto
    exact hmerged fuel id a into _ hrow hstatus (ih (by omega))

/-- `findActiveArtifact` returns the row at the end of the chain. -/
theorem findActiveArtifact_eq (hlead : LeadsTo s.tables.mergedInto n id root) (hfuel : n < fuel) :
    Returns (findActiveArtifact fuel id) s (s.tables.artifact? root) s := by
  refine follows_eq (fun row => row) ?_ ?_ ?_ hlead hfuel
  all_goals
    intros
    rw [findActiveArtifact, bind_of (returns_query.mpr ⟨rfl, rfl⟩)]
    simp_all

/-- The chain of tombstones of an artifact is shorter than `chainBound`. -/
theorem findActiveArtifact_chainBound (hlead : LeadsTo s.tables.mergedInto n id root) :
    Returns (findActiveArtifact s.tables.chainBound id) s (s.tables.artifact? root) s := by
  apply findActiveArtifact_eq hlead
  have := Tables.chain_length_le hlead
  unfold Tables.chainBound
  omega

/-- `findArtifactByHash` returns the active artifact at the end of the chain of the row's
artifact. -/
theorem findArtifactByHash_of_row {hash : ExactHash} {row : HashRow}
    (hrow : s.tables.hashRow? hash = some row)
    (hlead : LeadsTo s.tables.mergedInto n row.artifactId root) :
    Returns (findArtifactByHash hash) s (some ⟨root, row⟩) s := by
  have hexists : (s.tables.artifact? row.artifactId).isSome :=
    Tables.isSome_artifact?.mpr (s.references.hash_artifact row (Rows.mem_of_lookup hrow).1)
  obtain ⟨a, ha⟩ := isSome_iff_exists.mp hexists
  unfold findArtifactByHash
  rw [bind_of (returns_query.mpr ⟨rfl, rfl⟩)]
  simp only [hrow]
  rw [bind_of (returns_query.mpr ⟨rfl, rfl⟩)]
  simp only [ha]
  cases hstatus : a.status with
  | active =>
    have hnone : s.tables.mergedInto row.artifactId = none := by
      simp [Tables.mergedInto_of_row ha, Artifact.mergedInto, hstatus]
    obtain ⟨-, rfl⟩ := hlead.of_root hnone
    simp [(Rows.mem_of_lookup ha).2]
  | merged into =>
    have hinto : s.tables.mergedInto row.artifactId = some into :=
      Tables.mergedInto_eq_some.mpr ⟨a, ha, hstatus⟩
    obtain ⟨k, -, hrest⟩ := hlead.pos hinto
    obtain ⟨r, hr, -⟩ := s.references.isActive_root (s.references.target hinto) hrest
    rw [bind_of (returns_query.mpr ⟨rfl, rfl⟩), bind_of (findActiveArtifact_chainBound hrest)]
    simp [hr, (Rows.mem_of_lookup hr).2]

/-- `findArtifactByHash` finds nothing when the hash has no row. -/
theorem findArtifactByHash_of_none {hash : ExactHash} (hrow : s.tables.hashRow? hash = none) :
    Returns (findArtifactByHash hash) s none s := by
  unfold findArtifactByHash
  rw [bind_of (returns_query.mpr ⟨rfl, rfl⟩)]
  simp [hrow]

variable {input : MergeInput} {c d rc rd : ArtifactId} {m : ℕ}

/-- One nested call of `mergeFileArtifacts`. -/
theorem mergeArtifacts_succ (s : Database) (input : MergeInput) (fuel : ℕ) (hne : c ≠ d) :
    mergeArtifacts input (fuel + 1) c d s =
      match mergeDecision Artifact.status c d (s.tables.artifact? c) (s.tables.artifact? d) with
      | .artifactNotFound => .ok .artifactNotFound s
      | .alreadyMerged => .ok .alreadyMerged s
      | .follow c d => mergeArtifacts input fuel c d s
      | .proceed canonical duplicate => performMerge input canonical duplicate s := by
  conv_lhs => unfold mergeArtifacts
  rw [if_neg hne]
  change (match mergeDecision Artifact.status c d (s.tables.artifact? c) (s.tables.artifact? d) with
    | .artifactNotFound => (pure .artifactNotFound : Db MergeResult)
    | .alreadyMerged => pure .alreadyMerged
    | .follow c d => mergeArtifacts input fuel c d
    | .proceed canonical duplicate => performMerge input canonical duplicate) s = _
  cases mergeDecision Artifact.status c d (s.tables.artifact? c) (s.tables.artifact? d) <;> rfl

/-- Where the chains of two existing artifacts end decides what `mergeFileArtifacts` between
them does. -/
inductive MergeOutcome (s : Database) (input : MergeInput) (x : Db MergeResult)
    (rc rd : ArtifactId) : Prop
  | same (h : rc = rd) (result : MergeResult) (hnoop : result.noop = true)
      (hreturns : Returns x s result s)
  | merges (hne : rc ≠ rd) (canonical duplicate : Artifact)
      (hcanonical : s.tables.artifact? rc = some canonical) (hactive : canonical.status = .active)
      (hduplicate : s.tables.artifact? rd = some duplicate)
      (hactive' : duplicate.status = .active)
      (heq : x s = performMerge input canonical duplicate s)

theorem MergeOutcome.of_eq {x y : Db MergeResult} (h : MergeOutcome s input y rc rd)
    (heq : x s = y s) : MergeOutcome s input x rc rd := by
  cases h with
  | same hroot result hnoop hreturns => exact .same hroot result hnoop (heq.trans hreturns)
  | merges hne canonical duplicate hcanonical hactive hduplicate hactive' hmerge =>
    exact .merges hne canonical duplicate hcanonical hactive hduplicate hactive' (heq.trans hmerge)

section

variable (hc : LeadsTo s.tables.mergedInto n c rc) (hd : LeadsTo s.tables.mergedInto m d rd)
  (hcrow : (s.tables.artifact? c).isSome)
include hc hd hcrow

/-- With fuel for both chains, the recursion reaches their ends. -/
theorem mergeArtifacts_outcome (hdrow : (s.tables.artifact? d).isSome) (hfuel : n + m < fuel) :
    MergeOutcome s input (mergeArtifacts input fuel c d) rc rd := by
  induction fuel generalizing c d n m with
  | zero => omega
  | succ fuel ih =>
    by_cases hne : c = d
    · subst hne
      refine .same (hc.unique hd).2 .sameArtifact rfl ?_
      unfold mergeArtifacts
      rw [if_pos rfl]
      exact pure_iff.mpr ⟨rfl, rfl⟩
    · have hnext := mergeArtifacts_succ s input fuel hne
      obtain ⟨canonical, hcanonical⟩ := isSome_iff_exists.mp hcrow
      obtain ⟨duplicate, hduplicate⟩ := isSome_iff_exists.mp hdrow
      rw [hcanonical, hduplicate] at hnext
      cases hstatus : canonical.status with
      | merged into =>
        -- the canonical artifact is a tombstone: its target takes its place
        simp only [mergeDecision, hstatus] at hnext
        have hinto : s.tables.mergedInto c = some into :=
          Tables.mergedInto_eq_some.mpr ⟨canonical, hcanonical, hstatus⟩
        obtain ⟨k, rfl, hrest⟩ := hc.pos hinto
        have houtcome := ih hrest hd (s.references.target hinto) hdrow (by omega)
        exact houtcome.of_eq hnext
      | active =>
        have hcnone : s.tables.mergedInto c = none := by
          rw [Tables.mergedInto_of_row hcanonical, Artifact.mergedInto, hstatus]
        obtain ⟨-, rfl⟩ := hc.of_root hcnone
        cases hstatus' : duplicate.status with
        | merged into =>
          have hinto : s.tables.mergedInto d = some into :=
            Tables.mergedInto_eq_some.mpr ⟨duplicate, hduplicate, hstatus'⟩
          obtain ⟨k, rfl, hrest⟩ := hd.pos hinto
          simp only [mergeDecision, hstatus, hstatus'] at hnext
          by_cases hsame : into = rc
          · subst hsame
            rw [if_pos rfl] at hnext
            exact .same (hc.unique hrest).2 .alreadyMerged rfl hnext
          · rw [if_neg hsame] at hnext
            have houtcome := ih hc hrest hcrow (s.references.target hinto) (by omega)
            exact houtcome.of_eq hnext
        | active =>
          have hdnone : s.tables.mergedInto d = none := by
            rw [Tables.mergedInto_of_row hduplicate, Artifact.mergedInto, hstatus']
          obtain ⟨-, rfl⟩ := hd.of_root hdnone
          simp only [mergeDecision, hstatus, hstatus'] at hnext
          exact .merges hne canonical duplicate hcanonical hstatus hduplicate hstatus' hnext

/-- The fuel of `mergeFileArtifacts` is enough for every two chains. -/
theorem mergeFileArtifacts_outcome (hdrow : (s.tables.artifact? d).isSome)
    (hinput : input.canonicalArtifactId = some c ∧ input.duplicateArtifactId = some d) :
    MergeOutcome s input (mergeFileArtifacts input) rc rd := by
  have hn := Tables.chain_length_le hc
  have hm := Tables.chain_length_le hd
  have hfuel : n + m < s.tables.recursionBound := by
    unfold Tables.recursionBound
    omega
  apply (mergeArtifacts_outcome hc hd hcrow hdrow hfuel).of_eq
  unfold mergeFileArtifacts
  rw [hinput.1, hinput.2]
  rfl

end

/-- An artifact is not merged into itself. -/
theorem mergeFileArtifacts_self
    (hinput : input.canonicalArtifactId = some c ∧ input.duplicateArtifactId = some c) :
    Returns (mergeFileArtifacts input) s .sameArtifact s := by
  unfold mergeFileArtifacts
  rw [hinput.1, hinput.2]
  change mergeArtifacts input (2 * s.tables.artifacts.length + 1) c c s = _
  unfold mergeArtifacts
  rw [if_pos rfl]
  rfl

/-- An id without a row ends the call. -/
theorem mergeFileArtifacts_notFound (hne : c ≠ d)
    (hrow : s.tables.artifact? c = none ∨ s.tables.artifact? d = none)
    (hinput : input.canonicalArtifactId = some c ∧ input.duplicateArtifactId = some d) :
    Returns (mergeFileArtifacts input) s .artifactNotFound s := by
  have hdecision : mergeDecision Artifact.status c d (s.tables.artifact? c)
      (s.tables.artifact? d) = .artifactNotFound := by
    rcases hrow with hnone | hnone
    · simp [mergeDecision, hnone]
    · cases hc : s.tables.artifact? c <;> simp [mergeDecision, hnone]
  have hnext := mergeArtifacts_succ s input (2 * s.tables.artifacts.length) hne
  rw [hdecision] at hnext
  unfold mergeFileArtifacts
  rw [hinput.1, hinput.2]
  exact hnext

end TalonHound.FileArtifacts
