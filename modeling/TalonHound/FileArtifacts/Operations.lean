import TalonHound.FileArtifacts.DualWriteEffect

/-!
# Calls that attach and merge

The entry points as operations on the database. A call that raises is rolled back by the
transaction that it runs in.
-/

namespace TalonHound.FileArtifacts

/-- The database after a call; a call that raises is rolled back by its transaction. -/
def transaction (call : Db Unit) (s : Database) : Option Database :=
  match call s with
  | .ok _ s' => some s'
  | .error _ _ => some s

/-- A transaction is a call that returned, or changes nothing. -/
theorem transaction_cases {call : Db Unit} {s s' : Database} (h : transaction call s = some s') :
    Returns call s ⟨⟩ s' ∨ s' = s := by
  unfold transaction at h
  unfold Returns
  cases hcall : call s with
  | ok _ s₁ =>
    rw [hcall] at h
    exact .inl (by rw [Option.some.inj h])
  | error _ _ =>
    rw [hcall] at h
    exact .inr (Option.some.inj h).symm

/-- The calls that attach and merge. -/
inductive ArtifactOperation where
  | attach (host : Host) (input : AttachInput) (hashType hashValue : String)
  | ensure (host : Host) (input : EnsureInput)
  | merge (input : MergeInput)

namespace ArtifactOperation

/-- The call, without its result. -/
def call : ArtifactOperation → Db Unit
  | attach host input hashType hashValue => do
    let _ ← attachExactHash host input hashType hashValue
  | ensure host input => do
    let _ ← ensureArtifactForFileHashIoc host input
  | merge input => do
    let _ ← mergeFileArtifacts input

/-- The database after the call. -/
def step (s : Database) (operation : ArtifactOperation) : Option Database :=
  transaction operation.call s

/-- The hash that a call of `attachExactHash` attaches, when no other artifact than its own was
requested for it. -/
def attaches (s : Database) (input : AttachInput) (hashType hashValue : String) : Set ExactHash :=
  {h | normalizeExactHash hashType hashValue = some h ∧ ∀ requested ∈ input.artifactId, ∀ x,
    s.tables.placement.hash h = some x → s.tables.placement.Resolves h requested}

variable {s s' : Database}

/-- A call attaches its hash only when no other artifact was requested for it. -/
theorem attachOutcome_grows {host : Host} {input : AttachInput} {hash : ExactHash} {t : Tables}
    {result : AttachResult} {p : Placement} {good : HashType × ℕ → ℕ → Prop}
    (h : AttachOutcome host input hash t result p) :
    t.placement.Grows {h | h = hash ∧ ∀ requested ∈ input.artifactId, ∀ x,
      t.placement.hash h = some x → t.placement.Resolves h requested} good p := by
  have hgrows : t.placement.Grows {hash} good p := h.grows
  have hunplaced : t.hashRow? hash = none → ∀ x, t.placement.hash hash ≠ some x := by
    intro hfree x hx
    obtain ⟨row, hrow, -⟩ := Tables.placement_hash_eq_some.mp hx
    rw [hfree] at hrow
    cases hrow
  cases h with
  | created _ _ hfree _ | added _ _ _ hfree _ =>
    apply hgrows.mono
    rintro _ rfl
    exact ⟨rfl, fun _ _ x hx => absurd hx (hunplaced hfree x)⟩
  | refused | kept | elsewhere => exact .refl _
  | healed row n root hrow hlead _ _ hrequested =>
    apply hgrows.mono
    rintro _ rfl
    refine ⟨rfl, fun requested hmem x _ => ?_⟩
    rw [hrequested requested hmem]
    rw [← Tables.placement_mergedInto] at hlead
    exact ⟨row.artifactId, n, Tables.placement_hash_eq_some.mpr ⟨row, hrow, rfl⟩, hlead⟩

/-- `attachExactHash` attaches at most its hash. -/
theorem attachExactHash_attaches {host : Host} {input : AttachInput}
    {hashType hashValue : String} {result : AttachResult} {good : HashType × ℕ → ℕ → Prop}
    (h : Returns (attachExactHash host input hashType hashValue) s result s') :
    Attaches (attaches s input hashType hashValue) good s.tables s'.tables := by
  unfold attachExactHash at h
  cases hnormal : normalizeExactHash hashType hashValue with
  | none =>
    simp only [hnormal] at h
    obtain ⟨-, rfl⟩ := Returns.pure_iff.mp h
    exact .refl _
  | some hash =>
    simp only [hnormal] at h
    obtain ⟨houtcome, hkeeps⟩ := attachHash_outcome h
    refine ⟨(attachOutcome_grows houtcome).mono ?_, hkeeps.iocItems⟩
    rintro hash' ⟨rfl, hresolves⟩
    exact ⟨hnormal, hresolves⟩

end ArtifactOperation

end TalonHound.FileArtifacts
