import TalonHound.Candidates.CreateSteps

/-!
# Create IOCs acts once, on eligible candidates

What a confirmed run creates is eligible in the table as long as no review action, reconcile call or
recorded link takes the eligibility of a candidate that a run is yet to create. No run creates a
second record for an identity, whatever happens.
-/

namespace TalonHound.Candidates

variable {stored : StorageIdentity → StorageIdentity} {s s' : ReviewState} {x : CreateRun}
  {i : ℕ} {a : ReviewAction}

namespace ReviewState.Once

/-- A run creates no second record. -/
theorem advance {step : RunStep} (h : s.Once stored)
    (hstep : TalonHound.Candidates.advance stored s i x step = some s') : s'.Once stored := by
  unfold TalonHound.Candidates.advance at hstep
  cases step with
  | confirm =>
    dsimp only at hstep
    split at hstep
    · split at hstep <;> cases hstep <;> exact h.of_same rfl rfl
    · cases hstep
  | reload | skip | settle | release =>
    dsimp only at hstep
    split at hstep
    · cases hstep
      exact h.of_same rfl rfl
    · cases hstep
  | lock =>
    dsimp only at hstep
    split at hstep
    · cases hstep
    · split at hstep <;> cases hstep <;> exact h.of_same rfl rfl
  | visit =>
    dsimp only at hstep
    split at hstep
    · unfold visitStep at hstep
      split at hstep
      · cases hstep
        exact h.of_same rfl rfl
      · obtain ⟨k, -, rfl⟩ := Option.map_eq_some_iff.mp hstep
        split <;> exact h.of_same rfl rfl
    · cases hstep
  | create =>
    dsimp only at hstep
    split at hstep
    · unfold createStep at hstep
      obtain ⟨k, -, rfl⟩ := Option.map_eq_some_iff.mp hstep
      split
      · exact h.of_same rfl rfl
      · next hnew => exact (h.insertIoc (Bool.not_eq_true _ ▸ hnew)).of_same rfl rfl
    · cases hstep
  | retry =>
    dsimp only at hstep
    split at hstep
    · unfold retryStep at hstep
      obtain ⟨k, -, rfl⟩ := Option.map_eq_some_iff.mp hstep
      split <;> exact h.of_same rfl rfl
    · cases hstep
  | fail =>
    dsimp only at hstep
    split at hstep
    · cases hstep
      exact h.of_same rfl rfl
    · cases hstep
      exact h.of_same rfl rfl
    · cases hstep
      exact h.of_same rfl rfl
    · cases hstep
  | crash =>
    cases hstep
    exact h.of_same rfl rfl

theorem step (h : s.Once stored) (hstep : reviewStep stored s a = some s') : s'.Once stored := by
  cases a with
  | advance i step =>
    obtain ⟨x, -, hstep⟩ := Option.bind_eq_some_iff.mp hstep
    exact h.advance hstep
  | _ =>
    cases hstep
    exact h.of_same rfl rfl

end ReviewState.Once

/-- No run is under way, and the records of the source have different identities. -/
structure ReviewState.Quiet (s : ReviewState) : Prop where
  wellFormed : ∀ reportId, (s.reports reportId).WellFormed
  records : ((s.items.filter IocItem.isLibrary).map IocItem.identity).Nodup
  runs : s.runs = []
  creations : s.creations = []

/-- Whatever happens between the statements, no identity gets a second record. -/
theorem ReviewState.Quiet.once_of_run {guard : ReviewState → ReviewAction → Prop}
    {actions : List ReviewAction} (hquiet : s.Quiet)
    (hrun : Run (reviewStep stored) guard s actions s') : s'.Once stored := by
  refine Run.invariant (fun _ _ _ h _ hstep => Once.step h hstep) hrun ⟨hquiet.records, ?_, ?_⟩
  · rw [hquiet.creations]
    exact fun x hx => absurd hx List.not_mem_nil
  · rw [hquiet.creations]
    exact List.nodup_nil

theorem ReviewState.Quiet.inv (hquiet : s.Quiet) : ReviewInv stored s where
  wellFormed := hquiet.wellFormed
  exclusive := by
    constructor
    · rw [hquiet.runs]
      exact fun x hx => absurd hx List.not_mem_nil
    · rw [hquiet.runs]
      intro i j x y hx
      cases hx
  sound := by
    rw [hquiet.runs]
    exact fun x hx => absurd hx List.not_mem_nil
  eligible := by
    rw [hquiet.creations]
    exact fun x hx => absurd hx List.not_mem_nil

/-- In every run of which no step takes the eligibility of an awaited candidate, every record is
created for a candidate that is approved and eligible at that moment. No two records are created
for one identity. -/
theorem creates_eligible_once {actions : List ReviewAction} (hquiet : s.Quiet)
    (hrun : Run (reviewStep stored) ReviewState.SparesAwaited s actions s') :
    (∀ x ∈ s'.creations, x.eligible = true) ∧ (s'.creations.map Creation.identity).Nodup ∧
      ((s'.items.filter IocItem.isLibrary).map IocItem.identity).Nodup := by
  have honce := hquiet.once_of_run hrun
  have hinv : ReviewInv stored s' :=
    Run.invariant (fun _ _ _ h hguard hstep => h.step hguard hstep) hrun hquiet.inv
  exact ⟨hinv.eligible, honce.creations, honce.records⟩

/-- An approved domain. -/
def approvedDomain (id : ℕ) (value : String) : Row where
  id := id
  identity := ⟨"domain", value⟩
  columns := { (candidateColumns .original (domainInput value "body")).columns with
    reviewStatus := .approved }
  hasOriginalDocumentOccurrence := true
  promotionOutcome := none

/-- Every report has the same two approved domains. -/
def approvedState : ReviewState where
  reports := fun _ => ⟨[approvedDomain 1 "a.test", approvedDomain 2 "b.test"], [], 3⟩
  items := []
  nextIocId := 1
  locks := []
  runs := []
  creations := []

theorem quiet_approvedState : approvedState.Quiet where
  wellFormed := by
    have hwf :
        Report.WellFormed ⟨[approvedDomain 1 "a.test", approvedDomain 2 "b.test"], [], 3⟩ := by
      decide
    exact fun _ => hwf
  records := List.nodup_nil
  runs := rfl
  creations := rfl

/-- Two reports create their records while another candidate is ignored; the second run finds the
record of the first. -/
def spareActions : List ReviewAction :=
  [.load 1 [1], .load 2 [1], .changeStatus 1 [2] .ignore, .advance 0 .lock, .advance 1 .lock,
    .advance 0 .visit, .advance 1 .visit, .advance 0 .create, .advance 1 .create,
    .advance 0 .settle, .advance 1 .retry, .advance 1 .settle, .advance 0 .release,
    .advance 1 .release]

theorem creates_eligible_once_spareActions : ∃ s' : ReviewState,
    (∀ x ∈ s'.creations, x.eligible = true) ∧
      s'.creations.map Creation.identity = [⟨"domain", "a.test"⟩] := by
  have hrun := Run.of_isSome (by decide :
    (Run.exec (reviewStep id) ReviewState.SparesAwaited approvedState spareActions).isSome)
  exact ⟨_, (creates_eligible_once quiet_approvedState hrun).1, by decide⟩

/-- A run loads an approved domain, and it is ignored before the record is created. -/
theorem ignored_candidate_created :
    ¬ ∀ (stored : StorageIdentity → StorageIdentity) (s s' : ReviewState)
        (actions : List ReviewAction), s.Quiet →
      Run (reviewStep stored) (fun _ _ => True) s actions s' →
        (∀ x ∈ s'.creations, x.eligible = true) ∧ (s'.creations.map Creation.identity).Nodup := by
  intro hclaim
  have hrun := Run.of_isSome (by decide :
    (Run.exec (reviewStep id) (fun _ _ => True) approvedState
      [.load 1 [1], .advance 0 .lock, .changeStatus 1 [1] .ignore, .advance 0 .visit,
        .advance 0 .create]).isSome)
  have heligible := (hclaim id approvedState _ _ quiet_approvedState hrun).1
  revert heligible
  decide

end TalonHound.Candidates
