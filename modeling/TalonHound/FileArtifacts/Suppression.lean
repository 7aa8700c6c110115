import TalonHound.Library.Run
import TalonHound.FileArtifacts.Operations
import TalonHound.FileArtifacts.Read

/-!
# File-scoped suppressions

A suppression with a `file_artifact_id` covers every exact hash whose artifact has the same
survivor, where a survivor is found one hop along the tombstones on both sides. Merges can
leave a suppression two hops away from the hashes of its file.
-/

namespace TalonHound.FileArtifacts

open Returns Option

/-- The columns of `ioc_suppressions` that matching reads. -/
structure SuppressionRow where
  (iocValue iocType : String)
  active : Bool
  (deletedAt expiresAt : Option ℤ)
  fileArtifactId : Option ArtifactId

/-- A suppression that is neither switched off, deleted nor expired. -/
def SuppressionRow.isLive (now : ℤ) (s : SuppressionRow) : Bool :=
  s.active && s.deletedAt.isNone && s.expiresAt.all fun expiresAt => decide (now < expiresAt)

section Match

-- `lower` of the database
variable (sqlLower : String → String)

/-- `fileScopedSuppressionExistsSql` for the artifact of a suppression. -/
def Tables.fileScopedSuppressionExists (t : Tables) (artifactId : ArtifactId)
    (observable observableType : String) : Bool :=
  decide (sqlLower observableType ∈ ["md5", "sha1", "sha256"]) && t.hashes.any fun h =>
      decide (h.hash.hashType.text = sqlLower observableType ∧
        h.hash.value = sqlLower observable) &&
      match t.artifact? h.artifactId, t.artifact? artifactId with
      | some fa, some sfa => decide (survivorArtifactId fa = survivorArtifactId sfa)
      | _, _ => false

/-- `activeSuppressionMatchSql`. -/
def SuppressionRow.covers (t : Tables) (observable observableType : String)
    (s : SuppressionRow) : Bool :=
  decide (sqlLower s.iocValue = sqlLower observable ∧
      sqlLower s.iocType = sqlLower observableType) ||
    s.fileArtifactId.any fun artifactId =>
      t.fileScopedSuppressionExists sqlLower artifactId observable observableType

/-- `queryIocSuppressedFromDb`. -/
def queryIocSuppressedFromDb (now : ℤ) (suppressions : List SuppressionRow)
    (observable observableType : String) (t : Tables) : Bool :=
  suppressions.any fun s => s.isLive now && s.covers sqlLower t observable observableType

end Match

variable {sqlLower : String → String} {hashes : Set ExactHash}

namespace Placement

/-- One hop along the tombstones. -/
def survivor (p : Placement) (id : ArtifactId) : ArtifactId := (p.mergedInto id).getD id

/-- A suppression of artifact `a` covers a hash. -/
def Covers (p : Placement) (a : ArtifactId) (h : ExactHash) : Prop :=
  p.status a ≠ none ∧ ∃ x, p.hash h = some x ∧ p.survivor x = p.survivor a

/-- Bringing the hash to the end of its chain takes it out of no suppression of `suppressed`:
the chain has one hop, or none of them is found one hop along. -/
def HealKeeps (p : Placement) (suppressed : Set ArtifactId) (h : ExactHash) : Prop :=
  ∀ x y n root, p.hash h = some x → p.mergedInto x = some y → LeadsTo p.mergedInto n y root →
    p.TypeFree root h.hashType → y ≠ root → ∀ a ∈ suppressed, p.survivor a ≠ y

/-- Merging `d` into `c` takes no hash out of a suppression of `suppressed`: none of them sits
on a tombstone of `d` while `d` holds hashes, and `d` is none of them while a hash is parked
on a tombstone of `d`. -/
def MergeKeeps (p : Placement) (suppressed : Set ArtifactId) (d : ArtifactId) : Prop :=
  ∀ a ∈ suppressed, ∀ h x, p.hash h = some x →
    (x = d → p.mergedInto a ≠ some d) ∧ (a = d → p.mergedInto x ≠ some d)

variable {p p' : Placement} {suppressed : Set ArtifactId} {a c d : ArtifactId} {h : ExactHash}

theorem survivor_of_none {id : ArtifactId} (hid : p.mergedInto id = none) : p.survivor id = id := by
  rw [survivor, hid, getD_none]

theorem survivor_of_some {id into : ArtifactId} (hid : p.mergedInto id = some into) :
    p.survivor id = into := by
  rw [survivor, hid, getD_some]

/-- A merge changes the survivor of the duplicate alone. -/
theorem survivor_merge (id : ArtifactId) :
    (p.merge c d).survivor id = if id = d then c else p.survivor id := by
  unfold survivor
  rw [mergedInto_merge]
  unfold linkUnder
  by_cases hid : id = d
  · subst hid
    rw [Function.update_self, if_pos rfl, getD_some]
  · rw [Function.update_of_ne hid, if_neg hid]

/-- Attaching keeps what suppressions cover when the hashes that it brings along stay
covered. -/
theorem Grows.covers {hashes : Set ExactHash} {good : HashType × ℕ → ℕ → Prop}
    (hgrows : Grows hashes good p p')
    (hfree : ∀ h ∈ hashes, ∀ x root, p.hash h = some x → p.mergedInto x ≠ none →
      p'.hash h = some root → p.mergedInto root = none → p.TypeFree root h.hashType)
    (hkeeps : ∀ h ∈ hashes, p.HealKeeps suppressed h) (ha : a ∈ suppressed)
    (hcovers : p.Covers a h) : p'.Covers a h := by
  have hsurvivor : ∀ id, p'.survivor id = p.survivor id := by
    intro id
    unfold survivor
    rw [hgrows.mergedInto]
  obtain ⟨hknown, x, hx, hsame⟩ := hcovers
  refine ⟨hgrows.known a hknown, ?_⟩
  rcases hgrows.hash h with hkept | ⟨hmem, hheal⟩
  · exact ⟨x, hkept.trans hx, by rw [hsurvivor, hsurvivor, hsame]⟩
  · obtain ⟨hne, n, root, hlead, hroot⟩ := hheal x hx
    refine ⟨root, hroot, ?_⟩
    rw [hsurvivor, hsurvivor, survivor_of_none hlead.isRoot, ← hsame]
    obtain ⟨y, hy⟩ := ne_none_iff_exists'.mp hne
    obtain ⟨k, -, hrest⟩ := hlead.pos hy
    rw [survivor_of_some hy]
    by_contra hfar
    have htype := hfree h hmem x root hx hne hroot hlead.isRoot
    refine hkeeps h hmem x y k root hx hy hrest htype (Ne.symm hfar) a ha ?_
    rw [← hsame, survivor_of_some hy]

/-- A merge of two active artifacts keeps what suppressions cover exactly under its
condition. -/
theorem merge_covers_iff (hc : p.mergedInto c = none) (hd : p.mergedInto d = none) (hne : c ≠ d)
    (hknown : p.status d ≠ none) :
    (∀ a ∈ suppressed, ∀ h, p.Covers a h → (p.merge c d).Covers a h) ↔
      p.MergeKeeps suppressed d := by
  have hstatus : ∀ id, p.status id ≠ none → (p.merge c d).status id ≠ none := by
    intro id hid
    change Function.update p.status d (some (.merged c)) id ≠ none
    by_cases hidd : id = d
    · subst hidd
      simp
    · rwa [Function.update_of_ne hidd]
  have hhash : ∀ {h x}, p.hash h = some x → (p.merge c d).hash h = some (redirect c d x) := by
    intro h x hx
    change (p.hash h).map (redirect c d) = _
    rw [hx, map_some]
  have htombstone : ∀ {id}, p.mergedInto id = some d → id ≠ d ∧ p.status id ≠ none := by
    intro id hid
    constructor
    · rintro rfl
      rw [hd] at hid
      cases hid
    · rw [mergedInto, Versions.mergedInto_eq_some] at hid
      rw [hid]
      exact nofun
  constructor
  · intro hkeeps a ha h x hx
    constructor
    · rintro rfl hmerged
      obtain ⟨hax, hknown'⟩ := htombstone hmerged
      have hcovers : p.Covers a h :=
        ⟨hknown', x, hx, by rw [survivor_of_none hd, survivor_of_some hmerged]⟩
      obtain ⟨-, y, hy, hsame⟩ := hkeeps a ha h hcovers
      rw [hhash hx, Option.some.injEq] at hy
      subst hy
      rw [redirect, if_pos rfl, survivor_merge, survivor_merge, if_neg hne, if_neg hax,
        survivor_of_none hc, survivor_of_some hmerged] at hsame
      exact hne hsame
    · rintro rfl hmerged
      obtain ⟨hxa, -⟩ := htombstone hmerged
      have hcovers : p.Covers a h :=
        ⟨hknown, x, hx, by rw [survivor_of_none hd, survivor_of_some hmerged]⟩
      obtain ⟨-, y, hy, hsame⟩ := hkeeps a ha h hcovers
      rw [hhash hx, Option.some.injEq] at hy
      subst hy
      rw [redirect, if_neg hxa, survivor_merge, survivor_merge, if_neg hxa, if_pos rfl,
        survivor_of_some hmerged] at hsame
      exact hne hsame.symm
  · rintro hkeeps a ha h ⟨hknown', x, hx, hsame⟩
    obtain ⟨hleft, hright⟩ := hkeeps a ha h x hx
    refine ⟨hstatus a hknown', _, hhash hx, ?_⟩
    rw [survivor_merge, survivor_merge]
    by_cases hxd : x = d
    · -- the hash moves to `c`: the suppression is on `d` itself
      subst hxd
      have had : a = x := by
        cases hmerged : p.mergedInto a with
        | none => rw [← survivor_of_none hmerged, ← hsame, survivor_of_none hd]
        | some into =>
          rw [survivor_of_none hd, survivor_of_some hmerged] at hsame
          exact absurd (hsame ▸ hmerged) (hleft rfl)
      rw [redirect, if_pos rfl, if_neg hne, if_pos had, survivor_of_none hc]
    · rw [redirect, if_neg hxd, if_neg hxd]
      by_cases had : a = d
      · -- a hash parked on a tombstone of `d`
        subst had
        have hmerged : p.mergedInto x = some a := by
          cases hmerged : p.mergedInto x with
          | none =>
            rw [survivor_of_none hmerged, survivor_of_none hd] at hsame
            exact absurd hsame hxd
          | some into =>
            rw [survivor_of_some hmerged, survivor_of_none hd] at hsame
            rw [hsame]
        exact absurd hmerged (hright rfl)
      · rw [if_neg had, hsame]

end Placement

section Tables

variable {s s' : Database} {a id : ArtifactId}

/-- The SQL fragment computes the survivor. -/
theorem survivorArtifactId_eq {t : Tables} {fa : Artifact} (h : t.artifact? id = some fa) :
    survivorArtifactId fa = t.placement.survivor id := by
  have hmerged : t.placement.mergedInto id = fa.mergedInto := by
    rw [Tables.placement_mergedInto, Tables.mergedInto_of_row h]
  rw [Placement.survivor, hmerged, survivorArtifactId, Artifact.mergedInto]
  cases fa.status with
  | merged into => rfl
  | active => exact (Rows.mem_of_lookup h).2

/-- The `EXISTS` of a file-scoped suppression. -/
theorem fileScopedSuppressionExists_iff {observable observableType : String} :
    s.tables.fileScopedSuppressionExists sqlLower a observable observableType = true ↔
      ∃ h : ExactHash, h.hashType.text = sqlLower observableType ∧
        h.value = sqlLower observable ∧ s.tables.placement.Covers a h := by
  unfold Tables.fileScopedSuppressionExists
  simp only [Bool.and_eq_true, decide_eq_true_eq, List.any_eq_true]
  constructor
  · rintro ⟨-, row, hrow, ⟨htype, hvalue⟩, hsame⟩
    refine ⟨row.hash, htype, hvalue, ?_⟩
    have hlookup : s.tables.hashRow? row.hash = some row :=
      (Rows.lookup_eq_some s.unique.hash_value).mpr ⟨hrow, rfl⟩
    cases hfa : s.tables.artifact? row.artifactId with
    | none => simp [hfa] at hsame
    | some fa =>
      cases hsfa : s.tables.artifact? a with
      | none => simp [hfa, hsfa] at hsame
      | some sfa =>
        simp only [hfa, hsfa, decide_eq_true_eq] at hsame
        refine ⟨?_, row.artifactId, Tables.placement_hash_eq_some.mpr ⟨row, hlookup, rfl⟩, ?_⟩
        · rw [Ne, Tables.placement_status_eq_none, hsfa]
          exact nofun
        · rw [← survivorArtifactId_eq hfa, ← survivorArtifactId_eq hsfa, hsame]
  · rintro ⟨h, htype, hvalue, hknown, x, hx, hsame⟩
    constructor
    · rw [← htype]
      cases h.hashType <;> decide
    · obtain ⟨row, hrow, rfl⟩ := Tables.placement_hash_eq_some.mp hx
      obtain ⟨hmem, rfl⟩ := Rows.mem_of_lookup hrow
      refine ⟨row, hmem, ⟨htype, hvalue⟩, ?_⟩
      obtain ⟨fa, hfa⟩ := isSome_iff_exists.mp
        (Tables.isSome_artifact?.mpr (s.references.hash_artifact row hmem))
      rw [Ne, Tables.placement_status_eq_none] at hknown
      obtain ⟨sfa, hsfa⟩ := ne_none_iff_exists'.mp hknown
      simp only [hfa, hsfa, decide_eq_true_eq]
      rw [survivorArtifactId_eq hfa, survivorArtifactId_eq hsfa, hsame]

/-- A suppression goes on matching when its artifact goes on covering. -/
theorem SuppressionRow.covers_of {row : SuppressionRow} {observable observableType : String}
    (hkeeps : ∀ a, row.fileArtifactId = some a → ∀ h,
      s.tables.placement.Covers a h → s'.tables.placement.Covers a h)
    (h : row.covers sqlLower s.tables observable observableType = true) :
    row.covers sqlLower s'.tables observable observableType = true := by
  unfold SuppressionRow.covers at h ⊢
  rw [Bool.or_eq_true] at h ⊢
  rcases h with hexact | hfile
  · exact .inl hexact
  · right
    cases ha : row.fileArtifactId with
    | none =>
      rw [ha] at hfile
      cases hfile
    | some a =>
      rw [ha, any_some] at hfile
      obtain ⟨hash, htype, hvalue, hcovers⟩ := fileScopedSuppressionExists_iff.mp hfile
      exact fileScopedSuppressionExists_iff.mpr ⟨hash, htype, hvalue, hkeeps a ha hash hcovers⟩

/-- A hash that came from a tombstone found its type free. -/
theorem typeFree_of_grows {good : HashType × ℕ → ℕ → Prop}
    (hgrows : s.tables.placement.Grows hashes good s'.tables.placement) {h : ExactHash}
    {x root : ArtifactId} (hx : s.tables.placement.hash h = some x)
    (hparked : s.tables.placement.mergedInto x ≠ none)
    (hroot : s'.tables.placement.hash h = some root)
    (hactive : s.tables.placement.mergedInto root = none) :
    s.tables.placement.TypeFree root h.hashType := by
  intro g hg htype
  have hstays : s'.tables.placement.hash g = some root := by
    rcases hgrows.hash g with hsame | ⟨-, hheal⟩
    · exact hsame.trans hg
    · exact absurd hactive (hheal root hg).1
  obtain rfl := placement_hash_inj hstays hroot htype
  rw [hg, Option.some.injEq] at hx
  subst hx
  exact hparked hactive

end Tables

namespace ArtifactOperation

/-- The call takes no hash out of a suppression of `suppressed`. -/
def KeepsCovered (suppressed : Set ArtifactId) (s : Database) : ArtifactOperation → Prop
  | attach _ input hashType hashValue => ∀ h ∈ attaches s input hashType hashValue,
      s.tables.placement.HealKeeps suppressed h
  | ensure _ input => ∀ primary,
      normalizeExactHash input.observableType input.observable = some primary →
        ∀ h ∈ input.attaches primary s.tables.placement, s.tables.placement.HealKeeps suppressed h
  | merge input => ∀ c d n m rc rd, input.canonicalArtifactId = some c →
      input.duplicateArtifactId = some d → LeadsTo s.tables.mergedInto n c rc →
        LeadsTo s.tables.mergedInto m d rd → rc ≠ rd → s.tables.TypesDisjoint rc rd →
          s.tables.placement.MergeKeeps suppressed rd

variable {s s' : Database} {operation : ArtifactOperation} {suppressed : Set ArtifactId}

/-- A call that attaches under its condition keeps what suppressions cover. -/
theorem covers_of_attaches (hattaches : Attaches hashes (fun _ _ => True) s.tables s'.tables)
    (hkeeps : ∀ h ∈ hashes, s.tables.placement.HealKeeps suppressed h) {a : ArtifactId}
    (ha : a ∈ suppressed) {h : ExactHash} (hcovers : s.tables.placement.Covers a h) :
    s'.tables.placement.Covers a h := by
  refine hattaches.grows.covers ?_ hkeeps ha hcovers
  intro g hg x root hx hparked hroot hactive
  exact typeFree_of_grows hattaches.grows hx hparked hroot hactive

/-- One call under its condition keeps what suppressions cover. -/
theorem covers_step (h : step s operation = some s') (hkeeps : KeepsCovered suppressed s operation)
    {a : ArtifactId} (ha : a ∈ suppressed) {hash : ExactHash}
    (hcovers : s.tables.placement.Covers a hash) : s'.tables.placement.Covers a hash := by
  rcases transaction_cases h with hcall | hsame
  · cases operation with
    | attach host input hashType hashValue =>
      obtain ⟨result, s₁, hattach, hrest⟩ := bind_iff.mp hcall
      obtain ⟨-, rfl⟩ := pure_iff.mp hrest
      exact covers_of_attaches (attachExactHash_attaches hattach) hkeeps ha hcovers
    | ensure host input =>
      obtain ⟨result, s₁, hensure, hrest⟩ := bind_iff.mp hcall
      obtain ⟨-, rfl⟩ := pure_iff.mp hrest
      unfold ensureArtifactForFileHashIoc at hensure
      cases hprimary : normalizeExactHash input.observableType input.observable with
      | none =>
        simp only [hprimary] at hensure
        obtain ⟨-, rfl⟩ := pure_iff.mp hensure
        exact hcovers
      | some primary =>
        simp only [hprimary] at hensure
        have hgood : LinksGood (fun _ _ => True) s.tables := fun _ _ _ _ => trivial
        have hattaches := ensureForHash_attaches hgood trivial hensure
        exact covers_of_attaches hattaches (hkeeps primary hprimary) ha hcovers
    | merge input =>
      obtain ⟨result, s₁, hmerge, hrest⟩ := bind_iff.mp hcall
      obtain ⟨-, rfl⟩ := pure_iff.mp hrest
      rcases mergeFileArtifacts_effect hmerge with rfl | ⟨c, d, hc, hd, heffect⟩
      · exact hcovers
      · cases heffect with
        | unchanged => exact hcovers
        | merged n m rc rd hleadc hleadd hactive hactive' hne htypes hplacement hioc =>
          rw [hplacement]
          have hmergeKeeps := hkeeps c d n m rc rd hc hd hleadc hleadd hne htypes
          refine (Placement.merge_covers_iff ?_ ?_ hne ?_).mpr hmergeKeeps a ha hash hcovers
          · rw [Tables.placement_mergedInto]
            exact hleadc.isRoot
          · rw [Tables.placement_mergedInto]
            exact hleadd.isRoot
          · obtain ⟨row, hrow, -⟩ := hactive'
            rw [Ne, Tables.placement_status_eq_none, hrow]
            exact nofun
  · rw [hsame]
    exact hcovers

end ArtifactOperation

/-- The artifacts with a live suppression. -/
def suppressedArtifacts (now : ℤ) (suppressions : List SuppressionRow) : Set ArtifactId :=
  {a | ∃ row ∈ suppressions, row.isLive now = true ∧ row.fileArtifactId = some a}

/-- In a run whose calls keep what the live suppressions cover, every observable that was
suppressed stays so, by the same suppressions. -/
theorem merges_keep_suppressions {now : ℤ} {suppressions : List SuppressionRow}
    {s s' : Database} {operations : List ArtifactOperation}
    (hrun : Run ArtifactOperation.step
      (ArtifactOperation.KeepsCovered (suppressedArtifacts now suppressions)) s operations s')
    (observable observableType : String) :
    (∀ row ∈ suppressions, row.isLive now = true →
      row.covers sqlLower s.tables observable observableType = true →
        row.covers sqlLower s'.tables observable observableType = true) ∧
    (queryIocSuppressedFromDb sqlLower now suppressions observable observableType s.tables = true →
      queryIocSuppressedFromDb sqlLower now suppressions observable observableType s'.tables = true) := by
  have hcovers : ∀ a ∈ suppressedArtifacts now suppressions, ∀ h,
      s.tables.placement.Covers a h → s'.tables.placement.Covers a h := by
    intro a ha h hstart
    apply hrun.invariant (I := fun s => s.tables.placement.Covers a h) _ hstart
    intro s₁ operation s₂ hcovers hkeeps hstep
    exact ArtifactOperation.covers_step hstep hkeeps ha hcovers
  have hrows : ∀ row ∈ suppressions, row.isLive now = true →
      row.covers sqlLower s.tables observable observableType = true →
        row.covers sqlLower s'.tables observable observableType = true := by
    intro row hrow hlive
    apply SuppressionRow.covers_of
    intro a ha
    exact hcovers a ⟨row, hrow, hlive, ha⟩
  refine ⟨hrows, ?_⟩
  unfold queryIocSuppressedFromDb
  simp only [List.any_eq_true, Bool.and_eq_true]
  rintro ⟨row, hrow, hlive, hmatch⟩
  exact ⟨row, hrow, hlive, hrows row hrow hlive hmatch⟩

/-- Three artifacts, the first with an MD5. -/
def threeArtifacts : Database where
  tables := { Tables.empty with
    artifacts := [plainArtifact 1 .active, plainArtifact 2 .active, plainArtifact 3 .active]
    hashes := [plainHash 1 1 plainMd5] }
  unique := by decide +kernel
  references := by decide +kernel

/-- A suppression of the first artifact. -/
def firstSuppression : SuppressionRow := ⟨"sample", "md5", true, none, none, some 1⟩

/-- The first artifact merged into the second, and that into the third. -/
def chainedMerges : List ArtifactOperation :=
  [.merge ⟨some 2, some 1, none, none, "null"⟩, .merge ⟨some 3, some 2, none, none, "null"⟩]

/-- The first of the merges keeps the suppression. -/
theorem merges_keep_suppressions_first :
    ∃ s', Run ArtifactOperation.step (ArtifactOperation.KeepsCovered {1}) threeArtifacts
        (chainedMerges.take 1) s' ∧
      queryIocSuppressedFromDb lowerCase 0 [firstSuppression] plainMd5.value "md5" s'.tables = true := by
  have hlive : suppressedArtifacts 0 [firstSuppression] = {1} := by
    ext a
    constructor
    · rintro ⟨row, hrow, -, ha⟩
      rw [List.mem_singleton.mp hrow] at ha
      exact (Option.some.inj ha).symm
    · rintro rfl
      exact ⟨firstSuppression, List.mem_singleton_self _, by decide, rfl⟩
  have hactive : ∀ id, threeArtifacts.tables.placement.mergedInto id = none := by
    intro id
    rw [Tables.placement_mergedInto]
    apply eq_none_iff_forall_ne_some.mpr
    intro into hinto
    obtain ⟨row, hrow, hstatus⟩ := Tables.mergedInto_eq_some.mp hinto
    have hall : ∀ row ∈ threeArtifacts.tables.artifacts, row.status = .active := by decide
    rw [hall row (Rows.mem_of_lookup hrow).1] at hstatus
    cases hstatus
  have hkeeps : ArtifactOperation.KeepsCovered {1} threeArtifacts
      (.merge ⟨some 2, some 1, none, none, "null"⟩) := by
    intro c d n m rc rd _ hd _ hlead _ _ a _ h x _
    exact ⟨fun _ hmerged => by simp [hactive] at hmerged,
      fun _ hmerged => by simp [hactive] at hmerged⟩
  have hstep : ∃ s', ArtifactOperation.step threeArtifacts
      (.merge ⟨some 2, some 1, none, none, "null"⟩) = some s' := by
    apply isSome_iff_exists.mp
    unfold ArtifactOperation.step transaction
    split <;> rfl
  obtain ⟨s', hstep⟩ := hstep
  have hrun : Run ArtifactOperation.step (ArtifactOperation.KeepsCovered {1}) threeArtifacts
      (chainedMerges.take 1) s' := .cons hkeeps hstep (.nil s')
  refine ⟨s', hrun, ?_⟩
  rw [← hlive] at hrun
  exact (merges_keep_suppressions hrun plainMd5.value "md5").2 (by decide +kernel)

/-- The second leaves the suppression two hops from the hash. -/
theorem merges_lose_suppression :
    queryIocSuppressedFromDb lowerCase 0 [firstSuppression] plainMd5.value "md5" threeArtifacts.tables =
        true ∧
      ∃ s', Run ArtifactOperation.step (fun _ _ => True) threeArtifacts chainedMerges s' ∧
        queryIocSuppressedFromDb lowerCase 0 [firstSuppression] plainMd5.value "md5" s'.tables = false := by
  have hlost : (Run.exec ArtifactOperation.step (fun _ _ => True) threeArtifacts
      chainedMerges).map (fun s => queryIocSuppressedFromDb lowerCase 0 [firstSuppression] plainMd5.value
        "md5" s.tables) = some false := by decide +kernel
  obtain ⟨s', hexec, hfalse⟩ := map_eq_some_iff.mp hlost
  exact ⟨by decide +kernel, s', .of_exec hexec, hfalse⟩

end TalonHound.FileArtifacts
