import TalonHound.Library.Components
import TalonHound.FileArtifacts.Operations
import TalonHound.FileArtifacts.RecordMerge

/-!
# Provider records

When one call attaches its whole record, and what a list of such calls makes of the hashes:
the components of the records.
-/

open Relation (TransGen)

namespace TalonHound.FileArtifacts

open Returns Option

namespace Placement

/-- Two hashes resolve to one artifact. -/
def SameFile (p : Placement) (g h : ExactHash) : Prop := ∃ root, p.Resolves g root ∧ p.Resolves h root

/-- A hash of the record sits on the artifact or resolves to it. -/
def Involved (p : Placement) (record : List ExactHash) (x : ArtifactId) : Prop :=
  ∃ h ∈ record, p.hash h = some x ∨ p.Resolves h x

/-- No two artifacts that the record involves hold different values of one hash type. -/
def Compatible (p : Placement) (record : List ExactHash) : Prop :=
  ∀ x y, p.Involved record x → p.Involved record y → x ≠ y → p.TypesDisjoint x y

/-- No hash of the record is bound to another artifact than its own hash. -/
def Alone (p : Placement) (primary : ExactHash) (record : List ExactHash) : Prop :=
  ∀ h ∈ record, ∀ root, p.Resolves h root → p.Resolves primary root

/-- One call attaches the record: its bound hashes resolve, its new hashes find their types
free, and either no hash is bound to another artifact or no sibling is new. -/
structure Attachable (p : Placement) (primary : ExactHash) (record : List ExactHash) : Prop where
  resolves : ∀ h ∈ record, p.hash h ≠ none → ∃ root, p.Resolves h root
  fits : ∀ n ∈ record, p.hash n = none → ∀ h ∈ record, ∀ root, p.Resolves h root →
    p.TypeFree root n.hashType
  route : p.Alone primary record ∧ (∀ n ∈ record, p.hash n = none → ∀ h ∈ record,
      h.hashType = n.hashType → h = n) ∨
    ∀ h ∈ record, h ≠ primary → p.hash h ≠ none

variable {p : Placement} {record : List ExactHash} {primary g h : ExactHash} {x y root : ArtifactId}

theorem SameFile.trans {k : ExactHash} (hgh : p.SameFile g h) (hhk : p.SameFile h k) :
    p.SameFile g k := by
  obtain ⟨root, hg, hh⟩ := hgh
  obtain ⟨root', hh', hk⟩ := hhk
  exact ⟨root, hg, hh.unique hh' ▸ hk⟩

theorem SameFile.symm (hgh : p.SameFile g h) : p.SameFile h g := by
  obtain ⟨root, hg, hh⟩ := hgh
  exact ⟨root, hh, hg⟩

theorem TypesDisjoint.symm (hxy : p.TypesDisjoint x y) : p.TypesDisjoint y x :=
  fun g h hg hh htype => hxy h g hh hg htype.symm

/-- A hash that resolves is bound. -/
theorem Resolves.bound (hh : p.Resolves h root) : p.hash h ≠ none := by
  obtain ⟨x, -, hx, -⟩ := hh
  rw [hx]
  exact nofun

/-- A hash resolves to the end of its chain. -/
theorem Resolves.isRoot (hh : p.Resolves h root) : p.mergedInto root = none := by
  obtain ⟨x, n, -, hlead⟩ := hh
  exact LeadsTo.isRoot hlead

end Placement

section Database

variable {s : Database} {record : List ExactHash} {primary g h : ExactHash} {x y root : ArtifactId}

/-- Hashes of one type on artifacts that a compatible record involves are one. -/
theorem compatible_inj (hcompatible : s.tables.placement.Compatible record)
    (hx : s.tables.placement.Involved record x) (hy : s.tables.placement.Involved record y)
    (hg : s.tables.placement.hash g = some x) (hh : s.tables.placement.hash h = some y)
    (htype : g.hashType = h.hashType) : g = h := by
  by_cases hxy : x = y
  · subst hxy
    exact placement_hash_inj hg hh htype
  · exact absurd htype (hcompatible x y hx hy hxy g h hg hh)

/-- An artifact that a hash resolves to exists. -/
theorem status_of_resolves (hh : s.tables.placement.Resolves h root) :
    s.tables.placement.status root ≠ none := by
  rw [isActive_iff_status.mp (resolves_isActive hh)]
  exact nofun

end Database

/-- A call of `dualWriteFileArtifactForObservable` and the record that it presents. -/
structure ProviderCall where
  host : Host
  resolveFeed : String → Option ℕ
  input : DualWriteInput
  primary : ExactHash
  record : List ExactHash

namespace ProviderCall

/-- The call. -/
def call (c : ProviderCall) : Db DualWriteResult :=
  dualWriteFileArtifactForObservable true c.resolveFeed c.host c.input

/-- The call finds an IOC row of `primary`, the note and `primary` make up `record`, both flags
are set, and the id for a new artifact is unused. -/
structure Presents (c : ProviderCall) (s : Database) : Prop where
  exactHash : normalizeHashType c.input.observableType ≠ none
  row : ∃ row, s.tables.iocRowFor? c.input.observable c.input.observableType = some row ∧
    row.observableType = c.primary.hashType.text ∧
    normalizeExactHash row.observableType row.observable = some c.primary ∧
    c.record = extractExactHashesFromNote c.primary (c.input.note.getD row.note)
  siblings : c.input.attachNoteSiblings = true
  mapping : c.input.providerMapping = true
  fresh : s.tables.placement.status c.host.uuid = none

/-- The call returns an active artifact, and every hash of the record belongs to it. -/
def AttachesAll (c : ProviderCall) (s : Database) : Prop :=
  ∃ a s', Returns c.call s (.written a) s' ∧ s'.tables.IsActive a ∧
    ∀ h ∈ c.record, s'.tables.placement.Resolves h a

/-- The hashes that a call brings together. -/
def Touched (c : ProviderCall) (p : Placement) (h : ExactHash) : Prop :=
  Components.Touched p.SameFile {h | h ∈ c.record} h

/-- What a call that attaches its record leaves. -/
structure Unites (c : ProviderCall) (a : ArtifactId) (s s' : Database) : Prop where
  active : s'.tables.IsActive a
  own : ∀ h, s.tables.placement.Resolves h a → c.Touched s.tables.placement h
  resolves : ∀ h root, s'.tables.placement.Resolves h root ↔
    c.Touched s.tables.placement h ∧ root = a ∨
      ¬ c.Touched s.tables.placement h ∧ s.tables.placement.Resolves h root

variable {c : ProviderCall} {s s' : Database} {a : ArtifactId}

/-- The own hash of a record is in it. -/
theorem Presents.primary_mem (hpresents : c.Presents s) : c.primary ∈ c.record := by
  obtain ⟨row, -, -, -, hrecord⟩ := hpresents.row
  obtain ⟨rest, hrest⟩ := (extractExactHashesFromNote_spec c.primary (c.input.note.getD row.note)).2
  rw [hrecord, hrest]
  exact List.mem_cons_self ..

theorem Presents.nodup (hpresents : c.Presents s) : c.record.Nodup := by
  obtain ⟨row, -, -, -, hrecord⟩ := hpresents.row
  rw [hrecord]
  exact (extractExactHashesFromNote_spec _ _).1

/-- The argument that the call ensures its row with. -/
def ensureInput (c : ProviderCall) (row : IocRow) : EnsureInput :=
  c.input.toEnsure (c.input.feedId <|> (c.input.sourceName.filter (· ≠ "")).bind c.resolveFeed) row

/-- The row of a call has the own hash of its record. -/
theorem ensureArtifact_eq {row : IocRow}
    (hprimary : normalizeExactHash row.observableType row.observable = some c.primary) :
    ensureArtifactForFileHashIoc c.host (c.ensureInput row) =
      ensureForHash c.host (c.ensureInput row) c.primary := by
  have hnormal : normalizeExactHash (c.ensureInput row).observableType
      (c.ensureInput row).observable = some c.primary := hprimary
  unfold ensureArtifactForFileHashIoc
  rw [hnormal]

/-- The call is the ensuring of its row and the merges. -/
theorem Presents.returns_iff (hpresents : c.Presents s) : ∃ row : IocRow,
    (c.primary.hashType.text, (c.ensureInput row).iocItemId) ∈
      s.tables.iocItems.map (fun ioc => (ioc.observableType, ioc.id)) ∧
    (c.ensureInput row).withSiblings ∧ (c.ensureInput row).record c.primary = c.record ∧
    ∀ a s', Returns c.call s (.written a) s' ↔ ∃ b hashId link siblings s₁,
      Returns (ensureForHash c.host (c.ensureInput row) c.primary) s
        (.ensured b hashId link siblings) s₁ ∧
      Returns (mergeProviderTargets c.input b siblings) s₁ a s' := by
  obtain ⟨row, hrow, htype, hprimary, hrecord⟩ := hpresents.row
  refine ⟨row, ?_, ?_, ?_, fun a s' => ?_⟩
  · rw [← htype]
    exact List.mem_map_of_mem (f := fun ioc : IocRow => (ioc.observableType, ioc.id))
      (Tables.mem_of_iocRowFor? hrow)
  · change (c.input.attachNoteSiblings || c.input.providerMapping) = true
    rw [hpresents.siblings, Bool.true_or]
  · unfold EnsureInput.record
    exact hrecord.symm
  · unfold call dualWriteFileArtifactForObservable
    rw [if_neg (by decide), if_neg hpresents.exactHash, returns_withSavepoint]
    unfold dualWriteBody
    rw [bind_of (returns_query.mpr ⟨hrow, rfl⟩)]
    simp only
    change Returns (ensureArtifactForFileHashIoc c.host (c.ensureInput row) >>= _) s _ s' ↔ _
    rw [ensureArtifact_eq hprimary, bind_iff]
    constructor
    · rintro ⟨ensured, s₁, hreturns, hrest⟩
      cases ensured with
      | ensured b hashId link siblings =>
        obtain ⟨merged, s₂, hmerge, hpure⟩ := bind_iff.mp hrest
        obtain ⟨hwritten, rfl⟩ := pure_iff.mp hpure
        cases hwritten
        exact ⟨b, hashId, link, siblings, s₁, hreturns, hmerge⟩
      | invalidOrNonExactHash | notAttached =>
        obtain ⟨hwritten, -⟩ := pure_iff.mp hrest
        cases hwritten
    · rintro ⟨b, hashId, link, siblings, s₁, hreturns, hmerge⟩
      refine ⟨_, s₁, hreturns, ?_⟩
      simp only
      rw [bind_of hmerge]
      exact pure_iff.mpr ⟨rfl, rfl⟩

/-- The own hash of a compatible record finds no other of its type where it resolves. -/
theorem Presents.primary_type (hpresents : c.Presents s)
    (hcompatible : s.tables.placement.Compatible c.record) :
    ∀ root, s.tables.placement.Resolves c.primary root → ∀ g,
      s.tables.placement.hash g = some root → g.hashType = c.primary.hashType → g = c.primary := by
  intro root hroot g hg htype
  obtain ⟨x, n, hx, hlead⟩ := hroot
  exact compatible_inj hcompatible ⟨c.primary, hpresents.primary_mem, .inr ⟨x, n, hx, hlead⟩⟩
    ⟨c.primary, hpresents.primary_mem, .inl hx⟩ hg hx htype

/-- What is left of a call once its own hash was attached to `a`. -/
structure Prepared (c : ProviderCall) (a : ArtifactId) (s s₁ : Database) : Prop where
  settled : Settled {c.primary} a s.tables s₁.tables
  root : s.tables.mergedInto a = none
  known : s₁.tables.placement.status a ≠ none
  home : Homed c.host c.primary a s.tables

namespace Prepared

variable {s₁ : Database} {h : ExactHash} {root : ArtifactId}

/-- Where hashes resolve after the own hash was attached. -/
theorem resolves_iff (hprepared : c.Prepared a s s₁) :
    s₁.tables.placement.Resolves h root ↔
      h = c.primary ∧ root = a ∨ h ≠ c.primary ∧ s.tables.placement.Resolves h root :=
  hprepared.settled.resolves_iff hprepared.root

/-- The artifact is active. -/
theorem isActive (hprepared : c.Prepared a s s₁) : s₁.tables.IsActive a := by
  apply Tables.isActive_iff.mpr
  refine ⟨?_, by rw [hprepared.settled.mergedInto, hprepared.root]⟩
  have hknown := hprepared.known
  rw [Ne, Tables.placement_status_eq_none] at hknown
  exact isSome_iff_ne_none.mpr hknown

section

variable (hprepared : c.Prepared a s s₁)
include hprepared

/-- Another hash that resolves to the artifact, or sits on it, did so before; then the own hash
did, too. -/
theorem home_of_status (hknown : s.tables.placement.status a ≠ none) :
    s.tables.placement.Resolves c.primary a := by
  rcases hprepared.home with hhome | ⟨-, -, hfresh⟩
  · exact hhome
  · exact absurd hfresh hknown

/-- The own hash resolves to nothing but the artifact. -/
theorem eq_of_primary (hroot : s.tables.placement.Resolves c.primary root) : root = a := by
  rcases hprepared.home with hhome | ⟨hunbound, -⟩
  · exact hroot.unique hhome
  · exact absurd hunbound hroot.bound

/-- A hash that sits on the artifact is the own one, or sat there. -/
theorem hash_cases {x : ArtifactId} (hx : s₁.tables.placement.hash h = some x) :
    h = c.primary ∧ x = a ∨ h ≠ c.primary ∧ s.tables.placement.hash h = some x := by
  by_cases hprimary : h = c.primary
  · subst hprimary
    rw [hprepared.settled.mem _ rfl] at hx
    exact .inl ⟨rfl, (Option.some.inj hx).symm⟩
  · rw [hprepared.settled.notMem h hprimary] at hx
    exact .inr ⟨hprimary, hx⟩

end

end Prepared

variable {row : IocRow} {ids : List ArtifactId}

/-- The first part of a call returns. -/
theorem Presents.prepares (hpresents : c.Presents s) {row : IocRow}
    (hioc : (c.primary.hashType.text, (c.ensureInput row).iocItemId) ∈
      s.tables.iocItems.map fun ioc => (ioc.observableType, ioc.id))
    (hcompatible : s.tables.placement.Compatible c.record)
    (hattachable : s.tables.placement.Attachable c.primary c.record) :
    ∃ a hashId link s₁, (∀ siblings s₂,
        Returns (ensureSiblings c.host (c.ensureInput row) c.primary a) s₁ siblings s₂ →
          Returns (ensureForHash c.host (c.ensureInput row) c.primary) s
            (.ensured a hashId link siblings) s₂) ∧ c.Prepared a s s₁ := by
  obtain ⟨a, hashId, link, s₁, hrest, hsettled, hroot, hknown, hhome⟩ :=
    ensureForHash_prepares hioc hpresents.fresh
      (hattachable.resolves c.primary hpresents.primary_mem)
      (hpresents.primary_type hcompatible)
  refine ⟨a, hashId, link, s₁, ?_, hsettled, hsettled.mergedInto ▸ hroot, hknown, hhome⟩
  intro siblings s₂ hsiblings
  apply hrest
  rw [bind_of hsiblings]
  exact pure_iff.mpr ⟨rfl, rfl⟩

/-- A call that returned made the first part. -/
theorem Presents.prepared (hpresents : c.Presents s) {row : IocRow} {hashId : ℕ}
    {link : LinkResult} {siblings : Option SiblingResult}
    (h : Returns (ensureForHash c.host (c.ensureInput row) c.primary) s
      (.ensured a hashId link siblings) s') :
    ∃ s₁, Returns (ensureSiblings c.host (c.ensureInput row) c.primary a) s₁ siblings s' ∧
      c.Prepared a s s₁ := by
  obtain ⟨s₁, hsiblings, hsettled, hroot, hknown, hhome⟩ := ensureForHash_prepared hpresents.fresh h
  exact ⟨s₁, hsiblings, hsettled, hsettled.mergedInto ▸ hroot, hknown, hhome⟩

/-- The argument of the sibling pass. -/
def siblingPass (c : ProviderCall) (row : IocRow) (a : ArtifactId) : ProviderInput where
  artifactId := a
  primaryHash := c.primary
  note := (c.ensureInput row).note
  sourceName := (c.ensureInput row).sourceName
  feedId := (c.ensureInput row).feedId
  providerMapping := (c.ensureInput row).providerMapping

/-- With a flag set the call makes the sibling pass. -/
theorem ensureSiblings_iff {siblings : Option SiblingResult}
    (hflags : (c.ensureInput row).withSiblings) :
    Returns (ensureSiblings c.host (c.ensureInput row) c.primary a) s siblings s' ↔
      ∃ result, siblings = some result ∧
        Returns (attachProviderExactHashSet c.host (c.siblingPass row a)) s result s' := by
  unfold EnsureInput.withSiblings at hflags
  unfold ensureSiblings
  rw [if_pos hflags, bind_iff]
  constructor
  · rintro ⟨result, s₁, hset, hpure⟩
    obtain ⟨rfl, rfl⟩ := pure_iff.mp hpure
    exact ⟨result, rfl, hset⟩
  · rintro ⟨result, rfl, hset⟩
    exact ⟨result, s', hset, pure_iff.mpr ⟨rfl, rfl⟩⟩

/-- Nothing is merged after a sibling pass that attached. -/
theorem mergeProviderTargets_attached {input : DualWriteInput} {results : List AttachResult}
    {b : ArtifactId} : Returns (mergeProviderTargets input a (some (.attached results))) s b s' ↔
      a = b ∧ s = s' := by
  unfold mergeProviderTargets
  simp only [collectProviderMergeTargetIds, if_true]
  exact pure_iff

/-- A record whose hashes are bound to no other artifact than its own hash. -/
theorem unites_of_alone (hpresents : c.Presents s)
    (hcompatible : s.tables.placement.Compatible c.record)
    (hattachable : s.tables.placement.Attachable c.primary c.record)
    (halone : s.tables.placement.Alone c.primary c.record)
    (hseparate : ∀ n ∈ c.record, s.tables.placement.hash n = none → ∀ h ∈ c.record,
      h.hashType = n.hashType → h = n) :
    ∃ a s', Returns c.call s (.written a) s' ∧ c.Unites a s s' := by
  obtain ⟨row, hioc, hflags, hrecord, hcall⟩ := hpresents.returns_iff
  obtain ⟨a, hashId, link, s₁, hrest, hprepared⟩ := hpresents.prepares hioc hcompatible hattachable
  have hinvolved : ∀ {h x}, h ∈ c.record → s.tables.placement.hash h = some x →
      s.tables.placement.Involved c.record x := fun hh hx => ⟨_, hh, .inl hx⟩
  have hresolves : ∀ h ∈ c.record, s₁.tables.placement.hash h ≠ none →
      s₁.tables.placement.Resolves h a := by
    intro h hh hbound
    apply hprepared.resolves_iff.mpr
    by_cases hprimary : h = c.primary
    · exact .inl ⟨hprimary, rfl⟩
    · rw [hprepared.settled.notMem h hprimary] at hbound
      obtain ⟨root, hroot⟩ := hattachable.resolves h hh hbound
      obtain rfl := hprepared.eq_of_primary (halone h hh root hroot)
      exact .inr ⟨hprimary, hroot⟩
  have htype : ∀ h ∈ c.record, ∀ g, s₁.tables.placement.hash g = some a ∨ g ∈ c.record →
      g.hashType = h.hashType → g = h := by
    intro h hh g hg hsame
    have hmember : g ∈ c.record → g = h := by
      intro hgrecord
      by_cases hfree : s.tables.placement.hash h = none
      · exact hseparate h hh hfree g hgrecord hsame
      · by_cases hgfree : s.tables.placement.hash g = none
        · exact (hseparate g hgrecord hgfree h hh hsame.symm).symm
        · obtain ⟨x, hx⟩ := ne_none_iff_exists'.mp hfree
          obtain ⟨y, hy⟩ := ne_none_iff_exists'.mp hgfree
          exact compatible_inj hcompatible (hinvolved hgrecord hy) (hinvolved hh hx) hy hx hsame
    rcases hg with hg | hg
    · rcases hprepared.hash_cases hg with ⟨rfl, -⟩ | ⟨-, hold⟩
      · exact hmember hpresents.primary_mem
      · -- `g` sat on the artifact before the call
        have hplaced : s.tables.placement.Resolves g a :=
          ⟨a, 0, hold, .root (by rw [Tables.placement_mergedInto]; exact hprepared.root)⟩
        have hhome := hprepared.home_of_status (status_of_resolves hplaced)
        by_cases hfree : s.tables.placement.hash h = none
        · exact absurd hsame (hattachable.fits h hh hfree c.primary hpresents.primary_mem a hhome
            g hold)
        · obtain ⟨x, hx⟩ := ne_none_iff_exists'.mp hfree
          exact compatible_inj hcompatible ⟨c.primary, hpresents.primary_mem, .inr hhome⟩
            (hinvolved hh hx) hold hx hsame
    · exact hmember hg
  have hroot₁ : s₁.tables.mergedInto a = none := by
    rw [hprepared.settled.mergedInto, hprepared.root]
  obtain ⟨results, s₂, hset, hsettled⟩ := attachProviderExactHashSet_alone c.host
    (c.siblingPass row a)
    (show extractExactHashesFromNote c.primary (c.ensureInput row).note = c.record from hrecord)
    hprepared.known hroot₁ hresolves htype
  refine ⟨a, s₂, (hcall a s₂).mpr ⟨a, hashId, link, some (.attached results), s₂, ?_, ?_⟩, ?_, ?_,
    ?_⟩
  · exact hrest _ _ ((ensureSiblings_iff hflags).mpr ⟨_, rfl, hset⟩)
  · exact mergeProviderTargets_attached.mpr ⟨rfl, rfl⟩
  · apply Tables.isActive_iff.mpr
    refine ⟨?_, by rw [hsettled.mergedInto, hroot₁]⟩
    have hknown := hsettled.known a hprepared.known
    rw [Ne, Tables.placement_status_eq_none] at hknown
    exact isSome_iff_ne_none.mpr hknown
  · intro h hroot
    have hhome := hprepared.home_of_status (status_of_resolves hroot)
    exact .inr ⟨c.primary, hpresents.primary_mem, a, hhome, hroot⟩
  · intro h root
    rw [hsettled.resolves_iff hroot₁]
    have htouched : s.tables.placement.Resolves h root → c.Touched s.tables.placement h →
        root = a := by
      rintro hroot (hh | ⟨g, hg, root', hgroot, hhroot⟩)
      · exact hprepared.eq_of_primary (halone h hh root hroot)
      · rw [hroot.unique hhroot]
        exact hprepared.eq_of_primary (halone g hg root' hgroot)
    constructor
    · rintro (⟨hh, rfl⟩ | ⟨hh, hroot⟩)
      · exact .inl ⟨.inl hh, rfl⟩
      · rcases hprepared.resolves_iff.mp hroot with ⟨rfl, -⟩ | ⟨-, hold⟩
        · exact absurd hpresents.primary_mem hh
        · by_cases hyes : c.Touched s.tables.placement h
          · exact .inl ⟨hyes, htouched hold hyes⟩
          · exact .inr ⟨hyes, hold⟩
    · rintro (⟨hh | ⟨g, hg, root', hgroot, hhroot⟩, rfl⟩ | ⟨hno, hold⟩)
      · exact .inl ⟨hh, rfl⟩
      · by_cases hh : h ∈ c.record
        · exact .inl ⟨hh, rfl⟩
        · obtain rfl := hprepared.eq_of_primary (halone g hg root' hgroot)
          refine .inr ⟨hh, hprepared.resolves_iff.mpr (.inr ⟨?_, hhroot⟩)⟩
          rintro rfl
          exact hh hpresents.primary_mem
      · have hh : h ∉ c.record := fun hh => hno (.inl hh)
        refine .inr ⟨hh, hprepared.resolves_iff.mpr (.inr ⟨?_, hold⟩)⟩
        rintro rfl
        exact hh hpresents.primary_mem

/-- The artifacts that the sibling pass found besides `a`. -/
def Others (c : ProviderCall) (a : ArtifactId) (p : Placement) (ids : List ArtifactId) : Prop :=
  ∀ id, id ∈ ids ↔ id ≠ a ∧ ∃ g ∈ c.record, p.Resolves g id

/-- Another artifact was found through a sibling that resolved to it before the call. -/
theorem Prepared.others_resolves {s₁ : Database} {id : ArtifactId} (hprepared : c.Prepared a s s₁)
    (hids : c.Others a s₁.tables.placement ids) (hid : id ∈ ids) :
    id ≠ a ∧ ∃ g ∈ c.record, s.tables.placement.Resolves g id := by
  obtain ⟨hne, g, hg, hroot⟩ := (hids id).mp hid
  rcases hprepared.resolves_iff.mp hroot with ⟨-, rfl⟩ | ⟨-, hold⟩
  · exact absurd rfl hne
  · exact ⟨hne, g, hg, hold⟩

/-- The hashes that a call brings together resolve to the artifacts that it merges. -/
theorem Prepared.touched_iff {s₁ : Database} {h : ExactHash} (hpresents : c.Presents s)
    (hprepared : c.Prepared a s s₁)
    (hresolves : ∀ h ∈ c.record, h ≠ c.primary → ∃ root, s.tables.placement.Resolves h root)
    (hids : c.Others a s₁.tables.placement ids) :
    c.Touched s.tables.placement h ↔ ∃ root ∈ a :: ids, s₁.tables.placement.Resolves h root := by
  have hlisted : ∀ {g root}, g ∈ c.record → s.tables.placement.Resolves g root →
      root ∈ a :: ids := by
    intro g root hg hroot
    by_cases hroota : root = a
    · exact hroota ▸ List.mem_cons_self ..
    · apply List.mem_cons_of_mem
      refine (hids root).mpr ⟨hroota, g, hg, hprepared.resolves_iff.mpr (.inr ⟨?_, hroot⟩)⟩
      rintro rfl
      exact hroota (hprepared.eq_of_primary hroot)
  have hprimary : s₁.tables.placement.Resolves c.primary a :=
    hprepared.resolves_iff.mpr (.inl ⟨rfl, rfl⟩)
  constructor
  · intro htouched
    by_cases hown : h = c.primary
    · exact ⟨a, List.mem_cons_self .., hown ▸ hprimary⟩
    · rcases htouched with hh | ⟨g, hg, root, hgroot, hhroot⟩
      · obtain ⟨root, hroot⟩ := hresolves h hh hown
        exact ⟨root, hlisted hh hroot, hprepared.resolves_iff.mpr (.inr ⟨hown, hroot⟩)⟩
      · exact ⟨root, hlisted hg hgroot, hprepared.resolves_iff.mpr (.inr ⟨hown, hhroot⟩)⟩
  · rintro ⟨root, hroot, hresolve⟩
    rcases hprepared.resolves_iff.mp hresolve with ⟨rfl, -⟩ | ⟨-, hold⟩
    · exact .inl hpresents.primary_mem
    · rcases List.mem_cons.mp hroot with rfl | hid
      · have hhome := hprepared.home_of_status (status_of_resolves hold)
        exact .inr ⟨c.primary, hpresents.primary_mem, root, hhome, hold⟩
      · obtain ⟨-, g, hg, hgroot⟩ := hprepared.others_resolves hids hid
        exact .inr ⟨g, hg, root, hgroot, hold⟩

/-- The artifacts that a call merges hold hashes of distinct types. -/
theorem Prepared.typesDisjoint {s₁ : Database} (hpresents : c.Presents s)
    (hcompatible : s.tables.placement.Compatible c.record)
    (hattachable : s.tables.placement.Attachable c.primary c.record) (hprepared : c.Prepared a s s₁)
    (hids : c.Others a s₁.tables.placement ids) :
    ∀ x ∈ a :: ids, ∀ y ∈ a :: ids, x ≠ y → s₁.tables.placement.TypesDisjoint x y := by
  have hold : ∀ {id h}, id ∈ ids → s₁.tables.placement.hash h = some id →
      h ≠ c.primary ∧ s.tables.placement.hash h = some id := by
    intro id h hid hh
    rcases hprepared.hash_cases hh with ⟨-, rfl⟩ | hcases
    · exact absurd rfl (hprepared.others_resolves hids hid).1
    · exact hcases
  have hinvolved : ∀ {id}, id ∈ ids → s.tables.placement.Involved c.record id := by
    intro id hid
    obtain ⟨-, g, hg, hroot⟩ := hprepared.others_resolves hids hid
    exact ⟨g, hg, .inr hroot⟩
  have hown : ∀ id ∈ ids, s₁.tables.placement.TypesDisjoint a id := by
    intro id hid g h hg hh htype
    obtain ⟨hne, hh⟩ := hold hid hh
    obtain ⟨hida, k, hk, hkroot⟩ := hprepared.others_resolves hids hid
    rcases hprepared.hash_cases hg with ⟨rfl, -⟩ | ⟨-, hg⟩
    · cases hplaced : s.tables.placement.hash c.primary with
      | none =>
        exact hattachable.fits c.primary hpresents.primary_mem hplaced k hk id hkroot h hh
          htype.symm
      | some x =>
        exact hne (compatible_inj hcompatible ⟨c.primary, hpresents.primary_mem, .inl hplaced⟩
          (hinvolved hid) hplaced hh htype).symm
    · -- `g` sat on the artifact before the call, so the own hash resolved to it
      have hplaced : s.tables.placement.Resolves g a :=
        ⟨a, 0, hg, .root (by rw [Tables.placement_mergedInto]; exact hprepared.root)⟩
      have hhome := hprepared.home_of_status (status_of_resolves hplaced)
      exact hcompatible a id ⟨c.primary, hpresents.primary_mem, .inr hhome⟩ (hinvolved hid)
        (Ne.symm hida) g h hg hh htype
  intro x hx y hy hxy
  rcases List.mem_cons.mp hx with hxa | hxid
  · rcases List.mem_cons.mp hy with hya | hyid
    · exact absurd (hxa.trans hya.symm) hxy
    · exact hxa ▸ hown y hyid
  · rcases List.mem_cons.mp hy with hya | hyid
    · exact hya ▸ (hown x hxid).symm
    · intro g h hg hh
      exact hcompatible x y (hinvolved hxid) (hinvolved hyid) hxy g h (hold hxid hg).2
        (hold hyid hh).2

section

variable (hpresents : c.Presents s) (hcompatible : s.tables.placement.Compatible c.record)
  (hattachable : s.tables.placement.Attachable c.primary c.record)
include hpresents hcompatible hattachable

/-- A record one of whose hashes is bound to another artifact, and whose siblings are all
bound. -/
theorem unites_of_spread (hspread : ¬ s.tables.placement.Alone c.primary c.record)
    (hbound : ∀ h ∈ c.record, h ≠ c.primary → s.tables.placement.hash h ≠ none) :
    ∃ a s', Returns c.call s (.written a) s' ∧ c.Unites a s s' := by
  obtain ⟨row, hioc, hflags, hrecord, hcall⟩ := hpresents.returns_iff
  obtain ⟨a, hashId, link, s₁, hrest, hprepared⟩ := hpresents.prepares hioc hcompatible hattachable
  have hresolves : ∀ h ∈ c.record, h ≠ c.primary → ∃ root, s.tables.placement.Resolves h root :=
    fun h hh hne => hattachable.resolves h hh (hbound h hh hne)
  have hresolves₁ : ∀ h ∈ c.record, s₁.tables.placement.hash h ≠ none →
      ∃ root, s₁.tables.placement.Resolves h root := by
    intro h hh _
    by_cases hprimary : h = c.primary
    · exact ⟨a, hprepared.resolves_iff.mpr (.inl ⟨hprimary, rfl⟩)⟩
    · obtain ⟨root, hroot⟩ := hresolves h hh hprimary
      exact ⟨root, hprepared.resolves_iff.mpr (.inr ⟨hprimary, hroot⟩)⟩
  have hother : ∃ g ∈ c.record, ∃ root, s₁.tables.placement.Resolves g root ∧ root ≠ a := by
    unfold Placement.Alone at hspread
    push Not at hspread
    obtain ⟨g, hg, root, hroot, hapart⟩ := hspread
    refine ⟨g, hg, root, hprepared.resolves_iff.mpr (.inr ⟨?_, hroot⟩), ?_⟩
    · rintro rfl
      exact hapart hroot
    · rintro rfl
      exact hapart (hprepared.home_of_status (status_of_resolves hroot))
  obtain ⟨ids, hset, hnodup, hids⟩ := attachProviderExactHashSet_spread c.host (c.siblingPass row a)
    (show extractExactHashesFromNote c.primary (c.ensureInput row).note = c.record from hrecord)
    hresolves₁ hother
  have hnonempty : ids ≠ [] := by
    obtain ⟨g, hg, root, hroot, hne⟩ := hother
    exact List.ne_nil_of_mem ((hids root).mpr ⟨hne, g, hg, hroot⟩)
  have hactive : ∀ id ∈ a :: ids, s₁.tables.IsActive id := by
    intro id hid
    rcases List.mem_cons.mp hid with rfl | hid
    · exact hprepared.isActive
    · obtain ⟨-, g, -, hroot⟩ := (hids id).mp hid
      exact resolves_isActive hroot
  obtain ⟨canonical, hcanonical, s₂, hmerge, hmerged, -⟩ := mergeProviderTargets_returns c.input hnonempty
    (fun hmem => ((hids a).mp hmem).1 rfl) hactive
    (hprepared.typesDisjoint hpresents hcompatible hattachable hids)
  refine ⟨canonical, s₂, (hcall canonical s₂).mpr
    ⟨a, hashId, link, some (.needsMergeWith ids), s₁, ?_, hmerge⟩, ?_, ?_, ?_⟩
  · exact hrest _ _ ((ensureSiblings_iff hflags).mpr ⟨_, rfl, hset⟩)
  · exact isActive_iff_status.mpr hmerged.active
  · intro h hroot
    by_cases hprimary : h = c.primary
    · exact .inl (hprimary ▸ hpresents.primary_mem)
    · apply (hprepared.touched_iff hpresents hresolves hids).mpr
      exact ⟨canonical, hcanonical, hprepared.resolves_iff.mpr (.inr ⟨hprimary, hroot⟩)⟩
  · intro h root
    rw [hmerged.resolves, hprepared.touched_iff hpresents hresolves hids]
    constructor
    · rintro ⟨root₀, hroot₀, rfl⟩
      by_cases hmem : root₀ ∈ a :: ids
      · exact .inl ⟨⟨root₀, hmem, hroot₀⟩, if_pos hmem⟩
      · refine .inr ⟨?_, ?_⟩
        · rintro ⟨root', hmem', hroot'⟩
          exact hmem (hroot₀.unique hroot' ▸ hmem')
        · rw [if_neg hmem]
          rcases hprepared.resolves_iff.mp hroot₀ with ⟨-, rfl⟩ | ⟨-, hold⟩
          · exact absurd (List.mem_cons_self ..) hmem
          · exact hold
    · rintro (⟨⟨root₀, hmem, hroot₀⟩, rfl⟩ | ⟨hno, hold⟩)
      · exact ⟨root₀, hroot₀, (if_pos hmem).symm⟩
      · have hne : h ≠ c.primary := by
          rintro rfl
          exact hno ⟨a, List.mem_cons_self .., hprepared.resolves_iff.mpr (.inl ⟨rfl, rfl⟩)⟩
        have hroot := hprepared.resolves_iff.mpr (.inr ⟨hne, hold⟩)
        refine ⟨root, hroot, (if_neg fun hmem => ?_).symm⟩
        exact hno ⟨root, hmem, hroot⟩

/-- Where the condition holds, the call brings the record together. -/
theorem unites_of_attachable : ∃ a s', Returns c.call s (.written a) s' ∧ c.Unites a s s' := by
  rcases hattachable.route with ⟨halone, hseparate⟩ | hbound
  · exact unites_of_alone hpresents hcompatible hattachable halone hseparate
  · by_cases halone : s.tables.placement.Alone c.primary c.record
    · apply unites_of_alone hpresents hcompatible hattachable halone
      -- the own hash alone can be unbound, and then no hash of the record resolves
      intro n hn hfree h hh _
      have hown : n = c.primary := by
        by_contra hne
        exact hbound n hn hne hfree
      by_contra hne
      obtain ⟨root, hroot⟩ := hattachable.resolves h hh (hbound h hh (hown ▸ hne))
      exact (halone h hh root hroot).bound (hown ▸ hfree)
    · exact unites_of_spread hpresents hcompatible hattachable halone hbound

end

/-- What the sibling pass of a record did. -/
theorem siblingPass_cases {host : Host} (input : ProviderInput) {list : List ExactHash}
    {result : SiblingResult}
    (hlist : extractExactHashesFromNote input.primaryHash input.note = list)
    (h : Returns (attachProviderExactHashSet host input) s result s') :
    SiblingPass host input list s s' result := by
  rw [← hlist]
  exact attachProviderExactHashSet_cases h

/-- A sibling pass that returned looked every hash of the record up. -/
theorem attachProviderExactHashSet_resolves {host : Host} (input : ProviderInput)
    {list : List ExactHash} {result : SiblingResult}
    (hlist : extractExactHashesFromNote input.primaryHash input.note = list)
    (h : Returns (attachProviderExactHashSet host input) s result s') :
    ∀ h ∈ list, s.tables.placement.hash h ≠ none → ∃ root, s.tables.placement.Resolves h root := by
  unfold attachProviderExactHashSet at h
  simp only [hlist] at h
  obtain ⟨hits, s₁, hfind, -⟩ := bind_iff.mp h
  exact findHits_resolves hfind

namespace Prepared

variable {s₁ : Database}

/-- Hashes that resolve after the own hash was attached did so before. -/
theorem resolves (hprepared : c.Prepared a s s₁)
    (hresolves : ∀ h ∈ c.record, s₁.tables.placement.hash h ≠ none →
      ∃ root, s₁.tables.placement.Resolves h root) :
    ∀ h ∈ c.record, s.tables.placement.hash h ≠ none →
      ∃ root, s.tables.placement.Resolves h root := by
  intro h hh hbound
  by_cases hprimary : h = c.primary
  · rcases hprepared.home with hhome | ⟨hfree, -⟩
    · exact ⟨a, hprimary ▸ hhome⟩
    · exact absurd (hprimary ▸ hfree) hbound
  · obtain ⟨root, hroot⟩ := hresolves h hh (by rwa [hprepared.settled.notMem h hprimary])
    rcases hprepared.resolves_iff.mp hroot with ⟨hown, -⟩ | ⟨-, hold⟩
    · exact absurd hown hprimary
    · exact ⟨root, hold⟩

/-- After merges that brought the record together it was attachable. -/
theorem attachable_of_merged (hprepared : c.Prepared a s s₁)
    {b : ArtifactId}
    (hresolves : ∀ h ∈ c.record, s.tables.placement.hash h ≠ none →
      ∃ root, s.tables.placement.Resolves h root)
    (hjoined : s₁.tables.placement.Joined s'.tables.placement)
    (hall : ∀ h ∈ c.record, s'.tables.placement.Resolves h b) :
    s.tables.placement.Attachable c.primary c.record := by
  have hsiblings : ∀ h ∈ c.record, h ≠ c.primary → s.tables.placement.hash h ≠ none := by
    intro h hh hne hfree
    rw [← hprepared.settled.notMem h hne] at hfree
    exact (hall h hh).bound (hjoined.hash_eq_none hfree)
  refine ⟨hresolves, ?_, .inr hsiblings⟩
  intro n hn hfree h hh root hroot g hg htype
  have hown : n = c.primary := by
    by_contra hne
    exact hsiblings n hn hne hfree
  subst hown
  have hplaced : s.tables.placement.Resolves g root := ⟨root, 0, hg, .root hroot.isRoot⟩
  have hne : ∀ {k}, s.tables.placement.Resolves k root → k ≠ c.primary := by
    rintro _ hk rfl
    exact hk.bound hfree
  -- `g` follows `h`, and ends beside the own hash
  have hgb := hjoined.follows (hprepared.resolves_iff.mpr (.inr ⟨hne hroot, hroot⟩))
    (hprepared.resolves_iff.mpr (.inr ⟨hne hplaced, hplaced⟩)) (hall h hh)
  have hroot₁ : s₁.tables.placement.mergedInto root = none := by
    rw [Tables.placement_mergedInto, hprepared.settled.mergedInto, ← Tables.placement_mergedInto]
    exact hroot.isRoot
  have ha₁ : s₁.tables.placement.mergedInto a = none := by
    rw [Tables.placement_mergedInto, hprepared.settled.mergedInto, hprepared.root]
  obtain ⟨hfinal, hfinal'⟩ := hjoined.together
    ((hprepared.settled.notMem g (hne hplaced)).trans hg) (hprepared.settled.mem c.primary rfl)
    hroot₁ ha₁ hgb (hall c.primary hn)
  exact hne hplaced (placement_hash_inj hfinal hfinal' htype)

/-- After a sibling pass that brought the record together it was attachable. -/
theorem attachable_of_attached (hpresents : c.Presents s) (hprepared : c.Prepared a s s₁)
    (hresolves : ∀ h ∈ c.record, s.tables.placement.hash h ≠ none →
      ∃ root, s.tables.placement.Resolves h root)
    (halone : ∀ g ∈ c.record, ∀ root, s₁.tables.placement.Resolves g root → root = a)
    (hkept : ∀ g, g ∉ c.record → s'.tables.placement.hash g = s₁.tables.placement.hash g)
    (hplaced : ∀ h ∈ c.record, s'.tables.placement.hash h = some a) :
    s.tables.placement.Attachable c.primary c.record := by
  have hhome : ∀ h ∈ c.record, ∀ root, s.tables.placement.Resolves h root → root = a := by
    intro h hh root hroot
    by_cases hprimary : h = c.primary
    · exact hprepared.eq_of_primary (hprimary ▸ hroot)
    · exact halone h hh root (hprepared.resolves_iff.mpr (.inr ⟨hprimary, hroot⟩))
  refine ⟨hresolves, ?_, .inl ⟨?_, ?_⟩⟩
  · intro n hn hfree h hh root hroot g hg htype
    obtain rfl := hhome h hh root hroot
    have hgn : g ≠ n := by
      rintro rfl
      rw [hfree] at hg
      cases hg
    have hfinal : s'.tables.placement.hash g = some root := by
      by_cases hgrecord : g ∈ c.record
      · exact hplaced g hgrecord
      · rw [hkept g hgrecord, hprepared.settled.notMem g ?_, hg]
        rintro rfl
        exact hgrecord hpresents.primary_mem
    exact hgn (placement_hash_inj hfinal (hplaced n hn) htype)
  · intro h hh root hroot
    obtain rfl := hhome h hh root hroot
    exact hprepared.home_of_status (status_of_resolves hroot)
  · intro n hn _ h hh htype
    exact placement_hash_inj (hplaced h hh) (hplaced n hn) htype

end Prepared

/-- A call that attached its whole record found it attachable. -/
theorem attachable_of_attachesAll (hpresents : c.Presents s) (h : c.AttachesAll s) :
    s.tables.placement.Attachable c.primary c.record := by
  obtain ⟨b, s', hreturns, -, hall⟩ := h
  obtain ⟨row, -, hflags, hrecord, hcall⟩ := hpresents.returns_iff
  have hlist : extractExactHashesFromNote c.primary (c.ensureInput row).note = c.record := hrecord
  obtain ⟨a, hashId, link, siblings, s₂, hensure, hmerge⟩ := (hcall b s').mp hreturns
  obtain ⟨s₁, hsiblings, hprepared⟩ := hpresents.prepared hensure
  obtain ⟨result, rfl, hset⟩ := (ensureSiblings_iff hflags).mp hsiblings
  have hlooked := attachProviderExactHashSet_resolves (c.siblingPass row a) hlist hset
  have hresolves := hprepared.resolves hlooked
  have hcases := siblingPass_cases (c.siblingPass row a) hlist hset
  cases hcases with
  | needsMerge ids _ _ hs =>
    rw [hs] at hmerge
    exact hprepared.attachable_of_merged hresolves (mergeProviderTargets_joined hmerge) hall
  | attached results s₃ halone hattach hs =>
    obtain ⟨rfl, rfl⟩ := mergeProviderTargets_attached.mp hmerge
    have hplacement : s₂.tables.placement = s₃.tables.placement := by
      rw [hs, Tables.placement_recomputePrimary]
    have hroot₁ : s₁.tables.mergedInto a = none := by
      rw [hprepared.settled.mergedInto, hprepared.root]
    have hattaches : Attaches {hash | hash ∈ c.record} (fun _ _ => True) s₁.tables s₃.tables :=
      attachSiblings_attaches hroot₁ (fun _ _ _ _ => trivial) hattach
    rw [hplacement] at hall
    apply hprepared.attachable_of_attached hpresents hresolves halone
    · intro g hg
      exact (hattaches.grows.hash g).resolve_right fun hmem => hg hmem.1
    · exact attachSiblings_placed hroot₁ hpresents.nodup hattach hall

/-- A call on a record that one call attaches. -/
structure Meets (s : Database) (c : ProviderCall) : Prop where
  presents : c.Presents s
  compatible : s.tables.placement.Compatible c.record
  attachable : s.tables.placement.Attachable c.primary c.record

/-- The database after a call. -/
def step (s : Database) (c : ProviderCall) : Option Database :=
  transaction (do let _ ← c.call) s

/-- A call that unites its record attaches it. -/
theorem Unites.attachesAll (hreturns : Returns c.call s (.written a) s')
    (hunites : c.Unites a s s') : c.AttachesAll s := by
  refine ⟨a, s', hreturns, hunites.active, fun h hh => ?_⟩
  exact (hunites.resolves h a).mpr (.inl ⟨.inl hh, rfl⟩)

/-- What one call does to the files. -/
theorem Unites.united (hunites : c.Unites a s s') :
    Components.United s.tables.placement.SameFile s'.tables.placement.SameFile
      {h | h ∈ c.record} := by
  have htouched : ∀ {h root}, s'.tables.placement.Resolves h root →
      c.Touched s.tables.placement h → root = a := by
    intro h root hroot hyes
    rcases (hunites.resolves h root).mp hroot with ⟨-, rfl⟩ | ⟨hno, -⟩
    · rfl
    · exact absurd hyes hno
  have hold : ∀ {h root}, s'.tables.placement.Resolves h root →
      ¬ c.Touched s.tables.placement h → s.tables.placement.Resolves h root := by
    intro h root hroot hno
    exact (((hunites.resolves h root).mp hroot).resolve_left fun hyes => hno hyes.1).2
  intro g h
  constructor
  · rintro ⟨root, hg, hh⟩
    by_cases hgtouched : c.Touched s.tables.placement g
    · refine .inl ⟨hgtouched, ?_⟩
      by_contra hno
      exact hno (hunites.own h (htouched hg hgtouched ▸ hold hh hno))
    · refine .inr ⟨hgtouched, root, hold hg hgtouched, hold hh fun hhtouched => ?_⟩
      exact hgtouched (hunites.own g (htouched hh hhtouched ▸ hold hg hgtouched))
  · rintro (⟨hg, hh⟩ | ⟨hno, root, hg, hh⟩)
    · exact ⟨a, (hunites.resolves g a).mpr (.inl ⟨hg, rfl⟩),
        (hunites.resolves h a).mpr (.inl ⟨hh, rfl⟩)⟩
    · have hsame : Components.Touched s.tables.placement.SameFile {h | h ∈ c.record} g ↔
          Components.Touched s.tables.placement.SameFile {h | h ∈ c.record} h :=
        Components.touched_iff (fun _ _ _ => Placement.SameFile.trans)
          (fun _ _ => Placement.SameFile.symm) ⟨root, hg, hh⟩
      exact ⟨root, (hunites.resolves g root).mpr (.inr ⟨hno, hg⟩),
        (hunites.resolves h root).mpr (.inr ⟨fun hyes => hno (hsame.mpr hyes), hh⟩)⟩

/-- A call that meets the condition unites its record. -/
theorem step_united (hmeets : Meets s c) (hstep : step s c = some s') :
    Components.United s.tables.placement.SameFile s'.tables.placement.SameFile
      {h | h ∈ c.record} := by
  obtain ⟨a, s₁, hreturns, hunites⟩ := unites_of_attachable hmeets.presents hmeets.compatible
    hmeets.attachable
  have hnext : step s c = some s₁ := by
    have hcall : (do let _ ← c.call : Db Unit) s = .ok ⟨⟩ s₁ :=
      bind_iff.mpr ⟨_, s₁, hreturns, pure_iff.mpr ⟨rfl, rfl⟩⟩
    unfold step transaction
    rw [hcall]
  obtain rfl := Option.some.inj (hnext.symm.trans hstep)
  exact hunites.united

end ProviderCall

/-- A call attaches its whole record exactly when its bound hashes resolve, its new hashes find
their types free, and either no hash is bound to another artifact than its own hash or no sibling
is new. A run of such calls ends with the components of the files and the records. -/
theorem providerRecords_attached {s : Database} {c : ProviderCall} (hpresents : c.Presents s)
    (hcompatible : s.tables.placement.Compatible c.record) :
    (c.AttachesAll s ↔ s.tables.placement.Attachable c.primary c.record) ∧
      ∀ {s₁ s₂ : Database} {calls : List ProviderCall},
        Run ProviderCall.step ProviderCall.Meets s₁ calls s₂ →
          ∀ g h, s₂.tables.placement.SameFile g h ↔
            TransGen (Components.Linked s₁.tables.placement.SameFile
              {d | ∃ c ∈ calls, {h | h ∈ c.record} = d}) g h := by
  constructor
  · constructor
    · exact ProviderCall.attachable_of_attachesAll hpresents
    · intro hattachable
      obtain ⟨a, s', hreturns, hunites⟩ :=
        ProviderCall.unites_of_attachable hpresents hcompatible hattachable
      exact hunites.attachesAll hreturns
  · intro s₁ s₂ calls hrun
    refine @Components.run_iff_transGen ExactHash Database ProviderCall _ _
      (fun s => s.tables.placement.SameFile) (fun c => {h | h ∈ c.record}) ?_ ?_ ?_ s₁ s₂ calls hrun
    · exact fun _ _ _ _ => Placement.SameFile.trans
    · exact fun _ _ _ => Placement.SameFile.symm
    · exact fun _ _ _ => ProviderCall.step_united

/-- The IOC row of the MD5. -/
def md5Row : IocRow := ⟨1, 1, plainMd5.value, "md5", none, "", 0, 0, 0⟩

/-- The MD5 and the SHA1 in two artifacts, and the IOC row. -/
def twoFiles : Database where
  tables := { twoArtifacts [plainHash 1 1 plainMd5, plainHash 2 2 plainSha1] with
    iocItems := [md5Row] }
  unique := by decide +kernel
  references := by decide +kernel

/-- The call for the MD5 with a note. -/
def md5Call (note : String) : ProviderCall where
  host := ⟨0, 3⟩
  resolveFeed _ := none
  input := {
    observable := plainMd5.value
    observableType := "md5"
    sourceName := none
    feedId := none
    note := some note
    confidence := none
    firstSeenAt := none
    lastSeenAt := none
    attachNoteSiblings := true
    providerMapping := true
    observationType := none
    relationMethod := none
    mergedAt := "null" }
  primary := plainMd5
  record := extractExactHashesFromNote plainMd5 note

/-- A note with the SHA1. -/
def sha1Note : String := "sha1=0123456789abcdef0123456789abcdef01234567"

/-- A SHA256 that was never seen. -/
def newSha256 : ExactHash :=
  ⟨.sha256, "0123456789abcdef0123456789abcdef0123456789abcdef0123456789abcdef", by decide⟩

/-- A note with the SHA1 and the new SHA256. -/
def sha256Note : String :=
  "sha1=0123456789abcdef0123456789abcdef01234567" ++
    "|sha256=0123456789abcdef0123456789abcdef0123456789abcdef0123456789abcdef"

theorem presents_md5Call (note : String) : (md5Call note).Presents twoFiles := by
  have hexact : normalizeHashType "md5" ≠ none := by decide +kernel
  have hrow : twoFiles.tables.iocRowFor? plainMd5.value "md5" = some md5Row := by decide +kernel
  have htype : md5Row.observableType = plainMd5.hashType.text := by decide +kernel
  have hprimary : normalizeExactHash md5Row.observableType md5Row.observable = some plainMd5 := by
    decide +kernel
  have hfresh : twoFiles.tables.placement.status 3 = none := by decide +kernel
  refine ⟨hexact, ⟨md5Row, hrow, htype, hprimary, ?_⟩, rfl, rfl, hfresh⟩
  unfold md5Call
  rw [getD_some]

/-- The artifacts hold hashes of distinct types. -/
theorem compatible_twoFiles (record : List ExactHash) :
    twoFiles.tables.placement.Compatible record := by
  intro x y _ _ hxy
  apply typesDisjoint_iff.mp
  intro row hrow row' hrow' hart hart'
  have hall : ∀ row ∈ twoFiles.tables.hashes, ∀ row' ∈ twoFiles.tables.hashes,
      row.artifactId ≠ row'.artifactId → row.hash.hashType ≠ row'.hash.hashType := by
    decide +kernel
  exact hall row hrow row' hrow' (by rw [hart, hart']; exact hxy)

/-- Hashes resolve to the artifacts that they sit on. -/
theorem resolves_twoFiles {h : ExactHash} {x : ArtifactId}
    (hx : twoFiles.tables.placement.hash h = some x) : twoFiles.tables.placement.Resolves h x := by
  refine ⟨x, 0, hx, .root ?_⟩
  rw [Tables.placement_mergedInto]
  apply eq_none_iff_forall_ne_some.mpr
  intro into hinto
  obtain ⟨row, hrow, hstatus⟩ := Tables.mergedInto_eq_some.mp hinto
  have hall : ∀ row ∈ twoFiles.tables.artifacts, row.status = .active := by decide
  rw [hall row (Rows.mem_of_lookup hrow).1] at hstatus
  cases hstatus

/-- The MD5 and the SHA1 are attached, and the run of that call ends with the components. -/
theorem providerRecords_attached_twoFiles :
    (md5Call sha1Note).AttachesAll twoFiles ∧
      ∃ s', Run ProviderCall.step ProviderCall.Meets twoFiles [md5Call sha1Note] s' ∧
        ∀ g h, s'.tables.placement.SameFile g h ↔
          TransGen (Components.Linked twoFiles.tables.placement.SameFile
            {d | ∃ c ∈ [md5Call sha1Note], {h | h ∈ c.record} = d}) g h := by
  have hrecord : (md5Call sha1Note).record = [plainMd5, plainSha1] := by decide +kernel
  have hbound : ∀ h ∈ (md5Call sha1Note).record, twoFiles.tables.placement.hash h ≠ none := by
    rw [hrecord]
    decide +kernel
  have hattachable : twoFiles.tables.placement.Attachable plainMd5 (md5Call sha1Note).record := by
    refine ⟨?_, fun n hn hfree => absurd hfree (hbound n hn), .inr fun h hh _ => hbound h hh⟩
    intro h hh hplaced
    obtain ⟨x, hx⟩ := ne_none_iff_exists'.mp hplaced
    exact ⟨x, resolves_twoFiles hx⟩
  have hcompatible := compatible_twoFiles (md5Call sha1Note).record
  have hstep : ∃ s', ProviderCall.step twoFiles (md5Call sha1Note) = some s' := by
    apply isSome_iff_exists.mp
    unfold ProviderCall.step transaction
    split <;> rfl
  obtain ⟨s', hstep⟩ := hstep
  have hrun : Run ProviderCall.step ProviderCall.Meets twoFiles [md5Call sha1Note] s' :=
    .cons ⟨presents_md5Call _, hcompatible, hattachable⟩ hstep (.nil s')
  have hattached := providerRecords_attached (presents_md5Call sha1Note) hcompatible
  exact ⟨hattached.1.mpr hattachable, s', hrun, hattached.2 hrun⟩

/-- The record of that call. -/
def threeHashes : {record // (md5Call sha256Note).record = record} :=
  ⟨[plainMd5, plainSha1, newSha256], by decide +kernel⟩

/-- With the SHA256 in its note, too, the call leaves the SHA256 to a merge that never attaches
it. -/
theorem providerRecords_drop_sibling :
    (md5Call sha256Note).Presents twoFiles ∧
      twoFiles.tables.placement.Compatible (md5Call sha256Note).record ∧
      ¬ (md5Call sha256Note).AttachesAll twoFiles := by
  refine ⟨presents_md5Call _, compatible_twoFiles _, fun hall => ?_⟩
  have hrecord : (md5Call sha256Note).record = [plainMd5, plainSha1, newSha256] := threeHashes.2
  have hmd5 : twoFiles.tables.placement.Resolves plainMd5 1 := resolves_twoFiles (by decide +kernel)
  have hsha1 : twoFiles.tables.placement.Resolves plainSha1 2 :=
    resolves_twoFiles (by decide +kernel)
  have hnew : twoFiles.tables.placement.hash newSha256 = none := by decide +kernel
  have hroute := (ProviderCall.attachable_of_attachesAll (presents_md5Call _) hall).route
  rw [hrecord] at hroute
  rcases hroute with ⟨halone, -⟩ | hbound
  · have hsame : (2 : ArtifactId) = 1 :=
      (halone plainSha1 (by decide) 2 hsha1).unique hmd5
    exact absurd hsame (by decide)
  · exact hbound newSha256 (by decide) (by decide) hnew

end TalonHound.FileArtifacts
