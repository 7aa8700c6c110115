import TalonHound.ArtifactStorage.Storage
import TalonHound.Library.Rows

/-!
# Rows have their files

While every row is committed with its file in place and no deletion of its report under way, rows
keep their files, no backup misses one, and every bundle is complete and accepted.
-/

namespace TalonHound.ArtifactStorage

open List
open FileArtifacts (isHexDigit)

variable {hashing : Hashing} {s s' : StorageState} {rows : List ArtifactRow} {row row' : ArtifactRow}
  {key : ArtifactKey} {content bytes : Bytes} {ext : List Char} {reportId i : ℕ} {u : Upload}
  {d : Deletion} {b : Backup} {entry : Entry} {entries left : List Entry} {c : CopyState}
  {a : StorageAction} {f : IndexFile} {files : List IndexFile}

theorem isExtension_safeExt (ext : List Char) : isExtension (safeExt ext) = true := by
  unfold safeExt
  split
  · next h => exact h
  · decide

theorem isAlphanum_of_isHexDigit {c : Char} (h : isHexDigit c = true) : c.isAlphanum = true := by
  simp only [isHexDigit, Bool.or_eq_true, Bool.and_eq_true, decide_eq_true_eq] at h
  delta Char.isAlphanum Char.isAlpha Char.isUpper Char.isLower Char.isDigit
  simp only [Bool.or_eq_true, Bool.and_eq_true, decide_eq_true_eq]
  rcases h with ⟨hlow, hhigh⟩ | ⟨hlow, hhigh⟩
  · refine .inl (.inr ⟨hlow, ?_⟩)
    have hle : 'f'.val ≤ 'z'.val := by decide
    exact UInt32.le_trans hhigh hle
  · exact .inr ⟨hlow, hhigh⟩

theorem toLower_of_isHexDigit {c : Char} (h : isHexDigit c = true) : c.toLower = c := by
  simp only [isHexDigit, Bool.or_eq_true, Bool.and_eq_true, decide_eq_true_eq] at h
  unfold Char.toLower
  rw [dif_neg]
  rintro ⟨hlow, hhigh⟩
  rcases h with ⟨hletter, -⟩ | ⟨-, hdigit⟩
  · have hle : 90 < ('a').val := by decide
    exact absurd (UInt32.le_trans hletter hhigh) (UInt32.not_le.mpr hle)
  · have hle : ('9').val < 65 := by decide
    exact absurd (UInt32.le_trans hlow hdigit) (UInt32.not_le.mpr hle)

theorem map_toLower_sha256 (hashing : Hashing) (bytes : Bytes) :
    (hashing.sha256 bytes).map Char.toLower = hashing.sha256 bytes := by
  refine (map_congr_left fun c hc => ?_).trans (map_id _)
  exact toLower_of_isHexDigit (all_eq_true.mp (hashing.hex_sha256 bytes) c hc)

/-- The name of an extension has only characters of file names. -/
theorem isFileNameChar_of_isExtension (h : isExtension ext = true) :
    ext.all isFileNameChar = true := by
  unfold isExtension at h
  split at h
  · next rest =>
    rw [Bool.and_eq_true] at h
    rw [all_cons, Bool.and_eq_true]
    refine ⟨by decide, all_eq_true.mpr fun c hc => ?_⟩
    have halnum := all_eq_true.mp h.2 c hc
    simp [isFileNameChar, halnum]
  · cases h

theorem normalizeArtifactKey_fileKey :
    normalizeArtifactKey (fileKey hashing reportId ext bytes) = some (fileKey hashing reportId ext bytes) := by
  have hlength := hashing.length_sha256 bytes
  have hhex := hashing.hex_sha256 bytes
  unfold normalizeArtifactKey fileKey
  rw [if_pos]
  cases hsha : hashing.sha256 bytes with
  | nil =>
    rw [hsha] at hlength
    cases hlength
  | cons c cs =>
    rw [hsha] at hhex
    have hc : isHexDigit c = true := all_eq_true.mp hhex c mem_cons_self
    refine ⟨by simp, ?_, ?_⟩
    · rw [all_append, Bool.and_eq_true]
      refine ⟨all_eq_true.mpr fun c' hc' => ?_,
        isFileNameChar_of_isExtension (isExtension_safeExt ext)⟩
      have halnum := isAlphanum_of_isHexDigit (all_eq_true.mp hhex c' hc')
      simp [isFileNameChar, halnum]
    · intro hdot
      obtain rfl : c = '.' := by simpa using hdot
      revert hc
      decide

theorem shaFromKey_fileKey :
    shaFromKey (fileKey hashing reportId ext bytes) = some (hashing.sha256 bytes) := by
  have hlength := hashing.length_sha256 bytes
  have htake : (hashing.sha256 bytes ++ safeExt ext).take 64 = hashing.sha256 bytes := by
    rw [← hlength, take_left]
  have hdrop : (hashing.sha256 bytes ++ safeExt ext).drop 64 = safeExt ext := by
    rw [← hlength, drop_left]
  unfold shaFromKey fileKey
  rw [htake, hdrop, if_pos ⟨hlength, hashing.hex_sha256 bytes, isExtension_safeExt ext⟩]

/-- Contents with one key are the same, unless the hash collides. -/
theorem content_of_fileKey {reportId' : ℕ} {ext' : List Char} {bytes' : Bytes}
    (hkey : fileKey hashing reportId ext bytes = fileKey hashing reportId' ext' bytes')
    (hin : bytes ∈ hashing.contents) (hin' : bytes' ∈ hashing.contents) : bytes = bytes' := by
  have hsha := congrArg shaFromKey hkey
  rw [shaFromKey_fileKey, shaFromKey_fileKey] at hsha
  exact hashing.collisionFree bytes hin bytes' hin' (Option.some.inj hsha)

/-- The row of an upload. -/
structure UploadedRow (hashing : Hashing) (row : ArtifactRow) : Prop where
  sha256 : row.storageKey.isSome → row.sha256 = some (hashing.sha256 row.content)
  key : ∀ key ∈ row.storageKey, ∃ ext, key = fileKey hashing row.reportId ext row.content

/-- The entries are the files that the rows reference. -/
structure EntriesOf (hashing : Hashing) (rows : List ArtifactRow) (entries : List Entry) : Prop where
  nodup : (entries.map Entry.key).Nodup
  sound : ∀ entry ∈ entries, ∃ row ∈ rows, row.storageKey = some entry.key ∧
    entry.sha256 = some (hashing.sha256 row.content)
  complete : ∀ row ∈ rows, ∀ key ∈ row.storageKey, key ∈ entries.map Entry.key

/-- A row joins the entries. -/
theorem addReferenced_ok (h : EntriesOf hashing rows entries) (hrow : UploadedRow hashing row)
    (hrows : ∀ r ∈ rows, UploadedRow hashing r) :
    ∃ entries', addReferenced entries row = .ok entries' ∧ EntriesOf hashing (rows ++ [row]) entries' := by
  have hold : ∀ r ∈ rows, r ∈ rows ++ [row] := fun r hr => mem_append_left _ hr
  have hnew : row ∈ rows ++ [row] := mem_append_right _ (mem_singleton_self _)
  unfold addReferenced
  cases hkey : row.storageKey with
  | none =>
    refine ⟨entries, rfl, h.nodup, fun entry hentry => ?_, fun r hr key hin => ?_⟩
    · obtain ⟨r, hr, hrest⟩ := h.sound entry hentry
      exact ⟨r, hold r hr, hrest⟩
    · rcases mem_append.mp hr with hr | hr
      · exact h.complete r hr key hin
      · obtain rfl := mem_singleton.mp hr
        rw [hkey] at hin
        cases hin
  | some key =>
    obtain ⟨ext, hfile⟩ := hrow.key key hkey
    have hsafe : normalizeArtifactKey key = some key := by
      rw [hfile]
      exact normalizeArtifactKey_fileKey
    have hsha : row.sha256.map (·.map Char.toLower) = some (hashing.sha256 row.content) := by
      rw [hrow.sha256 (by rw [hkey]; rfl), Option.map_some, map_toLower_sha256]
    dsimp only
    rw [hsafe]
    dsimp only
    rw [hsha]
    cases hfind : entries.find? (·.key = key) with
    | none =>
      have hfresh : key ∉ entries.map Entry.key := by
        intro hin
        obtain ⟨entry, hentry, rfl⟩ := mem_map.mp hin
        have hnone := find?_eq_none.mp hfind entry hentry
        simp at hnone
      refine ⟨_, rfl, ?_, fun entry hentry => ?_, fun r hr key' hin => ?_⟩
      · exact Rows.nodup_map_append h.nodup hfresh
      · rcases mem_append.mp hentry with hentry | hentry
        · obtain ⟨r, hr, hrest⟩ := h.sound entry hentry
          exact ⟨r, hold r hr, hrest⟩
        · obtain rfl := mem_singleton.mp hentry
          exact ⟨row, hnew, hkey, rfl⟩
      · rw [map_append, map_singleton]
        rcases mem_append.mp hr with hr | hr
        · exact mem_append_left _ (h.complete r hr key' hin)
        · obtain rfl := mem_singleton.mp hr
          rw [hkey] at hin
          cases hin
          exact mem_append_right _ (mem_singleton_self _)
    | some entry =>
      have hentry := mem_of_find?_eq_some hfind
      have hentryKey : entry.key = key := by simpa using find?_some hfind
      obtain ⟨r, hr, hrkey, hrsha⟩ := h.sound entry hentry
      -- The row that brought the entry has the same key, so the same digest.
      have hsame : hashing.sha256 r.content = hashing.sha256 row.content := by
        obtain ⟨ext', hfile'⟩ := (hrows r hr).key _ hrkey
        rw [hentryKey, hfile] at hfile'
        have hshas := congrArg shaFromKey hfile'
        rw [shaFromKey_fileKey, shaFromKey_fileKey] at hshas
        exact (Option.some.inj hshas).symm
      dsimp only
      rw [hrsha, hsame, if_neg (fun hcond => hcond.2.2 rfl)]
      have hkeys : ∀ e : Entry, (if e.key = key then
          { e with
            sha256 := e.sha256.or (some (hashing.sha256 row.content))
            artifactIds := e.artifactIds ++ [row.id]
            reportIds := if row.reportId ∈ e.reportIds then e.reportIds
              else e.reportIds ++ [row.reportId] }
          else e).key = e.key := by
        intro e
        split <;> rfl
      have hmap : (entries.map fun e => if e.key = key then
          { e with
            sha256 := e.sha256.or (some (hashing.sha256 row.content))
            artifactIds := e.artifactIds ++ [row.id]
            reportIds := if row.reportId ∈ e.reportIds then e.reportIds
              else e.reportIds ++ [row.reportId] }
          else e).map Entry.key = entries.map Entry.key := by
        rw [map_map]
        exact map_congr_left fun e _ => hkeys e
      refine ⟨_, rfl, hmap ▸ h.nodup, fun e he => ?_, fun r' hr' key' hin => ?_⟩
      · obtain ⟨e₀, he₀, rfl⟩ := mem_map.mp he
        obtain ⟨r₀, hr₀, hr₀key, hr₀sha⟩ := h.sound e₀ he₀
        refine ⟨r₀, hold r₀ hr₀, ?_, ?_⟩
        · rw [hkeys]
          exact hr₀key
        · split
          · rw [hr₀sha]
            rfl
          · exact hr₀sha
      · rw [hmap]
        rcases mem_append.mp hr' with hr' | hr'
        · exact h.complete r' hr' key' hin
        · obtain rfl := mem_singleton.mp hr'
          rw [hkey] at hin
          cases hin
          rw [← hentryKey]
          exact mem_map_of_mem hentry

theorem listReferencedArtifacts_ok (hrows : ∀ r ∈ rows, UploadedRow hashing r) :
    ∃ entries, listReferencedArtifacts rows = .ok entries ∧ EntriesOf hashing rows entries := by
  have hfold : ∀ (done left : List ArtifactRow) (entries : List Entry),
      (∀ r ∈ done ++ left, UploadedRow hashing r) → EntriesOf hashing done entries →
        ∃ entries', left.foldlM addReferenced entries = .ok entries' ∧
          EntriesOf hashing (done ++ left) entries' := by
    intro done left
    induction left generalizing done with
    | nil =>
      intro entries _ h
      exact ⟨entries, rfl, by rwa [append_nil]⟩
    | cons row left ih =>
      intro entries hgood h
      have hrow : UploadedRow hashing row := hgood row (mem_append_right _ mem_cons_self)
      obtain ⟨entries₁, hadd, hentries₁⟩ := addReferenced_ok h hrow
        fun r hr => hgood r (mem_append_left _ hr)
      have happend : done ++ row :: left = done ++ [row] ++ left := by simp
      rw [happend] at hgood ⊢
      obtain ⟨entries', hrest, hentries'⟩ := ih (done ++ [row]) entries₁ hgood hentries₁
      refine ⟨entries', ?_, hentries'⟩
      rw [foldlM_cons, hadd]
      exact hrest
  have hnil : EntriesOf hashing [] [] :=
    ⟨nodup_nil, fun entry hentry => absurd hentry not_mem_nil, fun r hr => absurd hr not_mem_nil⟩
  simpa [listReferencedArtifacts] using hfold [] rows [] (by simpa using hrows) hnil

/-- A file of the index is that of a row. -/
def CopyOf (hashing : Hashing) (rows : List ArtifactRow) (f : IndexFile) : Prop :=
  ∃ row ∈ rows, row.storageKey = some f.key ∧ f.copied = row.content ∧
    f.sha256 = hashing.sha256 row.content ∧ f.bytes = row.content.length

/-- The entries that are done were copied, unless a file was unreadable. -/
structure CopiedSoFar (hashing : Hashing) (rows : List ArtifactRow) (left : List Entry) (c : CopyState) :
    Prop where
  missing : c.missing = []
  corrupt : c.corrupt = []
  copies : ∀ f ∈ c.files, CopyOf hashing rows f
  entries : ∃ done, EntriesOf hashing rows (done ++ left) ∧
    (c.unreadable = [] → c.files.map IndexFile.key = done.map Entry.key)

theorem CopiedSoFar.copy (h : CopiedSoFar hashing rows (entry :: left) c)
    (hrows : ∀ r ∈ rows, UploadedRow hashing r)
    (hfiles : ∀ r ∈ rows, ∀ key ∈ r.storageKey, s.files key = some r.content) :
    CopiedSoFar hashing rows left (copyEntry hashing (s.files entry.key) c entry) := by
  obtain ⟨done, hentries, hdone⟩ := h.entries
  obtain ⟨row, hrow, hkey, hsha⟩ := hentries.sound entry (mem_append_right _ mem_cons_self)
  have hfile := hfiles row hrow entry.key hkey
  obtain ⟨ext, hname⟩ := (hrows row hrow).key entry.key hkey
  have hnameSha : shaFromKey entry.key = some (hashing.sha256 row.content) := by
    rw [hname]
    exact shaFromKey_fileKey
  unfold copyEntry
  rw [hfile, hnameSha, hsha]
  simp only [filterMap_cons, id, filterMap_nil, any_cons, any_nil, ne_eq,
    not_true_eq_false, decide_false, Bool.or_self, Bool.false_eq_true, if_false]
  refine ⟨h.missing, h.corrupt, fun f hf => ?_, done ++ [entry], by simpa using hentries, fun hread => ?_⟩
  · rcases mem_append.mp hf with hold | hnew
    · exact h.copies f hold
    · obtain rfl := mem_singleton.mp hnew
      exact ⟨row, hrow, hkey, rfl, rfl, rfl⟩
  · simp [hdone hread]

theorem CopiedSoFar.unread (h : CopiedSoFar hashing rows (entry :: left) c) :
    CopiedSoFar hashing rows left { c with unreadable := c.unreadable ++ [entry.key] } := by
  obtain ⟨done, hentries, -⟩ := h.entries
  refine ⟨h.missing, h.corrupt, h.copies, done ++ [entry], by simpa using hentries, fun hread => ?_⟩
  simp at hread

/-- Good files with distinct keys pass the loop of the verification. -/
theorem foldlM_verifyFile (bundle : Bundle) (hrows : ∀ r ∈ rows, UploadedRow hashing r)
    (hcopies : ∀ f ∈ files, CopyOf hashing rows f)
    (hlookup : ∀ f ∈ files, bundle.copies.lookup f.key = some f.copied) :
    ∀ v : VerifyState, v.missing = [] → v.corrupt = [] → (v.seen ++ files.map IndexFile.key).Nodup →
        files.foldlM (verifyFile hashing bundle) v = .ok ⟨v.seen ++ files.map IndexFile.key, [], [],
          v.totalBytes + (files.map IndexFile.bytes).sum⟩ := by
  induction files with
  | nil =>
    intro v hmissing hcorrupt _
    obtain ⟨seen, missing, corrupt, totalBytes⟩ := v
    subst hmissing hcorrupt
    simp [pure, Except.pure]
  | cons f files ih =>
    intro v hmissing hcorrupt hnodup
    obtain ⟨row, hrow, hkey, hcopied, hsha, hbytes⟩ := hcopies f mem_cons_self
    obtain ⟨ext, hname⟩ := (hrows row hrow).key f.key hkey
    have hsafe : normalizeArtifactKey f.key ≠ none := by
      rw [hname, normalizeArtifactKey_fileKey]
      simp
    have hnameSha : shaFromKey f.key = some (hashing.sha256 row.content) := by
      rw [hname]
      exact shaFromKey_fileKey
    have hfresh : f.key ∉ v.seen := by
      intro hin
      exact (nodup_append.mp hnodup).2.2 f.key hin f.key mem_cons_self rfl
    have hhex : f.sha256.length = 64 ∧ f.sha256.all isHexDigit = true := by
      rw [hsha]
      exact ⟨hashing.length_sha256 _, hashing.hex_sha256 _⟩
    have hundamaged : ¬(hashing.sha256 f.copied ≠ f.sha256 ∨ f.copied.length ≠ f.bytes ∨
        (shaFromKey f.key).any (· ≠ hashing.sha256 f.copied) = true) := by
      simp [hcopied, hsha, hbytes, hnameSha]
    have hstep : verifyFile hashing bundle v f = .ok ⟨v.seen ++ [f.key], [], [], v.totalBytes + f.bytes⟩ := by
      unfold verifyFile
      rw [if_neg hsafe, if_neg hfresh, if_neg (not_not.mpr hhex), hlookup f mem_cons_self]
      dsimp only
      rw [if_neg hundamaged, hmissing, hcorrupt, hcopied, hbytes]
    rw [foldlM_cons, hstep]
    have hrest := ih (fun g hg => hcopies g (.tail _ hg)) (fun g hg => hlookup g (.tail _ hg))
      ⟨v.seen ++ [f.key], [], [], v.totalBytes + f.bytes⟩ rfl rfl (by simpa using hnodup)
    change files.foldlM (verifyFile hashing bundle) _ = _
    rw [hrest]
    simp [Nat.add_assoc]

theorem lookup_map_of_nodup (hnodup : (files.map IndexFile.key).Nodup) (hf : f ∈ files) :
    (files.map fun f => (f.key, f.copied)).lookup f.key = some f.copied := by
  induction files with
  | nil => exact absurd hf not_mem_nil
  | cons g files ih =>
    rw [map_cons, nodup_cons] at hnodup
    rw [map_cons, lookup_cons]
    rcases mem_cons.mp hf with rfl | hrest
    · simp
    · have hne : f.key ≠ g.key := fun heq => hnodup.1 (heq ▸ mem_map_of_mem hrest)
      rw [beq_false_of_ne hne]
      exact ih hnodup.2 hrest

/-- A bundle that was finished is complete, and is accepted. -/
theorem CopiedSoFar.finished (h : CopiedSoFar hashing rows [] c)
    (hrows : ∀ r ∈ rows, UploadedRow hashing r)
    (hfiles : ∀ r ∈ rows, ∀ key ∈ r.storageKey, s.files key = some r.content) :
    match finishCopy c with
    | .ok bundle => ExactlyReferenced rows bundle.copies ∧
        verifyThreatLibraryComponent hashing bundle = .ok ()
    | .error e => e = .artifactUnreadable := by
  obtain ⟨done, hentries, hdone⟩ := h.entries
  rw [append_nil] at hentries
  unfold finishCopy
  rw [if_neg (not_not.mpr h.missing), if_neg (not_not.mpr h.corrupt)]
  split
  · next hok =>
    split at hok
    · cases hok
    · next hread =>
      obtain rfl := Except.ok.inj hok
      have hkeys := hdone (not_not.mp hread)
      have hnodup : (c.files.map IndexFile.key).Nodup := hkeys ▸ hentries.nodup
      have hcopyKeys : (c.files.map fun f => (f.key, f.copied)).map Prod.fst =
          c.files.map IndexFile.key := by
        rw [map_map]
        rfl
      refine ⟨⟨by rw [hcopyKeys]; exact hnodup, fun key content => ⟨fun hin => ?_, ?_⟩⟩, ?_⟩
      · obtain ⟨f, hf, hpair⟩ := mem_map.mp hin
        obtain ⟨rfl, rfl⟩ := Prod.mk.inj hpair
        obtain ⟨row, hrow, hkey, hcopied, -, -⟩ := h.copies f hf
        exact ⟨row, hrow, hkey, hcopied.symm⟩
      · rintro ⟨row, hrow, hkey, rfl⟩
        have hin := hentries.complete row hrow key hkey
        rw [← hkeys] at hin
        obtain ⟨f, hf, rfl⟩ := mem_map.mp hin
        obtain ⟨row', hrow', hkey', hcopied, -, -⟩ := h.copies f hf
        have hsame : row'.content = row.content := by
          have hfile := hfiles row hrow f.key hkey
          rw [hfiles row' hrow' f.key hkey'] at hfile
          exact Option.some.inj hfile
        exact mem_map.mpr ⟨f, hf, by rw [hcopied, hsame]⟩
      · have hloop := foldlM_verifyFile ⟨c.files.map fun f => (f.key, f.copied), c.files,
            c.files.length, (c.files.map IndexFile.bytes).sum⟩ hrows h.copies
          (fun f hf => lookup_map_of_nodup hnodup hf) ⟨[], [], [], 0⟩ rfl rfl (by simpa using hnodup)
        unfold verifyThreatLibraryComponent
        rw [hloop]
        have hextra : ((c.files.map fun f => (f.key, f.copied)).filter fun f =>
            decide (f.1 ∉ [] ++ c.files.map IndexFile.key)) = [] := by
          rw [filter_eq_nil_iff]
          intro pair hpair
          obtain ⟨f, hf, rfl⟩ := mem_map.mp hpair
          simp only [nil_append, decide_not, Bool.not_eq_true', decide_eq_false_iff_not, not_not]
          exact mem_map_of_mem hf
        simp only [Except.bind, bind]
        rw [if_neg (by simp), if_neg (by simp), if_neg (by rw [hextra]; simp), if_neg (by simp),
          if_neg (by simp)]
  · next herror =>
    split at herror
    · exact (Except.error.inj herror).symm
    · cases herror

/-- What holds of a backup. -/
def BackupInv (hashing : Hashing) (s : StorageState) (b : Backup) : Prop :=
  match b.stage with
  | .copying left c => CopiedSoFar hashing b.snapshot left c ∧
      (∀ r ∈ b.snapshot, UploadedRow hashing r) ∧
        ∀ r ∈ b.snapshot, ∀ key ∈ r.storageKey, s.files key = some r.content
  | .failed e => e = .artifactUnreadable ∨ e = .lockTimeout
  | .completed bundle => ExactlyReferenced b.snapshot bundle.copies ∧
      verifyThreatLibraryComponent hashing bundle = .ok ()
  | _ => True

/-- What a deletion leaves of the rows of its report. -/
def DeletionInv (rows : List ArtifactRow) (d : Deletion) : Prop :=
  ∀ row ∈ rows, row.reportId = d.reportId → row.storageKey.isSome → match d.stage with
    | .deleted ids => row.id ∈ ids
    | .committed => False
    | _ => True

/-- The invariant. -/
structure StorageInv (hashing : Hashing) (s : StorageState) : Prop where
  files : ∀ key content, s.files key = some content → content ∈ hashing.contents ∧
    ∃ ext, key = fileKey hashing key.reportId ext content
  uploads : ∀ u ∈ s.uploads, u.bytes ∈ hashing.contents
  uploaded : ∀ row ∈ s.rows, UploadedRow hashing row
  backed : RowsBacked s
  deletions : ∀ d ∈ s.deletions, DeletionInv s.rows d
  exclusive : ∀ b ∈ s.backups, b.holdsLock = true → ∀ d ∈ s.deletions, d.holdsLock = false
  backups : ∀ b ∈ s.backups, BackupInv hashing s b

theorem StorageInv.empty (hashing : Hashing) : StorageInv hashing .empty := by
  refine ⟨fun key content hfile => ?_, fun u hu => ?_, fun row hrow => ?_, fun row hrow => ?_,
    fun d hd => ?_, fun b hb => ?_, fun b hb => ?_⟩
  · cases hfile
  · exact absurd hu not_mem_nil
  · exact absurd hrow not_mem_nil
  · exact absurd hrow not_mem_nil
  · exact absurd hd not_mem_nil
  · exact absurd hb not_mem_nil
  · exact absurd hb not_mem_nil

/-- A backup that only some files were added for. -/
theorem BackupInv.mono (h : BackupInv hashing s b)
    (hkept : ∀ r ∈ b.snapshot, UploadedRow hashing r → ∀ key ∈ r.storageKey,
      s.files key = some r.content → s'.files key = some r.content) : BackupInv hashing s' b := by
  unfold BackupInv at h ⊢
  cases hstage : b.stage with
  | copying left c =>
    rw [hstage] at h
    obtain ⟨hcopied, huploaded, hfiles⟩ := h
    exact ⟨hcopied, huploaded, fun r hr key hkey => hkept r hr (huploaded r hr) key hkey (hfiles r hr key hkey)⟩
  | failed e =>
    rw [hstage] at h
    exact h
  | completed bundle =>
    rw [hstage] at h
    exact h
  | started => trivial
  | locked => trivial

section

variable (h : StorageInv hashing s)

include h

/-- A state with other uploads only. -/
theorem StorageInv.setUploads {uploads : List Upload}
    (hin : ∀ u ∈ uploads, u.bytes ∈ hashing.contents) :
    StorageInv hashing { s with uploads := uploads } :=
  ⟨h.files, hin, h.uploaded, h.backed, h.deletions, h.exclusive,
    fun b hb => (h.backups b hb).mono fun _ _ _ _ _ hfile => hfile⟩

theorem StorageInv.setUpload (hu : u ∈ s.uploads) (i : ℕ) (stage : UploadStage) :
    StorageInv hashing (setUpload s i u stage) := by
  refine h.setUploads fun u' hu' => ?_
  rcases mem_or_eq_of_mem_set hu' with hold | rfl
  · exact h.uploads u' hold
  · exact h.uploads u hu

/-- A file under a key that has another content nowhere. -/
theorem StorageInv.write (hu : u ∈ s.uploads) :
    StorageInv hashing { s with
      files := fun key => if key = u.key hashing then some u.bytes else s.files key } := by
  have hbytes := h.uploads u hu
  have hkept : ∀ key content, s.files key = some content →
      (if key = u.key hashing then some u.bytes else s.files key) = some content := by
    intro key content hfile
    split
    · next hkey =>
      obtain ⟨hin, ext, hname⟩ := h.files key content hfile
      rw [hkey] at hname
      exact congrArg some (content_of_fileKey hname hbytes hin)
    · exact hfile
  refine ⟨fun key content hfile => ?_, h.uploads, h.uploaded,
    fun row hrow key hkey => hkept key _ (h.backed row hrow key hkey), h.deletions, h.exclusive,
    fun b hb => (h.backups b hb).mono fun r _ _ key _ hfile => hkept key _ hfile⟩
  dsimp only at hfile
  split at hfile
  · next hkey =>
    cases hfile
    exact ⟨hbytes, u.ext, by rw [hkey]; rfl⟩
  · exact h.files key content hfile

/-- A row joins, under the condition on inserts. -/
theorem StorageInv.insert (huploaded : UploadedRow hashing row)
    (hbacked : ∀ key ∈ row.storageKey, s.files key = some row.content)
    (hdeletions : row.storageKey.isSome → ∀ d ∈ s.deletions, d.reportId = row.reportId →
      d.stage = .started ∨ d.stage = .locked ∨ d.stage = .ended) (nextId : ℕ) :
    StorageInv hashing { s with rows := s.rows ++ [row], nextId := nextId } := by
  refine ⟨h.files, h.uploads, fun r hr => ?_, fun r hr => ?_, fun d hd r hr hreport hsome => ?_,
    h.exclusive, fun b hb => (h.backups b hb).mono fun _ _ _ _ _ hfile => hfile⟩
  · rcases mem_append.mp hr with hold | hnew
    · exact h.uploaded r hold
    · obtain rfl := mem_singleton.mp hnew
      exact huploaded
  · rcases mem_append.mp hr with hold | hnew
    · exact h.backed r hold
    · obtain rfl := mem_singleton.mp hnew
      exact hbacked
  · rcases mem_append.mp hr with hold | hnew
    · exact h.deletions d hd r hold hreport hsome
    · obtain rfl := mem_singleton.mp hnew
      rcases hdeletions hsome d hd hreport.symm with hstage | hstage | hstage
      all_goals simp [hstage]

theorem StorageInv.uploadStep (hu : s.uploads[i]? = some u) (hguard : InsertsBacked hashing s a)
    (ha : a = .stat i ∨ a = .rename i ∨ a = .uploadFails i ∨ a = .insertArtifact i)
    (hstep : uploadStep hashing s i u a = some s') : StorageInv hashing s' := by
  have hin := mem_of_getElem? hu
  unfold ArtifactStorage.uploadStep at hstep
  rcases ha with rfl | rfl | rfl | rfl
  · obtain ⟨-, rfl⟩ := Run.enabled hstep
    exact h.setUpload hin i _
  · obtain ⟨-, rfl⟩ := Run.enabled hstep
    exact (h.write hin).setUpload hin i _
  · dsimp only at hstep
    split at hstep
    · cases hstep
    · cases hstep
      exact h.setUpload hin i _
  · obtain ⟨-, rfl⟩ := Run.enabled hstep
    obtain ⟨hfile, hdeletions⟩ := hguard u hu
    have hrow : UploadedRow hashing ⟨s.nextId, u.reportId, some (u.key hashing),
        some (hashing.sha256 u.bytes), u.bytes⟩ :=
      ⟨fun _ => rfl, fun key hkey => ⟨u.ext, (Option.some.inj hkey).symm⟩⟩
    have hbacked : ∀ key ∈ some (u.key hashing), s.files key = some u.bytes := by
      intro key hkey
      cases hkey
      exact hfile
    exact (h.insert hrow hbacked (fun _ d hd hreport => hdeletions d hd hreport)
      (s.nextId + 1)).setUpload hin i _

end

section

variable (h : StorageInv hashing s)
include h

/-- A deletion goes on. -/
theorem StorageInv.setDeletion (i : ℕ) {stage : DeletionStage}
    (hinv : DeletionInv s.rows { d with stage := stage })
    (hlock : ({ d with stage := stage } : Deletion).holdsLock = true → ∀ b ∈ s.backups, b.holdsLock = false) :
    StorageInv hashing (setDeletion s i d stage) := by
  refine ⟨h.files, h.uploads, h.uploaded, h.backed, fun d' hd' => ?_, fun b hb hholds d' hd' => ?_,
    fun b hb => (h.backups b hb).mono fun _ _ _ _ _ hfile => hfile⟩
  · rcases mem_or_eq_of_mem_set hd' with hold | rfl
    · exact h.deletions d' hold
    · exact hinv
  · rcases mem_or_eq_of_mem_set hd' with hold | rfl
    · exact h.exclusive b hb hholds d' hold
    · cases hd : ({ d with stage := stage } : Deletion).holdsLock with
      | false => rfl
      | true =>
        rw [hlock hd b hb] at hholds
        cases hholds

/-- While a deletion holds the lock, no backup does. -/
theorem StorageInv.no_backup (hd : d ∈ s.deletions) (hholds : d.holdsLock = true) :
    ∀ b ∈ s.backups, b.holdsLock = false := by
  intro b hb
  cases hlock : b.holdsLock with
  | false => rfl
  | true =>
    rw [h.exclusive b hb hlock d hd] at hholds
    cases hholds

theorem StorageInv.deletionStep (hd : s.deletions[i]? = some d)
    (hstep : deletionStep s i d a = some s') : StorageInv hashing s' := by
  have hin := mem_of_getElem? hd
  unfold ArtifactStorage.deletionStep at hstep
  split at hstep
  · obtain ⟨hfree, rfl⟩ := Run.enabled hstep
    refine h.setDeletion i (fun _ _ _ _ => trivial) fun _ b hb => ?_
    simpa using all_eq_true.mp hfree.2 b hb
  · obtain ⟨hlocked, rfl⟩ := Run.enabled hstep
    refine h.setDeletion i (fun row hrow hreport _ => ?_) fun _ =>
      h.no_backup hin (by simp [Deletion.holdsLock, hlocked])
    exact mem_map_of_mem (mem_filter.mpr ⟨hrow, by simpa using hreport⟩)
  · split at hstep
    · next ids hdeleted =>
      cases hstep
      have hrows : ∀ row ∈ s.rows.filter (·.id ∉ ids), row ∈ s.rows := fun row hrow =>
        mem_of_mem_filter hrow
      have hless : StorageInv hashing { s with rows := s.rows.filter (·.id ∉ ids) } :=
        ⟨h.files, h.uploads, fun row hrow => h.uploaded row (hrows row hrow),
          fun row hrow => h.backed row (hrows row hrow),
          fun d' hd' row hrow => h.deletions d' hd' row (hrows row hrow), h.exclusive,
          fun b hb => (h.backups b hb).mono fun _ _ _ _ _ hfile => hfile⟩
      refine hless.setDeletion i (fun row hrow hreport hsome => ?_) fun _ =>
        h.no_backup hin (by simp [Deletion.holdsLock, hdeleted])
      -- The transaction has deleted every row of the report that has a key.
      have hids := h.deletions d hin row (hrows row hrow) hreport hsome
      rw [hdeleted] at hids
      exact absurd hids (by simpa using (mem_filter.mp hrow).2)
    · cases hstep
  · split at hstep
    all_goals first
      | cases hstep
        exact h.setDeletion i (fun _ _ _ _ => trivial) fun hcontra => by cases hcontra
      | cases hstep
  · next fileName =>
    obtain ⟨hcommitted, rfl⟩ := Run.enabled hstep
    have hother : ∀ row ∈ s.rows, ∀ key ∈ row.storageKey, key ≠ ⟨d.reportId, fileName⟩ := by
      rintro row hrow key hkey rfl
      obtain ⟨ext, hname⟩ := (h.uploaded row hrow).key _ hkey
      have hreport : row.reportId = d.reportId := (congrArg ArtifactKey.reportId hname).symm
      have hgone := h.deletions d hin row hrow hreport (Option.isSome_iff_exists.mpr ⟨_, hkey⟩)
      rw [hcommitted] at hgone
      exact hgone
    have hnone := h.no_backup hin (by simp [Deletion.holdsLock, hcommitted])
    refine ⟨fun key content hfile => ?_, h.uploads, h.uploaded, fun row hrow key hkey => ?_,
      h.deletions, h.exclusive, fun b hb => ?_⟩
    · dsimp only at hfile
      split at hfile
      · cases hfile
      · exact h.files key content hfile
    · dsimp only
      rw [if_neg (hother row hrow key hkey)]
      exact h.backed row hrow key hkey
    · have hinv := h.backups b hb
      have hfree := hnone b hb
      unfold BackupInv at hinv ⊢
      unfold Backup.holdsLock at hfree
      cases hstage : b.stage with
      | copying left c =>
        rw [hstage] at hfree
        cases hfree
      | failed e | completed bundle =>
        rw [hstage] at hinv
        exact hinv
      | started => trivial
      | locked => trivial
  · obtain ⟨-, rfl⟩ := Run.enabled hstep
    exact h.setDeletion i (fun _ _ _ _ => trivial) fun hcontra => by cases hcontra
  · cases hstep

/-- A backup goes on. -/
theorem StorageInv.setBackup (i : ℕ) {b' : Backup} (hinv : BackupInv hashing s b')
    (hlock : b'.holdsLock = true → ∀ d ∈ s.deletions, d.holdsLock = false) :
    StorageInv hashing (setBackup s i b') := by
  refine ⟨h.files, h.uploads, h.uploaded, h.backed, h.deletions, fun b hb hholds => ?_, fun b hb => ?_⟩
  · rcases mem_or_eq_of_mem_set hb with hold | rfl
    · exact h.exclusive b hold hholds
    · exact hlock hholds
  · rcases mem_or_eq_of_mem_set hb with hold | rfl
    · exact (h.backups b hold).mono fun _ _ _ _ _ hfile => hfile
    · exact hinv.mono fun _ _ _ _ _ hfile => hfile

theorem StorageInv.backupStep (hb : s.backups[i]? = some b)
    (hstep : backupStep hashing s i b a = some s') : StorageInv hashing s' := by
  have hin := mem_of_getElem? hb
  have hinv := h.backups b hin
  have hexclusive := h.exclusive b hin
  unfold ArtifactStorage.backupStep at hstep
  unfold BackupInv at hinv
  unfold Backup.holdsLock at hexclusive
  split at hstep
  · obtain ⟨hfree, rfl⟩ := Run.enabled hstep
    refine h.setBackup i trivial fun _ d hd => ?_
    simpa using all_eq_true.mp hfree.2.1 d hd
  · split at hstep
    · next hlocked =>
      rw [hlocked] at hexclusive
      obtain ⟨entries, hentries, hof⟩ := listReferencedArtifacts_ok h.uploaded
      rw [hentries] at hstep
      cases hstep
      exact h.setBackup i ⟨⟨rfl, rfl, fun f hf => absurd hf not_mem_nil, [], hof, fun _ => rfl⟩,
        h.uploaded, h.backed⟩ fun _ => hexclusive rfl
    · cases hstep
  · next readable =>
    split at hstep
    · next entry left c hcopying =>
      rw [hcopying] at hinv hexclusive
      obtain ⟨hcopied, huploaded, hfiles⟩ := hinv
      cases hstep
      refine h.setBackup i ⟨?_, huploaded, hfiles⟩ fun _ => hexclusive rfl
      split
      · exact hcopied.copy huploaded hfiles
      · exact hcopied.unread
    · cases hstep
  · split at hstep
    · next c hcopying =>
      rw [hcopying] at hinv
      obtain ⟨hcopied, huploaded, hfiles⟩ := hinv
      have hfinished := hcopied.finished huploaded hfiles
      split at hstep
      · next bundle hok =>
        cases hstep
        rw [hok] at hfinished
        exact h.setBackup i hfinished fun hcontra => by cases hcontra
      · next e herror =>
        cases hstep
        rw [herror] at hfinished
        exact h.setBackup i (.inl hfinished) fun hcontra => by cases hcontra
    · cases hstep
  · obtain ⟨-, rfl⟩ := Run.enabled hstep
    exact h.setBackup i (.inr rfl) fun hcontra => by cases hcontra
  · cases hstep

theorem StorageInv.step (hguard : InsertsBacked hashing s a)
    (hstep : storageStep hashing s a = some s') : StorageInv hashing s' := by
  cases a with
  | upload reportId ext bytes =>
    cases hstep
    refine h.setUploads fun u hu => ?_
    rcases mem_append.mp hu with hold | hnew
    · exact h.uploads u hold
    · obtain rfl := mem_singleton.mp hnew
      exact hguard
  | insertKeyless reportId =>
    cases hstep
    refine h.insert ⟨fun hcontra => ?_, fun key hkey => ?_⟩ (fun key hkey => ?_) (fun hcontra => ?_) _
    · cases hcontra
    · cases hkey
    · cases hkey
    · cases hcontra
  | delete reportId =>
    cases hstep
    refine ⟨h.files, h.uploads, h.uploaded, h.backed, fun d hd => ?_, fun b hb hholds d hd => ?_,
      fun b hb => (h.backups b hb).mono fun _ _ _ _ _ hfile => hfile⟩
    · rcases mem_append.mp hd with hold | hnew
      · exact h.deletions d hold
      · obtain rfl := mem_singleton.mp hnew
        exact fun _ _ _ _ => trivial
    · rcases mem_append.mp hd with hold | hnew
      · exact h.exclusive b hb hholds d hold
      · obtain rfl := mem_singleton.mp hnew
        rfl
  | backup =>
    cases hstep
    refine ⟨h.files, h.uploads, h.uploaded, h.backed, h.deletions, fun b hb hholds => ?_, fun b hb => ?_⟩
    · rcases mem_append.mp hb with hold | hnew
      · exact h.exclusive b hold hholds
      · obtain rfl := mem_singleton.mp hnew
        cases hholds
    · rcases mem_append.mp hb with hold | hnew
      · exact (h.backups b hold).mono fun _ _ _ _ _ hfile => hfile
      · obtain rfl := mem_singleton.mp hnew
        trivial
  | stat i =>
    obtain ⟨u, hu, hstep⟩ := Option.bind_eq_some_iff.mp hstep
    exact h.uploadStep hu hguard (.inl rfl) hstep
  | rename i =>
    obtain ⟨u, hu, hstep⟩ := Option.bind_eq_some_iff.mp hstep
    exact h.uploadStep hu hguard (.inr (.inl rfl)) hstep
  | uploadFails i =>
    obtain ⟨u, hu, hstep⟩ := Option.bind_eq_some_iff.mp hstep
    exact h.uploadStep hu hguard (.inr (.inr (.inl rfl))) hstep
  | insertArtifact i =>
    obtain ⟨u, hu, hstep⟩ := Option.bind_eq_some_iff.mp hstep
    exact h.uploadStep hu hguard (.inr (.inr (.inr rfl))) hstep
  | lockShared i | deleteRows i | commit i | rollback i | removeFile i fileName | endDelete i =>
    obtain ⟨d, hd, hstep⟩ := Option.bind_eq_some_iff.mp hstep
    exact h.deletionStep hd hstep
  | lockExclusive i | snapshot i | copy i readable | finish i | lockTimeout i =>
    obtain ⟨b, hb, hstep⟩ := Option.bind_eq_some_iff.mp hstep
    exact h.backupStep hb hstep

end

/-- In a run whose inserts are backed, every committed row has its file, no backup fails for one, and
every bundle is complete and accepted. -/
theorem rows_have_files {actions : List StorageAction}
    (hrun : Run (storageStep hashing) (InsertsBacked hashing) .empty actions s) :
    RowsBacked s ∧ BackupsSound hashing s := by
  have hinv : StorageInv hashing s :=
    Run.invariant (I := StorageInv hashing) (fun _ _ _ hinv hguard hstep => hinv.step hguard hstep) hrun
      (.empty hashing)
  refine ⟨hinv.backed, fun b hb => ?_⟩
  have hb := hinv.backups b hb
  unfold BackupInv at hb
  cases hstage : b.stage with
  | failed e =>
    rw [hstage] at hb
    exact hb
  | completed bundle =>
    rw [hstage] at hb
    exact hb
  | started => trivial
  | locked => trivial
  | copying left c => trivial

/-- The digests of `abc` and, for everything else, of the empty content. -/
def twoDigests : Hashing where
  sha256 := fun b =>
    if b = [97, 98, 99] then "ba7816bf8f01cfea414140de5dae2223b00361a396177a9cb410ff61f20015ad".toList
    else "e3b0c44298fc1c149afbf4c8996fb92427ae41e4649b934ca495991b7852b855".toList
  contents := [[97, 98, 99], []]
  length_sha256 := by
    intro b
    split <;> decide +kernel
  hex_sha256 := by
    intro b
    split <;> decide +kernel
  collisionFree := by decide +kernel

/-- Two uploads of one content, a backup, and then a deletion. -/
def backsUp : List StorageAction :=
  [.upload 1 ['.', 't', 'x', 't'] [97, 98, 99], .stat 0, .rename 0, .insertArtifact 0,
    .upload 1 ['.', 't', 'x', 't'] [97, 98, 99], .stat 1, .insertArtifact 1, .backup,
    .lockExclusive 0, .snapshot 0, .copy 0 true, .finish 0, .delete 1, .lockShared 0, .deleteRows 0,
    .commit 0]

theorem rows_have_files_backsUp :
    ∃ s, Run (storageStep twoDigests) (InsertsBacked twoDigests) .empty backsUp s ∧
      (s.backups.map fun b => b.snapshot.length) = [2] ∧ s.rows = [] ∧
      RowsBacked s ∧ BackupsSound twoDigests s := by
  obtain ⟨s, hrun, hbackups, hrows⟩ :
      ∃ s, Run (storageStep twoDigests) (InsertsBacked twoDigests) .empty backsUp s ∧
        (s.backups.map fun b => b.snapshot.length) = [2] ∧ s.rows = [] :=
    Run.exists_of_any (by decide +kernel)
  exact ⟨s, hrun, hbackups, hrows, rows_have_files hrun⟩

/-- A report is deleted between the two steps of an upload, and then backed up. -/
def deletesBetween : List StorageAction :=
  [.upload 1 ['.', 't', 'x', 't'] [97, 98, 99], .stat 0, .rename 0, .delete 1, .lockShared 0,
    .deleteRows 0, .commit 0,
    .removeFile 0 "ba7816bf8f01cfea414140de5dae2223b00361a396177a9cb410ff61f20015ad.txt".toList,
    .endDelete 0, .insertArtifact 0, .backup, .lockExclusive 0, .snapshot 0, .copy 0 true, .finish 0]

/-- The row is committed without a file, and the backup fails. -/
theorem row_without_file :
    ∃ s, Run (storageStep twoDigests) (fun _ _ => True) .empty deletesBetween s ∧
      ¬ RowsBacked s ∧ ¬ BackupsSound twoDigests s := by
  obtain ⟨s, hrun, hbacked, b, hb, hstage⟩ :
      ∃ s, Run (storageStep twoDigests) (fun _ _ => True) .empty deletesBetween s ∧
        (∃ row ∈ s.rows, ∃ key ∈ row.storageKey, s.files key ≠ some row.content) ∧
          ∃ b ∈ s.backups, b.stage = .failed .artifactMissing :=
    Run.exists_of_any (by decide +kernel)
  refine ⟨s, hrun, fun h => ?_, fun h => ?_⟩
  · obtain ⟨row, hrow, key, hkey, hfile⟩ := hbacked
    exact hfile (h row hrow key hkey)
  · have hsound := h b hb
    rw [hstage] at hsound
    rcases hsound with hcontra | hcontra <;> cases hcontra

end TalonHound.ArtifactStorage
