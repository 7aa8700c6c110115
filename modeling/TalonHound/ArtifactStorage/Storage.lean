import Mathlib.Algebra.GroupWithZero.Nat
import TalonHound.FileArtifacts.Hash
import TalonHound.Library.Run

/-!
# Files and rows of report artifacts

`storeArtifactBuffer` and `insertArtifact`, `deleteThreatReport` and the backup component
`captureThreatLibrarySnapshot`, step by step over the files and the committed rows.
-/

namespace TalonHound.ArtifactStorage

open FileArtifacts (isHexDigit)

/-- The content of a file. -/
abbrev Bytes := List UInt8

/-- `reports/<id>/<file>`. -/
structure ArtifactKey where
  reportId : ℕ
  fileName : List Char
  deriving DecidableEq

/-- `SHA-256` in lower case digits, and contents on which it does not collide. -/
structure Hashing where
  sha256 : Bytes → List Char
  contents : List Bytes
  length_sha256 : ∀ b, (sha256 b).length = 64
  hex_sha256 : ∀ b, (sha256 b).all isHexDigit = true
  collisionFree : ∀ b ∈ contents, ∀ b' ∈ contents, sha256 b = sha256 b' → b = b'

/-- `/^\.[A-Za-z0-9]{1,8}$/`. -/
def isExtension (ext : List Char) : Bool :=
  match ext with
  | '.' :: rest => decide (1 ≤ rest.length ∧ rest.length ≤ 8) && rest.all Char.isAlphanum
  | _ => false

/-- An extension that is none becomes `.bin`. -/
def safeExt (ext : List Char) : List Char := if isExtension ext then ext else ['.', 'b', 'i', 'n']

/-- `fileKey`. -/
def fileKey (hashing : Hashing) (reportId : ℕ) (ext : List Char) (bytes : Bytes) : ArtifactKey :=
  ⟨reportId, hashing.sha256 bytes ++ safeExt ext⟩

/-- The name of a file in `KEY_RE`. -/
def isFileNameChar (c : Char) : Bool := c.isAlphanum || c = '.' || c = '_' || c = '-'

/-- `normalizeArtifactKey`; the text of a key is left out. -/
def normalizeArtifactKey (key : ArtifactKey) : Option ArtifactKey :=
  if key.fileName ≠ [] ∧ key.fileName.all isFileNameChar = true ∧ key.fileName.head? ≠ some '.' then
    some key
  else none

/-- `shaFromKey`. -/
def shaFromKey (key : ArtifactKey) : Option (List Char) :=
  if (key.fileName.take 64).length = 64 ∧ (key.fileName.take 64).all isHexDigit = true ∧
      isExtension (key.fileName.drop 64) = true then
    some (key.fileName.take 64)
  else none

/-- A row of `threat_report_artifacts`, with the content that was uploaded. -/
structure ArtifactRow where
  (id reportId : ℕ)
  storageKey : Option ArtifactKey
  sha256 : Option (List Char)
  content : Bytes

/-- `componentError`. -/
inductive ComponentError where
  | unsafeKey | artifactMissing | artifactCorrupt | artifactUnreadable | lockTimeout
  deriving DecidableEq

/-- A referenced file. -/
structure Entry where
  key : ArtifactKey
  sha256 : Option (List Char)
  (artifactIds reportIds : List ℕ)
  deriving DecidableEq

/-- The loop body of `listReferencedArtifacts`. -/
def addReferenced (byKey : List Entry) (row : ArtifactRow) : Except ComponentError (List Entry) :=
  match row.storageKey with
  | none => .ok byKey
  | some storageKey =>
    match normalizeArtifactKey storageKey with
    | none => .error .unsafeKey
    | some key =>
      let sha := row.sha256.map (·.map Char.toLower)
      match byKey.find? (·.key = key) with
      | none => .ok (byKey ++ [⟨key, sha, [row.id], [row.reportId]⟩])
      | some entry =>
        if sha.isSome ∧ entry.sha256.isSome ∧ sha ≠ entry.sha256 then .error .artifactCorrupt
        else
          .ok (byKey.map fun e =>
            if e.key = key then
              { e with
                sha256 := e.sha256.or sha
                artifactIds := e.artifactIds ++ [row.id]
                reportIds :=
                  if row.reportId ∈ e.reportIds then e.reportIds else e.reportIds ++ [row.reportId] }
            else e)

/-- `listReferencedArtifacts`, in the order of the rows. -/
def listReferencedArtifacts (rows : List ArtifactRow) : Except ComponentError (List Entry) :=
  rows.foldlM addReferenced []

/-- A file of the index, with the copy in the bundle. -/
structure IndexFile where
  key : ArtifactKey
  sha256 : List Char
  bytes : ℕ
  (artifactIds reportIds : List ℕ)
  copied : Bytes
  deriving DecidableEq

/-- The lists of `copyThreatLibraryArtifacts`. -/
structure CopyState where
  (missing corrupt unreadable : List ArtifactKey)
  files : List IndexFile
  deriving DecidableEq

/-- The loop body of `copyThreatLibraryArtifacts`, on the file at the time of the copy. -/
def copyEntry (hashing : Hashing) (file : Option Bytes) (c : CopyState) (entry : Entry) : CopyState :=
  match file with
  | none => { c with missing := c.missing ++ [entry.key] }
  | some content =>
    let expected := [shaFromKey entry.key, entry.sha256].filterMap id
    if expected.any (· ≠ hashing.sha256 content) then { c with corrupt := c.corrupt ++ [entry.key] }
    else
      { c with
        files := c.files ++ [⟨entry.key, hashing.sha256 content, content.length, entry.artifactIds,
          entry.reportIds, content⟩] }

/-- The component of a bundle: its files, the files of the index and the declared numbers. -/
structure Bundle where
  copies : List (ArtifactKey × Bytes)
  index : List IndexFile
  (fileCount totalBytes : ℕ)
  deriving DecidableEq

/-- The end of `copyThreatLibraryArtifacts`. -/
def finishCopy (c : CopyState) : Except ComponentError Bundle :=
  if c.missing ≠ [] then .error .artifactMissing
  else if c.corrupt ≠ [] then .error .artifactCorrupt
  else if c.unreadable ≠ [] then .error .artifactUnreadable
  else
    .ok {
      copies := c.files.map fun f => (f.key, f.copied)
      index := c.files
      fileCount := c.files.length
      totalBytes := (c.files.map IndexFile.bytes).sum }

/-- What `verifyThreatLibraryComponent` refuses. -/
inductive VerifyError where
  | indexInvalid | artifactMissing | artifactCorrupt | countMismatch

/-- The lists of `verifyThreatLibraryComponent`. -/
structure VerifyState where
  (seen missing corrupt : List ArtifactKey)
  totalBytes : ℕ

/-- The loop body of `verifyThreatLibraryComponent`. -/
def verifyFile (hashing : Hashing) (bundle : Bundle) (v : VerifyState) (f : IndexFile) :
    Except VerifyError VerifyState :=
  if normalizeArtifactKey f.key = none then .error .indexInvalid
  else if f.key ∈ v.seen then .error .indexInvalid
  else if ¬(f.sha256.length = 64 ∧ f.sha256.all isHexDigit = true) then .error .indexInvalid
  else
    match bundle.copies.lookup f.key with
    | none => .ok { v with seen := v.seen ++ [f.key], missing := v.missing ++ [f.key] }
    | some content =>
      let actual := hashing.sha256 content
      let damaged := actual ≠ f.sha256 ∨ content.length ≠ f.bytes ∨
        (shaFromKey f.key).any (· ≠ actual) = true
      .ok { v with
        seen := v.seen ++ [f.key]
        corrupt := if damaged then v.corrupt ++ [f.key] else v.corrupt
        totalBytes := v.totalBytes + content.length }

/-- `verifyThreatLibraryComponent`, on the numbers that the manifest took from the index. -/
def verifyThreatLibraryComponent (hashing : Hashing) (bundle : Bundle) : Except VerifyError Unit := do
  let v ← bundle.index.foldlM (verifyFile hashing bundle) ⟨[], [], [], 0⟩
  if v.missing ≠ [] then .error .artifactMissing
  else if v.corrupt ≠ [] then .error .artifactCorrupt
  else if (bundle.copies.filter fun f => decide (f.1 ∉ v.seen)) ≠ [] then .error .indexInvalid
  else if bundle.index.length ≠ bundle.fileCount then .error .countMismatch
  else if v.totalBytes ≠ bundle.totalBytes then .error .countMismatch
  else .ok ()

/-- How far `storeArtifactBuffer` and the insert after it are. -/
inductive UploadStage where
  | started | writing | stored | ended
  deriving DecidableEq

/-- An upload of a report's artifact. -/
structure Upload where
  reportId : ℕ
  ext : List Char
  bytes : Bytes
  stage : UploadStage

/-- How far `deleteThreatReport` is; `deleted` holds the rows that its transaction has deleted. -/
inductive DeletionStage where
  | started | locked
  | deleted (ids : List ℕ)
  | committed
  | ended
  deriving DecidableEq

/-- A deletion of a report. -/
structure Deletion where
  reportId : ℕ
  stage : DeletionStage

/-- How far `captureThreatLibrarySnapshot` is. -/
inductive BackupStage where
  | started | locked
  | copying (left : List Entry) (c : CopyState)
  | completed (bundle : Bundle)
  | failed (e : ComponentError)
  deriving DecidableEq

/-- A backup, with the rows of its snapshot. -/
structure Backup where
  snapshot : List ArtifactRow
  stage : BackupStage

/-- The files, the rows, and what is going on. -/
structure StorageState where
  files : ArtifactKey → Option Bytes
  rows : List ArtifactRow
  nextId : ℕ
  uploads : List Upload
  deletions : List Deletion
  backups : List Backup

/-- An instance without artifacts. -/
def StorageState.empty : StorageState where
  files := fun _ => none
  rows := []
  nextId := 0
  uploads := []
  deletions := []
  backups := []

/-- The deletion holds the shared lock. -/
def Deletion.holdsLock (d : Deletion) : Bool :=
  match d.stage with
  | .locked | .deleted _ | .committed => true
  | .started | .ended => false

/-- The backup holds the exclusive lock. -/
def Backup.holdsLock (b : Backup) : Bool :=
  match b.stage with
  | .locked | .copying _ _ => true
  | .started | .completed _ | .failed _ => false

/-- The actions, by the indices of uploads, deletions and backups. -/
inductive StorageAction where
  | upload (reportId : ℕ) (ext : List Char) (bytes : Bytes)
  | stat (i : ℕ)
  | rename (i : ℕ)
  | uploadFails (i : ℕ)
  | insertArtifact (i : ℕ)
  | insertKeyless (reportId : ℕ)
  | delete (reportId : ℕ)
  | lockShared (i : ℕ)
  | deleteRows (i : ℕ)
  | commit (i : ℕ)
  | rollback (i : ℕ)
  | removeFile (i : ℕ) (fileName : List Char)
  | endDelete (i : ℕ)
  | backup
  | lockExclusive (i : ℕ)
  | snapshot (i : ℕ)
  | copy (i : ℕ) (readable : Bool)
  | finish (i : ℕ)
  | lockTimeout (i : ℕ)

section Step

variable (hashing : Hashing)

/-- The key that the content has. -/
def Upload.key (u : Upload) : ArtifactKey := fileKey hashing u.reportId u.ext u.bytes

/-- The upload goes on. -/
def setUpload (s : StorageState) (i : ℕ) (u : Upload) (stage : UploadStage) : StorageState :=
  { s with uploads := s.uploads.set i { u with stage := stage } }

/-- The deletion goes on. -/
def setDeletion (s : StorageState) (i : ℕ) (d : Deletion) (stage : DeletionStage) : StorageState :=
  { s with deletions := s.deletions.set i { d with stage := stage } }

/-- The backup goes on. -/
def setBackup (s : StorageState) (i : ℕ) (b : Backup) : StorageState :=
  { s with backups := s.backups.set i b }

/-- A step of an upload. -/
def uploadStep (s : StorageState) (i : ℕ) (u : Upload) : StorageAction → Option StorageState
  | .stat _ =>
    if u.stage = .started then
      -- A file of the right size is taken for the content.
      some (setUpload s i u
        (if (s.files (u.key hashing)).any (·.length = u.bytes.length) then .stored else .writing))
    else none
  | .rename _ =>
    if u.stage = .writing then
      some { setUpload s i u .stored with
        files := fun key => if key = u.key hashing then some u.bytes else s.files key }
    else none
  | .uploadFails _ => if u.stage = .ended then none else some (setUpload s i u .ended)
  | .insertArtifact _ =>
    if u.stage = .stored then
      some { setUpload s i u .ended with
        rows := s.rows ++ [⟨s.nextId, u.reportId, some (u.key hashing), some (hashing.sha256 u.bytes),
          u.bytes⟩]
        nextId := s.nextId + 1 }
    else none
  | _ => none

/-- A step of a deletion. -/
def deletionStep (s : StorageState) (i : ℕ) (d : Deletion) : StorageAction → Option StorageState
  | .lockShared _ =>
    if d.stage = .started ∧ s.backups.all (!·.holdsLock) then some (setDeletion s i d .locked) else none
  | .deleteRows _ =>
    if d.stage = .locked then
      some (setDeletion s i d
        (.deleted ((s.rows.filter (·.reportId = d.reportId)).map ArtifactRow.id)))
    else none
  | .commit _ =>
    match d.stage with
    | .deleted ids =>
      some { setDeletion s i d .committed with rows := s.rows.filter (·.id ∉ ids) }
    | _ => none
  | .rollback _ =>
    match d.stage with
    | .started | .locked | .deleted _ => some (setDeletion s i d .ended)
    | _ => none
  | .removeFile _ fileName =>
    if d.stage = .committed then
      some { s with
        files := fun key => if key = ⟨d.reportId, fileName⟩ then none else s.files key }
    else none
  | .endDelete _ => if d.stage = .committed then some (setDeletion s i d .ended) else none
  | _ => none

/-- A step of a backup. -/
def backupStep (s : StorageState) (i : ℕ) (b : Backup) : StorageAction → Option StorageState
  | .lockExclusive _ =>
    if b.stage = .started ∧ s.deletions.all (!·.holdsLock) ∧ s.backups.all (!·.holdsLock) then
      some (setBackup s i { b with stage := .locked })
    else none
  | .snapshot _ =>
    if b.stage = .locked then
      match listReferencedArtifacts s.rows with
      | .ok entries => some (setBackup s i ⟨s.rows, .copying entries ⟨[], [], [], []⟩⟩)
      | .error e => some (setBackup s i ⟨s.rows, .failed e⟩)
    else none
  | .copy _ readable =>
    match b.stage with
    | .copying (entry :: left) c =>
      some (setBackup s i { b with
        stage := .copying left
          (if readable then copyEntry hashing (s.files entry.key) c entry
            else { c with unreadable := c.unreadable ++ [entry.key] }) })
    | _ => none
  | .finish _ =>
    match b.stage with
    | .copying [] c =>
      match finishCopy c with
      | .ok bundle => some (setBackup s i { b with stage := .completed bundle })
      | .error e => some (setBackup s i { b with stage := .failed e })
    | _ => none
  | .lockTimeout _ =>
    if b.stage = .started then some (setBackup s i { b with stage := .failed .lockTimeout }) else none
  | _ => none

/-- One step. -/
def storageStep (s : StorageState) (a : StorageAction) : Option StorageState :=
  match a with
  | .upload reportId ext bytes =>
    some { s with uploads := s.uploads ++ [⟨reportId, ext, bytes, .started⟩] }
  | .insertKeyless reportId =>
    some { s with
      rows := s.rows ++ [⟨s.nextId, reportId, none, none, []⟩]
      nextId := s.nextId + 1 }
  | .delete reportId => some { s with deletions := s.deletions ++ [⟨reportId, .started⟩] }
  | .backup => some { s with backups := s.backups ++ [⟨[], .started⟩] }
  | .stat i | .rename i | .uploadFails i | .insertArtifact i =>
    s.uploads[i]?.bind fun u => uploadStep hashing s i u a
  | .lockShared i | .deleteRows i | .commit i | .rollback i | .removeFile i _ | .endDelete i =>
    s.deletions[i]?.bind fun d => deletionStep s i d a
  | .lockExclusive i | .snapshot i | .copy i _ | .finish i | .lockTimeout i =>
    s.backups[i]?.bind fun b => backupStep hashing s i b a

/-- Every committed row with a key has a file with exactly its content. -/
def RowsBacked (s : StorageState) : Prop :=
  ∀ row ∈ s.rows, ∀ key ∈ row.storageKey, s.files key = some row.content

/-- The copies are exactly the files that rows reference. -/
def ExactlyReferenced (rows : List ArtifactRow) (copies : List (ArtifactKey × Bytes)) : Prop :=
  (copies.map Prod.fst).Nodup ∧ ∀ key content, (key, content) ∈ copies ↔
    ∃ row ∈ rows, row.storageKey = some key ∧ row.content = content

/-- No backup fails for a file, and a completed one holds what its snapshot references and is
accepted. -/
def BackupsSound (s : StorageState) : Prop :=
  ∀ b ∈ s.backups, match b.stage with
    | .failed e => e = .artifactUnreadable ∨ e = .lockTimeout
    | .completed bundle => ExactlyReferenced b.snapshot bundle.copies ∧
        verifyThreatLibraryComponent hashing bundle = .ok ()
    | _ => True

/-- The condition: an upload's row is committed while its file is there, and while no deletion of the
report is between its row deletion and the end of its file removal. -/
def InsertsBacked (s : StorageState) : StorageAction → Prop
  | .upload _ _ bytes => bytes ∈ hashing.contents
  | .insertArtifact i =>
    ∀ u ∈ s.uploads[i]?, s.files (u.key hashing) = some u.bytes ∧
      ∀ d ∈ s.deletions, d.reportId = u.reportId →
        d.stage = .started ∨ d.stage = .locked ∨ d.stage = .ended
  | _ => True

instance (s : StorageState) (a : StorageAction) : Decidable (InsertsBacked hashing s a) := by
  unfold InsertsBacked
  split <;> infer_instance

end Step

end TalonHound.ArtifactStorage
