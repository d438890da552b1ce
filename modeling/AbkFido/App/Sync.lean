/-
`MetadataSyncCoordinator.syncNow`: the companion brings the driver's live
store, the file at `ABK_FIDO_STORE_PATH` and its own sqlite snapshot
together.

What it does is decided by two numbers: the driver's count of credentials
and the count of the slots marked in use in the file's blob, whose magic and
CRC it does not look at. How each shell command goes is an argument. A pipe
hides a read that breaks off, so a read can come out short.
-/
import AbkFido.App.Blob
import AbkFido.App.Edit

namespace AbkFido

/-! ## Counting -/

/-- `ByteArray.storeCredentialCount` -/
def storeCredentialCount (bytes : List UInt8) : Int :=
  if bytes.length < headerSize then -1
  else
    let credBytes := if readIntLe bytes offVersion = 1 then credSizeV1 else credSize
    let slots := min ((bytes.length - headerSize) / credBytes) maxCreds
    ((List.range slots).countP fun i => bytes[headerSize + i * credBytes]? == some 1 : Nat)

def shouldDrainKernelToPersistence (kernelCredentialCount persistedCredentialCount : Int) : Bool :=
  persistedCredentialCount < kernelCredentialCount

def shouldRestoreKernel (kernelCredentialCount targetCount : Int) : Bool :=
  kernelCredentialCount == 0 || (0 < targetCount && kernelCredentialCount < targetCount)

/-! ## Shell commands -/

inductive ShellRead
  | fails
  /-- Only so many bytes come out. -/
  | cut (n : Nat)
  | works

def ShellRead.out (read : ShellRead) (bytes : List UInt8) : Option (List UInt8) :=
  match read with
  | .fails => none
  | .cut n => some (bytes.take n)
  | .works => some bytes

inductive ShellWrite
  /-- The file is not opened, or truncated and left with so many bytes. -/
  | fails (k : Option Nat)
  | works

/-- `writeFileBase64` -/
def ShellWrite.run (write : ShellWrite) (bytes : List UInt8) (file : File) : Bool × File :=
  match write with
  | .fails none => (false, file)
  | .fails (some k) => (false, some (bytes.take k))
  | .works => (true, some bytes)

/-- How the commands of a sync go. -/
structure SyncIo where
  root : Bool
  ensure : Bool
  importDb : Bool
  count : Bool
  blob : ShellRead
  kernelBlob : ShellRead
  /-- The driver's load, if `store_blob` is its first use. -/
  load : ReadIo
  ids : FreshIds
  drain : ShellWrite
  exportBlob : ShellWrite
  generation : Bool
  restoreAlloc : Bool
  restore : ReadIo
  restoreShell : Bool
  /-- For each look at the driver after the restore, whether its generation and its count can be read. -/
  polls : Nat → Bool × Bool
  exportDb : Bool

/-- What a sync works on: a snapshot is the one row of a database, of which
the companion has its own and a mirror. -/
structure SyncState where
  storage : Storage
  snapshot : Option (List UInt8)
  mirror : Option (Option (List UInt8))

namespace SyncState

/-- `readPersistedBlob`, and `readStoreBlob` after it: nothing counts as no blob. -/
def nonEmpty (out : Option (List UInt8)) : Option (List UInt8) := out.filter fun bytes => !bytes.isEmpty

def setFile (s : SyncState) (file : File) : SyncState := { s with storage := { s.storage with file := file } }

/-- `ensureEmptyFileIfMissing` -/
def ensureEmptyFile (ok : Bool) (s : SyncState) : SyncState :=
  if ok && s.storage.file.isNone then s.setFile (some []) else s

/-- `importDatabase` -/
def importDatabase (ok : Bool) (s : SyncState) : SyncState :=
  match s.mirror with
  | some snapshot => if ok then { s with snapshot := snapshot } else s
  | none => s

def readPersistedBlob (read : ShellRead) (s : SyncState) : Option (List UInt8) :=
  nonEmpty (s.storage.file.bind read.out)

section
variable (P : Platform) (io : SyncIo)

/-- `readStoreBlob`: reading the node is a use of the store. -/
def readStoreBlob (s : SyncState) : Option (List UInt8) × SyncState :=
  match io.kernelBlob with
  | .fails => (none, s)
  | read =>
    let storage := loadStoreLocked P io.load io.ids s.storage
    (nonEmpty (read.out (storeToDisk storage.store)), { s with storage := storage })

/-- The self-heal: the blob that then counts as persisted, if the drain succeeded. -/
def drainKernel (kernelCredentialCount : Int) (s : SyncState) : Option (List UInt8) × SyncState :=
  match readStoreBlob P io s with
  | (none, s) => (none, s)
  | (some kernelBlob, s) =>
    if storeCredentialCount kernelBlob ≠ kernelCredentialCount then (none, s)
    else
      match io.drain.run kernelBlob s.storage.file with
      | (false, file) => (none, s.setFile file)
      | (true, file) => (some kernelBlob, { s.setFile file with snapshot := some kernelBlob })

/-- What a look at the driver shows: its generation and its count. -/
def observe (i : Nat) (s : SyncState) : Option Int × Option Int :=
  (if (io.polls i).1 then toIntOrNull s.storage.storeGeneration.toNat else none,
    if (io.polls i).2 then toIntOrNull (countCredentials s.storage.store) else none)

/-- What the wait waits for, and what is checked again after it. -/
def restored (generationBefore : Option Int) (targetCount : Int) (observation : Option Int × Option Int) : Bool :=
  generationBefore.any (fun before => observation.1.any (before < ·)) &&
    (targetCount ≤ 0 || observation.2.any (targetCount ≤ ·))

/-- `waitForKernelRestore`, with that many attempts left and one last look. -/
def waitForKernelRestore (s : SyncState) (generationBefore : Option Int) (targetCount : Int) :
    Nat → Option Int × Option Int
  | 0 => observe io 0 s
  | n + 1 =>
    let observation := observe io (n + 1) s
    if restored generationBefore targetCount observation then observation
    else waitForKernelRestore s generationBefore targetCount n

/-- `restoreKernelFromBlob`; `false` is a failure. -/
def restoreKernelFromBlob (restoreBlob : List UInt8) (targetCount : Int) (s : SyncState) : Bool × SyncState :=
  match io.exportBlob.run restoreBlob s.storage.file with
  | (false, file) => (false, s.setFile file)
  | (true, file) =>
    let s := s.setFile file
    let generationBefore := if io.generation then toIntOrNull s.storage.storeGeneration.toNat else none
    match restorePersistedStoreLocked io.restoreAlloc io.restore s.storage with
    | (.error _, storage) => (false, { s with storage := storage })
    | (.ok _, storage) =>
      let s := { s with storage := storage }
      if !io.restoreShell then (false, s)
      else (restored generationBefore targetCount (waitForKernelRestore io s generationBefore targetCount restoreAttempts), s)

/-- `writeDatabaseToPersistence`, the last thing that can fail. -/
def exportDatabase (s : SyncState) : Bool × SyncState :=
  if io.exportDb then (true, { s with mirror := some s.snapshot }) else (false, s)

/-- The driver is restored from a blob, and the database exported. -/
def restoreAndExport (restoreBlob : List UInt8) (s : SyncState) : Bool × SyncState :=
  match restoreKernelFromBlob io restoreBlob (storeCredentialCount restoreBlob) s with
  | (false, s) => (false, s)
  | (true, s) => exportDatabase io s

/-- `syncNow`, once the self-heal is over. -/
def settle (kernelCredentialCount : Int) (persistedBlob : Option (List UInt8)) (s : SyncState) : Bool × SyncState :=
  match persistedBlob with
  | some blob =>
    let s := { s with snapshot := some blob }
    if storeCredentialCount blob < 0 then (false, s)
    else if shouldRestoreKernel kernelCredentialCount (storeCredentialCount blob) then restoreAndExport io blob s
    else exportDatabase io s
  | none =>
    match s.snapshot with
    | some snapshot =>
      if storeCredentialCount snapshot < 0 then (false, s)
      else if 0 < kernelCredentialCount then (false, s)
      else restoreAndExport io snapshot s
    | none => exportDatabase io s

/-- `readCredentialCount() ?: 0` -/
def readCredentialCount (s : SyncState) : Int :=
  ((if io.count then toIntOrNull (countCredentials s.storage.store) else none) : Option Int).getD 0

/-- The count of the blob, none being zero. -/
def persistedCount (blob : Option (List UInt8)) : Int := (blob.map storeCredentialCount).getD 0

/-- `syncNow`: whether it succeeded, and what it left. -/
def syncNow (s : SyncState) : Bool × SyncState :=
  if !io.root then (false, s)
  else
    let s := importDatabase io.importDb (ensureEmptyFile io.ensure s)
    let kernelCredentialCount := readCredentialCount io s
    let persistedBlob := readPersistedBlob io.blob s
    if shouldDrainKernelToPersistence kernelCredentialCount (persistedCount persistedBlob) then
      let (drained, s) := drainKernel P io kernelCredentialCount s
      settle io kernelCredentialCount (drained.or persistedBlob) s
    else settle io kernelCredentialCount persistedBlob s

end

end SyncState

end AbkFido
