/-
`FidoStoreManager`: an edit of the key store by the companion, while the
driver goes on.

The edit reads a blob, from the file or from the driver, edits it, writes it
to the file or to `store_blob`, and has the driver adopt it. Reads and
writes reach the kernel a part at a time, and between any two of the edit's
own steps the driver may carry out operations of its own.

For the theorems the state also keeps the store the driver held when it
adopted the edit, and the store it adopted.
-/
import AbkFido.App.Blob
import AbkFido.StoreOps
import AbkFido.Lib.Run

namespace AbkFido

/-! ## Edits of a blob -/

/-- `StoreEditResult.Failure` -/
inductive Failure
  | cannotRead
  | keyGone
  | full (imported : Nat)
  | notLoaded
  | restoreRejected (out : String)
  | writeFailed (out : String)
  | notAdopted (error : String)

def Failure.message : Failure → String
  | .cannotRead => "cannot read the FIDO store"
  | .keyGone => "that key is no longer in the store"
  | .full imported =>
    "the store is full at " ++ toString maxCreds ++ " keys; " ++ toString imported ++ " imported before that"
  | .notLoaded => "the abk_fido_key driver is not loaded"
  | .restoreRejected out => "restore_metadata rejected the store: " ++ out
  | .writeFailed out => "writing /metadata/abk_fido_store.bin failed: " ++ out
  | .notAdopted error => "the driver did not adopt the edited store" ++ if error = "" then "" else ": " ++ error

/-- What the user asks for. -/
inductive Edit
  | delete (slot : Fin maxCreds)
  | rename (slot : Fin maxCreds) (userName userDisplay : List UInt8)
  | imports (records : List FidoCredentialRecord)

/-- The variables of `import`'s loop. Credential ids are compared in hex,
which is to compare their bytes. -/
structure ImportLoop where
  existing : List (List UInt8)
  next : FidoStoreBlob
  imported : Nat
  skipped : Nat

def ImportLoop.init (store : FidoStoreBlob) : ImportLoop where
  existing := store.credentials.map (·.credId)
  next := store
  imported := 0
  skipped := 0

/-- One turn of the loop; the error is the state in which the store is full. -/
def importRecord (l : ImportLoop) (record : FidoCredentialRecord) : Except ImportLoop ImportLoop :=
  if record.credId ∈ l.existing then .ok { l with skipped := l.skipped + 1 }
  else
    let l := { l with existing := record.credId :: l.existing }
    match l.next.withCredential record with
    | none => .error l
    | some next => .ok { l with next := next, imported := l.imported + 1 }

/-- The blob to commit, if there is something to commit. -/
def Edit.run (store : FidoStoreBlob) : Edit → Except Failure (Option FidoStoreBlob)
  | .delete slot => if (store.credentialAt slot).isNone then .error .keyGone else .ok (some (store.withoutSlot slot))
  | .rename slot userName userDisplay =>
    if (store.credentialAt slot).isNone then .error .keyGone
    else .ok (some (store.withRenamedSlot slot userName userDisplay))
  | .imports records =>
    match records.foldlM importRecord (.init store) with
    | .error l => .error (.full l.imported)
    | .ok l => .ok (if l.imported = 0 then none else some l.next)

/-! ## The steps of an edit -/

/-- `RESTORE_ATTEMPTS` -/
def restoreAttempts : Nat := 20

/-- What `toIntOrNull` makes of a number the driver prints with `%u`. -/
def toIntOrNull (n : Nat) : Option Int := if n < 2 ^ 31 then some n else none

/-- Where `read` reads. -/
inductive Source
  | file
  | storeBlob

/-- What `commit` goes by. -/
structure Commit where
  bytes : List UInt8
  expected : Nat
  generationBefore : Int

/-- Where the edit is. -/
inductive Phase
  | reading (src : Source) (acc : List UInt8)
  /-- In `commit`, before it looks at the generation. -/
  | committing (store : FidoStoreBlob)
  /-- About to open the file. -/
  | opening (c : Commit)
  | writing (c : Commit) (off : Nat)
  | written (c : Commit)
  /-- Writing to `store_blob`; `out` is what the write of the file printed. -/
  | uploading (c : Commit) (off : Nat) (out : String)
  | polling (c : Commit) (attempts : Nat) (generation : Option (Option Int))
  | done (result : Except Failure Unit)

structure Editing where
  storage : Storage
  phase : Phase
  /-- The store the driver held when it adopted the edit, and the one it
  adopted; the same store twice if there was nothing to commit. -/
  adopted : Option (Store × Store)

/-- What can happen. A shell command that fails does so at some point of its
work, with what it printed. -/
inductive EditAction
  /-- An operation of a command, or of the persistence around it. -/
  | driver (op : StoreOp)
  | readSome (n : Nat) (load : ReadIo) (ids : FreshIds)
  | readEnd
  | readFails
  | generation (ok : Bool)
  | openFile
  | writeSome (n : Nat)
  | writeEnd
  | writeFails (out : String)
  /-- `restore_metadata`; the shell may fail after the driver is done. -/
  | restore (allocOk : Bool) (io : ReadIo) (ok : Bool) (out : String)
  | restoreFails (out : String)
  | uploadSome (n : Nat) (allocOk : Bool)
  | uploadEnd
  | uploadFails
  | pollGeneration (ok : Bool)
  | pollCount (ok : Bool) (error : String)

/-- What a command, a control command or the first use does to the store,
and not the companion. -/
def StoreOp.ofDriver : StoreOp → Bool
  | .load .. | .mint _ | .bump | .dirty | .wipe _ | .persist _ | .pinReset => true
  | .restore .. | .blobWrite .. => false

/-- `write` at an offset of an open file: past its end there are zeros. -/
def File.writeAt (file : File) (off : Nat) (data : List UInt8) : File :=
  let old := file.getD []
  some (Layout.splice (old ++ List.replicate (off + data.length - old.length) 0) off data)

namespace Editing

/-- The rest of an edit, once `read` has returned. -/
def edit (e : Edit) (store : FidoStoreBlob) (s : Editing) : Editing :=
  match e.run store with
  | .error f => { s with phase := .done (.error f) }
  | .ok none => { s with phase := .done (.ok ()), adopted := some (s.storage.store, s.storage.store) }
  | .ok (some next) => { s with phase := .committing next }

/-- `readFromKernel` starts where the file was not to be had. -/
def readEnd (e : Edit) (acc : List UInt8) (s : Editing) : Source → Editing
  | .file =>
    match FidoStoreBlob.parse acc false with
    | some store => s.edit e store
    | none => { s with phase := .reading .storeBlob [] }
  | .storeBlob =>
    match FidoStoreBlob.parse acc false with
    | some store => s.edit e store
    | none => { s with phase := .done (.error .cannotRead) }

section
variable (P : Platform)

def step (e : Edit) (s : Editing) : EditAction → Option Editing
  | .driver op => if op.ofDriver then some { s with storage := op.apply P s.storage } else none
  | .readSome n load ids =>
    match s.phase with
    | .reading .file acc =>
      some { s with phase := .reading .file (acc ++ ((s.storage.file.getD []).drop acc.length).take n) }
    | .reading .storeBlob acc =>
      let storage := loadStoreLocked P load ids s.storage
      some { s with
        storage := storage
        phase := .reading .storeBlob (acc ++ ((storeToDisk storage.store).drop acc.length).take n) }
    | _ => none
  | .readEnd =>
    match s.phase with
    | .reading src acc =>
      let size := match src with
        | .file => (s.storage.file.getD []).length
        | .storeBlob => storeDiskSize
      if size ≤ acc.length then some (s.readEnd e acc src) else none
    | _ => none
  | .readFails =>
    match s.phase with
    | .reading .file _ => some { s with phase := .reading .storeBlob [] }
    | .reading .storeBlob _ => some { s with phase := .done (.error .cannotRead) }
    | _ => none
  | .generation ok =>
    match s.phase with
    | .committing store =>
      match (if ok then toIntOrNull s.storage.storeGeneration.toNat else none) with
      | none => some { s with phase := .done (.error .notLoaded) }
      | some generation =>
        some { s with phase := .opening ⟨store.toBytes, store.credentials.length, generation⟩ }
    | _ => none
  | .openFile =>
    match s.phase with
    | .opening c => some { s with storage := { s.storage with file := some [] }, phase := .writing c 0 }
    | _ => none
  | .writeSome n =>
    match s.phase with
    | .writing c off =>
      let data := (c.bytes.drop off).take n
      some { s with
        storage := { s.storage with file := s.storage.file.writeAt off data }
        phase := .writing c (off + data.length) }
    | _ => none
  | .writeEnd =>
    match s.phase with
    | .writing c off => if off = c.bytes.length then some { s with phase := .written c } else none
    | _ => none
  | .writeFails out =>
    match s.phase with
    | .opening c | .writing c _ => some { s with phase := .uploading c 0 out }
    | _ => none
  | .restore allocOk io ok out =>
    match s.phase with
    | .written c =>
      match restorePersistedStoreLocked allocOk io s.storage with
      | (.error _, storage) => some { s with storage := storage, phase := .done (.error (.restoreRejected out)) }
      | (.ok _, storage) =>
        let s := { s with storage := storage, adopted := some (s.storage.store, storage.store) }
        some { s with phase := if ok then .polling c 0 none else .done (.error (.restoreRejected out)) }
    | _ => none
  | .restoreFails out =>
    match s.phase with
    | .written _ => some { s with phase := .done (.error (.restoreRejected out)) }
    | _ => none
  | .uploadSome n allocOk =>
    match s.phase with
    | .uploading c off out =>
      let data := (c.bytes.drop off).take n
      match storeBlobWrite off data allocOk s.storage with
      | (.error _, storage) => some { s with storage := storage, phase := .done (.error (.writeFailed out)) }
      | (.ok _, storage) =>
        some
          { storage := storage
            phase := .uploading c (off + data.length) out
            adopted :=
              if storage.storeGeneration ≠ s.storage.storeGeneration then some (s.storage.store, storage.store)
              else s.adopted }
    | _ => none
  | .uploadEnd =>
    match s.phase with
    | .uploading c off _ => if off = c.bytes.length then some { s with phase := .polling c 0 none } else none
    | _ => none
  | .uploadFails =>
    match s.phase with
    | .uploading _ _ out => some { s with phase := .done (.error (.writeFailed out)) }
    | _ => none
  | .pollGeneration ok =>
    match s.phase with
    | .polling c attempts none =>
      let generation := if ok then toIntOrNull s.storage.storeGeneration.toNat else none
      some { s with phase := .polling c attempts (some generation) }
    | _ => none
  | .pollCount ok error =>
    match s.phase with
    | .polling c attempts (some generation) =>
      let count := if ok then toIntOrNull (countCredentials s.storage.store) else none
      if generation.any (c.generationBefore < ·) && count == some (c.expected : Int) then
        some { s with phase := .done (.ok ()) }
      else if attempts + 1 < restoreAttempts then some { s with phase := .polling c (attempts + 1) none }
      else some { s with phase := .done (.error (.notAdopted error)) }
    | _ => none

end

/-- An edit is begun. -/
def init (storage : Storage) : Editing where
  storage := storage
  phase := .reading .file []
  adopted := none

end Editing

end AbkFido
