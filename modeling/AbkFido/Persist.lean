/-
The store's life in the driver: loading it on first use, saving it after a
change, restoring it on request, and the `store_blob` node.

`Storage` is the part of `struct abk_fido_device` these functions work on,
together with the file at `ABK_FIDO_STORE_PATH`. What the file system, the
allocator and the random generator answer is an argument, so every function
here is a total function of the state it starts from.
-/
import AbkFido.Store

namespace AbkFido

open Layout

/-- What the driver is built on: whether it persists at all, the timer
frequency, and the digest. -/
structure Platform where
  persistEnabled : Bool
  hz : Nat
  sha256 : List UInt8 → List UInt8
  hz_le : hz ≤ 1000

/-- A usual clock. -/
theorem hz_usual : 250 ≤ 1000 := by decide

/-! ## The file -/

/-- A file: `none` when there is none at the path. -/
abbrev File := Option (List UInt8)

/-- How one read of the store file goes. -/
inductive ReadIo
  | openError (e : Errno)
  | allocError
  | readError (e : Errno)
  /-- The read returns at most `n` bytes. -/
  | short (n : Nat)
  | ok

/-- How one write of the store file goes: the open fails, or the file is
truncated, at most `k` bytes reach it and the write returns their number or
an error. -/
inductive WriteIo
  | openError (e : Errno)
  | stored (k : Nat) (err : Option Errno)

/-- What the loader makes of the bytes it read, and whether they were a
version 1 blob. -/
def loadRead (read : List UInt8) : Except Errno (Store × Bool) :=
  if read.length = storeDiskV1Size then (storeFromDiskV1Into read).map (·, true)
  else if read.length = storeDiskSize then (storeFromDiskInto read).map (·, false)
  else .error .eio

def readStoreFromPathLocked (io : ReadIo) (file : File) : Except Errno (Store × Bool) :=
  match io, file with
  | .openError e, _ => .error e
  | _, none => .error .enoent
  | .allocError, some _ => .error .enomem
  | .readError e, some _ => .error e
  | .short n, some blob => loadRead ((blob.take storeDiskSize).take n)
  | .ok, some blob => loadRead (blob.take storeDiskSize)

def writeStoreToPathLocked (io : WriteIo) (disk : List UInt8) (file : File) : Except Errno Unit × File :=
  match io with
  | .openError e => (.error e, file)
  | .stored k (some e) => (.error e, some (disk.take k))
  | .stored k none => (if disk.length ≤ k then .ok () else .error .eio, some (disk.take k))

/-- The blob a file holds, as far as the loader accepts it. -/
def File.store? (file : File) : Option Store :=
  match readStoreFromPathLocked .ok file with
  | .ok (s, _) => some s
  | .error _ => none

/-! ## The driver's state -/

structure Storage where
  store : Store
  storeLoaded : Bool
  storeDirty : Bool
  storeGeneration : UInt32
  /-- `store_blob_staging` and `store_blob_staging_len` -/
  staging : Option (List UInt8 × Nat)
  file : File

/-- `abk_fido_core_init`: nothing is loaded yet. -/
def Storage.boot (file : File) : Storage where
  store := { Store.zero with pinRetries := pinRetriesDefault }
  storeLoaded := false
  storeDirty := false
  storeGeneration := 0
  staging := none
  file := file

/-- The random bytes of a fresh store. -/
structure FreshIds where
  aaguid : Bytes 16
  pinToken : Bytes 32

/-- Legacy stores may carry client PIN state; it is dropped, which makes the
store dirty again. -/
def finalizeRestoredStoreLocked (s : Storage) : Storage :=
  if s.store.pinSet then
    { s with
      store := { s.store with pinSet := false, pinHash := zeros 16, pinRetries := pinRetriesDefault }
      storeDirty := true }
  else { s with storeDirty := false }

def initNewStoreLocked (ids : FreshIds) (s : Storage) : Storage :=
  { s with
    store := { Store.zero with aaguid := ids.aaguid, pinToken := ids.pinToken, pinRetries := pinRetriesDefault }
    storeDirty := true }

section
variable (P : Platform)

/-- The first use of the store loads it; whatever goes wrong there, the
driver goes on with a new one. The C function has no failing return. -/
def loadStoreLocked (io : ReadIo) (ids : FreshIds) (s : Storage) : Storage :=
  if s.storeLoaded then s
  else if !P.persistEnabled then initNewStoreLocked ids { s with storeLoaded := true }
  else match readStoreFromPathLocked io s.file with
    | .ok (st, v1) =>
      -- The reader marks a version 1 store dirty; finalizing clears the flag.
      let s := finalizeRestoredStoreLocked { s with store := st, storeDirty := s.storeDirty || v1 }
      { s with storeLoaded := true, storeGeneration := s.storeGeneration + 1 }
    | .error _ =>
      let s := initNewStoreLocked ids { s with storeLoaded := true }
      { s with storeGeneration := s.storeGeneration + 1 }

/-- `none`: the blob could not be allocated. The C function returns 0
whether or not the store reached the file. -/
def maybePersistLocked (io : Option WriteIo) (s : Storage) : Storage :=
  if !s.storeDirty then s
  else if !P.persistEnabled then { s with storeDirty := false }
  else match io with
    | none => { s with storeGeneration := s.storeGeneration + 1 }
    | some io =>
      match writeStoreToPathLocked io (storeToDisk s.store) s.file with
      | (.ok _, file) => { s with file := file, storeDirty := false, storeGeneration := s.storeGeneration + 1 }
      | (.error _, file) => { s with file := file, storeGeneration := s.storeGeneration + 1 }

end

/-- `abk_fido_reload_store_locked` is this function under another name. -/
def restorePersistedStoreLocked (allocOk : Bool) (io : ReadIo) (s : Storage) : Except Errno Unit × Storage :=
  if !allocOk then (.error .enomem, s)
  else match readStoreFromPathLocked io s.file with
    | .ok (st, v1) =>
      let s := finalizeRestoredStoreLocked { s with store := st, storeLoaded := true, storeDirty := s.storeDirty || v1 }
      (.ok (), { s with storeGeneration := s.storeGeneration + 1 })
    | .error e => (.error e, s)

/-- A write of `buf` to the `store_blob` node at `off`; the store is adopted
when the last byte of a version 2 blob has arrived. -/
def storeBlobWrite (off : Nat) (buf : List UInt8) (allocOk : Bool) (s : Storage) : Except Errno Nat × Storage :=
  if storeDiskSize ≤ off ∨ storeDiskSize - off < buf.length then (.error .einval, s)
  else
    let staging := s.staging <|> if allocOk then some (List.replicate storeDiskSize 0, 0) else none
    match staging with
    | none => (.error .enomem, s)
    | some (data, len) =>
      let data := splice data off buf
      let len := max len (off + buf.length)
      if len = storeDiskV1Size then
        -- Honoring a version 1 write from an old companion would wipe the store.
        (.error .einval, { s with staging := none })
      else if len = storeDiskSize then
        match storeFromDiskInto data with
        | .ok st =>
          let s := { s with store := st, storeLoaded := true, storeGeneration := s.storeGeneration + 1 }
          (.ok buf.length, { finalizeRestoredStoreLocked s with staging := none })
        | .error e => (.error e, { s with staging := none })
      else (.ok buf.length, { s with staging := some (data, len) })

/-! ## What the commands do to the store -/

/-- `abk_fido_alloc_credential_locked`: the lowest slot that is not in use. -/
def allocCredentialLocked (st : Store) : Option (Fin maxCreds) :=
  (List.finRange maxCreds).find? fun i => !(st.creds i).inUse

/-- A slot overwritten: with a new credential, or with zeros to undo it. -/
def Storage.setCred (i : Fin maxCreds) (c : Credential) (s : Storage) : Storage :=
  { s with store := { s.store with creds := Function.update s.store.creds i c } }

/-- `++abk_fido_dev.store.sign_count` -/
def Storage.bumpSignCount (s : Storage) : Storage :=
  { s with store := { s.store with signCount := s.store.signCount + 1 } }

def Storage.markDirty (s : Storage) : Storage := { s with storeDirty := true }

/-- The wipe of `authenticatorReset`, before it is persisted. -/
def Storage.wipe (ids : FreshIds) (s : Storage) : Storage := initNewStoreLocked ids s

/-- The control command `pin_reset`, before it is persisted. -/
def Storage.pinReset (s : Storage) : Storage :=
  { s with
    store := { s.store with pinSet := false, pinHash := zeros 16, pinRetries := pinRetriesDefault }
    storeDirty := true }

end AbkFido
