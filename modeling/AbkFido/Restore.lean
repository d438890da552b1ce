/-
Restoring a store as the code does it, through pointers.

`abk_fido_store_from_disk_into` fills the store it is given a pointer to: a
copy where a restore reads the file, the live store where the last byte of an
upload has come. The functions here carry that store along and write into it
where the code does. They come to the same as the ones that return the store
they decode (`restore_eq`, `blobWrite_eq`), and whatever goes wrong leaves
the live store as it was (`restoring_atomic`).
-/
import AbkFido.Upload

namespace AbkFido

open Layout

/-- What one read of the store file brings. -/
def readFile (io : ReadIo) (file : File) : Except Errno (List UInt8) :=
  match io, file with
  | .openError e, _ => .error e
  | _, none => .error .enoent
  | .allocError, some _ => .error .enomem
  | .readError e, some _ => .error e
  | .short n, some blob => .ok ((blob.take storeDiskSize).take n)
  | .ok, some blob => .ok (blob.take storeDiskSize)

namespace InPlace

/-- `abk_fido_store_from_disk_into` and `abk_fido_store_from_disk_v1_into`:
the result, and what the pointer leads to afterwards. -/
def storeFromDisk {κ : Type} (slot : Codec κ) (load : κ → Credential) (version : UInt32) (blob : List UInt8)
    (store : Store) : Except Errno Unit × Store :=
  let disk := (storeDiskCodec slot).dec blob
  if disk.magic ≠ storeMagic then (.error .einval, store)
  else if disk.version ≠ version then (.error .einval, store)
  else if storeCrc32Range blob ≠ disk.crc32 ∧ legacyCrc32Range blob ≠ disk.crc32 then (.error .eilseq, store)
  else
    let store := Store.zero
    let store := { store with signCount := disk.signCount }
    let store := { store with aaguid := disk.aaguid }
    let store := { store with pinSet := disk.pinSet != 0 }
    let store := { store with pinRetries := disk.pinRetries }
    let store := { store with pinHash := disk.pinHash }
    let store := { store with pinToken := disk.pinToken }
    (.ok (), (List.finRange maxCreds).foldl
      (fun store i => { store with creds := Function.update store.creds i (load (disk.creds i)) }) store)

/-- `abk_fido_read_store_from_path_locked`: besides the store it fills it may set `store_dirty`. -/
def readStoreFromPathLocked (io : ReadIo) (s : Storage) (store : Store) : Except Errno Unit × Storage × Store :=
  match readFile io s.file with
  | .error e => (.error e, s, store)
  | .ok read =>
    if read.length ≠ storeDiskSize ∧ read.length ≠ storeDiskV1Size then (.error .eio, s, store)
    else if read.length = storeDiskV1Size then
      match storeFromDisk diskCredV1Codec DiskCredV1.load storeVersionLegacy read store with
      | (.ok (), store) => (.ok (), { s with storeDirty := true }, store)
      | (.error e, store) => (.error e, s, store)
    else
      let (r, store) := storeFromDisk diskCredCodec DiskCred.load storeVersion read store
      (r, s, store)

def restorePersistedStoreLocked (allocOk : Bool) (io : ReadIo) (s : Storage) : Except Errno Unit × Storage :=
  if !allocOk then (.error .enomem, s)
  else match readStoreFromPathLocked io s .zero with
    | (.ok (), s, newStore) =>
      let s := finalizeRestoredStoreLocked { s with store := newStore, storeLoaded := true }
      (.ok (), { s with storeGeneration := s.storeGeneration + 1 })
    | (.error e, s, _) => (.error e, s)

def storeBlobWrite (off : Nat) (buf : List UInt8) (allocOk : Bool) (s : Storage) : Except Errno Nat × Storage :=
  if storeDiskSize ≤ off ∨ storeDiskSize - off < buf.length then (.error .einval, s)
  else match s.buffer allocOk with
    | none => (.error .enomem, s)
    | some (data, len) =>
      let data := splice data off buf
      let len := max len (off + buf.length)
      if len = storeDiskSize ∨ len = storeDiskV1Size then
        let (ret, s) :=
          if len = storeDiskV1Size then (.error .einval, s)
          else
            let (ret, store) := storeFromDisk diskCredCodec DiskCred.load storeVersion data s.store
            (ret, { s with store := store })
        match ret with
        | .ok () =>
          let s := finalizeRestoredStoreLocked { s with storeLoaded := true, storeGeneration := s.storeGeneration + 1 }
          (.ok buf.length, { s with staging := none })
        | .error e => (.error e, { s with staging := none })
      else (.ok buf.length, { s with staging := some (data, len) })

end InPlace

/-! ## The same in place -/

section
variable {io : ReadIo} {file : File} {s : Storage} {off : Nat} {buf : List UInt8} {allocOk : Bool}

/-- Slots written one after another. -/
theorem foldl_creds (f : Fin maxCreds → Credential) : ∀ (slots : List (Fin maxCreds)) (store : Store),
    slots.foldl (fun store i => { store with creds := Function.update store.creds i (f i) }) store =
      { store with creds := fun i => if i ∈ slots then f i else store.creds i }
  | [], store => rfl
  | slot :: slots, store => by
    rw [List.foldl_cons, foldl_creds f slots]
    congr 1
    funext i
    by_cases hmem : i ∈ slots
    · simp [hmem]
    · by_cases hi : i = slot
      · simp [hi]
      · simp [hmem, hi]

/-- The store is written only after all that can fail. -/
theorem storeFromDisk_inPlace {κ : Type} (slot : Codec κ) (load : κ → Credential) (version : UInt32) (blob : List UInt8)
    (store : Store) :
    InPlace.storeFromDisk slot load version blob store =
      match storeFromDisk slot load version blob with
      | .ok st => (.ok (), st)
      | .error e => (.error e, store) := by
  unfold InPlace.storeFromDisk storeFromDisk
  dsimp only
  split
  · rfl
  split
  · rfl
  split
  · rfl
  · rw [foldl_creds]
    simp only [List.mem_finRange, if_true]

theorem readStoreFromPath_eq : readStoreFromPathLocked io file = readFile io file >>= loadRead := by
  cases io <;> cases file <;> rfl

/-- Reading into a store that is not the live one. -/
theorem readInPlace_eq (store : Store) :
    InPlace.readStoreFromPathLocked io s store =
      match readStoreFromPathLocked io s.file with
      | .ok (st, v1) => (.ok (), { s with storeDirty := s.storeDirty || v1 }, st)
      | .error e => (.error e, s, store) := by
  unfold InPlace.readStoreFromPathLocked
  rw [readStoreFromPath_eq]
  cases readFile io s.file with
  | error e => rfl
  | ok read =>
    have hbind : (Except.ok read >>= loadRead : Except Errno (Store × Bool)) = loadRead read := rfl
    rw [hbind, loadRead]
    by_cases hv1 : read.length = storeDiskV1Size
    · have hv2 : ¬ (read.length ≠ storeDiskSize ∧ read.length ≠ storeDiskV1Size) := fun h => h.2 hv1
      dsimp only
      rw [if_neg hv2, if_pos hv1, if_pos hv1, storeFromDisk_inPlace, storeFromDiskV1Into]
      cases storeFromDisk diskCredV1Codec DiskCredV1.load storeVersionLegacy read with
      | error e => rfl
      | ok st => simp [Except.map]
    · dsimp only
      rw [if_neg hv1, if_neg hv1]
      by_cases hv2 : read.length = storeDiskSize
      · rw [if_neg fun h => h.1 hv2, if_pos hv2, storeFromDisk_inPlace, storeFromDiskInto]
        cases storeFromDisk diskCredCodec DiskCred.load storeVersion read with
        | error e => rfl
        | ok st => simp [Except.map]
      · rw [if_pos ⟨hv2, hv1⟩, if_neg hv2]

theorem restore_eq : InPlace.restorePersistedStoreLocked allocOk io s = restorePersistedStoreLocked allocOk io s := by
  unfold InPlace.restorePersistedStoreLocked restorePersistedStoreLocked
  rw [readInPlace_eq]
  split
  · rfl
  · cases readStoreFromPathLocked io s.file with
    | error e => rfl
    | ok r => rfl

theorem blobWrite_eq : InPlace.storeBlobWrite off buf allocOk s = storeBlobWrite off buf allocOk s := by
  unfold InPlace.storeBlobWrite
  split
  · next hrange =>
    unfold storeBlobWrite
    rw [if_pos hrange]
  next hrange =>
  have hoff : off < storeDiskSize := by omega
  have hfits : off + buf.length ≤ storeDiskSize := by omega
  cases hbuffer : s.buffer allocOk with
  | none => exact (blobWrite_noBuffer hbuffer hoff hfits).symm
  | some p =>
    rw [blobWrite_buffer hbuffer hoff hfits]
    dsimp only
    by_cases hv1 : max p.2 (off + buf.length) = storeDiskV1Size
    · rw [if_pos (.inr hv1), if_pos hv1, if_pos hv1]
    · rw [if_neg hv1, if_neg hv1]
      by_cases hv2 : max p.2 (off + buf.length) = storeDiskSize
      · rw [if_pos (.inl hv2), if_pos hv2, storeFromDisk_inPlace, storeFromDiskInto]
        cases storeFromDisk diskCredCodec DiskCred.load storeVersion (splice p.1 off buf) with
        | error e => rfl
        | ok st => rfl
      · rw [if_neg (not_or.mpr ⟨hv2, hv1⟩), if_neg hv2]

end

/-! ## Atomicity -/

/-- What a failing call leaves alone. -/
structure SameStore (s s' : Storage) : Prop where
  store : s'.store = s.store
  storeLoaded : s'.storeLoaded = s.storeLoaded
  storeDirty : s'.storeDirty = s.storeDirty
  storeGeneration : s'.storeGeneration = s.storeGeneration

/-- What a successful one leaves, from the store it decoded. -/
structure Restored (st : Store) (s s' : Storage) : Prop where
  store : s'.store = st.dropPin
  storeLoaded : s'.storeLoaded = true
  storeDirty : s'.storeDirty = st.pinSet
  storeGeneration : s'.storeGeneration = s.storeGeneration + 1

/-- The write brings what is staged to the length of a blob of either version. -/
def Completes (off : Nat) (buf : List UInt8) (s : Storage) : Prop :=
  max s.stagedLen (off + buf.length) = storeDiskSize ∨ max s.stagedLen (off + buf.length) = storeDiskV1Size

theorem finalize_storeDirty (s : Storage) : (finalizeRestoredStoreLocked s).storeDirty = s.store.pinSet := by
  unfold finalizeRestoredStoreLocked
  split
  · next hpin => exact hpin.symm
  · next hpin => exact (Bool.eq_false_iff.mpr hpin).symm

theorem storeGeneration_finalize (s : Storage) : (finalizeRestoredStoreLocked s).storeGeneration = s.storeGeneration := by
  unfold finalizeRestoredStoreLocked
  split <;> rfl

theorem restored_adopt (st : Store) (s : Storage) : Restored st s (s.adopt st) where
  store := finalize_store _
  storeLoaded := StoreOp.finalize_storeLoaded _
  storeDirty := finalize_storeDirty _
  storeGeneration := storeGeneration_finalize _

theorem restore_atomic (allocOk : Bool) (io : ReadIo) (s : Storage) :
    (∃ e, (restorePersistedStoreLocked allocOk io s).1 = .error e ∧
      SameStore s (restorePersistedStoreLocked allocOk io s).2) ∨
    ((restorePersistedStoreLocked allocOk io s).1 = .ok () ∧
      ∃ read st v1, readFile io s.file = .ok read ∧ loadRead read = .ok (st, v1) ∧
        Restored st s (restorePersistedStoreLocked allocOk io s).2) := by
  unfold restorePersistedStoreLocked
  split
  · exact .inl ⟨_, rfl, rfl, rfl, rfl, rfl⟩
  rw [readStoreFromPath_eq]
  cases readFile io s.file with
  | error e => exact .inl ⟨_, rfl, rfl, rfl, rfl, rfl⟩
  | ok read =>
    have hbind : (Except.ok read >>= loadRead : Except Errno (Store × Bool)) = loadRead read := rfl
    rw [hbind]
    cases hload : loadRead read with
    | error e => exact .inl ⟨_, rfl, rfl, rfl, rfl, rfl⟩
    | ok r =>
      refine .inr ⟨rfl, read, r.1, r.2, rfl, hload, finalize_store _, StoreOp.finalize_storeLoaded _, finalize_storeDirty _, ?_⟩
      exact congrArg (· + 1) (storeGeneration_finalize _)

theorem blobWrite_atomic (off : Nat) (buf : List UInt8) (allocOk : Bool) (s : Storage) :
    (∃ e, (storeBlobWrite off buf allocOk s).1 = .error e ∧ SameStore s (storeBlobWrite off buf allocOk s).2) ∨
    ((storeBlobWrite off buf allocOk s).1 = .ok buf.length ∧
      (¬ Completes off buf s ∧ SameStore s (storeBlobWrite off buf allocOk s).2 ∨
        Completes off buf s ∧ ∃ data st, s.buffer allocOk = some (data, s.stagedLen) ∧
          storeFromDiskInto (splice data off buf) = .ok st ∧ Restored st s (storeBlobWrite off buf allocOk s).2)) := by
  by_cases hrange : storeDiskSize ≤ off ∨ storeDiskSize - off < buf.length
  · rw [storeBlobWrite, if_pos hrange]
    exact .inl ⟨_, rfl, rfl, rfl, rfl, rfl⟩
  have hoff : off < storeDiskSize := by omega
  have hfits : off + buf.length ≤ storeDiskSize := by omega
  cases hbuffer : s.buffer allocOk with
  | none =>
    rw [blobWrite_noBuffer hbuffer hoff hfits]
    exact .inl ⟨_, rfl, rfl, rfl, rfl, rfl⟩
  | some p =>
    have hlen := Storage.buffer_len hbuffer
    rw [blobWrite_buffer hbuffer hoff hfits, hlen]
    by_cases hv1 : max s.stagedLen (off + buf.length) = storeDiskV1Size
    · rw [if_pos hv1]
      exact .inl ⟨_, rfl, rfl, rfl, rfl, rfl⟩
    rw [if_neg hv1]
    by_cases hv2 : max s.stagedLen (off + buf.length) = storeDiskSize
    · rw [if_pos hv2]
      cases hst : storeFromDiskInto (splice p.1 off buf) with
      | error e => exact .inl ⟨_, rfl, rfl, rfl, rfl, rfl⟩
      | ok st => exact .inr ⟨rfl, .inr ⟨.inl hv2, p.1, st, congrArg some (Prod.ext rfl hlen), hst, restored_adopt st s⟩⟩
    · rw [if_neg hv2]
      exact .inr ⟨rfl, .inl ⟨not_or.mpr ⟨hv2, hv1⟩, rfl, rfl, rfl, rfl⟩⟩

/-- **Restoring is atomic**, from the file and from an upload: it fails and
changes nothing, or what was read or staged decodes, and becomes the store. -/
theorem restoring_atomic :
    (∀ allocOk io s,
      (∃ e, (InPlace.restorePersistedStoreLocked allocOk io s).1 = .error e ∧
        SameStore s (InPlace.restorePersistedStoreLocked allocOk io s).2) ∨
      ((InPlace.restorePersistedStoreLocked allocOk io s).1 = .ok () ∧
        ∃ read st v1, readFile io s.file = .ok read ∧ loadRead read = .ok (st, v1) ∧
          Restored st s (InPlace.restorePersistedStoreLocked allocOk io s).2)) ∧
    ∀ off buf allocOk s,
      (∃ e, (InPlace.storeBlobWrite off buf allocOk s).1 = .error e ∧
        SameStore s (InPlace.storeBlobWrite off buf allocOk s).2) ∨
      ((InPlace.storeBlobWrite off buf allocOk s).1 = .ok buf.length ∧
        (¬ Completes off buf s ∧ SameStore s (InPlace.storeBlobWrite off buf allocOk s).2 ∨
          Completes off buf s ∧ ∃ data st, s.buffer allocOk = some (data, s.stagedLen) ∧
            storeFromDiskInto (splice data off buf) = .ok st ∧
            Restored st s (InPlace.storeBlobWrite off buf allocOk s).2)) := by
  refine ⟨fun allocOk io s => ?_, fun off buf allocOk s => ?_⟩
  · rw [restore_eq]
    exact restore_atomic allocOk io s
  · rw [blobWrite_eq]
    exact blobWrite_atomic off buf allocOk s

end AbkFido
