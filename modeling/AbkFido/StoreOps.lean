/-
The life of the store as a sequence of operations: whatever the driver does
to its store and its file is one of these, one after another.

The operations a command makes on the way (`Ordinary`) leave the slots in
use alone: a new credential only ever takes a free one.
-/
import AbkFido.Persist

namespace AbkFido

inductive StoreOp
  | load (io : ReadIo) (ids : FreshIds)
  /-- The lowest free slot is overwritten. -/
  | mint (c : Credential)
  | bump
  | dirty
  | wipe (ids : FreshIds)
  | persist (io : Option WriteIo)
  | restore (allocOk : Bool) (io : ReadIo)
  | blobWrite (off : Nat) (buf : List UInt8) (allocOk : Bool)
  | pinReset

namespace StoreOp

section
variable (P : Platform)

def apply (s : Storage) : StoreOp → Storage
  | .load io ids => loadStoreLocked P io ids s
  | .mint c =>
    match allocCredentialLocked s.store with
    | none => s
    | some i => s.setCred i c
  | .bump => s.bumpSignCount
  | .dirty => s.markDirty
  | .wipe ids => s.wipe ids
  | .persist io => maybePersistLocked P io s
  | .restore allocOk io => (restorePersistedStoreLocked allocOk io s).2
  | .blobWrite off buf allocOk => (storeBlobWrite off buf allocOk s).2
  | .pinReset => s.pinReset

def applyAll (s : Storage) (ops : List StoreOp) : Storage := ops.foldl (apply P) s

end

variable {P : Platform}

/-- What a command does to the store once it is approved, RESET apart. -/
def Ordinary : StoreOp → Prop
  | .mint _ | .bump | .dirty | .persist _ => True
  | _ => False

/-- A free slot is not in use. -/
theorem alloc_not_inUse {st : Store} {i : Fin maxCreds} (h : allocCredentialLocked st = some i) :
    (st.creds i).inUse = false := by
  simpa using List.find?_some h

@[simp] theorem maybePersist_store (io : Option WriteIo) (s : Storage) : (maybePersistLocked P io s).store = s.store := by
  simp only [maybePersistLocked]
  split
  · rfl
  split
  · rfl
  split
  · rfl
  split <;> rfl

@[simp] theorem maybePersist_storeLoaded (io : Option WriteIo) (s : Storage) :
    (maybePersistLocked P io s).storeLoaded = s.storeLoaded := by
  simp only [maybePersistLocked]
  split
  · rfl
  split
  · rfl
  split
  · rfl
  split <;> rfl

/-- A load leaves a store loaded, and a loaded store alone. -/
theorem load_storeLoaded (io : ReadIo) (ids : FreshIds) (s : Storage) :
    (loadStoreLocked P io ids s).storeLoaded = true := by
  simp only [loadStoreLocked]
  split
  · assumption
  split
  · rfl
  split <;> rfl

theorem load_of_loaded {s : Storage} (h : s.storeLoaded = true) (io : ReadIo) (ids : FreshIds) :
    loadStoreLocked P io ids s = s := by
  rw [loadStoreLocked, if_pos h]

theorem finalize_storeLoaded (s : Storage) : (finalizeRestoredStoreLocked s).storeLoaded = s.storeLoaded := by
  simp only [finalizeRestoredStoreLocked]
  split <;> rfl

/-- A loaded store stays loaded when another takes its place. -/
theorem restore_storeLoaded (allocOk : Bool) (io : ReadIo) (s : Storage) (h : s.storeLoaded = true) :
    (restorePersistedStoreLocked allocOk io s).2.storeLoaded = true := by
  simp only [restorePersistedStoreLocked]
  split
  · exact h
  split
  · exact finalize_storeLoaded _
  · exact h

theorem blobWrite_storeLoaded (off : Nat) (buf : List UInt8) (allocOk : Bool) (s : Storage) (h : s.storeLoaded = true) :
    (storeBlobWrite off buf allocOk s).2.storeLoaded = true := by
  simp only [storeBlobWrite]
  split
  · exact h
  split
  · exact h
  split
  · exact h
  split
  · split
    · exact finalize_storeLoaded _
    · exact h
  · exact h

/-- The slots in use stay as they are, and a loaded store stays loaded. -/
structure KeepsUsed (s s' : Storage) : Prop where
  creds : ∀ i, (s.store.creds i).inUse = true → s'.store.creds i = s.store.creds i
  storeLoaded : s'.storeLoaded = s.storeLoaded

theorem KeepsUsed.refl (s : Storage) : KeepsUsed s s := ⟨fun _ _ => rfl, rfl⟩

theorem KeepsUsed.trans {s s' s'' : Storage} (h : KeepsUsed s s') (h' : KeepsUsed s' s'') : KeepsUsed s s'' where
  creds i hi := by
    have heq := h.creds i hi
    rw [h'.creds i (by rw [heq]; exact hi), heq]
  storeLoaded := h'.storeLoaded.trans h.storeLoaded

theorem Ordinary.keepsUsed {op : StoreOp} (h : op.Ordinary) (s : Storage) : KeepsUsed s (op.apply P s) := by
  cases op with
  | load | wipe | restore | blobWrite | pinReset => exact h.elim
  | bump | dirty => exact ⟨fun _ _ => rfl, rfl⟩
  | persist io => exact ⟨fun i _ => by simp [apply], by simp [apply]⟩
  | mint c =>
    simp only [apply]
    split
    · exact .refl s
    · next i hi =>
      refine ⟨fun j hj => Function.update_of_ne ?_ .., rfl⟩
      rintro rfl
      rw [alloc_not_inUse hi] at hj
      cases hj

theorem keepsUsed_applyAll {ops : List StoreOp} (h : ∀ op ∈ ops, op.Ordinary) (s : Storage) :
    KeepsUsed s (applyAll P s ops) := by
  induction ops generalizing s with
  | nil => exact .refl s
  | cons op ops ih =>
    exact ((h op (by simp)).keepsUsed s).trans (ih (fun op' hop' => h op' (by simp [hop'])) _)

end StoreOp

/-! ## A store with one credential -/

/-- A build that persists. -/
def Platform.persistent : Platform where
  persistEnabled := true
  hz := 250
  sha256 := id
  hz_le := hz_usual

/-- A credential in use, told apart by the bytes of its id. -/
def keyOf (n : UInt8) : Credential := { Credential.zero with inUse := true, credId := .replicate 32 n }

/-- Such a key with the names that a request gives it. -/
def namedKey (n : UInt8) : Credential :=
  { keyOf n with
    resident := true
    userId := .replicate 64 n
    userIdLen := 64
    rpId := .strscpy 128 [0x61, 0x2e, 0x69, 0x6f]
    userName := .strscpy 64 [0x61, 0x6e, 0x6e]
    userDisplay := .strscpy 64 [0x41, 0x6e, 0x6e]
    privKey := .replicate 32 n
    pubKey := .replicate 64 n
    hmacSecret := .replicate 32 n
    userIdLen_le := by decide }

def firstSlot : Fin maxCreds := ⟨0, maxCreds_pos⟩

def keyStore : Store := { Store.zero with creds := Function.update Store.zero.creds firstSlot (keyOf 1) }

end AbkFido
