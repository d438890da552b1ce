/-
The store's life, one holder of the device lock after another.

A `StoreStep` is what happens to the store from taking the lock to letting
it go: a first use, a command that is carried out or fails on the way, a
control command. `StoreStep.marks` is what a theorem about credentials has to
know of it: which were made, which signed under what counter, and where the
store was wiped. Every step of a device is such steps of its store, with the
same signatures and wipes (`Device.Follows.of_step`).
-/
import AbkFido.Survive

namespace AbkFido

inductive StoreStep
  /-- The driver starts, on the file that is there. -/
  | boot
  | load (io : ReadIo) (ids : FreshIds)
  /-- A credential is made, and the store saved. -/
  | make (c : Credential) (io : Option WriteIo)
  /-- A credential is not finished: its slot is cleared again. -/
  | unmake
  /-- An assertion is answered, and the store saved. -/
  | answer (slot : Fin maxCreds) (io : Option WriteIo)
  /-- An assertion fails after the counter went up, before or after it was signed. -/
  | fail (slot : Fin maxCreds) (signed : Bool)
  | reset (ids : FreshIds) (io : Option WriteIo)
  | persist (io : Option WriteIo)
  | restore (allocOk : Bool) (io : ReadIo)
  | blobWrite (off : Nat) (buf : List UInt8) (allocOk : Bool)
  | pinReset (io : Option WriteIo)

/-- What happened to a credential, which is told apart by its bytes. -/
inductive Mark
  | made (c : Credential)
  | signed (c : Credential) (signCount : UInt32)
  | wiped
  deriving DecidableEq

/-- The signature made with a slot, if a credential is in it: the counter has
gone up by then. -/
def Storage.signature (slot : Fin maxCreds) (s : Storage) : List Mark :=
  if (s.store.creds slot).inUse then [.signed (s.store.creds slot).trim (s.store.signCount + 1)] else []

namespace StoreStep

/-- A store that comes from userspace. -/
def fromUser : StoreStep → Bool
  | .blobWrite .. => true
  | _ => false

section
variable (P : Platform)

def apply (s : Storage) : StoreStep → Storage
  | .boot => .boot s.file
  | .load io ids => loadStoreLocked P io ids s
  | .make c io =>
    match allocCredentialLocked s.store with
    | none => s
    | some i => maybePersistLocked P io (s.setCred i c).markDirty
  | .unmake => StoreOp.apply P s (.mint .zero)
  | .answer _ io => maybePersistLocked P io s.bumpSignCount.markDirty
  | .fail _ _ => s.bumpSignCount
  | .reset ids io => maybePersistLocked P io (s.wipe ids)
  | .persist io => maybePersistLocked P io s
  | .restore allocOk io => (restorePersistedStoreLocked allocOk io s).2
  | .blobWrite off buf allocOk => (storeBlobWrite off buf allocOk s).2
  | .pinReset io => maybePersistLocked P io s.pinReset

/-- The store a step takes from the file. -/
def readsBack (s : Storage) : StoreStep → Option (Store × Bool)
  | .load io _ => if s.storeLoaded || !P.persistEnabled then none else (readStoreFromPathLocked io s.file).toOption
  | .restore allocOk io => if allocOk then (readStoreFromPathLocked io s.file).toOption else none
  | _ => none

/-- What a step ends by saving, and how its write goes. -/
def saving (s : Storage) : StoreStep → Option (Storage × Option WriteIo)
  | .make c io => (allocCredentialLocked s.store).map fun i => ((s.setCred i c).markDirty, io)
  | .answer _ io => some (s.bumpSignCount.markDirty, io)
  | .reset ids io => some (s.wipe ids, io)
  | .persist io => some (s, io)
  | .pinReset io => some (s.pinReset, io)
  | _ => none

/-- An assertion puts the counter up, whether it is answered or fails. -/
def counts : StoreStep → Bool
  | .answer .. | .fail .. => true
  | _ => false

/-- In the order they happen. -/
def marks (s : Storage) : StoreStep → List Mark
  | .make c _ =>
    match allocCredentialLocked s.store with
    | none => []
    | some _ => [.made c.trim]
  | .answer slot _ | .fail slot true => s.signature slot
  | .reset .. => [.wiped]
  | _ => []

def applyAll (s : Storage) (steps : List StoreStep) : Storage := steps.foldl (apply P) s

def marksAll (s : Storage) : List StoreStep → List Mark
  | [] => []
  | a :: steps => a.marks s ++ marksAll (a.apply P s) steps

end

end StoreStep

variable {P : Platform}

/-- The file is opened for writing, and so truncated. -/
def Storage.opens (P : Platform) (io : Option WriteIo) (s : Storage) : Bool :=
  s.storeDirty && P.persistEnabled && match io with
    | some (.stored ..) => true
    | _ => false

/-- What a save leaves on file: what was there, or the blob as far as it got. -/
theorem persist_file_opens (io : Option WriteIo) (s : Storage) :
    (s.opens P io = false ∧ (maybePersistLocked P io s).file = s.file) ∨
    (s.opens P io = true ∧ ∃ k, (maybePersistLocked P io s).file = some ((storeToDisk s.store).take k)) := by
  by_cases hd : s.storeDirty = true
  · by_cases hP : P.persistEnabled = true
    · cases io with
      | none => exact .inl ⟨by simp [Storage.opens], by simp [maybePersistLocked, hd, hP]⟩
      | some io =>
        have hfile := persist_file hd hP io
        cases io with
        | openError e => exact .inl ⟨by simp [Storage.opens], hfile⟩
        | stored k err =>
          rw [write_stored_file] at hfile
          exact .inr ⟨by simp [Storage.opens, hd, hP], k, hfile⟩
    · exact .inl ⟨by simp [Storage.opens, hP], by simp [maybePersistLocked, hd, hP]⟩
  · exact .inl ⟨by simp [Storage.opens, hd], by simp [maybePersistLocked, hd]⟩

/-- What is read of a saved blob, however much of it is there, is its store. -/
theorem read_saved {io : ReadIo} {st : Store} {k : Nat} {r : Store × Bool}
    (h : readStoreFromPathLocked io (some ((storeToDisk st).take k)) = .ok r) : r.1 = st.trim := by
  by_cases hk : k < storeDiskSize
  · exact absurd h (read_truncated io st hk r)
  · rw [List.take_of_length_le (by rw [length_storeToDisk]; omega)] at h
    exact read_ok_of_store? (store?_storeToDisk st) h

theorem read_saved_whole (st : Store) :
    readStoreFromPathLocked .ok (some (storeToDisk st)) = .ok (st.trim, false) := by
  rw [readStoreFromPathLocked, List.take_of_length_le (length_storeToDisk st).le, loadRead_storeToDisk]

/-- A first use of a saved store. -/
theorem load_saved (hP : P.persistEnabled = true) (ids : FreshIds) {st : Store} (hpin : st.pinSet = false) :
    loadStoreLocked P .ok ids (.boot (some (storeToDisk st))) =
      { Storage.boot (some (storeToDisk st)) with store := st.trim, storeLoaded := true, storeGeneration := 1 } := by
  have hpin' : st.trim.pinSet = false := hpin
  simp [loadStoreLocked, Storage.boot, hP, read_saved_whole, finalizeRestoredStoreLocked, hpin']

/-- A restore of a saved store. -/
theorem restore_saved {s : Storage} {st : Store} (hfile : s.file = some (storeToDisk st)) (hpin : st.pinSet = false) :
    (restorePersistedStoreLocked true .ok s).2 =
      { s with store := st.trim, storeLoaded := true, storeDirty := false, storeGeneration := s.storeGeneration + 1 } := by
  have hpin' : st.trim.pinSet = false := hpin
  simp [restorePersistedStoreLocked, hfile, read_saved_whole, finalizeRestoredStoreLocked, hpin']

namespace StoreStep

theorem apply_of_saving {s t : Storage} {a : StoreStep} {io : Option WriteIo} (h : a.saving s = some (t, io)) :
    a.apply P s = maybePersistLocked P io t := by
  cases a with
  | make c io' =>
    simp only [saving, Option.map_eq_some_iff] at h
    obtain ⟨i, hi, heq⟩ := h
    cases heq
    simp only [apply, hi]
  | answer | reset | persist | pinReset => cases h; rfl
  | boot | load | unmake | fail | restore | blobWrite => cases h

/-- Up to its save a step leaves the file alone. -/
theorem file_of_saving {s t : Storage} {a : StoreStep} {io : Option WriteIo} (h : a.saving s = some (t, io)) :
    t.file = s.file := by
  cases a with
  | make c io' =>
    simp only [saving, Option.map_eq_some_iff] at h
    obtain ⟨i, _, heq⟩ := h
    cases heq
    rfl
  | answer | reset | persist | pinReset => cases h; rfl
  | boot | load | unmake | fail | restore | blobWrite => cases h

/-- Only a save changes the file. -/
theorem file_of_saving_none {s : Storage} {a : StoreStep} (h : a.saving s = none) : (a.apply P s).file = s.file := by
  cases a with
  | make c io =>
    simp only [saving, Option.map_eq_none_iff] at h
    simp only [apply, h]
  | answer | reset | persist | pinReset => cases h
  | boot | fail => rfl
  | load io ids => exact load_file io ids s
  | restore allocOk io => exact restore_file allocOk io s
  | blobWrite off buf allocOk => exact blobWrite_file off buf allocOk s
  | unmake =>
    simp only [apply, StoreOp.apply]
    split <;> rfl

/-- What can be read after a step: what could be before, or what the store now holds. -/
theorem read_apply {s : Storage} {a : StoreStep} {io : ReadIo} {r : Store × Bool}
    (h : readStoreFromPathLocked io (a.apply P s).file = .ok r) :
    (readStoreFromPathLocked io s.file = .ok r ∧ (a.saving s).any (fun t => t.1.opens P t.2) = false) ∨
      ((a.saving s).any (fun t => t.1.opens P t.2) = true ∧ r.1 = (a.apply P s).store.trim) := by
  cases hsave : a.saving s with
  | none =>
    rw [file_of_saving_none hsave] at h
    exact .inl ⟨h, rfl⟩
  | some t =>
    obtain ⟨t, io'⟩ := t
    have happly : a.apply P s = maybePersistLocked P io' t := apply_of_saving hsave
    rw [happly] at h ⊢
    rw [StoreOp.maybePersist_store, Option.any_some]
    rcases persist_file_opens (P := P) io' t with ⟨hopens, hfile⟩ | ⟨hopens, k, hfile⟩ <;> rw [hfile] at h
    · exact .inl ⟨by rw [← file_of_saving hsave]; exact h, hopens⟩
    · exact .inr ⟨hopens, read_saved h⟩

/-- What is read back was on file. -/
theorem read_of_readsBack {s : Storage} {a : StoreStep} {r : Store × Bool} (h : a.readsBack P s = some r) :
    ∃ io, readStoreFromPathLocked io s.file = .ok r := by
  have key : ∀ io, (readStoreFromPathLocked io s.file).toOption = some r → readStoreFromPathLocked io s.file = .ok r := by
    intro io h
    cases hr : readStoreFromPathLocked io s.file with
    | ok r' => rw [hr] at h; cases h; rfl
    | error e => rw [hr] at h; cases h
  cases a with
  | load io ids =>
    simp only [readsBack] at h
    split at h
    · cases h
    · exact ⟨io, key io h⟩
  | restore allocOk io =>
    simp only [readsBack] at h
    split at h
    · exact ⟨io, key io h⟩
    · cases h
  | boot | make | unmake | answer | fail | reset | persist | blobWrite | pinReset => cases h

/-- Reading the file back leaves no mark. -/
theorem marks_of_readsBack {s : Storage} {a : StoreStep} {r : Store × Bool} (h : a.readsBack P s = some r) :
    a.marks s = [] := by
  cases a with
  | load | restore => rfl
  | boot | make | unmake | answer | fail | reset | persist | blobWrite | pinReset => cases h

theorem signature_cases (slot : Fin maxCreds) (s : Storage) :
    s.signature slot = [] ∨ ∃ c ∈ s.store.credentials, s.signature slot = [.signed c (s.store.signCount + 1)] := by
  unfold Storage.signature
  split
  · next hused => exact .inr ⟨_, Store.mem_credentials.mpr ⟨slot, hused, rfl⟩, rfl⟩
  · exact .inl rfl

/-- **A step leaves one mark at most**: a signature is made with a credential
in use, under the counter just put up. -/
theorem marks_cases (s : Storage) (a : StoreStep) :
    a.marks s = [] ∨ (∃ c, a.marks s = [.made c]) ∨ a.marks s = [.wiped] ∨
      (a.counts = true ∧ ∃ c ∈ s.store.credentials, a.marks s = [.signed c (s.store.signCount + 1)]) := by
  have hsigned : ∀ slot, a.counts = true → a.marks s = s.signature slot → a.marks s = [] ∨ (∃ c, a.marks s = [.made c]) ∨
      a.marks s = [.wiped] ∨
      (a.counts = true ∧ ∃ c ∈ s.store.credentials, a.marks s = [.signed c (s.store.signCount + 1)]) := by
    intro slot hcounts hmarks
    rw [hmarks]
    rcases signature_cases slot s with h | h
    · exact .inl h
    · exact .inr (.inr (.inr ⟨hcounts, h⟩))
  cases a with
  | answer slot io => exact hsigned slot rfl rfl
  | fail slot signed =>
    cases signed with
    | false => exact .inl rfl
    | true => exact hsigned slot rfl rfl
  | make c io =>
    simp only [marks]
    split
    · exact .inl rfl
    · exact .inr (.inl ⟨c.trim, rfl⟩)
  | reset => exact .inr (.inr (.inl rfl))
  | boot | load | unmake | persist | restore | blobWrite | pinReset => exact .inl rfl

theorem wiped_not_mem_of_made {s : Storage} {a : StoreStep} {c : Credential} (h : .made c ∈ a.marks s) :
    .wiped ∉ a.marks s := by
  rcases marks_cases s a with heq | ⟨c', heq⟩ | heq | ⟨_, c', _, heq⟩ <;> rw [heq] at h ⊢ <;> simp at h ⊢

/-- Only RESET wipes. -/
theorem wiped_not_mem_of_counts {s : Storage} {a : StoreStep} (h : a.counts = true) : .wiped ∉ a.marks s := by
  cases a with
  | answer slot io =>
    rcases signature_cases slot s with heq | ⟨c, _, heq⟩ <;> simp [marks, heq]
  | fail slot signed =>
    cases signed with
    | false => simp [marks]
    | true => rcases signature_cases slot s with heq | ⟨c, _, heq⟩ <;> simp [marks, heq]
  | boot | load | make | unmake | reset | persist | restore | blobWrite | pinReset => cases h

theorem mem_credentials_setCred {s : Storage} {i : Fin maxCreds} {c c' : Credential}
    (h : c ∈ (s.setCred i c').store.credentials) : c ∈ s.store.credentials ∨ (c'.inUse = true ∧ c = c'.trim) := by
  obtain ⟨j, hj, rfl⟩ := Store.mem_credentials.mp h
  simp only [Storage.setCred] at hj ⊢
  by_cases hij : j = i
  · subst hij
    rw [Function.update_self] at hj ⊢
    exact .inr ⟨hj, rfl⟩
  · rw [Function.update_of_ne hij] at hj ⊢
    exact .inl (Store.mem_credentials.mpr ⟨j, hj, rfl⟩)

@[simp] theorem finalize_signCount (s : Storage) :
    (finalizeRestoredStoreLocked s).store.signCount = s.store.signCount := by
  unfold finalizeRestoredStoreLocked
  split <;> rfl

theorem credentials_zero (ids : FreshIds) (s : Storage) : (s.wipe ids).store.credentials = [] := rfl

/-- A first use takes what it reads, or starts on nothing. -/
theorem credentials_load {io : ReadIo} {ids : FreshIds} {s : Storage} {c : Credential}
    (h : c ∈ (loadStoreLocked P io ids s).store.credentials) :
    (c ∈ s.store.credentials ∧ (loadStoreLocked P io ids s).store.signCount = s.store.signCount) ∨
      ∃ r, readsBack P s (.load io ids) = some r ∧ c ∈ r.1.credentials ∧
        (loadStoreLocked P io ids s).store.signCount = r.1.signCount := by
  by_cases hl : s.storeLoaded = true
  · rw [StoreOp.load_of_loaded hl] at h ⊢
    exact .inl ⟨h, rfl⟩
  have hl' : s.storeLoaded = false := by simpa using hl
  by_cases hP : P.persistEnabled = true
  · cases hr : readStoreFromPathLocked io s.file with
    | ok r =>
      rw [load_credentials hl' hP hr] at h
      refine .inr ⟨r, by simp [readsBack, hl', hP, hr, Except.toOption], h, ?_⟩
      simp [loadStoreLocked, hl', hP, hr]
    | error e =>
      simp only [loadStoreLocked, hl', hP, hr, Bool.not_true, Bool.false_eq_true, if_false] at h
      cases h
  · simp only [loadStoreLocked, hl', hP, Bool.not_false, Bool.false_eq_true, if_false, if_true] at h
    cases h

/-- So does a restore, or it leaves the store alone. -/
theorem credentials_restore {allocOk : Bool} {io : ReadIo} {s : Storage} {c : Credential}
    (h : c ∈ (restorePersistedStoreLocked allocOk io s).2.store.credentials) :
    (c ∈ s.store.credentials ∧ (restorePersistedStoreLocked allocOk io s).2.store.signCount = s.store.signCount) ∨
      ∃ r, readsBack P s (.restore allocOk io) = some r ∧ c ∈ r.1.credentials ∧
        (restorePersistedStoreLocked allocOk io s).2.store.signCount = r.1.signCount := by
  cases allocOk with
  | false => exact .inl ⟨h, rfl⟩
  | true =>
    cases hr : readStoreFromPathLocked io s.file with
    | error e =>
      have heq : (restorePersistedStoreLocked true io s).2 = s := by simp [restorePersistedStoreLocked, hr]
      rw [heq] at h ⊢
      exact .inl ⟨h, rfl⟩
    | ok r =>
      simp only [restorePersistedStoreLocked, hr, Bool.not_true, Bool.false_eq_true, if_false, finalize_credentials]
        at h ⊢
      exact .inr ⟨r, by simp [readsBack, hr, Except.toOption], h, finalize_signCount _⟩

/-- **Where a credential in use comes from**: it was in use before, was read
from the file, or has just been made. So does the counter it is used with. -/
theorem credentials_apply {s : Storage} {a : StoreStep} (ha : a.fromUser = false) {c : Credential}
    (h : c ∈ (a.apply P s).store.credentials) :
    (c ∈ s.store.credentials ∧ .wiped ∉ a.marks s ∧
      (a.apply P s).store.signCount = s.store.signCount + if a.counts then 1 else 0) ∨
    (∃ r, a.readsBack P s = some r ∧ c ∈ r.1.credentials ∧ (a.apply P s).store.signCount = r.1.signCount) ∨
      .made c ∈ a.marks s := by
  cases a with
  | blobWrite => cases ha
  | boot => cases h
  | load io ids =>
    rcases credentials_load h with ⟨h, hcount⟩ | h
    · exact .inl ⟨h, by simp [marks], by simpa [apply, counts] using hcount⟩
    · exact .inr (.inl h)
  | restore allocOk io =>
    rcases credentials_restore (P := P) h with ⟨h, hcount⟩ | h
    · exact .inl ⟨h, by simp [marks], by simpa [apply, counts] using hcount⟩
    · exact .inr (.inl h)
  | make c' io =>
    cases hi : allocCredentialLocked s.store with
    | none =>
      simp only [apply, hi] at h ⊢
      exact .inl ⟨h, by simp [marks, hi], by simp [counts]⟩
    | some i =>
      simp only [apply, hi, StoreOp.maybePersist_store] at h ⊢
      rcases mem_credentials_setCred h with h | ⟨_, rfl⟩
      · exact .inl ⟨h, by simp [marks, hi], by simp [counts, Storage.setCred, Storage.markDirty]⟩
      · exact .inr (.inr (by simp [marks, hi]))
  | unmake =>
    simp only [apply, StoreOp.apply] at h ⊢
    split at h
    · exact .inl ⟨h, by simp [marks], by simp [counts]⟩
    · rcases mem_credentials_setCred h with h | ⟨hzero, _⟩
      · exact .inl ⟨h, by simp [marks], by simp [counts, Storage.setCred]⟩
      · cases hzero
  | answer slot io =>
    simp only [apply, StoreOp.maybePersist_store] at h ⊢
    exact .inl ⟨h, wiped_not_mem_of_counts rfl, rfl⟩
  | fail slot signed =>
    exact .inl ⟨h, wiped_not_mem_of_counts rfl, rfl⟩
  | reset ids io =>
    simp only [apply, StoreOp.maybePersist_store, credentials_zero] at h
    cases h
  | persist io =>
    simp only [apply, StoreOp.maybePersist_store] at h ⊢
    exact .inl ⟨h, by simp [marks], by simp [counts]⟩
  | pinReset io =>
    simp only [apply, StoreOp.maybePersist_store] at h ⊢
    exact .inl ⟨h, by simp [marks], by simp [counts, Storage.pinReset]⟩

end StoreStep

/-! ## The device's steps -/

/-- The mark of an event; a new credential's slot is logged, not the credential. -/
def Event.mark? : Event → Option Mark
  | .effect _ (.assertion a) => if a.cred.inUse then some (.signed a.cred.trim a.authData.signCount) else none
  | .effect _ .wiped => some .wiped
  | _ => none

/-- The marks that are logged as events. -/
def Mark.logged : Mark → Bool
  | .made _ => false
  | .signed .. | .wiped => true

/-- A command's approved part is these steps of the store. -/
structure Outcome.Follows (P : Platform) (c : Core) (o : Outcome) (steps : List StoreStep) : Prop where
  storage : o.core.storage = StoreStep.applyAll P c.storage steps
  marks : ∀ t, (o.effects.map (Event.effect t)).filterMap Event.mark? =
    (StoreStep.marksAll P c.storage steps).filter Mark.logged
  own : ∀ a ∈ steps, a.fromUser = false

theorem Outcome.Follows.nothing {c : Core} {o : Outcome} (hs : o.core.storage = c.storage) (he : o.effects = []) :
    o.Follows P c [] where
  storage := hs
  marks t := by rw [he]; rfl
  own a ha := by cases ha

@[simp] theorem Mark.filter_made (c : Credential) : [Mark.made c].filter Mark.logged = [] := rfl

theorem Storage.filter_signature (slot : Fin maxCreds) (s : Storage) :
    (s.signature slot).filter Mark.logged = s.signature slot := by
  unfold signature
  split <;> rfl

theorem makeCredential_follows (io : Io) (req : MakeCredReq) (c : Core) :
    ∃ steps, (makeCredentialFinish P io req c).Follows P c steps := by
  simp only [makeCredentialFinish]
  split
  · exact ⟨[], .nothing rfl rfl⟩
  split
  · exact ⟨[], .nothing rfl rfl⟩
  next slot hslot =>
  have hundone : ∀ e effects, (∀ t, (effects.map (Event.effect t)).filterMap Event.mark? = []) →
      Outcome.Follows P c ⟨{ c with storage := c.storage.setCred slot .zero }, .error e, effects⟩ [.unmake] := by
    intro e effects heff
    refine ⟨?_, heff, by simp [StoreStep.fromUser]⟩
    simp only [StoreStep.applyAll, List.foldl_cons, List.foldl_nil, StoreStep.apply, StoreOp.apply, hslot]
  have hmade : ∀ cred payload, Outcome.Follows P c
      ⟨{ c with storage := maybePersistLocked P io.persist (c.storage.setCred slot cred).markDirty }, .ok payload,
        [.filled slot, .attestation slot]⟩ [.make cred io.persist] := by
    intro cred payload
    refine ⟨?_, fun t => ?_, by simp [StoreStep.fromUser]⟩
    · simp only [StoreStep.applyAll, List.foldl_cons, List.foldl_nil, StoreStep.apply, hslot]
    · simp [StoreStep.marksAll, StoreStep.marks, hslot, Event.mark?]
  split
  · exact ⟨_, hundone _ _ fun _ => rfl⟩
  split
  · exact ⟨_, hundone _ _ fun _ => rfl⟩
  split
  · exact ⟨_, hundone _ _ fun _ => rfl⟩
  split
  · exact ⟨_, hundone _ _ fun _ => rfl⟩
  · exact ⟨_, hmade _ _⟩

/-- An assertion is answered, or fails with the counter up. -/
theorem encodeAssertion_follows (io : Io) (slot : Fin maxCreds) (rpId : List UInt8) (allow : List ListedCred)
    (hash : Bytes 32) (includeUser : Bool) (total : Nat) (hmac : Option (Bytes 64)) (c : Core) :
    ∃ a, (encodeAssertionLocked P io slot rpId allow hash includeUser total hmac c).Follows P c [a] := by
  simp only [encodeAssertionLocked]
  split
  · exact ⟨.fail slot false, rfl, fun _ => rfl, by simp [StoreStep.fromUser]⟩
  next a ha =>
  have hcount : a.signCount = c.storage.store.signCount + 1 := by
    split at ha
    · cases ha; rfl
    · next output =>
      cases hext : hmacAnswered (200 - 37) output with
      | error e => rw [hext] at ha; cases ha
      | ok ext => rw [hext] at ha; cases ha; rfl
  have hsigned : ∀ t, ([Effect.assertion ⟨slot, c.storage.store.creds slot, rpId, allow, a, hash⟩].map
      (Event.effect t)).filterMap Event.mark? = (c.storage.signature slot).filter Mark.logged := by
    intro t
    rw [Storage.filter_signature, Storage.signature]
    by_cases hused : (c.storage.store.creds slot).inUse = true <;> simp [Event.mark?, hcount, hused]
  split
  · exact ⟨.fail slot false, rfl, fun _ => rfl, by simp [StoreStep.fromUser]⟩
  split
  · refine ⟨.fail slot true, rfl, fun t => (hsigned t).trans ?_, by simp [StoreStep.fromUser]⟩
    simp [StoreStep.marksAll, StoreStep.marks]
  · refine ⟨.answer slot io.persist, rfl, fun t => (hsigned t).trans ?_, by simp [StoreStep.fromUser]⟩
    simp [StoreStep.marksAll, StoreStep.marks]

/-- **What an approved command does to the store.** -/
theorem finish_follows (io : Io) (now : UInt64) (rest : Rest) (c : Core) :
    ∃ steps, (finish P io now rest c).Follows P c steps := by
  cases rest with
  | reset => exact ⟨[.reset io.ids io.persist], rfl, fun _ => rfl, by simp [StoreStep.fromUser]⟩
  | selection | selectionMakeCredential => exact ⟨[], .nothing rfl rfl⟩
  | makeCredential req => exact makeCredential_follows io req c
  | getAssertion req slot more =>
    simp only [finish, getAssertionFinish]
    split
    · exact ⟨[], .nothing rfl rfl⟩
    next hmac _ =>
    obtain ⟨a, ha⟩ := encodeAssertion_follows (P := P) io slot req.rpId req.allow req.clientDataHash
      (req.allow.isEmpty || decide (more.length + 1 > 1) || (c.storage.store.creds slot).resident) (more.length + 1) hmac c
    refine ⟨[a], ?_⟩
    split
    · exact ha
    · split
      · exact ⟨ha.storage, ha.marks, ha.own⟩
      · exact ha
  | getNextAssertion slot served hash rpId =>
    simp only [finish, getNextAssertionFinish]
    split
    · exact ⟨[], .nothing rfl rfl⟩
    split
    · exact ⟨[], .nothing rfl rfl⟩
    obtain ⟨a, ha⟩ := encodeAssertion_follows (P := P) io slot rpId [] hash true 1 none c
    refine ⟨[a], ?_⟩
    split
    · exact ha
    · exact ⟨ha.storage, ha.marks, ha.own⟩

namespace StoreStep

theorem applyAll_append (s : Storage) (xs ys : List StoreStep) :
    applyAll P s (xs ++ ys) = applyAll P (applyAll P s xs) ys := List.foldl_append ..

theorem marksAll_append (s : Storage) (xs ys : List StoreStep) :
    marksAll P s (xs ++ ys) = marksAll P s xs ++ marksAll P (applyAll P s xs) ys := by
  induction xs generalizing s with
  | nil => rfl
  | cons a xs ih => simp [marksAll, applyAll, ih, List.append_assoc]

end StoreStep

/-- The marks of a log, newest first. -/
def logMarks (log : List (Nat × Event)) : List Mark := log.filterMap fun e => e.2.mark?

/-- The blob is the only store that userspace can put in the driver. -/
def Action.fromUser : Action → Bool
  | .blobWrite .. => true
  | _ => false

namespace Device

/-- From one device to another these steps of the store are taken, and their
signatures and wipes logged. -/
structure Follows (P : Platform) (d d' : Device) (steps : List StoreStep) : Prop where
  storage : d'.core.storage = StoreStep.applyAll P d.core.storage steps
  marks : logMarks d'.log = ((StoreStep.marksAll P d.core.storage steps).filter Mark.logged).reverse ++ logMarks d.log

theorem Follows.unchanged {d d' : Device} (hs : d'.core.storage = d.core.storage)
    (hl : logMarks d'.log = logMarks d.log) : Follows P d d' [] := ⟨hs, by rw [hl]; rfl⟩

/-- A step that leaves no mark. -/
theorem Follows.silent {d d' : Device} (a : StoreStep) (hs : d'.core.storage = a.apply P d.core.storage)
    (hm : a.marks d.core.storage = []) (hl : logMarks d'.log = logMarks d.log) : Follows P d d' [a] where
  storage := hs
  marks := by
    rw [hl, StoreStep.marksAll, StoreStep.marksAll, hm]
    rfl

theorem Follows.trans {d d' d'' : Device} {xs ys : List StoreStep} (h : Follows P d d' xs) (h' : Follows P d' d'' ys) :
    Follows P d d'' (xs ++ ys) where
  storage := by rw [h'.storage, h.storage, StoreStep.applyAll_append]
  marks := by
    rw [h'.marks, h.marks, h.storage, StoreStep.marksAll_append, List.filter_append, List.reverse_append,
      List.append_assoc]

theorem logMarks_concluded (t : Transport) (io : Io) (rest : Rest) (d : Device) :
    logMarks ((concluded P t io rest d).map (d.clock, ·)).reverse =
      (((finish P io d.jiffies rest d.core).effects.map (Event.effect t)).filterMap Event.mark?).reverse := by
  rw [logMarks, List.filterMap_reverse, List.filterMap_map]
  congr 1
  change (concluded P t io rest d).filterMap Event.mark? = _
  rw [concluded, List.filterMap_append]
  cases (finish P io d.jiffies rest d.core).result <;> simp [Event.mark?]

/-- A command that is carried out after `d` got past the gate. -/
theorem Follows.conclude {d₀ d : Device} {pre : List StoreStep} (h : Follows P d₀ d pre)
    (hpre : ∀ a ∈ pre, a.fromUser = false) (t : Transport) (io : Io) (rest : Rest) :
    ∃ steps, Follows P d₀ (d.conclude P t io rest) steps ∧ ∀ a ∈ steps, a.fromUser = false := by
  obtain ⟨steps, hsteps⟩ := finish_follows (P := P) io d.jiffies rest d.core
  have happ : ∀ xs ys, logMarks (xs ++ ys) = logMarks xs ++ logMarks ys := fun xs ys => List.filterMap_append ..
  have hdone : Follows P d (d.conclude P t io rest) steps := by
    rw [conclude_eq]
    refine ⟨hsteps.storage, ?_⟩
    simp only [happ, logMarks_concluded, hsteps.marks]
  refine ⟨pre ++ steps, h.trans hdone, fun a ha => ?_⟩
  rcases List.mem_append.mp ha with ha | ha
  · exact hpre a ha
  · exact hsteps.own a ha

/-- What a command does before the gate, to the store it then goes on with. -/
theorem follows_start {d : Device} (d' : Device) {io : Io} {cmd : Command} {st : Start} {c : Core}
    (hs : start P io d.jiffies cmd d.core = (st, c)) (h : d'.core.storage = c.storage)
    (hl : logMarks d'.log = logMarks d.log) : ∃ steps, Follows P d d' steps ∧ ∀ a ∈ steps, a.fromUser = false := by
  rcases start_storage (P := P) io d.jiffies cmd d.core with heq | heq <;> rw [hs] at heq
  · exact ⟨[], .unchanged (h.trans heq) hl, by simp⟩
  · exact ⟨[.load io.load io.ids], .silent _ (h.trans heq) rfl hl, by simp [StoreStep.fromUser]⟩

/-- **Every step of the device is such steps of its store.** -/
theorem Follows.of_step {d d' : Device} {a : Action} (h : d.step P a = some d') :
    ∃ steps, Follows P d d' steps ∧ (a.fromUser = false → ∀ x ∈ steps, x.fromUser = false) := by
  cases a with
  | tick n => cases h; exact ⟨[], .unchanged rfl rfl, by simp⟩
  | decide allow id =>
    cases h
    simp only [authDecide]
    split <;> exact ⟨[], .unchanged rfl rfl, by simp⟩
  | blobRead load ids => cases h; exact ⟨[.load load ids], .silent _ rfl rfl rfl, by simp [StoreStep.fromUser]⟩
  | blobWrite off buf allocOk =>
    cases h
    exact ⟨[.blobWrite off buf allocOk], .silent _ rfl rfl rfl, by simp [Action.fromUser]⟩
  | restore allocOk io => cases h; exact ⟨[.restore allocOk io], .silent _ rfl rfl rfl, by simp [StoreStep.fromUser]⟩
  | persist io => cases h; exact ⟨[.persist io], .silent _ rfl rfl rfl, by simp [StoreStep.fromUser]⟩
  | pinReset io => cases h; exact ⟨[.pinReset io], .silent _ rfl rfl rfl, by simp [StoreStep.fromUser]⟩
  | receive t msg allocOk =>
    simp only [step] at h
    split at h
    · have hstorage : (if endsContinuation msg then d.core.clearAssertState else d.core).storage = d.core.storage := by
        split <;> rfl
      split at h <;> cases h <;> exact ⟨[], .unchanged hstorage rfl, by simp⟩
    · cases h
  | wake t =>
    simp only [step] at h
    split at h
    · split at h <;> cases h
      exact ⟨[], .unchanged rfl rfl, by simp⟩
    · cases h
  | expire t =>
    simp only [step] at h
    split at h
    · split at h <;> cases h
      exact ⟨[], .unchanged rfl rfl, by simp⟩
    · cases h
  | resume t io =>
    simp only [step] at h
    split at h <;> cases h
    next r first timedOut rest _ =>
    obtain ⟨auth, _, ⟨_, heq⟩ | ⟨_, heq⟩⟩ := resume_cases (P := P) t io r first timedOut rest d <;> rw [heq]
    · have hgate : Follows P d ({ d with auth := auth }.note (.ended t r first true)) [] := ⟨rfl, rfl⟩
      obtain ⟨steps, hsteps, hown⟩ := hgate.conclude (by simp) t io rest
      exact ⟨steps, hsteps, fun _ => hown⟩
    · exact ⟨[], .unchanged rfl rfl, by simp⟩
  | enter t io =>
    simp only [step] at h
    split at h <;> cases h
    rcases enter_cases (P := P) t io _ d with ⟨_, c, hs, heq⟩ | ⟨ask, rest, c, hs, hgate⟩
    · rw [heq]
      obtain ⟨steps, hsteps, hown⟩ := follows_start ({ d with core := c }.setWorker t .idle) hs rfl rfl
      exact ⟨steps, hsteps, fun _ => hown⟩
    · have hstart : ∀ {d' : Device}, d'.core.storage = c.storage → logMarks d'.log = logMarks d.log →
          ∃ steps, Follows P d d' steps ∧ (Action.fromUser (.enter t io) = false → ∀ x ∈ steps, x.fromUser = false) := by
        intro d' h hl
        obtain ⟨steps, hsteps, hown⟩ := follows_start d' hs h hl
        exact ⟨steps, hsteps, fun _ => hown⟩
      rcases hgate with ⟨_, heq⟩ | ⟨_, _, heq⟩ | ⟨_, _, heq⟩ <;> rw [heq]
      · exact hstart rfl rfl
      · obtain ⟨pre, hpre, hown⟩ := follows_start (P := P)
          ((({ d with core := c, auth := { d.auth with denyValid := false } }.note (.asked t)).note (.granted t))) hs rfl rfl
        obtain ⟨steps, hsteps, hown⟩ := hpre.conclude hown t io rest
        exact ⟨steps, hsteps, fun _ => hown⟩
      · exact hstart rfl rfl

/-- A store that comes from userspace, into the driver or onto the file. -/
def LifeAction.fromUser : LifeAction → Bool
  | .boot _ => false
  | .act a => a.fromUser
  | .supply _ => true

/-- A device's life is such steps of its store, boots between them, while
nobody else writes the file. -/
theorem storeSteps_of_runs {ok : Device → LifeAction → Prop} {d d' : Device} {as : List LifeAction}
    (h : Runs (lifeStep P) ok d as d') (hown : ∀ file, .supply file ∉ as) :
    ∃ steps, d'.core.storage = StoreStep.applyAll P d.core.storage steps ∧
      ((∀ a ∈ as, a.fromUser = false) → ∀ x ∈ steps, x.fromUser = false) := by
  induction h with
  | nil d => exact ⟨[], rfl, by simp⟩
  | @cons d a e as d' _ hstep _ ih =>
    obtain ⟨steps, hsteps, huser⟩ := ih fun file hmem => hown file (by simp [hmem])
    cases a with
    | supply file => exact absurd (by simp) (hown file)
    | boot clock =>
      cases hstep
      refine ⟨.boot :: steps, hsteps, fun has x hx => ?_⟩
      rcases List.mem_cons.mp hx with rfl | hx
      · rfl
      · exact huser (fun b hb => has b (by simp [hb])) x hx
    | act a =>
      obtain ⟨pre, hpre, hpreUser⟩ := Follows.of_step hstep
      refine ⟨pre ++ steps, by rw [hsteps, hpre.storage, StoreStep.applyAll_append], fun has x hx => ?_⟩
      rcases List.mem_append.mp hx with hx | hx
      · exact hpreUser (has (.act a) (by simp)) x hx
      · exact huser (fun b hb => has b (by simp [hb])) x hx

end Device

end AbkFido
