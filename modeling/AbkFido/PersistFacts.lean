/-
What a save leaves in the file, and what a load can make of it.

`File.store?` of a file just saved is the store that was saved
(`store?_storeToDisk`); every proper prefix of a blob is rejected
(`loadRead_take`), which decides when a save is atomic
(`persistAtomic_iff`): when the file was not opened, or when every byte
reached it. A read that succeeds at all, however short, finds the store the
file holds (`read_ok_of_store?`).
-/
import AbkFido.Persist
import AbkFido.StoreFacts

namespace AbkFido

open Layout

/-- The version field is bytes 4 to 7, whatever the slots look like. -/
theorem dec_version {κ : Type} (slot : Codec κ) (blob : List UInt8) :
    ((storeDiskCodec slot).dec blob).version = Codec.u32le.dec (blob.drop 4) := rfl

theorem dec_version_take {κ : Type} (slot : Codec κ) {blob : List UInt8} {k : Nat} (hk : 8 ≤ k)
    (hlen : 8 ≤ blob.length) :
    ((storeDiskCodec slot).dec (blob.take k)).version = Codec.u32le.dec (blob.drop 4) := by
  have hsize : Codec.u32le.size = 4 := rfl
  have hrest : Codec.u32le.size ≤ (blob.drop 4).length := by rw [hsize, List.length_drop]; omega
  have hkept : Codec.u32le.size ≤ ((blob.drop 4).take (k - 4)).length := by rw [List.length_take]; omega
  rw [dec_version, List.drop_take, ← Codec.dec_take _ hkept, ← Codec.dec_take _ hrest, List.take_take, hsize,
    min_eq_left (by omega)]

theorem version_storeToDisk (s : Store) : Codec.u32le.dec ((storeToDisk s).drop 4) = storeVersion := by
  rw [← dec_version diskCredCodec, dec_storeToDisk]
  rfl

@[simp] theorem loadRead_storeToDisk (s : Store) : loadRead (storeToDisk s) = .ok (s.trim, false) := by
  simp [loadRead, length_storeToDisk, storeDiskSize, storeDiskV1Size, storeFromDiskInto_storeToDisk, Except.map]

/-- A blob accepted as version 1 carries that version. -/
theorem loadRead_v1 {read : List UInt8} {r} (h : loadRead read = .ok r) (hlen : read.length = storeDiskV1Size) :
    Codec.u32le.dec (read.drop 4) = storeVersionLegacy := by
  simp only [loadRead, hlen, if_true] at h
  cases hv : storeFromDiskV1Into read with
  | error e => rw [hv] at h; cases h
  | ok s => exact (storeFromDisk_version hv).2

theorem loadRead_v2 {read : List UInt8} {r} (h : loadRead read = .ok r) (hlen : read.length = storeDiskSize) :
    Codec.u32le.dec (read.drop 4) = storeVersion := by
  simp only [loadRead, hlen, if_true, show storeDiskSize ≠ storeDiskV1Size by decide, if_false] at h
  cases hv : storeFromDiskInto read with
  | error e => rw [hv] at h; cases h
  | ok s => exact (storeFromDisk_version hv).2

/-- The loader reads a whole blob of one version or the other. -/
theorem loadRead_length {read : List UInt8} {r} (h : loadRead read = .ok r) :
    read.length = storeDiskV1Size ∨ read.length = storeDiskSize := by
  simp only [loadRead] at h
  split at h
  · next hlen => exact .inl hlen
  · split at h
    · next hlen => exact .inr hlen
    · cases h

/-- **A part of a version 2 blob is no blob**: it has the wrong size, or that
of version 1 with the wrong version in it. -/
theorem loadRead_take {blob : List UInt8} (hlen : blob.length = storeDiskSize)
    (hver : Codec.u32le.dec (blob.drop 4) = storeVersion) {k : Nat} (hk : k < storeDiskSize) (r : Store × Bool) :
    loadRead (blob.take k) ≠ .ok r := by
  intro h
  have hklen : (blob.take k).length = k := by rw [List.length_take]; omega
  rcases loadRead_length h with hv1 | hv2
  · have hlegacy := loadRead_v1 h hv1
    rw [hklen] at hv1
    rw [← dec_version diskCredV1Codec, dec_version_take _ (by rw [hv1]; decide) (by rw [hlen]; decide), hver]
      at hlegacy
    exact absurd hlegacy (by decide)
  · omega

/-! ## Reading back -/

theorem store?_storeToDisk (s : Store) : File.store? (some (storeToDisk s)) = some s.trim := by
  simp [File.store?, readStoreFromPathLocked, List.take_of_length_le (length_storeToDisk s).le]

/-- What is left of a save that stopped short is rejected, however it is read. -/
theorem read_truncated (io : ReadIo) (s : Store) {k : Nat} (hk : k < storeDiskSize) (r : Store × Bool) :
    readStoreFromPathLocked io (some ((storeToDisk s).take k)) ≠ .ok r := by
  have key : ∀ j, j < storeDiskSize → loadRead ((storeToDisk s).take j) ≠ .ok r := fun j hj =>
    loadRead_take (length_storeToDisk s) (version_storeToDisk s) hj r
  cases io with
  | openError e => intro h; cases h
  | allocError => intro h; cases h
  | readError e => intro h; cases h
  | short n =>
    simp only [readStoreFromPathLocked, List.take_take]
    exact key _ (by omega)
  | ok =>
    simp only [readStoreFromPathLocked, List.take_take]
    exact key _ (by omega)

theorem store?_truncated (s : Store) {k : Nat} (hk : k < storeDiskSize) :
    File.store? (some ((storeToDisk s).take k)) = none := by
  simp only [File.store?]
  split
  · next h => exact absurd h (read_truncated .ok s hk _)
  · rfl

/-- A read that succeeds finds what a read of the whole file does: no short
read passes for another blob. -/
theorem read_unique {file : File} {io : ReadIo} {r r' : Store × Bool} (h' : readStoreFromPathLocked .ok file = .ok r')
    (h : readStoreFromPathLocked io file = .ok r) : r = r' := by
  cases file with
  | none => cases h'
  | some blob =>
    simp only [readStoreFromPathLocked] at h'
    generalize hb : blob.take storeDiskSize = b at h'
    cases io with
    | openError e => cases h
    | allocError => cases h
    | readError e => cases h
    | ok =>
      simp only [readStoreFromPathLocked, hb, h'] at h
      cases h; rfl
    | short n =>
      simp only [readStoreFromPathLocked, hb] at h
      by_cases hn : b.length ≤ n
      · rw [List.take_of_length_le hn, h'] at h
        cases h; rfl
      · have hshort : (b.take n).length = n := by rw [List.length_take]; omega
        rcases loadRead_length h' with hlen | hlen
        · -- A version 1 blob read short has no blob's size.
          rcases loadRead_length h with h1 | h1 <;>
            simp only [storeDiskV1Size, storeDiskSize] at hlen h1 <;> omega
        · exact absurd h (loadRead_take hlen (loadRead_v2 h' hlen) (by omega) _)

theorem read_ok_of_store? {file : File} {s s' : Store} {io : ReadIo} {v1 : Bool} (hs : file.store? = some s)
    (h : readStoreFromPathLocked io file = .ok (s', v1)) : s' = s := by
  simp only [File.store?] at hs
  split at hs
  · next st v hok =>
    cases hs
    exact congrArg Prod.fst (read_unique hok h)
  · cases hs

/-- Version 2 is only ever read off the whole of a file. -/
theorem read_whole {file : File} {io : ReadIo} {st : Store} (h : readStoreFromPathLocked io file = .ok (st, false)) :
    readStoreFromPathLocked .ok file = .ok (st, false) := by
  have hv2 : ∀ read, loadRead read = .ok (st, false) → read.length = storeDiskSize := by
    intro read h
    rcases loadRead_length h with hlen | hlen
    · simp only [loadRead, hlen, if_true] at h
      cases hv : storeFromDiskV1Into read with
      | error e => rw [hv] at h; cases h
      | ok s => rw [hv] at h; cases h
    · exact hlen
  cases io with
  | openError e => cases h
  | allocError => cases file <;> cases h
  | readError e => cases file <;> cases h
  | ok => exact h
  | short n =>
    cases file with
    | none => cases h
    | some blob =>
      simp only [readStoreFromPathLocked] at h ⊢
      have hlen := hv2 _ h
      have hall : (blob.take storeDiskSize).length ≤ n := by
        simp only [List.length_take] at hlen ⊢
        omega
      rwa [List.take_of_length_le hall] at h

/-! ## Saving -/

/-- How an attempt to save ends: the write returns, or the machine stops when
`k` bytes have reached the truncated file. -/
inductive Attempt
  | returned (io : WriteIo)
  | halted (k : Nat)

/-- The file an attempt to save `disk` over `file` leaves. -/
def Attempt.file (disk : List UInt8) (file : File) : Attempt → File
  | .returned io => (writeStoreToPathLocked io disk file).2
  | .halted k => some (disk.take k)

/-- The file was left alone, or all of the blob reached it. -/
def Attempt.Whole : Attempt → Prop
  | .returned (.openError _) => True
  | .returned (.stored k _) | .halted k => storeDiskSize ≤ k

instance : DecidablePred Attempt.Whole
  | .returned (.openError _) => isTrue trivial
  | .returned (.stored k _) => inferInstanceAs (Decidable (storeDiskSize ≤ k))
  | .halted k => inferInstanceAs (Decidable (storeDiskSize ≤ k))

/-- After the attempt the file loads as what it held before, or as the new store. -/
def PersistAtomic (file : File) (s : Store) (a : Attempt) : Prop :=
  (a.file (storeToDisk s) file).store? = file.store? ∨ (a.file (storeToDisk s) file).store? = some s.trim

theorem Attempt.file_cases (a : Attempt) (s : Store) (file : File) :
    (a.Whole ∧ (a.file (storeToDisk s) file = file ∨ a.file (storeToDisk s) file = some (storeToDisk s))) ∨
      ∃ k, k < storeDiskSize ∧ ¬ a.Whole ∧ a.file (storeToDisk s) file = some ((storeToDisk s).take k) := by
  have stored : ∀ k, storeDiskSize ≤ k → (storeToDisk s).take k = storeToDisk s := fun k hk =>
    List.take_of_length_le (by rw [length_storeToDisk]; exact hk)
  cases a with
  | halted k =>
    by_cases hk : storeDiskSize ≤ k
    · exact .inl ⟨hk, .inr (by rw [Attempt.file, stored k hk])⟩
    · exact .inr ⟨k, by omega, hk, rfl⟩
  | returned io =>
    cases io with
    | openError e => exact .inl ⟨trivial, .inl rfl⟩
    | stored k err =>
      have hfile : Attempt.file (storeToDisk s) file (.returned (.stored k err)) =
          some ((storeToDisk s).take k) := by
        cases err <;> rfl
      by_cases hk : storeDiskSize ≤ k
      · exact .inl ⟨hk, .inr (by rw [hfile, stored k hk])⟩
      · exact .inr ⟨k, by omega, hk, hfile⟩

/-- **When saving is atomic**: exactly when the file was not touched or the
whole blob reached it. -/
theorem persistAtomic_iff (file : File) (s old : Store) (a : Attempt) (hold : file.store? = some old) :
    PersistAtomic file s a ↔ a.Whole := by
  rcases a.file_cases s file with ⟨hw, hfile⟩ | ⟨k, hk, hw, hfile⟩
  · refine ⟨fun _ => hw, fun _ => ?_⟩
    rcases hfile with hfile | hfile
    · exact .inl (by rw [hfile])
    · exact .inr (by rw [hfile, store?_storeToDisk])
  · refine ⟨fun h => ?_, fun h => absurd h hw⟩
    rw [PersistAtomic, hfile, store?_truncated s hk, hold] at h
    rcases h with h | h <;> cases h

/-- A store that has signed once, saved over one that has not: every byte gets
there, or power is lost when 4096 have. -/
theorem persistAtomic_iff_signed :
    PersistAtomic (some (storeToDisk .zero)) { Store.zero with signCount := 1 } (.returned (.stored storeDiskSize none)) ∧
      ¬ PersistAtomic (some (storeToDisk .zero)) { Store.zero with signCount := 1 } (.halted 4096) :=
  ⟨(persistAtomic_iff _ _ _ _ (store?_storeToDisk .zero)).mpr (Nat.le_refl storeDiskSize),
    fun h => absurd ((persistAtomic_iff _ _ _ _ (store?_storeToDisk .zero)).mp h) (by decide : ¬ storeDiskSize ≤ 4096)⟩

/-- A save over an empty store's file that fails when 4096 bytes are out
leaves a file the loader rejects. -/
theorem not_persistAtomic_stored :
    ¬ PersistAtomic (some (storeToDisk .zero)) .zero (.returned (.stored 4096 (some .eio))) := by
  intro h
  rw [PersistAtomic, Attempt.file, writeStoreToPathLocked, store?_truncated _ (by decide), store?_storeToDisk] at h
  rcases h with h | h <;> cases h

end AbkFido
