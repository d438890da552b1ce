/-
What saving and loading keeps of a store, whichever version it came from.

A structure is `sealed` as a blob of its version by either CRC form, and the
loader takes that blob and finds the store of the structure
(`storeFromDisk_sealed`). A store is not the bytes of its strings after their
NUL: a version 1 blob may have some, which loading keeps and saving clears.
-/
import AbkFido.StoreFacts
import AbkFido.DiskFields

namespace AbkFido

open Layout

/-- The two ways a blob may be sealed. -/
def CrcForm (crc : List UInt8 → UInt32) : Prop := crc = storeCrc32Range ∨ crc = legacyCrc32Range

/-- The blob of a structure, whatever its first three members were. -/
def StoreDisk.sealed {κ : Type} (slot : Codec κ) (version : UInt32) (crc : List UInt8 → UInt32) (d : StoreDisk κ) :
    List UInt8 :=
  (storeDiskCodec slot).enc
    { d with magic := storeMagic, version := version, crc32 := crc ((storeDiskCodec slot).enc d) }

section
variable {κ : Type} {slot : Codec κ} {load : κ → Credential} {version : UInt32}

/-- The three members before `sign_count` are not covered. -/
theorem drop_header (d : StoreDisk κ) (magic version crc : UInt32) :
    ((storeDiskCodec slot).enc { d with magic := magic, version := version, crc32 := crc }).drop 12 =
      ((storeDiskCodec slot).enc d).drop 12 := by
  have hdrop : ∀ (a b c : UInt32) (rest : List UInt8),
      (Codec.u32le.enc a ++ (Codec.u32le.enc b ++ (Codec.u32le.enc c ++ rest))).drop 12 = rest := by
    intro a b c rest
    have h := fun w rest k => Codec.u32le.drop_enc_append w rest k
    have h12 : (12 : Nat) = Codec.u32le.size + (Codec.u32le.size + (Codec.u32le.size + 0)) := rfl
    rw [h12, h, h, h, List.drop_zero]
  exact (hdrop ..).trans (hdrop ..).symm

theorem CrcForm.sealed {crc : List UInt8 → UInt32} (hcrc : CrcForm crc) (d : StoreDisk κ) :
    crc (d.sealed slot version crc) = crc ((storeDiskCodec slot).enc d) := by
  rcases hcrc with rfl | rfl
  · rw [storeCrc32Range, StoreDisk.sealed, drop_header]
    rfl
  · rw [legacyCrc32Range, StoreDisk.sealed, drop_header]
    rfl

/-- The loader finds the store of the structure it decodes. -/
theorem storeFromDisk_eq {blob : List UInt8} {s : Store} (h : storeFromDisk slot load version blob = .ok s) :
    s = ((storeDiskCodec slot).dec blob).store load := by
  simp only [storeFromDisk] at h
  split at h
  · cases h
  split at h
  · cases h
  split at h
  · cases h
  · cases h
    rfl

theorem storeFromDisk_sealed {crc : List UInt8 → UInt32} (hcrc : CrcForm crc) (d : StoreDisk κ) :
    storeFromDisk slot load version (d.sealed slot version crc) = .ok (d.store load) := by
  have hseal : crc (d.sealed slot version crc) = crc ((storeDiskCodec slot).enc d) := hcrc.sealed d
  have hdec : (storeDiskCodec slot).dec (d.sealed slot version crc) =
      { d with magic := storeMagic, version := version, crc32 := crc ((storeDiskCodec slot).enc d) } :=
    Codec.dec_enc_self ..
  have hform : ¬ (storeCrc32Range (d.sealed slot version crc) ≠ crc ((storeDiskCodec slot).enc d) ∧
      legacyCrc32Range (d.sealed slot version crc) ≠ crc ((storeDiskCodec slot).enc d)) := by
    rw [← hseal]
    rcases hcrc with rfl | rfl
    · exact fun h => h.1 rfl
    · exact fun h => h.2 rfl
  simp only [storeFromDisk, hdec, ne_eq, not_true_eq_false, if_false, if_neg hform]
  rfl

end

/-- No version 1 slot has an hmac-secret. -/
theorem hmacSecret_of_v1 {blob : List UInt8} {s : Store} (h : storeFromDiskV1Into blob = .ok s) (i : Fin maxCreds) :
    (s.creds i).hmacSecret = zeros 32 := by
  rw [storeFromDisk_eq h]
  rfl

/-- **Saving loses nothing of a store**, nor of one that came from a version 1 blob. -/
theorem save_load_save :
    (∀ s : Store, storeFromDiskInto (storeToDisk s) = .ok s.trim) ∧
    ∀ (blob : List UInt8) (s : Store), storeFromDiskV1Into blob = .ok s →
      storeFromDiskInto (storeToDisk s) = .ok s.trim ∧ ∀ i, (s.trim.creds i).hmacSecret = zeros 32 := by
  refine ⟨storeFromDiskInto_storeToDisk, fun blob s h => ⟨storeFromDiskInto_storeToDisk s, fun i => ?_⟩⟩
  exact hmacSecret_of_v1 h i

/-- A version 1 structure whose first site name is empty, with a byte after its NUL. -/
def strayDisk : StoreDisk DiskCredV1 where
  magic := 0
  version := 0
  crc32 := 0
  signCount := 0
  aaguid := zeros 16
  pinSet := 0
  pinRetries := 8
  reserved1 := zeros 2
  pinHash := zeros 16
  pinToken := zeros 32
  creds _ := { DiskCred.zero.toDiskCredV1 with rpId := (Codec.bytes 128).dec [0, 0x61] }

theorem loads_strayDisk : storeFromDiskV1Into (strayDisk.sealed diskCredV1Codec storeVersionLegacy legacyCrc32Range) =
    .ok (strayDisk.store DiskCredV1.load) := storeFromDisk_sealed (.inr rfl) strayDisk

theorem save_load_strayDisk : storeFromDiskInto (storeToDisk (strayDisk.store DiskCredV1.load)) =
      .ok (strayDisk.store DiskCredV1.load).trim ∧
    ∀ i, ((strayDisk.store DiskCredV1.load).trim.creds i).hmacSecret = zeros 32 :=
  save_load_save.2 _ _ loads_strayDisk

theorem exists_save_load_ne : ∃ (blob : List UInt8) (s : Store), storeFromDiskV1Into blob = .ok s ∧
    storeFromDiskInto (storeToDisk s) ≠ .ok s := by
  refine ⟨_, _, loads_strayDisk, fun h => ?_⟩
  rw [storeFromDiskInto_storeToDisk, Except.ok.injEq] at h
  have hbyte := congrArg (fun s => (s.creds ⟨0, by decide⟩).rpId.bytes.toList.getD 1 0) h
  exact absurd hbyte (by decide +kernel)

end AbkFido
