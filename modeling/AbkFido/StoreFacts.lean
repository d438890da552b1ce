/-
The blob of a store loads back as that store (`storeFromDiskInto_storeToDisk`),
up to the bytes after the NUL of its strings, which saving does not copy.
A blob of any other length or version is not one the loader takes.
-/
import AbkFido.Store

namespace AbkFido

open Layout

theorem Credential.load_toDisk (c : Credential) : c.toDisk.load = c.trim := by
  cases c with
  | mk inUse resident credId userId userIdLen rpId userName userDisplay privKey pubKey hmacSecret hle =>
    simp only [Credential.toDisk, DiskCred.load, DiskCredV1.load, Credential.trim, CharBuf.ofDisk_strscpy,
      CharBuf.trim, Credential.mk.injEq, true_and, and_true]
    exact ⟨by cases inUse <;> rfl, by cases resident <;> rfl, minU8_of_le hle⟩

/-- Sealing does not change what the CRC covers. -/
theorem drop_seal {κ : Type} (slot : Codec κ) (d : StoreDisk κ) (crc : UInt32) :
    ((storeDiskCodec slot).enc { d with crc32 := crc }).drop 12 = ((storeDiskCodec slot).enc d).drop 12 := by
  show (Codec.u32le.enc d.magic ++ (Codec.u32le.enc d.version ++ (Codec.u32le.enc crc ++ _))).drop (4 + (4 + 4)) =
    (Codec.u32le.enc d.magic ++ (Codec.u32le.enc d.version ++ (Codec.u32le.enc d.crc32 ++ _))).drop (4 + (4 + 4))
  have h4 : (4 : Nat) = Codec.u32le.size := rfl
  rw [h4]
  simp only [Codec.drop_enc_append]
  have hdrop := fun w rest => Codec.u32le.drop_enc_append w rest 0
  simp only [Nat.add_zero, List.drop_zero] at hdrop
  simp only [hdrop]
  rfl

theorem length_storeToDisk (s : Store) : (storeToDisk s).length = storeDiskSize :=
  (storeDiskCodec diskCredCodec).length_enc _

/-- The sealed structure is what the loader decodes. -/
theorem dec_storeToDisk (s : Store) :
    (storeDiskCodec diskCredCodec).dec (storeToDisk s) =
      { s.toDiskUnsealed with crc32 := storeCrc32Range (storeToDisk s) } := by
  rw [storeToDisk, Codec.dec_enc_self]
  simp only [storeCrc32Range, drop_seal]

/-- **The round trip of the store.** -/
theorem storeFromDiskInto_storeToDisk (s : Store) : storeFromDiskInto (storeToDisk s) = .ok s.trim := by
  simp only [storeFromDiskInto, storeFromDisk, dec_storeToDisk]
  simp only [Store.toDiskUnsealed, ne_eq, not_true_eq_false, if_false, false_and, Except.ok.injEq]
  cases s with
  | mk pinSet aaguid pinHash pinToken pinRetries signCount creds =>
    simp only [Store.trim, Credential.load_toDisk, Store.mk.injEq, and_self, and_true]
    cases pinSet <;> rfl

/-- The version field decides which loader can accept a blob. -/
theorem storeFromDisk_version {κ : Type} {slot : Codec κ} {load version blob} {s : Store}
    (h : storeFromDisk slot load version blob = .ok s) :
    ((storeDiskCodec slot).dec blob).magic = storeMagic ∧ ((storeDiskCodec slot).dec blob).version = version := by
  simp only [storeFromDisk] at h
  split at h
  · cases h
  next hm =>
  split at h
  · cases h
  next hv => exact ⟨by simpa using hm, by simpa using hv⟩

/-! ## Trimming -/

@[simp] theorem Credential.trim_inUse (c : Credential) : c.trim.inUse = c.inUse := rfl
@[simp] theorem Credential.trim_credId (c : Credential) : c.trim.credId = c.credId := rfl
@[simp] theorem Credential.trim_trim (c : Credential) : c.trim.trim = c.trim := by
  simp only [Credential.trim, CharBuf.trim_trim]

@[simp] theorem Store.trim_trim (s : Store) : s.trim.trim = s.trim := by
  simp only [Store.trim, Credential.trim_trim]

@[simp] theorem Store.used_trim (s : Store) : s.trim.used = s.used := rfl
@[simp] theorem Store.credIds_trim (s : Store) : s.trim.credIds = s.credIds := rfl
@[simp] theorem countCredentials_trim (s : Store) : countCredentials s.trim = countCredentials s := rfl

end AbkFido
