/-
The credential store (`struct abk_fido_store`) and the blob it is saved as
(`struct abk_fido_store_disk` and its version 1 predecessor).

The disk structures are laid out by `Layout.Codec`, field by field in the
order of the C declarations; both versions share the header and the CRC
rule, so one loader with the version and the slot layout as parameters is
both `abk_fido_store_from_disk_into` and `abk_fido_store_from_disk_v1_into`.
-/
import AbkFido.Basic
import AbkFido.Lib.Layout

namespace AbkFido

open Layout

/-! ## In memory -/

/-- `ABK_FIDO_MAX_CREDS` -/
def maxCreds : Nat := 32

theorem maxCreds_pos : 0 < maxCreds := by decide

/-- `ABK_FIDO_PIN_RETRIES_DEFAULT` -/
def pinRetriesDefault : UInt8 := 8

/-- A slot of the store. The user handle's length stays within its array. -/
structure Credential where
  inUse : Bool
  resident : Bool
  credId : Bytes 32
  userId : Bytes 64
  userIdLen : UInt8
  rpId : CharBuf 128
  userName : CharBuf 64
  userDisplay : CharBuf 64
  privKey : Bytes 32
  pubKey : Bytes 64
  hmacSecret : Bytes 32
  userIdLen_le : userIdLen ≤ 64
  deriving DecidableEq

/-- `memset(cred, 0, sizeof(*cred))` -/
def Credential.zero : Credential where
  inUse := false
  resident := false
  credId := zeros 32
  userId := zeros 64
  userIdLen := 0
  rpId := .strscpy 128 []
  userName := .strscpy 64 []
  userDisplay := .strscpy 64 []
  privKey := zeros 32
  pubKey := zeros 64
  hmacSecret := zeros 32
  userIdLen_le := by decide

structure Store where
  pinSet : Bool
  aaguid : Bytes 16
  pinHash : Bytes 16
  pinToken : Bytes 32
  pinRetries : UInt8
  signCount : UInt32
  creds : Fin maxCreds → Credential
  deriving DecidableEq

/-- `memset(&store, 0, sizeof(store))` -/
def Store.zero : Store where
  pinSet := false
  aaguid := zeros 16
  pinHash := zeros 16
  pinToken := zeros 32
  pinRetries := 0
  signCount := 0
  creds _ := .zero

/-- The slots in use, in slot order. -/
def Store.used (s : Store) : List (Fin maxCreds) := (List.finRange maxCreds).filter fun i => (s.creds i).inUse

/-- The number `credential_count` reports. -/
def countCredentials (s : Store) : Nat := s.used.length

/-- The credential ids in use. -/
def Store.credIds (s : Store) : List (Bytes 32) := s.used.map fun i => (s.creds i).credId

/-- A credential without the bytes after the NUL of its strings, which no code reads. -/
def Credential.trim (c : Credential) : Credential :=
  { c with rpId := c.rpId.trim, userName := c.userName.trim, userDisplay := c.userDisplay.trim }

def Store.trim (s : Store) : Store := { s with creds := fun i => (s.creds i).trim }

/-! ## On disk -/

def storeMagic : UInt32 := 0x41424646
def storeVersion : UInt32 := 2
def storeVersionLegacy : UInt32 := 1

/-- `struct abk_fido_store_disk_cred_v1` -/
structure DiskCredV1 where
  inUse : UInt8
  resident : UInt8
  userIdLen : UInt8
  reserved0 : UInt8
  credId : Bytes 32
  userId : Bytes 64
  rpId : Bytes 128
  userName : Bytes 64
  userDisplay : Bytes 64
  privKey : Bytes 32
  pubKey : Bytes 64

/-- `struct abk_fido_store_disk_cred`: a version 1 slot and 32 bytes more. -/
structure DiskCred extends DiskCredV1 where
  hmacSecret : Bytes 32

/-- The disk structure over either kind of slot. -/
structure StoreDisk (κ : Type) where
  magic : UInt32
  version : UInt32
  crc32 : UInt32
  signCount : UInt32
  aaguid : Bytes 16
  pinSet : UInt8
  pinRetries : UInt8
  reserved1 : Bytes 2
  pinHash : Bytes 16
  pinToken : Bytes 32
  creds : Fin maxCreds → κ

open Codec in
def diskCredV1Codec : Codec DiskCredV1 :=
  (prod u8 (prod u8 (prod u8 (prod u8 (prod (bytes 32) (prod (bytes 64) (prod (bytes 128)
    (prod (bytes 64) (prod (bytes 64) (prod (bytes 32) (bytes 64))))))))))).iso
    { toFun := fun ⟨a, b, c, d, e, f, g, h, i, j, k⟩ => ⟨a, b, c, d, e, f, g, h, i, j, k⟩
      invFun := fun ⟨a, b, c, d, e, f, g, h, i, j, k⟩ => ⟨a, b, c, d, e, f, g, h, i, j, k⟩
      left_inv := fun _ => rfl
      right_inv := fun _ => rfl }

open Codec in
def diskCredCodec : Codec DiskCred :=
  (prod diskCredV1Codec (bytes 32)).iso
    { toFun := fun p => ⟨p.1, p.2⟩
      invFun := fun c => ⟨c.toDiskCredV1, c.hmacSecret⟩
      left_inv := fun _ => rfl
      right_inv := fun _ => rfl }

open Codec in
def storeDiskCodec {κ : Type} (slot : Codec κ) : Codec (StoreDisk κ) :=
  (prod u32le (prod u32le (prod u32le (prod u32le (prod (bytes 16) (prod u8 (prod u8 (prod (bytes 2)
    (prod (bytes 16) (prod (bytes 32) (array maxCreds slot))))))))))).iso
    { toFun := fun ⟨a, b, c, d, e, f, g, h, i, j, k⟩ => ⟨a, b, c, d, e, f, g, h, i, j, k⟩
      invFun := fun ⟨a, b, c, d, e, f, g, h, i, j, k⟩ => ⟨a, b, c, d, e, f, g, h, i, j, k⟩
      left_inv := fun _ => rfl
      right_inv := fun _ => rfl }

/-- `sizeof(struct abk_fido_store_disk)` -/
def storeDiskSize : Nat := 15572

/-- `sizeof(struct abk_fido_store_disk_v1)` -/
def storeDiskV1Size : Nat := 14548

theorem storeDiskCodec_size : (storeDiskCodec diskCredCodec).size = storeDiskSize := rfl

theorem storeDiskCodec_v1_size : (storeDiskCodec diskCredV1Codec).size = storeDiskV1Size := rfl

/-- `crc32_le`: the reflected CRC-32, neither pre- nor post-inverted. -/
def crc32Le (seed : UInt32) (data : List UInt8) : UInt32 :=
  data.foldl (fun crc b => (List.range 8).foldl
    (fun crc _ => if crc &&& 1 = 1 then (crc >>> 1) ^^^ 0xedb88320 else crc >>> 1) (crc ^^^ b.toUInt32)) seed

/-- `abk_fido_store_crc32_range`: over `sign_count` and all that follows it. -/
def storeCrc32Range (blob : List UInt8) : UInt32 := ~~~crc32Le 0xffffffff (blob.drop 12)

/-- The form older driver variants sealed blobs with. -/
def legacyCrc32Range (blob : List UInt8) : UInt32 := crc32Le 0 (blob.drop 12)

/-- `min_t(u8, a, b)` -/
def minU8 (a b : UInt8) : UInt8 := if a < b then a else b

theorem minU8_le_right (a b : UInt8) : minU8 a b ≤ b := by
  rw [minU8]
  split
  · next h => exact UInt8.le_of_lt h
  · exact UInt8.le_refl _

theorem minU8_of_le {a b : UInt8} (h : a ≤ b) : minU8 a b = a := by
  rw [minU8]
  split
  · rfl
  · next h' => exact UInt8.le_antisymm (UInt8.not_lt.mp h') h

/-- A version 1 slot in memory: no hmac-secret. -/
def DiskCredV1.load (dc : DiskCredV1) : Credential where
  inUse := dc.inUse != 0
  resident := dc.resident != 0
  userIdLen := minU8 dc.userIdLen 64
  credId := dc.credId
  userId := dc.userId
  rpId := .ofDisk 128 dc.rpId
  userName := .ofDisk 64 dc.userName
  userDisplay := .ofDisk 64 dc.userDisplay
  privKey := dc.privKey
  pubKey := dc.pubKey
  hmacSecret := zeros 32
  userIdLen_le := minU8_le_right _ _

def DiskCred.load (dc : DiskCred) : Credential := { dc.toDiskCredV1.load with hmacSecret := dc.hmacSecret }

/-- The loader, for the slot layout and the version it accepts. The blob is
the buffer that was read, exactly `sizeof` bytes of it. -/
def storeFromDisk {κ : Type} (slot : Codec κ) (load : κ → Credential) (version : UInt32) (blob : List UInt8) :
    Except Errno Store :=
  let disk := (storeDiskCodec slot).dec blob
  if disk.magic ≠ storeMagic then .error .einval
  else if disk.version ≠ version then .error .einval
  else if storeCrc32Range blob ≠ disk.crc32 ∧ legacyCrc32Range blob ≠ disk.crc32 then .error .eilseq
  else .ok
    { pinSet := disk.pinSet != 0
      aaguid := disk.aaguid
      pinHash := disk.pinHash
      pinToken := disk.pinToken
      pinRetries := disk.pinRetries
      signCount := disk.signCount
      creds := fun i => load (disk.creds i) }

def storeFromDiskInto : List UInt8 → Except Errno Store := storeFromDisk diskCredCodec DiskCred.load storeVersion

def storeFromDiskV1Into : List UInt8 → Except Errno Store :=
  storeFromDisk diskCredV1Codec DiskCredV1.load storeVersionLegacy

def Credential.toDisk (sc : Credential) : DiskCred where
  inUse := if sc.inUse then 1 else 0
  resident := if sc.resident then 1 else 0
  userIdLen := sc.userIdLen
  reserved0 := 0
  credId := sc.credId
  userId := sc.userId
  rpId := (CharBuf.strscpy 128 sc.rpId.str).bytes
  userName := (CharBuf.strscpy 64 sc.userName.str).bytes
  userDisplay := (CharBuf.strscpy 64 sc.userDisplay.str).bytes
  privKey := sc.privKey
  pubKey := sc.pubKey
  hmacSecret := sc.hmacSecret

/-- The disk structure before it is sealed: the CRC field still zero. -/
def Store.toDiskUnsealed (s : Store) : StoreDisk DiskCred where
  magic := storeMagic
  version := storeVersion
  crc32 := 0
  signCount := s.signCount
  aaguid := s.aaguid
  pinSet := if s.pinSet then 1 else 0
  pinRetries := s.pinRetries
  reserved1 := zeros 2
  pinHash := s.pinHash
  pinToken := s.pinToken
  creds := fun i => (s.creds i).toDisk

/-- `abk_fido_store_to_disk`: the blob of a store. -/
def storeToDisk (s : Store) : List UInt8 :=
  let disk := s.toDiskUnsealed
  let crc := storeCrc32Range ((storeDiskCodec diskCredCodec).enc disk)
  (storeDiskCodec diskCredCodec).enc { disk with crc32 := crc }

end AbkFido
