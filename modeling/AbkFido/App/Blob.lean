/-
`FidoStoreBlob`: the companion's reader and writer of the store's blob.

A blob is the bytes of a version 2 disk structure, and its edits overwrite
ranges of them, at offsets that are constants here as there. A Kotlin string
is kept as its UTF-8 bytes, the form the blob's code writes it in; one that is
read has been decoded, and what was not UTF-8 is U+FFFD in it.
-/
import AbkFido.Store
import AbkFido.Lib.Utf8

namespace AbkFido

open Layout

/-! ## The layout, as the companion knows it -/

def headerSize : Nat := 84
def credSize : Nat := 484
def credSizeV1 : Nat := 452

def offMagic : Nat := 0
def offVersion : Nat := 4
def offCrc32 : Nat := 8
def offSignCount : Nat := 12
def offPinSet : Nat := 32

def offCredId : Nat := 4
def offUserId : Nat := 36
def offRpId : Nat := 100
def offUserName : Nat := 228
def offUserDisplay : Nat := 292
def offPrivKey : Nat := 356
def offPubKey : Nat := 388
def offHmacSecret : Nat := 452

def lenCredId : Nat := 32
def lenUserId : Nat := 64
def lenRpId : Nat := 128
def lenName : Nat := 64
def lenPrivKey : Nat := 32
def lenPubKey : Nat := 64
def lenHmacSecret : Nat := 32

def slotOffset (slot : Fin maxCreds) : Nat := headerSize + slot * credSize

/-! ## Byte arrays -/

/-- `copyOfRange(off, off + len)` -/
def copyOfRange (bytes : List UInt8) (off len : Nat) : List UInt8 := (bytes.drop off).take len

def readIntLe (bytes : List UInt8) (off : Nat) : UInt32 := Codec.u32le.dec (bytes.drop off)

def writeIntLe (bytes : List UInt8) (off : Nat) (value : UInt32) : List UInt8 :=
  splice bytes off (Codec.u32le.enc value)

def readCString (bytes : List UInt8) (off maxLen : Nat) : List UInt8 :=
  Utf8.encode (Utf8.decode (cstr (copyOfRange bytes off maxLen)))

/-- Back to where the byte that follows does not continue a character. -/
def characterStart (encoded : List UInt8) : Nat → Nat
  | 0 => 0
  | n + 1 => if encoded.getD (n + 1) 0 &&& 0xc0 = 0x80 then characterStart encoded n else n + 1

/-- How many bytes of a string are stored: never half of a character. -/
def clippedLength (maxLen : Nat) (encoded : List UInt8) : Nat :=
  let length := min encoded.length (maxLen - 1)
  if length < encoded.length then characterStart encoded length else length

def writeCString (bytes : List UInt8) (off maxLen : Nat) (value : List UInt8) : List UInt8 :=
  let cleared := splice bytes off (List.replicate maxLen 0)
  splice cleared off (value.take (clippedLength maxLen value))

/-- `crc.update(bytes, OFF_SIGN_COUNT, size - OFF_SIGN_COUNT)` -/
def crcOk (bytes : List UInt8) (size : Nat) : Bool := storeCrc32Range (bytes.take size) == readIntLe bytes offCrc32

/-! ## Records -/

/-- One credential slot of the driver's store. -/
structure FidoCredentialRecord where
  slot : Int
  resident : Bool
  userIdLen : Int
  credId : List UInt8
  userId : List UInt8
  rpId : List UInt8
  userName : List UInt8
  userDisplay : List UInt8
  privKey : List UInt8
  pubKey : List UInt8
  hmacSecret : List UInt8

/-- `userIdLen.coerceIn(0, LEN_USER_ID).toByte()` -/
def FidoCredentialRecord.userIdLenByte (r : FidoCredentialRecord) : UInt8 :=
  .ofNat (min (max r.userIdLen 0) lenUserId).toNat

/-- What `withCredential` does to the bytes: the slot is cleared and then filled. -/
def fillSlot (raw : List UInt8) (slot : Fin maxCreds) (record : FidoCredentialRecord) : List UInt8 :=
  let base := slotOffset slot
  let copy := splice raw base (List.replicate credSize 0)
  let copy := splice copy base [1]
  let copy := splice copy (base + 1) [if record.resident then 1 else 0]
  let copy := splice copy (base + 2) [record.userIdLenByte]
  let copy := splice copy (base + offCredId) (record.credId.take lenCredId)
  let copy := splice copy (base + offUserId) (record.userId.take lenUserId)
  let copy := writeCString copy (base + offRpId) lenRpId record.rpId
  let copy := writeCString copy (base + offUserName) lenName record.userName
  let copy := writeCString copy (base + offUserDisplay) lenName record.userDisplay
  let copy := splice copy (base + offPrivKey) (record.privKey.take lenPrivKey)
  let copy := splice copy (base + offPubKey) (record.pubKey.take lenPubKey)
  splice copy (base + offHmacSecret) (record.hmacSecret.take lenHmacSecret)

def renameSlot (raw : List UInt8) (slot : Fin maxCreds) (userName userDisplay : List UInt8) : List UInt8 :=
  let base := slotOffset slot
  let copy := writeCString raw (base + offUserName) lenName userName
  writeCString copy (base + offUserDisplay) lenName userDisplay

/-- The version 2 layout of a version 1 blob: every slot moves, and its last 32 bytes stay zero. -/
def upgrade (bytes : List UInt8) : List UInt8 :=
  let header := splice (List.replicate storeDiskSize 0) 0 (bytes.take headerSize)
  (List.finRange maxCreds).foldl
    (fun normalized slot =>
      splice normalized (slotOffset slot) (copyOfRange bytes (headerSize + slot * credSizeV1) credSizeV1))
    header

/-! ## Nothing is written past the end -/

theorem slot_fits (slot : Fin maxCreds) : slotOffset slot + credSize ≤ storeDiskSize := by
  have h := slot.isLt
  simp only [slotOffset, headerSize, credSize, storeDiskSize, maxCreds] at *
  omega

theorem characterStart_le (encoded : List UInt8) (n : Nat) : characterStart encoded n ≤ n := by
  induction n with
  | zero => exact le_rfl
  | succ n ih =>
    rw [characterStart]
    split
    · exact ih.trans n.le_succ
    · exact le_rfl

theorem clippedLength_le (maxLen : Nat) (encoded : List UInt8) :
    clippedLength maxLen encoded ≤ min encoded.length (maxLen - 1) := by
  unfold clippedLength
  dsimp only
  split
  · exact characterStart_le _ _
  · exact le_rfl

theorem length_clipped_le (maxLen : Nat) (value : List UInt8) :
    (value.take (clippedLength maxLen value)).length ≤ maxLen := by
  have h := clippedLength_le maxLen value
  rw [List.length_take]
  omega

theorem length_writeCString {bytes : List UInt8} {off maxLen : Nat} (h : off + maxLen ≤ bytes.length)
    (value : List UInt8) : (writeCString bytes off maxLen value).length = bytes.length := by
  have hcleared : (splice bytes off (List.replicate maxLen 0)).length = bytes.length :=
    length_splice (by rw [List.length_replicate]; exact h)
  have hclip := length_clipped_le maxLen value
  rw [writeCString, length_splice (by rw [hcleared]; omega), hcleared]

theorem length_renameSlot {raw : List UInt8} (h : raw.length = storeDiskSize) (slot : Fin maxCreds)
    (userName userDisplay : List UInt8) : (renameSlot raw slot userName userDisplay).length = storeDiskSize := by
  have hfits := slot_fits slot
  have hname : slotOffset slot + offUserName + lenName ≤ storeDiskSize := by
    simp only [offUserName, lenName, credSize] at *; omega
  have hdisplay : slotOffset slot + offUserDisplay + lenName ≤ storeDiskSize := by
    simp only [offUserDisplay, lenName, credSize] at *; omega
  have hcopy := length_writeCString (h ▸ hname) userName
  rw [renameSlot, length_writeCString (by rw [hcopy, h]; exact hdisplay), hcopy, h]

theorem length_fillSlot {raw : List UInt8} (h : raw.length = storeDiskSize) (slot : Fin maxCreds)
    (record : FidoCredentialRecord) : (fillSlot raw slot record).length = storeDiskSize := by
  have hfits := slot_fits slot
  have put : ∀ {copy data : List UInt8} (off : Nat), copy.length = storeDiskSize → off + data.length ≤ credSize →
      (splice copy (slotOffset slot + off) data).length = storeDiskSize := by
    intro copy data off hcopy hdata
    rw [length_splice (by omega), hcopy]
  have putString : ∀ {copy : List UInt8} (off maxLen : Nat) (value : List UInt8), copy.length = storeDiskSize →
      off + maxLen ≤ credSize → (writeCString copy (slotOffset slot + off) maxLen value).length = storeDiskSize := by
    intro copy off maxLen value hcopy hlen
    rw [length_writeCString (by omega), hcopy]
  have htake : ∀ (data : List UInt8) {off n : Nat}, off + n ≤ credSize → off + (data.take n).length ≤ credSize := by
    intro data off n hn
    rw [List.length_take]
    omega
  unfold fillSlot
  refine put offHmacSecret ?_ (htake _ (by decide))
  refine put offPubKey ?_ (htake _ (by decide))
  refine put offPrivKey ?_ (htake _ (by decide))
  refine putString offUserDisplay lenName _ ?_ (by decide)
  refine putString offUserName lenName _ ?_ (by decide)
  refine putString offRpId lenRpId _ ?_ (by decide)
  refine put offUserId ?_ (htake _ (by decide))
  refine put offCredId ?_ (htake _ (by decide))
  refine put 2 ?_ (by simp [credSize])
  refine put 1 ?_ (by simp [credSize])
  refine put 0 ?_ (by simp [credSize])
  exact put 0 h (by rw [List.length_replicate, Nat.zero_add])

theorem length_upgrade (bytes : List UInt8) : (upgrade bytes).length = storeDiskSize := by
  have hslots : ∀ (slots : List (Fin maxCreds)) (raw : List UInt8), raw.length = storeDiskSize →
      (slots.foldl (fun normalized slot =>
        splice normalized (slotOffset slot) (copyOfRange bytes (headerSize + slot * credSizeV1) credSizeV1)) raw).length =
        storeDiskSize := by
    intro slots
    induction slots with
    | nil => exact fun raw hraw => hraw
    | cons slot slots ih =>
      intro raw hraw
      have hfits := slot_fits slot
      have hcopy : (copyOfRange bytes (headerSize + slot * credSizeV1) credSizeV1).length ≤ credSize := by
        rw [copyOfRange, List.length_take]
        simp only [credSizeV1, credSize]
        omega
      exact ih _ (by rw [length_splice (by omega), hraw])
  refine hslots _ _ ?_
  rw [length_splice, List.length_replicate]
  rw [List.length_take, List.length_replicate]
  simp only [headerSize, storeDiskSize]
  omega

/-! ## The blob -/

structure FidoStoreBlob where
  raw : List UInt8
  length_raw : raw.length = storeDiskSize

namespace FidoStoreBlob

def inUseByte (b : FidoStoreBlob) (slot : Fin maxCreds) : UInt8 := b.raw.getD (slotOffset slot) 0

def signCount (b : FidoStoreBlob) : UInt32 := readIntLe b.raw offSignCount

def pinSet (b : FidoStoreBlob) : Bool := b.raw.getD offPinSet 0 != 0

def credentialAt (b : FidoStoreBlob) (slot : Fin maxCreds) : Option FidoCredentialRecord :=
  let base := slotOffset slot
  if b.inUseByte slot ≠ 1 then none
  else some
    { slot := (slot : Nat)
      resident := b.raw.getD (base + 1) 0 != 0
      userIdLen := (b.raw.getD (base + 2) 0).toNat
      credId := copyOfRange b.raw (base + offCredId) lenCredId
      userId := copyOfRange b.raw (base + offUserId) lenUserId
      rpId := readCString b.raw (base + offRpId) lenRpId
      userName := readCString b.raw (base + offUserName) lenName
      userDisplay := readCString b.raw (base + offUserDisplay) lenName
      privKey := copyOfRange b.raw (base + offPrivKey) lenPrivKey
      pubKey := copyOfRange b.raw (base + offPubKey) lenPubKey
      hmacSecret := copyOfRange b.raw (base + offHmacSecret) lenHmacSecret }

/-- The occupied slots, in slot order. -/
def credentials (b : FidoStoreBlob) : List FidoCredentialRecord := (List.finRange maxCreds).filterMap b.credentialAt

def freeSlots (b : FidoStoreBlob) : Nat := (List.finRange maxCreds).countP fun slot => b.inUseByte slot != 1

/-- The slot is wiped, private key included. -/
def withoutSlot (b : FidoStoreBlob) (slot : Fin maxCreds) : FidoStoreBlob where
  raw := splice b.raw (slotOffset slot) (List.replicate credSize 0)
  length_raw := by
    have h := slot_fits slot
    rw [length_splice (by rw [List.length_replicate, b.length_raw]; exact h), b.length_raw]

def withRenamedSlot (b : FidoStoreBlob) (slot : Fin maxCreds) (userName userDisplay : List UInt8) : FidoStoreBlob where
  raw := renameSlot b.raw slot userName userDisplay
  length_raw := length_renameSlot b.length_raw slot userName userDisplay

def withFilledSlot (b : FidoStoreBlob) (slot : Fin maxCreds) (record : FidoCredentialRecord) : FidoStoreBlob where
  raw := fillSlot b.raw slot record
  length_raw := length_fillSlot b.length_raw slot record

/-- The record in the first free slot; `none` when the store is full. -/
def withCredential (b : FidoStoreBlob) (record : FidoCredentialRecord) : Option FidoStoreBlob :=
  ((List.finRange maxCreds).find? fun slot => b.inUseByte slot != 1).map fun slot => b.withFilledSlot slot record

/-- The blob as the driver expects it, with a fresh CRC. -/
def toBytes (b : FidoStoreBlob) : List UInt8 :=
  let out := writeIntLe b.raw offMagic storeMagic
  let out := writeIntLe out offVersion storeVersion
  writeIntLe out offCrc32 (storeCrc32Range out)

/-- A blob read from disk: a longer one is cut, a version 1 blob is upgraded. -/
def parse (bytes : List UInt8) (ignoreCrc : Bool) : Option FidoStoreBlob :=
  if bytes.length < headerSize then none
  else if readIntLe bytes offMagic ≠ storeMagic then none
  else if h : readIntLe bytes offVersion = storeVersion ∧ storeDiskSize ≤ bytes.length then
    if !ignoreCrc && !crcOk bytes storeDiskSize then none
    else some ⟨bytes.take storeDiskSize, by rw [List.length_take]; omega⟩
  else if readIntLe bytes offVersion = storeVersionLegacy ∧ storeDiskV1Size ≤ bytes.length then
    if !ignoreCrc && !crcOk bytes storeDiskV1Size then none
    else some ⟨upgrade bytes, length_upgrade bytes⟩
  else none

end FidoStoreBlob

end AbkFido
