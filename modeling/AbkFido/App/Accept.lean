/-
Which blobs the companion and the driver both take, and what each finds.

The two read the same header and the same slots, but not by the same rules:
the driver takes the legacy seal and any `in_use` byte other than 0, and it
clamps a length; the companion takes a version 1 blob with bytes after it.
On a blob without any of these (`OneReading`) they agree, and on every other
they do not (`sameBlobs_iff`).
-/
import AbkFido.App.BlobFacts
import AbkFido.DiskFacts
import AbkFido.PersistFacts

namespace AbkFido

open Layout

/-- What the two sides say about a slot in use. -/
structure SlotEntry where
  slot : Nat
  credId : List UInt8
  privKey : List UInt8
  pubKey : List UInt8
  userId : List UInt8
  userIdLen : Int
  hmacSecret : List UInt8

def FidoCredentialRecord.entry (r : FidoCredentialRecord) : SlotEntry :=
  ⟨r.slot.toNat, r.credId, r.privKey, r.pubKey, r.userId, r.userIdLen, r.hmacSecret⟩

def Credential.entry (slot : Fin maxCreds) (c : Credential) : SlotEntry :=
  ⟨slot, c.credId.toList, c.privKey.toList, c.pubKey.toList, c.userId.toList, c.userIdLen.toNat, c.hmacSecret.toList⟩

/-- The slots the driver has in use. -/
def Store.entries (st : Store) : List SlotEntry := st.used.map fun slot => (st.creds slot).entry slot

/-- Both take the blob and list the same slots, or neither takes it. -/
def SameBlobs (bytes : List UInt8) : Prop :=
  match FidoStoreBlob.parse bytes false, readStoreFromPathLocked .ok (some bytes) with
  | some b, .ok (st, _) => b.credentials.map FidoCredentialRecord.entry = st.entries
  | none, .error _ => True
  | _, _ => False

/-! ## The condition -/

/-- A header of `version`, and no fewer bytes than its structure. -/
def HasForm (bytes : List UInt8) (version : UInt32) (size : Nat) : Prop :=
  readIntLe bytes offMagic = storeMagic ∧ readIntLe bytes offVersion = version ∧ size ≤ bytes.length

def legacyCrcOk (bytes : List UInt8) (size : Nat) : Bool :=
  legacyCrc32Range (bytes.take size) == readIntLe bytes offCrc32

/-- A slot is marked 0, or it is marked 1 and its length fits. -/
def PlainSlots (bytes : List UInt8) (stride : Nat) : Prop :=
  ∀ slot : Fin maxCreds, bytes.getD (headerSize + slot * stride) 0 = 0 ∨
    (bytes.getD (headerSize + slot * stride) 0 = 1 ∧ bytes.getD (headerSize + slot * stride + 2) 0 ≤ 64)

/-- Of the two seals the blob has the standard one, over plain slots, or neither. -/
def PlainSeal (bytes : List UInt8) (size stride : Nat) : Prop :=
  if crcOk bytes size then PlainSlots bytes stride else legacyCrcOk bytes size = false

def OneReading (bytes : List UInt8) : Prop :=
  (HasForm bytes storeVersion storeDiskSize → PlainSeal bytes storeDiskSize credSize) ∧
    (HasForm bytes storeVersionLegacy storeDiskV1Size →
      if bytes.length = storeDiskV1Size then PlainSeal bytes storeDiskV1Size credSizeV1
      else crcOk bytes storeDiskV1Size = false)

/-! ## Slot by slot -/

theorem filterMap_eq_iff {α : Type} {f g : Fin maxCreds → Option α} (slot : α → Nat)
    (hf : ∀ i x, f i = some x → slot x = i) (hg : ∀ i x, g i = some x → slot x = i) :
    (List.finRange maxCreds).filterMap f = (List.finRange maxCreds).filterMap g ↔ ∀ i, f i = g i := by
  have find : ∀ {f g : Fin maxCreds → Option α}, (∀ i x, f i = some x → slot x = i) → (∀ i x, g i = some x → slot x = i) →
      (List.finRange maxCreds).filterMap f = (List.finRange maxCreds).filterMap g → ∀ i x, f i = some x → g i = some x := by
    intro f g hf hg h i x hx
    have hmem : x ∈ (List.finRange maxCreds).filterMap g := h ▸ List.mem_filterMap.mpr ⟨i, List.mem_finRange i, hx⟩
    obtain ⟨j, -, hj⟩ := List.mem_filterMap.mp hmem
    have hij : i = j := Fin.ext ((hf i x hx).symm.trans (hg j x hj))
    rwa [hij]
  constructor
  · intro h i
    ext x
    exact ⟨find hf hg h i x, find hg hf h.symm i x⟩
  · intro h
    rw [funext h]

/-- What the companion makes of a slot. -/
def DiskCred.record? (slot : Fin maxCreds) (c : DiskCred) : Option SlotEntry :=
  if c.inUse = 1 then
    some ⟨slot, c.credId.toList, c.privKey.toList, c.pubKey.toList, c.userId.toList, c.userIdLen.toNat, c.hmacSecret.toList⟩
  else none

/-- What the driver makes of it. -/
def Credential.slotEntry (slot : Fin maxCreds) (c : Credential) : Option SlotEntry :=
  if c.inUse then some (c.entry slot) else none

theorem record?_slot {c : Fin maxCreds → DiskCred} (slot : Fin maxCreds) (e : SlotEntry)
    (h : (c slot).record? slot = some e) : e.slot = slot := by
  rw [DiskCred.record?] at h
  split at h
  · cases h
    rfl
  · cases h

theorem slotEntry_slot {c : Fin maxCreds → Credential} (slot : Fin maxCreds) (e : SlotEntry)
    (h : (c slot).slotEntry slot = some e) : e.slot = slot := by
  rw [Credential.slotEntry] at h
  split at h
  · cases h
    rfl
  · cases h

/-- A slot is read alike exactly when it is plain. -/
theorem record?_eq_slotEntry_iff (slot : Fin maxCreds) (c : DiskCred) :
    c.record? slot = c.load.slotEntry slot ↔ c.inUse = 0 ∨ (c.inUse = 1 ∧ c.userIdLen ≤ 64) := by
  have hload : c.load.inUse = (c.inUse != 0) := rfl
  have hlen : c.load.userIdLen = minU8 c.userIdLen 64 := rfl
  rw [DiskCred.record?, Credential.slotEntry, hload]
  by_cases hzero : c.inUse = 0
  · simp [hzero]
  by_cases hone : c.inUse = 1
  · have hsame : (⟨slot, c.credId.toList, c.privKey.toList, c.pubKey.toList, c.userId.toList, c.userIdLen.toNat,
        c.hmacSecret.toList⟩ : SlotEntry) = c.load.entry slot ↔ c.userIdLen = minU8 c.userIdLen 64 := by
      rw [Credential.entry, SlotEntry.mk.injEq, hlen]
      constructor
      · rintro ⟨-, -, -, -, -, h, -⟩
        exact UInt8.toNat_inj.mp (by exact_mod_cast h)
      · intro h
        rw [← h]
        exact ⟨rfl, rfl, rfl, rfl, rfl, rfl, rfl⟩
    have hclamp : c.userIdLen = minU8 c.userIdLen 64 ↔ c.userIdLen ≤ 64 :=
      ⟨fun h => h ▸ minU8_le_right _ _, fun h => (minU8_of_le h).symm⟩
    simp [hone, hsame, hclamp]
  · simp [hzero, hone]

theorem entries_eq (st : Store) :
    st.entries = (List.finRange maxCreds).filterMap fun slot => (st.creds slot).slotEntry slot := by
  rw [Store.entries, Store.used, ← List.filterMap_eq_filter, List.map_filterMap]
  refine List.filterMap_congr fun slot _ => ?_
  rw [Credential.slotEntry]
  cases h : (st.creds slot).inUse <;> simp [Option.guard, h]

namespace FidoStoreBlob

/-- A read of an array of a slot. -/
theorem copyOfRange_slot (b : FidoStoreBlob) (slot : Fin maxCreds) {n : Nat} (F : Field diskCredCodec (Codec.bytes n)) :
    copyOfRange b.raw (slotOffset slot + F.off) n = (F.get (b.disk.creds slot)).toList := by
  have h := ((slotAt slot).comp F).take_drop_enc b.disk
  rw [← StoreDisk.bytes, b.disk_bytes] at h
  exact h

/-- A read of a byte of a slot. -/
theorem getD_slot (b : FidoStoreBlob) (slot : Fin maxCreds) (F : Field diskCredCodec Codec.u8) :
    b.raw.getD (slotOffset slot + F.off) 0 = F.get (b.disk.creds slot) := by
  have h := b.dec_drop_raw ((slotAt slot).comp F)
  have hget : b.raw.getD (slotOffset slot + F.off) 0 = (b.raw.drop (slotOffset slot + F.off)).headD 0 := by
    rw [List.getD_eq_getElem?_getD, ← List.head?_drop]
    cases b.raw.drop (slotOffset slot + F.off) <;> rfl
  rw [hget]
  exact h

theorem credentialAt_entry (b : FidoStoreBlob) (slot : Fin maxCreds) :
    (b.credentialAt slot).map FidoCredentialRecord.entry = (b.disk.creds slot).record? slot := by
  have hcredId := b.copyOfRange_slot slot (DiskCred.v1Field.comp DiskCredV1.credIdField)
  have huserId := b.copyOfRange_slot slot (DiskCred.v1Field.comp DiskCredV1.userIdField)
  have hprivKey := b.copyOfRange_slot slot (DiskCred.v1Field.comp DiskCredV1.privKeyField)
  have hpubKey := b.copyOfRange_slot slot (DiskCred.v1Field.comp DiskCredV1.pubKeyField)
  have hsecret := b.copyOfRange_slot slot DiskCred.hmacSecretField
  have hlen := b.getD_slot slot (DiskCred.v1Field.comp DiskCredV1.userIdLenField)
  rw [credentialAt, DiskCred.record?, b.inUseByte_eq]
  by_cases hone : (b.disk.creds slot).inUse = 1
  · rw [if_neg (not_not_intro hone), if_pos hone, Option.map_some, Option.some.injEq, FidoCredentialRecord.entry,
      SlotEntry.mk.injEq]
    exact ⟨rfl, hcredId, hprivKey, hpubKey, huserId, congrArg (fun len : UInt8 => (len.toNat : Int)) hlen, hsecret⟩
  · rw [if_pos hone, if_neg hone]
    rfl

theorem credentials_entry (b : FidoStoreBlob) : b.credentials.map FidoCredentialRecord.entry =
    (List.finRange maxCreds).filterMap fun slot => (b.disk.creds slot).record? slot := by
  rw [credentials, List.map_filterMap]
  exact List.filterMap_congr fun slot _ => b.credentialAt_entry slot

/-- **The slots are listed alike** exactly when all are plain. -/
theorem credentials_eq_entries_iff {b : FidoStoreBlob} {st : Store} (h : ∀ slot, st.creds slot = (b.disk.creds slot).load) :
    b.credentials.map FidoCredentialRecord.entry = st.entries ↔
      ∀ slot, (b.disk.creds slot).inUse = 0 ∨ ((b.disk.creds slot).inUse = 1 ∧ (b.disk.creds slot).userIdLen ≤ 64) := by
  rw [credentials_entry, entries_eq, filterMap_eq_iff SlotEntry.slot record?_slot slotEntry_slot]
  refine forall_congr' fun slot => ?_
  rw [h slot]
  exact record?_eq_slotEntry_iff slot _

end FidoStoreBlob

/-! ## The upgrade -/

/-- A slot of version 1 written over that of a structure. -/
theorem splice_v1Slot (d : StoreDisk DiskCred) (slot : Fin maxCreds) (c : DiskCredV1) :
    splice d.bytes (slotOffset slot) (diskCredV1Codec.enc c) =
      (d.setSlot slot { d.creds slot with toDiskCredV1 := c }).bytes := by
  have hself : d.setSlot slot (d.creds slot) = d := by simp [StoreDisk.setSlot]
  have h := splice_member d slot (d.creds slot) DiskCred.v1Field c
  rwa [hself] at h

/-- The bytes of a slot of a version 1 blob. -/
theorem copyOfRange_v1Slot {bytes : List UInt8} (h : storeDiskV1Size ≤ bytes.length) (slot : Fin maxCreds) :
    copyOfRange bytes (headerSize + slot * credSizeV1) credSizeV1 =
      diskCredV1Codec.enc (((storeDiskCodec diskCredV1Codec).dec bytes).creds slot) := by
  have hslot := slot.isLt
  have hsize : diskCredV1Codec.size = credSizeV1 := rfl
  have hdec : ((storeDiskCodec diskCredV1Codec).dec bytes).creds slot =
      diskCredV1Codec.dec (bytes.drop (headerSize + slot * credSizeV1)) :=
    ((@StoreDisk.slotField DiskCredV1 diskCredV1Codec slot).dec_drop_dec h).symm
  rw [hdec, Codec.enc_dec, hsize]
  · rfl
  · rw [hsize, List.length_drop]
    simp only [storeDiskV1Size, headerSize, credSizeV1, maxCreds] at *
    omega

theorem hmacSecret_dec {raw : List UInt8} (h : raw.length = storeDiskSize) (slot : Fin maxCreds) :
    (((storeDiskCodec diskCredCodec).dec raw).creds slot).hmacSecret =
      (Codec.bytes 32).dec (raw.drop (headerSize + (slot * credSize + 452))) := by
  have hread := ((slotAt slot).comp DiskCred.hmacSecretField).dec_drop_dec h.ge
  have hoff : ((slotAt slot).comp DiskCred.hmacSecretField).off = headerSize + (slot * credSize + 452) := Nat.add_assoc ..
  rw [hoff] at hread
  exact hread.symm

/-- The upgrade puts every version 1 slot in its place, and no hmac-secret. -/
theorem upgrade_creds {bytes : List UInt8} (h : storeDiskV1Size ≤ bytes.length) (slot : Fin maxCreds) :
    ((storeDiskCodec diskCredCodec).dec (upgrade bytes)).creds slot =
      { toDiskCredV1 := ((storeDiskCodec diskCredV1Codec).dec bytes).creds slot, hmacSecret := zeros 32 } := by
  let v1 := (storeDiskCodec diskCredV1Codec).dec bytes
  have hfold : ∀ (slots : List (Fin maxCreds)) (d : StoreDisk DiskCred), ∃ d' : StoreDisk DiskCred,
      slots.foldl (fun normalized slot =>
        splice normalized (slotOffset slot) (copyOfRange bytes (headerSize + slot * credSizeV1) credSizeV1)) d.bytes =
        d'.bytes ∧
      ∀ i, d'.creds i = if i ∈ slots then { d.creds i with toDiskCredV1 := v1.creds i } else d.creds i := by
    intro slots
    induction slots with
    | nil => exact fun d => ⟨d, rfl, fun i => by simp⟩
    | cons first rest ih =>
      intro d
      obtain ⟨d', hd', hcreds⟩ := ih (d.setSlot first { d.creds first with toDiskCredV1 := v1.creds first })
      refine ⟨d', ?_, fun i => ?_⟩
      · rw [List.foldl_cons, copyOfRange_v1Slot h, splice_v1Slot]
        exact hd'
      · rw [hcreds i]
        by_cases hi : i = first
        · subst hi
          simp [StoreDisk.setSlot]
        · simp [StoreDisk.setSlot, hi]
  let header := splice (List.replicate storeDiskSize 0) 0 (bytes.take headerSize)
  have hlong : headerSize ≤ bytes.length := by
    simp only [headerSize, storeDiskV1Size] at *
    omega
  have htake : (bytes.take headerSize).length = headerSize := by rw [List.length_take, min_eq_left hlong]
  have hlen : header.length = storeDiskSize := by
    rw [length_splice, List.length_replicate]
    rw [htake, List.length_replicate]
    decide
  obtain ⟨d', hd', hcreds⟩ := hfold (List.finRange maxCreds) ((storeDiskCodec diskCredCodec).dec header)
  have hbytes : ((storeDiskCodec diskCredCodec).dec header).bytes = header := Codec.enc_dec_self _ hlen
  have hupgrade : upgrade bytes = d'.bytes := by
    rw [hbytes] at hd'
    exact hd'
  rw [hupgrade, StoreDisk.bytes, Codec.dec_enc_self, hcreds slot, if_pos (List.mem_finRange slot)]
  have hsecret : (((storeDiskCodec diskCredCodec).dec header).creds slot).hmacSecret = zeros 32 := by
    have hzeros : header.drop (headerSize + (slot * credSize + 452)) =
        List.replicate (storeDiskSize - (headerSize + (slot * credSize + 452))) 0 := by
      simp only [header, splice, List.take_zero, List.nil_append, htake, Nat.zero_add]
      rw [← List.drop_drop, List.drop_left' htake, List.drop_drop, List.drop_replicate]
    rw [hmacSecret_dec hlen, hzeros]
    apply Subtype.ext
    show (List.replicate _ 0).take 32 ++ List.replicate (32 - (List.replicate _ _).length) 0 = List.replicate 32 0
    have hfits := slot_fits slot
    have hrest : 32 ≤ storeDiskSize - (headerSize + (slot * credSize + 452)) := by
      simp only [slotOffset, headerSize, credSize] at *
      omega
    rw [List.take_replicate, List.length_replicate, min_eq_left hrest, Nat.sub_eq_zero_of_le hrest]
    rfl
  dsimp only
  rw [hsecret]

/-! ## Who takes a blob -/

theorem readIntLe_take (bytes : List UInt8) {off size : Nat} (h : off + 4 ≤ size) :
    readIntLe (bytes.take size) off = readIntLe bytes off := by
  have hget : ∀ k, k < 4 → ((bytes.take size).drop off).getD k 0 = (bytes.drop off).getD k 0 := by
    intro k hk
    simp only [List.getD_eq_getElem?_getD, List.getElem?_drop, List.getElem?_take]
    rw [if_pos (by omega)]
  simp only [readIntLe, Codec.u32le, hget 0 (by decide), hget 1 (by decide), hget 2 (by decide), hget 3 (by decide)]

/-- The loader of either version, on the bytes of its structure. -/
theorem storeFromDisk_ok_iff {κ : Type} (slot : Codec κ) (load : κ → Credential) (version : UInt32) {bytes : List UInt8}
    {size : Nat} (hsize : 12 ≤ size) (hlen : size ≤ bytes.length) (s : Store) :
    storeFromDisk slot load version (bytes.take size) = .ok s ↔
      HasForm bytes version size ∧ (crcOk bytes size ∨ legacyCrcOk bytes size) ∧
        s = ((storeDiskCodec slot).dec (bytes.take size)).store load := by
  have hmagic : ((storeDiskCodec slot).dec (bytes.take size)).magic = readIntLe bytes offMagic := by
    rw [← readIntLe_take bytes (show offMagic + 4 ≤ size by simp only [offMagic]; omega), readIntLe, offMagic, List.drop_zero]
    rfl
  have hversion : ((storeDiskCodec slot).dec (bytes.take size)).version = readIntLe bytes offVersion := by
    rw [dec_version, ← readIntLe_take bytes (show offVersion + 4 ≤ size by simp only [offVersion]; omega), readIntLe,
      offVersion]
  have hcrc : ((storeDiskCodec slot).dec (bytes.take size)).crc32 = readIntLe bytes offCrc32 := by
    rw [← readIntLe_take bytes (show offCrc32 + 4 ≤ size by simp only [offCrc32]; omega), readIntLe, offCrc32,
      show (8 : Nat) = 4 + 4 from rfl, ← List.drop_drop]
    rfl
  simp only [storeFromDisk, hmagic, hversion, hcrc, HasForm, crcOk, legacyCrcOk, beq_iff_eq]
  by_cases hm : readIntLe bytes offMagic = storeMagic
  · by_cases hv : readIntLe bytes offVersion = version
    · by_cases hc : storeCrc32Range (bytes.take size) = readIntLe bytes offCrc32 ∨
          legacyCrc32Range (bytes.take size) = readIntLe bytes offCrc32
      · rw [if_neg (not_not_intro hm), if_neg (not_not_intro hv), if_neg (by tauto), Except.ok.injEq]
        exact ⟨fun h => ⟨⟨hm, hv, hlen⟩, hc, h.symm⟩, fun h => h.2.2.symm⟩
      · rw [if_neg (not_not_intro hm), if_neg (not_not_intro hv), if_pos (by tauto)]
        exact ⟨fun h => (by cases h), fun h => absurd h.2.1 hc⟩
    · rw [if_neg (not_not_intro hm), if_pos hv]
      exact ⟨fun h => (by cases h), fun h => absurd h.1.2.1 hv⟩
  · rw [if_pos hm]
    exact ⟨fun h => (by cases h), fun h => absurd h.1.1 hm⟩

theorem map_ok_iff {x : Except Errno Store} {v1 : Bool} {r : Store × Bool} :
    x.map (·, v1) = .ok r ↔ ∃ s, x = .ok s ∧ r = (s, v1) := by
  cases x <;> simp [Except.map, eq_comm]

/-- What the loader takes: the first bytes of a long file, or exactly a version 1 blob. -/
theorem read_ok_iff (bytes : List UInt8) (r : Store × Bool) :
    readStoreFromPathLocked .ok (some bytes) = .ok r ↔
      (HasForm bytes storeVersion storeDiskSize ∧ (crcOk bytes storeDiskSize ∨ legacyCrcOk bytes storeDiskSize) ∧
        r = (((storeDiskCodec diskCredCodec).dec (bytes.take storeDiskSize)).store DiskCred.load, false)) ∨
      (HasForm bytes storeVersionLegacy storeDiskV1Size ∧ bytes.length = storeDiskV1Size ∧
        (crcOk bytes storeDiskV1Size ∨ legacyCrcOk bytes storeDiskV1Size) ∧
        r = (((storeDiskCodec diskCredV1Codec).dec (bytes.take storeDiskV1Size)).store DiskCredV1.load, true)) := by
  have hne : storeDiskSize ≠ storeDiskV1Size := by decide
  have hle : storeDiskV1Size ≤ storeDiskSize := by decide
  simp only [readStoreFromPathLocked, loadRead]
  by_cases hlong : storeDiskSize ≤ bytes.length
  · have hread : (bytes.take storeDiskSize).length = storeDiskSize := by rw [List.length_take, min_eq_left hlong]
    have hload := storeFromDisk_ok_iff diskCredCodec DiskCred.load storeVersion (by decide) hlong
    rw [hread, if_neg hne, if_pos rfl, map_ok_iff]
    simp only [storeFromDiskInto, hload]
    constructor
    · rintro ⟨s, ⟨hform, hcrc, rfl⟩, rfl⟩
      exact .inl ⟨hform, hcrc, rfl⟩
    · rintro (⟨hform, hcrc, rfl⟩ | ⟨-, hlen, -⟩)
      · exact ⟨_, ⟨hform, hcrc, rfl⟩, rfl⟩
      · omega
  have hall : bytes.take storeDiskSize = bytes := List.take_of_length_le (by omega)
  by_cases hlen : bytes.length = storeDiskV1Size
  · have hload := storeFromDisk_ok_iff diskCredV1Codec DiskCredV1.load storeVersionLegacy (by decide) hlen.ge
    have htake : bytes.take storeDiskV1Size = bytes := List.take_of_length_le hlen.le
    rw [htake] at hload
    rw [hall, if_pos hlen, map_ok_iff, htake]
    simp only [storeFromDiskV1Into, hload]
    constructor
    · rintro ⟨s, ⟨hform, hcrc, rfl⟩, rfl⟩
      exact .inr ⟨hform, hlen, hcrc, rfl⟩
    · rintro (⟨⟨-, -, hlong'⟩, -⟩ | ⟨hform, -, hcrc, rfl⟩)
      · exact absurd hlong' hlong
      · exact ⟨_, ⟨hform, hcrc, rfl⟩, rfl⟩
  · rw [hall, if_neg hlen, if_neg (by omega)]
    constructor
    · intro h
      cases h
    · rintro (⟨⟨-, -, hlong'⟩, -⟩ | ⟨-, hlen', -⟩)
      · exact absurd hlong' hlong
      · exact absurd hlen' hlen

/-- What the companion takes. -/
theorem FidoStoreBlob.parse_eq_some_iff (bytes : List UInt8) (b : FidoStoreBlob) :
    parse bytes false = some b ↔
      (HasForm bytes storeVersion storeDiskSize ∧ crcOk bytes storeDiskSize ∧ b.raw = bytes.take storeDiskSize) ∨
      (HasForm bytes storeVersionLegacy storeDiskV1Size ∧ crcOk bytes storeDiskV1Size ∧ b.raw = upgrade bytes) := by
  have hheader : headerSize ≤ storeDiskV1Size := by decide
  have hle : storeDiskV1Size ≤ storeDiskSize := by decide
  have hversions : storeVersion ≠ storeVersionLegacy := by decide
  have heq : ∀ (raw : List UInt8) (h : raw.length = storeDiskSize), some (⟨raw, h⟩ : FidoStoreBlob) = some b ↔ b.raw = raw := by
    intro raw h
    obtain ⟨raw', h'⟩ := b
    simp [eq_comm]
  unfold parse
  split
  · next hshort => simp only [reduceCtorEq, HasForm, false_iff]; omega
  split
  · next hmagic => simp [HasForm, hmagic]
  next hmagic =>
  rw [not_not] at hmagic
  split
  · next h2 =>
    have hform : HasForm bytes storeVersion storeDiskSize := ⟨hmagic, h2⟩
    have hform' : ¬ HasForm bytes storeVersionLegacy storeDiskV1Size := fun h => hversions (h2.1.symm.trans h.2.1)
    cases hcrc : crcOk bytes storeDiskSize
    · simp [hform']
    · simp [hform, hform', heq]
  next h2 =>
  have hform : ¬ HasForm bytes storeVersion storeDiskSize := fun h => h2 h.2
  split
  · next h1 =>
    have hform' : HasForm bytes storeVersionLegacy storeDiskV1Size := ⟨hmagic, h1⟩
    cases hcrc : crcOk bytes storeDiskV1Size
    · simp [hform]
    · simp [hform, hform', heq]
  · next h1 =>
    have hform' : ¬ HasForm bytes storeVersionLegacy storeDiskV1Size := fun h => h1 h.2
    simp [hform, hform']

/-! ## Agreement -/

theorem getD_eq_dec (bytes : List UInt8) (off : Nat) : bytes.getD off 0 = Codec.u8.dec (bytes.drop off) := by
  rw [List.getD_eq_getElem?_getD, ← List.head?_drop]
  cases bytes.drop off <;> rfl

section
variable {bytes : List UInt8}

theorem sameBlobs_of_some {b : FidoStoreBlob} {st : Store} {v1 : Bool} (hb : FidoStoreBlob.parse bytes false = some b)
    (hr : readStoreFromPathLocked .ok (some bytes) = .ok (st, v1)) :
    SameBlobs bytes ↔ b.credentials.map FidoCredentialRecord.entry = st.entries := by
  rw [SameBlobs, hb, hr]

theorem sameBlobs_of_none (hb : FidoStoreBlob.parse bytes false = none) :
    SameBlobs bytes ↔ ∀ r, readStoreFromPathLocked .ok (some bytes) ≠ .ok r := by
  rw [SameBlobs, hb]
  generalize readStoreFromPathLocked .ok (some bytes) = read
  cases read <;> simp

theorem sameBlobs_of_refused (hr : ∀ r, readStoreFromPathLocked .ok (some bytes) ≠ .ok r) :
    SameBlobs bytes ↔ FidoStoreBlob.parse bytes false = none := by
  rw [SameBlobs]
  generalize readStoreFromPathLocked .ok (some bytes) = read at hr
  cases read with
  | ok r => exact absurd rfl (hr r)
  | error e => cases FidoStoreBlob.parse bytes false <;> simp

/-- A blob both read as one structure of `size` bytes. -/
theorem sameBlobs_iff_plainSeal {size stride : Nat} {b : FidoStoreBlob} {st : Store} {v1 : Bool}
    (hparse : ∀ b', FidoStoreBlob.parse bytes false = some b' ↔ crcOk bytes size ∧ b'.raw = b.raw)
    (hread : ∀ r, readStoreFromPathLocked .ok (some bytes) = .ok r ↔
      (crcOk bytes size ∨ legacyCrcOk bytes size) ∧ r = (st, v1))
    (hst : ∀ slot, st.creds slot = (b.disk.creds slot).load)
    (hslot : ∀ slot : Fin maxCreds, (b.disk.creds slot).inUse = bytes.getD (headerSize + slot * stride) 0 ∧
      (b.disk.creds slot).userIdLen = bytes.getD (headerSize + slot * stride + 2) 0) :
    SameBlobs bytes ↔ PlainSeal bytes size stride := by
  rw [PlainSeal]
  cases hcrc : crcOk bytes size
  · have hnone : FidoStoreBlob.parse bytes false = none := by
      refine Option.eq_none_iff_forall_ne_some.mpr fun b' h => ?_
      have hok := ((hparse b').mp h).1
      rw [hcrc] at hok
      cases hok
    rw [sameBlobs_of_none hnone]
    simp [hread, hcrc]
  · rw [sameBlobs_of_some ((hparse b).mpr ⟨hcrc, rfl⟩) ((hread (st, v1)).mpr ⟨.inl hcrc, rfl⟩), if_pos rfl,
      FidoStoreBlob.credentials_eq_entries_iff hst]
    refine forall_congr' fun slot => ?_
    rw [(hslot slot).1, (hslot slot).2]

/-- A version 2 blob. -/
theorem sameBlobs_v2 (h : HasForm bytes storeVersion storeDiskSize) :
    SameBlobs bytes ↔ PlainSeal bytes storeDiskSize credSize := by
  have hother : ¬ HasForm bytes storeVersionLegacy storeDiskV1Size := fun h' =>
    absurd (h.2.1.symm.trans h'.2.1) (by decide)
  have hlen : (bytes.take storeDiskSize).length = storeDiskSize := by rw [List.length_take, min_eq_left h.2.2]
  let b : FidoStoreBlob := ⟨bytes.take storeDiskSize, hlen⟩
  have hget : ∀ off, off < storeDiskSize → b.raw.getD off 0 = bytes.getD off 0 := by
    intro off hoff
    simp only [b, List.getD_eq_getElem?_getD, List.getElem?_take, if_pos hoff]
  have hread : ∀ r, readStoreFromPathLocked .ok (some bytes) = .ok r ↔
      (crcOk bytes storeDiskSize ∨ legacyCrcOk bytes storeDiskSize) ∧ r = (b.store, false) := by
    intro r
    simp only [read_ok_iff, h, hother, true_and, false_and, or_false]
    rfl
  refine sameBlobs_iff_plainSeal (b := b) (fun b' => ?_) hread (fun slot => rfl) (fun slot => ?_)
  · simp [FidoStoreBlob.parse_eq_some_iff, h, hother, b]
  · have hfits := slot_fits slot
    simp only [slotOffset, credSize] at hfits
    have hinUse := b.getD_slot slot (DiskCred.v1Field.comp DiskCredV1.inUseField)
    have hlen := b.getD_slot slot (DiskCred.v1Field.comp DiskCredV1.userIdLenField)
    refine ⟨hinUse.symm.trans (hget _ ?_), hlen.symm.trans (hget _ ?_)⟩
    · show headerSize + slot * 484 < storeDiskSize
      omega
    · show headerSize + slot * 484 + 2 < storeDiskSize
      omega

/-- A version 1 blob and no more. -/
theorem sameBlobs_v1 (h : HasForm bytes storeVersionLegacy storeDiskV1Size) (hlen : bytes.length = storeDiskV1Size) :
    SameBlobs bytes ↔ PlainSeal bytes storeDiskV1Size credSizeV1 := by
  have hother : ¬ HasForm bytes storeVersion storeDiskSize := fun h' =>
    absurd (h.2.1.symm.trans h'.2.1) (by decide)
  have htake : bytes.take storeDiskV1Size = bytes := List.take_of_length_le hlen.le
  let b : FidoStoreBlob := ⟨upgrade bytes, length_upgrade bytes⟩
  have hcreds : ∀ slot, b.disk.creds slot =
      { toDiskCredV1 := ((storeDiskCodec diskCredV1Codec).dec bytes).creds slot, hmacSecret := zeros 32 } :=
    upgrade_creds h.2.2
  have hslot : ∀ slot (F : Field diskCredV1Codec Codec.u8), F.get (((storeDiskCodec diskCredV1Codec).dec bytes).creds slot) =
      bytes.getD (headerSize + slot * credSizeV1 + F.off) 0 := by
    intro slot F
    rw [getD_eq_dec]
    exact (((@StoreDisk.slotField DiskCredV1 diskCredV1Codec slot).comp F).dec_drop_dec h.2.2).symm
  have hread : ∀ r, readStoreFromPathLocked .ok (some bytes) = .ok r ↔
      (crcOk bytes storeDiskV1Size ∨ legacyCrcOk bytes storeDiskV1Size) ∧
        r = (((storeDiskCodec diskCredV1Codec).dec bytes).store DiskCredV1.load, true) := by
    intro r
    simp only [read_ok_iff, h, hother, hlen, htake, true_and, false_and, false_or]
  refine sameBlobs_iff_plainSeal (b := b) (fun b' => ?_) hread (fun slot => ?_) (fun slot => ?_)
  · simp [FidoStoreBlob.parse_eq_some_iff, h, hother, b]
  · rw [hcreds slot]
    rfl
  · rw [hcreds slot]
    exact ⟨hslot slot DiskCredV1.inUseField, hslot slot DiskCredV1.userIdLenField⟩

end

/-- **When the two agree on a blob**: exactly when it has one reading. -/
theorem sameBlobs_iff (bytes : List UInt8) : SameBlobs bytes ↔ OneReading bytes := by
  rw [OneReading]
  by_cases h2 : HasForm bytes storeVersion storeDiskSize
  · have hother : ¬ HasForm bytes storeVersionLegacy storeDiskV1Size := fun h' =>
      absurd (h2.2.1.symm.trans h'.2.1) (by decide)
    rw [sameBlobs_v2 h2]
    exact ⟨fun h => ⟨fun _ => h, fun h' => absurd h' hother⟩, fun h => h.1 h2⟩
  by_cases h1 : HasForm bytes storeVersionLegacy storeDiskV1Size
  · by_cases hlen : bytes.length = storeDiskV1Size
    · rw [sameBlobs_v1 h1 hlen, if_pos hlen]
      exact ⟨fun h => ⟨fun h' => absurd h' h2, fun _ => h⟩, fun h => h.2 h1⟩
    · have hrefused : ∀ r, readStoreFromPathLocked .ok (some bytes) ≠ .ok r := by
        intro r hr
        simp [read_ok_iff, h2, hlen] at hr
      have hparse : FidoStoreBlob.parse bytes false = none ↔ crcOk bytes storeDiskV1Size = false := by
        rw [Option.eq_none_iff_forall_ne_some]
        simp only [ne_eq, FidoStoreBlob.parse_eq_some_iff, h2, h1, false_and, false_or, true_and, not_and]
        constructor
        · intro h
          by_contra hcrc
          exact h ⟨upgrade bytes, length_upgrade bytes⟩ (by simpa using hcrc) rfl
        · intro h b hcrc
          rw [h] at hcrc
          cases hcrc
      rw [sameBlobs_of_refused hrefused, hparse, if_neg hlen]
      exact ⟨fun h => ⟨fun h' => absurd h' h2, fun _ => h⟩, fun h => h.2 h1⟩
  · have hrefused : ∀ r, readStoreFromPathLocked .ok (some bytes) ≠ .ok r := by
      intro r hr
      simp [read_ok_iff, h2, h1] at hr
    have hnone : FidoStoreBlob.parse bytes false = none := by
      refine Option.eq_none_iff_forall_ne_some.mpr fun b hb => ?_
      simp [FidoStoreBlob.parse_eq_some_iff, h2, h1] at hb
    rw [sameBlobs_of_refused hrefused]
    exact ⟨fun _ => ⟨fun h => absurd h h2, fun h => absurd h h1⟩, fun _ => hnone⟩

/-- The header of a sealed blob, whatever follows it. -/
theorem hasForm_sealed {κ : Type} (slot : Codec κ) (version : UInt32) (crc : List UInt8 → UInt32) (d : StoreDisk κ)
    (rest : List UInt8) :
    HasForm (d.sealed slot version crc ++ rest) version (storeDiskCodec slot).size ∧
      readIntLe (d.sealed slot version crc ++ rest) offCrc32 = crc ((storeDiskCodec slot).enc d) := by
  refine ⟨⟨StoreDisk.magicField.dec_drop _ rest, StoreDisk.versionField.dec_drop _ rest, ?_⟩,
    StoreDisk.crc32Field.dec_drop _ rest⟩
  rw [List.length_append, StoreDisk.sealed, Codec.length_enc]
  omega

/-- A version 1 blob with one byte after it: the companion takes it, the driver does not. -/
theorem not_sameBlobs_longer :
    ¬ SameBlobs (strayDisk.sealed diskCredV1Codec storeVersionLegacy storeCrc32Range ++ [0]) := by
  have hlen : (strayDisk.sealed diskCredV1Codec storeVersionLegacy storeCrc32Range).length = storeDiskV1Size :=
    Codec.length_enc ..
  have hseal : storeCrc32Range (strayDisk.sealed diskCredV1Codec storeVersionLegacy storeCrc32Range) =
      storeCrc32Range ((storeDiskCodec diskCredV1Codec).enc strayDisk) := CrcForm.sealed (.inl rfl) strayDisk
  obtain ⟨hform, hread⟩ := hasForm_sealed diskCredV1Codec storeVersionLegacy storeCrc32Range strayDisk [0]
  generalize strayDisk.sealed diskCredV1Codec storeVersionLegacy storeCrc32Range = blob at *
  have hcrc : crcOk (blob ++ [0]) storeDiskV1Size = true := by
    rw [crcOk, List.take_left' hlen, hread, hseal]
    exact beq_self_eq_true _
  have hrefused : ∀ r, readStoreFromPathLocked .ok (some (blob ++ [0])) ≠ .ok r := by
    intro r hr
    rcases (read_ok_iff _ r).mp hr with ⟨⟨-, -, h⟩, -⟩ | ⟨-, h, -⟩
    · rw [List.length_append, hlen] at h
      exact absurd h (by decide)
    · rw [List.length_append, hlen] at h
      exact absurd h (by decide)
  rw [sameBlobs_of_refused hrefused]
  intro hnone
  have hsome := (FidoStoreBlob.parse_eq_some_iff (blob ++ [0]) ⟨upgrade (blob ++ [0]), length_upgrade _⟩).mpr
    (.inr ⟨hform, hcrc, rfl⟩)
  rw [hnone] at hsome
  cases hsome

end AbkFido
