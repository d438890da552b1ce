/-
What the companion's edits mean to the driver.

A blob is the encoding of a disk structure, and so of a store
(`FidoStoreBlob.store`). An edit of its bytes edits that store: one slot
emptied, renamed or filled, and nothing else; and the driver's loader takes
`toBytes` and finds the edited store (`storeFromDiskInto_toBytes`).
-/
import AbkFido.App.Blob
import AbkFido.DiskFields
import AbkFido.StoreFacts

namespace AbkFido

open Layout

/-! ## Stores, edited -/

/-- A string as `writeCString` leaves it in its field. -/
def nameField (n : Nat) (value : List UInt8) : Bytes n := (Codec.bytes n).dec (value.take (clippedLength n value))

/-- The slot a record is stored as. -/
def FidoCredentialRecord.toDisk (r : FidoCredentialRecord) : DiskCred where
  inUse := 1
  resident := if r.resident then 1 else 0
  userIdLen := r.userIdLenByte
  reserved0 := 0
  credId := (Codec.bytes 32).dec (r.credId.take lenCredId)
  userId := (Codec.bytes 64).dec (r.userId.take lenUserId)
  rpId := nameField 128 r.rpId
  userName := nameField 64 r.userName
  userDisplay := nameField 64 r.userDisplay
  privKey := (Codec.bytes 32).dec (r.privKey.take lenPrivKey)
  pubKey := (Codec.bytes 64).dec (r.pubKey.take lenPubKey)
  hmacSecret := (Codec.bytes 32).dec (r.hmacSecret.take lenHmacSecret)

namespace Store

def withoutSlot (st : Store) (slot : Fin maxCreds) : Store :=
  { st with creds := Function.update st.creds slot .zero }

def withRenamedSlot (st : Store) (slot : Fin maxCreds) (userName userDisplay : List UInt8) : Store :=
  let c := st.creds slot
  let renamed : Credential :=
    { c with
      userName := .ofDisk 64 (nameField 64 userName)
      userDisplay := .ofDisk 64 (nameField 64 userDisplay) }
  { st with creds := Function.update st.creds slot renamed }

/-- The first slot that is not in use, if there is one. -/
def withCredential (st : Store) (record : FidoCredentialRecord) : Option Store :=
  ((List.finRange maxCreds).find? fun slot => !(st.creds slot).inUse).map fun slot =>
    { st with creds := Function.update st.creds slot record.toDisk.load }

end Store

/-! ## Writes into a slot -/

abbrev StoreDisk.bytes (d : StoreDisk DiskCred) : List UInt8 := (storeDiskCodec diskCredCodec).enc d

/-- A slot of a blob. -/
abbrev slotAt (slot : Fin maxCreds) : Field (storeDiskCodec diskCredCodec) diskCredCodec := StoreDisk.slotField slot

section
variable (d : StoreDisk DiskCred) (slot : Fin maxCreds) (c : DiskCred)

/-- A slot zeroed; the companion's constants are the offsets of the C structure. -/
theorem splice_cleared : splice d.bytes (slotOffset slot) (List.replicate credSize 0) = (d.setSlot slot .zero).bytes := by
  have h := (slotAt slot).splice_enc d DiskCred.zero
  rw [DiskCred.enc_zero] at h
  exact h

/-- A write of a whole member. -/
theorem splice_member {β : Type} {B : Codec β} (F : Field diskCredCodec B) (b : β) :
    splice (d.setSlot slot c).bytes (slotOffset slot + F.off) (B.enc b) = (d.setSlot slot (F.set b c)).bytes := by
  have h := ((slotAt slot).comp F).splice_enc (d.setSlot slot c) b
  have hget : (slotAt slot).get (d.setSlot slot c) = c := (slotAt slot).get_set d c
  have hset : ((slotAt slot).comp F).set b (d.setSlot slot c) = d.setSlot slot (F.set b c) := by
    show (slotAt slot).set (F.set b ((slotAt slot).get (d.setSlot slot c))) (d.setSlot slot c) = _
    rw [hget]
    exact (slotAt slot).set_set d c _
  rw [hset] at h
  exact h

/-- A shorter array over one of zeros. -/
theorem splice_array {n : Nat} (F : Field diskCredCodec (Codec.bytes n)) (hzero : F.get c = zeros n)
    {data : List UInt8} (hdata : data.length ≤ n) :
    splice (d.setSlot slot c).bytes (slotOffset slot + F.off) data =
      (d.setSlot slot (F.set ((Codec.bytes n).dec data) c)).bytes := by
  have hpad : ((Codec.bytes n).enc ((Codec.bytes n).dec data)) = data ++ List.replicate (n - data.length) 0 := by
    show data.take n ++ List.replicate (n - data.length) 0 = _
    rw [List.take_of_length_le hdata]
  have hget : ((slotAt slot).comp F).get (d.setSlot slot c) = zeros n := by
    show F.get ((slotAt slot).get ((slotAt slot).set c d)) = zeros n
    rw [Field.get_set, hzero]
  have hwithin := ((slotAt slot).comp F).splice_within (d.setSlot slot c) (k := 0) (show 0 + data.length ≤ n by omega)
  have hcell : splice ((Codec.bytes n).enc (zeros n)) 0 data = (Codec.bytes n).enc ((Codec.bytes n).dec data) := by
    rw [hpad]
    exact splice_zeros data n
  rw [hget, hcell, Codec.dec_enc_self, ← Field.splice_enc] at hwithin
  exact hwithin.trans (splice_member d slot c F _)

/-- A string in its field, whatever was there. -/
theorem writeCString_member {n : Nat} (F : Field diskCredCodec (Codec.bytes n)) (value : List UInt8) :
    writeCString (d.setSlot slot c).bytes (slotOffset slot + F.off) n value =
      (d.setSlot slot (F.set (nameField n value) c)).bytes := by
  have hcleared : splice (d.setSlot slot c).bytes (slotOffset slot + F.off) (List.replicate n 0) =
      (d.setSlot slot (F.set (zeros n) c)).bytes := splice_member d slot c F (zeros n)
  rw [writeCString, hcleared, splice_array d slot _ F (F.get_set c _) (length_clipped_le n value), F.set_set, nameField]

end

/-- The two names of a slot. -/
theorem renameSlot_bytes (d : StoreDisk DiskCred) (slot : Fin maxCreds) (userName userDisplay : List UInt8) :
    renameSlot d.bytes slot userName userDisplay =
      (d.setSlot slot { d.creds slot with
        userName := nameField 64 userName
        userDisplay := nameField 64 userDisplay }).bytes := by
  have hself : d.setSlot slot (d.creds slot) = d := by simp [StoreDisk.setSlot]
  have hname := writeCString_member d slot (d.creds slot) (DiskCred.v1Field.comp DiskCredV1.userNameField) userName
  rw [hself] at hname
  rw [renameSlot]
  exact (congrArg (fun copy => writeCString copy _ lenName userDisplay) hname).trans
    (writeCString_member d slot _ (DiskCred.v1Field.comp DiskCredV1.userDisplayField) userDisplay)

/-- A filled slot holds the record. -/
theorem fillSlot_bytes (d : StoreDisk DiskCred) (slot : Fin maxCreds) (r : FidoCredentialRecord) :
    fillSlot d.bytes slot r = (d.setSlot slot r.toDisk).bytes := by
  let inUse : DiskCred := { DiskCred.zero with inUse := 1 }
  let resident : DiskCred := { inUse with resident := if r.resident then 1 else 0 }
  let userIdLen : DiskCred := { resident with userIdLen := r.userIdLenByte }
  let credId : DiskCred := { userIdLen with credId := (Codec.bytes 32).dec (r.credId.take lenCredId) }
  let userId : DiskCred := { credId with userId := (Codec.bytes 64).dec (r.userId.take lenUserId) }
  let rpId : DiskCred := { userId with rpId := nameField 128 r.rpId }
  let userName : DiskCred := { rpId with userName := nameField 64 r.userName }
  let userDisplay : DiskCred := { userName with userDisplay := nameField 64 r.userDisplay }
  let privKey : DiskCred := { userDisplay with privKey := (Codec.bytes 32).dec (r.privKey.take lenPrivKey) }
  let pubKey : DiskCred := { privKey with pubKey := (Codec.bytes 64).dec (r.pubKey.take lenPubKey) }
  have h1 : splice (d.setSlot slot .zero).bytes (slotOffset slot) [1] = (d.setSlot slot inUse).bytes :=
    splice_member d slot _ (DiskCred.v1Field.comp DiskCredV1.inUseField) 1
  have h2 : splice (d.setSlot slot inUse).bytes (slotOffset slot + 1) [if r.resident then 1 else 0] =
      (d.setSlot slot resident).bytes :=
    splice_member d slot _ (DiskCred.v1Field.comp DiskCredV1.residentField) _
  have h3 : splice (d.setSlot slot resident).bytes (slotOffset slot + 2) [r.userIdLenByte] =
      (d.setSlot slot userIdLen).bytes :=
    splice_member d slot _ (DiskCred.v1Field.comp DiskCredV1.userIdLenField) _
  have h4 : splice (d.setSlot slot userIdLen).bytes (slotOffset slot + offCredId) (r.credId.take lenCredId) =
      (d.setSlot slot credId).bytes :=
    splice_array d slot _ (DiskCred.v1Field.comp DiskCredV1.credIdField) rfl (List.length_take_le _ _)
  have h5 : splice (d.setSlot slot credId).bytes (slotOffset slot + offUserId) (r.userId.take lenUserId) =
      (d.setSlot slot userId).bytes :=
    splice_array d slot _ (DiskCred.v1Field.comp DiskCredV1.userIdField) rfl (List.length_take_le _ _)
  have h6 : writeCString (d.setSlot slot userId).bytes (slotOffset slot + offRpId) lenRpId r.rpId =
      (d.setSlot slot rpId).bytes :=
    writeCString_member d slot _ (DiskCred.v1Field.comp DiskCredV1.rpIdField) _
  have h7 : writeCString (d.setSlot slot rpId).bytes (slotOffset slot + offUserName) lenName r.userName =
      (d.setSlot slot userName).bytes :=
    writeCString_member d slot _ (DiskCred.v1Field.comp DiskCredV1.userNameField) _
  have h8 : writeCString (d.setSlot slot userName).bytes (slotOffset slot + offUserDisplay) lenName r.userDisplay =
      (d.setSlot slot userDisplay).bytes :=
    writeCString_member d slot _ (DiskCred.v1Field.comp DiskCredV1.userDisplayField) _
  have h9 : splice (d.setSlot slot userDisplay).bytes (slotOffset slot + offPrivKey) (r.privKey.take lenPrivKey) =
      (d.setSlot slot privKey).bytes :=
    splice_array d slot _ (DiskCred.v1Field.comp DiskCredV1.privKeyField) rfl (List.length_take_le _ _)
  have h10 : splice (d.setSlot slot privKey).bytes (slotOffset slot + offPubKey) (r.pubKey.take lenPubKey) =
      (d.setSlot slot pubKey).bytes :=
    splice_array d slot _ (DiskCred.v1Field.comp DiskCredV1.pubKeyField) rfl (List.length_take_le _ _)
  have h11 : splice (d.setSlot slot pubKey).bytes (slotOffset slot + offHmacSecret) (r.hmacSecret.take lenHmacSecret) =
      (d.setSlot slot r.toDisk).bytes :=
    splice_array d slot _ DiskCred.hmacSecretField rfl (List.length_take_le _ _)
  unfold fillSlot
  dsimp only
  rw [splice_cleared, h1, h2, h3, h4, h5, h6, h7, h8, h9, h10, h11]

/-! ## The blob's store -/

namespace FidoStoreBlob

def disk (b : FidoStoreBlob) : StoreDisk DiskCred := (storeDiskCodec diskCredCodec).dec b.raw

/-- The store the blob holds. -/
def store (b : FidoStoreBlob) : Store := b.disk.store DiskCred.load

@[simp] theorem disk_bytes (b : FidoStoreBlob) : b.disk.bytes = b.raw :=
  (storeDiskCodec diskCredCodec).enc_dec_self b.length_raw

theorem disk_of_raw {b : FidoStoreBlob} {d : StoreDisk DiskCred} (h : b.raw = d.bytes) : b.disk = d := by
  rw [disk, h, Codec.dec_enc_self]

/-- What a read of a member finds. -/
theorem dec_drop_raw (b : FidoStoreBlob) {β : Type} {B : Codec β} (F : Field (storeDiskCodec diskCredCodec) B) :
    B.dec (b.raw.drop F.off) = F.get b.disk := by
  rw [← F.dec_drop_enc b.disk, ← b.disk_bytes]

/-- A byte of `in_use`. -/
theorem inUseByte_eq (b : FidoStoreBlob) (slot : Fin maxCreds) : b.inUseByte slot = (b.disk.creds slot).inUse := by
  have h := b.dec_drop_raw ((slotAt slot).comp (DiskCred.v1Field.comp DiskCredV1.inUseField))
  have hget : b.inUseByte slot = (b.raw.drop (slotOffset slot)).headD 0 := by
    rw [inUseByte, List.getD_eq_getElem?_getD, ← List.head?_drop]
    cases b.raw.drop (slotOffset slot) <;> rfl
  rw [hget]
  exact h

theorem withoutSlot_disk (b : FidoStoreBlob) (slot : Fin maxCreds) :
    (b.withoutSlot slot).disk = b.disk.setSlot slot .zero := by
  apply disk_of_raw
  rw [← splice_cleared, disk_bytes]
  rfl

theorem withRenamedSlot_disk (b : FidoStoreBlob) (slot : Fin maxCreds) (userName userDisplay : List UInt8) :
    (b.withRenamedSlot slot userName userDisplay).disk =
      b.disk.setSlot slot { b.disk.creds slot with
        userName := nameField 64 userName
        userDisplay := nameField 64 userDisplay } := by
  apply disk_of_raw
  rw [← renameSlot_bytes, disk_bytes]
  rfl

theorem withFilledSlot_disk (b : FidoStoreBlob) (slot : Fin maxCreds) (record : FidoCredentialRecord) :
    (b.withFilledSlot slot record).disk = b.disk.setSlot slot record.toDisk := by
  apply disk_of_raw
  rw [← fillSlot_bytes, disk_bytes]
  rfl

/-- Free slots are marked 0 and slots in use 1, as the driver marks them. -/
def Marked (b : FidoStoreBlob) : Prop := ∀ slot, b.inUseByte slot = 0 ∨ b.inUseByte slot = 1

theorem Marked.free_iff {b : FidoStoreBlob} (h : b.Marked) (slot : Fin maxCreds) :
    (b.inUseByte slot != 1) = !(b.store.creds slot).inUse := by
  have heq : (b.store.creds slot).inUse = (b.inUseByte slot != 0) := by rw [inUseByte_eq]; rfl
  rw [heq]
  rcases h slot with h | h <;> rw [h] <;> rfl

/-! ## The edits -/

theorem store_of_disk {b : FidoStoreBlob} {d : StoreDisk DiskCred} (h : b.disk = d) : b.store = d.store DiskCred.load := by
  rw [store, h]

/-- Setting a slot sets it in the store. -/
theorem store_setSlot (d : StoreDisk DiskCred) (slot : Fin maxCreds) (c : DiskCred) :
    (d.setSlot slot c).store DiskCred.load =
      { d.store DiskCred.load with creds := Function.update (d.store DiskCred.load).creds slot c.load } := by
  simp only [StoreDisk.store, StoreDisk.setSlot, Store.mk.injEq, true_and]
  funext i
  by_cases hi : i = slot
  · subst hi; simp
  · simp [Function.update_of_ne hi]

theorem store_withoutSlot (b : FidoStoreBlob) (slot : Fin maxCreds) :
    (b.withoutSlot slot).store = b.store.withoutSlot slot := by
  have hzero : DiskCred.zero.load = Credential.zero := by decide +kernel
  rw [store_of_disk (b.withoutSlot_disk slot), store_setSlot, hzero]
  rfl

theorem store_withRenamedSlot (b : FidoStoreBlob) (slot : Fin maxCreds) (userName userDisplay : List UInt8) :
    (b.withRenamedSlot slot userName userDisplay).store = b.store.withRenamedSlot slot userName userDisplay := by
  rw [store_of_disk (b.withRenamedSlot_disk slot userName userDisplay), store_setSlot]
  rfl

theorem store_withCredential {b : FidoStoreBlob} (h : b.Marked) (record : FidoCredentialRecord) :
    (b.withCredential record).map store = b.store.withCredential record := by
  have hfree : (fun slot => b.inUseByte slot != 1) = fun slot => !(b.store.creds slot).inUse := funext h.free_iff
  rw [withCredential, Store.withCredential, hfree, Option.map_map]
  refine Option.map_congr fun slot _ => ?_
  exact (store_of_disk (b.withFilledSlot_disk slot record)).trans (store_setSlot _ _ _)

/-- A record in a free slot leaves the blob marked. -/
theorem Marked.withCredential {b b' : FidoStoreBlob} (h : b.Marked) {record : FidoCredentialRecord}
    (hb : b.withCredential record = some b') : b'.Marked := by
  rw [FidoStoreBlob.withCredential, Option.map_eq_some_iff] at hb
  obtain ⟨slot, _, rfl⟩ := hb
  intro i
  rw [inUseByte_eq, withFilledSlot_disk]
  by_cases hi : i = slot
  · subst hi
    exact .inr (by simp [StoreDisk.setSlot, FidoCredentialRecord.toDisk])
  · simp only [StoreDisk.setSlot, Function.update_of_ne hi]
    rw [← inUseByte_eq]
    exact h i

theorem Marked.withRenamedSlot {b : FidoStoreBlob} (h : b.Marked) (slot : Fin maxCreds)
    (userName userDisplay : List UInt8) : (b.withRenamedSlot slot userName userDisplay).Marked := by
  intro i
  have hslot := h i
  rw [inUseByte_eq] at hslot
  rw [inUseByte_eq, withRenamedSlot_disk]
  by_cases hi : i = slot
  · subst hi
    simpa [StoreDisk.setSlot] using hslot
  · simpa [StoreDisk.setSlot, Function.update_of_ne hi] using hslot

/-! ## Sealing -/

/-- **The driver takes what the companion seals**, and finds the blob's store. -/
theorem storeFromDiskInto_toBytes (b : FidoStoreBlob) : storeFromDiskInto b.toBytes = .ok b.store := by
  let marked : StoreDisk DiskCred := { b.disk with magic := storeMagic, version := storeVersion }
  let sealed : StoreDisk DiskCred := { marked with crc32 := storeCrc32Range marked.bytes }
  have hmagic : writeIntLe b.raw offMagic storeMagic = ({ b.disk with magic := storeMagic } : StoreDisk DiskCred).bytes := by
    rw [← b.disk_bytes]
    exact StoreDisk.magicField.splice_enc b.disk storeMagic
  have hversion : writeIntLe ({ b.disk with magic := storeMagic } : StoreDisk DiskCred).bytes offVersion storeVersion =
      marked.bytes := StoreDisk.versionField.splice_enc { b.disk with magic := storeMagic } storeVersion
  have hcrc : writeIntLe marked.bytes offCrc32 (storeCrc32Range marked.bytes) = sealed.bytes :=
    StoreDisk.crc32Field.splice_enc marked _
  have hbytes : b.toBytes = sealed.bytes := by
    unfold toBytes
    dsimp only
    rw [hmagic, hversion, hcrc]
  have hrange : storeCrc32Range sealed.bytes = sealed.crc32 := by
    rw [storeCrc32Range, StoreDisk.bytes, drop_seal]
    rfl
  rw [hbytes]
  simp only [storeFromDiskInto, storeFromDisk, StoreDisk.bytes, Codec.dec_enc_self]
  rw [if_neg (by simp [sealed, marked]), if_neg (by simp [sealed, marked]), if_neg (by
    rw [not_and_or]
    exact .inl (not_not_intro hrange))]
  rfl

/-- The loader finds the store of the structure it decodes. -/
theorem store_of_storeFromDiskInto {bytes : List UInt8} {st : Store} (h : storeFromDiskInto bytes = .ok st) :
    st = ((storeDiskCodec diskCredCodec).dec bytes).store DiskCred.load := by
  simp only [storeFromDiskInto, storeFromDisk] at h
  split at h
  · cases h
  split at h
  · cases h
  split at h
  · cases h
  · cases h; rfl

/-- The blob the driver writes for a store. -/
def ofStore (st : Store) : FidoStoreBlob := ⟨storeToDisk st, length_storeToDisk st⟩

theorem store_ofStore (st : Store) : (ofStore st).store = st.trim :=
  (store_of_storeFromDiskInto (storeFromDiskInto_storeToDisk st)).symm

theorem marked_ofStore (st : Store) : (ofStore st).Marked := by
  intro slot
  have hdisk : (ofStore st).disk = { st.toDiskUnsealed with crc32 := storeCrc32Range (storeToDisk st) } :=
    dec_storeToDisk st
  rw [inUseByte_eq, hdisk]
  show (st.creds slot).toDisk.inUse = 0 ∨ (st.creds slot).toDisk.inUse = 1
  simp only [Credential.toDisk]
  split
  · exact .inr rfl
  · exact .inl rfl

/-- The companion takes what the driver saves. -/
theorem parse_storeToDisk (st : Store) : parse (storeToDisk st) false = some (ofStore st) := by
  have hlen := length_storeToDisk st
  have hdisk : (ofStore st).disk = { st.toDiskUnsealed with crc32 := storeCrc32Range (storeToDisk st) } :=
    dec_storeToDisk st
  have hmagic : readIntLe (storeToDisk st) offMagic = storeMagic :=
    ((ofStore st).dec_drop_raw StoreDisk.magicField).trans (by rw [hdisk]; rfl)
  have hversion : readIntLe (storeToDisk st) offVersion = storeVersion :=
    ((ofStore st).dec_drop_raw StoreDisk.versionField).trans (by rw [hdisk]; rfl)
  have hcrc : readIntLe (storeToDisk st) offCrc32 = storeCrc32Range (storeToDisk st) :=
    ((ofStore st).dec_drop_raw StoreDisk.crc32Field).trans (by rw [hdisk]; rfl)
  have hfits : ¬ (storeToDisk st).length < headerSize := by rw [hlen]; decide
  have htake : (storeToDisk st).take storeDiskSize = storeToDisk st := List.take_of_length_le hlen.le
  have hok : crcOk (storeToDisk st) storeDiskSize = true := by
    rw [crcOk, htake, hcrc]
    exact beq_self_eq_true _
  rw [parse, if_neg hfits, if_neg (not_not_intro hmagic), dif_pos ⟨hversion, hlen.ge⟩, hok]
  simp only [htake, Bool.not_true, Bool.and_false, Bool.false_eq_true, if_false]
  rfl

theorem length_toBytes (b : FidoStoreBlob) : b.toBytes.length = storeDiskSize := by
  have h := b.length_raw
  have hput : ∀ {bytes : List UInt8} {off : Nat} (v : UInt32), bytes.length = storeDiskSize → off + 4 ≤ storeDiskSize →
      (writeIntLe bytes off v).length = storeDiskSize := by
    intro bytes off v hbytes hoff
    rw [writeIntLe, length_splice (by rw [Codec.length_enc, hbytes]; exact hoff), hbytes]
  exact hput _ (hput _ (hput _ h (by decide)) (by decide)) (by decide)

end FidoStoreBlob

end AbkFido
