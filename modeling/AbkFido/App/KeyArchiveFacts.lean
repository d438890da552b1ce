/-
What a credential is after it has been exported and imported.

A key file gives back the records it was made from (`imports_exports`), but
a record's strings are text: bytes of a name that are not UTF-8 come back as
U+FFFD. So the driver finds the credential it had exactly if its strings are
UTF-8 (`restored_iff`).
-/
import AbkFido.App.Accept
import AbkFido.App.BlobEdits
import AbkFido.App.KeyArchive

namespace AbkFido

open Layout

namespace KeyArchive

open JsonObject

/-! ## Records -/

/-- A record read from a slot: arrays of their sizes, text, a length that fits. -/
structure Readable (r : FidoCredentialRecord) : Prop where
  credId : r.credId.length = 32
  privKey : r.privKey.length = 32
  hmacSecret : r.hmacSecret.length = 32
  userIdLen : 0 ≤ r.userIdLen ∧ r.userIdLen < 256
  rpId : Utf8.Valid r.rpId
  userName : Utf8.Valid r.userName
  userDisplay : Utf8.Valid r.userDisplay

/-- A record of a key file is in no slot. -/
def unplaced (r : FidoCredentialRecord) : FidoCredentialRecord := { r with slot := -1 }

theorem unb64_encode (bytes : List UInt8) : unb64 (Base64.encode bytes) = bytes := by
  rw [unb64, Base64.decode_encode, Option.getD_some]

theorem toInt_ofInt {n : Int} (h : 0 ≤ n ∧ n < 256) : (BitVec.ofInt 32 n).toInt = n := by
  rw [BitVec.toInt_ofInt]
  simp only [Int.bmod]
  omega

theorem toRecord_toJson (J : OrgJson) {r : FidoCredentialRecord} (h : Readable r) :
    toRecord J (toJson r) = .ok (unplaced r) := by
  have hrpId := Utf8.encode_decode_eq_iff.mpr h.rpId
  have huserName := Utf8.encode_decode_eq_iff.mpr h.userName
  have huserDisplay := Utf8.encode_decode_eq_iff.mpr h.userDisplay
  have hlen := toInt_ofInt h.userIdLen
  simp [toRecord, toJson, optString, optBoolean, optSigned, opt_put_self, opt_put_of_ne, b64, unb64_encode, h.credId, h.privKey,
    h.hmacSecret, hrpId, huserName, huserDisplay, hlen, unplaced]

/-! ## The file -/

theorem opt_keys (exportedAt : Int) (records : List FidoCredentialRecord) :
    optJSONArray (document exportedAt records) "keys" = some (records.map fun r => .object (toJson r)) := by
  rw [optJSONArray, document, opt_put_self]

theorem mapM_ok {ε α β : Type} {f : α → Except ε β} {g : α → β} {xs : List α} (h : ∀ x ∈ xs, f x = .ok (g x)) :
    xs.mapM f = .ok (xs.map g) := by
  induction xs with
  | nil => rfl
  | cons x xs ih =>
    rw [List.mapM_cons, h x (.head _), ih fun y hy => h y (.tail _ hy)]
    rfl

theorem length_header (salt : Bytes 16) (nonce : Bytes 12) : (header salt nonce).length = headerLen := by
  simp only [header, List.length_append, CborForm.length_bigEndian, List.Vector.toList_length]
  rfl

/-- What the reader finds in a header, whatever follows it. -/
theorem read_header (salt : Bytes 16) (nonce : Bytes 12) (rest : List UInt8) :
    copyOfRange (header salt nonce ++ rest) 0 8 = magic ∧ ((header salt nonce ++ rest).getD 8 0).toNat = version ∧
      readIntBe (header salt nonce ++ rest) 9 = iterations ∧
      (Codec.bytes 16).dec ((header salt nonce ++ rest).drop 13) = salt ∧
      (Codec.bytes 12).dec ((header salt nonce ++ rest).drop 29) = nonce := by
  let first : List UInt8 := magic ++ [.ofNat version] ++ CborForm.bigEndian 4 iterations
  have hfirst : header salt nonce ++ rest = first ++ (salt.toList ++ (nonce.toList ++ rest)) := by
    simp only [header, first, List.append_assoc]
  have hlen : first.length = 13 := rfl
  have hsalt : (header salt nonce ++ rest).drop 13 = salt.toList ++ (nonce.toList ++ rest) := by
    rw [hfirst, List.drop_left' hlen]
  have hnonce : (header salt nonce ++ rest).drop 29 = nonce.toList ++ rest := by
    rw [show 29 = 13 + 16 from rfl, ← List.drop_drop, hsalt, List.drop_left' salt.toList_length]
  refine ⟨?_, ?_, ?_, ?_, ?_⟩
  · rw [hfirst]
    rfl
  · rw [hfirst]
    rfl
  · rw [hfirst]
    rfl
  · rw [hsalt]
    exact (Codec.bytes 16).dec_enc salt _
  · rw [hnonce]
    exact (Codec.bytes 12).dec_enc nonce _

/-- **A key file gives back its records**, text for text and byte for byte. -/
theorem imports_exports (C : Cipher) (J : OrgJson) (exportedAt : Int) (salt : Bytes 16) (nonce : Bytes 12)
    {records : List FidoCredentialRecord} (hne : records ≠ []) (hrecords : ∀ r ∈ records, Readable r)
    (hjson : J.Reads (document exportedAt records)) (passphrase : List UInt16) :
    imports C J (exports C J exportedAt salt nonce records passphrase) passphrase = .ok (records.map unplaced) := by
  obtain ⟨plaintext, hplaintext⟩ : ∃ s, s = Utf8.encode (J.text (.object (document exportedAt records))) := ⟨_, rfl⟩
  obtain ⟨sealed, hsealed⟩ :
      ∃ s, s = C.encrypt (C.deriveKey passphrase salt iterations) nonce (header salt nonce) plaintext := ⟨_, rfl⟩
  have hfile : exports C J exportedAt salt nonce records passphrase = header salt nonce ++ sealed := by
    rw [exports, hsealed, hplaintext]
  have hlong : headerLen < (header salt nonce ++ sealed).length := by
    rw [List.length_append, length_header, hsealed, C.length_encrypt]
    omega
  obtain ⟨hmagic, hversion, hiterations, hsalt, hnonce⟩ := read_header salt nonce sealed
  have hin : ¬ (iterations < 1000 ∨ 2000000 < iterations) := by decide
  have hparse : J.parse (Utf8.decode plaintext) = some (document exportedAt records) := by
    rw [hplaintext, Utf8.decode_encode]
    exact hjson
  have hobjects : (records.map fun r => JsonValue.object (toJson r)).filterMap JsonValue.object? = records.map toJson := by
    rw [List.filterMap_map, ← List.filterMap_eq_map]
    rfl
  have hread : (records.map toJson).mapM (toRecord J) = .ok (records.map unplaced) := by
    rw [List.mapM_map]
    refine mapM_ok fun r hr => ?_
    rw [Function.comp_apply]
    exact toRecord_toJson J (hrecords r hr)
  have hopen : C.decrypt (C.deriveKey passphrase salt iterations) nonce (header salt nonce) sealed = some plaintext := by
    rw [hsealed, C.decrypt_encrypt]
  rw [hfile, imports]
  simp only [Nat.not_le.mpr hlong, hmagic, hversion, hiterations, hin, if_false, ne_eq, not_true_eq_false, hsalt, hnonce,
    List.take_left' (length_header salt nonce), List.drop_left' (length_header salt nonce), hopen, hparse, opt_keys,
    hobjects, hread]
  obtain ⟨r, rest, rfl⟩ := List.exists_cons_of_ne_nil hne
  rfl

end KeyArchive

/-! ## From a slot and back into one -/

/-- The record of a slot of the driver. -/
def Credential.record (slot : Fin maxCreds) (c : Credential) : FidoCredentialRecord where
  slot := (slot : Nat)
  resident := c.resident
  userIdLen := c.userIdLen.toNat
  credId := c.credId.toList
  userId := c.userId.toList
  rpId := Utf8.encode (Utf8.decode c.rpId.str)
  userName := Utf8.encode (Utf8.decode c.userName.str)
  userDisplay := Utf8.encode (Utf8.decode c.userDisplay.str)
  privKey := c.privKey.toList
  pubKey := c.pubKey.toList
  hmacSecret := c.hmacSecret.toList

theorem Credential.readable_record (slot : Fin maxCreds) (c : Credential) : KeyArchive.Readable (c.record slot) where
  credId := c.credId.toList_length
  privKey := c.privKey.toList_length
  hmacSecret := c.hmacSecret.toList_length
  userIdLen := ⟨Int.natCast_nonneg _, by have := c.userIdLen.toNat_lt; simp only [record]; omega⟩
  rpId := ⟨_, rfl⟩
  userName := ⟨_, rfl⟩
  userDisplay := ⟨_, rfl⟩

/-- The companion reads every slot in use of the driver's blob. -/
theorem FidoStoreBlob.credentialAt_ofStore {st : Store} {slot : Fin maxCreds} (h : (st.creds slot).inUse = true) :
    (ofStore st).credentialAt slot = some ((st.creds slot).record slot) := by
  have hdisk : (ofStore st).disk.creds slot = (st.creds slot).toDisk := by
    rw [show (ofStore st).disk = { st.toDiskUnsealed with crc32 := storeCrc32Range (storeToDisk st) } from dec_storeToDisk st]
    rfl
  have harray := fun (n : Nat) (F : Field diskCredCodec (Codec.bytes n)) => (ofStore st).copyOfRange_slot slot F
  have hbyte := fun F : Field diskCredCodec Codec.u8 => (ofStore st).getD_slot slot F
  rw [hdisk] at harray hbyte
  have hstring : ∀ (n : Nat) [NeZero n] (F : Field diskCredCodec (Codec.bytes n)) (s : CharBuf n),
      F.get (st.creds slot).toDisk = (CharBuf.strscpy n s.str).bytes →
      readCString (ofStore st).raw (slotOffset slot + F.off) n = Utf8.encode (Utf8.decode s.str) := by
    intro n _ F s hs
    rw [readCString, harray n F, hs]
    exact congrArg (fun s => Utf8.encode (Utf8.decode s)) s.str_trim
  have hinUse : (st.creds slot).toDisk.inUse = 1 := by rw [Credential.toDisk, h]; rfl
  have hresident : ((st.creds slot).toDisk.resident != 0) = (st.creds slot).resident := by
    rw [Credential.toDisk]
    cases (st.creds slot).resident <;> rfl
  rw [credentialAt, inUseByte_eq, hdisk, if_neg (not_not_intro hinUse), Option.some.injEq, Credential.record,
    FidoCredentialRecord.mk.injEq]
  refine ⟨rfl, ?_, ?_, ?_, ?_, ?_, ?_, ?_, ?_, ?_, ?_⟩
  · rw [← hresident]
    exact congrArg (· != 0) (hbyte (DiskCred.v1Field.comp DiskCredV1.residentField))
  · exact congrArg (fun len : UInt8 => (len.toNat : Int)) (hbyte (DiskCred.v1Field.comp DiskCredV1.userIdLenField))
  · exact harray 32 (DiskCred.v1Field.comp DiskCredV1.credIdField)
  · exact harray 64 (DiskCred.v1Field.comp DiskCredV1.userIdField)
  · exact hstring 128 (DiskCred.v1Field.comp DiskCredV1.rpIdField) _ rfl
  · exact hstring 64 (DiskCred.v1Field.comp DiskCredV1.userNameField) _ rfl
  · exact hstring 64 (DiskCred.v1Field.comp DiskCredV1.userDisplayField) _ rfl
  · exact harray 32 (DiskCred.v1Field.comp DiskCredV1.privKeyField)
  · exact harray 64 (DiskCred.v1Field.comp DiskCredV1.pubKeyField)
  · exact harray 32 DiskCred.hmacSecretField

/-! ## Strings -/

theorem characterStart_cases (encoded : List UInt8) (k : Nat) :
    characterStart encoded k = 0 ∨ encoded.getD (characterStart encoded k) 0 &&& 0xc0 ≠ 0x80 := by
  induction k with
  | zero => exact .inl rfl
  | succ k ih =>
    rw [characterStart]
    split
    · exact ih
    · next h => exact .inr h

/-- What is stored of a text is a text. -/
theorem valid_clipped (n : Nat) (s : List Char) : Utf8.Valid ((Utf8.encode s).take (clippedLength n (Utf8.encode s))) := by
  refine Utf8.valid_take s fun hpos hlt => ?_
  unfold clippedLength at hpos hlt ⊢
  dsimp only at hpos hlt ⊢
  split at hpos
  · next h =>
    rw [if_pos h] at hlt ⊢
    exact (characterStart_cases _ _).resolve_left (by omega)
  · next h =>
    rw [if_neg h] at hlt
    omega

theorem cstr_append_zeros (s : List UInt8) (k : Nat) : cstr (s ++ List.replicate k 0) = cstr s := by
  have hzeros : (List.replicate k (0 : UInt8)).takeWhile (· != 0) = [] := by cases k <;> rfl
  rw [cstr, List.takeWhile_append, hzeros, List.append_nil]
  split
  · next h => exact ((List.takeWhile_prefix _).eq_of_length h).symm
  · rfl

theorem str_nameField {n : Nat} [NeZero n] (value : List UInt8) :
    (CharBuf.ofDisk n (nameField n value)).str = cstr (value.take (clippedLength n value)) := by
  have hclip := clippedLength_le n value
  have hn := Nat.pos_of_neZero n
  have hpadded : Padded (CharBuf.ofDisk n (nameField n value)).bytes (value.take (clippedLength n value)) :=
    padded_ofDisk (by rw [List.length_take]; omega)
  rw [CharBuf.str, hpadded, cstr_append_zeros]

/-- A string survives being text exactly if it is text. -/
theorem trim_nameField_iff {n : Nat} [NeZero n] (s : CharBuf n) :
    (CharBuf.ofDisk n (nameField n (Utf8.encode (Utf8.decode s.str)))).trim = s.trim ↔ Utf8.Valid s.str := by
  constructor
  · intro h
    have hstr : (CharBuf.ofDisk n (nameField n (Utf8.encode (Utf8.decode s.str)))).str = s.str := by
      rw [← CharBuf.str_trim, h, CharBuf.str_trim]
    rw [← hstr, str_nameField]
    exact Utf8.valid_takeWhile (valid_clipped n _)
  · intro h
    apply CharBuf.trim_eq_of_str
    rw [str_nameField, Utf8.encode_decode_eq_iff.mpr h, clippedLength_of_lt s.length_str_lt,
      List.take_of_length_le le_rfl, CharBuf.cstr_str]

/-! ## The whole way -/

theorem Credential.userIdLenByte_record (slot : Fin maxCreds) (c : Credential) :
    (c.record slot).userIdLenByte = c.userIdLen := by
  have hle : c.userIdLen.toNat ≤ 64 := UInt8.le_iff_toNat_le.mp c.userIdLen_le
  have hclamp : (min (max (c.userIdLen.toNat : Int) 0) (lenUserId : Nat)).toNat = c.userIdLen.toNat := by
    have hmax : (lenUserId : Int) = 64 := rfl
    omega
  rw [FidoCredentialRecord.userIdLenByte, Credential.record, hclamp, UInt8.ofNat_toNat]

/-- The slot that is filled is the slot that was read exactly if its strings are text. -/
theorem Credential.trim_record_iff {slot : Fin maxCreds} {c : Credential} (h : c.inUse = true) :
    (c.record slot).toDisk.load.trim = c.trim ↔
      Utf8.Valid c.rpId.str ∧ Utf8.Valid c.userName.str ∧ Utf8.Valid c.userDisplay.str := by
  rw [← trim_nameField_iff c.rpId, ← trim_nameField_iff c.userName, ← trim_nameField_iff c.userDisplay]
  have harray : ∀ {n : Nat} (v : Bytes n), (Codec.bytes n).dec (v.toList.take n) = v := by
    intro n v
    rw [List.take_of_length_le v.toList_length.le]
    exact (Codec.bytes n).dec_enc_self v
  have hresident : ((if c.resident then 1 else 0 : UInt8) != 0) = c.resident := by cases c.resident <;> rfl
  have hlen : minU8 (c.record slot).userIdLenByte 64 = c.userIdLen := by
    rw [userIdLenByte_record, minU8_of_le c.userIdLen_le]
  constructor
  · intro heq
    rw [Credential.trim, Credential.trim, Credential.mk.injEq] at heq
    exact ⟨heq.2.2.2.2.2.1, heq.2.2.2.2.2.2.1, heq.2.2.2.2.2.2.2.1⟩
  · rintro ⟨hrpId, huserName, huserDisplay⟩
    rw [Credential.trim, Credential.trim, Credential.mk.injEq]
    exact ⟨h.symm, hresident, harray c.credId, harray c.userId, hlen, hrpId, huserName, huserDisplay,
      harray c.privKey, harray c.pubKey, harray c.hmacSecret⟩

namespace KeyArchive

section
variable (C : Cipher) (J : OrgJson) (exportedAt : Int) (salt : Bytes 16) (nonce : Bytes 12) (passphrase : List UInt16)

/-- A slot of the driver's blob exported, imported and put into another blob,
as the driver then loads it. -/
def restored (blob : List UInt8) (slot : Fin maxCreds) (target : FidoStoreBlob) : Option Credential := do
  let source ← FidoStoreBlob.parse blob false
  let record ← source.credentialAt slot
  let records ← (imports C J (exports C J exportedAt salt nonce [record] passphrase) passphrase).toOption
  let imported ← records.head?
  let free ← (List.finRange maxCreds).find? fun slot => target.inUseByte slot != 1
  let placed ← target.withCredential imported
  let store ← (storeFromDiskInto placed.toBytes).toOption
  pure (store.creds free)

end

variable {J : OrgJson} {exportedAt : Int} {st : Store} {slot : Fin maxCreds} {target : FidoStoreBlob}

/-- It is what the record of the slot is stored as. -/
theorem restored_eq (C : Cipher) (salt : Bytes 16) (nonce : Bytes 12) (passphrase : List UInt16)
    (hused : (st.creds slot).inUse = true) (hfree : ∃ i, target.inUseByte i ≠ 1)
    (hjson : J.Reads (document exportedAt [(st.creds slot).record slot])) :
    restored C J exportedAt salt nonce passphrase (storeToDisk st) slot target =
      some ((st.creds slot).record slot).toDisk.load := by
  have hrecord := FidoStoreBlob.credentialAt_ofStore hused
  have himports := imports_exports C J exportedAt salt nonce (List.cons_ne_nil _ [])
    (by simpa using (st.creds slot).readable_record slot) hjson passphrase
  obtain ⟨free, hfind⟩ : ∃ free, (List.finRange maxCreds).find? (fun slot => target.inUseByte slot != 1) = some free := by
    obtain ⟨i, hi⟩ := hfree
    exact Option.isSome_iff_exists.mp (List.find?_isSome.mpr ⟨i, List.mem_finRange i, by simpa using hi⟩)
  have hplaced : target.withCredential (unplaced ((st.creds slot).record slot)) =
      some (target.withFilledSlot free (unplaced ((st.creds slot).record slot))) := by
    rw [FidoStoreBlob.withCredential, hfind, Option.map_some]
  have hstore : (target.withFilledSlot free (unplaced ((st.creds slot).record slot))).store.creds free =
      ((st.creds slot).record slot).toDisk.load := by
    rw [FidoStoreBlob.store_of_disk (target.withFilledSlot_disk free _), FidoStoreBlob.store_setSlot]
    exact Function.update_self ..
  simp only [restored, FidoStoreBlob.parse_storeToDisk, hrecord, himports, hfind, hplaced, FidoStoreBlob.storeFromDiskInto_toBytes,
    Except.toOption, Option.bind_eq_bind, Option.bind_some, List.map_cons, List.map_nil, List.head?_cons, hstore]
  rfl

/-- **A credential survives export and import** exactly if its strings, before
their first NUL, are UTF-8. -/
theorem restored_iff (C : Cipher) (salt : Bytes 16) (nonce : Bytes 12) (passphrase : List UInt16)
    (hused : (st.creds slot).inUse = true) (hfree : ∃ i, target.inUseByte i ≠ 1)
    (hjson : J.Reads (document exportedAt [(st.creds slot).record slot])) :
    (∃ c, restored C J exportedAt salt nonce passphrase (storeToDisk st) slot target = some c ∧
        c.trim = (st.creds slot).trim) ↔
      Utf8.Valid (st.creds slot).rpId.str ∧ Utf8.Valid (st.creds slot).userName.str ∧
        Utf8.Valid (st.creds slot).userDisplay.str := by
  rw [restored_eq C salt nonce passphrase hused hfree hjson, ← @Credential.trim_record_iff slot _ hused]
  simp only [Option.some.injEq, exists_eq_left']

/-! ## Two keys -/

/-- A stand-in for the ciphers: the key is the salt, the tag sixteen zeros. -/
def standIn : Cipher where
  deriveKey _ salt _ := ⟨salt.toList ++ List.replicate 16 0, by simp⟩
  encrypt _ _ _ plaintext := plaintext ++ List.replicate 16 0
  decrypt _ _ _ body :=
    if body.drop (body.length - 16) = List.replicate 16 0 ∧ 16 ≤ body.length then some (body.take (body.length - 16)) else none
  decrypt_encrypt key nonce aad plaintext := by simp
  length_encrypt key nonce aad plaintext := by simp

abbrev firstSlot : Fin maxCreds := ⟨0, maxCreds_pos⟩

def keyFor (rpId : List UInt8) : Credential where
  inUse := true
  resident := true
  credId := List.Vector.replicate 32 7
  userId := (Codec.bytes 64).dec [1, 2]
  userIdLen := 2
  rpId := .strscpy 128 rpId
  userName := .strscpy 64 (text "ann")
  userDisplay := .strscpy 64 [0xc3, 0x84, 0x6e, 0x6e]
  privKey := List.Vector.replicate 32 9
  pubKey := List.Vector.replicate 64 5
  hmacSecret := List.Vector.replicate 32 3
  userIdLen_le := by decide

/-- A store with that key alone. -/
def storeOf (rpId : List UInt8) : Store :=
  { Store.zero with creds := Function.update Store.zero.creds firstSlot (keyFor rpId) }

theorem free_ofStore_zero : ∃ i, (FidoStoreBlob.ofStore .zero).inUseByte i ≠ 1 := by
  have hfree := (FidoStoreBlob.marked_ofStore .zero).free_iff firstSlot
  rw [FidoStoreBlob.store_ofStore] at hfree
  exact ⟨firstSlot, by simpa [Store.trim, Credential.trim, Store.zero, Credential.zero] using hfree⟩

theorem creds_storeOf (rpId : List UInt8) : (storeOf rpId).creds firstSlot = keyFor rpId := by
  show Function.update Store.zero.creds firstSlot (keyFor rpId) firstSlot = keyFor rpId
  exact Function.update_self ..

theorem used_storeOf (rpId : List UInt8) : ((storeOf rpId).creds firstSlot).inUse = true := by
  rw [creds_storeOf]
  rfl

/-- A key with text in its strings is restored. -/
theorem restored_text : ∃ c,
    restored standIn (OrgJson.readerOf (document 0 [((storeOf (text "a.io")).creds firstSlot).record firstSlot])) 0 default default
      [97] (storeToDisk (storeOf (text "a.io"))) firstSlot (FidoStoreBlob.ofStore .zero) = some c ∧
    c.trim = ((storeOf (text "a.io")).creds firstSlot).trim :=
  (restored_iff standIn default default [97] (used_storeOf _) free_ofStore_zero (OrgJson.reads_readerOf _)).mpr
    ⟨by decide +kernel, by decide +kernel, by decide +kernel⟩

/-- A key for an rp id of one byte that is no text comes back for U+FFFD. -/
theorem exists_not_restored : ∃ c,
    restored standIn (OrgJson.readerOf (document 0 [((storeOf [0xff]).creds firstSlot).record firstSlot])) 0 default default [97]
      (storeToDisk (storeOf [0xff])) firstSlot (FidoStoreBlob.ofStore .zero) = some c ∧
    ((storeOf [0xff]).creds firstSlot).rpId.str = [0xff] ∧ c.rpId.str = [0xef, 0xbf, 0xbd] := by
  refine ⟨_, restored_eq standIn default default [97] (used_storeOf _) free_ofStore_zero (OrgJson.reads_readerOf _), ?_, ?_⟩
  · decide +kernel
  · decide +kernel

end KeyArchive

end AbkFido
