/-
Edits of a blob, one after another, as the driver reads the result.

What each edit means is said of stores alone (`Store.Edited`): which slot it
touches and what that slot holds afterwards. A sequence of edits of the
driver's blob, sealed and loaded, is that sequence of edits of the store the
blob was written from, up to the point where a record no longer finds room.
-/
import AbkFido.App.BlobFacts
import AbkFido.HidFacts

namespace AbkFido

open Layout

inductive BlobEdit
  | withCredential (record : FidoCredentialRecord)
  | withoutSlot (slot : Fin maxCreds)
  | withRenamedSlot (slot : Fin maxCreds) (userName userDisplay : List UInt8)

namespace FidoStoreBlob

def edit (b : FidoStoreBlob) : BlobEdit → Option FidoStoreBlob
  | .withCredential record => b.withCredential record
  | .withoutSlot slot => some (b.withoutSlot slot)
  | .withRenamedSlot slot userName userDisplay => some (b.withRenamedSlot slot userName userDisplay)

/-- `none` where a record finds the store full. -/
def edits (b : FidoStoreBlob) : List BlobEdit → Option FidoStoreBlob
  | [] => some b
  | e :: es => (b.edit e).bind fun b' => b'.edits es

end FidoStoreBlob

/-! ## What the edits mean -/

/-- The fields of a record have room in a slot: a string leaves place for its NUL. -/
structure FidoCredentialRecord.Fits (r : FidoCredentialRecord) : Prop where
  userIdLen : 0 ≤ r.userIdLen ∧ r.userIdLen ≤ lenUserId
  credId : r.credId.length ≤ lenCredId
  userId : r.userId.length ≤ lenUserId
  rpId : r.rpId.length < lenRpId
  userName : r.userName.length < lenName
  userDisplay : r.userDisplay.length < lenName
  privKey : r.privKey.length ≤ lenPrivKey
  pubKey : r.pubKey.length ≤ lenPubKey
  hmacSecret : r.hmacSecret.length ≤ lenHmacSecret

/-- The data at the start of the array, and zeros behind it. -/
def Padded {n : Nat} (array : Bytes n) (data : List UInt8) : Prop :=
  array.toList = data ++ List.replicate (n - data.length) 0

/-- A slot in use that holds the record, every field of it. -/
structure Credential.Holds (c : Credential) (r : FidoCredentialRecord) : Prop where
  inUse : c.inUse = true
  resident : c.resident = r.resident
  userIdLen : (c.userIdLen.toNat : Int) = r.userIdLen
  credId : Padded c.credId r.credId
  userId : Padded c.userId r.userId
  rpId : Padded c.rpId.bytes r.rpId
  userName : Padded c.userName.bytes r.userName
  userDisplay : Padded c.userDisplay.bytes r.userDisplay
  privKey : Padded c.privKey r.privKey
  pubKey : Padded c.pubKey r.pubKey
  hmacSecret : Padded c.hmacSecret r.hmacSecret

/-- The name, or as much of it as there is room for. -/
def HoldsName (array : CharBuf 64) (name : List UInt8) : Prop :=
  ∃ k ≤ lenName - 1, Padded array.bytes (name.take k) ∧ (name.length < lenName → k = name.length)

def Credential.renamed (c : Credential) (userName userDisplay : CharBuf 64) : Credential :=
  { c with userName := userName, userDisplay := userDisplay }

/-- One edit of a store: the slot it sets, and nothing else. -/
inductive Store.Edited (st : Store) : BlobEdit → Store → Prop
  | withCredential {record slot c} : (st.creds slot).inUse = false → (∀ i < slot, (st.creds i).inUse = true) →
      c.Holds record → st.Edited (.withCredential record) { st with creds := Function.update st.creds slot c }
  | withoutSlot {slot} : st.Edited (.withoutSlot slot) { st with creds := Function.update st.creds slot .zero }
  | withRenamedSlot {slot userName userDisplay name display} : HoldsName name userName → HoldsName display userDisplay →
      st.Edited (.withRenamedSlot slot userName userDisplay)
        { st with creds := Function.update st.creds slot ((st.creds slot).renamed name display) }

inductive Store.EditedBy : Store → List BlobEdit → Store → Prop
  | nil (st) : EditedBy st [] st
  | cons {st e st' es st''} : st.Edited e st' → EditedBy st' es st'' → EditedBy st (e :: es) st''

/-- No slot is free. -/
def Store.Full (st : Store) : Prop := ∀ slot, (st.creds slot).inUse = true

/-! ## Arrays -/

theorem padded_dec {n : Nat} {data : List UInt8} (h : data.length ≤ n) : Padded ((Codec.bytes n).dec (data.take n)) data := by
  rw [List.take_of_length_le h]
  show data.take n ++ List.replicate (n - data.length) 0 = _
  rw [List.take_of_length_le h]

/-- The NUL the loader puts into the last byte changes nothing where there is place for one. -/
theorem padded_ofDisk {n : Nat} [NeZero n] {data : List UInt8} (h : data.length < n) :
    Padded (CharBuf.ofDisk n ((Codec.bytes n).dec data)).bytes data := by
  show (data.take n ++ List.replicate (n - data.length) 0).take (n - 1) ++ [0] = data ++ List.replicate (n - data.length) 0
  obtain ⟨k, hk⟩ : ∃ k, n - data.length = k + 1 := ⟨n - data.length - 1, by omega⟩
  have hlen : n - 1 - data.length = k := by omega
  rw [List.take_of_length_le h.le, List.take_append, List.take_of_length_le (by omega), hlen, hk, List.replicate_succ',
    List.take_left' (List.length_replicate ..), List.append_assoc]

theorem clippedLength_of_lt {maxLen : Nat} {encoded : List UInt8} (h : encoded.length < maxLen) :
    clippedLength maxLen encoded = encoded.length := by
  have hmin : min encoded.length (maxLen - 1) = encoded.length := by omega
  rw [clippedLength, hmin]
  exact if_neg (lt_irrefl _)

theorem padded_nameField {n : Nat} [NeZero n] {value : List UInt8} (h : value.length < n) :
    Padded (CharBuf.ofDisk n (nameField n value)).bytes value := by
  rw [nameField, clippedLength_of_lt h, List.take_of_length_le le_rfl]
  exact padded_ofDisk h

theorem holdsName_nameField (value : List UInt8) : HoldsName (.ofDisk 64 (nameField 64 value)) value := by
  have hclip := clippedLength_le 64 value
  refine ⟨clippedLength 64 value, by simp only [lenName]; omega, ?_, fun h => clippedLength_of_lt h⟩
  refine padded_ofDisk ?_
  rw [List.length_take]
  omega

/-! ## One edit -/

theorem FidoCredentialRecord.Fits.holds {r : FidoCredentialRecord} (h : r.Fits) : r.toDisk.load.Holds r where
  inUse := rfl
  resident := by
    show ((if r.resident then 1 else 0 : UInt8) != 0) = r.resident
    cases r.resident <;> rfl
  userIdLen := by
    obtain ⟨hpos, hle⟩ := h.userIdLen
    have hle' : r.userIdLen ≤ 64 := hle
    have hbyte : (min (max r.userIdLen 0) lenUserId).toNat = r.userIdLen.toNat := by
      rw [max_eq_left hpos, min_eq_left hle]
    have hsmall : (UInt8.ofNat r.userIdLen.toNat).toNat = r.userIdLen.toNat :=
      UInt8.toNat_ofNat_of_lt' (by show r.userIdLen.toNat < 256; omega)
    have hload : r.toDisk.load.userIdLen = .ofNat r.userIdLen.toNat := by
      show minU8 r.userIdLenByte 64 = _
      rw [userIdLenByte, hbyte]
      refine minU8_of_le ?_
      rw [UInt8.le_iff_toNat_le, hsmall]
      show r.userIdLen.toNat ≤ 64
      omega
    rw [hload, hsmall]
    omega
  credId := padded_dec h.credId
  userId := padded_dec h.userId
  rpId := padded_nameField h.rpId
  userName := padded_nameField h.userName
  userDisplay := padded_nameField h.userDisplay
  privKey := padded_dec h.privKey
  pubKey := padded_dec h.pubKey
  hmacSecret := padded_dec h.hmacSecret

namespace FidoStoreBlob

theorem Marked.withoutSlot {b : FidoStoreBlob} (h : b.Marked) (slot : Fin maxCreds) : (b.withoutSlot slot).Marked := by
  intro i
  rw [inUseByte_eq, withoutSlot_disk]
  by_cases hi : i = slot
  · subst hi
    exact .inl (by simp [StoreDisk.setSlot, DiskCred.zero])
  · simp only [StoreDisk.setSlot, Function.update_of_ne hi]
    rw [← inUseByte_eq]
    exact h i

theorem Marked.edit {b b' : FidoStoreBlob} (h : b.Marked) {e : BlobEdit} (hb : b.edit e = some b') : b'.Marked := by
  cases e with
  | withCredential record => exact h.withCredential hb
  | withoutSlot slot => cases hb; exact h.withoutSlot slot
  | withRenamedSlot slot userName userDisplay => cases hb; exact h.withRenamedSlot slot userName userDisplay

end FidoStoreBlob

/-- A record goes into the first free slot. -/
theorem Store.edited_withCredential {st st' : Store} {record : FidoCredentialRecord} (hfits : record.Fits)
    (h : st.withCredential record = some st') : st.Edited (.withCredential record) st' := by
  obtain ⟨slot, hslot, rfl⟩ := Option.map_eq_some_iff.mp h
  obtain ⟨hfree, hbefore⟩ := find_finRange.mp hslot
  exact .withCredential (by simpa using hfree) (fun i hi => by simpa using hbefore i hi) hfits.holds

theorem Store.full_of_withCredential {st : Store} {record : FidoCredentialRecord}
    (h : st.withCredential record = none) : st.Full := by
  intro slot
  have hnone := List.find?_eq_none.mp (Option.map_eq_none_iff.mp h) slot (List.mem_finRange slot)
  simpa using hnone

namespace FidoStoreBlob

/-- An edit of a blob's bytes edits its store. -/
theorem edited {b b' : FidoStoreBlob} (h : b.Marked) {e : BlobEdit} (hfits : ∀ r, e = .withCredential r → r.Fits)
    (hb : b.edit e = some b') : b.store.Edited e b'.store := by
  cases e with
  | withCredential record =>
    refine Store.edited_withCredential (hfits record rfl) ?_
    have hb : b.withCredential record = some b' := hb
    rw [← store_withCredential h, hb]
    rfl
  | withoutSlot slot =>
    cases hb
    rw [store_withoutSlot]
    exact .withoutSlot
  | withRenamedSlot slot userName userDisplay =>
    cases hb
    rw [store_withRenamedSlot]
    exact .withRenamedSlot (holdsName_nameField userName) (holdsName_nameField userDisplay)

/-- Only a record that finds no free slot is refused. -/
theorem edit_refused {b : FidoStoreBlob} (h : b.Marked) {e : BlobEdit} (hb : b.edit e = none) :
    ∃ r, e = .withCredential r ∧ b.store.Full := by
  cases e with
  | withCredential record =>
    have hb : b.withCredential record = none := hb
    have hnone : b.store.withCredential record = none := by
      rw [← store_withCredential h, hb]
      rfl
    exact ⟨record, rfl, Store.full_of_withCredential hnone⟩
  | withoutSlot slot => cases hb
  | withRenamedSlot slot userName userDisplay => cases hb

/-! ## A sequence of edits -/

theorem edits_edited {es : List BlobEdit} : ∀ {b b' : FidoStoreBlob}, b.Marked → (∀ r, .withCredential r ∈ es → r.Fits) →
    b.edits es = some b' → b.store.EditedBy es b'.store := by
  induction es with
  | nil =>
    intro b b' _ _ hb
    cases hb
    exact .nil _
  | cons e es ih =>
    intro b b' h hfits hb
    obtain ⟨b₁, he, hes⟩ := Option.bind_eq_some_iff.mp hb
    exact .cons (edited h (fun r hr => hfits r (hr ▸ .head _)) he) (ih (h.edit he) (fun r hr => hfits r (.tail _ hr)) hes)

/-- A sequence that stops does so at a record, in a full store. -/
theorem edits_refused {es : List BlobEdit} : ∀ {b : FidoStoreBlob}, b.Marked → (∀ r, .withCredential r ∈ es → r.Fits) →
    b.edits es = none → ∃ done r rest full, es = done ++ .withCredential r :: rest ∧ b.store.EditedBy done full ∧ full.Full := by
  induction es with
  | nil =>
    intro b _ _ hb
    cases hb
  | cons e es ih =>
    intro b h hfits hb
    cases he : b.edit e with
    | none =>
      obtain ⟨r, rfl, hfull⟩ := edit_refused h he
      exact ⟨[], r, es, b.store, rfl, .nil _, hfull⟩
    | some b₁ =>
      have hes : b₁.edits es = none := by
        rw [edits, he] at hb
        exact hb
      obtain ⟨done, r, rest, full, rfl, hdone, hfull⟩ := ih (h.edit he) (fun r hr => hfits r (.tail _ hr)) hes
      exact ⟨e :: done, r, rest, full, rfl, .cons (edited h (fun r hr => hfits r (hr ▸ .head _)) he) hdone, hfull⟩

/-- **The driver reads the edits it was meant to.** Its own blob, edited by
any sequence and sealed, loads as the store edited by that sequence; a
sequence that is refused filled the store first. -/
theorem driver_reads_edits (st : Store) (es : List BlobEdit) (hfits : ∀ r, .withCredential r ∈ es → r.Fits) :
    ∃ blob, parse (storeToDisk st) false = some blob ∧ storeFromDiskInto (storeToDisk st) = .ok st.trim ∧
      match blob.edits es with
      | some edited => ∃ st', storeFromDiskInto edited.toBytes = .ok st' ∧ st.trim.EditedBy es st'
      | none => ∃ done r rest full, es = done ++ .withCredential r :: rest ∧ st.trim.EditedBy done full ∧ full.Full := by
  refine ⟨ofStore st, parse_storeToDisk st, storeFromDiskInto_storeToDisk st, ?_⟩
  have hmarked := marked_ofStore st
  rw [← store_ofStore st]
  cases hes : (ofStore st).edits es with
  | some edited => exact ⟨edited.store, storeFromDiskInto_toBytes edited, edits_edited hmarked hfits hes⟩
  | none => exact edits_refused hmarked hfits hes

/-- A key for `a.io`, as an archive holds one. -/
def sampleRecord : FidoCredentialRecord where
  slot := 0
  resident := true
  userIdLen := 2
  credId := List.replicate 32 7
  userId := [1, 2]
  rpId := [97, 46, 105, 111]
  userName := [98]
  userDisplay := [66]
  privKey := List.replicate 32 9
  pubKey := List.replicate 64 5
  hmacSecret := List.replicate 32 3

def sampleEdits : List BlobEdit := [.withCredential sampleRecord, .withRenamedSlot ⟨0, by decide⟩ [99] [67], .withoutSlot ⟨0, by decide⟩]

/-- An empty store takes a key, renames it and loses it again. -/
theorem driver_reads_sampleEdits :
    ∃ blob, parse (storeToDisk .zero) false = some blob ∧ storeFromDiskInto (storeToDisk .zero) = .ok Store.zero.trim ∧
      match blob.edits sampleEdits with
      | some edited => ∃ st', storeFromDiskInto edited.toBytes = .ok st' ∧ Store.zero.trim.EditedBy sampleEdits st'
      | none => ∃ done r rest full, sampleEdits = done ++ .withCredential r :: rest ∧
          Store.zero.trim.EditedBy done full ∧ full.Full :=
  driver_reads_edits .zero sampleEdits fun r hr => by
    have hr : r = sampleRecord := by simpa [sampleEdits] using hr
    subst hr
    exact ⟨by decide, by decide, by decide, by decide, by decide, by decide, by decide, by decide, by decide⟩

end FidoStoreBlob

end AbkFido
