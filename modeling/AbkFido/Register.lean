/-
makeCredential is all or nothing.

Between the slot it takes and the answer there are a dozen ways to fail, and
each clears the slot again. `makeCredentialResp` is the whole of
`abk_fido_make_credential_resp`, around an approval that may leave the device
in any state. What an answer leaves behind is `Filled`, and what an error
leaves behind `Untouched` (`makeCredential_atomic`).

The strings of a request are those its parser accepts (`parseMakeCred_gives`).
-/
import AbkFido.CommandFacts
import AbkFido.PersistFacts
import AbkFido.Device

namespace AbkFido

open Cbor

variable {P : Platform}

/-! ## The strings of a request -/

/-- A string that a `char` array of `n` bytes can hold. -/
def FitsIn (n : Nat) (s : List UInt8) : Prop := s.length < n ∧ 0 ∉ s

structure MakeCredReq.Strings (req : MakeCredReq) : Prop where
  rpId : FitsIn 128 req.rpId
  userName : FitsIn 64 req.userName
  userDisplay : FitsIn 64 req.userDisplay

theorem fitsIn_cstr {n : Nat} {buf : List UInt8} (h : buf.length < n) : FitsIn n (cstr buf) :=
  ⟨lt_of_le_of_lt (List.takeWhile_prefix _).length_le h, fun hnul => cstr_nul_free buf 0 hnul rfl⟩

theorem FitsIn.str_strscpy {n : Nat} [NeZero n] {s : List UInt8} (h : FitsIn n s) : (CharBuf.strscpy n s).str = s := by
  have hs := cstr_of_nul_free fun b hb hnul => h.2 (hnul ▸ hb)
  rw [CharBuf.str_strscpy_of_lt (by rw [hs]; exact h.1), hs]

theorem readStr_gives (max : Nat) : Prog.Gives (FitsIn max) (readStr max) :=
  .after _ fun slice => .ite (fun _ => .throw _) fun hlen => .after _ fun r =>
    .pure (fitsIn_cstr (lt_of_le_of_lt (r.length_bytes_le slice) (Nat.lt_of_not_le hlen)))

theorem parseRp_gives {req : MakeCredReq} (h : req.Strings) : Prog.Gives MakeCredReq.Strings (parseRp req) :=
  .after _ fun _ => .loop (fun _ h => .after _ fun _ => .after _ fun value => .after _ fun r =>
    .ite (fun hid => .pure
      { h with rpId := fitsIn_cstr (lt_of_le_of_lt (r.length_bytes_le value) hid.2) }) fun _ => .pure h) _ _ h

theorem parseUser_gives (depth : Nat) {req : MakeCredReq} (h : req.Strings) :
    Prog.Gives MakeCredReq.Strings (parseUser depth req) := by
  refine .after _ fun _ => .loop (fun req h => .after _ fun _ => .after _ fun _ => .ite (fun _ => ?_) fun _ =>
    .ite (fun _ => ?_) fun _ => .ite (fun _ => ?_) fun _ => ?_) _ _ h
  · refine .after _ fun slice => ?_
    split
    · exact .after _ fun _ => .pure ⟨h.rpId, h.userName, h.userDisplay⟩
    · exact .throw _
  · exact (readStr_gives 64).bind fun name hname => .pure { h with userName := hname }
  · exact (readStr_gives 64).bind fun name hname => .pure { h with userDisplay := hname }
  · exact .after _ fun _ => .pure h

theorem setOption_strings {req : MakeCredReq} (h : req.Strings) (key : List UInt8 → Bool) (value : Bool) :
    (req.setOption key value).Strings := by
  unfold MakeCredReq.setOption
  split
  · exact ⟨h.rpId, h.userName, h.userDisplay⟩
  split
  · exact ⟨h.rpId, h.userName, h.userDisplay⟩
  split
  · exact ⟨h.rpId, h.userName, h.userDisplay⟩
  · exact h

theorem parseMakeCredKey_gives (depth : Nat) {req : MakeCredReq} (h : req.Strings) (key : Int) :
    Prog.Gives MakeCredReq.Strings (parseMakeCredKey depth req key) := by
  unfold parseMakeCredKey
  split
  · exact .after _ fun _ => .pure ⟨h.rpId, h.userName, h.userDisplay⟩
  · exact parseRp_gives h
  · exact parseUser_gives depth h
  · exact .after _ fun _ => .pure h
  · exact .after _ fun _ => .pure ⟨h.rpId, h.userName, h.userDisplay⟩
  · exact .after _ fun _ => .loop (fun req h => .after _ fun _ => .after _ fun _ =>
      .ite (fun _ => .after _ fun _ => .pure ⟨h.rpId, h.userName, h.userDisplay⟩) fun _ => .after _ fun _ => .pure h) _ _ h
  · exact .after _ fun _ => .loop (fun req h => .after _ fun _ => .after _ fun value => .after _ fun r =>
      .pure (setOption_strings h _ value)) _ _ h
  · exact .after _ fun _ => .pure ⟨h.rpId, h.userName, h.userDisplay⟩
  · exact .after _ fun _ => .pure h
  · exact .after _ fun _ => .pure h

/-- What the parser hands on has its strings within their arrays. -/
theorem parseMakeCred_gives (depth : Nat) : Prog.Gives MakeCredReq.Strings (parseMakeCred depth) := by
  have hzero : MakeCredReq.zero.Strings := by
    refine ⟨?_, ?_, ?_⟩ <;> exact ⟨by decide, by decide⟩
  refine .after _ fun count => (Prog.Gives.loop (fun req h => .after _ fun key => parseMakeCredKey_gives depth h key)
    count _ hzero).bind fun req h => .ite (fun _ => .pure h) fun _ => .throw _

/-! ## The call -/

/-- How a call of `abk_fido_make_credential_resp` went. -/
structure MakeCredentialCall where
  result : Except Errno (List UInt8)
  /-- The device when the approval returned; if none was asked for, when the store was loaded. -/
  before : Core
  after : Core

/-- `gate` is `abk_fido_auth_begin_locked`, which may drop the lock: what it
returns, and the device it leaves. -/
def makeCredentialResp (P : Platform) (load io : Io) (entered approved : UInt64) (gate : Core → Except Errno Unit × Core)
    (req : MakeCredReq) (c : Core) : MakeCredentialCall :=
  match start P load entered (.makeCredential req) c with
  | (.done result, c') => ⟨result, { c with storage := loadStoreLocked P load.load load.ids c.storage }, c'⟩
  | (.ask _ rest, c) =>
    match gate c with
    | (.error e, c) => ⟨.error e, c, c⟩
    | (.ok (), c) =>
      let o := finish P io approved rest c
      ⟨o.result, c, o.core⟩

/-- No credential came, went or changed. -/
structure Untouched (s s' : Storage) : Prop where
  inUse : ∀ i, (s'.store.creds i).inUse = (s.store.creds i).inUse
  creds : ∀ i, (s.store.creds i).inUse = true → s'.store.creds i = s.store.creds i
  signCount : s'.store.signCount = s.store.signCount
  aaguid : s'.store.aaguid = s.store.aaguid
  storeDirty : s'.storeDirty = s.storeDirty

/-- The credential a request asks for. -/
structure MakeCredReq.Registered (req : MakeCredReq) (cred : Credential) : Prop where
  inUse : cred.inUse = true
  resident : cred.resident = req.rk
  userId : cred.userId.toList.take cred.userIdLen.toNat = req.userId.val
  rpId : cred.rpId.str = req.rpId
  userName : cred.userName.str = if req.userName = [] then text "abk-user" else req.userName
  userDisplay : cred.userDisplay.str = if req.userDisplay = [] then cred.userName.str else req.userDisplay

/-- The lowest free slot holds the new credential, and that is all that changed. -/
structure Filled (req : MakeCredReq) (slot : Fin maxCreds) (s s' : Storage) : Prop where
  free : (s.store.creds slot).inUse = false
  lowest : ∀ i < slot, (s.store.creds i).inUse = true
  cred : req.Registered (s'.store.creds slot)
  others : ∀ i, i ≠ slot → s'.store.creds i = s.store.creds i
  signCount : s'.store.signCount = s.store.signCount
  aaguid : s'.store.aaguid = s.store.aaguid

/-! ## All or nothing -/

theorem untouched_refl (s : Storage) : Untouched s s := ⟨fun _ => rfl, fun _ _ => rfl, rfl, rfl, rfl⟩

/-- A free slot cleared again. -/
theorem untouched_revert {s : Storage} {slot : Fin maxCreds} (h : (s.store.creds slot).inUse = false) :
    Untouched s (s.setCred slot .zero) := by
  refine ⟨fun i => ?_, fun i hi => Function.update_of_ne ?_ .., rfl, rfl, rfl⟩
  · by_cases hi : i = slot
    · subst hi
      simp [Storage.setCred, Credential.zero, h]
    · simp [Storage.setCred, Function.update_of_ne hi]
  · rintro rfl
    rw [h] at hi
    cases hi

theorem registered_newCredential {req : MakeCredReq} (h : req.Strings) (credId privKey : Bytes 32) (pubKey : Bytes 64)
    (hmacSecret : Bytes 32) :
    req.Registered { newCredential req credId with privKey := privKey, pubKey := pubKey, hmacSecret := hmacSecret } := by
  have hlen := req.userId.property
  have hname : FitsIn 64 (if req.userName = [] then text "abk-user" else req.userName) := by
    split
    · exact ⟨by decide, by decide⟩
    · exact h.userName
  refine ⟨rfl, rfl, ?_, h.rpId.str_strscpy, hname.str_strscpy, ?_⟩
  · show ((req.userId.val.take 64 ++ List.replicate (64 - req.userId.val.length) 0).take
      (UInt8.ofNat req.userId.val.length).toNat) = req.userId.val
    have hbyte : req.userId.val.length < UInt8.size := lt_of_le_of_lt hlen (by decide)
    rw [UInt8.toNat_ofNat_of_lt' hbyte, List.take_of_length_le hlen, List.take_left]
  · show (CharBuf.strscpy 64 _).str = if req.userDisplay = [] then (CharBuf.strscpy 64 _).str else req.userDisplay
    split
    · exact CharBuf.str_strscpy_of_lt (by rw [CharBuf.cstr_str]; exact CharBuf.length_str_lt _) |>.trans (CharBuf.cstr_str _)
    · exact h.userDisplay.str_strscpy

/-- The lowest free slot, filled; saving does not change the store. -/
theorem filled_setCred {req : MakeCredReq} {cred : Credential} (h : req.Registered cred) {s : Storage} {slot : Fin maxCreds}
    (hslot : allocCredentialLocked s.store = some slot) (io : Option WriteIo) :
    Filled req slot s (maybePersistLocked P io (s.setCred slot cred).markDirty) := by
  obtain ⟨hfree, hlow⟩ := find_finRange.mp hslot
  constructor
  · simpa using hfree
  · exact fun i hi => by simpa using hlow i hi
  · rw [StoreOp.maybePersist_store]
    show req.Registered (Function.update s.store.creds slot cred slot)
    rwa [Function.update_self]
  · intro i hi
    rw [StoreOp.maybePersist_store]
    exact Function.update_of_ne hi _ _
  · rw [StoreOp.maybePersist_store]
    rfl
  · rw [StoreOp.maybePersist_store]
    rfl

theorem makeCredentialFinish_atomic {req : MakeCredReq} (hreq : req.Strings) (io : Io) (c : Core) :
    (∀ e, (makeCredentialFinish P io req c).result = .error e →
      Untouched c.storage (makeCredentialFinish P io req c).core.storage) ∧
    ∀ payload, (makeCredentialFinish P io req c).result = .ok payload →
      ∃ slot, Filled req slot c.storage (makeCredentialFinish P io req c).core.storage := by
  have kept : ∀ e effects, (∀ e', (Outcome.mk c (.error e) effects).result = .error e' → Untouched c.storage c.storage) ∧
      ∀ payload, (Outcome.mk c (.error e) effects).result = .ok payload → ∃ slot, Filled req slot c.storage c.storage :=
    fun e effects => ⟨fun _ _ => untouched_refl _, fun _ h => by cases h⟩
  simp only [makeCredentialFinish]
  split
  · exact kept _ []
  split
  · exact kept _ []
  next slot hslot =>
  have reverted := untouched_revert (StoreOp.alloc_not_inUse hslot)
  split
  · exact ⟨fun _ _ => reverted, fun _ h => by cases h⟩
  split
  · exact ⟨fun _ _ => reverted, fun _ h => by cases h⟩
  split
  · exact ⟨fun _ _ => reverted, fun _ h => by cases h⟩
  split
  · exact ⟨fun _ _ => reverted, fun _ h => by cases h⟩
  · exact ⟨(fun _ h => by cases h), fun _ _ => ⟨slot, filled_setCred (registered_newCredential hreq ..) hslot _⟩⟩

/-- **makeCredential is all or nothing**: an answer leaves the lowest free slot
filled with what the request asks for, and an error leaves every credential
as it was; a selection probe never comes near the slots. -/
theorem makeCredential_atomic (P : Platform) (load io : Io) (entered approved : UInt64)
    (gate : Core → Except Errno Unit × Core) {req : MakeCredReq} (hreq : req.Strings) (c : Core) :
    (∀ e, (makeCredentialResp P load io entered approved gate req c).result = .error e →
      Untouched (makeCredentialResp P load io entered approved gate req c).before.storage
        (makeCredentialResp P load io entered approved gate req c).after.storage) ∧
    (∀ payload, (makeCredentialResp P load io entered approved gate req c).result = .ok payload →
      isSelectionMakeCredential req = false →
      ∃ slot, Filled req slot (makeCredentialResp P load io entered approved gate req c).before.storage
        (makeCredentialResp P load io entered approved gate req c).after.storage) ∧
    (isSelectionMakeCredential req = true →
      (makeCredentialResp P load io entered approved gate req c).after =
        (makeCredentialResp P load io entered approved gate req c).before) := by
  unfold makeCredentialResp start
  dsimp only
  by_cases hsel : isSelectionMakeCredential req = true
  · rw [if_pos hsel]
    dsimp only
    split
    · exact ⟨fun _ _ => untouched_refl _, fun _ h => (nomatch h), fun _ => rfl⟩
    · exact ⟨fun _ _ => untouched_refl _, fun _ _ h => absurd hsel (by rw [h]; decide), fun _ => rfl⟩
  rw [if_neg hsel]
  by_cases hpin : req.pinAuthPresent = true
  · rw [if_pos hpin]
    exact ⟨fun _ _ => untouched_refl _, fun _ h => (nomatch h), fun h => absurd h hsel⟩
  rw [if_neg hpin]
  by_cases hup : req.upDisabled = true
  · rw [if_pos hup]
    exact ⟨fun _ _ => untouched_refl _, fun _ h => (nomatch h), fun h => absurd h hsel⟩
  rw [if_neg hup]
  dsimp only
  split
  · exact ⟨fun _ _ => untouched_refl _, fun _ h => (nomatch h), fun h => absurd h hsel⟩
  · next c' _ =>
    obtain ⟨herror, hok⟩ := makeCredentialFinish_atomic (P := P) hreq io c'
    exact ⟨herror, fun payload h _ => hok payload h, fun h => absurd h hsel⟩

/-- A request for a new credential at `a`. -/
def plainRequest : MakeCredReq := { MakeCredReq.zero with haveClientDataHash := true, haveRpId := true, haveUserId := true, rpId := [0x61] }

theorem plainRequest_strings : plainRequest.Strings := by
  refine ⟨?_, ?_, ?_⟩ <;> exact ⟨by decide, by decide⟩

/-- An approval that takes so long that another store is there when it comes. -/
def slowApproval (c : Core) : Except Errno Unit × Core := (.ok (), { c with storage := { c.storage with store := keyStore } })

def plainCall : MakeCredentialCall :=
  makeCredentialResp .volatile .plain .plain 0 0 slowApproval plainRequest { storage := .boot none, assert := none }

theorem makeCredential_plainRequest : plainCall.before.storage.store = keyStore ∧ plainCall.result.isOk = true ∧
    ∃ slot, Filled plainRequest slot plainCall.before.storage plainCall.after.storage := by
  have hcall := makeCredential_atomic .volatile .plain .plain 0 0 slowApproval plainRequest_strings
    { storage := .boot none, assert := none }
  have hok : plainCall.result.isOk = true := by decide +kernel
  refine ⟨rfl, hok, ?_⟩
  cases hresult : plainCall.result with
  | error e =>
    rw [hresult] at hok
    cases hok
  | ok payload => exact hcall.2.1 payload hresult rfl

end AbkFido
