/-
The CTAP commands that use the store or the gate.

A gated command is a part up to `abk_fido_auth_begin_locked` (`start`),
which answers at once or asks for approval, and a part from its return on
(`finish`). What it holds in local variables in between is its `Rest`. Each
part runs under the device lock, on the `Core` of the device; what random
numbers, keys, signatures and the file system answer meanwhile is its `Io`.

A part also reports what it did that matters to the user: an assertion or
an attestation signed, a slot filled, the store wiped.
-/
import AbkFido.Gate
import AbkFido.Request

namespace AbkFido

def ctapMakeCredential : UInt8 := 0x01
def ctapGetAssertion : UInt8 := 0x02
def ctapGetInfo : UInt8 := 0x04
def ctapClientPin : UInt8 := 0x06
def ctapReset : UInt8 := 0x07
def ctapGetNextAssertion : UInt8 := 0x08
def ctapSelection : UInt8 := 0x0b

def credFlagUp : UInt8 := 0x01
def credFlagUv : UInt8 := 0x04
def credFlagAt : UInt8 := 0x40

/-- `ABK_FIDO_MAX_CBOR` -/
def maxCbor : Nat := 1536

/-- What a part of a command gets from outside the device. -/
structure Io where
  load : ReadIo
  ids : FreshIds
  persist : Option WriteIo
  credId : Bytes 32
  hmacSecret : Bytes 32
  /-- `ecc_gen_privkey` and `ecc_make_pub_key` -/
  keyPair : Except Errno (Bytes 32 × Bytes 64)
  /-- `abk_fido_ecdsa_sign_p256` of a digest -/
  sign : Bytes 32 → List UInt8 → Except Errno (List UInt8)
  /-- `abk_fido_hmac_get_secret_locked` -/
  hmacGetSecret : Credential → GetAssertReq → Except Errno (Bytes 64)

/-- The `assert_` fields while `assert_valid` is set. -/
structure Continuation where
  slots : List (Fin maxCreds)
  next : Nat
  clientDataHash : Bytes 32
  rpId : List UInt8
  expires : UInt64

/-- What the commands share, besides the gate. -/
structure Core where
  storage : Storage
  assert : Option Continuation

/-- `abk_fido_clear_assert_state_locked` -/
def Core.clearAssertState (c : Core) : Core := { c with assert := none }

/-! ## Authenticator data -/

structure AuthData where
  rpIdHash : List UInt8
  flags : UInt8
  signCount : UInt32
  /-- Attested credential data and extensions. -/
  rest : List UInt8

def AuthData.bytes (a : AuthData) : List UInt8 :=
  a.rpIdHash ++ [a.flags] ++ Writer.beBytes 4 a.signCount.toNat ++ a.rest

section
variable (P : Platform)

/-- `abk_fido_authdata_common` -/
def authdataCommon (rpId : List UInt8) (flags : UInt8) (signCount : UInt32) : AuthData where
  rpIdHash := P.sha256 rpId
  flags := flags
  signCount := signCount
  rest := []

/-- `abk_fido_encode_cose_key` -/
def encodeCoseKey (pubKey : Bytes 64) (alg : Int) : Except Errno (List UInt8) :=
  ((((((((((Writer.init maxCbor).putMap 5).putInt 1).putInt coseKtyEc2).putInt 3).putInt alg).putInt (-1)).putInt
    coseCrvP256).putInt (-2)).putBytes (pubKey.toList.take 32)).putInt (-3)
    |>.putBytes (pubKey.toList.drop 32) |>.result

/-- `abk_fido_make_authdata_attested` -/
def makeAuthdataAttested (st : Store) (cred : Credential) (flags : UInt8) (signCount : UInt32) :
    Except Errno AuthData := do
  let cose ← encodeCoseKey cred.pubKey coseAlgEs256
  .ok { authdataCommon P cred.rpId.str (flags ||| credFlagAt) signCount with
    rest := st.aaguid.toList ++ Writer.beBytes 2 32 ++ cred.credId.toList ++ cose }

/-! ## Events -/

/-- An assertion that was signed: with which slot, as it was, for which
request. -/
structure Signed where
  slot : Fin maxCreds
  cred : Credential
  rpId : List UInt8
  /-- The request's `allowList`, where it had the chance to name one. -/
  allow : List ListedCred
  authData : AuthData
  clientDataHash : Bytes 32

inductive Effect
  | assertion (s : Signed)
  | attestation (slot : Fin maxCreds)
  | filled (slot : Fin maxCreds)
  | wiped

/-- How a part of a command ends. -/
structure Outcome where
  core : Core
  result : Except Errno (List UInt8)
  effects : List Effect

/-! ## makeCredential -/

/-- `abk_fido_is_selection_make_credential` -/
def isSelectionMakeCredential (req : MakeCredReq) : Bool :=
  (req.rpId == text "SelectDevice" && req.userName == text "SelectDevice") ||
    (req.rpId == text ".dummy" && req.userName == text "dummy")

/-- `abk_fido_encode_dummy_make_credential_cbor` -/
def encodeDummyMakeCredentialCbor : Except Errno (List UInt8) :=
  (((((((((((Writer.init maxCbor).putMap 3).putInt 2).putBytes (List.replicate 37 0)).putInt 1).putText
    (text "packed")).putInt 3).putMap 2).putText (text "alg")).putInt coseAlgEs256).putText (text "sig")).putBytes []
    |>.result

/-- `abk_fido_find_credential_by_id_locked`, as a test. -/
def findCredentialById (st : Store) (id : List UInt8) : Bool :=
  st.used.any fun i => id.length == 32 && id == (st.creds i).credId.toList

/-- The credential a request asks for, before it has keys. -/
def newCredential (req : MakeCredReq) (credId : Bytes 32) : Credential :=
  let userName := CharBuf.strscpy 64 (if req.userName = [] then text "abk-user" else req.userName)
  { Credential.zero with
    inUse := true
    resident := req.rk
    credId := credId
    userId := (Layout.Codec.bytes 64).dec req.userId.val
    userIdLen := .ofNat req.userId.val.length
    rpId := .strscpy 128 req.rpId
    userName := userName
    userDisplay := .strscpy 64 (if req.userDisplay = [] then userName.str else req.userDisplay)
    userIdLen_le := by
      have := req.userId.property
      rw [UInt8.le_iff_toNat_le, UInt8.toNat_ofNat']
      exact (Nat.mod_le _ _).trans this }

/-- The `hmac-secret` extension of the attested authenticator data. -/
def hmacCreated (room : Nat) : Except Errno (List UInt8) :=
  (((Writer.init room).putMap 1).putText (text "hmac-secret")).putBool true |>.result

/-- `abk_fido_make_credential_resp`, once it is approved. -/
def makeCredentialFinish (io : Io) (req : MakeCredReq) (c : Core) : Outcome :=
  if req.exclude.any fun entry => entry.any (findCredentialById c.storage.store) then ⟨c, .error .eexist, []⟩
  else match allocCredentialLocked c.storage.store with
    | none => ⟨c, .error .enospc, []⟩
    | some slot =>
      let revert e effects := Outcome.mk { c with storage := c.storage.setCred slot .zero } (.error e) effects
      match io.keyPair with
      | .error e => revert e [.filled slot]
      | .ok (privKey, pubKey) =>
        let cred := { newCredential req io.credId with
          privKey := privKey
          pubKey := pubKey
          hmacSecret := if req.hmacSecretRequested then io.hmacSecret else zeros 32 }
        let authData := do
          let a ← makeAuthdataAttested P c.storage.store cred (credFlagUp ||| credFlagUv) c.storage.store.signCount
          let ext ← if req.hmacSecretRequested then hmacCreated (512 - a.bytes.length) else .ok []
          .ok { a with rest := a.rest ++ ext : AuthData }
        match authData with
        | .error e => revert e [.filled slot]
        | .ok a =>
          match io.sign cred.privKey (P.sha256 (a.bytes ++ req.clientDataHash.toList)) with
          | .error e => revert e [.filled slot]
          | .ok sig =>
            let payload := ((((((((((Writer.init maxCbor).putMap 3).putInt 1).putText (text "packed")).putInt 2).putBytes
              a.bytes).putInt 3).putMap 2).putText (text "alg")).putInt coseAlgEs256).putText (text "sig")
              |>.putBytes sig |>.result
            match payload with
            | .error e => revert e [.filled slot, .attestation slot]
            | .ok payload =>
              let storage := maybePersistLocked P io.persist (c.storage.setCred slot cred).markDirty
              ⟨{ c with storage := storage }, .ok payload, [.filled slot, .attestation slot]⟩

/-! ## getAssertion and getNextAssertion -/

/-- `abk_fido_rp_matches_request` -/
def rpMatchesRequest (storedRp requestedRp : List UInt8) : Bool :=
  if storedRp = requestedRp then true
  else if ¬ text "https://" <+: requestedRp then false
  else
    let host := (requestedRp.drop 8).takeWhile (· != 47)
    host != [] && storedRp == host

/-- `abk_fido_credential_matches_allow` -/
def credentialMatchesAllow (allow : List ListedCred) (cred : Credential) : Bool :=
  allow.isEmpty || allow.any fun entry => entry.any fun id => id.length == 32 && id == cred.credId.toList

/-- `abk_fido_collect_rp_credentials_locked`: there is room for every slot. -/
def collectRpCredentials (st : Store) (req : GetAssertReq) : List (Fin maxCreds) :=
  st.used.filter fun i => rpMatchesRequest (st.creds i).rpId.str req.rpId && credentialMatchesAllow req.allow (st.creds i)

/-- The response of `abk_fido_encode_assertion_locked`. -/
def assertionPayload (cred : Credential) (authData sig : List UInt8) (includeUser : Bool) (total : Nat) :
    Except Errno (List UInt8) :=
  let pairs := 3 + (if includeUser then 1 else 0) + (if total > 1 then 1 else 0)
  let haveDisplay := cred.userDisplay.str != [] && cred.userDisplay.str != cred.userName.str
  let w := (((((((Writer.init maxCbor).putMap pairs).putInt 1).putMap 2).putText (text "id")).putBytes
    cred.credId.toList).putText (text "type")).putText (text "public-key")
  let w := (((w.putInt 2).putBytes authData).putInt 3).putBytes sig
  let w := if includeUser then
      let w := (((((w.putInt 4).putMap (if haveDisplay then 3 else 2)).putText (text "id")).putBytes
        (cred.userId.toList.take cred.userIdLen.toNat)).putText (text "name")).putText cred.userName.str
      if haveDisplay then (w.putText (text "displayName")).putText cred.userDisplay.str else w
    else w
  let w := if total > 1 then (w.putInt 5).putUint total else w
  w.result

/-- The `hmac-secret` extension of an assertion. -/
def hmacAnswered (room : Nat) (output : Bytes 64) : Except Errno (List UInt8) :=
  (((Writer.init room).putMap 1).putText (text "hmac-secret")).putBytes output.toList |>.result

/-- `abk_fido_encode_assertion_locked`. The counter goes up before anything can fail. -/
def encodeAssertionLocked (io : Io) (slot : Fin maxCreds) (rpId : List UInt8) (allow : List ListedCred)
    (clientDataHash : Bytes 32) (includeUser : Bool) (total : Nat) (hmacOutput : Option (Bytes 64)) (c : Core) :
    Outcome :=
  let cred := c.storage.store.creds slot
  let bumped := { c with storage := c.storage.bumpSignCount }
  let header := authdataCommon P rpId (credFlagUp ||| credFlagUv) bumped.storage.store.signCount
  let authData : Except Errno AuthData := match hmacOutput with
    | none => .ok header
    | some output => (hmacAnswered (200 - 37) output).map fun ext => { header with rest := ext : AuthData }
  match authData with
  | .error e => ⟨bumped, .error e, []⟩
  | .ok a =>
    match io.sign cred.privKey (P.sha256 (a.bytes ++ clientDataHash.toList)) with
    | .error e => ⟨bumped, .error e, []⟩
    | .ok sig =>
      let effects := [Effect.assertion
        { slot := slot, cred := cred, rpId := rpId, allow := allow, authData := a, clientDataHash := clientDataHash }]
      match assertionPayload cred a.bytes sig includeUser total with
      | .error e => ⟨bumped, .error e, effects⟩
      | .ok payload =>
        let storage := maybePersistLocked P io.persist bumped.storage.markDirty
        ⟨{ bumped with storage := storage }, .ok payload, effects⟩

/-- `abk_fido_get_assertion_resp`, once it is approved, for the slots it chose before. -/
def getAssertionFinish (io : Io) (now : UInt64) (req : GetAssertReq) (slot : Fin maxCreds)
    (more : List (Fin maxCreds)) (c : Core) : Outcome :=
  let count := more.length + 1
  let hmacOutput := if req.hmacSecretRequested then
      (io.hmacGetSecret (c.storage.store.creds slot) req).map some
    else .ok none
  match hmacOutput with
  | .error e => ⟨c, .error e, []⟩
  | .ok hmacOutput =>
    let includeUser := req.allow.isEmpty || count > 1 || (c.storage.store.creds slot).resident
    let o := encodeAssertionLocked P io slot req.rpId req.allow req.clientDataHash includeUser count hmacOutput c
    match o.result with
    | .error _ => o
    | .ok _ =>
      if count > 1 then
        let k : Continuation :=
          { slots := slot :: more
            next := 1
            clientDataHash := req.clientDataHash
            rpId := req.rpId
            expires := now + msecsToJiffies P assertWindowMs }
        { o with core := { o.core with assert := some k } }
      else o

/-- `abk_fido_get_next_assertion_resp`, once it is approved. -/
def getNextAssertionFinish (io : Io) (now : UInt64) (slot : Fin maxCreds) (served : Nat) (clientDataHash : Bytes 32)
    (rpId : List UInt8) (c : Core) : Outcome :=
  match c.assert with
  | none => ⟨c, .error errNotAllowed, []⟩
  | some k =>
    -- The lock was dropped while waiting, so the continuation may be another.
    if k.next + 1 ≠ served then ⟨c, .error errNotAllowed, []⟩
    else
      let o := encodeAssertionLocked P io slot rpId [] clientDataHash true 1 none c
      match o.result with
      | .error _ => o
      | .ok _ =>
        let k := { k with next := k.next + 1, expires := now + msecsToJiffies P assertWindowMs }
        { o with core := { o.core with assert := if k.next ≥ k.slots.length then none else some k } }

/-! ## Dispatch -/

/-- A message after its parse. -/
inductive Command
  | getInfo
  | makeCredential (req : MakeCredReq)
  | getAssertion (req : GetAssertReq)
  | getNextAssertion
  | reset
  | selection
  | clientPin
  | unknown

/-- What a command holds while it waits for the user. -/
inductive Rest
  | makeCredential (req : MakeCredReq)
  | selectionMakeCredential
  | getAssertion (req : GetAssertReq) (slot : Fin maxCreds) (more : List (Fin maxCreds))
  | getNextAssertion (slot : Fin maxCreds) (served : Nat) (clientDataHash : Bytes 32) (rpId : List UInt8)
  | reset
  | selection

/-- How the first part of a command ends. -/
inductive Start
  | done (result : Except Errno (List UInt8))
  | ask (ask : Ask) (rest : Rest)

/-- `abk_fido_get_info_resp`'s answer. -/
def getInfoPayload (st : Store) : Except Errno (List UInt8) :=
  let w := (((((Writer.init maxCbor).putMap 7).putInt 1).putArray 1).putText (text "FIDO_2_0")).putInt 2
  let w := (((w.putArray 1).putText (text "hmac-secret")).putInt 3).putBytes st.aaguid.toList
  let w := ((((w.putInt 4).putMap 4).putText (text "rk")).putBool true).putText (text "up")
  let w := ((((w.putBool true).putText (text "uv")).putBool true).putText (text "plat")).putBool false
  ((((((w.putInt 5).putUint maxMsg).putInt 7).putUint (maxCredList / 2)).putInt 8).putUint 32).result

/-- The first part of a command, up to the gate. -/
def start (io : Io) (now : UInt64) (cmd : Command) (c : Core) : Start × Core :=
  let loaded (c : Core) : Core := { c with storage := loadStoreLocked P io.load io.ids c.storage }
  match cmd with
  | .getInfo =>
    let c := loaded c
    (.done (getInfoPayload c.storage.store), c)
  | .makeCredential req =>
    let c := loaded c
    if isSelectionMakeCredential req then
      (.ask { ctapCmd := ctapMakeCredential, rpId := req.rpId, uv := req.uv, rk := false } .selectionMakeCredential, c)
    else if req.pinAuthPresent then (.done (.error errPinNotSet), c)
    else if req.upDisabled then (.done (.error errInvalidOption), c)
    else (.ask { ctapCmd := ctapMakeCredential, rpId := req.rpId, uv := req.uv, rk := req.rk } (.makeCredential req), c)
  | .getAssertion req =>
    let c := loaded c.clearAssertState
    if req.pinAuthPresent then (.done (.error errPinNotSet), c)
    else match collectRpCredentials c.storage.store req with
      | [] => (.done (.error (if req.upDisabled then errUpRequired else .enoent)), c)
      | slot :: more =>
        (.ask { ctapCmd := ctapGetAssertion, rpId := req.rpId, uv := req.uv, rk := false } (.getAssertion req slot more), c)
  | .getNextAssertion =>
    match c.assert with
    | none => (.done (.error errNotAllowed), c)
    | some k =>
      match k.slots[k.next]? with
      | none => (.done (.error errNotAllowed), c.clearAssertState)
      | some slot =>
        if !timeBefore now k.expires then (.done (.error errNotAllowed), c.clearAssertState)
        else if !(c.storage.store.creds slot).inUse then (.done (.error .enoent), c.clearAssertState)
        else
          (.ask { ctapCmd := ctapGetNextAssertion, rpId := k.rpId, uv := false, rk := false }
            (.getNextAssertion slot (k.next + 1) k.clientDataHash k.rpId), c)
  | .reset => (.ask { ctapCmd := ctapReset, rpId := [], uv := false, rk := false } .reset, c)
  | .selection => (.ask { ctapCmd := ctapSelection, rpId := [], uv := false, rk := false } .selection, c)
  | .clientPin => (.done (.error errInvalidCommand), c)
  | .unknown => (.done (.error .enoioctlcmd), c)

/-- What an approved command does. -/
def finish (io : Io) (now : UInt64) (rest : Rest) (c : Core) : Outcome :=
  match rest with
  | .makeCredential req => makeCredentialFinish P io req c
  | .selectionMakeCredential => ⟨c, encodeDummyMakeCredentialCbor, []⟩
  | .getAssertion req slot more => getAssertionFinish P io now req slot more c
  | .getNextAssertion slot served clientDataHash rpId => getNextAssertionFinish P io now slot served clientDataHash rpId c
  | .reset => ⟨{ c with storage := maybePersistLocked P io.persist (c.storage.wipe io.ids) }, .ok [], [.wiped]⟩
  | .selection => ⟨c, .ok [], []⟩

end

/-- The parse of `abk_fido_cbor_dispatch`: `none` when it never ends. The
depth is more than the nested calls of a parse that does not come back to
where it was. -/
def parseCommand (allocOk : Bool) (msg : List UInt8) : Option (Except Errno Command) :=
  let parsed {α : Type} (r : Except Fail α) (f : α → Command) : Option (Except Errno Command) :=
    match r with
    | .ok req => some (.ok (f req))
    | .error (.errno e) => some (.error e)
    | .error .depth => none
  match msg with
  | [] => some (.error .einval)
  | cmd :: body =>
    if cmd = ctapGetInfo then some (.ok .getInfo)
    else if cmd = ctapMakeCredential then
      if !allocOk then some (.error .enomem)
      else parsed (parseMakeCred (maxMsg + 1) (.init body)).1 .makeCredential
    else if cmd = ctapGetAssertion then
      if !allocOk then some (.error .enomem)
      else parsed (parseGetAssert (maxMsg + 1) (.init body)).1 .getAssertion
    else if cmd = ctapGetNextAssertion then some (.ok .getNextAssertion)
    else if cmd = ctapReset then some (.ok .reset)
    else if cmd = ctapSelection then some (.ok .selection)
    else if cmd = ctapClientPin then some (.ok .clientPin)
    else some (.ok .unknown)

/-- Whether receiving a message ends a pending assertion continuation. -/
def endsContinuation (msg : List UInt8) : Bool :=
  match msg with
  | [] => false
  | cmd :: _ => cmd != ctapGetNextAssertion && cmd != ctapGetAssertion

end AbkFido
