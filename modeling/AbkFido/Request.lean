/-
The two request parsers, `abk_fido_parse_make_cred` and
`abk_fido_parse_get_assert`: a CBOR map whose values are read by key, in the
order they come, a repeated key overwriting or adding to what is there.

Each top-level key has a function of its own; a function that reads a map
hands the request it fills from entry to entry.
-/
import AbkFido.Cbor
import AbkFido.Store

namespace AbkFido

open Cbor

/-- The bytes of a string literal of the source, which are all ASCII. -/
def text (s : String) : List UInt8 := s.toList.map fun c => c.toNat.toUInt8

/-- `ABK_FIDO_MAX_MSG` -/
def maxMsg : Nat := 2048

/-- `ABK_FIDO_MAX_CRED_LIST` -/
def maxCredList : Nat := maxCreds

def coseAlgEs256 : Int := -7
def coseKtyEc2 : Int := 2
def coseCrvP256 : Int := 1

/-- An entry of a credential list: its id, when it has one. -/
abbrev ListedCred := Option (List UInt8)

/-- `struct abk_fido_make_cred_req`, its arrays and counts as the strings and lists they hold. -/
structure MakeCredReq where
  haveClientDataHash : Bool
  haveRpId : Bool
  haveUserId : Bool
  rk : Bool
  uv : Bool
  upDisabled : Bool
  pinAuthPresent : Bool
  hmacSecretRequested : Bool
  clientDataHash : Bytes 32
  rpId : List UInt8
  userId : { id : List UInt8 // id.length ≤ 64 }
  userName : List UInt8
  userDisplay : List UInt8
  exclude : List ListedCred

def MakeCredReq.zero : MakeCredReq where
  haveClientDataHash := false
  haveRpId := false
  haveUserId := false
  rk := false
  uv := false
  upDisabled := false
  pinAuthPresent := false
  hmacSecretRequested := false
  clientDataHash := zeros 32
  rpId := []
  userId := ⟨[], by decide⟩
  userName := []
  userDisplay := []
  exclude := []

/-- `struct abk_fido_get_assert_req` -/
structure GetAssertReq where
  haveClientDataHash : Bool
  haveRpId : Bool
  uv : Bool
  upDisabled : Bool
  pinAuthPresent : Bool
  hmacSecretRequested : Bool
  hmacKeyAgreement : Bytes 64
  hmacSaltEnc : Bytes 64
  hmacSaltAuth : Bytes 16
  clientDataHash : Bytes 32
  rpId : List UInt8
  allow : List ListedCred

def GetAssertReq.zero : GetAssertReq where
  haveClientDataHash := false
  haveRpId := false
  uv := false
  upDisabled := false
  pinAuthPresent := false
  hmacSecretRequested := false
  hmacKeyAgreement := zeros 64
  hmacSaltEnc := zeros 64
  hmacSaltAuth := zeros 16
  clientDataHash := zeros 32
  rpId := []
  allow := []

/-! ## Shared parts -/

/-- A byte string of exactly `n` bytes. -/
def readFixed (n : Nat) : Cbor (Bytes n) := do
  let slice ← readBytes
  if slice.len ≠ n then fail .einval
  else
    let r ← Prog.get
    pure (r.copy n slice)

/-- A text of fewer than `max` bytes, as the string it leaves in a `char` array. -/
def readStr (max : Nat) : Cbor (List UInt8) := do
  let slice ← readText
  if slice.len ≥ max then fail .einval
  else
    let r ← Prog.get
    pure (cstr (r.bytes slice))

/-- One entry of `excludeList` or `allowList`. -/
def readListedCred (depth : Nat) : Cbor ListedCred := do
  let itemCount ← readMap
  loop itemCount none fun entry => do
    let itemKey ← readText
    let r ← Prog.get
    if sliceEqText r itemKey (text "id") then
      let slice ← readBytes
      if slice.len > 32 then fail .einval
      else
        let r ← Prog.get
        pure (some (r.bytes slice))
    else
      skip depth
      pure entry

/-- A credential list, read no further than the request has room for. -/
def readCredList (depth : Nat) (list : List ListedCred) : Cbor (List ListedCred) := do
  let arr ← readArray
  Prog.loop (fun list => decide (list.length < maxCredList)) (fun list => do
    let entry ← readListedCred depth
    pure (list ++ [entry])) arr list

/-- The `options` map: each key a text, each value a boolean. -/
def readOptions {α : Type} (set : (List UInt8 → Bool) → Bool → α → α) (req : α) : Cbor α := do
  let optCount ← readMap
  loop optCount req fun req => do
    let key ← readText
    let value ← readBool
    let r ← Prog.get
    pure (set (sliceEqText r key) value req)

/-! ## makeCredential -/

/-- Key 2, `rp`: every key and value is a text, and an id that is too long is passed over. -/
def parseRp (req : MakeCredReq) : Cbor MakeCredReq := do
  let rpCount ← readMap
  loop rpCount req fun req => do
    let rpKey ← readText
    let value ← readText
    let r ← Prog.get
    if sliceEqText r rpKey (text "id") ∧ value.len < 128 then
      pure { req with rpId := cstr (r.bytes value), haveRpId := true }
    else pure req

/-- Key 3, `user`. -/
def parseUser (depth : Nat) (req : MakeCredReq) : Cbor MakeCredReq := do
  let userCount ← readMap
  loop userCount req fun req => do
    let userKey ← readText
    let r ← Prog.get
    if sliceEqText r userKey (text "id") then
      let slice ← readBytes
      if h : slice.len ≤ 64 then
        let r ← Prog.get
        pure { req with userId := ⟨r.bytes slice, (r.length_bytes_le slice).trans h⟩, haveUserId := true }
      else fail .einval
    else if sliceEqText r userKey (text "name") then
      let name ← readStr 64
      pure { req with userName := name }
    else if sliceEqText r userKey (text "displayName") then
      let name ← readStr 64
      pure { req with userDisplay := name }
    else
      skip depth
      pure req

/-- One entry of `pubKeyCredParams`: whether the type and the algorithm, each
the last one given, are the ones supported. -/
def readCredParam (depth : Nat) : Cbor (Bool × Bool) := do
  let itemCount ← readMap
  loop itemCount (false, false) fun ok => do
    let itemKey ← readText
    let r ← Prog.get
    if sliceEqText r itemKey (text "type") then
      let value ← readText
      let r ← Prog.get
      pure (sliceEqText r value (text "public-key"), ok.2)
    else if sliceEqText r itemKey (text "alg") then
      let alg ← readInt
      pure (ok.1, alg == coseAlgEs256)
    else
      skip depth
      pure ok

/-- Key 4, `pubKeyCredParams`. -/
def parseCredParams (depth : Nat) : Cbor Unit := do
  let arr ← readArray
  let hasEs256 ← loop arr false fun hasEs256 => do
    let (typeOk, algOk) ← readCredParam depth
    pure (hasEs256 || (typeOk && algOk))
  if hasEs256 then pure () else fail .eopnotsupp

/-- The value of the `hmac-secret` extension: a boolean, or a map whose key 1 is one. -/
def parseHmacCreate (depth : Nat) (requested : Bool) : Cbor Bool := do
  let r ← Prog.get
  if r.pos ≥ r.len then fail .einval
  else
    let next := r.buf.getD r.pos 0
    if next = 0xf4 ∨ next = 0xf5 then readBool
    else if next.toNat / 32 = 5 then
      let hmCount ← readMap
      loop hmCount true fun create => do
        let mkey ← readInt
        if mkey = 1 then readBool
        else
          skip depth
          pure create
    else
      skip depth
      pure requested

/-- Key 6, `extensions`. -/
def parseMakeCredExtensions (depth : Nat) (req : MakeCredReq) : Cbor MakeCredReq := do
  let extCount ← readMap
  loop extCount req fun req => do
    let extKey ← readText
    let r ← Prog.get
    if sliceEqText r extKey (text "hmac-secret") then
      let requested ← parseHmacCreate depth req.hmacSecretRequested
      pure { req with hmacSecretRequested := requested }
    else
      skip depth
      pure req

/-- Key 7, `options`. -/
def MakeCredReq.setOption (key : List UInt8 → Bool) (value : Bool) (req : MakeCredReq) : MakeCredReq :=
  if key (text "rk") then { req with rk := value }
  else if key (text "uv") then { req with uv := value }
  else if key (text "up") then { req with upDisabled := !value }
  else req

def parseMakeCredKey (depth : Nat) (req : MakeCredReq) (key : Int) : Cbor MakeCredReq :=
  match key with
  | 1 => do
    let hash ← readFixed 32
    pure { req with clientDataHash := hash, haveClientDataHash := true }
  | 2 => parseRp req
  | 3 => parseUser depth req
  | 4 => do
    parseCredParams depth
    pure req
  | 5 => do
    let exclude ← readCredList depth req.exclude
    pure { req with exclude := exclude }
  | 6 => parseMakeCredExtensions depth req
  | 7 => readOptions MakeCredReq.setOption req
  | 8 => do
    -- The parameter is recorded, never honoured: the key has no client PIN.
    let _ ← readBytes
    pure { req with pinAuthPresent := true }
  | 9 => do
    let _ ← readUint
    pure req
  | _ => do
    skip depth
    pure req

/-- `abk_fido_parse_make_cred` -/
def parseMakeCred (depth : Nat) : Cbor MakeCredReq := do
  let count ← readMap
  let req ← loop count MakeCredReq.zero fun req => do
    let key ← readInt
    parseMakeCredKey depth req key
  if req.haveClientDataHash ∧ req.haveRpId ∧ req.haveUserId then pure req else fail .einval

/-! ## getAssertion -/

/-- The members of a COSE key that matter: `kty` and `crv` as last given are
right, and the coordinates. -/
structure CoseKey where
  haveKty : Bool
  haveCrv : Bool
  x : Option (Bytes 32)
  y : Option (Bytes 32)

/-- `abk_cbor_read_cose_p256_xy` -/
def readCoseP256Xy (depth : Nat) : Cbor (Bytes 64) := do
  let count ← readMap
  let cose ← loop count { haveKty := false, haveCrv := false, x := none, y := none : CoseKey } fun cose => do
    let key ← readInt
    match key with
    | 1 => do
      let kty ← readInt
      pure { cose with haveKty := kty == coseKtyEc2 }
    | -1 => do
      let crv ← readInt
      pure { cose with haveCrv := crv == coseCrvP256 }
    | -2 => do
      let x ← readFixed 32
      pure { cose with x := some x }
    | -3 => do
      let y ← readFixed 32
      pure { cose with y := some y }
    | _ => do
      skip depth
      pure cose
  match cose with
  | { haveKty := true, haveCrv := true, x := some x, y := some y } => pure (x ++ y)
  | _ => fail .einval

/-- The hmac-secret input as it is read: the request and which parts have come. -/
structure HmacInput where
  req : GetAssertReq
  haveKa : Bool
  haveEnc : Bool
  haveAuth : Bool

/-- The value of the `hmac-secret` extension of getAssertion. -/
def parseHmacInput (depth : Nat) (req : GetAssertReq) : Cbor GetAssertReq := do
  let hmCount ← readMap
  let input ← loop hmCount { req := req, haveKa := false, haveEnc := false, haveAuth := false : HmacInput }
    fun input => do
      let mkey ← readInt
      match mkey with
      | 1 => do
        let xy ← readCoseP256Xy depth
        pure { input with req := { input.req with hmacKeyAgreement := xy }, haveKa := true }
      | 2 => do
        let enc ← readFixed 64
        pure { input with req := { input.req with hmacSaltEnc := enc }, haveEnc := true }
      | 3 => do
        let auth ← readFixed 16
        pure { input with req := { input.req with hmacSaltAuth := auth }, haveAuth := true }
      | _ => do
        skip depth
        pure input
  if input.haveKa ∧ input.haveEnc ∧ input.haveAuth then pure { input.req with hmacSecretRequested := true }
  else fail .einval

/-- Key 4, `extensions`. -/
def parseGetAssertExtensions (depth : Nat) (req : GetAssertReq) : Cbor GetAssertReq := do
  let extCount ← readMap
  loop extCount req fun req => do
    let extKey ← readText
    let r ← Prog.get
    if sliceEqText r extKey (text "hmac-secret") then parseHmacInput depth req
    else
      skip depth
      pure req

/-- Key 5, `options`. -/
def GetAssertReq.setOption (key : List UInt8 → Bool) (value : Bool) (req : GetAssertReq) : GetAssertReq :=
  if key (text "uv") then { req with uv := value }
  else if key (text "up") then { req with upDisabled := !value }
  else req

def parseGetAssertKey (depth : Nat) (req : GetAssertReq) (key : Int) : Cbor GetAssertReq :=
  match key with
  | 1 => do
    let rpId ← readStr 128
    pure { req with rpId := rpId, haveRpId := true }
  | 2 => do
    let hash ← readFixed 32
    pure { req with clientDataHash := hash, haveClientDataHash := true }
  | 3 => do
    let allow ← readCredList depth req.allow
    pure { req with allow := allow }
  | 4 => parseGetAssertExtensions depth req
  | 5 => readOptions GetAssertReq.setOption req
  | 6 => do
    let _ ← readBytes
    pure { req with pinAuthPresent := true }
  | 7 => do
    let _ ← readUint
    pure req
  | _ => do
    skip depth
    pure req

/-- `abk_fido_parse_get_assert` -/
def parseGetAssert (depth : Nat) : Cbor GetAssertReq := do
  let count ← readMap
  let req ← loop count GetAssertReq.zero fun req => do
    let key ← readInt
    parseGetAssertKey depth req key
  if req.haveClientDataHash ∧ req.haveRpId then pure req else fail .einval

end AbkFido
