/-
Abstract requests, and the CBOR messages that carry them.

A `MakeCredential` or `GetAssertion` is what a client means: the fields of a
request as values. `Encodes` relates it to every message for it: heads of any
width, keys in any order, entries the device does not know anywhere, and
credential lists of any length with ids of any length. `req` is the request
as the device keeps it.
-/
import AbkFido.Request
import AbkFido.Lib.CborForm

namespace AbkFido

open CborForm

/-- A text that an array of `size` characters holds with its NUL. -/
abbrev CText (size : Nat) := { t : List UInt8 // t.length < size ∧ 0 ∉ t }

/-! ## Shared parts -/

/-- A `PublicKeyCredentialDescriptor`, of which only the id is known. -/
def IsListedCred (cred : ListedCred) : List UInt8 → Prop :=
  IsMap IsText (fun key value => if key = text "id" then ∃ id ∈ cred, IsBytes id value else Plain value)
    [text "id"] fun _ => cred.isSome

/-- The options a client may set. -/
structure Options where
  rk : Option Bool
  uv : Option Bool
  up : Option Bool

def Options.get (o : Options) (key : List UInt8) : Option Bool :=
  if key = text "rk" then o.rk else if key = text "uv" then o.uv else if key = text "up" then o.up else none

def Options.IsMap (o : Options) (known : List (List UInt8)) : List UInt8 → Prop :=
  CborForm.IsMap IsText (fun key value => ∃ b, IsBool b value ∧ (key ∈ known → o.get key = some b)) known
    fun key => (o.get key).isSome

/-- An extension map, of which only hmac-secret is known. -/
def IsExtensions (there : Bool) (Hmac : List UInt8 → Prop) : List UInt8 → Prop :=
  IsMap IsText (fun key value => if key = text "hmac-secret" then Hmac value else Plain value) [text "hmac-secret"]
    fun _ => there

/-! ## makeCredential -/

def IsRp (id : List UInt8) : List UInt8 → Prop :=
  IsMap IsText (fun key value => if key = text "id" then IsText id value else ∃ t, IsText t value) [text "id"]
    fun _ => true

structure User where
  id : { id : List UInt8 // id.length ≤ 64 }
  name : Option (CText 64)
  displayName : Option (CText 64)

def User.there (u : User) (key : List UInt8) : Bool :=
  if key = text "name" then u.name.isSome else if key = text "displayName" then u.displayName.isSome else true

def User.Value (u : User) (key value : List UInt8) : Prop :=
  if key = text "id" then IsBytes u.id.1 value
  else if key = text "name" then ∃ name ∈ u.name, IsText name.1 value
  else if key = text "displayName" then ∃ name ∈ u.displayName, IsText name.1 value
  else Plain value

def User.IsMap (u : User) : List UInt8 → Prop :=
  CborForm.IsMap IsText u.Value [text "id", text "name", text "displayName"] u.there

/-- A `PublicKeyCredentialParameters`: a type and an algorithm. -/
def IsCredParam (param : List UInt8 × Int) : List UInt8 → Prop :=
  IsMap IsText (fun key value =>
    if key = text "type" then IsText param.1 value
    else if key = text "alg" then IsInt param.2 value
    else Plain value) [text "type", text "alg"] fun _ => true

/-- The wish for an hmac-secret: a boolean, or the map form, which asks for one unless key 1 says otherwise. -/
def IsHmacCreate (create : Bool) (bytes : List UInt8) : Prop :=
  IsBool create bytes ∨
    ∃ there : Bool, (there = false → create = true) ∧
      IsMap IsInt (fun key value => if key = 1 then IsBool create value else Plain value) [1] (fun _ => there) bytes

structure MakeCredential where
  clientDataHash : Bytes 32
  rpId : CText 128
  user : User
  credParams : List (List UInt8 × Int)
  /-- ES256 is among the algorithms. -/
  es256 : (text "public-key", coseAlgEs256) ∈ credParams
  exclude : Option (List ListedCred)
  /-- The extensions, and whether hmac-secret is one. -/
  extensions : Option (Option Bool)
  options : Option Options
  pinUvAuthParam : Option (List UInt8)
  pinUvAuthProtocol : Option Nat

namespace MakeCredential

def known : List Int := [1, 2, 3, 4, 5, 6, 7, 8, 9]

def there (q : MakeCredential) (key : Int) : Bool :=
  match key with
  | 5 => q.exclude.isSome
  | 6 => q.extensions.isSome
  | 7 => q.options.isSome
  | 8 => q.pinUvAuthParam.isSome
  | 9 => q.pinUvAuthProtocol.isSome
  | _ => true

def Value (q : MakeCredential) (key : Int) (value : List UInt8) : Prop :=
  match key with
  | 1 => IsBytes q.clientDataHash.toList value
  | 2 => IsRp q.rpId.1 value
  | 3 => q.user.IsMap value
  | 4 => IsArray IsCredParam q.credParams value
  | 5 => ∃ list ∈ q.exclude, IsArray IsListedCred list value
  | 6 => ∃ ext ∈ q.extensions, IsExtensions ext.isSome (fun v => ∃ create ∈ ext, IsHmacCreate create v) value
  | 7 => ∃ o ∈ q.options, o.IsMap [text "rk", text "uv", text "up"] value
  | 8 => ∃ param ∈ q.pinUvAuthParam, IsBytes param value
  | 9 => ∃ protocol ∈ q.pinUvAuthProtocol, IsUint protocol value
  | _ => Plain value

/-- The messages that carry a request. -/
def Encodes (q : MakeCredential) : List UInt8 → Prop := IsMap IsInt q.Value known q.there

/-- The request as the device keeps it. -/
def req (q : MakeCredential) : MakeCredReq where
  haveClientDataHash := true
  haveRpId := true
  haveUserId := true
  rk := (q.options.bind (·.rk)).getD false
  uv := (q.options.bind (·.uv)).getD false
  upDisabled := q.options.bind (·.up) == some false
  pinAuthPresent := q.pinUvAuthParam.isSome
  hmacSecretRequested := q.extensions.join.getD false
  clientDataHash := q.clientDataHash
  rpId := q.rpId.1
  userId := q.user.id
  userName := (q.user.name.map (·.1)).getD []
  userDisplay := (q.user.displayName.map (·.1)).getD []
  exclude := q.exclude.getD []

end MakeCredential

/-! ## getAssertion -/

def coseLabels : List Int := [1, -1, -2, -3]

def CoseValue (x y : Bytes 32) (key : Int) (value : List UInt8) : Prop :=
  match key with
  | 1 => IsInt coseKtyEc2 value
  | -1 => IsInt coseCrvP256 value
  | -2 => IsBytes x.toList value
  | -3 => IsBytes y.toList value
  | _ => Plain value

/-- An EC2 key on P-256, in COSE. -/
def IsCoseKey (x y : Bytes 32) : List UInt8 → Prop := IsMap IsInt (CoseValue x y) coseLabels fun _ => true

/-- What a client sends to have two salts hashed. -/
structure HmacSalts where
  x : Bytes 32
  y : Bytes 32
  saltEnc : Bytes 64
  saltAuth : Bytes 16

def hmacParts : List Int := [1, 2, 3]

def HmacSalts.Value (h : HmacSalts) (key : Int) (value : List UInt8) : Prop :=
  match key with
  | 1 => IsCoseKey h.x h.y value
  | 2 => IsBytes h.saltEnc.toList value
  | 3 => IsBytes h.saltAuth.toList value
  | _ => Plain value

def HmacSalts.IsMap (h : HmacSalts) : List UInt8 → Prop := CborForm.IsMap IsInt h.Value hmacParts fun _ => true

structure GetAssertion where
  rpId : CText 128
  clientDataHash : Bytes 32
  allow : Option (List ListedCred)
  /-- The extensions, and whether hmac-secret is one. -/
  extensions : Option (Option HmacSalts)
  options : Option Options
  pinUvAuthParam : Option (List UInt8)
  pinUvAuthProtocol : Option Nat

namespace GetAssertion

def known : List Int := [1, 2, 3, 4, 5, 6, 7]

def there (q : GetAssertion) (key : Int) : Bool :=
  match key with
  | 3 => q.allow.isSome
  | 4 => q.extensions.isSome
  | 5 => q.options.isSome
  | 6 => q.pinUvAuthParam.isSome
  | 7 => q.pinUvAuthProtocol.isSome
  | _ => true

def Value (q : GetAssertion) (key : Int) (value : List UInt8) : Prop :=
  match key with
  | 1 => IsText q.rpId.1 value
  | 2 => IsBytes q.clientDataHash.toList value
  | 3 => ∃ list ∈ q.allow, IsArray IsListedCred list value
  | 4 => ∃ ext ∈ q.extensions, IsExtensions ext.isSome (fun v => ∃ salts ∈ ext, salts.IsMap v) value
  | 5 => ∃ o ∈ q.options, o.IsMap [text "uv", text "up"] value
  | 6 => ∃ param ∈ q.pinUvAuthParam, IsBytes param value
  | 7 => ∃ protocol ∈ q.pinUvAuthProtocol, IsUint protocol value
  | _ => Plain value

/-- The messages that carry a request. -/
def Encodes (q : GetAssertion) : List UInt8 → Prop := IsMap IsInt q.Value known q.there

/-- The request as the device keeps it. -/
def req (q : GetAssertion) : GetAssertReq where
  haveClientDataHash := true
  haveRpId := true
  uv := (q.options.bind (·.uv)).getD false
  upDisabled := q.options.bind (·.up) == some false
  pinAuthPresent := q.pinUvAuthParam.isSome
  hmacSecretRequested := q.extensions.join.isSome
  hmacKeyAgreement := (q.extensions.join.map fun h => h.x ++ h.y).getD (zeros 64)
  hmacSaltEnc := (q.extensions.join.map (·.saltEnc)).getD (zeros 64)
  hmacSaltAuth := (q.extensions.join.map (·.saltAuth)).getD (zeros 16)
  clientDataHash := q.clientDataHash
  rpId := q.rpId.1
  allow := q.allow.getD []

end GetAssertion

/-- A credential list the request has room for. -/
structure ListFits (list : List ListedCred) : Prop where
  count : list.length ≤ maxCredList
  id : ∀ id, some id ∈ list → id.length ≤ 32

end AbkFido
