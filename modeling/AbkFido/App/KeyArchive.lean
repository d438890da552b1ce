/-
`KeyArchive`: the key file of export and import.

A key file is a header and a JSON document, sealed under a key made from the
passphrase. The document holds the records' strings as text and their bytes
in base64; a record is read from it member by member, with a default for
each member that is not there.

JSON text, PBKDF2 and AES-GCM are parameters.
-/
import AbkFido.App.Blob
import AbkFido.App.Json
import AbkFido.Lib.Base64
import AbkFido.Lib.CborForm
import AbkFido.Request

namespace AbkFido

open Layout

/-! ## Records -/

namespace KeyArchive

open JsonObject

def b64 (bytes : List UInt8) : JsonValue := .string (Base64.encode bytes)

/-- No bytes, where the text is not base64. -/
def unb64 (s : List Char) : List UInt8 := (Base64.decode s).getD []

def toJson (r : FidoCredentialRecord) : JsonObject :=
  [] |> put "rp" (.string (Utf8.decode r.rpId))
    |> put "name" (.string (Utf8.decode r.userName))
    |> put "display" (.string (Utf8.decode r.userDisplay))
    |> put "resident" (.boolean r.resident)
    |> put "user_id_len" (.number r.userIdLen)
    |> put "cred_id" (b64 r.credId)
    |> put "user_id" (b64 r.userId)
    |> put "priv_key" (b64 r.privKey)
    |> put "pub_key" (b64 r.pubKey)
    |> put "hmac_secret" (b64 r.hmacSecret)

/-- The error is the message of the `ArchiveError`. -/
def toRecord (J : OrgJson) (o : JsonObject) : Except String FidoCredentialRecord :=
  let credId := unb64 (optString J o "cred_id")
  let privKey := unb64 (optString J o "priv_key")
  let hmacSecret := unb64 (optString J o "hmac_secret")
  if credId.length ≠ 32 ∨ privKey.length ≠ 32 then .error "key file holds a malformed credential"
  else .ok
    { slot := -1
      resident := optBoolean J o "resident" true
      userIdLen := optInt J o "user_id_len" 0
      credId := credId
      userId := unb64 (optString J o "user_id")
      rpId := Utf8.encode (optString J o "rp")
      userName := Utf8.encode (optString J o "name")
      userDisplay := Utf8.encode (optString J o "display")
      privKey := privKey
      pubKey := unb64 (optString J o "pub_key")
      hmacSecret := if hmacSecret.length = 32 then hmacSecret else List.replicate 32 0 }

/-! ## The file -/

/-- PBKDF2 with HMAC-SHA-256, and AES-GCM with a 128-bit tag. -/
structure Cipher where
  deriveKey : List UInt16 → Bytes 16 → Nat → Bytes 32
  encrypt : Bytes 32 → Bytes 12 → List UInt8 → List UInt8 → List UInt8
  decrypt : Bytes 32 → Bytes 12 → List UInt8 → List UInt8 → Option (List UInt8)
  decrypt_encrypt : ∀ key nonce aad plaintext, decrypt key nonce aad (encrypt key nonce aad plaintext) = some plaintext
  length_encrypt : ∀ key nonce aad plaintext, (encrypt key nonce aad plaintext).length = plaintext.length + 16

def magic : List UInt8 := text "ABKFIDO1"
def version : Nat := 1
def iterations : Nat := 210000
def headerLen : Nat := 41

def header (salt : Bytes 16) (nonce : Bytes 12) : List UInt8 :=
  magic ++ [.ofNat version] ++ CborForm.bigEndian 4 iterations ++ salt.toList ++ nonce.toList

def document (exportedAt : Int) (records : List FidoCredentialRecord) : JsonObject :=
  [] |> put "v" (.number version)
    |> put "exported_at" (.number exportedAt)
    |> put "keys" (.array (records.map fun r => .object (toJson r)))

/-- `export`, with the time and the random bytes it draws. -/
def exports (C : Cipher) (J : OrgJson) (exportedAt : Int) (salt : Bytes 16) (nonce : Bytes 12)
    (records : List FidoCredentialRecord) (passphrase : List UInt16) : List UInt8 :=
  let plaintext := Utf8.encode (J.text (.object (document exportedAt records)))
  header salt nonce ++ C.encrypt (C.deriveKey passphrase salt iterations) nonce (header salt nonce) plaintext

/-- Four bytes of a number, the highest first. -/
def readIntBe (bytes : List UInt8) (off : Nat) : Nat := (copyOfRange bytes off 4).foldl (fun v b => v * 256 + b.toNat) 0

/-- `import` -/
def imports (C : Cipher) (J : OrgJson) (bytes : List UInt8) (passphrase : List UInt16) :
    Except String (List FidoCredentialRecord) :=
  if bytes.length ≤ headerLen then .error "this file is not an ABK FIDO key file"
  else if copyOfRange bytes 0 8 ≠ magic then .error "this file is not an ABK FIDO key file"
  else if (bytes.getD 8 0).toNat ≠ version then
    .error ("unsupported key file version " ++ toString (bytes.getD 8 0).toNat)
  else if readIntBe bytes 9 < 1000 ∨ 2000000 < readIntBe bytes 9 then .error "key file header is corrupt"
  else
    let salt := (Codec.bytes 16).dec (bytes.drop 13)
    let nonce := (Codec.bytes 12).dec (bytes.drop 29)
    let key := C.deriveKey passphrase salt (readIntBe bytes 9)
    match C.decrypt key nonce (bytes.take headerLen) (bytes.drop headerLen) with
    | none => .error "wrong passphrase, or the key file was modified"
    | some plaintext =>
      match J.parse (Utf8.decode plaintext) with
      | none => .error "key file contents are corrupt"
      | some document =>
        match optJSONArray document "keys" with
        | none => .error "key file has no keys"
        | some keys =>
          match (keys.filterMap JsonValue.object?).mapM (toRecord J) with
          | .error e => .error e
          | .ok [] => .error "key file has no keys"
          | .ok records => .ok records

end KeyArchive

end AbkFido
