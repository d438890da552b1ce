/-
`auth_context`: the pending request as the driver shows it, and as
`readPendingAuthRequest` reads it.

The driver prints the rp id as it is into a line of `key=value` pairs. The
companion cuts the line at its spaces and keeps the last value of each key.
So the prompt names the relying party the driver will sign for exactly if
the rp id is a text without a space (and without a carriage return, which
the shell takes for the end of a line), as long as the request id is one
that an `Int` holds (`shown_iff`).

A Kotlin string is a list of characters here. How libsu hands over the
output of `cat` is a parameter (`TextReader`).
-/
import AbkFido.Reply
import AbkFido.App.Edit
import AbkFido.App.Kotlin
import AbkFido.Lib.Utf8

namespace AbkFido

open Utf8

/-! ## The driver's side -/

/-- `%u` -/
def printU (n : Nat) : List UInt8 := encode (Nat.toDigits 10 n)

/-- `%u` of a `bool`. -/
def printBool (b : Bool) : List UInt8 := printU b.toNat

/-- `abk_fido_ctap_name` -/
def ctapName (cmd : UInt8) : String :=
  if cmd = ctapMakeCredential then "makeCredential"
  else if cmd = ctapGetAssertion then "getAssertion"
  else if cmd = ctapGetInfo then "getInfo"
  else if cmd = ctapClientPin then "clientPIN"
  else if cmd = ctapReset then "reset"
  else if cmd = ctapSelection then "selection"
  else "unknown"

namespace Auth

/-- `auth_pending_rp_id`, as `%s` prints it. -/
def shownRpId (a : Auth) : List UInt8 := cstr a.pendingRpId

def authPendingShow (a : Auth) : List UInt8 := printBool a.pending ++ text "\n"

def authRequestIdShow (a : Auth) : List UInt8 := printU a.requestId.toNat ++ text "\n"

/-- `auth_context_show`; the line is far shorter than a page. -/
def authContextShow (a : Auth) : List UInt8 :=
  text "req=" ++ printU a.requestId.toNat ++ text " pending=" ++ printBool a.pending ++
    text " cmd=" ++ text (ctapName a.pendingCtapCmd) ++ text " rp=" ++ a.shownRpId ++
    text " uv=" ++ printBool a.pendingUv ++ text " rk=" ++ printBool a.pendingRk ++ text "\n"

end Auth

/-! ## The companion's side -/

/-- What `RootShell.readTextFile` makes of a file's bytes: libsu hands over
the lines that `cat` printed, and they are joined by newlines. -/
structure TextReader where
  stdout : List UInt8 → List Char
  /-- The lines of a text come back, without the newline at the end. -/
  plain : ∀ s, '\r' ∉ s → stdout (encode (s ++ ['\n'])) = s
  /-- A carriage return ends a line too, and is not part of it. -/
  lines : ∀ bytes, '\r' ∉ stdout bytes

/-- `indexOf('=')`, and what is before it and after it; nothing without a key. -/
def pairOf (token : List Char) : Option (List Char × List Char) :=
  if '=' ∉ token ∨ token.head? = some '=' then none
  else some (token.takeWhile (· != '='), (token.dropWhile (· != '=')).tail)

/-- The pairs of a line, as `toMap` takes them. -/
def pairsOf (raw : List Char) : List (List Char × List Char) := (raw.splitOn ' ').filterMap pairOf

/-- The last value of a key. -/
def valueOf (pairs : List (List Char × List Char)) (key : String) : Option (List Char) :=
  (pairs.reverse.find? fun pair => pair.1 == key.toList).map Prod.snd

structure PendingAuthRequest where
  requestId : Int
  command : List Char
  rpId : List Char
  uv : Bool
  rk : Bool
  deriving DecidableEq

/-- `readPendingAuthRequest`, with what the three reads gave. -/
def readPendingAuthRequest (pending requestId context : Option (List Char)) : Option PendingAuthRequest := do
  let pending ← pending
  if Kotlin.trim pending ≠ ['1'] then none
  else do
    let requestId ← requestId
    let requestIdValue ← Kotlin.toIntOrNull (Kotlin.trim requestId)
    let context ← context
    let values := pairsOf (Kotlin.trim context)
    some
      { requestId := requestIdValue
        command := (valueOf values "cmd").getD []
        rpId := (valueOf values "rp").getD []
        uv := valueOf values "uv" == some ['1']
        rk := valueOf values "rk" == some ['1'] }

/-- What is read is the driver's request. -/
structure PendingAuthRequest.Carries (p : PendingAuthRequest) (a : Auth) : Prop where
  requestId : p.requestId = a.requestId.toNat
  command : encode p.command = text (ctapName a.pendingCtapCmd)
  rpId : encode p.rpId = a.shownRpId
  uv : p.uv = a.pendingUv
  rk : p.rk = a.pendingRk

/-- The three reads, each of the record as it is then. -/
def TextReader.readPendingAuthRequest (T : TextReader) (a b c : Auth) : Option PendingAuthRequest :=
  AbkFido.readPendingAuthRequest (some (T.stdout a.authPendingShow)) (some (T.stdout b.authRequestIdShow))
    (some (T.stdout c.authContextShow))

/-- The rp id is a text without a space or a carriage return, and an `Int` holds the request id. -/
structure Auth.Plain (a : Auth) : Prop where
  requestId : a.requestId.toNat < 2 ^ 31
  text : Valid a.shownRpId
  space : 32 ∉ a.shownRpId
  carriageReturn : 13 ∉ a.shownRpId

end AbkFido
