/-
`LanClientRegistry`: the computers that may use the key over the LAN.

The list is kept in shared preferences, as a JSON array that is read anew for
every operation and written whole, cut at 64 records. A record that is found
keeps its status; one that is not begins as pending.

The array's text is read back as it was written, so the array is kept.
-/
import AbkFido.App.Json
import AbkFido.App.Kotlin
import AbkFido.Basic
import AbkFido.Lib.Utf16

namespace AbkFido

inductive LanClientStatus
  /-- Seen, and the user has not decided. -/
  | pending
  | authorized
  | blocked
  deriving DecidableEq

namespace LanClientStatus

def entries : List LanClientStatus := [.pending, .authorized, .blocked]

def name : LanClientStatus → List Char
  | .pending => "PENDING".toList
  | .authorized => "AUTHORIZED".toList
  | .blocked => "BLOCKED".toList

def parse (value : List Char) : LanClientStatus :=
  (entries.find? fun status => Kotlin.equalsIgnoreCase status.name value).getD .pending

end LanClientStatus

structure LanClientRecord where
  id : List Char
  name : List Char
  os : List Char
  address : List Char
  status : LanClientStatus
  firstSeen : Int
  lastSeen : Int
  sessions : Int

/-- What a session is looked up under. -/
structure Introduction where
  id : List Char
  name : List Char
  os : List Char
  deriving DecidableEq

namespace LanClientRegistry

open JsonObject

def maxRecords : Nat := 64

/-- `ADDRESS_ID_PREFIX` -/
def addressIdPrefix : List Char := "addr:".toList

/-! ## The stored list -/

def toJson (r : LanClientRecord) : JsonObject :=
  [] |> put "id" (.string r.id)
    |> put "name" (.string r.name)
    |> put "os" (.string r.os)
    |> put "address" (.string r.address)
    |> put "status" (.string r.status.name)
    |> put "first_seen" (.number r.firstSeen)
    |> put "last_seen" (.number r.lastSeen)
    |> put "sessions" (.number r.sessions)

def fromJson (J : OrgJson) (entry : JsonObject) : Option LanClientRecord :=
  let id := optString J entry "id"
  if Kotlin.isBlank id then none
  else some
    { id := id
      name := optString J entry "name"
      os := optString J entry "os"
      address := optString J entry "address"
      status := .parse (optString J entry "status")
      firstSeen := optLong J entry "first_seen" 0
      lastSeen := optLong J entry "last_seen" 0
      sessions := optInt J entry "sessions" 0 }

/-- The value of `KEY_CLIENTS`, if there is one. -/
abbrev Prefs := Option (List JsonValue)

def load (J : OrgJson) (prefs : Prefs) : List LanClientRecord :=
  ((prefs.getD []).filterMap JsonValue.object?).filterMap (fromJson J)

def save (records : List LanClientRecord) : Prefs := some ((records.take maxRecords).map fun r => .object (toJson r))

/-! ## Operations -/

/-- `records[index] = updated`, where there is a record of that id. -/
def replaceFirst (id : List Char) (updated : LanClientRecord → LanClientRecord) (records : List LanClientRecord) :
    List LanClientRecord :=
  match records.findIdx? (·.id = id) with
  | some index => records.modify index updated
  | none => records

def ifBlank (s fallback : List Char) : List Char := if Kotlin.isBlank s then fallback else s

def onHello (J : OrgJson) (now : Int) (who : Introduction) (address : List Char) (autoAuthorize : Bool) (prefs : Prefs) :
    LanClientRecord × Prefs :=
  let records := load J prefs
  match records.find? (·.id = who.id) with
  | some existing =>
    let updated : LanClientRecord :=
      { id := who.id
        name := ifBlank who.name existing.name
        os := ifBlank who.os existing.os
        address := address
        status := existing.status
        firstSeen := existing.firstSeen
        lastSeen := now
        sessions := existing.sessions + 1 }
    (updated, save (replaceFirst who.id (fun _ => updated) records))
  | none =>
    let updated : LanClientRecord :=
      { id := who.id
        name := ifBlank who.name []
        os := ifBlank who.os []
        address := address
        status := if autoAuthorize then .authorized else .pending
        firstSeen := now
        lastSeen := now
        sessions := 1 }
    (updated, save (records ++ [updated]))

/-- Nothing is written where there is no record of that id. -/
def setStatus (J : OrgJson) (id : List Char) (status : LanClientStatus) (prefs : Prefs) : Prefs :=
  let records := load J prefs
  if records.any (·.id = id) then save (replaceFirst id (fun existing => { existing with status := status }) records)
  else prefs

def remove (J : OrgJson) (id : List Char) (prefs : Prefs) : Prefs := save ((load J prefs).filter (·.id ≠ id))

/-! ## What a computer says of itself -/

/-- Where the length cuts a pair of surrogates, the one that is left is what
an encoder writes for it. -/
def sanitizeLabel (value : List Char) (maxLength : Nat) : List Char :=
  let units := ((Utf16.encode value).filter fun u => 0x20 ≤ u.toNat && u.toNat ≠ 0x7f).take maxLength
  Kotlin.trim (Utf16.chars units)

/-- `[0-9a-f]` -/
def isHexDigit (c : Char) : Bool := ('0' ≤ c && c ≤ '9') || ('a' ≤ c && c ≤ 'f')

/-- Only ASCII letters are changed by `lowercase` here; no other becomes a hex digit. -/
def sanitizeId (value : List Char) : Option (List Char) :=
  let trimmed := (Kotlin.trim value).map Char.toLower
  if 16 ≤ trimmed.length && trimmed.length ≤ 64 && trimmed.all isHexDigit then some trimmed else none

end LanClientRegistry

end AbkFido
