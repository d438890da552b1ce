/-
`LanFidoServer`: sessions of computers on the LAN, one of which is active.

A session is looked up in the registry by its first frame and goes on if the
user has authorized the client. It becomes the active one with its first
request, and closes the one before it. For each request it takes the
transport lock, and is over if it is not the active one any more; then it
writes the request's packets and relays the answer.

Every session is a thread of its own, as are the user and the local users of
the lock, so their steps come in any order. The frames here are those that
open under the session's key. For the theorems the state also keeps a log,
the newest entry first.
-/
import AbkFido.Lan.Registry
import AbkFido.Lib.Past
import AbkFido.Lib.Run
import AbkFido.Lib.Utf8

namespace AbkFido

open JsonObject LanClientRegistry

/-! ## Who connects -/

/-- `REPORT_LEN` -/
def lanReportLen : Nat := 64

def identifyByAddress (address : List Char) : Introduction := ⟨addressIdPrefix ++ address, [], []⟩

def identifyFromHello (J : OrgJson) (frame : List UInt8) (address : List Char) : Introduction :=
  match J.parse (Utf8.decode frame) with
  | none => identifyByAddress address
  | some json =>
    if optString J json "t" ≠ "hello".toList then identifyByAddress address
    else match sanitizeId (optString J json "id") with
      | none => identifyByAddress address
      | some id => ⟨id, sanitizeLabel (optString J json "name") 48, sanitizeLabel (optString J json "os") 24⟩

/-- What `serve` makes of a session's first frame. -/
def identify (J : OrgJson) (frame : List UInt8) (address : List Char) : Introduction :=
  if frame.length = lanReportLen then identifyByAddress address else identifyFromHello J frame address

/-! ## Requests -/

def lanHidCancel : UInt8 := 0x11

/-- `readRequest`, between two packets. -/
structure RelayRequest where
  packets : List (List UInt8)
  remaining : Nat
  sequence : Nat

namespace RelayRequest

/-- `none` where it throws. -/
def start (first : List UInt8) : Option RelayRequest :=
  let expected := (first.getD 5 0).toNat * 256 + (first.getD 6 0).toNat
  if first.getD 4 0 &&& 0x80 = 0 then none
  else if 2048 < expected then none
  else some ⟨[first], expected - min expected 57, 0⟩

def read (packet : List UInt8) (r : RelayRequest) : Option RelayRequest :=
  if packet.length ≠ lanReportLen then none
  else if some (packet.take 4) ≠ r.packets.head?.map (List.take 4) then none
  else if packet.getD 4 0 &&& 0x80 ≠ 0 ∨ (packet.getD 4 0).toNat ≠ r.sequence then none
  else some ⟨r.packets ++ [packet], r.remaining - min r.remaining 59, r.sequence + 1⟩

/-- A cancel has no answer. -/
def isCancel (packets : List (List UInt8)) : Bool := (packets.headD []).getD 4 0 &&& 0x7f == lanHidCancel

end RelayRequest

/-! ## Sessions -/

inductive LanPhase
  /-- The first frame has not come. -/
  | hello
  /-- Between requests; an older client's first frame is its first request. -/
  | idle (pending : Option (List UInt8))
  | reading (r : RelayRequest)
  /-- For the transport lock. -/
  | waiting (packets : List (List UInt8))
  | writing (cancel : Bool) (rest : List (List UInt8))
  | relaying

structure ServedSession where
  address : List Char
  phase : LanPhase
  /-- A request has come. -/
  authenticated : Bool
  /-- `isClosed` of the socket -/
  closed : Bool

def ServedSession.close (s : ServedSession) : ServedSession := { s with closed := true }

/-- Who is in a `withTransportLock`. -/
inductive LockHolder
  | session (i : Nat)
  | provider
  deriving DecidableEq

inductive LanEvent
  | decided (id : List Char) (status : LanClientStatus)
  | removed (id : List Char)
  /-- The session's first frame was looked up. -/
  | greeted (i : Nat) (frame : List UInt8) (address : List Char)
  /-- The session took the lock for a request, with `active` the active session. -/
  | began (i : Nat) (active : Option Nat)
  | wrote (i : Nat) (packet : List UInt8) (active : Option Nat)
  deriving DecidableEq

structure LanServer where
  running : Bool
  sessions : Nat → Option ServedSession
  next : Nat
  /-- `activeClient` -/
  active : Option Nat
  lock : Option LockHolder
  prefs : Prefs
  /-- What the preferences' file holds. -/
  disk : Prefs
  log : List LanEvent

inductive LanAction
  | start
  | stop
  /-- The process is killed. -/
  | restart
  /-- The last `apply` reaches the file. -/
  | flush
  | setStatus (id : List Char) (status : LanClientStatus)
  | remove (id : List Char)
  | connect (address : Option (List Char))
  | receive (i : Nat) (now : Int) (frame : List UInt8)
  /-- An older client's first frame is taken as a request. -/
  | takePending (i : Nat)
  | takeOver (i : Nat)
  /-- The socket of a session that was replaced. -/
  | close (i : Nat)
  | lock (i : Nat)
  | write (i : Nat)
  | answered (i : Nat)
  /-- The session's thread throws or returns. -/
  | fail (i : Nat)
  | providerLock
  | providerUnlock

namespace LanServer

def init : LanServer where
  running := false
  sessions _ := none
  next := 0
  active := none
  lock := none
  prefs := none
  disk := none
  log := []

def setSession (i : Nat) (s : ServedSession) (c : LanServer) : LanServer :=
  { c with sessions := Function.update c.sessions i (some s) }

/-- The `finally` of a session's thread; the lock is let go on the way. -/
def endSession (i : Nat) (c : LanServer) : LanServer :=
  { c with
    sessions := Function.update c.sessions i none
    active := if c.active = some i then none else c.active
    lock := if c.lock = some (.session i) then none else c.lock }

def unlock (c : LanServer) : LanServer := { c with lock := none }

def note (e : LanEvent) (c : LanServer) : LanServer := { c with log := e :: c.log }

section
variable (J : OrgJson) (autoAuthorize : Bool)

def greet (i : Nat) (s : ServedSession) (now : Int) (frame : List UInt8) (c : LanServer) : LanServer :=
  let (client, prefs) := onHello J now (identify J frame s.address) s.address autoAuthorize c.prefs
  let c := { c with prefs := prefs }.note (.greeted i frame s.address)
  if client.status = .authorized then
    c.setSession i { s with phase := .idle (if frame.length = lanReportLen then some frame else none) }
  else c.endSession i

def beginRequest (i : Nat) (s : ServedSession) (first : List UInt8) (c : LanServer) : LanServer :=
  match RelayRequest.start first with
  | some r => c.setSession i { s with phase := .reading r }
  | none => c.endSession i

def receive (i : Nat) (s : ServedSession) (now : Int) (frame : List UInt8) (c : LanServer) : Option LanServer :=
  match s.phase with
  | .hello => if c.running then some (c.greet J autoAuthorize i s now frame) else none
  | .idle none =>
    if ¬ c.running then none
    else if frame.length ≠ lanReportLen then some (c.endSession i)
    else some (c.beginRequest i s frame)
  | .reading r =>
    if r.remaining = 0 then none
    else some (match r.read frame with
      | some r => c.setSession i { s with phase := .reading r }
      | none => c.endSession i)
  | _ => none

def enterLock (i : Nat) (s : ServedSession) (packets : List (List UInt8)) (c : LanServer) : LanServer :=
  if c.active = some i then
    ({ c with lock := some (.session i) }.note (.began i c.active)).setSession i
      { s with phase := .writing (RelayRequest.isCancel packets) packets }
  else c.endSession i

/-- One `writePacket`; after the last one the answer is awaited, or there is none. -/
def writePacket (i : Nat) (s : ServedSession) (cancel : Bool) (packet : List UInt8) (rest : List (List UInt8))
    (c : LanServer) : LanServer :=
  let c := c.note (.wrote i packet c.active)
  if rest ≠ [] then c.setSession i { s with phase := .writing cancel rest }
  else if cancel then c.unlock.setSession i { s with phase := .idle none }
  else c.setSession i { s with phase := .relaying }

def step (c : LanServer) : LanAction → Option LanServer
  | .start => if c.running then none else some { c with running := true }
  | .stop =>
    some { c with running := false, sessions := fun i => (c.sessions i).map ServedSession.close, active := none }
  | .restart => some { init with prefs := c.disk, disk := c.disk, next := c.next, log := c.log }
  | .flush => some { c with disk := c.prefs }
  | .setStatus id status =>
    some ({ c with prefs := LanClientRegistry.setStatus J id status c.prefs }.note (.decided id status))
  | .remove id => some ({ c with prefs := LanClientRegistry.remove J id c.prefs }.note (.removed id))
  | .connect address =>
    if c.running then
      some ({ c with next := c.next + 1 }.setSession c.next ⟨address.getD "unknown".toList, .hello, false, false⟩)
    else none
  | .receive i now frame =>
    (c.sessions i).bind fun s => if s.closed then none else c.receive J autoAuthorize i s now frame
  | .takePending i =>
    (c.sessions i).bind fun s => match s.phase with
      | .idle (some first) => if c.running && !s.closed then some (c.beginRequest i s first) else none
      | _ => none
  | .takeOver i =>
    (c.sessions i).bind fun s => match s.phase with
      | .reading r =>
        if r.remaining ≠ 0 then none
        else some ({ c with active := if s.authenticated then c.active else some i }.setSession i
          { s with authenticated := true, phase := .waiting r.packets })
      | _ => none
  | .close i =>
    if c.active = some i then none else (c.sessions i).map fun s => c.setSession i s.close
  | .lock i =>
    (c.sessions i).bind fun s => match s.phase with
      | .waiting packets => if c.lock = none then some (c.enterLock i s packets) else none
      | _ => none
  | .write i =>
    (c.sessions i).bind fun s => match s.phase with
      | .writing cancel (packet :: rest) => some (c.writePacket i s cancel packet rest)
      | _ => none
  | .answered i =>
    (c.sessions i).bind fun s => match s.phase with
      | .relaying => some (c.unlock.setSession i { s with phase := .idle none })
      | _ => none
  | .fail i => (c.sessions i).map fun _ => c.endSession i
  | .providerLock => if c.lock = none then some { c with lock := some .provider } else none
  | .providerUnlock => if c.lock = some .provider then some c.unlock else none

end

end LanServer

end AbkFido
