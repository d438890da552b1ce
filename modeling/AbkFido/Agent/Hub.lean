/-
`hidHub`: the agent's single reader of the HID device, and the LAN sessions
that subscribe to it one after another.

A step is what a goroutine does while it holds the lock, or one operation on
a channel outside it. `subscribe` is therefore several steps: it takes the
hub over under the lock, and closes the previous subscription and moves the
backlog after letting it go. So is `run`, which looks up the subscription
under the lock and sends after it; a `select` with both branches ready may
take either. Subscriptions are numbered in the order they take the hub over.

For the theorems the state also keeps the packets in the order `run` took
them under the lock, where in that order a subscription began, what its
consumer has received, and which session was served when the packet in hand
was read.
-/
import AbkFido.Lib.Run
import Mathlib.Logic.Function.Basic
import Mathlib.Data.List.Basic

namespace AbkFido

/-- `maxPendingPackets`, the capacity of a subscription's channel as well. -/
def maxPendingPackets : Nat := 64

/-- The length of a HID report. -/
def reportLen : Nat := 64

abbrev HostPacket := List UInt8

/-- How far a session is with its calls of `subscribe` and `unsubscribe`. -/
inductive Call
  /-- There is no such session. -/
  | none
  /-- In `subscribe`, the lock let go: about to close the previous subscription. -/
  | closing (previous : Option Nat) (pending : List HostPacket)
  /-- In the loop that moves the backlog. -/
  | filling (pending : List HostPacket)
  /-- `subscribe` has returned. -/
  | returned
  /-- In `unsubscribe`, the lock let go. -/
  | unsubscribing
  | gone
  deriving DecidableEq

/-- `hidSubscription` -/
structure Subscription where
  packets : List HostPacket
  done : Bool
  call : Call
  backlog : List HostPacket
  since : Nat
  received : List HostPacket

def Subscription.none : Subscription := ⟨[], false, .none, [], 0, []⟩

/-- Where `run` is. -/
inductive HidReader
  | reading
  /-- A packet has been read. -/
  | holding (packet : HostPacket) (under : Option Nat)
  /-- In the `select`, with the subscription found under the lock. -/
  | sending (packet : HostPacket) (under : Option Nat) (active : Nat)
  /-- The read failed; the subscription found under the lock is to be closed. -/
  | failing (active : Option Nat)
  | stopped
  deriving DecidableEq

structure Hub where
  active : Option Nat
  pending : List HostPacket
  reader : HidReader
  subs : Nat → Subscription
  /-- The number of the next subscription. -/
  next : Nat
  taken : List HostPacket
  /-- What was written to the HID device, and by which session. -/
  written : List (Nat × HostPacket)

inductive HubAction
  /-- `hid.Read` returns. -/
  | read (packet : HostPacket)
  | readFails
  /-- `run`, under the lock. -/
  | take
  /-- The two branches of its `select`. -/
  | deliver
  | drop
  | closeFailed
  /-- `subscribe`, under the lock. -/
  | subscribe
  | closePrevious (id : Nat)
  /-- The two branches of its `select`. -/
  | fill (id : Nat)
  | fillDone (id : Nat)
  | subscribed (id : Nat)
  /-- `unsubscribe`, under the lock. -/
  | unsubscribe (id : Nat)
  | closeOwn (id : Nat)
  /-- The consumer, which is started once `subscribe` has returned. -/
  | receive (id : Nat)
  | write (id : Nat) (packet : HostPacket)

namespace Call

/-- The backlog that is still to be moved. -/
def toMove : Call → List HostPacket
  | .closing _ pending | .filling pending => pending
  | _ => []

/-- `subscribe` has returned. -/
def hasReturned : Call → Bool
  | .returned | .unsubscribing | .gone => true
  | _ => false

end Call

namespace Hub

def init : Hub where
  active := none
  pending := []
  reader := .reading
  subs _ := .none
  next := 0
  taken := []
  written := []

def setSub (h : Hub) (id : Nat) (s : Subscription) : Hub := { h with subs := Function.update h.subs id s }

/-- `close`, which is idempotent. -/
def close (h : Hub) (id : Nat) : Hub := h.setSub id { h.subs id with done := true }

def closeIf (h : Hub) : Option Nat → Hub
  | some id => h.close id
  | none => h

def setCall (h : Hub) (id : Nat) (call : Call) : Hub := h.setSub id { h.subs id with call := call }

/-- A packet goes into a channel. -/
def place (h : Hub) (id : Nat) (packet : HostPacket) : Hub :=
  h.setSub id { h.subs id with packets := (h.subs id).packets ++ [packet] }

/-- The channel has room. -/
def hasRoom (h : Hub) (id : Nat) : Bool := (h.subs id).packets.length < maxPendingPackets

/-- The session that is served, if its `subscribe` has returned. -/
def served (h : Hub) : Option Nat := h.active.filter fun id => (h.subs id).call.hasReturned

/-- The locked section of `run`. -/
def runTake (h : Hub) (packet : HostPacket) (under : Option Nat) : Hub :=
  match h.active with
  | none =>
    { h with
      pending := if h.pending.length < maxPendingPackets then h.pending ++ [packet] else h.pending
      reader := .reading
      taken := h.taken ++ [packet] }
  | some active => { h with reader := .sending packet under active, taken := h.taken ++ [packet] }

/-- The locked section of `subscribe`. -/
def takeOver (h : Hub) : Hub :=
  { h with
    active := some h.next
    pending := []
    subs := Function.update h.subs h.next
      { packets := []
        done := false
        call := .closing h.active h.pending
        backlog := h.pending
        since := h.taken.length
        received := [] }
    next := h.next + 1 }

def step (h : Hub) : HubAction → Option Hub
  | .read packet =>
    match h.reader with
    | .reading => some (if packet.length ≠ reportLen then h else { h with reader := .holding packet h.served })
    | _ => none
  | .readFails =>
    match h.reader with
    | .reading => some { h with active := none, reader := .failing h.active }
    | _ => none
  | .take =>
    match h.reader with
    | .holding packet under => some (h.runTake packet under)
    | _ => none
  | .deliver =>
    match h.reader with
    | .sending packet _ active => if h.hasRoom active then some { h.place active packet with reader := .reading } else none
    | _ => none
  | .drop =>
    match h.reader with
    | .sending _ _ active => if (h.subs active).done then some { h with reader := .reading } else none
    | _ => none
  | .closeFailed =>
    match h.reader with
    | .failing active => some { h.closeIf active with reader := .stopped }
    | _ => none
  | .subscribe => some h.takeOver
  | .closePrevious id =>
    match (h.subs id).call with
    | .closing previous pending => some ((h.closeIf previous).setCall id (.filling pending))
    | _ => none
  | .fill id =>
    match (h.subs id).call with
    | .filling (packet :: pending) =>
      if h.hasRoom id then some ((h.place id packet).setCall id (.filling pending)) else none
    | _ => none
  | .fillDone id =>
    match (h.subs id).call with
    | .filling (_ :: _) => if (h.subs id).done then some (h.setCall id .returned) else none
    | _ => none
  | .subscribed id =>
    match (h.subs id).call with
    | .filling [] => some (h.setCall id .returned)
    | _ => none
  | .unsubscribe id =>
    match (h.subs id).call with
    | .returned =>
      let h := if h.active = some id then { h with active := none } else h
      some (h.setCall id .unsubscribing)
    | _ => none
  | .closeOwn id =>
    match (h.subs id).call with
    | .unsubscribing => some ((h.close id).setCall id .gone)
    | _ => none
  | .receive id =>
    match (h.subs id).packets with
    | packet :: packets =>
      if (h.subs id).call.hasReturned then
        some (h.setSub id { h.subs id with packets := packets, received := (h.subs id).received ++ [packet] })
      else none
    | [] => none
  | .write id packet =>
    if packet.length ≠ reportLen then some h
    else if (h.subs id).done then some h
    else if h.active ≠ some id then some h
    else some { h with written := h.written ++ [(id, packet)] }

end Hub

end AbkFido
