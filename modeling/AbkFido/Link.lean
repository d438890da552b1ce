/-
The driver from packet to packet: both receive queues and their workers over
the device, and the keepalive worker that paces a wait for approval.

A worker takes its packets one at a time, and takes no other while it serves
the message one has completed; a CBOR message it serves through
`abk_fido_cbor_dispatch`, whose steps are the device's. The transport and the
cid the keepalives go to (`auth_usb`, `auth_cid`) are one record for both
transports, and so is the delayed work that sends them. The keepalive worker
reads the record under the lock and sends its frame after it, so the other
workers' steps come between. An armed work may run at any time: how long the
500 ms are is left out.
-/
import AbkFido.Hid
import AbkFido.Pending

namespace AbkFido

/-- `ABK_FIDO_KEEPALIVE_STATUS_PROCESSING` -/
def keepaliveStatusProcessing : UInt8 := 0x01

/-! ## Responses -/

def ctapSuccess : UInt8 := 0x00
def ctapErrInvalidCommand : UInt8 := 0x01
def ctapErrInvalidParameter : UInt8 := 0x02
def ctapErrCredentialExcluded : UInt8 := 0x19
def ctapErrOperationDenied : UInt8 := 0x27
def ctapErrKeyStoreFull : UInt8 := 0x28
def ctapErrUnsupportedOption : UInt8 := 0x2b
def ctapErrInvalidOption : UInt8 := 0x2c
def ctapErrNoCredentials : UInt8 := 0x2e
def ctapErrNotAllowed : UInt8 := 0x30
def ctapErrPinNotSet : UInt8 := 0x35
def ctapErrUpRequired : UInt8 := 0x39

/-- What `abk_fido_cbor_dispatch` returns: `ret`, and the payload where it is 0. -/
abbrev Ret := Except Errno (List UInt8)

/-- The status `abk_fido_dispatch_msg` sends for a `ret` that is not 0. -/
def ctapStatus (ret : Errno) : UInt8 :=
  if ret = .eexist then ctapErrCredentialExcluded
  else if ret = .enospc then ctapErrKeyStoreFull
  else if ret = .enoent then ctapErrNoCredentials
  else if ret = .eopnotsupp ∨ ret = .enoioctlcmd then ctapErrUnsupportedOption
  else if ret = .ealready then ctapErrOperationDenied
  else if ret = .eperm ∨ ret = .etimedout then ctapErrOperationDenied
  else if ret = errInvalidCommand then ctapErrInvalidCommand
  else if ret = errPinNotSet then ctapErrPinNotSet
  else if ret = errInvalidOption then ctapErrInvalidOption
  else if ret = errUpRequired then ctapErrUpRequired
  else if ret = errNotAllowed then ctapErrNotAllowed
  else ctapErrInvalidParameter

/-- No error is sent as a success. -/
theorem ctapStatus_ne_success (ret : Errno) : ctapStatus ret ≠ ctapSuccess := by
  have hite : ∀ (p : Prop) [Decidable p] {a b : UInt8}, a ≠ ctapSuccess → b ≠ ctapSuccess →
      (if p then a else b) ≠ ctapSuccess := by
    intro p _ a b ha hb
    split <;> assumption
  unfold ctapStatus
  repeat refine hite _ (by decide) ?_
  decide

/-- The bytes of a CBOR response. -/
def cborResult : Ret → List UInt8
  | .ok payload => ctapSuccess :: payload
  | .error ret => [ctapStatus ret]

/-- `abk_fido_send_cbor_result`: without memory for the response it is an error. -/
def sendCborResult (allocOk : Bool) (cid : UInt32) (ret : Ret) : Msg :=
  if allocOk then ⟨cid, hidCbor, cborResult ret⟩ else ⟨cid, hidError, [hidErrOther]⟩

/-- `abk_fido_send_hid_error` -/
def sendHidError (cid : UInt32) (err : UInt8) : Msg := ⟨cid, hidError, [err]⟩

/-! ## The state -/

/-- Where the worker of a transport is. -/
inductive Stage
  /-- Between packets. -/
  | idle
  /-- The message is complete and the lock let go. -/
  | complete (m : Msg)
  /-- `auth_usb` and `auth_cid` are set, and `abk_fido_cbor_dispatch` is called next. -/
  | calling (m : Msg)
  /-- In `abk_fido_cbor_dispatch`: how far, the device says. -/
  | inside (m : Msg)
  | returned (m : Msg) (ret : Ret)
  /-- `auth_usb` is cleared. -/
  | cleared (m : Msg) (ret : Ret)
  /-- In `cancel_delayed_work_sync`, until the keepalive worker is not running. -/
  | cancelling (m : Msg) (ret : Ret)
  /-- About to send the response. -/
  | answering (m : Msg) (ret : Ret)

/-- Where `abk_fido_auth_keepalive_worker` is. -/
inductive Pacer
  | idle
  | started
  /-- It has seen a pending request, with this transport and cid on record. -/
  | looked (t : Transport) (cid : UInt32)
  /-- The frame is sent, and `mod_delayed_work` is called next. -/
  | sent
  deriving DecidableEq

/-- What the packets of a transport show. -/
inductive LinkEvent
  /-- The worker took a packet. -/
  | packet (p : Packet)
  /-- The packet completed a message, which is dispatched. -/
  | dispatched (m : Msg)
  /-- `abk_fido_cbor_dispatch` returned. -/
  | returned (ret : Ret)
  /-- `abk_fido_send_hid_message` was called with it; that its packets found
  room in `tx_packets` it does not say. -/
  | sent (m : Msg)
  deriving DecidableEq

structure Link where
  device : Device
  hid : Hid
  rx : Transport → RingBuffer Packet queueDepth
  stage : Transport → Stage
  authUsb : Option Transport
  authCid : UInt32
  /-- `auth_keepalive_work` is pending. -/
  armed : Bool
  pacer : Pacer
  /-- For the theorems only: a CANCEL came in for the CBOR request that is
  being served, before its prompt was decided. -/
  cancelled : Transport → Bool
  /-- For the theorems only; the newest first. -/
  log : Transport → List LinkEvent

inductive LinkAction
  /-- A packet comes in, on an endpoint or through the node. -/
  | arrive (t : Transport) (p : Packet)
  /-- The worker takes its next packet. -/
  | take (t : Transport) (allocOk : Bool)
  /-- `abk_fido_dispatch_msg`; of a CBOR message, up to the call of `abk_fido_cbor_dispatch`. -/
  | dispatch (t : Transport)
  /-- A step of the device; one of a worker is a step of `abk_fido_cbor_dispatch`. -/
  | device (a : Action)
  /-- `auth_usb` is cleared. -/
  | clear (t : Transport)
  /-- `cancel_delayed_work_sync` is called. -/
  | disarm (t : Transport)
  /-- It returns. -/
  | disarmed (t : Transport)
  | respond (t : Transport) (allocOk : Bool)
  /-- The keepalive worker starts. -/
  | fire
  /-- It reads the record. -/
  | look
  /-- It sends a keepalive. -/
  | pace
  /-- It arms its work again. -/
  | rearm

/-- No decision was accepted for the prompt of this request. -/
def Worker.undecided : Worker → Bool
  | .waiting _ first _ | .awake _ first _ _ => first.isNone
  | _ => true

/-- A CANCEL. -/
def Packet.cancels (p : Packet) (cid : UInt32) : Bool := p.starts && p.cmd == hidCancel && p.cid == cid

/-- The CBOR request a worker serves. -/
def Stage.request : Stage → Option Msg
  | .complete m => if m.cmd = hidCbor then some m else none
  | .calling m | .inside m => some m
  | _ => none

def Stage.isCancelling : Stage → Bool
  | .cancelling .. => true
  | _ => false

namespace Link

/-- What an empty queue holds in its places. -/
def noPackets : RingBuffer Packet queueDepth := .empty (zeros 64)

def boot (file : File) (clock : Nat) : Link where
  device := .boot file clock
  hid := .boot
  rx _ := noPackets
  stage _ := .idle
  authUsb := none
  authCid := 0
  armed := false
  pacer := .idle
  cancelled _ := false
  log _ := []

def setStage (t : Transport) (g : Stage) (s : Link) : Link := { s with stage := Function.update s.stage t g }

def note (t : Transport) (e : LinkEvent) (s : Link) : Link := { s with log := Function.update s.log t (e :: s.log t) }

/-- A call of `cancel_delayed_work_sync` has not returned. -/
def disarming (s : Link) : Bool := (s.stage .usb).isCancelling || (s.stage .ctap).isCancelling

/-- `mod_delayed_work`: a work that is being cancelled is not queued. -/
def arm (s : Link) : Link := { s with armed := s.armed || !s.disarming }

/-- A packet comes in for a request that is being served. -/
def hears (t : Transport) (p : Packet) (s : Link) : Bool :=
  (s.stage t).request.any fun m => p.cancels m.cid && (s.device.worker t).undecided

/-- The message in whose service a step of the device is taken. -/
def serves (t : Transport) (a : Action) (s : Link) : Option Msg :=
  match s.stage t, a with
  | .calling m, .receive _ msg _ => if msg = m.data then some m else none
  | .inside _, .receive .. => none
  | .inside m, _ => some m
  | _, _ => none

section
variable (P : Platform)

/-- What a step of a worker makes of the rest: the call returns, or a prompt
was opened, for which the keepalives start. -/
def follow (t : Transport) (m : Msg) (a : Action) (s : Link) (d : Device) : Link :=
  match s.device.reply P a, a with
  | some r, .resume .. => ({ s with device := d }.setStage t (.returned m r.result)).note t (.returned r.result)
  | some r, _ =>
    (({ s with device := d, cancelled := Function.update s.cancelled t false }.setStage t
      (.returned m r.result))).note t (.returned r.result)
  | none, .enter .. => ({ s with device := d }.setStage t (.inside m)).arm
  | none, _ => { s with device := d }.setStage t (.inside m)

def step (s : Link) : LinkAction → Option Link
  | .arrive t p =>
    some
      { s with
        rx := Function.update s.rx t (((s.rx t).push p).getD (s.rx t))
        cancelled := if s.hears t p then Function.update s.cancelled t true else s.cancelled }
  | .take t allocOk =>
    match s.stage t, (s.rx t).pop with
    | .idle, some (p, rx) =>
      let (r, hid) := s.hid.processPacketLocked allocOk p
      let s := { s with rx := Function.update s.rx t rx, hid := hid }.note t (.packet p)
      match r with
      | .nothing => some s
      | .refused err => some (s.note t (.sent (sendHidError p.cid err)))
      | .complete cmd data =>
        let m : Msg := ⟨p.cid, cmd, data⟩
        some (({ s with cancelled := Function.update s.cancelled t false }.setStage t (.complete m)).note t
          (.dispatched m))
    | _, _ => none
  | .dispatch t =>
    match s.stage t with
    | .complete m =>
      if m.cmd = hidCbor then some ({ s with authUsb := some t, authCid := m.cid }.setStage t (.calling m))
      else
        let (handed, hid) := s.hid.dispatchLocked m
        let s := { s with hid := hid }.setStage t .idle
        match m.answer [] handed with
        | some (cmd, data) => some (s.note t (.sent ⟨m.cid, cmd, data⟩))
        | none => some s
    | _ => none
  | .device a =>
    match s.device.step P a, a.worker with
    | none, _ => none
    | some d, none => some { s with device := d }
    | some d, some t => (s.serves t a).map fun m => s.follow P t m a d
  | .clear t =>
    match s.stage t with
    | .returned m ret => some ({ s with authUsb := none }.setStage t (.cleared m ret))
    | _ => none
  | .disarm t =>
    match s.stage t with
    | .cleared m ret => some ({ s with armed := false }.setStage t (.cancelling m ret))
    | _ => none
  | .disarmed t =>
    match s.stage t, s.pacer with
    | .cancelling m ret, .idle => some (s.setStage t (.answering m ret))
    | _, _ => none
  | .respond t allocOk =>
    match s.stage t with
    | .answering m ret => some ((s.setStage t .idle).note t (.sent (sendCborResult allocOk m.cid ret)))
    | _ => none
  | .fire =>
    match s.pacer with
    | .idle => if s.armed then some { s with armed := false, pacer := .started } else none
    | _ => none
  | .look =>
    match s.pacer with
    | .started =>
      match s.device.auth.pending && !s.device.auth.decided, s.authUsb with
      | true, some t => some { s with pacer := .looked t s.authCid }
      | _, _ => some { s with pacer := .idle }
    | _ => none
  | .pace =>
    match s.pacer with
    | .looked t cid =>
      some ({ s with pacer := .sent }.note t (.sent ⟨cid, hidKeepalive, [keepaliveStatusProcessing]⟩))
    | _ => none
  | .rearm =>
    match s.pacer with
    | .sent => some { s.arm with pacer := .idle }
    | _ => none

end

end Link

end AbkFido
