/-
The USB function over its connections: endpoints, requests and callbacks.

The host's choice of the interface enables the endpoints and allocates one
IN and four OUT requests; a disconnect, the next choice or a failure on the
way gives all of it back. Between the two, requests go to the endpoints and
come back in completions, and kicks from several threads hand out what is in
`tx_packets` (the stages are those of `Transmit`).

A request that is freed or queued while the endpoint holds it, or after it
is gone, is a fault. The composite core calls `set_alt` and `disable` one
after another, and completions run to their end; nothing keeps either from
coming in the middle of a kick.
-/
import AbkFido.Transmit
import Mathlib.Data.Finset.Basic

namespace AbkFido

/-- `ARRAY_SIZE(usb->out_req)` -/
def outRequests : Nat := 4

structure Endpoint where
  enabled : Bool
  /-- The requests it holds, the oldest first. -/
  queued : List Nat

/-- A request is known by its address. -/
structure Gadget where
  inEp : Endpoint
  outEp : Endpoint
  inReq : Option Nat
  outReq : Fin outRequests → Option Nat
  /-- `tx_pending` -/
  pending : Bool
  online : Bool
  txPackets : RingBuffer Report queueDepth
  rxPackets : RingBuffer Packet queueDepth
  debugRx : RingBuffer Packet queueDepth
  /-- `abk_fido_dev.bound` -/
  bound : Bool
  thread : Nat → TxStage
  /-- The requests that are allocated, and the address of the next one. -/
  live : Finset Nat
  fresh : Nat
  faulted : Bool
  /-- For the theorems only: the number of pushes, and how many there had been
  when the last connection ended. -/
  pushed : Nat
  since : Nat
  /-- What the endpoint took of the reports since then. -/
  session : List Report
  /-- The OUT requests that were not taken back. -/
  refused : Finset Nat

/-- What the calls of `abk_fido_set_alt` return: true where they succeed. -/
structure SetAltIo where
  configIn : Bool
  enableIn : Bool
  configOut : Bool
  enableOut : Bool
  allocIn : Bool
  allocOut : Fin outRequests → Bool
  queueOut : Fin outRequests → Bool

inductive GadgetAction
  | setAlt (k : Nat) (io : SetAltIo)
  | disable
  /-- An OUT request is given back, with a report if all went well; `taken`
  tells whether the endpoint takes it again. -/
  | outComplete (r : Nat) (report : Option Packet) (taken : Bool)
  /-- A call of `abk_fido_send_hid_message`. -/
  | send (k : Nat) (cid : UInt32) (cmd : UInt8) (payload : List UInt8)
  | push (k : Nat)
  /-- `abk_fido_misc_write`, up to its kick. -/
  | miscWrite (k : Nat) (p : Packet)
  | kick (k : Nat)
  /-- A kick finds the transport online and takes a report out. -/
  | pop (k : Nat)
  | check (k : Nat)
  | putBack (k : Nat)
  | queue (k : Nat) (taken : Bool)
  /-- The IN request is given back. -/
  | complete (k : Nat)
  | clear (k : Nat)

/-- `while (abk_fido_queue_pop(&usb->tx_packets, &stale));` -/
def drain : Nat → RingBuffer Report queueDepth → RingBuffer Report queueDepth
  | 0, q => q
  | n + 1, q =>
    match q.pop with
    | some (_, q) => drain n q
    | none => q

namespace Gadget

/-- After `abk_fido_bind`. -/
def init : Gadget where
  inEp := ⟨false, []⟩
  outEp := ⟨false, []⟩
  inReq := none
  outReq _ := none
  pending := false
  online := false
  txPackets := .empty ⟨0, zeros 64⟩
  rxPackets := .empty (zeros 64)
  debugRx := .empty (zeros 64)
  bound := false
  thread _ := .idle
  live := ∅
  fresh := 0
  faulted := false
  pushed := 0
  since := 0
  session := []
  refused := ∅

def setThread (k : Nat) (g : TxStage) (s : Gadget) : Gadget := { s with thread := Function.update s.thread k g }

/-! ## Requests -/

def fault (s : Gadget) : Gadget := { s with faulted := true }

/-- An endpoint holds the request. -/
def lent (s : Gadget) (r : Nat) : Prop := r ∈ s.inEp.queued ∨ r ∈ s.outEp.queued

instance (s : Gadget) (r : Nat) : Decidable (s.lent r) := inferInstanceAs (Decidable (_ ∨ _))

/-- `alloc_ep_req`, where there is memory. -/
def alloc (s : Gadget) : Nat × Gadget := (s.fresh, { s with fresh := s.fresh + 1, live := insert s.fresh s.live })

/-- `free_ep_req` -/
def free (r : Nat) (s : Gadget) : Gadget :=
  if r ∈ s.live ∧ ¬ s.lent r then { s with live := s.live.erase r } else s.fault

/-- `usb_ep_queue` on the IN endpoint. -/
def queueIn (r : Nat) (taken : Bool) (s : Gadget) : Bool × Gadget :=
  if r ∉ s.live ∨ s.lent r then (false, s.fault)
  else if taken && s.inEp.enabled then (true, { s with inEp := { s.inEp with queued := s.inEp.queued ++ [r] } })
  else (false, s)

/-- `usb_ep_queue` on the OUT endpoint. -/
def queueOut (r : Nat) (taken : Bool) (s : Gadget) : Bool × Gadget :=
  if r ∉ s.live ∨ s.lent r then (false, s.fault)
  else if taken && s.outEp.enabled then (true, { s with outEp := { s.outEp with queued := s.outEp.queued ++ [r] } })
  else (false, { s with refused := insert r s.refused })

/-! ## Sending -/

/-- `abk_fido_queue_push` of a new report. -/
def pushNew (p : Packet) (s : Gadget) : Option Gadget :=
  (s.txPackets.push ⟨s.pushed, p⟩).map fun q => { s with txPackets := q, pushed := s.pushed + 1 }

def putBack (r : Report) (s : Gadget) : Gadget := { s with txPackets := (s.txPackets.push r).getD s.txPackets }

/-- The end of a kick that has set `tx_pending`. -/
def hand (r : Report) (taken : Bool) (s : Gadget) : Gadget :=
  match s.inReq with
  | none => s.fault
  | some req =>
    match s.queueIn req taken with
    | (true, s) => { s with session := s.session ++ [r] }
    | (false, s) => { s with pending := false }

/-- `abk_fido_tx_kick`, from one end to the other. -/
def txKick (s : Gadget) : Gadget :=
  if !s.online || s.inReq.isNone then s
  else
    match s.txPackets.pop with
    | none => s
    | some (r, q) =>
      let s := { s with txPackets := q }
      if s.pending then s.putBack r else { s with pending := true }.hand r true

/-! ## Callbacks -/

/-- `abk_fido_out_complete` -/
def outComplete (r : Nat) (report : Option Packet) (taken : Bool) (s : Gadget) : Gadget :=
  let s := match report with
    | some p => { s with debugRx := (s.debugRx.push p).getD s.debugRx, rxPackets := (s.rxPackets.push p).getD s.rxPackets }
    | none => s
  (s.queueOut r taken).2

/-- `usb_ep_disable` gives every request back; an endpoint that is being
disabled takes none. -/
def disableIn (s : Gadget) : Gadget :=
  s.inEp.queued.foldl (fun s _ => { s with pending := false }.txKick) { s with inEp := ⟨false, []⟩ }

def disableOut (s : Gadget) : Gadget :=
  s.outEp.queued.foldl (fun s r => s.outComplete r none true) { s with outEp := ⟨false, []⟩ }

def freeIn (s : Gadget) : Gadget :=
  match s.inReq with
  | some r => { s.free r with inReq := none }
  | none => s

def freeOut (s : Gadget) (i : Fin outRequests) : Gadget :=
  match s.outReq i with
  | some r => { s.free r with outReq := Function.update s.outReq i none }
  | none => s

/-- `abk_fido_disable` -/
def disable (s : Gadget) : Gadget :=
  let s := s.disableIn.disableOut
  let s := { s with pending := false, online := false, txPackets := drain queueDepth s.txPackets }
  let s := (List.finRange outRequests).foldl freeOut s.freeIn
  { s with bound := false, since := s.pushed, session := [] }

/-- The loop of `abk_fido_set_alt` over the OUT requests. -/
def fillOut (io : SetAltIo) : List (Fin outRequests) → Gadget → Bool × Gadget
  | [], s => (true, s)
  | i :: rest, s =>
    if !io.allocOut i then (false, s)
    else
      let (r, s) := s.alloc
      match { s with outReq := Function.update s.outReq i (some r) }.queueOut r (io.queueOut i) with
      | (true, s) => fillOut io rest s
      | (false, s) => (false, s)

/-- `abk_fido_set_alt`, up to its kick. -/
def setAlt (k : Nat) (io : SetAltIo) (s : Gadget) : Gadget :=
  let s := if s.inReq.isSome then s.disable else s
  if !io.configIn || !io.enableIn then s
  else
    let s := { s with inEp := { s.inEp with enabled := true } }
    if !io.configOut || !io.enableOut then s.disableIn
    else
      let s := { s with outEp := { s.outEp with enabled := true } }
      if !io.allocIn then s.disable
      else
        let (r, s) := s.alloc
        match { s with inReq := some r }.fillOut io (List.finRange outRequests) with
        | (false, s) => s.disable
        | (true, s) => { s with online := true, bound := true }.setThread k .kicking

def step (s : Gadget) : GadgetAction → Option Gadget
  | .setAlt k io =>
    match s.thread k with
    | .idle => some (s.setAlt k io)
    | _ => none
  | .disable => some s.disable
  | .outComplete r report taken =>
    if r ∈ s.outEp.queued then
      some ({ s with outEp := { s.outEp with queued := s.outEp.queued.erase r } }.outComplete r report taken)
    else none
  | .send k cid cmd payload =>
    match s.thread k with
    | .idle => some (s.setThread k (.sending (hidPackets cid cmd payload)))
    | _ => none
  | .push k =>
    match s.thread k with
    | .sending (p :: packets) => some (((s.pushNew p).getD s).setThread k (.sending packets))
    | .sending [] => some (s.setThread k .kicking)
    | _ => none
  | .miscWrite k p =>
    match s.thread k with
    -- `-EBUSY` where there is no room.
    | .idle => some (((s.pushNew p).map (setThread k .kicking)).getD s)
    | _ => none
  | .kick k =>
    match s.thread k with
    | .idle => some (s.setThread k .kicking)
    | _ => none
  | .pop k =>
    match s.thread k with
    | .kicking =>
      if !s.online || s.inReq.isNone then some (s.setThread k .idle)
      else
        match s.txPackets.pop with
        | some (r, q) => some ({ s with txPackets := q }.setThread k (.holding r))
        | none => some (s.setThread k .idle)
    | _ => none
  | .check k =>
    match s.thread k with
    | .holding r =>
      if s.pending then some (s.setThread k (.returning r))
      else some ({ s with pending := true }.setThread k (.handing r))
    | _ => none
  | .putBack k =>
    match s.thread k with
    | .returning r => some ((s.putBack r).setThread k .idle)
    | _ => none
  | .queue k taken =>
    match s.thread k with
    | .handing r => some ((s.hand r taken).setThread k .idle)
    | _ => none
  | .complete k =>
    match s.thread k, s.inEp.queued with
    | .idle, _ :: queued => some ({ s with inEp := { s.inEp with queued := queued } }.setThread k .completing)
    | _, _ => none
  | .clear k =>
    match s.thread k with
    | .completing => some ({ s with pending := false }.setThread k .kicking)
    | _ => none

/-- No kick has looked at `online` and goes on with the request, and no
completion is under way. -/
def Quiet (s : Gadget) : Prop := ∀ k, (s.thread k).held = none ∧ (s.thread k).owns = false

/-- A connection begins and ends in a quiet moment. -/
def Undisturbed (s : Gadget) : GadgetAction → Prop
  | .setAlt .. | .disable => s.Quiet
  | _ => True

end Gadget

end AbkFido
