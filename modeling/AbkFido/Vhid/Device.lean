/-
The Windows virtual HID driver: the callbacks through which VHF and the
desktop agent move CTAP frames.

A buffer is its bytes here, and a callback that reads or writes outside of
one comes to nothing (`none`). What a callback does while it holds the lock
is one step. The log, the newest entry first, is kept for the theorems: which
frames came for the agent, and how each of them left again.
-/
import AbkFido.Store
import AbkFido.Lib.Fifo
import AbkFido.Lib.Past
import AbkFido.Lib.Ring
import AbkFido.Lib.Run

namespace AbkFido.Vhid

open Layout

/-- `ABK_REPORT_SIZE` -/
def reportSize : Nat := 64

/-- `ABK_RING_SLOTS` -/
def ringSlots : Nat := 64

/-- `ABK_REPLY_SLOTS` -/
def replySlots : Nat := 8

instance : NeZero replySlots := ⟨by decide⟩

/-- `UCHAR frame[ABK_REPORT_SIZE]` -/
abbrev Frame := Bytes reportSize

abbrev NtStatus := UInt32

namespace NtStatus

def success : NtStatus := 0
def invalidParameter : NtStatus := 0xC000000D
def bufferTooSmall : NtStatus := 0xC0000023
def deviceNotReady : NtStatus := 0xC00000A3
def invalidBufferSize : NtStatus := 0xC0000206
def noMoreEntries : NtStatus := 0x8000001A

/-- `NT_SUCCESS` -/
def ok (s : NtStatus) : Bool := s < 0x80000000

end NtStatus

/-! ## Buffers -/

/-- `RtlCopyMemory` from a buffer. -/
def copyIn (buffer : List UInt8) (off n : Nat) : Option (List UInt8) :=
  if off + n ≤ buffer.length then some ((buffer.drop off).take n) else none

/-- `RtlCopyMemory` to a buffer. -/
def copyOut (buffer : List UInt8) (off : Nat) (data : List UInt8) : Option (List UInt8) :=
  if off + data.length ≤ buffer.length then some (splice buffer off data) else none

/-- Where the report starts: after a zero report id, if there is room for one. -/
def dataOffset (buffer : List UInt8) : Option Nat :=
  if reportSize < buffer.length then buffer[0]?.map fun b => if b = 0 then 1 else 0 else some 0

/-! ## The device -/

/-- `ABK_REPORT_MODE_*`; every other number means the first. -/
def reportModePlain : UInt32 := 1
def reportModeLeadingId : UInt32 := 2

/-- `ABK_DEVICE_CONTEXT`. The host's backlog is kept word for word, since
the theorems are about its counters. -/
structure Context where
  vhfStarted : Bool
  /-- The reads that wait, the oldest first. -/
  readQueue : List Nat
  reportIdSeen : Bool
  reportIdLeads : Bool
  reportMode : UInt32
  head : UInt32
  tail : UInt32
  count : UInt32
  dropped : UInt32
  ring : Nat → Frame
  replies : RingBuffer Frame replySlots

inductive Event
  /-- A frame came from the host. -/
  | arrived (frame : Frame)
  /-- A read was completed with it. -/
  | handed (request : Nat) (frame : Frame)
  /-- It was overwritten. -/
  | displaced (frame : Frame)
  deriving DecidableEq

structure Device where
  context : Context
  log : List Event

namespace Context

/-- A device's memory is zeroed when it is added. -/
def init : Context where
  vhfStarted := false
  readQueue := []
  reportIdSeen := false
  reportIdLeads := false
  reportMode := 0
  head := 0
  tail := 0
  count := 0
  dropped := 0
  ring _ := zeros reportSize
  replies := .empty (zeros reportSize)

/-- The oldest frame leaves the backlog. -/
def advanceTail (c : Context) : Context := { c with tail := Ring.next ringSlots c.tail, count := c.count - 1 }

def putFrame (frame : Frame) (c : Context) : Context :=
  { c with
    ring := Function.update c.ring c.head.toNat frame
    head := Ring.next ringSlots c.head
    count := c.count + 1 }

end Context

/-! ## The callbacks -/

/-- `AbkEvtIoRead`. `forward` is what the framework says to forwarding the
request to the queue of waiting reads. -/
def evtIoRead (request length : Nat) (forward : NtStatus) (d : Device) : Device :=
  if length < reportSize then d
  else if 0 < d.context.count then
    ⟨d.context.advanceTail, .handed request (d.context.ring d.context.tail.toNat) :: d.log⟩
  else if forward.ok then { d with context := { d.context with readQueue := d.context.readQueue ++ [request] } }
  else d

/-- The part of `AbkDeliverHostReport` for which there is no waiting read. -/
def enqueueHostReport (frame : Frame) (d : Device) : Device :=
  let d :=
    if d.context.count = .ofNat ringSlots then
      ⟨{ d.context.advanceTail with dropped := d.context.dropped + 1 },
        .displaced (d.context.ring d.context.tail.toNat) :: d.log⟩
    else d
  ⟨d.context.putFrame frame, .arrived frame :: d.log⟩

/-- `AbkDeliverHostReport` -/
def deliverHostReport (frame : Frame) (d : Device) : Device :=
  match if d.context.count = 0 then d.context.readQueue else [] with
  | request :: waiting =>
    ⟨{ d.context with readQueue := waiting }, .handed request frame :: .arrived frame :: d.log⟩
  | [] => enqueueHostReport frame d

/-- The frame of an output report, cut or padded. -/
def hostFrame (buffer : List UInt8) : Option Frame := do
  let off ← dataOffset buffer
  let data ← copyIn buffer off (min (buffer.length - off) reportSize)
  some ((Codec.bytes reportSize).dec data)

/-- `AbkEvtVhfWriteReport`; a buffer may be NULL. -/
def evtVhfWriteReport (buffer : Option (List UInt8)) (d : Device) : Option (NtStatus × Device) :=
  match buffer with
  | none | some [] => some (.invalidParameter, d)
  | some buffer => do
    let leads : Bool := reportSize < buffer.length
    let d := { d with context := { d.context with reportIdLeads := leads, reportIdSeen := true } }
    let frame ← hostFrame buffer
    some (.success, deliverHostReport frame d)

/-- The shape a reply is submitted in first. -/
def Context.submitsId (c : Context) : Bool :=
  if c.reportMode = reportModePlain then false
  else if c.reportMode = reportModeLeadingId then true
  else if c.reportIdSeen then c.reportIdLeads else true

/-- What VHF is given, in one shape or the other. -/
def submission (leads : Bool) (data : List UInt8) : List UInt8 := if leads then 0 :: data else data

/-- What `AbkEvtIoWrite` submits, and what comes of it; `vhf` is what VHF
says to a report. -/
def submit (vhf : List UInt8 → NtStatus) (data : List UInt8) (c : Context) : List (List UInt8) × NtStatus :=
  if c.vhfStarted then
    let first := submission c.submitsId data
    let second := submission (!c.submitsId) data
    if vhf first = .invalidBufferSize ∨ vhf first = .invalidParameter then ([first, second], vhf second)
    else ([first], vhf first)
  else ([], .deviceNotReady)

/-- The oldest reply makes room. -/
def keepReply (frame : Frame) (replies : RingBuffer Frame replySlots) : RingBuffer Frame replySlots :=
  let replies := if replies.count = replySlots then (replies.pop.map Prod.snd).getD replies else replies
  (replies.push frame).getD replies

/-- `AbkEvtIoWrite` of a buffer the framework hands over: what VHF was
given, and the status. -/
def evtIoWrite (vhf : List UInt8 → NtStatus) (buffer : List UInt8) (d : Device) :
    Option (List (List UInt8) × NtStatus × Device) :=
  if buffer.length < reportSize then some ([], .invalidBufferSize, d)
  else do
    let off ← dataOffset buffer
    let data ← copyIn buffer off reportSize
    let (submitted, status) := submit vhf data d.context
    let d := if status.ok then
        { d with context := { d.context with
          replies := keepReply ((Codec.bytes reportSize).dec data) d.context.replies } }
      else d
    some (submitted, status, d)

/-- `AbkEvtVhfGetInputReport`: the status, and the report, which is the
length it sets of the buffer. -/
def evtVhfGetInputReport (buffer : Option (List UInt8)) (d : Device) : Option (NtStatus × List UInt8 × Device) :=
  match buffer with
  | none | some [] => some (.invalidParameter, [], d)
  | some out =>
    match d.context.replies.pop with
    | none => some (.noMoreEntries, [], d)
    | some (frame, replies) => do
      let d := { d with context := { d.context with replies := replies } }
      if reportSize < out.length then
        let out ← copyOut out 0 [0]
        let out ← copyOut out 1 frame.toList
        some (.success, out.take (1 + reportSize), d)
      else
        let out ← copyOut out 0 frame.toList
        some (.success, out.take reportSize, d)

/-! ## Runs -/

inductive Action
  | ioRead (request length : Nat) (forward : NtStatus)
  /-- The framework cancels a read that waits. -/
  | cancel (request : Nat)
  | writeReport (buffer : Option (List UInt8))
  | ioWrite (vhf : List UInt8 → NtStatus) (buffer : List UInt8)
  | getInputReport (buffer : Option (List UInt8))
  /-- `ABK_IOCTL_SET_REPORT_MODE` -/
  | setReportMode (mode : UInt32)
  /-- VHF was started, or is about to be deleted. -/
  | setStarted (started : Bool)

namespace Device

def init : Device := ⟨.init, []⟩

def step (d : Device) : Action → Option Device
  | .ioRead request length forward => some (evtIoRead request length forward d)
  | .cancel request => some { d with context := { d.context with readQueue := d.context.readQueue.erase request } }
  | .writeReport buffer => (evtVhfWriteReport buffer d).map Prod.snd
  | .ioWrite vhf buffer => (evtIoWrite vhf buffer d).map fun r => r.2.2
  | .getInputReport buffer => (evtVhfGetInputReport buffer d).map fun r => r.2.2
  | .setReportMode mode =>
    some (if reportModeLeadingId < mode then d else { d with context := { d.context with reportMode := mode } })
  | .setStarted started => some { d with context := { d.context with vhfStarted := started } }

end Device

/-! ## What writes and polls touch -/

/-- All of a device but its replies. -/
def Device.SameBacklog (d d' : Device) : Prop := ∃ replies, d' = { d with context := { d.context with replies := replies } }

theorem evtIoWrite_same {vhf : List UInt8 → NtStatus} {buffer : List UInt8} {d d' : Device} {sent : List (List UInt8)}
    {status : NtStatus} (h : evtIoWrite vhf buffer d = some (sent, status, d')) : d.SameBacklog d' := by
  unfold evtIoWrite at h
  split at h
  · cases h
    exact ⟨d.context.replies, rfl⟩
  · obtain ⟨off, _, h⟩ := Option.bind_eq_some_iff.mp h
    obtain ⟨data, _, h⟩ := Option.bind_eq_some_iff.mp h
    cases h
    split
    · exact ⟨_, rfl⟩
    · exact ⟨d.context.replies, rfl⟩

theorem evtVhfGetInputReport_same {buffer : Option (List UInt8)} {d d' : Device} {status : NtStatus} {report : List UInt8}
    (h : evtVhfGetInputReport buffer d = some (status, report, d')) : d.SameBacklog d' := by
  unfold evtVhfGetInputReport at h
  split at h
  · cases h
    exact ⟨d.context.replies, rfl⟩
  · cases h
    exact ⟨d.context.replies, rfl⟩
  split at h
  · cases h
    exact ⟨d.context.replies, rfl⟩
  split at h
  · obtain ⟨out, _, h⟩ := Option.bind_eq_some_iff.mp h
    obtain ⟨out, _, h⟩ := Option.bind_eq_some_iff.mp h
    cases h
    exact ⟨_, rfl⟩
  · obtain ⟨out, _, h⟩ := Option.bind_eq_some_iff.mp h
    cases h
    exact ⟨_, rfl⟩

end AbkFido.Vhid
