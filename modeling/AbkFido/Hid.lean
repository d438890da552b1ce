/-
CTAPHID: messages cut into 64-byte reports, and put together again on one of
four channels.

`hidPackets` is what `abk_fido_send_hid_message` pushes. The part of
`abk_fido_process_packet` that holds the device lock is
`processPacketLocked`; a message it completes is served after the lock was
dropped, and takes it again for an INIT or a CANCEL (`dispatchLocked`).
`HidLayer` is both transports at it, each with a worker that takes its
packets one at a time, over the one table of channels.
-/
import AbkFido.Device
import AbkFido.Lib.Fifo

namespace AbkFido

open Layout Codec

/-- `ABK_FIDO_MAX_CHANNELS` -/
def maxChannels : Nat := 4

theorem maxChannels_pos : 0 < maxChannels := by decide

/-- `ABK_FIDO_QUEUE_DEPTH` -/
def queueDepth : Nat := 32

instance : NeZero queueDepth := ⟨by decide⟩

def cidBroadcast : UInt32 := 0xffffffff

def hidPing : UInt8 := 0x01
def hidInit : UInt8 := 0x06
def hidWink : UInt8 := 0x08
def hidCbor : UInt8 := 0x10
def hidCancel : UInt8 := 0x11
def hidKeepalive : UInt8 := 0x3b
def hidError : UInt8 := 0x3f

def hidErrInvalidCmd : UInt8 := 0x01
def hidErrInvalidLen : UInt8 := 0x03
def hidErrInvalidSeq : UInt8 := 0x04
def hidErrInvalidCid : UInt8 := 0x0b
def hidErrOther : UInt8 := 0x7f

/-! ## Packets -/

/-- `u8 packet[ABK_FIDO_REPORT_LEN]` -/
abbrev Packet := Bytes 64

namespace Packet

def cid (p : Packet) : UInt32 := u32be.dec p.toList

def header (p : Packet) : UInt8 := u8.dec (p.toList.drop 4)

/-- `header & 0x80`: an initialization packet. -/
def starts (p : Packet) : Bool := p.header &&& 0x80 != 0

def cmd (p : Packet) : UInt8 := p.header &&& 0x7f

/-- The length an initialization packet declares. -/
def expected (p : Packet) : Nat := (u16be.dec (p.toList.drop 5)).toNat

/-- What an initialization packet carries. -/
def initData (p : Packet) : List UInt8 := p.toList.drop 7

/-- What a continuation packet carries. -/
def contData (p : Packet) : List UInt8 := p.toList.drop 5

end Packet

/-- The fields of an initialization packet. -/
def initCodec : Codec (UInt32 × UInt8 × UInt16 × Bytes 57) := prod u32be (prod u8 (prod u16be (bytes 57)))

/-- The fields of a continuation packet. -/
def contCodec : Codec (UInt32 × UInt8 × Bytes 59) := prod u32be (prod u8 (bytes 59))

def initPacket (cid : UInt32) (cmd : UInt8) (len : Nat) (chunk : List UInt8) : Packet :=
  ⟨initCodec.enc (cid, cmd ||| 0x80, .ofNat len, (bytes 57).dec chunk), initCodec.length_enc _⟩

def contPacket (cid : UInt32) (seq : UInt8) (chunk : List UInt8) : Packet :=
  ⟨contCodec.enc (cid, seq, (bytes 59).dec chunk), contCodec.length_enc _⟩

/-- The continuation packets for the rest of a payload. -/
def contPackets (cid : UInt32) (seq : UInt8) (rest : List UInt8) : List Packet :=
  if rest = [] then []
  else contPacket cid seq (rest.take 59) :: contPackets cid (seq + 1) (rest.drop 59)
termination_by rest.length
decreasing_by
  have := List.length_pos_iff.mpr ‹rest ≠ []›
  simp only [List.length_drop]
  omega

def hidPackets (cid : UInt32) (cmd : UInt8) (payload : List UInt8) : List Packet :=
  initPacket cid cmd payload.length (payload.take 57) :: contPackets cid 0 (payload.drop 57)

/-- What `abk_fido_send_hid_message` does to `tx_packets`: no one looks at
what the pushes return. -/
def sendHidMessage (cid : UInt32) (cmd : UInt8) (payload : List UInt8) (tx : RingBuffer Packet queueDepth) :
    RingBuffer Packet queueDepth :=
  tx.pushAll (hidPackets cid cmd payload)

/-! ## Channels -/

/-- `struct abk_fido_channel`. `msg` holds the bytes received so far;
`received_len` is their number. -/
structure Channel where
  inUse : Bool
  cancelled : Bool
  cid : UInt32
  cmd : UInt8
  nextSeq : UInt8
  expectedLen : Nat
  msg : List UInt8

/-- `memset(ch, 0, sizeof(*ch))` -/
def Channel.zero : Channel where
  inUse := false
  cancelled := false
  cid := 0
  cmd := 0
  nextSeq := 0
  expectedLen := 0
  msg := []

/-- What the packets of both transports share. -/
structure Hid where
  channels : Fin maxChannels → Channel
  nextCid : UInt32

/-- How a packet is taken: the message goes on, is refused, or is complete. -/
inductive Received
  | nothing
  | refused (err : UInt8)
  | complete (cmd : UInt8) (data : List UInt8)
  deriving DecidableEq

/-- A complete message. -/
structure Msg where
  cid : UInt32
  cmd : UInt8
  data : List UInt8
  deriving DecidableEq

namespace Hid

def boot : Hid where
  channels _ := .zero
  nextCid := 1

def setChannel (i : Fin maxChannels) (ch : Channel) (h : Hid) : Hid :=
  { h with channels := Function.update h.channels i ch }

def findChannelLocked (cid : UInt32) (h : Hid) : Option (Fin maxChannels) :=
  (List.finRange maxChannels).find? fun i => (h.channels i).inUse && (h.channels i).cid == cid

def freeChannel (h : Hid) : Option (Fin maxChannels) :=
  (List.finRange maxChannels).find? fun i => !(h.channels i).inUse

/-- With no channel free it is the first one, as it is. -/
def allocChannelLocked (cid : UInt32) (h : Hid) : Fin maxChannels × Hid :=
  match h.freeChannel with
  | some i => (i, h.setChannel i { Channel.zero with inUse := true, cid := cid })
  | none => (⟨0, by decide⟩, h)

def nextCidLocked (h : Hid) : UInt32 × Hid :=
  let cid := h.nextCid
  let h := { h with nextCid := h.nextCid + 1 }
  if cid = 0 ∨ cid = cidBroadcast then
    let h := { h with nextCid := h.nextCid + 1 }
    (h.nextCid, h)
  else (cid, h)

/-- The channel is kept until its message is complete, and cleared then. -/
def settleLocked (allocOk : Bool) (i : Fin maxChannels) (ch : Channel) (h : Hid) : Received × Hid :=
  if ch.msg.length = ch.expectedLen then
    (if allocOk then .complete ch.cmd ch.msg else .refused hidErrOther, h.setChannel i .zero)
  else (.nothing, h.setChannel i ch)

/-- `abk_fido_process_packet` while it holds the lock. -/
def processPacketLocked (allocOk : Bool) (p : Packet) (h : Hid) : Received × Hid :=
  if p.starts then
    if p.expected > maxMsg then (.refused hidErrInvalidLen, h)
    else
      let (i, h) := match h.findChannelLocked p.cid with
        | some i => (i, h)
        | none => h.allocChannelLocked p.cid
      h.settleLocked allocOk i
        { Channel.zero with
          inUse := true
          cid := p.cid
          cmd := p.cmd
          expectedLen := p.expected
          msg := p.initData.take p.expected }
  else match h.findChannelLocked p.cid with
    | none => (.refused hidErrInvalidCid, h)
    | some i =>
      let ch := h.channels i
      if p.header ≠ ch.nextSeq then (.refused hidErrInvalidSeq, h.setChannel i .zero)
      else
        h.settleLocked allocOk i
          { ch with
            nextSeq := ch.nextSeq + 1
            msg := ch.msg ++ p.contData.take (ch.expectedLen - ch.msg.length) }

/-- What `abk_fido_dispatch_msg` does to the channels, and the cid an INIT
hands out. -/
def dispatchLocked (m : Msg) (h : Hid) : Option UInt32 × Hid :=
  if m.cmd = hidInit then
    if m.data.length < 8 then (none, h)
    else
      let (cid, h) := h.nextCidLocked
      (some cid, (h.allocChannelLocked cid).2)
  else if m.cmd = hidCancel then
    match h.findChannelLocked m.cid with
    | some i => (none, h.setChannel i { h.channels i with cancelled := true })
    | none => (none, h)
  else (none, h)

end Hid

/-- What a message is answered with, on its own cid: the command and the
payload. `cbor` is the response of `abk_fido_cbor_dispatch`, status first. -/
def Msg.answer (cbor : List UInt8) (handed : Option UInt32) (m : Msg) : Option (UInt8 × List UInt8) :=
  if m.cmd = hidInit then
    match handed with
    | none => some (hidError, [hidErrInvalidLen])
    | some cid => some (hidInit, m.data.take 8 ++ u32be.enc cid ++ [2, 0, 1, 0, 0x0d])
  else if m.cmd = hidPing then some (hidPing, m.data)
  else if m.cmd = hidWink then some (hidWink, [])
  else if m.cmd = hidCancel then none
  else if m.cmd = hidCbor then some (hidCbor, cbor)
  else some (hidError, [hidErrInvalidCmd])

/-! ## Both transports -/

inductive HidEvent
  | packet (t : Transport) (p : Packet)
  | dispatched (t : Transport) (m : Msg)
  /-- An INIT handed out `cid` while the channels of `inUse` were. -/
  | handed (cid : UInt32) (inUse : List UInt32)

structure HidLayer where
  hid : Hid
  /-- The message each `rx_work` is serving. -/
  serving : Transport → Option Msg
  /-- The newest first. -/
  log : List HidEvent

inductive HidAction
  /-- The worker takes its next packet. -/
  | packet (t : Transport) (p : Packet) (allocOk : Bool)
  /-- The worker serves the message it has completed. -/
  | serve (t : Transport)

/-- The cids of the channels in use. -/
def Hid.cidsInUse (h : Hid) : List UInt32 :=
  ((List.finRange maxChannels).filter fun i => (h.channels i).inUse).map fun i => (h.channels i).cid

namespace HidLayer

def boot : HidLayer where
  hid := .boot
  serving _ := none
  log := []

def step (s : HidLayer) : HidAction → Option HidLayer
  | .packet t p allocOk =>
    match s.serving t with
    | some _ => none
    | none =>
      let (r, hid) := s.hid.processPacketLocked allocOk p
      match r with
      | .complete cmd data =>
        let m : Msg := ⟨p.cid, cmd, data⟩
        some ⟨hid, Function.update s.serving t (some m), .dispatched t m :: .packet t p :: s.log⟩
      | _ => some { s with hid := hid, log := .packet t p :: s.log }
  | .serve t =>
    match s.serving t with
    | none => none
    | some m =>
      let (handed, hid) := s.hid.dispatchLocked m
      some
        { hid := hid
          serving := Function.update s.serving t none
          log := match handed with
            | some cid => .handed cid s.hid.cidsInUse :: s.log
            | none => s.log }

end HidLayer

end AbkFido
