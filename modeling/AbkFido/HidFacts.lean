/-
What packets carry, and what each of them does to the table of channels,
said once (`process_cases`).

A packet sets one channel at most, the one found for its cid or the one
that is opened for it (`process_sets`); an INIT sets a free one or none
(`init_sets`).
-/
import AbkFido.Hid

namespace AbkFido

open Layout Codec

/-! ## Packets -/

theorem uint8_forall {P : UInt8 → Prop} (h : ∀ n : Fin 256, P (.ofNat n)) (c : UInt8) : P c := by
  have hc := h ⟨c.toNat, c.toNat_lt⟩
  rwa [UInt8.ofNat_toNat] at hc

theorem cmd_or_starts (cmd : UInt8) : (cmd ||| 0x80) &&& 0x80 ≠ 0 :=
  uint8_forall (P := fun cmd => (cmd ||| 0x80) &&& 0x80 ≠ 0) (by decide +kernel) cmd

theorem cmd_or_and {cmd : UInt8} (h : cmd < 0x80) : (cmd ||| 0x80) &&& 0x7f = cmd :=
  uint8_forall (P := fun cmd => cmd < 0x80 → (cmd ||| 0x80) &&& 0x7f = cmd) (by decide +kernel) cmd h

theorem and_eq_zero_iff (b : UInt8) : b &&& 0x80 = 0 ↔ b < 0x80 :=
  uint8_forall (P := fun b => b &&& 0x80 = 0 ↔ b < 0x80) (by decide +kernel) b

namespace Packet

theorem not_starts_iff (p : Packet) : p.starts = false ↔ p.header < 0x80 := by
  rw [starts, ← and_eq_zero_iff]
  simp

@[simp] theorem length_initData (p : Packet) : p.initData.length = 57 := by simp [initData]

@[simp] theorem length_contData (p : Packet) : p.contData.length = 59 := by simp [contData]

end Packet

section
variable (cid : UInt32) (cmd seq : UInt8) (len : Nat) (chunk : List UInt8)

theorem initPacket_dec : initCodec.dec (initPacket cid cmd len chunk).toList =
    (cid, cmd ||| 0x80, .ofNat len, (bytes 57).dec chunk) := dec_enc_self ..

@[simp] theorem initPacket_cid : (initPacket cid cmd len chunk).cid = cid :=
  congrArg Prod.fst (initPacket_dec cid cmd len chunk)

@[simp] theorem initPacket_header : (initPacket cid cmd len chunk).header = cmd ||| 0x80 :=
  congrArg (·.2.1) (initPacket_dec cid cmd len chunk)

@[simp] theorem initPacket_starts : (initPacket cid cmd len chunk).starts = true := by
  simpa [Packet.starts] using cmd_or_starts cmd

theorem initPacket_cmd {cmd : UInt8} (h : cmd < 0x80) : (initPacket cid cmd len chunk).cmd = cmd := by
  rw [Packet.cmd, initPacket_header, cmd_or_and h]

theorem initPacket_expected {len : Nat} (h : len < 65536) : (initPacket cid cmd len chunk).expected = len := by
  have hlen := congrArg (·.2.2.1) (initPacket_dec cid cmd len chunk)
  have hexp : (initPacket cid cmd len chunk).expected = (UInt16.ofNat len).toNat := congrArg UInt16.toNat hlen
  rw [hexp, UInt16.toNat_ofNat']
  exact Nat.mod_eq_of_lt h

/-- The rest of a short packet is zeros. -/
theorem dec_bytes_toList {n : Nat} {chunk : List UInt8} (h : chunk.length ≤ n) :
    ((bytes n).dec chunk).toList = chunk ++ List.replicate (n - chunk.length) 0 := by
  show chunk.take n ++ List.replicate (n - chunk.length) 0 = _
  rw [List.take_of_length_le h]

theorem initPacket_initData : (initPacket cid cmd len chunk).initData = ((bytes 57).dec chunk).toList := by
  have hdrop := (prod u32be (prod u8 u16be)).drop_enc_append (cid, cmd ||| 0x80, .ofNat len)
    ((bytes 57).enc ((bytes 57).dec chunk)) 0
  simp only [prod, List.append_assoc, Nat.add_zero, List.drop_zero] at hdrop
  exact hdrop

theorem contPacket_dec : contCodec.dec (contPacket cid seq chunk).toList = (cid, seq, (bytes 59).dec chunk) :=
  dec_enc_self ..

@[simp] theorem contPacket_cid : (contPacket cid seq chunk).cid = cid :=
  congrArg Prod.fst (contPacket_dec cid seq chunk)

@[simp] theorem contPacket_header : (contPacket cid seq chunk).header = seq :=
  congrArg (·.2.1) (contPacket_dec cid seq chunk)

theorem contPacket_contData : (contPacket cid seq chunk).contData = ((bytes 59).dec chunk).toList := by
  have hdrop := (prod u32be u8).drop_enc_append (cid, seq) ((bytes 59).enc ((bytes 59).dec chunk)) 0
  simp only [prod, List.append_assoc, Nat.add_zero, List.drop_zero] at hdrop
  exact hdrop

end

/-! ## The table -/

namespace Hid

variable {h : Hid} {cid : UInt32} {i : Fin maxChannels}

theorem find_eq_some : h.findChannelLocked cid = some i ↔
    ((h.channels i).inUse = true ∧ (h.channels i).cid = cid) ∧
      ∀ j < i, (h.channels j).inUse = true → (h.channels j).cid ≠ cid := by
  rw [findChannelLocked, find_finRange]
  simp

theorem find_eq_none : h.findChannelLocked cid = none ↔
    ∀ i, (h.channels i).inUse = true → (h.channels i).cid ≠ cid := by
  rw [findChannelLocked, List.find?_eq_none]
  simp

theorem free_eq_some : h.freeChannel = some i ↔
    (h.channels i).inUse = false ∧ ∀ j < i, (h.channels j).inUse = true := by
  rw [freeChannel, find_finRange]
  simp

@[simp] theorem setChannel_self (i : Fin maxChannels) (ch : Channel) (h : Hid) :
    (h.setChannel i ch).channels i = ch := Function.update_self ..

theorem setChannel_of_ne {j : Fin maxChannels} (hij : j ≠ i) (ch : Channel) (h : Hid) :
    (h.setChannel i ch).channels j = h.channels j := Function.update_of_ne hij ..

@[simp] theorem setChannel_setChannel (i : Fin maxChannels) (ch ch' : Channel) (h : Hid) :
    (h.setChannel i ch).setChannel i ch' = h.setChannel i ch' := by
  simp [setChannel]

@[simp] theorem setChannel_nextCid (i : Fin maxChannels) (ch : Channel) (h : Hid) :
    (h.setChannel i ch).nextCid = h.nextCid := rfl

/-- The channel an initialization packet goes to: that of its cid, a free
one, or with none free the first. -/
def slotFor (cid : UInt32) (h : Hid) : Fin maxChannels :=
  (h.findChannelLocked cid <|> h.freeChannel).getD ⟨0, maxChannels_pos⟩

end Hid

/-- A channel on which an initialization packet has just come in. -/
def Packet.opened (p : Packet) : Channel :=
  { Channel.zero with
    inUse := true
    cid := p.cid
    cmd := p.cmd
    expectedLen := p.expected
    msg := p.initData.take p.expected }

/-- A channel on which a continuation packet has been taken. -/
def Packet.extend (p : Packet) (ch : Channel) : Channel :=
  { ch with
    nextSeq := ch.nextSeq + 1
    msg := ch.msg ++ p.contData.take (ch.expectedLen - ch.msg.length) }

namespace Hid

variable {h : Hid}

theorem settle_setChannel (allocOk : Bool) (i : Fin maxChannels) (ch ch' : Channel) (h : Hid) :
    (h.setChannel i ch').settleLocked allocOk i ch = h.settleLocked allocOk i ch := by
  simp only [settleLocked, setChannel_setChannel]

theorem process_init (allocOk : Bool) {p : Packet} (hp : p.starts = true) (hlen : p.expected ≤ maxMsg) (h : Hid) :
    h.processPacketLocked allocOk p = h.settleLocked allocOk (h.slotFor p.cid) p.opened := by
  rw [processPacketLocked, if_pos hp, if_neg (by omega), slotFor]
  cases hfind : h.findChannelLocked p.cid with
  | some i => rfl
  | none =>
    simp only [allocChannelLocked]
    cases hfree : h.freeChannel with
    | some i => exact settle_setChannel ..
    | none => rfl

theorem process_cont (allocOk : Bool) {p : Packet} (hp : p.starts = false) {i : Fin maxChannels}
    (hfind : h.findChannelLocked p.cid = some i) (hseq : p.header = (h.channels i).nextSeq) :
    h.processPacketLocked allocOk p = h.settleLocked allocOk i (p.extend (h.channels i)) := by
  rw [processPacketLocked, hp, if_neg (by simp), hfind]
  simp [hseq, Packet.extend]

/-- **What a packet does.** -/
theorem process_cases (allocOk : Bool) (p : Packet) (h : Hid) :
    (p.starts = true ∧ maxMsg < p.expected ∧ h.processPacketLocked allocOk p = (.refused hidErrInvalidLen, h)) ∨
    (p.starts = true ∧ p.expected ≤ maxMsg ∧
      h.processPacketLocked allocOk p = h.settleLocked allocOk (h.slotFor p.cid) p.opened) ∨
    (p.starts = false ∧ h.findChannelLocked p.cid = none ∧
      h.processPacketLocked allocOk p = (.refused hidErrInvalidCid, h)) ∨
    (p.starts = false ∧ ∃ i, h.findChannelLocked p.cid = some i ∧ p.header ≠ (h.channels i).nextSeq ∧
      h.processPacketLocked allocOk p = (.refused hidErrInvalidSeq, h.setChannel i .zero)) ∨
    (p.starts = false ∧ ∃ i, h.findChannelLocked p.cid = some i ∧ p.header = (h.channels i).nextSeq ∧
      h.processPacketLocked allocOk p = h.settleLocked allocOk i (p.extend (h.channels i))) := by
  cases hp : p.starts with
  | true =>
    by_cases hlen : p.expected ≤ maxMsg
    · exact .inr (.inl ⟨rfl, hlen, process_init allocOk hp hlen h⟩)
    · refine .inl ⟨rfl, by omega, ?_⟩
      rw [processPacketLocked, if_pos hp, if_pos (by omega)]
  | false =>
    cases hfind : h.findChannelLocked p.cid with
    | none =>
      refine .inr (.inr (.inl ⟨rfl, rfl, ?_⟩))
      rw [processPacketLocked, hp, if_neg (by simp), hfind]
    | some i =>
      by_cases hseq : p.header = (h.channels i).nextSeq
      · exact .inr (.inr (.inr (.inr ⟨rfl, i, rfl, hseq, process_cont allocOk hp hfind hseq⟩)))
      · refine .inr (.inr (.inr (.inl ⟨rfl, i, rfl, hseq, ?_⟩)))
        rw [processPacketLocked, hp, if_neg (by simp), hfind]
        simp [hseq]

/-- Either the message is complete, and the channel cleared, or it goes on. -/
theorem settle_cases (allocOk : Bool) (i : Fin maxChannels) (ch : Channel) (h : Hid) :
    (ch.msg.length = ch.expectedLen ∧ h.settleLocked allocOk i ch =
      (if allocOk then .complete ch.cmd ch.msg else .refused hidErrOther, h.setChannel i .zero)) ∨
    (ch.msg.length ≠ ch.expectedLen ∧ h.settleLocked allocOk i ch = (.nothing, h.setChannel i ch)) := by
  rw [settleLocked]
  split
  · next hlen => exact .inl ⟨hlen, rfl⟩
  · next hlen => exact .inr ⟨hlen, rfl⟩

theorem settle_sets (allocOk : Bool) (i : Fin maxChannels) (ch : Channel) (h : Hid) :
    ∃ ch', (h.settleLocked allocOk i ch).2 = h.setChannel i ch' ∧ (ch' = .zero ∨ ch' = ch) := by
  rcases settle_cases allocOk i ch h with ⟨_, heq⟩ | ⟨_, heq⟩
  · exact ⟨.zero, by rw [heq], .inl rfl⟩
  · exact ⟨ch, by rw [heq], .inr rfl⟩

/-- **Which channel a packet sets.** -/
theorem process_sets (allocOk : Bool) (p : Packet) (h : Hid) :
    (h.processPacketLocked allocOk p).2 = h ∨
    ∃ j ch, (h.processPacketLocked allocOk p).2 = h.setChannel j ch ∧ (ch.inUse = true → ch.cid = p.cid) ∧
      (h.findChannelLocked p.cid = some j ∨
        (p.starts = true ∧ p.expected ≤ maxMsg ∧ h.findChannelLocked p.cid = none ∧ j = h.slotFor p.cid)) := by
  rcases process_cases allocOk p h with ⟨_, _, heq⟩ | ⟨hp, hlen, heq⟩ | ⟨_, _, heq⟩ | ⟨_, i, hfind, _, heq⟩ |
    ⟨_, i, hfind, _, heq⟩
  · exact .inl (by rw [heq])
  · obtain ⟨ch, hset, hch⟩ := settle_sets allocOk (h.slotFor p.cid) p.opened h
    refine .inr ⟨_, ch, by rw [heq, hset], ?_, ?_⟩
    · rcases hch with rfl | rfl
      · simp [Channel.zero]
      · exact fun _ => rfl
    · cases hfind : h.findChannelLocked p.cid with
      | some i => exact .inl (by rw [slotFor, hfind]; rfl)
      | none => exact .inr ⟨hp, hlen, rfl, rfl⟩
  · exact .inl (by rw [heq])
  · exact .inr ⟨i, .zero, by rw [heq], by simp [Channel.zero], .inl hfind⟩
  · obtain ⟨ch, hset, hch⟩ := settle_sets allocOk i (p.extend (h.channels i)) h
    refine .inr ⟨i, ch, by rw [heq, hset], ?_, .inl hfind⟩
    rcases hch with rfl | rfl
    · simp [Channel.zero]
    · exact fun _ => (find_eq_some.mp hfind).1.2

theorem nextCid_channels (h : Hid) : h.nextCidLocked.2.channels = h.channels := by
  unfold nextCidLocked
  dsimp only
  split <;> rfl

/-- What an INIT gives its cid: a free channel, or none. -/
theorem init_sets (h : Hid) :
    (h.freeChannel = none ∧ (h.nextCidLocked.2.allocChannelLocked h.nextCidLocked.1).2.channels = h.channels) ∨
    ∃ j, h.freeChannel = some j ∧ (h.nextCidLocked.2.allocChannelLocked h.nextCidLocked.1).2.channels =
      (h.setChannel j { Channel.zero with inUse := true, cid := h.nextCidLocked.1 }).channels := by
  have hfree : h.nextCidLocked.2.freeChannel = h.freeChannel := by rw [freeChannel, freeChannel, nextCid_channels]
  rw [allocChannelLocked, hfree]
  cases h.freeChannel with
  | none => exact .inl ⟨rfl, h.nextCid_channels⟩
  | some j => exact .inr ⟨j, rfl, by simp only [setChannel, nextCid_channels]⟩

/-- Packets leave the counter alone. -/
theorem process_nextCid (allocOk : Bool) (p : Packet) (h : Hid) :
    (h.processPacketLocked allocOk p).2.nextCid = h.nextCid := by
  rcases process_sets allocOk p h with heq | ⟨j, ch, heq, _, _⟩
  · rw [heq]
  · rw [heq, setChannel_nextCid]

end Hid

/-! ## The layer's steps -/

/-- An INIT that is long enough. -/
def Msg.IsInit (m : Msg) : Prop := m.cmd = hidInit ∧ 8 ≤ m.data.length

instance (m : Msg) : Decidable m.IsInit := inferInstanceAs (Decidable (_ ∧ _))

/-- Serving a message hands out a cid and gives it a channel, or leaves all
but a mark on a channel as it was. -/
theorem Hid.dispatch_cases (m : Msg) (h : Hid) :
    (m.IsInit ∧ h.dispatchLocked m =
      (some h.nextCidLocked.1, (h.nextCidLocked.2.allocChannelLocked h.nextCidLocked.1).2)) ∨
    (¬ m.IsInit ∧ (h.dispatchLocked m = (none, h) ∨
      ∃ i, h.dispatchLocked m = (none, h.setChannel i { h.channels i with cancelled := true }))) := by
  unfold dispatchLocked
  by_cases hcmd : m.cmd = hidInit
  · rw [if_pos hcmd]
    by_cases hlen : m.data.length < 8
    · rw [if_pos hlen]
      exact .inr ⟨fun hi => by have := hi.2; omega, .inl rfl⟩
    · rw [if_neg hlen]
      exact .inl ⟨⟨hcmd, by omega⟩, rfl⟩
  · rw [if_neg hcmd]
    refine .inr ⟨fun hi => hcmd hi.1, ?_⟩
    split
    · cases hfind : h.findChannelLocked m.cid with
      | none => exact .inl rfl
      | some i => exact .inr ⟨i, rfl⟩
    · exact .inl rfl

namespace HidLayer

variable {s s' : HidLayer} {t : Transport}

theorem packet_step {p : Packet} {allocOk : Bool} (h : s.step (.packet t p allocOk) = some s') :
    s.serving t = none ∧ s'.hid = (s.hid.processPacketLocked allocOk p).2 ∧
      ((∃ cmd data, (s.hid.processPacketLocked allocOk p).1 = .complete cmd data ∧
        s'.serving = Function.update s.serving t (some ⟨p.cid, cmd, data⟩) ∧
        s'.log = .dispatched t ⟨p.cid, cmd, data⟩ :: .packet t p :: s.log) ∨
      ((∀ cmd data, (s.hid.processPacketLocked allocOk p).1 ≠ .complete cmd data) ∧ s'.serving = s.serving ∧
        s'.log = .packet t p :: s.log)) := by
  simp only [step] at h
  split at h
  · cases h
  next hidle =>
  refine ⟨hidle, ?_⟩
  split at h
  · next cmd data hr =>
    cases h
    exact ⟨rfl, .inl ⟨cmd, data, hr, rfl, rfl⟩⟩
  · next hr =>
    cases h
    exact ⟨rfl, .inr ⟨hr, rfl, rfl⟩⟩

theorem serve_step (h : s.step (.serve t) = some s') :
    ∃ m, s.serving t = some m ∧ s'.hid = (s.hid.dispatchLocked m).2 ∧ s'.serving = Function.update s.serving t none ∧
      ((m.IsInit ∧ s'.log = .handed s.hid.nextCidLocked.1 s.hid.cidsInUse :: s.log) ∨
        (¬ m.IsInit ∧ s'.log = s.log)) := by
  simp only [step] at h
  split at h
  · cases h
  next m hm =>
  cases h
  refine ⟨m, hm, rfl, rfl, ?_⟩
  rcases s.hid.dispatch_cases m with ⟨hi, heq⟩ | ⟨hi, heq | ⟨i, heq⟩⟩ <;> rw [heq]
  · exact .inl ⟨hi, rfl⟩
  · exact .inr ⟨hi, rfl⟩
  · exact .inr ⟨hi, rfl⟩

/-- The log only grows. -/
theorem log_of_runs {ok : HidLayer → HidAction → Prop} {as : List HidAction} (h : Runs step ok s as s') :
    ∃ newer, s'.log = newer ++ s.log := by
  induction h with
  | nil s => exact ⟨[], rfl⟩
  | @cons s a e as s' _ hstep _ ih =>
    obtain ⟨newer, heq⟩ := ih
    have hnew : ∃ new, e.log = new ++ s.log := by
      cases a with
      | packet t p allocOk =>
        obtain ⟨_, _, ⟨cmd, data, _, _, hlog⟩ | ⟨_, _, hlog⟩⟩ := packet_step hstep
        · exact ⟨[_, _], hlog⟩
        · exact ⟨[_], hlog⟩
      | serve t =>
        obtain ⟨m, _, _, _, ⟨_, hlog⟩ | ⟨_, hlog⟩⟩ := serve_step hstep
        · exact ⟨[_], hlog⟩
        · exact ⟨[], hlog⟩
    obtain ⟨new, hnew⟩ := hnew
    exact ⟨newer ++ new, by rw [heq, hnew, List.append_assoc]⟩

end HidLayer

end AbkFido
