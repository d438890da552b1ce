/-
Messages, and the packets that carry them.

`Msg.CarriedBy` says which packets make up a message, without a table of channels.
`assemble` is the channel some of them leave, and the table `Holds` an
unfinished message where its cid finds that channel. A packet that goes on
with the message keeps this up until the last one, which completes it
(`process_begin`, `process_continue`).
-/
import AbkFido.HidFacts

namespace AbkFido

/-- How many continuation packets a message of `len` bytes takes. -/
def contCount (len : Nat) : Nat := (len + 1) / 59

/-- Continuation packets on a cid, numbered from 0. -/
def Numbered (cid : UInt32) (conts : List Packet) : Prop :=
  ∀ (k : Nat) (p : Packet), conts[k]? = some p → p.cid = cid ∧ p.starts = false ∧ p.header = .ofNat k

/-- What an initialization packet and continuation packets carry, cut to the
declared length. -/
def carried (init : Packet) (conts : List Packet) : List UInt8 :=
  (init.initData ++ conts.flatMap Packet.contData).take init.expected

structure Msg.CarriedBy (m : Msg) (init : Packet) (conts : List Packet) : Prop where
  starts : init.starts = true
  cid : init.cid = m.cid
  cmd : init.cmd = m.cmd
  expected : init.expected = m.data.length
  numbered : Numbered m.cid conts
  length : conts.length = contCount m.data.length
  data : carried init conts = m.data

/-- The channel on which these packets have come in. -/
def assemble (init : Packet) (conts : List Packet) : Channel where
  inUse := true
  cancelled := false
  cid := init.cid
  cmd := init.cmd
  nextSeq := .ofNat conts.length
  expectedLen := init.expected
  msg := carried init conts

/-- A channel but for the mark of a CANCEL, which nothing reads. -/
def Channel.unmarked (ch : Channel) : Channel := { ch with cancelled := false }

/-- A channel is the one found for the message, and holds what has come in
of it. -/
def Hid.Holds (h : Hid) (i : Fin maxChannels) (init : Packet) (conts : List Packet) : Prop :=
  h.findChannelLocked init.cid = some i ∧ (h.channels i).unmarked = assemble init conts

/-- The channel of an unfinished message; one that an INIT opened expects
nothing. -/
def Hid.unfinished (cid : UInt32) (h : Hid) : Option (Fin maxChannels) :=
  (h.findChannelLocked cid).filter fun i => 0 < (h.channels i).expectedLen

/-! ## Numbering -/

theorem numbered_nil (cid : UInt32) : Numbered cid [] := by
  intro k p h
  simp at h

theorem Numbered.of_append {cid : UInt32} {conts rest : List Packet} (h : Numbered cid (conts ++ rest)) :
    Numbered cid conts := by
  intro k p hk
  have hlt := (List.getElem?_eq_some_iff.mp hk).1
  exact h k p (by rw [List.getElem?_append_left hlt, hk])

theorem numbered_concat {cid : UInt32} {conts : List Packet} {p : Packet} :
    Numbered cid (conts ++ [p]) ↔
      Numbered cid conts ∧ p.cid = cid ∧ p.starts = false ∧ p.header = .ofNat conts.length := by
  constructor
  · intro h
    exact ⟨h.of_append, h conts.length p (by simp)⟩
  · rintro ⟨h, hp⟩ k q hk
    rcases Nat.lt_trichotomy k conts.length with hlt | heq | hgt
    · rw [List.getElem?_append_left hlt] at hk
      exact h k q hk
    · subst heq
      rw [List.getElem?_concat_length] at hk
      cases hk
      exact hp
    · rw [List.getElem?_eq_none (by simp; omega)] at hk
      cases hk

/-! ## Assembling -/

theorem length_carried (init : Packet) (conts : List Packet) :
    (carried init conts).length = min init.expected (57 + 59 * conts.length) := by
  simp [carried, Nat.mul_comm]

/-- The message is complete once all its packets have come in. -/
theorem carried_complete {init : Packet} {conts : List Packet} :
    (carried init conts).length = init.expected ↔ contCount init.expected ≤ conts.length := by
  rw [length_carried, contCount]
  omega

theorem opened_eq (p : Packet) : p.opened = assemble p [] := by
  simp [Packet.opened, assemble, carried, Channel.zero]

/-- A continuation packet adds to the message what is missing of it. -/
theorem carried_concat (p init : Packet) (conts : List Packet) : carried init (conts ++ [p]) =
    carried init conts ++ p.contData.take (init.expected - (carried init conts).length) := by
  rw [length_carried, carried, carried, List.flatMap_append, ← List.append_assoc]
  have hsplit : ((init.initData ++ conts.flatMap Packet.contData) ++ [p].flatMap Packet.contData).take init.expected =
      (init.initData ++ conts.flatMap Packet.contData).take init.expected ++ ([p].flatMap Packet.contData).take
        (init.expected - (init.initData ++ conts.flatMap Packet.contData).length) := List.take_append
  rw [hsplit]
  simp
  omega

theorem extend_assemble (p init : Packet) (conts : List Packet) :
    p.extend (assemble init conts) = assemble init (conts ++ [p]) := by
  simp [Packet.extend, assemble, carried_concat]

theorem unmarked_extend (p : Packet) (ch : Channel) : (p.extend ch).unmarked = p.extend ch.unmarked := rfl

theorem carriedBy_of_complete {init : Packet} {conts : List Packet} (hp : init.starts = true)
    (hnum : Numbered init.cid conts) (hcount : conts.length = contCount init.expected) :
    Msg.CarriedBy ⟨init.cid, init.cmd, carried init conts⟩ init conts := by
  have hlen : (carried init conts).length = init.expected := carried_complete.mpr (Nat.le_of_eq hcount.symm)
  exact ⟨hp, rfl, rfl, hlen.symm, hnum, by rw [hcount, hlen], rfl⟩

theorem Channel.of_unmarked {ch ch' : Channel} (h : ch.unmarked = ch'.unmarked) :
    ch.inUse = ch'.inUse ∧ ch.cid = ch'.cid ∧ ch.expectedLen = ch'.expectedLen ∧ ch.msg = ch'.msg := by
  simp only [unmarked, Channel.mk.injEq] at h
  obtain ⟨huse, _, hcid, _, _, hlen, hmsg⟩ := h
  exact ⟨huse, hcid, hlen, hmsg⟩

/-! ## The table -/

namespace Hid

variable {h : Hid} {init : Packet} {conts : List Packet}

/-- What is found after a channel was set. -/
theorem find_setChannel {cid : UInt32} {i : Fin maxChannels} {ch : Channel} (huse : ch.inUse = true) (hcid : ch.cid = cid)
    (hlow : ∀ j < i, (h.channels j).inUse = true → (h.channels j).cid ≠ cid) :
    (h.setChannel i ch).findChannelLocked cid = some i := by
  refine find_eq_some.mpr ⟨by rw [setChannel_self]; exact ⟨huse, hcid⟩, fun j hj => ?_⟩
  rw [setChannel_of_ne (ne_of_lt hj)]
  exact hlow j hj

theorem slotFor_low (cid : UInt32) (h : Hid) :
    ∀ j < h.slotFor cid, (h.channels j).inUse = true → (h.channels j).cid ≠ cid := by
  intro j hj
  cases hfind : h.findChannelLocked cid with
  | some i =>
    rw [slotFor, hfind] at hj
    exact (find_eq_some.mp hfind).2 j hj
  | none => exact find_eq_none.mp hfind j

/-- A channel is settled on which packets of a message have come in. -/
theorem settle_assembled (allocOk : Bool) {i : Fin maxChannels} {ch : Channel} (hch : ch.unmarked = assemble init conts)
    (hlow : ∀ j < i, (h.channels j).inUse = true → (h.channels j).cid ≠ init.cid) :
    (contCount init.expected ≤ conts.length ∧ (h.settleLocked allocOk i ch).1 =
        (if allocOk then .complete init.cmd (carried init conts) else .refused hidErrOther) ∧
      (h.settleLocked allocOk i ch).2 = h.setChannel i .zero) ∨
    (conts.length < contCount init.expected ∧ (h.settleLocked allocOk i ch).1 = .nothing ∧
      (h.settleLocked allocOk i ch).2 = h.setChannel i ch ∧ (h.settleLocked allocOk i ch).2.Holds i init conts) := by
  have hmsg : ch.msg = carried init conts := congrArg Channel.msg hch
  have hexp : ch.expectedLen = init.expected := congrArg Channel.expectedLen hch
  have hcmd : ch.cmd = init.cmd := congrArg Channel.cmd hch
  have hdone : ch.msg.length = ch.expectedLen ↔ contCount init.expected ≤ conts.length := by
    rw [hmsg, hexp, carried_complete]
  rcases settle_cases allocOk i ch h with ⟨hlen, heq⟩ | ⟨hlen, heq⟩
  · refine .inl ⟨hdone.mp hlen, ?_, by rw [heq]⟩
    rw [heq, hcmd, hmsg]
  · have hlen := hdone.not.mp hlen
    refine .inr ⟨by omega, by rw [heq], by rw [heq], ?_, ?_⟩
    · rw [heq]
      exact find_setChannel (congrArg Channel.inUse hch) (congrArg Channel.cid hch) hlow
    · rw [heq, setChannel_self, hch]

/-- A message is begun. -/
theorem process_begin (allocOk : Bool) (hp : init.starts = true) (hlen : init.expected ≤ maxMsg) (h : Hid) :
    (contCount init.expected ≤ 0 ∧ (h.processPacketLocked allocOk init).1 =
        (if allocOk then .complete init.cmd (carried init []) else .refused hidErrOther) ∧
      (h.processPacketLocked allocOk init).2 = h.setChannel (h.slotFor init.cid) .zero) ∨
    (0 < contCount init.expected ∧ (h.processPacketLocked allocOk init).1 = .nothing ∧
      (h.processPacketLocked allocOk init).2 = h.setChannel (h.slotFor init.cid) init.opened ∧
      (h.processPacketLocked allocOk init).2.Holds (h.slotFor init.cid) init []) := by
  rw [process_init allocOk hp hlen]
  have hch : init.opened.unmarked = assemble init [] := by
    rw [opened_eq]
    rfl
  exact settle_assembled allocOk hch (h.slotFor_low init.cid)

/-- A message goes on. -/
theorem process_continue (allocOk : Bool) {i : Fin maxChannels} (hold : h.Holds i init conts) {p : Packet}
    (hcid : p.cid = init.cid) (hp : p.starts = false) (hseq : p.header = .ofNat conts.length) :
    (contCount init.expected ≤ (conts ++ [p]).length ∧ (h.processPacketLocked allocOk p).1 =
        (if allocOk then .complete init.cmd (carried init (conts ++ [p])) else .refused hidErrOther) ∧
      (h.processPacketLocked allocOk p).2 = h.setChannel i .zero) ∨
    ((conts ++ [p]).length < contCount init.expected ∧ (h.processPacketLocked allocOk p).1 = .nothing ∧
      (h.processPacketLocked allocOk p).2 = h.setChannel i (p.extend (h.channels i)) ∧
      (h.processPacketLocked allocOk p).2.Holds i init (conts ++ [p])) := by
  obtain ⟨hfind, hch⟩ := hold
  have hnext : (h.channels i).nextSeq = .ofNat conts.length := congrArg Channel.nextSeq hch
  rw [process_cont allocOk hp (by rw [hcid]; exact hfind) (by rw [hseq, hnext])]
  refine settle_assembled allocOk ?_ (find_eq_some.mp hfind).2
  rw [unmarked_extend, hch, extend_assemble]

/-- A mark changes nothing else. -/
theorem mark_unmarked (h : Hid) (j i : Fin maxChannels) :
    ((h.setChannel j { h.channels j with cancelled := true }).channels i).unmarked = (h.channels i).unmarked := by
  by_cases hij : i = j
  · subst hij
    rw [setChannel_self]
    rfl
  · rw [setChannel_of_ne hij]

namespace Holds

variable {h' : Hid} {i : Fin maxChannels}

/-- It is only that channel that matters, and that it is still the one found. -/
theorem frame (hold : h.Holds i init conts) (hsame : (h'.channels i).unmarked = (h.channels i).unmarked)
    (hlow : ∀ j < i, (h'.channels j).inUse = true → (h'.channels j).cid ≠ init.cid) : h'.Holds i init conts := by
  rw [hold.2] at hsame
  exact ⟨find_eq_some.mpr ⟨⟨congrArg Channel.inUse hsame, congrArg Channel.cid hsame⟩, hlow⟩, hsame⟩

theorem setChannel (hold : h.Holds i init conts) {j : Fin maxChannels} {ch : Channel}
    (hchannels : h'.channels = (h.setChannel j ch).channels) (hne : i ≠ j)
    (hj : j < i → ch.inUse = true → ch.cid ≠ init.cid) : h'.Holds i init conts := by
  refine hold.frame (by rw [hchannels, setChannel_of_ne hne]) fun k hk => ?_
  rw [hchannels]
  by_cases hkj : k = j
  · subst hkj
    rw [setChannel_self]
    exact hj hk
  · rw [setChannel_of_ne hkj]
    exact (find_eq_some.mp hold.1).2 k hk

theorem mark (hold : h.Holds i init conts) (j : Fin maxChannels) :
    (h.setChannel j { h.channels j with cancelled := true }).Holds i init conts := by
  refine hold.frame (h.mark_unmarked j i) fun k hk => ?_
  obtain ⟨huse, hcid, _⟩ := Channel.of_unmarked (h.mark_unmarked j k)
  rw [huse, hcid]
  exact (find_eq_some.mp hold.1).2 k hk

theorem cid_eq (hold : h.Holds i init conts) : (h.channels i).cid = init.cid := congrArg Channel.cid hold.2

theorem inUse (hold : h.Holds i init conts) : (h.channels i).inUse = true := congrArg Channel.inUse hold.2

/-- While packets are missing the message is unfinished. -/
theorem unfinished (hold : h.Holds i init conts) (hpart : conts.length < contCount init.expected) :
    h.unfinished init.cid = some i := by
  have hexp : (h.channels i).expectedLen = init.expected := congrArg Channel.expectedLen hold.2
  have hpos : 0 < init.expected := by
    rw [contCount] at hpart
    omega
  simp [Hid.unfinished, hold.1, hexp, hpos]

end Holds

end Hid

end AbkFido
