/-
What is sent as packets and what comes back when they are received.

The packets of a message carry it (`carriedBy_hidPackets`), and receiving all of
them dispatches it (`feed_carriedBy`). But no one looks whether they find room
in the queue, and of the largest messages the last packets do not: past 1886
bytes the message is never complete (`feed_sent_iff`).
-/
import AbkFido.Message

namespace AbkFido

open Layout Codec

/-- The messages that packets dispatch, received one after the other.
`allocOk` tells of each packet whether memory is left for a message. -/
def Hid.feed (h : Hid) (allocOk : Nat → Bool) : List Packet → List Msg
  | [] => []
  | p :: ps =>
    let (r, h) := h.processPacketLocked (allocOk 0) p
    let ms := h.feed (fun n => allocOk (n + 1)) ps
    match r with
    | .complete cmd data => ⟨p.cid, cmd, data⟩ :: ms
    | _ => ms

/-! ## Sending -/

theorem contPackets_cons (cid : UInt32) (seq : UInt8) {rest : List UInt8} (h : rest ≠ []) :
    contPackets cid seq rest = contPacket cid seq (rest.take 59) :: contPackets cid (seq + 1) (rest.drop 59) := by
  rw [contPackets, if_neg h]

@[simp] theorem contPackets_nil (cid : UInt32) (seq : UInt8) : contPackets cid seq [] = [] := by
  rw [contPackets, if_pos rfl]

theorem length_contPackets (cid : UInt32) (seq : UInt8) (rest : List UInt8) :
    (contPackets cid seq rest).length = (rest.length + 58) / 59 := by
  induction seq, rest using contPackets.induct with
  | case1 => simp
  | case2 seq rest hne ih =>
    rw [contPackets_cons _ _ hne, List.length_cons, ih, List.length_drop]
    have hpos := List.length_pos_iff.mpr hne
    omega

theorem contPackets_numbered {cid : UInt32} {seq : UInt8} {rest : List UInt8} {k : Nat} {p : Packet}
    (hlt : seq.toNat + k < 128) (h : (contPackets cid seq rest)[k]? = some p) :
    p.cid = cid ∧ p.starts = false ∧ p.header = seq + .ofNat k := by
  induction seq, rest using contPackets.induct generalizing k with
  | case1 => simp at h
  | case2 seq rest hne ih =>
    rw [contPackets_cons _ _ hne] at h
    cases k with
    | zero =>
      cases h
      refine ⟨contPacket_cid .., ?_, by simp⟩
      rw [Packet.not_starts_iff, contPacket_header, UInt8.lt_iff_toNat_lt]
      exact hlt
    | succ k =>
      rw [List.getElem?_cons_succ] at h
      have hseq : (seq + 1).toNat = seq.toNat + 1 := by
        rw [UInt8.toNat_add]
        exact Nat.mod_eq_of_lt (show seq.toNat + 1 < 256 by omega)
      obtain ⟨hcid, hp, hheader⟩ := ih (by omega) h
      refine ⟨hcid, hp, ?_⟩
      rw [hheader, UInt8.ofNat_add]
      ac_rfl

/-- A chunk is only filled up with zeros if nothing comes after it. -/
theorem prefix_filled {n : Nat} {payload tail : List UInt8} (h : payload.drop n <+: tail) :
    payload <+: ((bytes n).dec (payload.take n)).toList ++ tail := by
  rw [dec_bytes_toList (List.length_take_le n payload)]
  by_cases hlast : payload.length ≤ n
  · rw [List.take_of_length_le hlast, List.append_assoc]
    exact List.prefix_append ..
  · obtain ⟨zeros, rfl⟩ := h
    rw [List.length_take, Nat.min_eq_left (by omega), Nat.sub_self, List.replicate_zero, List.append_nil,
      ← List.append_assoc, List.take_append_drop]
    exact List.prefix_append ..

theorem prefix_contPackets (cid : UInt32) (seq : UInt8) (rest : List UInt8) :
    rest <+: (contPackets cid seq rest).flatMap Packet.contData := by
  induction seq, rest using contPackets.induct with
  | case1 => simp
  | case2 seq rest hne ih =>
    rw [contPackets_cons _ _ hne, List.flatMap_cons, contPacket_contData]
    exact prefix_filled ih

/-- **The packets of a message carry it.** -/
theorem carriedBy_hidPackets (cid : UInt32) {cmd : UInt8} {payload : List UInt8} (hcmd : cmd < 0x80)
    (hlen : payload.length ≤ maxMsg) :
    Msg.CarriedBy ⟨cid, cmd, payload⟩ (initPacket cid cmd payload.length (payload.take 57))
      (contPackets cid 0 (payload.drop 57)) where
  starts := initPacket_starts ..
  cid := initPacket_cid ..
  cmd := initPacket_cmd _ _ _ hcmd
  expected := initPacket_expected _ _ _ (Nat.lt_of_le_of_lt hlen (by decide))
  numbered k p h := by
    have hk := (List.getElem?_eq_some_iff.mp h).1
    rw [length_contPackets, List.length_drop] at hk
    unfold maxMsg at hlen
    have hp : p.cid = cid ∧ p.starts = false ∧ p.header = 0 + .ofNat k := contPackets_numbered (by simp; omega) h
    simpa using hp
  length := by
    rw [length_contPackets, List.length_drop, contCount]
    show (payload.length - 57 + 58) / 59 = (payload.length + 1) / 59
    omega
  data := by
    have hexp := initPacket_expected cid cmd (payload.take 57) (Nat.lt_of_le_of_lt hlen (by decide : maxMsg < 65536))
    rw [carried, hexp, initPacket_initData]
    exact (List.prefix_iff_eq_take.mp (prefix_filled (prefix_contPackets cid 0 _))).symm

/-! ## Receiving -/

section
variable {h : Hid} {p init : Packet} {conts rest : List Packet} {allocOk : Nat → Bool}

theorem feed_nothing (hr : (h.processPacketLocked (allocOk 0) p).1 = .nothing) :
    h.feed allocOk (p :: rest) = (h.processPacketLocked (allocOk 0) p).2.feed (fun n => allocOk (n + 1)) rest := by
  simp only [Hid.feed, hr]

theorem feed_last {cmd err : UInt8} {data : List UInt8}
    (hr : (h.processPacketLocked (allocOk 0) p).1 = if allocOk 0 then .complete cmd data else .refused err) :
    h.feed allocOk [p] = if allocOk 0 then [⟨p.cid, cmd, data⟩] else [] := by
  simp only [Hid.feed, hr]
  cases allocOk 0 <;> rfl

/-- From an unfinished message on, the rest of its packets dispatch it if
they are all there. -/
theorem feed_holds {i : Fin maxChannels} (hold : h.Holds i init conts) (hnum : Numbered init.cid (conts ++ rest))
    (hpart : conts.length < contCount init.expected) (hmost : (conts ++ rest).length ≤ contCount init.expected) :
    h.feed allocOk rest =
      if (conts ++ rest).length = contCount init.expected ∧ allocOk (rest.length - 1) then
        [⟨init.cid, init.cmd, carried init (conts ++ rest)⟩]
      else [] := by
  induction rest generalizing h conts allocOk with
  | nil =>
    rw [List.append_nil, if_neg (by omega)]
    rfl
  | cons p rest ih =>
    rw [List.append_cons] at hnum hmost ⊢
    obtain ⟨_, hcid, hp, hseq⟩ := numbered_concat.mp hnum.of_append
    rcases h.process_continue (allocOk 0) hold hcid hp hseq with ⟨hall, hr, _⟩ | ⟨hmore, hr, _, hold'⟩
    · have hlast : rest = [] := by
        rw [List.length_append] at hmost
        exact List.length_eq_zero_iff.mp (by omega)
      subst hlast
      rw [List.append_nil] at hmost ⊢
      rw [feed_last hr, hcid]
      simp [Nat.le_antisymm hmost hall]
    · rw [feed_nothing hr, ih hold' hnum hmore hmost]
      cases rest with
      | nil => rw [if_neg (by simp at hmore ⊢; omega), if_neg (by simp at hmore ⊢; omega)]
      | cons q rest => rfl

theorem Msg.CarriedBy.msg_eq {m : Msg} (hm : m.CarriedBy init conts) : (⟨init.cid, init.cmd, carried init conts⟩ : Msg) = m := by
  rw [hm.cid, hm.cmd, hm.data]

/-- **Receiving packets of a message dispatches it if they are all there.** -/
theorem feed_carriedBy {m : Msg} {more : List Packet} (hm : m.CarriedBy init (conts ++ more)) (hlen : m.data.length ≤ maxMsg)
    (h : Hid) (allocOk : Nat → Bool) :
    h.feed allocOk (init :: conts) = if more = [] ∧ allocOk conts.length then [m] else [] := by
  have hcount : conts.length + more.length = contCount init.expected := by
    rw [← List.length_append, hm.length, hm.expected]
  rcases h.process_begin (allocOk 0) hm.starts (by rw [hm.expected]; exact hlen) with ⟨hall, hr, _⟩ | ⟨hmore, hr, _, hold⟩
  · have hconts : conts = [] := List.length_eq_zero_iff.mp (by omega)
    have hnil : more = [] := List.length_eq_zero_iff.mp (by omega)
    subst hconts hnil
    have hmsg : (⟨init.cid, init.cmd, carried init []⟩ : Msg) = m := hm.msg_eq
    rw [feed_last hr, hmsg]
    simp
  · have hnum : Numbered init.cid ([] ++ conts) := by rw [hm.cid]; exact hm.numbered.of_append
    rw [feed_nothing hr, feed_holds hold hnum hmore (by simp; omega), List.nil_append]
    by_cases hnil : more = []
    · subst hnil
      rw [List.append_nil] at hm
      have hlast : conts.length - 1 + 1 = conts.length := by
        rw [List.length_nil] at hcount
        omega
      rw [hm.msg_eq, hlast]
      simp [← hcount]
    · have hpos := List.length_pos_iff.mpr hnil
      rw [if_neg (by omega), if_neg (by simp [hnil])]

/-- The driver dispatches a message with the last of these packets, if it has
memory for it, and nothing before. -/
def Dispatches (m : Msg) (packets : List Packet) : Prop :=
  ∀ (h : Hid) (allocOk : Nat → Bool),
    (∀ earlier, earlier <+: packets → earlier ≠ packets → h.feed allocOk earlier = []) ∧
    h.feed allocOk packets = if allocOk (packets.length - 1) then [m] else []

theorem dispatches_carriedBy {m : Msg} (hm : m.CarriedBy init conts) (hle : m.data.length ≤ maxMsg) :
    Dispatches m (init :: conts) := by
  intro h allocOk
  constructor
  · intro earlier hpre hne
    cases earlier with
    | nil => rfl
    | cons q earlier =>
      obtain ⟨rfl, more, rfl⟩ := List.cons_prefix_cons.mp hpre
      have hmore : more ≠ [] := by
        rintro rfl
        rw [List.append_nil] at hne
        exact hne rfl
      rw [feed_carriedBy hm hle, if_neg fun hall => hmore hall.1]
  · rw [← List.append_nil conts] at hm
    rw [feed_carriedBy hm hle]
    simp

end

/-! ## Both -/

/-- The most bytes whose packets find room in an empty queue. -/
def maxQueued : Nat := 57 + 59 * (queueDepth - 1)

section
variable (cid : UInt32) {cmd : UInt8} {payload : List UInt8} {tx : RingBuffer Packet queueDepth} (h : Hid)
  (allocOk : Nat → Bool)

/-- What is received of a message that was sent into an empty queue. -/
theorem feed_sent (hcmd : cmd < 0x80) (hlen : payload.length ≤ maxMsg) (htx : tx.toList = []) :
    h.feed allocOk (sendHidMessage cid cmd payload tx).toList =
      if payload.length ≤ maxQueued ∧ allocOk (contCount payload.length) then [⟨cid, cmd, payload⟩] else [] := by
  have hm := carriedBy_hidPackets cid hcmd hlen
  have hsent : (sendHidMessage cid cmd payload tx).toList = initPacket cid cmd payload.length (payload.take 57) ::
      (contPackets cid 0 (payload.drop 57)).take 31 := by
    rw [sendHidMessage, RingBuffer.toList_pushAll, htx]
    rfl
  have hcount : (contPackets cid 0 (payload.drop 57)).length = contCount payload.length := hm.length
  have hroom : (contPackets cid 0 (payload.drop 57)).drop 31 = [] ↔ payload.length ≤ maxQueued := by
    rw [List.drop_eq_nil_iff, hcount, contCount]
    show (payload.length + 1) / 59 ≤ 31 ↔ payload.length ≤ 1886
    omega
  rw [← List.take_append_drop 31 (contPackets cid 0 (payload.drop 57))] at hm
  rw [hsent, feed_carriedBy hm hlen, List.length_take, hcount]
  simp only [hroom]
  by_cases hfit : payload.length ≤ maxQueued
  · have hle : contCount payload.length ≤ 31 := by
      rw [← hcount]
      exact List.drop_eq_nil_iff.mp (hroom.mpr hfit)
    rw [Nat.min_eq_right hle]
  · rw [if_neg (fun hall => hfit hall.1), if_neg (fun hall => hfit hall.1)]

/-- **A message is dispatched as it was sent exactly if its packets found
room and memory is left for it.** -/
theorem feed_sent_iff (hcmd : cmd < 0x80) (hlen : payload.length ≤ maxMsg) (htx : tx.toList = []) :
    h.feed allocOk (sendHidMessage cid cmd payload tx).toList = [⟨cid, cmd, payload⟩] ↔
      payload.length ≤ maxQueued ∧ allocOk (contCount payload.length) = true := by
  rw [feed_sent cid h allocOk hcmd hlen htx]
  simp

end

/-- 1886 bytes come back. -/
theorem feed_sent_most : Hid.boot.feed (fun _ => true)
    (sendHidMessage 7 hidPing (List.replicate 1886 0x5a) (.empty (initPacket 0 0 0 []))).toList =
      [⟨7, hidPing, List.replicate 1886 0x5a⟩] := by
  refine (feed_sent_iff 7 .boot (fun _ => true) (by decide) ?_ rfl).mpr ⟨?_, rfl⟩
  · rw [List.length_replicate]
    decide
  · rw [List.length_replicate]
    decide

/-- 1887 do not, and nothing else does. -/
theorem feed_sent_more : (List.replicate 1887 (0x5a : UInt8)).length ≤ maxMsg ∧ Hid.boot.freeChannel.isSome = true ∧
    Hid.boot.feed (fun _ => true)
      (sendHidMessage 7 hidPing (List.replicate 1887 0x5a) (.empty (initPacket 0 0 0 []))).toList = [] := by
  have hlen : (List.replicate 1887 (0x5a : UInt8)).length ≤ maxMsg := by
    rw [List.length_replicate]
    decide
  refine ⟨hlen, by decide, ?_⟩
  rw [feed_sent 7 .boot (fun _ => true) (by decide) hlen rfl, List.length_replicate]
  exact if_neg (by decide)

end AbkFido
