/-
`readRequest`: the packets of one request, which the driver takes as one message.

The relay and the driver count on their own when a message is complete. What
the relay reads is an initialization packet and the continuation packets of
the message it begins, and no frame after them (`readRequest_iff`). So the
driver dispatches one message for a request, with its last packet.
-/
import AbkFido.Lan.Server
import AbkFido.Fragment

namespace AbkFido

open Layout Codec

/-! ## The fields of a packet -/

namespace Packet

theorem getD_header (p : Packet) : p.toList.getD 4 0 = p.header := by
  show _ = (p.toList.drop 4).headD 0
  simp [List.headD_eq_head?_getD, List.getD_eq_getElem?_getD]

theorem getD_expected (p : Packet) : (p.toList.getD 5 0).toNat * 256 + (p.toList.getD 6 0).toNat = p.expected := by
  have hhigh := (p.toList.getD 5 0).toNat_lt
  have hlow := (p.toList.getD 6 0).toNat_lt
  have hdec : p.expected =
      (UInt16.ofNat (256 * ((p.toList.drop 5).getD 0 0).toNat + ((p.toList.drop 5).getD 1 0).toNat)).toNat := rfl
  have hfive : (p.toList.drop 5).getD 0 0 = p.toList.getD 5 0 := by simp [List.getD_eq_getElem?_getD]
  have hsix : (p.toList.drop 5).getD 1 0 = p.toList.getD 6 0 := by simp [List.getD_eq_getElem?_getD]
  rw [hdec, hfive, hsix, UInt16.toNat_ofNat']
  omega

theorem take_cid (p : Packet) : p.toList.take 4 = u32be.enc p.cid := (u32be.enc_dec p.toList (by simp [u32be])).symm

theorem take_eq_iff (p q : Packet) : p.toList.take 4 = q.toList.take 4 ↔ p.cid = q.cid := by
  rw [take_cid, take_cid, u32be.enc_injective.eq_iff]

theorem and_eq_zero_iff (p : Packet) : p.header &&& 0x80 = 0 ↔ p.starts = false := by simp [starts]

end Packet

/-! ## The loop -/

namespace RelayRequest

/-- The loop of `readRequest`: the packets, and the frames it leaves. `none`
where it throws; for a frame `readFrame` may do so too, or return `null`. -/
def readAll (r : RelayRequest) : List (Option (List UInt8)) → Option (List (List UInt8) × List (Option (List UInt8)))
  | [] => if r.remaining = 0 then some (r.packets, []) else none
  | frame :: frames =>
    if r.remaining = 0 then some (r.packets, frame :: frames)
    else frame.bind fun packet => (r.read packet).bind fun r => r.readAll frames

def readRequest (first : List UInt8) (frames : List (Option (List UInt8))) :
    Option (List (List UInt8) × List (Option (List UInt8))) :=
  (start first).bind fun r => r.readAll frames

/-- What the relay is at after these packets. -/
def after (init : Packet) (conts : List Packet) : RelayRequest where
  packets := (init :: conts).map List.Vector.toList
  remaining := init.expected - (57 + 59 * conts.length)
  sequence := conts.length

/-- A frame the relay gets. -/
def frame (p : Packet) : Option (List UInt8) := some p.toList

variable {init p : Packet} {conts : List Packet} {first packet : List UInt8} {r : RelayRequest}
  {frames rest : List (Option (List UInt8))} {packets : List (List UInt8)}

theorem contCount_le {len : Nat} (h : len ≤ maxMsg) : contCount len ≤ 128 := by
  unfold maxMsg at h
  unfold contCount
  omega

theorem remaining_after : (after init conts).remaining = 0 ↔ contCount init.expected ≤ conts.length := by
  show init.expected - (57 + 59 * conts.length) = 0 ↔ (init.expected + 1) / 59 ≤ conts.length
  omega

theorem start_iff : start init.toList = some r ↔ init.starts = true ∧ init.expected ≤ maxMsg ∧ r = after init [] := by
  unfold start
  simp only [Packet.getD_header, Packet.getD_expected, Packet.and_eq_zero_iff]
  cases init.starts with
  | false => simp
  | true =>
    by_cases hle : init.expected ≤ maxMsg
    · have hremaining : init.expected - min init.expected 57 = init.expected - (57 + 59 * ([] : List Packet).length) := by
        rw [List.length_nil]
        omega
      rw [if_neg (by simp), if_neg (by unfold maxMsg at hle; omega), hremaining]
      simp [hle, after, eq_comm]
    · rw [if_neg (by simp), if_pos (by unfold maxMsg at hle; omega)]
      simp [hle]

/-- The packet that is read is the next one of the message. -/
theorem read_iff (hlt : conts.length < 128) : read packet (after init conts) = some r ↔
    ∃ p : Packet, packet = p.toList ∧ (p.cid = init.cid ∧ p.starts = false ∧ p.header = .ofNat conts.length) ∧
      r = after init (conts ++ [p]) := by
  unfold read
  by_cases hlen : packet.length = lanReportLen
  · obtain ⟨p, rfl⟩ : ∃ p : Packet, packet = p.toList := ⟨⟨packet, hlen⟩, rfl⟩
    have hnext : (p.header = .ofNat conts.length) ↔ p.header.toNat = conts.length := by
      rw [← UInt8.toNat_inj, UInt8.toNat_ofNat', Nat.mod_eq_of_lt (by omega)]
    have hafter : (⟨(after init conts).packets ++ [p.toList],
        (after init conts).remaining - min (after init conts).remaining 59, (after init conts).sequence + 1⟩ : RelayRequest) =
        after init (conts ++ [p]) := by
      simp only [after, List.map_append, List.map_cons, List.map_nil, List.cons_append, List.length_append, List.length_singleton,
        RelayRequest.mk.injEq, true_and, and_true]
      omega
    have hcid : some (p.toList.take 4) ≠ (after init conts).packets.head?.map (List.take 4) ↔ p.cid ≠ init.cid := by
      rw [← not_iff_not, not_not, not_not, ← p.take_eq_iff init]
      simp [after]
    rw [if_neg (not_not_intro hlen), hafter]
    simp only [hcid, p.getD_header, ne_eq, Packet.and_eq_zero_iff]
    constructor
    · intro h
      split at h
      · cases h
      next hsame =>
      split at h
      · cases h
      next hgood =>
      rw [not_or, not_not, not_not] at hgood
      exact ⟨p, rfl, ⟨not_not.mp hsame, hgood.1, hnext.mpr hgood.2⟩, (Option.some.inj h).symm⟩
    · rintro ⟨q, hq, ⟨hsame, hstarts, hseq⟩, rfl⟩
      obtain rfl : p = q := List.Vector.toList_injective hq
      rw [if_neg (not_not_intro hsame), if_neg]
      rw [not_or, not_not, not_not]
      exact ⟨hstarts, hnext.mp hseq⟩
  · rw [if_pos hlen]
    constructor
    · nofun
    · rintro ⟨p, rfl, _⟩
      exact absurd p.toList_length hlen

theorem readAll_done (h : r.remaining = 0) : r.readAll frames = some (r.packets, frames) := by
  cases frames with
  | nil => rw [readAll, if_pos h]
  | cons f frames => rw [readAll, if_pos h]

/-- What the relay reads from some packets on are those that are missing. -/
theorem readAll_packets (hle : init.expected ≤ maxMsg) (hmost : conts.length ≤ contCount init.expected)
    (hnum : Numbered init.cid conts) (h : (after init conts).readAll frames = some (packets, rest)) :
    ∃ more, frames = more.map frame ++ rest ∧ packets = (init :: (conts ++ more)).map List.Vector.toList ∧
      Numbered init.cid (conts ++ more) ∧ (conts ++ more).length = contCount init.expected := by
  induction frames generalizing conts with
  | nil =>
    by_cases hall : contCount init.expected ≤ conts.length
    · rw [readAll_done (remaining_after.mpr hall)] at h
      cases h
      refine ⟨[], rfl, ?_⟩
      rw [List.append_nil]
      exact ⟨rfl, hnum, Nat.le_antisymm hmost hall⟩
    · rw [readAll, if_neg (remaining_after.not.mpr hall)] at h
      cases h
  | cons f frames ih =>
    by_cases hall : contCount init.expected ≤ conts.length
    · rw [readAll_done (remaining_after.mpr hall)] at h
      cases h
      refine ⟨[], rfl, ?_⟩
      rw [List.append_nil]
      exact ⟨rfl, hnum, Nat.le_antisymm hmost hall⟩
    · rw [readAll, if_neg (remaining_after.not.mpr hall)] at h
      obtain ⟨packet, rfl, hpacket⟩ := Option.bind_eq_some_iff.mp h
      obtain ⟨r, hread, hr⟩ := Option.bind_eq_some_iff.mp hpacket
      obtain ⟨p, rfl, hp, rfl⟩ := (read_iff (lt_of_lt_of_le (Nat.lt_of_not_le hall) (contCount_le hle))).mp hread
      have hnext : (conts ++ [p]).length ≤ contCount init.expected := by
        rw [List.length_append, List.length_singleton]
        omega
      obtain ⟨more, rfl, hpackets, hnum, hlen⟩ := ih hnext (numbered_concat.mpr ⟨hnum, hp⟩) hr
      rw [← List.append_cons] at hpackets hnum hlen
      exact ⟨p :: more, rfl, hpackets, hnum, hlen⟩

/-- The relay reads the packets that are missing, and no frame after them. -/
theorem readAll_append {more : List Packet} (hle : init.expected ≤ maxMsg) (hnum : Numbered init.cid (conts ++ more))
    (hlen : (conts ++ more).length = contCount init.expected) (rest : List (Option (List UInt8))) :
    (after init conts).readAll (more.map frame ++ rest) = some ((init :: (conts ++ more)).map List.Vector.toList, rest) := by
  induction more generalizing conts with
  | nil =>
    rw [List.append_nil] at hlen ⊢
    exact readAll_done (remaining_after.mpr (Nat.le_of_eq hlen.symm))
  | cons p more ih =>
    have hlt : conts.length < contCount init.expected := by
      rw [← hlen, List.length_append, List.length_cons]
      omega
    rw [List.append_cons] at hnum hlen ⊢
    have hread : read p.toList (after init conts) = some (after init (conts ++ [p])) :=
      (read_iff (lt_of_lt_of_le hlt (contCount_le hle))).mpr ⟨p, rfl, (numbered_concat.mp hnum.of_append).2, rfl⟩
    rw [List.map_cons, List.cons_append, readAll, if_neg (remaining_after.not.mpr (Nat.not_le.mpr hlt)), frame, Option.bind_some,
      hread, Option.bind_some]
    exact ih hnum hlen

/-- **What the relay reads are the packets of a message.** -/
theorem readRequest_iff : readRequest init.toList frames = some (packets, rest) ↔
    ∃ conts m, Msg.CarriedBy m init conts ∧ m.data.length ≤ maxMsg ∧ frames = conts.map frame ++ rest ∧
      packets = (init :: conts).map List.Vector.toList := by
  constructor
  · intro h
    obtain ⟨r, hstart, hr⟩ := Option.bind_eq_some_iff.mp h
    obtain ⟨hstarts, hle, rfl⟩ := start_iff.mp hstart
    obtain ⟨conts, rfl, rfl, hnum, hlen⟩ := readAll_packets hle (Nat.zero_le _) (numbered_nil _) hr
    have hm := carriedBy_of_complete hstarts hnum hlen
    exact ⟨conts, _, hm, by rw [← hm.expected]; exact hle, rfl, rfl⟩
  · rintro ⟨conts, m, hm, hle, rfl, rfl⟩
    have hle : init.expected ≤ maxMsg := by rw [hm.expected]; exact hle
    rw [readRequest, start_iff.mpr ⟨hm.starts, hle, rfl⟩, Option.bind_some]
    refine readAll_append hle ?_ ?_ rest
    · rw [hm.cid]
      exact hm.numbered
    · rw [hm.expected]
      exact hm.length

/-! ## What the driver makes of a request -/

/-- **A request is one message.** What the relay reads dispatches once, with
its last packet, and it reads all the packets of a message and nothing more. -/
theorem request_one_message :
    (∀ (first : List UInt8) (frames rest : List (Option (List UInt8))) (packets : List (List UInt8)),
      first.length = lanReportLen → readRequest first frames = some (packets, rest) →
      ∃ (init : Packet) (conts : List Packet) (m : Msg), init.toList = first ∧
        packets = (init :: conts).map List.Vector.toList ∧ m.CarriedBy init conts ∧ Dispatches m (init :: conts)) ∧
    ∀ (m : Msg) (init : Packet) (conts : List Packet) (rest : List (Option (List UInt8))),
      m.CarriedBy init conts → m.data.length ≤ maxMsg →
      readRequest init.toList (conts.map frame ++ rest) = some ((init :: conts).map List.Vector.toList, rest) := by
  constructor
  · intro first frames rest packets hfirst h
    obtain ⟨init, rfl⟩ : ∃ init : Packet, init.toList = first := ⟨⟨first, hfirst⟩, rfl⟩
    obtain ⟨conts, m, hm, hle, rfl, rfl⟩ := readRequest_iff.mp h
    exact ⟨init, conts, m, rfl, rfl, hm, dispatches_carriedBy hm hle⟩
  · intro m init conts rest hm hle
    exact readRequest_iff.mpr ⟨conts, m, hm, hle, rfl, rfl⟩

/-- A PING in four packets, before a frame of the next request. -/
theorem request_ping : ∃ (init : Packet) (conts : List Packet), conts.length = 3 ∧
    init :: conts = hidPackets 7 hidPing (.replicate 200 0xab) ∧
    readRequest init.toList (conts.map frame ++ [some [0]]) = some ((init :: conts).map List.Vector.toList, [some [0]]) ∧
    Dispatches ⟨7, hidPing, .replicate 200 0xab⟩ (init :: conts) := by
  have hsize : (List.replicate 200 (0xab : UInt8)).length = 200 := List.length_replicate
  have hle : (List.replicate 200 (0xab : UInt8)).length ≤ maxMsg := by rw [hsize]; decide
  have hm := carriedBy_hidPackets 7 (by decide : hidPing < 0x80) hle
  obtain ⟨hdispatches, hreads⟩ := request_one_message
  have hread := hreads _ _ _ [some [0]] hm hle
  obtain ⟨init, conts, m, -, hpackets, hm', hd⟩ := hdispatches _ _ _ _ (List.Vector.toList_length _) hread
  -- The packets are the ones that were read, so the message is the one they carry.
  obtain ⟨rfl, rfl⟩ := List.cons.inj (List.map_injective_iff.mpr List.Vector.toList_injective hpackets)
  obtain rfl : m = ⟨7, hidPing, .replicate 200 0xab⟩ := hm'.msg_eq.symm.trans hm.msg_eq
  exact ⟨_, _, hm.length.trans (by rw [hsize]; rfl), rfl, hread, hd⟩

end RelayRequest

end AbkFido
