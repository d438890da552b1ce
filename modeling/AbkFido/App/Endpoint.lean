/-
`CtapHidEndpoint`: messages to and from the driver, for the app's own use.

`writeMessage` cuts a message as the driver does (`writeMessage_eq`). What
`transceive` has collected of a response is what a channel of the driver would
hold of it (`collect_carried`), whatever is skipped in between.
-/
import AbkFido.Fragment

namespace AbkFido

open Layout Codec

namespace CtapHidEndpoint

/-! ## Writing -/

/-- A packet of zeros with these bytes put into its beginning. -/
def putPacket (cid : UInt32) (head data : List UInt8) : Packet := (bytes 64).dec (u32be.enc cid ++ (head ++ data))

/-- The loop of `writeMessage`, with `seq` packets written. -/
def writeRest (cid : UInt32) (seq : Nat) (rest : List UInt8) : List Packet :=
  if rest = [] then []
  else putPacket cid [.ofNat seq] (rest.take 59) :: writeRest cid (seq + 1) (rest.drop 59)
termination_by rest.length
decreasing_by
  have := List.length_pos_iff.mpr ‹rest ≠ []›
  simp only [List.length_drop]
  omega

/-- The packets that are written. An `Int` is its 32 bits. -/
def writeMessage (cid command : UInt32) (payload : List UInt8) : List Packet :=
  putPacket cid [(command ||| 0x80).toUInt8, .ofNat (payload.length / 256), .ofNat payload.length] (payload.take 57) ::
    writeRest cid 0 (payload.drop 57)

/-! ## Reading -/

/-- `expected` and `response` of `transceive`; nothing is expected before the
first packet of the response. -/
structure Reply where
  expected : Option Nat
  response : List UInt8

/-- Whether an initialization packet on the cid begins the response. -/
def accepts (cid command : UInt32) (payload : List UInt8) (packet : Packet) : Bool :=
  if packet.cmd = hidKeepalive then false
  else if packet.cmd.toUInt32 ≠ command ∧ packet.cmd ≠ hidError then false
  else if cid = cidBroadcast ∧ command = hidInit.toUInt32 then
    (8 ≤ payload.length ∧ packet.initData.take 8 = payload.take 8) ∨ packet.cmd = hidError
  else true

/-- What a packet makes of the reply. -/
def readPacket (cid command : UInt32) (payload : List UInt8) (packet : Packet) (r : Reply) : Reply :=
  if packet.cid ≠ cid then r
  else if packet.header &&& 0x80 ≠ 0 then
    if accepts cid command payload packet then ⟨some packet.expected, packet.initData.take (min packet.expected 57)⟩ else r
  else match r.expected with
    | some expected => { r with response := r.response ++ packet.contData.take (min (expected - r.response.length) 59) }
    | none => r

/-- The response once it is complete. -/
def Reply.complete (r : Reply) : Option (List UInt8) := r.expected.bind fun expected =>
  if expected ≤ r.response.length then some (r.response.take expected) else none

def collect (cid command : UInt32) (payload : List UInt8) : Reply → List Packet → Option (List UInt8)
  | _, [] => none
  | r, packet :: packets =>
    let r := readPacket cid command payload packet r
    match r.complete with
    | some response => some response
    | none => collect cid command payload r packets

/-- `transceive` after it has written, with the packets it reads before the
deadline. `none` is the timeout. -/
def transceive (cid command : UInt32) (payload : List UInt8) (packets : List Packet) : Option (List UInt8) :=
  collect cid command payload ⟨none, []⟩ packets

/-! ## What is written -/

theorem putPacket_eq (cid : UInt32) (head data : List UInt8) (n : Nat) (hlen : head.length + n = 60) (hdata : data.length ≤ n) :
    (putPacket cid head data).toList = u32be.enc cid ++ (head ++ ((bytes n).dec data).toList) := by
  have htotal : (u32be.enc cid ++ (head ++ data)).length = 64 - (n - data.length) := by
    rw [List.length_append, List.length_append, u32be.length_enc]
    show 4 + (head.length + data.length) = 64 - (n - data.length)
    omega
  rw [putPacket, dec_bytes_toList (by omega), dec_bytes_toList hdata, htotal]
  have hfill : 64 - (64 - (n - data.length)) = n - data.length := by omega
  rw [hfill]
  simp only [List.append_assoc]

theorem putPacket_cont (cid : UInt32) (seq : Nat) (rest : List UInt8) :
    putPacket cid [.ofNat seq] (rest.take 59) = contPacket cid (.ofNat seq) (rest.take 59) :=
  List.Vector.toList_injective (putPacket_eq cid [.ofNat seq] (rest.take 59) 59 rfl (List.length_take_le ..))

theorem writeRest_eq (cid : UInt32) (seq : Nat) (rest : List UInt8) :
    writeRest cid seq rest = contPackets cid (.ofNat seq) rest := by
  induction seq, rest using writeRest.induct with
  | case1 seq => rw [writeRest, if_pos rfl, contPackets_nil]
  | case2 seq rest hne ih =>
    rw [writeRest, if_neg hne, contPackets_cons _ _ hne, ih, putPacket_cont, UInt8.ofNat_add]
    rfl

/-- **A message is cut as the driver cuts it.** -/
theorem writeMessage_eq (cid : UInt32) (cmd : UInt8) (payload : List UInt8) :
    writeMessage cid cmd.toUInt32 payload = hidPackets cid cmd payload := by
  have hcmd : (cmd.toUInt32 ||| 0x80).toUInt8 = cmd ||| 0x80 := by simp
  have hlen : u16be.enc (.ofNat payload.length) = [.ofNat (payload.length / 256), .ofNat payload.length] := by
    show [UInt8.ofNat ((UInt16.ofNat payload.length).toNat / 256), UInt8.ofNat (UInt16.ofNat payload.length).toNat] = _
    rw [UInt16.toNat_ofNat', List.cons.injEq, List.cons.injEq]
    refine ⟨UInt8.toNat_inj.mp ?_, UInt8.toNat_inj.mp ?_, rfl⟩ <;> rw [UInt8.toNat_ofNat', UInt8.toNat_ofNat'] <;> omega
  have hfirst := putPacket_eq cid [cmd ||| 0x80, .ofNat (payload.length / 256), .ofNat payload.length] (payload.take 57) 57 rfl
    (List.length_take_le ..)
  rw [writeMessage, writeRest_eq, hcmd, hidPackets]
  refine congrArg (· :: _) (List.Vector.toList_injective (hfirst.trans ?_))
  show _ = u32be.enc cid ++ ([cmd ||| 0x80] ++ (u16be.enc (.ofNat payload.length) ++ _))
  rw [hlen]
  rfl

/-! ## What is read -/

section
variable {cid command : UInt32} {payload : List UInt8} {init : Packet} {conts : List Packet} {r : Reply}

/-- A packet of another cid or a keepalive. -/
def skips (cid : UInt32) (packet : Packet) : Bool := packet.cid != cid || packet.starts && packet.cmd == hidKeepalive

theorem readPacket_skips {p : Packet} (h : skips cid p = true) : readPacket cid command payload p r = r := by
  unfold readPacket
  by_cases hcid : p.cid = cid
  · have hkeep : p.starts = true ∧ p.cmd = hidKeepalive := by simpa [skips, hcid] using h
    have hhead : p.header &&& 0x80 ≠ 0 := by simpa [Packet.starts] using hkeep.1
    rw [if_neg (not_not_intro hcid), if_pos hhead, accepts, if_pos hkeep.2]
    rfl
  · rw [if_pos hcid]

theorem collect_skips {skipped packets : List Packet} (hskip : ∀ p ∈ skipped, skips cid p = true) (hr : r.complete = none) :
    collect cid command payload r (skipped ++ packets) = collect cid command payload r packets := by
  induction skipped with
  | nil => rfl
  | cons p skipped ih =>
    rw [List.cons_append, collect, readPacket_skips (hskip p (by simp))]
    simp only [hr]
    exact ih fun q hq => hskip q (by simp [hq])

/-- What has been collected of a response is complete with its last packet. -/
theorem complete_carried (init : Packet) (conts : List Packet) : (⟨some init.expected, carried init conts⟩ : Reply).complete =
    if contCount init.expected ≤ conts.length then some (carried init conts) else none := by
  have hle : (carried init conts).length ≤ init.expected := by
    rw [length_carried]
    exact Nat.min_le_left ..
  have hdone : init.expected ≤ (carried init conts).length ↔ contCount init.expected ≤ conts.length := by
    rw [← carried_complete]
    omega
  simp only [Reply.complete, Option.bind_some, hdone, List.take_of_length_le hle]

theorem readPacket_cont {p : Packet} (hcid : p.cid = cid) (hp : p.starts = false) :
    readPacket cid command payload p ⟨some init.expected, carried init conts⟩ =
      ⟨some init.expected, carried init (conts ++ [p])⟩ := by
  have hhead : ¬ p.header &&& 0x80 ≠ 0 := by simpa [Packet.starts] using hp
  have htake : ∀ n, p.contData.take (min n 59) = p.contData.take n := fun n => by
    rw [← List.take_take, List.take_of_length_le (Nat.le_of_eq p.length_contData)]
  rw [readPacket, if_neg (not_not_intro hcid), if_neg hhead, carried_concat]
  simp only [htake]

theorem readPacket_init (hcid : init.cid = cid) (hp : init.starts = true) (haccept : accepts cid command payload init = true) :
    readPacket cid command payload init r = ⟨some init.expected, carried init []⟩ := by
  have hhead : init.header &&& 0x80 ≠ 0 := by simpa [Packet.starts] using hp
  have hcarried : carried init [] = init.initData.take (min init.expected 57) := by
    rw [← List.take_take, List.take_of_length_le (Nat.le_of_eq init.length_initData), carried, List.flatMap_nil, List.append_nil]
  rw [readPacket, if_neg (not_not_intro hcid), if_pos hhead, if_pos haccept, hcarried]

/-- The packets of a response that are missing complete it, whatever comes
between them. -/
theorem collect_carried {more stream : List Packet} (hpart : conts.length < contCount init.expected)
    (hlen : (conts ++ more).length = contCount init.expected) (hnum : Numbered cid (conts ++ more))
    (hstream : stream.filter (fun p => !skips cid p) = more) (later : List Packet) :
    collect cid command payload ⟨some init.expected, carried init conts⟩ (stream ++ later) =
      some (carried init (conts ++ more)) := by
  induction more generalizing conts stream with
  | nil =>
    rw [List.append_nil] at hlen
    omega
  | cons p more ih =>
    obtain ⟨skipped, rest, rfl, hskip, _, hrest⟩ := List.filter_eq_cons_iff.mp hstream
    rw [List.append_cons conts p more] at hlen hnum ⊢
    obtain ⟨_, hcid, hp, _⟩ := numbered_concat.mp hnum.of_append
    have hnone : (⟨some init.expected, carried init conts⟩ : Reply).complete = none := by
      rw [complete_carried, if_neg (Nat.not_le.mpr hpart)]
    rw [List.append_assoc, collect_skips (fun q hq => by simpa using hskip q hq) hnone, List.cons_append, collect,
      readPacket_cont hcid hp]
    simp only [complete_carried]
    by_cases hall : contCount init.expected ≤ (conts ++ [p]).length
    · have hlast : more = [] := by
        rw [List.length_append] at hlen
        exact List.length_eq_zero_iff.mp (by omega)
      rw [if_pos hall, hlast, List.append_nil]
    · rw [if_neg hall]
      exact ih (Nat.lt_of_not_le hall) hlen hnum hrest

/-- **A response is returned as its packets carry it.** -/
theorem transceive_carriedBy {m : Msg} {stream : List Packet} (hm : m.CarriedBy init conts)
    (haccept : accepts m.cid command payload init = true) (hstream : stream.filter (fun p => !skips m.cid p) = init :: conts)
    (later : List Packet) : transceive m.cid command payload (stream ++ later) = some m.data := by
  obtain ⟨skipped, rest, rfl, hskip, _, hrest⟩ := List.filter_eq_cons_iff.mp hstream
  rw [transceive, List.append_assoc, collect_skips (fun q hq => by simpa using hskip q hq) rfl, List.cons_append, collect,
    readPacket_init hm.cid hm.starts haccept]
  simp only [complete_carried]
  have hlen : conts.length = contCount init.expected := by rw [hm.length, hm.expected]
  by_cases hall : contCount init.expected ≤ ([] : List Packet).length
  · have hnil : conts = [] := List.length_eq_zero_iff.mp (by rw [hlen]; exact Nat.le_zero.mp hall)
    rw [if_pos hall, ← hm.data, hnil]
  · rw [if_neg hall, ← hm.data]
    exact collect_carried (Nat.lt_of_not_le hall) hlen hm.numbered hrest later

/-- The packet of a response has the nonce that the response begins with. -/
theorem take_initData {cmd : UInt8} {len : Nat} {nonce response : List UInt8} (hlen : nonce.length ≤ 57) (h : nonce <+: response) :
    (initPacket cid cmd len (response.take 57)).initData.take nonce.length = nonce := by
  rw [initPacket_initData]
  have hfilled : response <+: ((bytes 57).dec (response.take 57)).toList ++ response.drop 57 := prefix_filled (List.prefix_refl _)
  have hpre : nonce <+: ((bytes 57).dec (response.take 57)).toList :=
    List.prefix_of_prefix_length_le (h.trans hfilled) (List.prefix_append ..) (by rw [List.Vector.toList_length]; exact hlen)
  exact (List.prefix_iff_eq_take.mp hpre).symm

end

/-! ## Both -/

/-- The packets of a message are not skipped, unless it is a keepalive. -/
theorem not_skips_carriedBy {m : Msg} {init : Packet} {conts : List Packet} (hm : m.CarriedBy init conts)
    (hkeep : m.cmd ≠ hidKeepalive) {p : Packet} (hp : p ∈ init :: conts) : (!skips m.cid p) = true := by
  rcases List.mem_cons.mp hp with rfl | hp
  · simp [skips, hm.cid, hm.cmd, hkeep]
  · obtain ⟨k, hk⟩ := List.mem_iff_getElem?.mp hp
    obtain ⟨hcid, hstarts, _⟩ := hm.numbered k p hk
    simp [skips, hcid, hstarts]

/-- Nothing is returned while nothing but a keepalive has begun. -/
theorem transceive_none {cid command : UInt32} {payload : List UInt8} {stream : List Packet}
    (h : ∀ p ∈ stream, p.cid = cid → p.starts = true → p.cmd = hidKeepalive) : transceive cid command payload stream = none := by
  unfold transceive
  induction stream with
  | nil => rfl
  | cons p stream ih =>
    have hread : readPacket cid command payload p ⟨none, []⟩ = ⟨none, []⟩ := by
      by_cases hskip : skips cid p = true
      · exact readPacket_skips hskip
      · have hcid : p.cid = cid := by
          by_contra hcid
          exact hskip (by simp [skips, hcid])
        have hstarts : p.starts ≠ true := fun hstarts => hskip (by simp [skips, hstarts, h p (by simp) hcid hstarts])
        have hhead : ¬ p.header &&& 0x80 ≠ 0 := by simpa [Packet.starts] using hstarts
        rw [readPacket, if_neg (not_not_intro hcid), if_neg hhead]
    rw [collect, hread]
    exact ih fun q hq => h q (by simp [hq])

/-- **The endpoint and the driver agree.** A message is written as packets that
dispatch it. Of a response, whatever is skipped between its packets, the
payload is returned; of a response to KEEPALIVE nothing is. -/
theorem framing :
    (∀ (cid : UInt32) (cmd : UInt8) (payload : List UInt8), cmd < 0x80 → payload.length ≤ maxMsg →
      Dispatches ⟨cid, cmd, payload⟩ (writeMessage cid cmd.toUInt32 payload)) ∧
    (∀ (cid : UInt32) (cmd : UInt8) (payload response : List UInt8) (stream later : List Packet), cmd < 0x80 →
      cmd ≠ hidKeepalive → response.length ≤ 1537 →
      (cid = cidBroadcast → cmd = hidInit → 8 ≤ payload.length ∧ payload.take 8 <+: response) →
      stream.filter (fun p => !skips cid p) = hidPackets cid cmd response →
      transceive cid cmd.toUInt32 payload (stream ++ later) = some response) ∧
    ∀ (cid : UInt32) (payload response : List UInt8) (stream : List Packet), response.length ≤ 1537 →
      (∀ p ∈ stream, p ∈ hidPackets cid hidKeepalive response ∨ skips cid p = true) →
      transceive cid hidKeepalive.toUInt32 payload stream = none := by
  refine ⟨?_, ?_, ?_⟩
  · intro cid cmd payload hcmd hlen
    rw [writeMessage_eq]
    exact dispatches_carriedBy (carriedBy_hidPackets cid hcmd hlen) hlen
  · intro cid cmd payload response stream later hcmd hkeep hlen hnonce hstream
    have hm := carriedBy_hidPackets cid hcmd (hlen.trans (by decide : 1537 ≤ maxMsg))
    refine transceive_carriedBy hm ?_ hstream later
    rw [accepts, hm.cmd, if_neg hkeep, if_neg (fun h => h.1 rfl)]
    split
    · next h =>
      obtain ⟨hsize, hecho⟩ := hnonce h.1 (UInt8.toUInt32_inj.mp h.2)
      have hlen : (payload.take 8).length = 8 := List.length_take_of_le hsize
      have hsame : (initPacket cid cmd response.length (response.take 57)).initData.take (payload.take 8).length = payload.take 8 :=
        take_initData (by omega) hecho
      rw [hlen] at hsame
      simp [hsize, hsame]
    · rfl
  · intro cid payload response stream hlen hstream
    have hm := carriedBy_hidPackets cid (by decide : hidKeepalive < 0x80) (hlen.trans (by decide : 1537 ≤ maxMsg))
    refine transceive_none fun p hp hcid hstarts => ?_
    rcases hstream p hp with hpacket | hskip
    · rcases List.mem_cons.mp hpacket with rfl | hcont
      · exact hm.cmd
      · obtain ⟨k, hk⟩ := List.mem_iff_getElem?.mp hcont
        rw [(hm.numbered k p hk).2.1] at hstarts
        cases hstarts
    · simpa [skips, hcid, hstarts] using hskip

/-- A PING whose answer comes in four packets, after a keepalive and with a
packet of another cid among them. -/
theorem framing_ping : ∃ (init : Packet) (conts : List Packet), conts.length = 3 ∧
    Dispatches ⟨7, hidPing, .replicate 200 0xab⟩ (writeMessage 7 hidPing.toUInt32 (.replicate 200 0xab)) ∧
    writeMessage 7 hidPing.toUInt32 (.replicate 200 0xab) = init :: conts ∧
    transceive 7 hidPing.toUInt32 (.replicate 200 0xab)
      (initPacket 7 hidKeepalive 1 [1] :: init :: initPacket 8 hidPing 3 [1, 2, 3] :: conts) =
        some (.replicate 200 0xab) ∧
    transceive 7 hidKeepalive.toUInt32 [] [initPacket 7 hidKeepalive 1 [1]] = none := by
  have hcmd : hidPing < 0x80 := by decide
  have hsize : (List.replicate 200 (0xab : UInt8)).length = 200 := List.length_replicate
  have hm : Msg.CarriedBy ⟨7, hidPing, .replicate 200 0xab⟩ _ _ := carriedBy_hidPackets 7 hcmd (by rw [hsize]; decide)
  obtain ⟨hwrites, hreads, hnothing⟩ := framing
  refine ⟨_, _, hm.length.trans (by rw [hsize]; rfl), hwrites 7 hidPing _ hcmd (by rw [hsize]; decide),
    writeMessage_eq 7 hidPing _, ?_, ?_⟩
  · have hkept : ∀ p ∈ hidPackets 7 hidPing (.replicate 200 0xab), (!skips 7 p) = true :=
      fun p hp => not_skips_carriedBy hm (by decide) hp
    rw [hidPackets] at hkept
    rw [← List.append_nil (_ :: _)]
    refine hreads 7 hidPing _ _ _ [] hcmd (by decide) (by rw [hsize]; decide) (fun h => absurd h (by decide)) ?_
    rw [List.filter_cons_of_neg (by decide), List.filter_cons_of_pos (p := fun p => !skips 7 p) (hkept _ (.head _)),
      List.filter_cons_of_neg (by decide), List.filter_eq_self.mpr fun p hp => hkept p (.tail _ hp), hidPackets]
  · refine hnothing 7 [] [1] _ (by decide) fun p hp => .inl ?_
    rw [List.mem_singleton.mp hp, hidPackets]
    exact .head _

/-- No keepalive is taken for a response. -/
theorem transceive_keepalive : hidKeepalive < 0x80 ∧ ([1] : List UInt8).length ≤ 1537 ∧ 7 ≠ cidBroadcast ∧
    transceive 7 hidKeepalive.toUInt32 [] (hidPackets 7 hidKeepalive [1]) = none := by
  refine ⟨by decide, by decide, by decide, ?_⟩
  have hpackets : hidPackets 7 hidKeepalive [1] = [initPacket 7 hidKeepalive 1 [1]] := by
    rw [hidPackets]
    exact congrArg _ (contPackets_nil 7 0)
  have hskip : ∀ p ∈ hidPackets 7 hidKeepalive [1], skips 7 p = true := by
    rw [hpackets]
    simp only [List.mem_singleton, forall_eq]
    decide
  rw [transceive, ← List.append_nil (hidPackets 7 hidKeepalive [1]), collect_skips hskip rfl]
  rfl

end CtapHidEndpoint

end AbkFido
