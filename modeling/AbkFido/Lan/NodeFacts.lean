/-
What can come out of the node for a request.

The worker owes answers only to the message it is at, and takes its packets
in the order they were written in. So packets leave the node in the order of
their exchanges (`Node.Ordered`), and as long as nothing of an older exchange
is in it that answers the request, nothing comes of one (`Node.Clean`).
-/
import AbkFido.Lan.Shared
import AbkFido.Message

namespace AbkFido

variable {P : Platform}

/-! ## What the driver may send -/

/-- What a message may be answered with. -/
inductive Msg.Gets (m : Msg) : Msg → Prop
  | cbor (allocOk : Bool) (ret : Ret) (hcmd : m.cmd = hidCbor) : Gets m (sendCborResult allocOk m.cid ret)
  | other {handed : Option UInt32} {cmd : UInt8} {data : List UInt8} (hcmd : m.cmd ≠ hidCbor)
    (h : m.answer [] handed = some (cmd, data)) : Gets m ⟨m.cid, cmd, data⟩

theorem Msg.Gets.cid {m f : Msg} (h : m.Gets f) : f.cid = m.cid := by
  cases h with
  | cbor allocOk ret _ => exact sendCborResult_cid ..
  | other _ _ => rfl

/-- What a worker may still send for its message. -/
def Stage.Owes : Stage → Msg → Prop
  | .idle, _ => False
  | .complete m, f => m.Gets f
  | .calling m, f | .inside m, f | .returned m _, f | .cleared m _, f | .cancelling m _, f | .answering m _, f =>
    ∃ allocOk ret, f = sendCborResult allocOk m.cid ret

namespace Link

variable {s s' : Link}

theorem sentSince_append {l : List LinkEvent} (h : s'.log .ctap = l ++ s.log .ctap) :
    s.sentSince s' = l.reverse.filterMap LinkEvent.sent? := by
  rw [sentSince, h, List.length_append, Nat.add_sub_cancel, List.take_left']
  rfl

theorem sentSince_same (h : s'.log .ctap = s.log .ctap) : s.sentSince s' = [] := sentSince_append (l := []) h

theorem sentSince_cons {e : LinkEvent} (h : s'.log .ctap = e :: s.log .ctap) : s.sentSince s' = e.sent?.toList := by
  rw [sentSince_append (l := [e]) h]
  cases e <;> rfl

/-- What a worker makes of the packet it takes. -/
theorem take_ctap {allocOk : Bool} (h : s.step P (.take .ctap allocOk) = some s') :
    ∃ p rx, (s.rx .ctap).pop = some (p, rx) ∧ s'.rx .ctap = rx ∧
      (((s.hid.processPacketLocked allocOk p).1 = .nothing ∧ s'.stage .ctap = .idle ∧ s.sentSince s' = []) ∨
      (∃ err, (s.hid.processPacketLocked allocOk p).1 = .refused err ∧ s'.stage .ctap = .idle ∧
        s.sentSince s' = [sendHidError p.cid err]) ∨
      ∃ cmd data, (s.hid.processPacketLocked allocOk p).1 = .complete cmd data ∧
        s'.stage .ctap = .complete ⟨p.cid, cmd, data⟩ ∧ s.sentSince s' = []) := by
  simp only [step] at h
  split at h
  · next p rx hidle hpop =>
    have hrx : Function.update s.rx .ctap rx .ctap = rx := Function.update_self ..
    refine ⟨p, rx, hpop, ?_⟩
    generalize hr : s.hid.processPacketLocked allocOk p = r at h ⊢
    obtain ⟨r, hid⟩ := r
    cases r with
    | nothing =>
      cases h
      exact ⟨hrx, .inl ⟨rfl, hidle, sentSince_cons (note_self ..)⟩⟩
    | refused err =>
      cases h
      refine ⟨hrx, .inr (.inl ⟨err, rfl, hidle, ?_⟩)⟩
      rw [sentSince_append (l := [.sent (sendHidError p.cid err), .packet p])]
      · rfl
      · rw [note_self, note_self]
        rfl
    | complete cmd data =>
      cases h
      refine ⟨hrx, .inr (.inr ⟨cmd, data, rfl, by rw [note_stage, setStage_self], ?_⟩)⟩
      rw [sentSince_append (l := [.dispatched ⟨p.cid, cmd, data⟩, .packet p])]
      · rfl
      · rw [note_self, setStage_log, note_self]
        rfl
  · cases h

theorem pace_ctap (h : s.step P .pace = some s') : s'.rx = s.rx ∧ s'.stage = s.stage ∧
    ∀ f ∈ s.sentSince s', f.cmd = hidKeepalive ∧ f.data = [keepaliveStatusProcessing] := by
  obtain ⟨t, cid, _, rfl⟩ := pace_cases h
  refine ⟨rfl, rfl, ?_⟩
  cases t with
  | usb =>
    rw [sentSince_same]
    · nofun
    · exact note_of_ne (by decide) ..
  | ctap =>
    rw [sentSince_cons (e := .sent ⟨cid, hidKeepalive, [keepaliveStatusProcessing]⟩)]
    · intro f hf
      cases List.mem_singleton.mp hf
      exact ⟨rfl, rfl⟩
    · exact note_self ..

theorem take_rx {t : Transport} {allocOk : Bool} (h : s.step P (.take t allocOk) = some s') :
    ∃ rx, s'.rx = Function.update s.rx t rx := by
  simp only [step] at h
  split at h
  · next p rx _ _ =>
    refine ⟨rx, ?_⟩
    split at h <;> cases h <;> rfl
  · cases h

/-- Only an arrival and its worker touch a receive queue. -/
theorem rx_ctap {a : LinkAction} (harrive : ∀ p, a ≠ .arrive .ctap p) (htake : ∀ allocOk, a ≠ .take .ctap allocOk)
    (h : s.step P a = some s') : s'.rx .ctap = s.rx .ctap := by
  cases a with
  | arrive t p =>
    cases t with
    | usb =>
      cases h
      have hne : Transport.ctap ≠ .usb := by decide
      exact Function.update_of_ne hne (((s.rx .usb).push p).getD (s.rx .usb)) s.rx
    | ctap => exact absurd rfl (harrive p)
  | take t allocOk =>
    cases t with
    | usb =>
      obtain ⟨rx, hrx⟩ := take_rx h
      exact (congrFun hrx .ctap).trans (Function.update_of_ne (by decide) ..)
    | ctap => exact absurd rfl (htake allocOk)
  | dispatch t =>
    obtain ⟨m, _, ⟨_, rfl⟩ | ⟨_, handed, hid, _, ⟨_, rfl⟩ | ⟨cmd, data, _, rfl⟩⟩⟩ := dispatch_cases h <;> rfl
  | device b =>
    obtain ⟨d, _, ⟨_, rfl⟩ | ⟨t, m, _, _, rfl⟩⟩ := device_cases h
    · rfl
    · unfold follow
      split <;> rfl
  | clear t => obtain ⟨m, ret, _, rfl⟩ := clear_cases h; rfl
  | disarm t => obtain ⟨m, ret, _, rfl⟩ := disarm_cases h; rfl
  | disarmed t => obtain ⟨m, ret, _, _, rfl⟩ := disarmed_cases h; rfl
  | respond t allocOk => obtain ⟨m, ret, _, rfl⟩ := respond_cases h; rfl
  | fire => obtain ⟨_, _, rfl⟩ := fire_cases h; rfl
  | look => obtain ⟨_, ⟨_, _, _, _, rfl⟩ | ⟨_, rfl⟩⟩ := look_cases h <;> rfl
  | pace => obtain ⟨_, _, _, rfl⟩ := pace_cases h; rfl
  | rearm => obtain ⟨_, rfl⟩ := rearm_cases h; rfl

/-- What else happens to the node's transport: its worker goes on with its message. -/
theorem other_ctap {a : LinkAction} (htake : ∀ allocOk, a ≠ .take .ctap allocOk) (hpace : a ≠ .pace)
    (h : s.step P a = some s') : (∀ f ∈ s.sentSince s', (s.stage .ctap).Owes f) ∧
      ∀ f, (s'.stage .ctap).Owes f → (s.stage .ctap).Owes f := by
  by_cases ha : a.worker = some .ctap
  · -- A step of its own that sends nothing leaves what it owes.
    have hon : s'.log .ctap = s.log .ctap → (∀ f, (s'.stage .ctap).Owes f → (s.stage .ctap).Owes f) →
        (∀ f ∈ s.sentSince s', (s.stage .ctap).Owes f) ∧ ∀ f, (s'.stage .ctap).Owes f → (s.stage .ctap).Owes f := by
      intro hlog howes
      rw [sentSince_same hlog]
      exact ⟨nofun, howes⟩
    have hsend : ∀ {m : Msg}, s'.log .ctap = .sent m :: s.log .ctap → s'.stage .ctap = .idle → (s.stage .ctap).Owes m →
        (∀ f ∈ s.sentSince s', (s.stage .ctap).Owes f) ∧ ∀ f, (s'.stage .ctap).Owes f → (s.stage .ctap).Owes f := by
      intro m hlog hidle howes
      rw [sentSince_cons hlog, hidle]
      refine ⟨fun f hf => ?_, nofun⟩
      cases List.mem_singleton.mp hf
      exact howes
    cases a with
    | arrive | fire | look | pace | rearm => cases ha
    | take t allocOk => cases ha; exact absurd rfl (htake allocOk)
    | dispatch t =>
      cases ha
      obtain ⟨m, hm, ⟨hcbor, rfl⟩ | ⟨hcbor, handed, hid, _, ⟨_, rfl⟩ | ⟨cmd, data, hanswer, rfl⟩⟩⟩ :=
        dispatch_cases h
      · refine hon rfl ?_
        rw [setStage_self, hm]
        rintro _ ⟨allocOk, ret, rfl⟩
        exact .cbor allocOk ret hcbor
      · refine hon rfl ?_
        rw [setStage_self]
        nofun
      · refine hsend (note_self ..) (by rw [note_stage, setStage_self]) ?_
        rw [hm]
        exact .other hcbor hanswer
    | device b =>
      obtain ⟨d, _, ⟨hnone, _⟩ | ⟨t, m, ht, hserves, rfl⟩⟩ := device_cases h
      · rw [show b.worker = some .ctap from ha] at hnone
        cases hnone
      cases (show b.worker = some .ctap from ha).symm.trans ht
      have howes : ∀ f, ((s.follow P .ctap m b d).stage .ctap).Owes f → (s.stage .ctap).Owes f := by
        rw [follow_stage, Function.update_self]
        rcases serves_cases hserves with ⟨hm, _⟩ | ⟨hm, _⟩ <;> rw [hm] <;> cases s.device.reply P b <;>
          exact fun _ hf => hf
      cases hr : s.device.reply P b with
      | none =>
        refine hon ?_ howes
        rw [follow_log, hr]
      | some r =>
        refine ⟨?_, howes⟩
        rw [sentSince_cons (e := .returned r.result)]
        · nofun
        · simp only [follow_log, hr, Function.update_self]
    | clear t =>
      cases ha
      obtain ⟨m, ret, hm, rfl⟩ := clear_cases h
      exact hon rfl (by rw [setStage_self, hm]; exact fun _ hf => hf)
    | disarm t =>
      cases ha
      obtain ⟨m, ret, hm, rfl⟩ := disarm_cases h
      exact hon rfl (by rw [setStage_self, hm]; exact fun _ hf => hf)
    | disarmed t =>
      cases ha
      obtain ⟨m, ret, hm, _, rfl⟩ := disarmed_cases h
      exact hon rfl (by rw [setStage_self, hm]; exact fun _ hf => hf)
    | respond t allocOk =>
      cases ha
      obtain ⟨m, ret, hm, rfl⟩ := respond_cases h
      refine hsend (note_self ..) (by rw [note_stage, setStage_self]) ?_
      rw [hm]
      exact ⟨allocOk, ret, rfl⟩
  · rw [stage_other ha h, sentSince_same (log_other ha hpace h)]
    exact ⟨nofun, fun _ hf => hf⟩

end Link

/-! ## What is taken for an answer -/

theorem cid_of_mem_contPackets {cid : UInt32} {seq : UInt8} {rest : List UInt8} {p : Packet}
    (h : p ∈ contPackets cid seq rest) : p.cid = cid := by
  induction seq, rest using contPackets.induct with
  | case1 seq => cases (contPackets_nil cid seq ▸ h)
  | case2 seq rest hne ih =>
    rw [contPackets_cons _ _ hne] at h
    rcases List.mem_cons.mp h with rfl | h
    · exact contPacket_cid ..
    · exact ih h

theorem cid_of_mem_hidPackets {f : Msg} {p : Packet} (h : p ∈ hidPackets f.cid f.cmd f.data) : p.cid = f.cid := by
  rcases List.mem_cons.mp h with rfl | h
  · exact initPacket_cid ..
  · exact cid_of_mem_contPackets h

namespace RelayedRequest

/-- `relayResponse` takes the packet for the first one of the answer. -/
def takes (request : RelayedRequest) (p : Packet) : Bool := p.starts && p.cmd != hidKeepalive && request.answeredBy p

/-- No packet of the message is taken for it. -/
def Misses (request : RelayedRequest) (f : Msg) : Prop := ∀ p ∈ hidPackets f.cid f.cmd f.data, request.takes p = false

/-- A packet that waits for the worker completes no message with an answer
that would be taken, nor does it get an error on the request's cid. -/
def Harmless (request : RelayedRequest) (p : Packet) : Prop :=
  p.cid ≠ request.cid ∨ (p.starts = true ∧ p.expected ≤ maxMsg ∧
    (contCount p.expected = 0 → ∀ f, Msg.Gets ⟨p.cid, p.cmd, carried p []⟩ f → request.Misses f))

variable {request : RelayedRequest}

theorem takes_of_cid {p : Packet} (h : p.cid ≠ request.cid) : request.takes p = false := by
  simp [takes, answeredBy, h]

theorem misses_of_cid {f : Msg} (h : f.cid ≠ request.cid) : request.Misses f := fun _ hp =>
  takes_of_cid (cid_of_mem_hidPackets hp ▸ h)

theorem misses_keepalive {f : Msg} (hcmd : f.cmd = hidKeepalive) {status : UInt8} (hdata : f.data = [status]) :
    request.Misses f := by
  intro p hp
  rw [hidPackets, hdata, hcmd] at hp
  rcases List.mem_cons.mp hp with rfl | hp
  · rw [takes, initPacket_cmd _ _ _ (by decide)]
    simp
  · cases (contPackets_nil f.cid 0 ▸ hp)

end RelayedRequest

/-! ## The node's order -/

theorem mem_sentFor {n : Nat} {ms : List Msg} {x : Tagged} :
    x ∈ sentFor n ms ↔ x.exchange = n ∧ ∃ f ∈ ms, x.packet ∈ hidPackets f.cid f.cmd f.data := by
  simp only [sentFor, List.mem_map, List.mem_flatMap]
  constructor
  · rintro ⟨p, ⟨f, hf, hp⟩, rfl⟩
    exact ⟨rfl, f, hf, hp⟩
  · rintro ⟨rfl, f, hf, hp⟩
    exact ⟨x.packet, ⟨f, hf, hp⟩, rfl⟩

namespace Node

variable {d d' : Node} {n k : Nat} {request : RelayedRequest} {a : LinkAction}

/-- What a step of the driver does to the queues. -/
theorem drive_cases (h : d.drive P a = some d') : ∃ link, d.link.step P a = some link ∧
    ((∃ allocOk x rest, a = .take .ctap allocOk ∧ d.waiting = x :: rest ∧ d.sending = [] ∧
        d' = ⟨link, rest, x.exchange, sentFor x.exchange (d.link.sentSince link), d.txPackets⟩) ∨
      (a = .pace ∧
        d' = { d with link := link, txPackets := d.txPackets.pushAll (sentFor d.serving (d.link.sentSince link)) }) ∨
      ((∀ p, a ≠ .arrive .ctap p) ∧ (∀ allocOk, a ≠ .take .ctap allocOk) ∧ a ≠ .pace ∧
        d' = { d with link := link, sending := d.sending ++ sentFor d.serving (d.link.sentSince link) })) := by
  unfold drive at h
  split at h
  · cases h
  · next allocOk =>
    split at h
    · next x rest hwaiting hsending =>
      obtain ⟨link, hlink, rfl⟩ := Option.map_eq_some_iff.mp h
      exact ⟨link, hlink, .inl ⟨allocOk, x, rest, rfl, hwaiting, hsending, rfl⟩⟩
    · cases h
  · obtain ⟨link, hlink, rfl⟩ := Option.map_eq_some_iff.mp h
    exact ⟨link, hlink, .inr (.inl ⟨rfl, rfl⟩)⟩
  · next harrive htake hpace =>
    obtain ⟨link, hlink, rfl⟩ := Option.map_eq_some_iff.mp h
    exact ⟨link, hlink, .inr (.inr ⟨fun p hp => harrive p hp, fun allocOk ht => htake allocOk ht, hpace, rfl⟩)⟩

theorem write_cases {p : Packet} (h : d.write P n p = some d') : ∃ rx link, (d.link.rx .ctap).push p = some rx ∧
    link.rx .ctap = rx ∧ link.stage = d.link.stage ∧
      d' = { d with link := link, waiting := d.waiting ++ [⟨n, p⟩] } := by
  obtain ⟨rx, hrx, h⟩ := Option.bind_eq_some_iff.mp h
  obtain ⟨link, hlink, rfl⟩ := Option.map_eq_some_iff.mp h
  refine ⟨rx, link, hrx, ?_, ?_, rfl⟩ <;> cases hlink
  · show Function.update d.link.rx .ctap (((d.link.rx .ctap).push p).getD (d.link.rx .ctap)) .ctap = rx
    rw [Function.update_self, hrx, Option.getD_some]
  · rfl

theorem read_cases {x : Tagged} (h : d.read = some (x, d')) :
    d.txPackets.toList = x :: d'.txPackets.toList ∧ d' = { d with txPackets := d'.txPackets } := by
  obtain ⟨⟨y, tx⟩, hpop, heq⟩ := Option.map_eq_some_iff.mp h
  cases heq
  exact ⟨RingBuffer.toList_pop hpop, rfl⟩

theorem push_cases (h : d.push = some d') : ∃ x rest, d.sending = x :: rest ∧
    d' = { d with sending := rest, txPackets := (d.txPackets.push x).getD d.txPackets } := by
  unfold push at h
  split at h
  · cases h
  · next x rest hsending =>
    cases h
    exact ⟨x, rest, hsending, rfl⟩

/-- What the queue holds after a push. -/
theorem mem_pushed {x y : Tagged} {tx : RingBuffer Tagged queueDepth} (h : y ∈ ((tx.push x).getD tx).toList) :
    y ∈ tx.toList ∨ y = x := by
  cases hp : tx.push x with
  | none => rw [hp] at h; exact .inl h
  | some tx' =>
    rw [hp, Option.getD_some, RingBuffer.toList_push hp, List.mem_append, List.mem_singleton] at h
    exact h

theorem mem_pushAll {xs : List Tagged} {y : Tagged} {tx : RingBuffer Tagged queueDepth} (h : y ∈ (tx.pushAll xs).toList) :
    y ∈ tx.toList ∨ y ∈ xs := by
  rw [RingBuffer.toList_pushAll, List.mem_append] at h
  exact h.imp_right List.mem_of_mem_take

/-- The exchanges of what is in the node, from the packet that is read next to the one that was written last. -/
def timeline (d : Node) : List Nat := d.txPackets.toList.map Tagged.exchange ++ d.serving :: d.waiting.map Tagged.exchange

/-- Packets leave the node in the order of their exchanges. -/
structure Ordered (n : Nat) (d : Node) : Prop where
  sorted : d.timeline.Pairwise (· ≤ ·)
  le : ∀ k ∈ d.timeline, k ≤ n
  sending : ∀ x ∈ d.sending, x.exchange = d.serving
  waiting : d.waiting.map Tagged.packet = (d.link.rx .ctap).toList

/-- A step keeps the order, and brings nothing of another exchange into the node. -/
structure Keeps (n : Nat) (d d' : Node) : Prop where
  ordered : d'.Ordered n
  timeline : ∀ k ∈ d'.timeline, k ∈ d.timeline ∨ k = n

theorem Ordered.mono (h : d.Ordered n) (hle : n ≤ k) : d.Ordered k :=
  ⟨h.sorted, fun j hj => (h.le j hj).trans hle, h.sending, h.waiting⟩

/-- What the worker pushes at the end of the queue is of the exchange it serves. -/
theorem Ordered.pushed (h : d.Ordered n) {tx : RingBuffer Tagged queueDepth} {more : List Tagged} {sending : List Tagged}
    (htx : tx.toList = d.txPackets.toList ++ more) (hmore : ∀ x ∈ more, x.exchange = d.serving)
    (hsending : ∀ x ∈ sending, x.exchange = d.serving) {link : Link} (hrx : link.rx .ctap = d.link.rx .ctap) :
    Keeps n d ⟨link, d.waiting, d.serving, sending, tx⟩ := by
  have hmem : ∀ k ∈ more.map Tagged.exchange, k = d.serving := by
    intro k hk
    obtain ⟨x, hx, rfl⟩ := List.mem_map.mp hk
    exact hmore x hx
  have htime : timeline ⟨link, d.waiting, d.serving, sending, tx⟩ = d.txPackets.toList.map Tagged.exchange ++
      (more.map Tagged.exchange ++ d.serving :: d.waiting.map Tagged.exchange) := by
    rw [timeline, htx, List.map_append, List.append_assoc]
  have hsub : ∀ k ∈ timeline ⟨link, d.waiting, d.serving, sending, tx⟩, k ∈ d.timeline := by
    intro k hk
    rw [htime] at hk
    simp only [timeline, List.mem_append, List.mem_cons] at hk ⊢
    rcases hk with hk | hk | hk
    · exact .inl hk
    · exact .inr (.inl (hmem k hk))
    · exact .inr hk
  obtain ⟨hfront, hback, hcross⟩ := List.pairwise_append.mp h.sorted
  refine ⟨⟨?_, fun k hk => h.le k (hsub k hk), hsending, by rw [hrx]; exact h.waiting⟩, fun k hk => .inl (hsub k hk)⟩
  rw [htime]
  refine List.pairwise_append.mpr ⟨hfront, List.pairwise_append.mpr ⟨?_, hback, ?_⟩, ?_⟩
  · exact List.pairwise_of_forall_mem_list fun a ha b hb => by rw [hmem a ha, hmem b hb]
  · intro a ha b hb
    rw [hmem a ha]
    rcases List.mem_cons.mp hb with rfl | hb
    · exact le_rfl
    · exact (List.pairwise_cons.mp hback).1 b hb
  · intro a ha b hb
    rcases List.mem_append.mp hb with hb | hb
    · rw [hmem b hb]
      exact hcross a ha _ (.head _)
    · exact hcross a ha b hb

theorem Ordered.write (h : d.Ordered n) {p : Packet} (hstep : d.write P n p = some d') : Keeps n d d' := by
  obtain ⟨rx, link, hpush, hrx, -, rfl⟩ := write_cases hstep
  have htime : timeline { d with link := link, waiting := d.waiting ++ [⟨n, p⟩] } = d.timeline ++ [n] := by
    simp [timeline]
  have hmem : ∀ k ∈ timeline { d with link := link, waiting := d.waiting ++ [⟨n, p⟩] }, k ∈ d.timeline ∨ k = n := by
    intro k hk
    rwa [htime, List.mem_append, List.mem_singleton] at hk
  refine ⟨⟨?_, fun k hk => (hmem k hk).elim (h.le k) Nat.le_of_eq, h.sending, ?_⟩, hmem⟩
  · rw [htime]
    refine List.pairwise_append.mpr ⟨h.sorted, List.pairwise_singleton .., fun a ha b hb => ?_⟩
    rw [List.mem_singleton.mp hb]
    exact h.le a ha
  · show (d.waiting ++ [(⟨n, p⟩ : Tagged)]).map Tagged.packet = (link.rx .ctap).toList
    rw [hrx, RingBuffer.toList_push hpush, List.map_append, h.waiting]
    rfl

theorem timeline_read {x : Tagged} (h : d.read = some (x, d')) : d.timeline = x.exchange :: d'.timeline := by
  obtain ⟨htx, hd'⟩ := read_cases h
  rw [hd']
  simp [timeline, htx]

theorem Ordered.read (h : d.Ordered n) {x : Tagged} (hstep : d.read = some (x, d')) : Keeps n d d' := by
  have htime := timeline_read hstep
  have hsorted := h.sorted
  have hsub : ∀ k ∈ d'.timeline, k ∈ d.timeline := fun k hk => htime ▸ .tail _ hk
  obtain ⟨-, hd'⟩ := read_cases hstep
  rw [htime] at hsorted
  refine ⟨⟨(List.pairwise_cons.mp hsorted).2, fun k hk => h.le k (hsub k hk), ?_, ?_⟩, fun k hk => .inl (hsub k hk)⟩ <;>
    rw [hd']
  · exact h.sending
  · exact h.waiting

theorem Ordered.push (h : d.Ordered n) (hstep : d.push = some d') : Keeps n d d' := by
  obtain ⟨x, rest, hsending, rfl⟩ := push_cases hstep
  have hrest : ∀ y ∈ rest, y.exchange = d.serving := fun y hy => h.sending y (hsending ▸ .tail _ hy)
  cases hp : d.txPackets.push x with
  | none => exact h.pushed (List.append_nil _).symm nofun hrest rfl
  | some tx =>
    refine h.pushed (RingBuffer.toList_push hp) (fun y hy => ?_) hrest rfl
    rw [List.mem_singleton.mp hy]
    exact h.sending x (hsending ▸ .head _)

theorem Ordered.drive (h : d.Ordered n) (hstep : d.drive P a = some d') : Keeps n d d' := by
  obtain ⟨link, hlink, ⟨allocOk, x, rest, rfl, hwaiting, -, rfl⟩ | ⟨rfl, rfl⟩ | ⟨harrive, htake, -, rfl⟩⟩ :=
    drive_cases hstep
  · obtain ⟨p, rx, hpop, hrx, -⟩ := Link.take_ctap hlink
    have hsub : List.Sublist (d.txPackets.toList.map Tagged.exchange ++ x.exchange :: rest.map Tagged.exchange) d.timeline := by
      rw [timeline, hwaiting, List.map_cons]
      exact (List.sublist_cons_self _ _).append_left _
    have hmirror := h.waiting
    rw [hwaiting, List.map_cons, RingBuffer.toList_pop hpop] at hmirror
    exact ⟨⟨h.sorted.sublist hsub, fun k hk => h.le k (hsub.subset hk), fun y hy => (mem_sentFor.mp hy).1,
      (List.cons.inj hmirror).2.trans (by rw [hrx])⟩, fun k hk => .inl (hsub.subset hk)⟩
  · obtain ⟨hrx, -, -⟩ := Link.pace_ctap hlink
    exact h.pushed (RingBuffer.toList_pushAll ..) (fun y hy => (mem_sentFor.mp (List.mem_of_mem_take hy)).1) h.sending
      (congrFun hrx .ctap)
  · refine h.pushed (List.append_nil _).symm nofun (fun y hy => ?_) (Link.rx_ctap harrive htake hlink)
    rcases List.mem_append.mp hy with hy | hy
    · exact h.sending y hy
    · exact (mem_sentFor.mp hy).1

/-- Once a packet of the exchange comes out, nothing older is left. -/
theorem Ordered.all_eq (h : d.Ordered n) {x : Tagged} (hx : x.exchange = n) (hstep : d.read = some (x, d')) :
    ∀ k ∈ d'.timeline, k = n := by
  have hsorted := h.sorted
  rw [timeline_read hstep, hx] at hsorted
  intro k hk
  exact le_antisymm ((h.read hstep).ordered.le k hk) ((List.pairwise_cons.mp hsorted).1 k hk)

/-! ## Nothing old answers the request -/

/-- Of other exchanges nothing is in the node that answers the request. -/
structure Clean (request : RelayedRequest) (n : Nat) (d : Node) : Prop where
  queued : ∀ x ∈ d.txPackets.toList ++ d.sending, x.exchange ≠ n → request.takes x.packet = false
  owed : d.serving ≠ n → ∀ f, (d.link.stage .ctap).Owes f → request.Misses f
  waiting : ∀ x ∈ d.waiting, x.exchange ≠ n → request.Harmless x.packet

/-- A worker that takes an old packet has memory for it, if it is of the request's channel. -/
def Affords (request : RelayedRequest) (n : Nat) (d : Node) : LinkAction → Prop
  | .take .ctap allocOk => ∀ x ∈ d.waiting.head?, x.exchange ≠ n → x.packet.cid = request.cid → allocOk = true
  | _ => True

theorem Clean.write (h : d.Clean request n) {p : Packet} (hstep : d.write P n p = some d') : d'.Clean request n := by
  obtain ⟨rx, link, -, -, hstage, rfl⟩ := write_cases hstep
  refine ⟨h.queued, ?_, fun x hx hne => ?_⟩
  · show d.serving ≠ n → ∀ f, (link.stage .ctap).Owes f → request.Misses f
    rw [hstage]
    exact h.owed
  · rcases List.mem_append.mp hx with hx | hx
    · exact h.waiting x hx hne
    · rw [List.mem_singleton.mp hx] at hne
      exact absurd rfl hne

theorem Clean.read (h : d.Clean request n) {x : Tagged} (hstep : d.read = some (x, d')) : d'.Clean request n ∧
    (request.takes x.packet = true → x.exchange = n) := by
  obtain ⟨htx, hd'⟩ := read_cases hstep
  have hqueued := h.queued
  rw [htx] at hqueued
  refine ⟨?_, fun htakes => ?_⟩
  · rw [hd']
    exact ⟨fun y hy => hqueued y (.tail _ hy), h.owed, h.waiting⟩
  · by_contra hne
    rw [hqueued x (.head _) hne] at htakes
    cases htakes

theorem Clean.push (h : d.Clean request n) (hstep : d.push = some d') : d'.Clean request n := by
  obtain ⟨x, rest, hsending, rfl⟩ := push_cases hstep
  refine ⟨fun y hy => h.queued y ?_, h.owed, h.waiting⟩
  rw [hsending]
  simp only [List.mem_append, List.mem_cons] at hy ⊢
  rcases hy with hy | hy
  · rcases mem_pushed hy with hy | rfl
    · exact .inl hy
    · exact .inr (.inl rfl)
  · exact .inr (.inr hy)

/-- What is sent for an old packet is not taken. -/
theorem not_takes_sentFor {k : Nat} {ms : List Msg} (hms : k ≠ n → ∀ f ∈ ms, request.Misses f) {x : Tagged}
    (hx : x ∈ sentFor k ms) (hne : x.exchange ≠ n) : request.takes x.packet = false := by
  obtain ⟨rfl, f, hf, hp⟩ := mem_sentFor.mp hx
  exact hms hne f hf x.packet hp

/-- What the worker makes of an old packet. -/
theorem Clean.take (h : d.Clean request n) (hord : d.Ordered n) {allocOk : Bool} {x : Tagged} {rest : List Tagged} {link : Link}
    (hwaiting : d.waiting = x :: rest) (haffords : x.exchange ≠ n → x.packet.cid = request.cid → allocOk = true)
    (hlink : d.link.step P (.take .ctap allocOk) = some link) (hne : x.exchange ≠ n) :
    (∀ f ∈ d.link.sentSince link, request.Misses f) ∧ ∀ f, (link.stage .ctap).Owes f → request.Misses f := by
  obtain ⟨p, rx, hpop, -, hcases⟩ := Link.take_ctap hlink
  have hmirror := hord.waiting
  rw [hwaiting, List.map_cons, RingBuffer.toList_pop hpop] at hmirror
  obtain rfl : x.packet = p := (List.cons.inj hmirror).1
  -- On the request's channel it can only begin a message, or be one.
  have hown : x.packet.cid = request.cid → (d.link.hid.processPacketLocked allocOk x.packet).1 = .nothing ∨
      ((d.link.hid.processPacketLocked allocOk x.packet).1 = .complete x.packet.cmd (carried x.packet []) ∧
        ∀ f, Msg.Gets ⟨x.packet.cid, x.packet.cmd, carried x.packet []⟩ f → request.Misses f) := by
    intro hcid
    rcases h.waiting x (hwaiting ▸ .head _) hne with hother | ⟨hp, hle, hgets⟩
    · exact absurd hcid hother
    · rcases Hid.process_begin allocOk hp hle d.link.hid with ⟨hcount, hr, -⟩ | ⟨-, hr, -⟩
      · rw [haffords hne hcid] at hr ⊢
        exact .inr ⟨hr, hgets (Nat.le_zero.mp hcount)⟩
      · exact .inl hr
  rcases hcases with ⟨-, hidle, hsent⟩ | ⟨err, hr, hidle, hsent⟩ | ⟨cmd, data, hr, hcomplete, hsent⟩
  · rw [hsent, hidle]
    exact ⟨nofun, nofun⟩
  · rw [hsent, hidle]
    refine ⟨fun f hf => ?_, nofun⟩
    rw [List.mem_singleton.mp hf]
    refine RelayedRequest.misses_of_cid fun hcid => ?_
    rcases hown hcid with heq | ⟨heq, -⟩ <;> (rw [heq] at hr; cases hr)
  · rw [hsent, hcomplete]
    refine ⟨nofun, fun f hf => ?_⟩
    by_cases hcid : x.packet.cid = request.cid
    · rcases hown hcid with heq | ⟨heq, hgets⟩
      · rw [heq] at hr
        cases hr
      · rw [heq] at hr
        cases hr
        exact hgets f hf
    · exact RelayedRequest.misses_of_cid (Msg.Gets.cid hf ▸ hcid)

theorem Clean.drive (h : d.Clean request n) (hord : d.Ordered n) (haffords : Affords request n d a)
    (hstep : d.drive P a = some d') : d'.Clean request n := by
  obtain ⟨link, hlink, ⟨allocOk, x, rest, rfl, hwaiting, hsending, rfl⟩ | ⟨rfl, rfl⟩ | ⟨-, htake, hpace, rfl⟩⟩ :=
    drive_cases hstep
  · have hhead : x.exchange ≠ n → x.packet.cid = request.cid → allocOk = true :=
      haffords x (by rw [hwaiting]; rfl)
    have htake := h.take hord hwaiting hhead hlink
    refine ⟨fun y hy hne => ?_, fun hne => (htake hne).2, fun y hy => h.waiting y (hwaiting ▸ .tail _ hy)⟩
    rcases List.mem_append.mp hy with hy | hy
    · exact h.queued y (List.mem_append_left _ hy) hne
    · exact not_takes_sentFor (fun hne => (htake hne).1) hy hne
  · obtain ⟨-, hstage, hsent⟩ := Link.pace_ctap hlink
    refine ⟨fun y hy hne => ?_, ?_, h.waiting⟩
    · rcases List.mem_append.mp hy with hy | hy
      · rcases mem_pushAll hy with hy | hy
        · exact h.queued y (List.mem_append_left _ hy) hne
        · exact not_takes_sentFor (fun _ f hf => RelayedRequest.misses_keepalive (hsent f hf).1 (hsent f hf).2) hy hne
      · exact h.queued y (List.mem_append_right _ hy) hne
    · show d.serving ≠ n → ∀ f, (link.stage .ctap).Owes f → request.Misses f
      rw [hstage]
      exact h.owed
  · obtain ⟨hsent, howes⟩ := Link.other_ctap htake hpace hlink
    refine ⟨fun y hy hne => ?_, fun hne f hf => h.owed hne f (howes f hf), h.waiting⟩
    rcases List.mem_append.mp hy with hy | hy
    · exact h.queued y (List.mem_append_left _ hy) hne
    rcases List.mem_append.mp hy with hy | hy
    · exact h.queued y (List.mem_append_right _ hy) hne
    · exact not_takes_sentFor (fun hne f hf => h.owed hne f (hsent f hf)) hy hne

end Node

end AbkFido
