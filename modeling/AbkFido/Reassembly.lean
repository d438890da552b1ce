/-
Every message that is dispatched came in as one.

A channel that INIT opened expects nothing, and a continuation packet
completes it; channels are found without their transport; a refused
initialization packet does not end the message it comes into the middle of;
and an INIT may open a second channel for a cid. In a run without these
(`Orderly`) an unfinished channel is always `Traced`: the newest packets on
its cid are what it holds. So `Reassembled` holds, a completed message being
the newest packets on its cid.
-/
import AbkFido.Isolation
import AbkFido.Lib.Past

namespace AbkFido

/-- The packets on a cid, the newest first, each with its transport. -/
def packetsOn (cid : UInt32) (log : List HidEvent) : List (Transport × Packet) := log.filterMap fun
  | .packet t p => if p.cid = cid then some (t, p) else none
  | _ => none

/-- The newest packets on a message's cid carry it, all on the transport on
which it is dispatched. -/
def Justified : HidEvent → List HidEvent → Prop
  | .dispatched t m, past => ∃ init conts older, m.CarriedBy init conts ∧
      packetsOn m.cid past = (init :: conts).reverse.map (t, ·) ++ older
  | _, _ => True

structure HidLayer.Reassembled (s : HidLayer) : Prop where
  justified : Past.Always Justified s.log
  bounded : ∀ i, (s.hid.channels i).inUse = true →
    (s.hid.channels i).msg.length ≤ (s.hid.channels i).expectedLen ∧ (s.hid.channels i).expectedLen ≤ maxMsg

/-- A packet that is too large is refused, and no more. -/
def Packet.tooLarge (p : Packet) : Prop := p.starts = true ∧ maxMsg < p.expected

/-- A continuation packet that is taken goes on with a message that was
begun, and the packet before it on its cid was one of the message, on the
same transport. No INIT opens a channel before that of an unfinished message
on the same cid. -/
def HidLayer.Orderly (s : HidLayer) : HidAction → Prop
  | .packet t p _ => p.starts = false → ∀ i ∈ s.hid.findChannelLocked p.cid, p.header = (s.hid.channels i).nextSeq →
      0 < (s.hid.channels i).expectedLen ∧
        ∀ x ∈ (packetsOn p.cid s.log).head?, x.1 = t ∧ ¬ x.2.tooLarge
  | .serve t => ∀ m ∈ s.serving t, m.IsInit →
      ∀ i ∈ s.hid.unfinished s.hid.nextCidLocked.1, ∀ j ∈ s.hid.freeChannel, i < j

/-! ## Unfinished channels -/

/-- Packets of a message, but not all. -/
structure Begun (init : Packet) (conts : List Packet) : Prop where
  starts : init.starts = true
  le : init.expected ≤ maxMsg
  numbered : Numbered init.cid conts
  part : conts.length < contCount init.expected

/-- A channel holds a message, and these are the newest packets on its cid,
but for some that were refused. -/
def Hid.Traced (h : Hid) (log : List HidEvent) (i : Fin maxChannels) : Prop :=
  ∃ t init conts refused older, h.Holds i init conts ∧ Begun init conts ∧ (∀ x ∈ refused, x.2.tooLarge) ∧
    packetsOn init.cid log = refused ++ (init :: conts).reverse.map (t, ·) ++ older

/-- A channel in use expects nothing, or is traced. -/
structure HidLayer.Tracing (s : HidLayer) : Prop where
  justified : Past.Always Justified s.log
  opened : ∀ i, (s.hid.channels i).inUse = true → (s.hid.channels i).expectedLen = 0 → (s.hid.channels i).msg = []
  traced : ∀ i, (s.hid.channels i).inUse = true → 0 < (s.hid.channels i).expectedLen → s.hid.Traced s.log i

theorem packetsOn_packet_self (t : Transport) (p : Packet) (log : List HidEvent) :
    packetsOn p.cid (.packet t p :: log) = (t, p) :: packetsOn p.cid log := by
  simp [packetsOn]

theorem packetsOn_packet_ne {cid : UInt32} {p : Packet} (h : p.cid ≠ cid) (t : Transport) (log : List HidEvent) :
    packetsOn cid (.packet t p :: log) = packetsOn cid log := by
  simp [packetsOn, h]

theorem packetsOn_dispatched (cid : UInt32) (t : Transport) (m : Msg) (log : List HidEvent) :
    packetsOn cid (.dispatched t m :: log) = packetsOn cid log := rfl

theorem packetsOn_handed (cid cid' : UInt32) (inUse : List UInt32) (log : List HidEvent) :
    packetsOn cid (.handed cid' inUse :: log) = packetsOn cid log := rfl

namespace HidLayer

variable {s s' : HidLayer}

theorem Tracing.reassembled (h : s.Tracing) : s.Reassembled where
  justified := h.justified
  bounded i huse := by
    rcases Nat.eq_zero_or_pos (s.hid.channels i).expectedLen with hzero | hpos
    · rw [h.opened i huse hzero, hzero]
      exact ⟨Nat.le_refl 0, Nat.zero_le _⟩
    · obtain ⟨t, init, conts, _, _, hold, hbegun, _⟩ := h.traced i huse hpos
      have hmsg : (s.hid.channels i).msg = carried init conts := congrArg Channel.msg hold.2
      have hexp : (s.hid.channels i).expectedLen = init.expected := congrArg Channel.expectedLen hold.2
      rw [hmsg, hexp, length_carried]
      exact ⟨Nat.min_le_left .., hbegun.le⟩

/-- No message without an initialization packet on its transport. -/
theorem Reassembled.exists_init (h : s.Reassembled) {cid : UInt32} {t : Transport} {m : Msg}
    (hm : (t, m) ∈ dispatchedOn cid s.log) : ∃ init, (t, init) ∈ packetsOn cid s.log ∧ init.starts = true := by
  obtain ⟨e, he, heq⟩ := List.mem_filterMap.mp hm
  obtain ⟨newer, past, hlog⟩ := List.append_of_mem he
  cases e with
  | packet | handed => cases heq
  | dispatched t' m' =>
    obtain ⟨hcid, heq⟩ := Option.ite_none_right_eq_some.mp heq
    cases heq
    have hjust := h.justified
    rw [hlog] at hjust
    obtain ⟨init, conts, older, hcarried, hpackets⟩ := hjust.of_append
    refine ⟨init, ?_, hcarried.starts⟩
    have hmem : (t, init) ∈ packetsOn cid past := by
      rw [← hcid, hpackets]
      simp
    rw [hlog, packetsOn, List.filterMap_append, List.filterMap_cons]
    exact List.mem_append_right _ hmem

theorem Tracing.boot : HidLayer.boot.Tracing where
  justified := trivial
  opened i huse := by simp [HidLayer.boot, Hid.boot, Channel.zero] at huse
  traced i huse := by simp [HidLayer.boot, Hid.boot, Channel.zero] at huse

end HidLayer

namespace Hid.Traced

variable {h h' : Hid} {log log' : List HidEvent} {i : Fin maxChannels}

theorem imp (hi : h.Traced log i) (hold : ∀ init conts, h.Holds i init conts → Begun init conts → h'.Holds i init conts)
    (hlog : packetsOn (h.channels i).cid log' = packetsOn (h.channels i).cid log) : h'.Traced log' i := by
  obtain ⟨t, init, conts, refused, older, hi, hbegun, hrefused, heq⟩ := hi
  rw [hi.cid_eq, heq] at hlog
  exact ⟨t, init, conts, refused, older, hold init conts hi hbegun, hbegun, hrefused, hlog⟩

/-- A packet that is not taken changes nothing. -/
theorem refused (hi : h.Traced log i) {p : Packet} (hp : p.tooLarge ∨ h.findChannelLocked p.cid = none) (t : Transport) :
    h.Traced (.packet t p :: log) i := by
  obtain ⟨t₀, init, conts, refused, older, hi, hbegun, hrefused, heq⟩ := hi
  by_cases hcid : p.cid = init.cid
  · rcases hp with hp | hp
    · refine ⟨t₀, init, conts, (t, p) :: refused, older, hi, hbegun, List.forall_mem_cons.mpr ⟨hp, hrefused⟩, ?_⟩
      rw [← hcid, packetsOn_packet_self, hcid, heq]
      rfl
    · rw [hcid, hi.1] at hp
      cases hp
  · refine ⟨t₀, init, conts, refused, older, hi, hbegun, hrefused, ?_⟩
    rw [packetsOn_packet_ne hcid, heq]

end Hid.Traced

namespace HidLayer

variable {s s' : HidLayer} {t : Transport} {p : Packet} {allocOk : Bool}

theorem packet_log (h : Past.Always Justified s.log) (hstep : s.step (.packet t p allocOk) = some s')
    (hcomplete : ∀ cmd data, (s.hid.processPacketLocked allocOk p).1 = .complete cmd data →
      Justified (.dispatched t ⟨p.cid, cmd, data⟩) (.packet t p :: s.log)) :
    Past.Always Justified s'.log ∧ ∀ cid, packetsOn cid s'.log = packetsOn cid (.packet t p :: s.log) := by
  obtain ⟨_, _, ⟨cmd, data, hr, _, hlog⟩ | ⟨_, _, hlog⟩⟩ := packet_step hstep
  · rw [hlog]
    exact ⟨⟨hcomplete cmd data hr, trivial, h⟩, fun cid => packetsOn_dispatched ..⟩
  · rw [hlog]
    exact ⟨⟨trivial, h⟩, fun cid => rfl⟩

namespace Tracing

/-- A packet that sets one channel leaves the others traced. -/
theorem set (h : s.Tracing) {j : Fin maxChannels} {ch : Channel} (hhid : s'.hid = s.hid.setChannel j ch)
    (hj : ∀ i, s.hid.findChannelLocked p.cid = some i → i = j) (hcid : ch.inUse = true → ch.cid = p.cid)
    (hnew : ch.inUse = true → 0 < ch.expectedLen ∧ s'.hid.Traced s'.log j) (hjust : Past.Always Justified s'.log)
    (hlog : ∀ cid, packetsOn cid s'.log = packetsOn cid (.packet t p :: s.log)) : s'.Tracing := by
  refine ⟨hjust, fun i huse hzero => ?_, fun i huse hpos => ?_⟩
  · rw [hhid] at huse hzero ⊢
    by_cases hij : i = j
    · subst hij
      rw [Hid.setChannel_self] at huse hzero
      have hpos := (hnew huse).1
      omega
    · rw [Hid.setChannel_of_ne hij] at huse hzero ⊢
      exact h.opened i huse hzero
  · by_cases hij : i = j
    · subst hij
      rw [hhid, Hid.setChannel_self] at huse
      exact (hnew huse).2
    · rw [hhid, Hid.setChannel_of_ne hij] at huse hpos
      have htr := h.traced i huse hpos
      have hne : p.cid ≠ (s.hid.channels i).cid := by
        obtain ⟨_, init, conts, _, _, hold, _⟩ := htr
        intro heq
        exact hij (hj i (by rw [heq, hold.cid_eq]; exact hold.1))
      refine htr.imp (fun init conts hold _ => hold.setChannel (by rw [hhid]) hij fun _ huse' => ?_) ?_
      · rw [hcid huse', ← hold.cid_eq]
        exact hne
      · rw [hlog, packetsOn_packet_ne hne]

/-- A packet that is not taken. -/
theorem same (h : s.Tracing) (hhid : s'.hid = s.hid) (hlog : s'.log = .packet t p :: s.log)
    (hp : p.tooLarge ∨ s.hid.findChannelLocked p.cid = none) : s'.Tracing := by
  refine ⟨?_, ?_, fun i huse hpos => ?_⟩
  · rw [hlog]
    exact ⟨trivial, h.justified⟩
  · rw [hhid]
    exact h.opened
  · rw [hhid] at huse hpos
    rw [hhid, hlog]
    exact (h.traced i huse hpos).refused hp t

/-- A packet that begins a message. -/
theorem of_begin (h : s.Tracing) (hp : p.starts = true) (hlen : p.expected ≤ maxMsg)
    (hstep : s.step (.packet t p allocOk) = some s') : s'.Tracing := by
  obtain ⟨_, hhid, _⟩ := packet_step hstep
  have hj : ∀ i, s.hid.findChannelLocked p.cid = some i → i = s.hid.slotFor p.cid := by
    intro i hfind
    rw [Hid.slotFor, hfind]
    rfl
  rcases s.hid.process_begin allocOk hp hlen with ⟨hall, hr, hset⟩ | ⟨hmore, hr, hset, hold⟩
  · obtain ⟨hjust, hlog⟩ := packet_log h.justified hstep fun cmd data heq => by
      rw [hr] at heq
      cases allocOk with
      | false => cases heq
      | true =>
        cases heq
        have hm := carriedBy_of_complete hp (numbered_nil p.cid) (by rw [List.length_nil]; omega)
        exact ⟨p, [], packetsOn p.cid s.log, hm, packetsOn_packet_self ..⟩
    exact h.set (hhid.trans hset) hj (by simp [Channel.zero]) (by simp [Channel.zero]) hjust hlog
  · obtain ⟨hjust, hlog⟩ := packet_log h.justified hstep fun cmd data heq => by
      rw [hr] at heq
      cases heq
    refine h.set (hhid.trans hset) hj (fun _ => rfl) (fun _ => ⟨?_, ?_⟩) hjust hlog
    · show 0 < p.expected
      rw [contCount] at hmore
      omega
    · refine ⟨t, p, [], [], packetsOn p.cid s.log, by rw [hhid]; exact hold, ⟨hp, hlen, numbered_nil p.cid, hmore⟩,
        by simp, ?_⟩
      rw [hlog, packetsOn_packet_self]
      rfl

/-- A packet that goes on with a message. -/
theorem of_continue (h : s.Tracing) {i : Fin maxChannels} (hp : p.starts = false)
    (hfind : s.hid.findChannelLocked p.cid = some i) (hseq : p.header = (s.hid.channels i).nextSeq)
    (hok : s.Orderly (.packet t p allocOk)) (hstep : s.step (.packet t p allocOk) = some s') : s'.Tracing := by
  obtain ⟨_, hhid, _⟩ := packet_step hstep
  obtain ⟨hpos, hhead⟩ := hok hp i hfind hseq
  obtain ⟨⟨huse, hi⟩, _⟩ := Hid.find_eq_some.mp hfind
  obtain ⟨t₀, init, conts, refused, older, hold, hbegun, hrefused, heq⟩ := h.traced i huse hpos
  have hcid : p.cid = init.cid := by rw [← hi, hold.cid_eq]
  have hnext : p.header = .ofNat conts.length := hseq.trans (congrArg Channel.nextSeq hold.2)
  -- The packet before is one of the message.
  obtain ⟨rfl, rfl⟩ : refused = [] ∧ t₀ = t := by
    rw [hcid, heq] at hhead
    cases refused with
    | cons x refused => exact absurd (hrefused x (by simp)) (hhead x (by simp)).2
    | nil =>
      refine ⟨rfl, ?_⟩
      rw [List.nil_append, List.head?_append_of_ne_nil _ (by simp), List.head?_map, List.head?_reverse] at hhead
      obtain ⟨q, hq⟩ : ∃ q, (init :: conts).getLast? = some q := ⟨_, List.getLast?_eq_some_getLast (by simp)⟩
      exact (hhead (t₀, q) (by rw [hq]; rfl)).1
  have hnum : Numbered init.cid (conts ++ [p]) := numbered_concat.mpr ⟨hbegun.numbered, hcid, hp, hnext⟩
  have hpackets : packetsOn p.cid (.packet t₀ p :: s.log) =
      (init :: (conts ++ [p])).reverse.map (t₀, ·) ++ older := by
    rw [packetsOn_packet_self, hcid, heq]
    simp
  rcases s.hid.process_continue allocOk hold hcid hp hnext with ⟨hall, hr, hset⟩ | ⟨hmore, hr, hset, hold'⟩
  · obtain ⟨hjust, hlog⟩ := packet_log h.justified hstep fun cmd data heq => by
      rw [hr] at heq
      cases allocOk with
      | false => cases heq
      | true =>
        cases heq
        have hpart := hbegun.part
        have hm := carriedBy_of_complete hbegun.starts hnum (by simp at hall ⊢; omega)
        rw [hcid] at hpackets ⊢
        exact ⟨init, conts ++ [p], older, hm, hpackets⟩
    exact h.set (hhid.trans hset) (by simp [hfind]) (by simp [Channel.zero]) (by simp [Channel.zero]) hjust hlog
  · obtain ⟨hjust, hlog⟩ := packet_log h.justified hstep fun cmd data heq => by
      rw [hr] at heq
      cases heq
    refine h.set (hhid.trans hset) (by simp [hfind]) (fun _ => hi) (fun _ => ⟨hpos, ?_⟩) hjust hlog
    refine ⟨t₀, init, conts ++ [p], [], older, by rw [hhid]; exact hold', ⟨hbegun.starts, hbegun.le, hnum, hmore⟩,
      by simp, ?_⟩
    rw [hlog, ← hcid, hpackets]
    rfl

theorem packet (h : s.Tracing) (hok : s.Orderly (.packet t p allocOk)) (hstep : s.step (.packet t p allocOk) = some s') :
    s'.Tracing := by
  obtain ⟨_, hhid, hcases⟩ := packet_step hstep
  have hrefused : ∀ err, (s.hid.processPacketLocked allocOk p).1 = .refused err → s'.log = .packet t p :: s.log := by
    intro err hr
    rcases hcases with ⟨cmd, data, hr', _⟩ | ⟨_, _, hlog⟩
    · rw [hr] at hr'
      cases hr'
    · exact hlog
  rcases Hid.process_cases allocOk p s.hid with ⟨hp, hlen, heq⟩ | ⟨hp, hlen, _⟩ | ⟨_, hfind, heq⟩ | ⟨_, i, hfind, _, heq⟩ |
    ⟨hp, i, hfind, hseq, _⟩
  · exact h.same (by rw [hhid, heq]) (hrefused _ (by rw [heq])) (.inl ⟨hp, hlen⟩)
  · exact h.of_begin hp hlen hstep
  · exact h.same (by rw [hhid, heq]) (hrefused _ (by rw [heq])) (.inr hfind)
  · have hlog := hrefused _ (by rw [heq])
    have hset : (s.hid.processPacketLocked allocOk p).2 = s.hid.setChannel i .zero := by rw [heq]
    refine h.set (p := p) (t := t) (hhid.trans hset) (by simp [hfind]) (by simp [Channel.zero]) (by simp [Channel.zero])
      ?_ ?_
    · rw [hlog]
      exact ⟨trivial, h.justified⟩
    · rw [hlog]
      exact fun _ => rfl
  · exact h.of_continue hp hfind hseq hok hstep

/-- A step that leaves the channels as they are, but for marks. -/
theorem serve_same (h : s.Tracing) (hsame : ∀ i, (s'.hid.channels i).unmarked = (s.hid.channels i).unmarked)
    (hjust : Past.Always Justified s'.log) (hlog : ∀ cid, packetsOn cid s'.log = packetsOn cid s.log) : s'.Tracing := by
  refine ⟨hjust, fun i => ?_, fun i => ?_⟩
  · obtain ⟨huse, _, hlen, hmsg⟩ := Channel.of_unmarked (hsame i)
    rw [huse, hlen, hmsg]
    exact h.opened i
  · obtain ⟨huse, _, hlen, _⟩ := Channel.of_unmarked (hsame i)
    rw [huse, hlen]
    intro hin hpos
    refine (h.traced i hin hpos).imp (fun init conts hold _ => hold.frame (hsame i) fun j hj => ?_) (hlog _)
    obtain ⟨huse, hcid, _⟩ := Channel.of_unmarked (hsame j)
    rw [huse, hcid]
    exact (Hid.find_eq_some.mp hold.1).2 j hj

/-- An INIT. -/
theorem serve_init (h : s.Tracing) {j : Fin maxChannels} (hfree : s.hid.freeChannel = some j)
    (hchannels : s'.hid.channels =
      (s.hid.setChannel j { Channel.zero with inUse := true, cid := s.hid.nextCidLocked.1 }).channels)
    (hok : ∀ i ∈ s.hid.unfinished s.hid.nextCidLocked.1, i < j) (hjust : Past.Always Justified s'.log)
    (hlog : ∀ cid, packetsOn cid s'.log = packetsOn cid s.log) : s'.Tracing := by
  refine ⟨hjust, fun i huse hzero => ?_, fun i huse hpos => ?_⟩
  · rw [hchannels] at huse hzero ⊢
    by_cases hij : i = j
    · subst hij
      rw [Hid.setChannel_self]
      rfl
    · rw [Hid.setChannel_of_ne hij] at huse hzero ⊢
      exact h.opened i huse hzero
  · rw [hchannels] at huse hpos
    by_cases hij : i = j
    · subst hij
      rw [Hid.setChannel_self] at hpos
      exact absurd hpos (Nat.lt_irrefl 0)
    · rw [Hid.setChannel_of_ne hij] at huse hpos
      refine (h.traced i huse hpos).imp (fun init conts hold hbegun => ?_) (hlog _)
      refine hold.setChannel hchannels hij fun hlt _ hcid => ?_
      have hcid : s.hid.nextCidLocked.1 = init.cid := hcid
      have hun := hold.unfinished hbegun.part
      rw [← hcid] at hun
      have := hok i hun
      omega

theorem serve (h : s.Tracing) (hok : s.Orderly (.serve t)) (hstep : s.step (.serve t) = some s') : s'.Tracing := by
  obtain ⟨m, hm, hhid, _, hcases⟩ := serve_step hstep
  have hlog : Past.Always Justified s'.log ∧ ∀ cid, packetsOn cid s'.log = packetsOn cid s.log := by
    rcases hcases with ⟨_, hlog⟩ | ⟨_, hlog⟩
    · rw [hlog]
      exact ⟨⟨trivial, h.justified⟩, fun cid => packetsOn_handed ..⟩
    · rw [hlog]
      exact ⟨h.justified, fun _ => rfl⟩
  rcases s.hid.dispatch_cases m with ⟨hi, heq⟩ | ⟨_, heq | ⟨j, heq⟩⟩
  · rcases s.hid.init_sets with ⟨_, hch⟩ | ⟨j, hfree, hch⟩
    · exact h.serve_same (fun i => by rw [hhid, heq, hch]) hlog.1 hlog.2
    · exact h.serve_init hfree (by rw [hhid, heq, hch]) (fun i hun => hok m hm hi i hun j hfree) hlog.1 hlog.2
  · exact h.serve_same (fun i => by rw [hhid, heq]) hlog.1 hlog.2
  · exact h.serve_same (fun i => by rw [hhid, heq, Hid.mark_unmarked]) hlog.1 hlog.2

end Tracing

/-! ## Runs -/

/-- **Every message a run dispatches came in as one, if the run is orderly.** -/
theorem reassembled_of_orderly (as : List HidAction) (s : HidLayer) (h : Runs step Orderly boot as s) : s.Reassembled := by
  refine (h.invariant (I := Tracing) (fun s a s' hs hok hstep => ?_) Tracing.boot).reassembled
  cases a with
  | packet t p allocOk => exact hs.packet hok hstep
  | serve t => exact hs.serve hok hstep

instance (p : Packet) : Decidable p.tooLarge := inferInstanceAs (Decidable (_ ∧ _))

instance (s : HidLayer) : ∀ a, Decidable (s.Orderly a)
  | .packet t p _ =>
    -- not by trying every packet there is
    let : Decidable (∀ x ∈ (packetsOn p.cid s.log).head?, x.1 = t ∧ ¬ x.2.tooLarge) :=
      Option.decidableForallMem _
    inferInstanceAs (Decidable (p.starts = false → ∀ i ∈ s.hid.findChannelLocked p.cid,
      p.header = (s.hid.channels i).nextSeq → 0 < (s.hid.channels i).expectedLen ∧
        ∀ x ∈ (packetsOn p.cid s.log).head?, x.1 = t ∧ ¬ x.2.tooLarge))
  | .serve t => inferInstanceAs (Decidable (∀ m ∈ s.serving t, m.IsInit →
      ∀ i ∈ s.hid.unfinished s.hid.nextCidLocked.1, ∀ j ∈ s.hid.freeChannel, i < j))

theorem reassembled_sharedRun : ∃ s, Runs step Orderly boot sharedRun s ∧
    dispatchedOn 5 s.log = [(.usb, ⟨5, hidPing, payload⟩)] ∧ s.Reassembled := by
  have hexec : (Runs.exec step (fun s a => decide (s.Orderly a)) boot sharedRun).map (fun s => dispatchedOn 5 s.log) =
      some [(.usb, ⟨5, hidPing, payload⟩)] := by decide +kernel
  obtain ⟨s, hs, hlog⟩ := Option.map_eq_some_iff.mp hexec
  have hrun : Runs step Orderly boot sharedRun s := Runs.of_exec (fun _ _ => of_decide_eq_true) hs
  exact ⟨s, hrun, hlog, reassembled_of_orderly sharedRun s hrun⟩

/-- An INIT, and a continuation packet on the channel it opened. -/
def unbegunRun : List HidAction :=
  [.packet .usb (initPacket cidBroadcast hidInit 8 []) true, .serve .usb, .packet .usb (ends 1) true]

theorem exists_not_reassembled : ∃ s, Runs step (fun _ _ => True) boot unbegunRun s ∧
    dispatchedOn 1 s.log = [(.usb, ⟨1, 0, []⟩)] ∧ ¬ s.Reassembled := by
  have hexec : (Runs.exec step (fun _ _ => true) boot unbegunRun).map
      (fun s => (dispatchedOn 1 s.log, packetsOn 1 s.log)) = some ([(.usb, ⟨1, 0, []⟩)], [(.usb, ends 1)]) := by
    decide +kernel
  obtain ⟨s, hs, hlog⟩ := Option.map_eq_some_iff.mp hexec
  obtain ⟨hdispatched, hpackets⟩ := Prod.mk.inj hlog
  refine ⟨s, Runs.of_exec (fun _ _ _ => trivial) hs, hdispatched, fun h => ?_⟩
  obtain ⟨init, hmem, hstarts⟩ := h.exists_init (by rw [hdispatched]; exact List.mem_singleton_self _)
  rw [hpackets, List.mem_singleton] at hmem
  cases hmem
  exact absurd hstarts (by decide +kernel)

end HidLayer

end AbkFido
