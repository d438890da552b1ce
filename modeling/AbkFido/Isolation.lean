/-
What a message on one channel has to fear from all others.

Nothing that happens on other cids touches the channel of an unfinished
message but for two steps: an initialization packet that finds no channel
free is given the first one, whoever has it, and an INIT may hand out the
message's own cid to a channel before it. In a run that spares a cid these
steps a message on it is dispatched, as its packets carry it, when the last
of them is taken (`dispatchedOn_of_carried`).
-/
import AbkFido.Fragment

namespace AbkFido

/-- The packets on a cid, in the order they are taken. -/
def HidAction.packetOn (cid : UInt32) : HidAction → Option (Transport × Packet)
  | .packet t p _ => if p.cid = cid then some (t, p) else none
  | .serve _ => none

def sentOn (cid : UInt32) (as : List HidAction) : List (Transport × Packet) := as.filterMap (HidAction.packetOn cid)

/-- The messages dispatched on a cid, the newest first. -/
def dispatchedOn (cid : UInt32) (log : List HidEvent) : List (Transport × Msg) := log.filterMap fun
  | .dispatched t m => if m.cid = cid then some (t, m) else none
  | _ => none

/-- Memory is left for the message. No other packet is given the channel of
an unfinished message, and no INIT opens one before it for its cid. -/
def HidLayer.Spares (cid : UInt32) (s : HidLayer) : HidAction → Prop
  | .packet _ p allocOk =>
    if p.cid = cid then allocOk = true
    else p.starts = true → p.expected ≤ maxMsg → s.hid.findChannelLocked p.cid = none →
      s.hid.unfinished cid ≠ some (s.hid.slotFor p.cid)
  | .serve t => ∀ m ∈ s.serving t, m.IsInit → s.hid.nextCidLocked.1 = cid →
      ∀ i ∈ s.hid.unfinished cid, ∀ j ∈ s.hid.freeChannel, i < j

namespace HidLayer

variable {s s' : HidLayer} {a : HidAction} {i : Fin maxChannels} {init : Packet} {conts : List Packet} {cid : UInt32}

/-- What happens on other cids leaves an unfinished message as it is. -/
theorem holds_of_other (hstep : s.step a = some s') (hother : a.packetOn init.cid = none) (hok : s.Spares init.cid a)
    (hold : s.hid.Holds i init conts) (hpart : conts.length < contCount init.expected) : s'.hid.Holds i init conts := by
  have hun := hold.unfinished hpart
  cases a with
  | packet t p allocOk =>
    have hne : p.cid ≠ init.cid := by simpa [HidAction.packetOn] using hother
    obtain ⟨_, hhid, _⟩ := packet_step hstep
    rw [hhid]
    rcases Hid.process_sets allocOk p s.hid with heq | ⟨j, ch, heq, hcid, hj⟩
    · rwa [heq]
    · rw [heq]
      refine hold.setChannel rfl ?_ fun _ huse => by rw [hcid huse]; exact hne
      rintro rfl
      rcases hj with hp | ⟨hp, hlen, hnone, heq⟩
      · exact hne ((Hid.find_eq_some.mp hp).1.2.symm.trans hold.cid_eq)
      · rw [Spares, if_neg hne, hun] at hok
        exact hok hp hlen hnone (by rw [heq])
  | serve t =>
    obtain ⟨m, hm, hhid, _, _⟩ := serve_step hstep
    rw [hhid]
    rcases s.hid.dispatch_cases m with ⟨hi, heq⟩ | ⟨_, heq | ⟨j, heq⟩⟩
    · rw [heq]
      rcases s.hid.init_sets with ⟨_, hch⟩ | ⟨j, hfree, hch⟩
      · exact hold.frame (by rw [hch]) (by rw [hch]; exact (Hid.find_eq_some.mp hold.1).2)
      · refine hold.setChannel hch ?_ fun hlt _ hcid => ?_
        · rintro rfl
          have hfalse := (Hid.free_eq_some.mp hfree).1
          rw [hold.inUse] at hfalse
          cases hfalse
        · have hle := hok m hm hi hcid i hun j hfree
          omega
    · rwa [heq]
    · rw [heq]
      exact hold.mark j

/-- What happens on other cids dispatches nothing on this one. -/
theorem dispatchedOn_of_other (hstep : s.step a = some s') (hother : a.packetOn cid = none) :
    dispatchedOn cid s'.log = dispatchedOn cid s.log := by
  cases a with
  | packet t p allocOk =>
    have hne : p.cid ≠ cid := by simpa [HidAction.packetOn] using hother
    obtain ⟨_, _, ⟨cmd, data, _, _, hlog⟩ | ⟨_, _, hlog⟩⟩ := packet_step hstep
    · rw [hlog]
      simp [dispatchedOn, hne]
    · rw [hlog]
      simp [dispatchedOn]
  | serve t =>
    obtain ⟨m, _, _, _, ⟨_, hlog⟩ | ⟨_, hlog⟩⟩ := serve_step hstep
    · rw [hlog]
      simp [dispatchedOn]
    · rw [hlog]

theorem dispatchedOn_of_complete {t : Transport} {p : Packet} {allocOk : Bool} {cmd : UInt8} {data : List UInt8}
    (hstep : s.step (.packet t p allocOk) = some s') (hr : (s.hid.processPacketLocked allocOk p).1 = .complete cmd data) :
    dispatchedOn p.cid s'.log = (t, ⟨p.cid, cmd, data⟩) :: dispatchedOn p.cid s.log := by
  obtain ⟨_, _, ⟨cmd', data', hr', _, hlog⟩ | ⟨hr', _, _⟩⟩ := packet_step hstep
  · rw [hr] at hr'
    cases hr'
    rw [hlog]
    simp [dispatchedOn]
  · exact absurd hr (hr' cmd data)

theorem dispatchedOn_of_nothing {t : Transport} {p : Packet} {allocOk : Bool}
    (hstep : s.step (.packet t p allocOk) = some s') (hr : (s.hid.processPacketLocked allocOk p).1 = .nothing) :
    dispatchedOn cid s'.log = dispatchedOn cid s.log := by
  obtain ⟨_, _, ⟨cmd, data, hr', _, _⟩ | ⟨_, _, hlog⟩⟩ := packet_step hstep
  · rw [hr] at hr'
    cases hr'
  · rw [hlog]
    simp [dispatchedOn]

/-- A step is the next packet on a cid, or on no packet of it. -/
theorem sentOn_cons_cases {t : Transport} {p : Packet} {xs : List (Transport × Packet)} {as : List HidAction}
    (h : sentOn cid (a :: as) = (t, p) :: xs) :
    (a.packetOn cid = none ∧ sentOn cid as = (t, p) :: xs) ∨
    (∃ allocOk, a = .packet t p allocOk ∧ p.cid = cid ∧ sentOn cid as = xs) := by
  cases ha : a.packetOn cid with
  | none =>
    rw [sentOn, List.filterMap_cons_none ha] at h
    exact .inl ⟨rfl, h⟩
  | some y =>
    rw [sentOn, List.filterMap_cons_some ha] at h
    cases h
    cases a with
    | packet t p allocOk =>
      rw [HidAction.packetOn] at ha
      split at ha
      · next hcid =>
        cases ha
        exact .inr ⟨allocOk, rfl, hcid, rfl⟩
      · cases ha
    | serve t => cases ha

/-! ## Runs -/

/-- Without packets on a cid nothing is dispatched there. -/
theorem dispatchedOn_of_none {ok : HidLayer → HidAction → Prop} {as : List HidAction} (h : Runs step ok s as s')
    (hsent : sentOn cid as = []) : dispatchedOn cid s'.log = dispatchedOn cid s.log := by
  induction h with
  | nil => rfl
  | @cons s a _ as _ _ hstep _ ih =>
    have ha : a.packetOn cid = none := List.filterMap_eq_nil_iff.mp hsent a (by simp)
    rw [sentOn, List.filterMap_cons_none ha] at hsent
    rw [ih hsent, dispatchedOn_of_other hstep ha]

/-- From an unfinished message on, the rest of its packets dispatch it if
they are all there. -/
theorem dispatchedOn_of_holds {t : Transport} {as : List HidAction} (h : Runs step (Spares init.cid) s as s')
    {rest : List Packet} (hold : s.hid.Holds i init conts) (hpart : conts.length < contCount init.expected)
    (hnum : Numbered init.cid (conts ++ rest)) (hmost : (conts ++ rest).length ≤ contCount init.expected)
    (hsent : sentOn init.cid as = rest.map (t, ·)) :
    dispatchedOn init.cid s'.log =
      if (conts ++ rest).length = contCount init.expected then
        (t, ⟨init.cid, init.cmd, carried init (conts ++ rest)⟩) :: dispatchedOn init.cid s.log
      else dispatchedOn init.cid s.log := by
  induction h generalizing conts rest with
  | nil s =>
    have hrest : rest = [] := by simpa [sentOn] using hsent.symm
    rw [hrest, List.append_nil, if_neg (by omega)]
  | @cons s a s₁ as _ hok hstep hrest ih =>
    cases rest with
    | nil =>
      rw [List.append_nil, if_neg (by omega)]
      exact dispatchedOn_of_none (.cons hok hstep hrest) hsent
    | cons p rest =>
      rcases sentOn_cons_cases hsent with ⟨ha, hsent⟩ | ⟨allocOk, rfl, hcid, hsent⟩
      · rw [ih (holds_of_other hstep ha hok hold hpart) hpart hnum hmost hsent, dispatchedOn_of_other hstep ha]
      · rw [List.append_cons] at hnum hmost ⊢
        have hok : allocOk = true := by rwa [Spares, if_pos hcid] at hok
        obtain ⟨_, _, hp, hseq⟩ := numbered_concat.mp hnum.of_append
        obtain ⟨_, hhid, _⟩ := packet_step hstep
        rcases s.hid.process_continue allocOk hold hcid hp hseq with ⟨hlast, hr, _⟩ | ⟨hmore, hr, _, hold'⟩
        · have hnil : rest = [] := by
            rw [List.length_append] at hmost
            exact List.length_eq_zero_iff.mp (by omega)
          subst hnil
          rw [List.append_nil] at hmost ⊢
          rw [if_pos hok] at hr
          have hdispatched := dispatchedOn_of_complete hstep hr
          rw [hcid] at hdispatched
          rw [dispatchedOn_of_none hrest hsent, hdispatched, if_pos (Nat.le_antisymm hmost hlast)]
        · rw [ih (by rw [hhid]; exact hold') hmore hnum hmost hsent, dispatchedOn_of_nothing hstep hr]

/-- With its last packet a message is dispatched, as it was sent, if the
steps on other cids spare its own. -/
theorem dispatchedOn_of_carried {m : Msg} {t : Transport} {more : List Packet} {as : List HidAction}
    (hm : m.CarriedBy init (conts ++ more)) (hlen : m.data.length ≤ maxMsg)
    (hsent : sentOn m.cid as = (init :: conts).map (t, ·)) (h : Runs step (Spares m.cid) s as s') :
    dispatchedOn m.cid s'.log =
      if more = [] then (t, m) :: dispatchedOn m.cid s.log else dispatchedOn m.cid s.log := by
  have hcount := hm.length
  rw [← hm.expected, List.length_append] at hcount
  induction h with
  | nil s => cases hsent
  | @cons s a s₁ as _ hok hstep hrest ih =>
    rcases sentOn_cons_cases hsent with ⟨ha, hsent⟩ | ⟨allocOk, rfl, hcid, hsent⟩
    · rw [ih hsent, dispatchedOn_of_other hstep ha]
    · have hok : allocOk = true := by rwa [Spares, if_pos hcid] at hok
      obtain ⟨_, hhid, _⟩ := packet_step hstep
      rcases s.hid.process_begin allocOk hm.starts (by rw [hm.expected]; exact hlen) with ⟨hall, hr, _⟩ | ⟨hpart, hr, _, hold⟩
      · have hmore : more = [] := List.length_eq_zero_iff.mp (by omega)
        have hnil : conts = [] := List.length_eq_zero_iff.mp (by omega)
        subst hmore hnil
        rw [List.append_nil] at hm
        rw [if_pos hok] at hr
        have hdispatched := dispatchedOn_of_complete hstep hr
        rw [hm.msg_eq, hcid] at hdispatched
        rw [dispatchedOn_of_none hrest hsent, hdispatched, if_pos rfl]
      · have hnum : Numbered init.cid ([] ++ conts) := by rw [hm.cid]; exact hm.numbered.of_append
        rw [← hcid] at hrest hsent ⊢
        have hnone : ([] : List Packet).length < contCount init.expected := hpart
        rw [dispatchedOn_of_holds hrest (by rw [hhid]; exact hold) hnone hnum (by simp; omega) hsent,
          dispatchedOn_of_nothing hstep hr, List.nil_append]
        by_cases hmore : more = []
        · subst hmore
          rw [List.append_nil] at hm
          rw [if_pos rfl, if_pos (by simpa using hcount), hm.msg_eq]
        · have hpos := List.length_pos_iff.mpr hmore
          rw [if_neg hmore, if_neg (by omega)]

instance (cid : UInt32) (s : HidLayer) : ∀ a, Decidable (s.Spares cid a)
  | .packet .. => inferInstanceAs (Decidable (ite ..))
  | .serve t => inferInstanceAs (Decidable (∀ m ∈ s.serving t, m.IsInit → s.hid.nextCidLocked.1 = cid →
      ∀ i ∈ s.hid.unfinished cid, ∀ j ∈ s.hid.freeChannel, i < j))

def payload : List UInt8 := List.replicate 60 0x5a

/-- The first packet of a message on a cid, and the second and last one. -/
def begins (cid : UInt32) : Packet := initPacket cid hidPing 60 (payload.take 57)

def ends (cid : UInt32) : Packet := contPacket cid 0 (payload.drop 57)

theorem payload_carriedBy (cid : UInt32) : Msg.CarriedBy ⟨cid, hidPing, payload⟩ (begins cid) [ends cid] := by
  have h : Msg.CarriedBy ⟨cid, hidPing, payload⟩ (begins cid) (contPackets cid 0 (payload.drop 57)) :=
    carriedBy_hidPackets cid (by decide) (by decide)
  rw [contPackets_cons _ _ (by decide), show (payload.drop 57).drop 59 = [] from rfl, contPackets_nil] at h
  exact h

/-- Two messages at once, and an INIT between their packets. -/
def sharedRun : List HidAction :=
  [.packet .usb (begins 5) true, .packet .ctap (begins 6) true,
    .packet .usb (initPacket cidBroadcast hidInit 8 []) true, .serve .usb, .packet .ctap (ends 6) true,
    .packet .usb (ends 5) true]

end HidLayer

end AbkFido
