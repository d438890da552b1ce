/-
A message from its arrival on.

What comes in waits in the transport's `rx_packets` until the worker takes it:
`Receiver` is both queues before the layer of channels. A queue holds 32
packets. `abk_fido_out_complete` does not look whether another finds room;
`abk_fido_user_write` refuses it. The packets of a cid that find room are
taken in the order they came in (`taken_of_runs`), and so a message is
dispatched once, as it was sent, if besides the steps on other cids spare it
(`dispatched_of_spares`).
-/
import AbkFido.Isolation

namespace AbkFido

structure Receiver where
  rx : Transport → RingBuffer Packet queueDepth
  layer : HidLayer

inductive ReceiverAction
  /-- A packet comes in, on the endpoint or through the node. -/
  | arrive (t : Transport) (p : Packet)
  /-- The worker takes its next packet. -/
  | take (t : Transport) (allocOk : Bool)
  /-- The worker serves the message it has completed. -/
  | serve (t : Transport)

/-- What comes in on a cid of a transport. -/
def ReceiverAction.arrived (cid : UInt32) (t : Transport) : ReceiverAction → List Packet
  | .arrive t' p => if t' = t ∧ p.cid = cid then [p] else []
  | .take .. | .serve _ => []

def arrivedOn (cid : UInt32) (t : Transport) (as : List ReceiverAction) : List Packet :=
  as.flatMap (ReceiverAction.arrived cid t)

theorem arrivedOn_cons (cid : UInt32) (t : Transport) (a : ReceiverAction) (as : List ReceiverAction) :
    arrivedOn cid t (a :: as) = a.arrived cid t ++ arrivedOn cid t as := List.flatMap_cons

namespace Receiver

def boot : Receiver where
  rx _ := .empty (zeros 64)
  layer := .boot

/-- The queue after `abk_fido_out_complete` or `abk_fido_user_write`. -/
def queued (t : Transport) (p : Packet) (rx : RingBuffer Packet queueDepth) : Option (RingBuffer Packet queueDepth) :=
  match t with
  | .usb => some ((rx.push p).getD rx)
  | .ctap => rx.push p

def step (s : Receiver) : ReceiverAction → Option Receiver
  | .arrive t p => (queued t p (s.rx t)).map fun rx => { s with rx := Function.update s.rx t rx }
  | .take t allocOk =>
    match (s.rx t).pop with
    | none => none
    | some (p, rx) => (s.layer.step (.packet t p allocOk)).map fun layer => ⟨Function.update s.rx t rx, layer⟩
  | .serve t => (s.layer.step (.serve t)).map fun layer => { s with layer := layer }

/-- The packets on a cid that wait for the worker of a transport. -/
def waitingOn (cid : UInt32) (t : Transport) (s : Receiver) : List Packet := (s.rx t).toList.filter (·.cid = cid)

/-- A packet on the cid finds room, and the steps of the workers spare it. -/
def Spares (cid : UInt32) (s : Receiver) : ReceiverAction → Prop
  | .arrive t p => p.cid = cid → ((s.rx t).push p).isSome = true
  | .take t allocOk => ∀ x ∈ (s.rx t).pop, s.layer.Spares cid (.packet t x.1 allocOk)
  | .serve t => s.layer.Spares cid (.serve t)

variable {s s' : Receiver} {t t' : Transport} {cid : UInt32} {p : Packet} {allocOk : Bool}

/-! ## One step -/

theorem arrive_step (h : s.step (.arrive t' p) = some s') (hok : s.Spares cid (.arrive t' p)) :
    s'.layer = s.layer ∧
      s'.waitingOn cid t = s.waitingOn cid t ++ (ReceiverAction.arrive t' p).arrived cid t := by
  obtain ⟨rx, hrx, rfl⟩ := Option.map_eq_some_iff.mp h
  refine ⟨rfl, ?_⟩
  simp only [waitingOn, ReceiverAction.arrived]
  by_cases ht : t' = t
  swap
  · rw [Function.update_of_ne (Ne.symm ht), if_neg fun hand => ht hand.1, List.append_nil]
  subst ht
  rw [Function.update_self]
  cases hpush : (s.rx t').push p with
  | some q =>
    have hq : rx = q := by cases t' <;> simp_all [queued]
    rw [hq, RingBuffer.toList_push hpush, List.filter_append]
    by_cases hcid : p.cid = cid <;> simp [hcid]
  | none =>
    -- Only a packet on another cid is dropped.
    have hcid : p.cid ≠ cid := fun hcid => by simpa [hpush] using hok hcid
    have hq : rx = s.rx t' := by cases t' <;> simp_all [queued]
    rw [hq, if_neg fun hand => hcid hand.2, List.append_nil]

theorem take_step (h : s.step (.take t' allocOk) = some s') :
    ∃ p, (∃ rx, (s.rx t').pop = some (p, rx)) ∧ s.layer.step (.packet t' p allocOk) = some s'.layer ∧
      ∀ cid t, s.waitingOn cid t = (ReceiverAction.arrive t' p).arrived cid t ++ s'.waitingOn cid t := by
  simp only [step] at h
  split at h
  · cases h
  next p rx hpop =>
  obtain ⟨layer, hlayer, rfl⟩ := Option.map_eq_some_iff.mp h
  refine ⟨p, ⟨rx, hpop⟩, hlayer, fun cid t => ?_⟩
  simp only [waitingOn, ReceiverAction.arrived]
  by_cases ht : t' = t
  · subst ht
    rw [Function.update_self, RingBuffer.toList_pop hpop]
    by_cases hcid : p.cid = cid <;> simp [hcid]
  · rw [Function.update_of_ne (Ne.symm ht), if_neg fun hand => ht hand.1, List.nil_append]

theorem serve_step (h : s.step (.serve t') = some s') :
    s.layer.step (.serve t') = some s'.layer ∧ ∀ cid t, s'.waitingOn cid t = s.waitingOn cid t := by
  obtain ⟨layer, hlayer, rfl⟩ := Option.map_eq_some_iff.mp h
  exact ⟨hlayer, fun _ _ => rfl⟩

/-- While packets wait for it a worker has a step. -/
theorem worker_steps (h : s.waitingOn cid t ≠ []) (allocOk : Bool) :
    (s.step (.take t allocOk)).isSome = true ∨ (s.step (.serve t)).isSome = true := by
  cases hserving : s.layer.serving t with
  | some m =>
    right
    simp [step, HidLayer.step, hserving]
  | none =>
    left
    cases hrx : (s.rx t).toList with
    | nil => simp [waitingOn, hrx] at h
    | cons p ps =>
      obtain ⟨rx, hpop, _⟩ := RingBuffer.exists_pop hrx
      simp only [step, hpop, HidLayer.step, hserving, Option.isSome_map]
      split <;> rfl

/-! ## Runs -/

/-- The packets on a cid that the worker of a transport takes. -/
def takenOn (cid : UInt32) (t : Transport) (as : List HidAction) : List Packet :=
  ((sentOn cid as).filter (·.1 = t)).map Prod.snd

theorem takenOn_packet (cid : UInt32) (t t' : Transport) (p : Packet) (allocOk : Bool) (as : List HidAction) :
    takenOn cid t (.packet t' p allocOk :: as) = (ReceiverAction.arrive t' p).arrived cid t ++ takenOn cid t as := by
  by_cases hcid : p.cid = cid <;> by_cases ht : t' = t <;>
    simp [takenOn, sentOn, HidAction.packetOn, ReceiverAction.arrived, hcid, ht]

/-- A run is one of the layer that takes the packets of a cid in the order
they came in. -/
theorem taken_of_runs {as : List ReceiverAction} (h : Runs step (Spares cid) s as s') :
    ∃ bs, Runs HidLayer.step (HidLayer.Spares cid) s.layer bs s'.layer ∧
      ∀ t, takenOn cid t bs ++ s'.waitingOn cid t = s.waitingOn cid t ++ arrivedOn cid t as := by
  induction h with
  | nil s => exact ⟨[], .nil _, fun t => by simp [takenOn, sentOn, arrivedOn]⟩
  | @cons s a s₁ as _ hok hstep _ ih =>
    obtain ⟨bs, hbs, htaken⟩ := ih
    cases a with
    | arrive t' p =>
      refine ⟨bs, by rwa [← (arrive_step (t := t') hstep hok).1], fun t => ?_⟩
      rw [arrivedOn_cons, htaken t, (arrive_step hstep hok).2, List.append_assoc]
    | take t' allocOk =>
      obtain ⟨p, ⟨rx, hpop⟩, hlayer, hwaiting⟩ := take_step hstep
      have hspares : s.layer.Spares cid (.packet t' p allocOk) := hok (p, rx) hpop
      refine ⟨.packet t' p allocOk :: bs, .cons hspares hlayer hbs, fun t => ?_⟩
      rw [takenOn_packet, hwaiting cid t, List.append_assoc, htaken t, List.append_assoc, arrivedOn_cons]
      rfl
    | serve t' =>
      obtain ⟨hlayer, hwaiting⟩ := serve_step hstep
      have hspares : s.layer.Spares cid (.serve t') := hok
      refine ⟨.serve t' :: bs, .cons hspares hlayer hbs, fun t => ?_⟩
      rw [← hwaiting cid t, arrivedOn_cons]
      exact htaken t

theorem sentOn_of_takenOn {as : List HidAction} (h : ∀ t', t' ≠ t → takenOn cid t' as = []) :
    sentOn cid as = (takenOn cid t as).map (t, ·) := by
  have hall : ∀ x ∈ sentOn cid as, x.1 = t := by
    intro x hx
    by_contra hne
    have hnil : (sentOn cid as).filter (·.1 = x.1) = [] := List.map_eq_nil_iff.mp (h x.1 hne)
    exact List.filter_eq_nil_iff.mp hnil x hx (by simp)
  have hpair : ∀ x ∈ sentOn cid as, (t, x.2) = id x := fun x hx => by rw [← hall x hx]; rfl
  rw [takenOn, List.filter_eq_self.mpr fun x hx => by simpa using hall x hx, List.map_map]
  exact ((List.map_congr_left hpair).trans (List.map_id _)).symm

/-- **A message is dispatched once, as it was sent, if its packets find room
and the steps on other cids spare it.** -/
theorem dispatched_of_spares {m : Msg} {init : Packet} {conts later : List Packet} {as : List ReceiverAction}
    (hm : m.CarriedBy init conts) (hlen : m.data.length ≤ maxMsg)
    (hsent : s.waitingOn m.cid t ++ arrivedOn m.cid t as = (init :: conts) ++ later)
    (hother : ∀ t', t' ≠ t → s.waitingOn m.cid t' ++ arrivedOn m.cid t' as = [])
    (h : Runs step (Spares m.cid) s as s') :
    (s'.waitingOn m.cid t = later → dispatchedOn m.cid s'.layer.log = (t, m) :: dispatchedOn m.cid s.layer.log) ∧
      (later.length < (s'.waitingOn m.cid t).length →
        dispatchedOn m.cid s'.layer.log = dispatchedOn m.cid s.layer.log ∧
        ∀ allocOk, (s'.step (.take t allocOk)).isSome = true ∨ (s'.step (.serve t)).isSome = true) := by
  obtain ⟨bs, hbs, htaken⟩ := taken_of_runs h
  have hnone : ∀ t', t' ≠ t → takenOn m.cid t' bs = [] := by
    intro t' hne
    have hnil := htaken t'
    rw [hother t' hne] at hnil
    exact (List.append_eq_nil_iff.mp hnil).1
  have hall := sentOn_of_takenOn hnone
  have heq := htaken t
  rw [hsent] at heq
  constructor
  · intro hlater
    rw [hlater] at heq
    rw [List.append_cancel_right heq] at hall
    have hm : m.CarriedBy init (conts ++ []) := by rwa [List.append_nil]
    rw [HidLayer.dispatchedOn_of_carried hm hlen hall hbs, if_pos rfl]
  · intro hlt
    have hsome : s'.waitingOn m.cid t ≠ [] := List.length_pos_iff.mp (by omega)
    refine ⟨?_, worker_steps hsome⟩
    rcases List.append_eq_append_iff.mp heq with ⟨more, hcut, hrest⟩ | ⟨_, _, hrest⟩
    · cases htake : takenOn m.cid t bs with
      | nil =>
        rw [htake] at hall
        exact HidLayer.dispatchedOn_of_none hbs hall
      | cons p ps =>
        rw [htake, List.cons_append] at hcut
        obtain ⟨rfl, rfl⟩ := List.cons.inj hcut
        rw [htake] at hall
        have hmore : more ≠ [] := by
          rintro rfl
          rw [hrest, List.nil_append] at hlt
          omega
        rw [HidLayer.dispatchedOn_of_carried hm hlen hall hbs, if_neg hmore]
    · rw [hrest, List.length_append] at hlt
      omega

instance (cid : UInt32) (s : Receiver) : ∀ a, Decidable (s.Spares cid a)
  | .arrive t p => inferInstanceAs (Decidable (p.cid = cid → ((s.rx t).push p).isSome = true))
  | .take t allocOk => inferInstanceAs (Decidable (∀ x ∈ (s.rx t).pop, s.layer.Spares cid (.packet t x.1 allocOk)))
  | .serve t => inferInstanceAs (Decidable (s.layer.Spares cid (.serve t)))

open HidLayer (payload begins ends payload_carriedBy)

/-- Two messages at once and an INIT between their packets, some of which wait. -/
def queuedRun : List ReceiverAction :=
  [.arrive .usb (begins 5), .arrive .ctap (begins 6), .take .ctap true,
    .arrive .usb (initPacket cidBroadcast hidInit 8 []), .take .usb true, .take .usb true, .arrive .usb (ends 5),
    .arrive .ctap (ends 6), .serve .usb, .take .ctap true, .take .usb true]

theorem dispatched_queuedRun : ∃ s, Runs step (Spares 5) boot queuedRun s ∧
    dispatchedOn 5 s.layer.log = [(.usb, ⟨5, hidPing, payload⟩)] := by
  have hexec : (Runs.exec step (fun s a => decide (s.Spares 5 a)) boot queuedRun).map (waitingOn 5 .usb) = some [] := by
    decide +kernel
  obtain ⟨s, hs, hnone⟩ := Option.map_eq_some_iff.mp hexec
  have hrun : Runs step (Spares 5) boot queuedRun s := Runs.of_exec (fun _ _ => of_decide_eq_true) hs
  have hother : ∀ t', t' ≠ Transport.usb → boot.waitingOn 5 t' ++ arrivedOn 5 t' queuedRun = [] := by decide +kernel
  have hsent : boot.waitingOn 5 .usb ++ arrivedOn 5 .usb queuedRun = (begins 5 :: [ends 5]) ++ [] := by decide +kernel
  exact ⟨s, hrun, (dispatched_of_spares (payload_carriedBy 5) (by decide) hsent hother hrun).1 hnone⟩

/-- With four messages begun the packet of a fifth takes the channel of the
first. -/
def crowdedRun : List ReceiverAction :=
  [.arrive .usb (begins 5), .take .usb true, .arrive .ctap (begins 6), .take .ctap true, .arrive .ctap (begins 7),
    .take .ctap true, .arrive .ctap (begins 8), .take .ctap true, .arrive .ctap (begins 9), .take .ctap true,
    .arrive .usb (ends 5), .take .usb true]

/-- While the worker waits for a RESET to be approved, the queue is filled
with packets on its cid, and the next one is dropped. -/
def floodedRun : List ReceiverAction :=
  [.arrive .usb (initPacket 6 hidCbor 1 [0x07]), .take .usb true] ++
    List.replicate 32 (.arrive .usb (begins 6)) ++ [.arrive .usb (begins 5), .serve .usb] ++
    List.replicate 32 (.take .usb true) ++ [.arrive .usb (ends 5), .take .usb true]

theorem exists_not_dispatched : Msg.CarriedBy ⟨5, hidPing, payload⟩ (begins 5) [ends 5] ∧
    ∀ run ∈ [crowdedRun, floodedRun], arrivedOn 5 .usb run = [begins 5, ends 5] ∧ arrivedOn 5 .ctap run = [] ∧
      ∃ s, Runs step (fun _ _ => True) boot run s ∧ s.waitingOn 5 .usb = [] ∧ dispatchedOn 5 s.layer.log = [] := by
  have hexec : ∀ run ∈ [crowdedRun, floodedRun], arrivedOn 5 .usb run = [begins 5, ends 5] ∧ arrivedOn 5 .ctap run = [] ∧
      (Runs.exec step (fun _ _ => true) boot run).map (fun s => (s.waitingOn 5 .usb, dispatchedOn 5 s.layer.log)) =
        some ([], []) := by
    decide +kernel
  refine ⟨payload_carriedBy 5, fun run hrun => ?_⟩
  obtain ⟨husb, hctap, hexec⟩ := hexec run hrun
  obtain ⟨s, hs, heq⟩ := Option.map_eq_some_iff.mp hexec
  obtain ⟨hnone, hlog⟩ := Prod.mk.inj heq
  exact ⟨husb, hctap, s, Runs.of_exec (fun _ _ _ => trivial) hs, hnone, hlog⟩

end Receiver

end AbkFido
