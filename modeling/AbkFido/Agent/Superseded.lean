/-
Sessions that are superseded.

Towards the device a superseded session is cut off at once, since `write`
looks at the hub under the lock. Towards the session it is not: `run` may
still hold a packet for it, and its own `subscribe` may still be moving its
backlog. Where neither is so when the newer `subscribe` returns, nothing more
is placed in the older channel.
-/
import AbkFido.Agent.HubFacts

namespace AbkFido

/-- The subscription a packet in hand is for. -/
def HidReader.target : HidReader → Option Nat
  | .sending _ _ active => some active
  | _ => none

namespace Hub

variable {h h' : Hub} {a : HubAction}

/-! ## What is asked -/

/-- A step that loses a packet, and the session served when the packet was read. -/
def Drops (h : Hub) (a : HubAction) (packet : HostPacket) (under : Option Nat) : Prop :=
  (a = .drop ∧ ∃ id, h.reader = .sending packet under id) ∨
    (a = .take ∧ h.reader = .holding packet under ∧ h.active = none ∧ maxPendingPackets ≤ h.pending.length)

/-- One step, once a newer subscription than `id` has been returned. -/
structure CutOff (h : Hub) (a : HubAction) (h' : Hub) : Prop where
  /-- Nothing is placed in the older channel. -/
  placed : ∀ id n, id < n → (h.subs n).call.hasReturned = true → (h'.subs id).packets.length ≤ (h.subs id).packets.length
  /-- No packet read since is lost while the newer is active. -/
  kept : ∀ packet n, Drops h a packet (some n) → h.active ≠ some n
  /-- Nothing the older writes reaches the device. -/
  refused : ∀ id packet, h'.written = h.written ++ [(id, packet)] → ∀ n, id < n → (h.subs n).call.hasReturned = false

/-- When `subscribe` returns, `run` holds no packet for an older subscription,
and no older `subscribe` is still in its loop. -/
def Clear (h : Hub) : HubAction → Prop
  | .subscribed n | .fillDone n =>
    (∀ id ∈ h.reader.target, n ≤ id) ∧ ∀ id < n, (h.subs id).call.hasReturned = true
  | _ => True

instance (h : Hub) (a : HubAction) : Decidable (h.Clear a) := by
  cases a <;> unfold Clear
  case subscribed n =>
    exact @instDecidableAnd _ _ (Option.decidableForallMem _) inferInstance
  case fillDone n =>
    exact @instDecidableAnd _ _ (Option.decidableForallMem _) inferInstance
  all_goals exact instDecidableTrue

/-! ## What a step changes -/

/-- A call that has returned stays so, and one returns only where it says so. -/
theorem returned_step (hs : h.Sound) (hstep : step h a = some h') (i : Nat) :
    (h'.subs i).call.hasReturned = (h.subs i).call.hasReturned ∨
      (h'.subs i).call.hasReturned = true ∧ (a = .subscribed i ∨ a = .fillDone i) := by
  have hset : ∀ (g : Hub) {id : Nat} {s : Subscription}, g.subs i = h.subs i →
      (i = id → s.call.hasReturned = (h.subs i).call.hasReturned) →
      ((g.setSub id s).subs i).call.hasReturned = (h.subs i).call.hasReturned := by
    intro g id s hsame hnew
    by_cases hi : i = id
    · subst hi
      rw [setSub_same]
      exact hnew rfl
    · rw [setSub_other g id _ hi, hsame]
  cases stepped hstep with
  | readShort _ | read _ | readFails _ | drop _ _ | writeFails | write _ _ => exact .inl rfl
  | take _ =>
    unfold runTake
    split <;> exact .inl rfl
  | deliver _ _ => exact .inl (hset h rfl fun hi => by rw [hi])
  | @closeFailed o _ =>
    left
    show ((h.closeIf o).subs i).call.hasReturned = _
    rw [closeIf_subs]
  | subscribe =>
    left
    by_cases hi : i = h.next
    · subst hi
      rw [hs.fresh h.next (Nat.le_refl _)]
      simp [takeOver, Call.hasReturned]
    · simp [takeOver, Function.update_of_ne hi]
  | @closePrevious id o rest hc =>
    left
    by_cases hi : i = id
    · subst hi
      simp [setCall, hc, Call.hasReturned]
    · rw [setCall, setSub_other _ id _ hi, closeIf_subs]
  | @fill id p rest hc _ =>
    left
    by_cases hi : i = id
    · subst hi
      simp [setCall, hc, Call.hasReturned]
    · rw [setCall, setSub_other _ id _ hi, place, setSub_other _ id _ hi]
  | @fillDone id p rest hc _ =>
    by_cases hi : i = id
    · subst hi
      exact .inr ⟨by simp [setCall, Call.hasReturned], .inr rfl⟩
    · rw [setCall, setSub_other _ id _ hi]
      exact .inl rfl
  | @subscribed id hc =>
    by_cases hi : i = id
    · subst hi
      exact .inr ⟨by simp [setCall, Call.hasReturned], .inl rfl⟩
    · rw [setCall, setSub_other _ id _ hi]
      exact .inl rfl
  | @unsubscribe id hc =>
    refine .inl (hset { h with active := if h.active = some id then none else h.active } rfl fun hi => ?_)
    subst hi
    rw [hc]
    rfl
  | @closeOwn id hc =>
    left
    by_cases hi : i = id
    · subst hi
      simp [setCall, hc, Call.hasReturned]
    · rw [setCall, setSub_other _ id _ hi, close, setSub_other _ id _ hi]
  | @receive id p ps _ _ => exact .inl (hset h rfl fun hi => by rw [hi])

/-- `run` takes up the active subscription only. -/
theorem target_step (hstep : step h a = some h') : ∀ id ∈ h'.reader.target, id ∈ h.reader.target ∨ h.active = some id := by
  intro id hid
  cases stepped hstep with
  | readShort _ | writeFails | write _ _ | subscribe | fillDone _ _ | subscribed _ | unsubscribe _ | receive _ _ => exact .inl hid
  | read _ | readFails _ | deliver _ _ | drop _ _ | closeFailed _ => cases hid
  | @take p u hr =>
    unfold runTake at hid
    split at hid
    · cases hid
    · next active hactive =>
      have hid : active = id := by simpa [HidReader.target] using hid
      exact .inr (hid ▸ hactive)
  | @closePrevious i o rest hc => exact .inl (by simpa [setCall] using hid)
  | fill _ _ => exact .inl hid
  | closeOwn _ => exact .inl hid

/-- Packets are placed by `run`, for its target, and by a `subscribe` in its loop. -/
theorem packets_step (hstep : step h a = some h') (id : Nat) (hmore : (h.subs id).packets.length < (h'.subs id).packets.length) :
    id ∈ h.reader.target ∨ (h.subs id).call.hasReturned = false := by
  have hset : ∀ {g : Hub} {i : Nat} {s : Subscription}, g.subs id = h.subs id →
      (h.subs id).packets.length < ((g.setSub i s).subs id).packets.length → i = id ∧ (h.subs id).packets.length < s.packets.length := by
    intro g i s hsame hlt
    by_cases hi : id = i
    · subst hi
      rw [setSub_same] at hlt
      exact ⟨rfl, hlt⟩
    · rw [setSub_other g i _ hi, hsame] at hlt
      exact absurd hlt (Nat.lt_irrefl _)
  cases stepped hstep with
  | readShort _ | read _ | readFails _ | drop _ _ | writeFails | write _ _ => exact absurd hmore (Nat.lt_irrefl _)
  | take _ =>
    unfold runTake at hmore
    split at hmore <;> exact absurd hmore (Nat.lt_irrefl _)
  | @deliver p u i hr _ =>
    obtain ⟨rfl, -⟩ := hset (g := h) rfl hmore
    exact .inl (by rw [hr]; rfl)
  | @closeFailed o _ =>
    have hsame : ((h.closeIf o).subs id).packets = (h.subs id).packets := by rw [closeIf_subs]
    exact absurd (hsame ▸ hmore) (Nat.lt_irrefl _)
  | subscribe =>
    by_cases hi : id = h.next
    · subst hi
      simp [takeOver] at hmore
    · simp [takeOver, Function.update_of_ne hi] at hmore
  | @closePrevious i o rest hc =>
    have hsame : ((h.closeIf o).subs id).packets = (h.subs id).packets := by rw [closeIf_subs]
    by_cases hi : id = i
    · subst hi
      rw [setCall, setSub_same, closeIf_subs] at hmore
      exact absurd hmore (Nat.lt_irrefl _)
    · rw [setCall, setSub_other _ i _ hi, hsame] at hmore
      exact absurd hmore (Nat.lt_irrefl _)
  | @fill i p rest hc _ =>
    by_cases hi : id = i
    · subst hi
      exact .inr (by rw [hc]; rfl)
    · rw [setCall, setSub_other _ i _ hi, place, setSub_other _ i _ hi] at hmore
      exact absurd hmore (Nat.lt_irrefl _)
  | @fillDone i p rest hc _ =>
    obtain ⟨rfl, hlt⟩ := hset (g := h) rfl hmore
    exact absurd hlt (Nat.lt_irrefl _)
  | @subscribed i hc =>
    obtain ⟨rfl, hlt⟩ := hset (g := h) rfl hmore
    exact absurd hlt (Nat.lt_irrefl _)
  | @unsubscribe i hc =>
    obtain ⟨rfl, hlt⟩ := hset (g := { h with active := _ }) rfl hmore
    exact absurd hlt (Nat.lt_irrefl _)
  | @closeOwn i hc =>
    by_cases hi : id = i
    · subst hi
      simp [setCall, close] at hmore
    · rw [setCall, setSub_other _ i _ hi, close, setSub_other _ i _ hi] at hmore
      exact absurd hmore (Nat.lt_irrefl _)
  | @receive i p ps hp _ =>
    obtain ⟨rfl, hlt⟩ := hset (g := h) rfl hmore
    rw [hp] at hlt
    exact absurd hlt (by simp)

/-! ## Behind the newest that has returned -/

/-- Nothing is under way for a subscription older than one that has returned. -/
def Settled (h : Hub) : Prop :=
  ∀ n, (h.subs n).call.hasReturned = true →
    (∀ id ∈ h.reader.target, n ≤ id) ∧ ∀ id < n, (h.subs id).call.hasReturned = true

/-- The session served when the packet in hand was read: should it still be
active, it is the one the packet is for. -/
def Tagged (h : Hub) : Prop :=
  (∀ p n, h.reader = .holding p (some n) → n < h.next) ∧
    ∀ p n id, h.reader = .sending p (some n) id → n < h.next ∧ (h.active = some n → id = n)

theorem served_eq {n : Nat} (hn : h.served = some n) : h.active = some n := (Option.filter_eq_some_iff.mp hn).1

theorem settled_step (hs : h.Sound) (hsettled : h.Settled) (hok : h.Clear a) (hstep : step h a = some h') : h'.Settled := by
  have hkeep : ∀ i, (h.subs i).call.hasReturned = true → (h'.subs i).call.hasReturned = true := by
    intro i hi
    rcases returned_step hs hstep i with heq | ⟨hnow, _⟩
    · rw [heq, hi]
    · exact hnow
  intro n hn
  rcases returned_step hs hstep n with heq | ⟨-, hreturns⟩
  · -- It had returned before.
    have hbefore : (h.subs n).call.hasReturned = true := by rw [← heq, hn]
    obtain ⟨htarget, holder⟩ := hsettled n hbefore
    refine ⟨fun id hid => ?_, fun id hid => hkeep id (holder id hid)⟩
    rcases target_step hstep id hid with hold | hactive
    · exact htarget id hold
    · have hlt : n < h.next := hs.lt_next fun hnone => by rw [hnone] at hbefore; cases hbefore
      have := hs.latest id hactive
      omega
  · -- It returns now.
    have hclear : (∀ id ∈ h.reader.target, n ≤ id) ∧ ∀ id < n, (h.subs id).call.hasReturned = true := by
      rcases hreturns with rfl | rfl <;> exact hok
    have hsame : h'.reader = h.reader := by
      rcases hreturns with rfl | rfl <;> cases stepped hstep <;> rfl
    rw [hsame]
    exact ⟨hclear.1, fun id hid => hkeep id (hclear.2 id hid)⟩

theorem next_le (hstep : step h a = some h') : h.next ≤ h'.next := by
  cases stepped hstep with
  | take _ =>
    unfold runTake
    split <;> exact Nat.le_refl _
  | subscribe => exact Nat.le_succ _
  | closeFailed _ => exact Nat.le_of_eq (closeIf_next ..).symm
  | closePrevious _ => exact Nat.le_of_eq (closeIf_next ..).symm
  | _ => exact Nat.le_refl _

theorem tagged_step (hs : h.Sound) (ht : h.Tagged) (hstep : step h a = some h') : h'.Tagged := by
  -- Steps of the other goroutines, which at most give the hub to a new session.
  have hother : h'.reader = h.reader → (∀ n, n < h.next → h'.active = some n → h.active = some n) → h'.Tagged := by
    intro hreader hactive
    have hle := next_le hstep
    refine ⟨fun p n hr => ?_, fun p n id hr => ?_⟩
    · have := ht.1 p n (hreader ▸ hr)
      omega
    · obtain ⟨hlt, hfor⟩ := ht.2 p n id (hreader ▸ hr)
      exact ⟨by omega, fun hn => hfor (hactive n hlt hn)⟩
  cases stepped hstep with
  | @read p hr =>
    refine ⟨fun p' n heq => ?_, fun p' n id heq => (by cases heq)⟩
    have hserved : h.served = some n := (HidReader.holding.inj heq).2
    have := hs.latest n (served_eq hserved)
    show n < h.next
    omega
  | readFails _ | deliver _ _ | drop _ _ | closeFailed _ =>
    exact ⟨fun p n heq => (by cases heq), fun p n id heq => (by cases heq)⟩
  | @take p u hr =>
    unfold runTake
    split
    · exact ⟨fun p n heq => (by cases heq), fun p n id heq => (by cases heq)⟩
    · next active hactive =>
      refine ⟨fun p n heq => (by cases heq), fun p' n id heq => ?_⟩
      cases heq
      exact ⟨ht.1 p n hr, fun hn => Option.some.inj (hactive.symm.trans hn)⟩
  | subscribe =>
    refine hother rfl fun n hn heq => ?_
    have heq : h.next = n := Option.some.inj heq
    omega
  | closePrevious _ => exact hother (by simp [setCall]) fun n _ hn => by simpa [setCall] using hn
  | @unsubscribe id hc =>
    refine hother rfl fun n _ hn => ?_
    have hn : (if h.active = some id then none else h.active) = some n := hn
    split at hn
    · cases hn
    · exact hn
  | readShort _ | fill _ _ | fillDone _ _ | subscribed _ | closeOwn _ | receive _ _ | writeFails | write _ _ =>
    exact hother rfl fun _ _ hn => hn

/-- What holds in every state. -/
structure Ordered (h : Hub) : Prop where
  sound : h.Sound
  settled : h.Settled
  tagged : h.Tagged

theorem ordered_init : init.Ordered where
  sound := sound_init
  settled n hn := by cases hn
  tagged := ⟨fun p n hr => (by cases hr), fun p n id hr => (by cases hr)⟩

theorem Ordered.step (ho : h.Ordered) (hok : h.Clear a) (hstep : Hub.step h a = some h') : h'.Ordered where
  sound := ho.sound.step hstep
  settled := settled_step ho.sound ho.settled hok hstep
  tagged := tagged_step ho.sound ho.tagged hstep

theorem Ordered.cutOff (ho : h.Ordered) (hstep : Hub.step h a = some h') : CutOff h a h' where
  placed id n hlt hn := by
    by_contra hmore
    obtain ⟨htarget, holder⟩ := ho.settled n hn
    rcases packets_step hstep id (by omega) with hid | hrunning
    · have := htarget id hid
      omega
    · rw [holder id hlt] at hrunning
      cases hrunning
  kept packet n hdrops hactive := by
    rcases hdrops with ⟨rfl, id, hr⟩ | ⟨-, -, hnone, -⟩
    · cases stepped hstep with
      | drop hr' hdone =>
        rw [hr] at hr'
        cases hr'
        have hfor := (ho.tagged.2 packet n id hr).2 hactive
        rw [hfor, ho.sound.isOpen n hactive] at hdone
        cases hdone
    · rw [hnone] at hactive
      cases hactive
  refused id packet hwrote n hlt := by
    have hnew : h'.written ≠ h.written := by
      rw [hwrote]
      simp
    cases stepped hstep with
    | @write id' p hdone hactive =>
      have hsame : id' = id := by
        have hlast := List.append_cancel_left hwrote
        simp only [List.cons.injEq, Prod.mk.injEq, and_true] at hlast
        exact hlast.1
      subst hsame
      have hnext := ho.sound.latest id' hactive
      rw [ho.sound.fresh n (by omega)]
      rfl
    | take _ =>
      refine absurd ?_ hnew
      unfold runTake
      split <;> rfl
    | @closeFailed o _ =>
      refine absurd ?_ hnew
      cases o <;> rfl
    | @closePrevious i o rest _ =>
      refine absurd ?_ hnew
      cases o <;> rfl
    | _ => exact absurd rfl hnew

/-- **Superseded sessions are cut off**, where `subscribe` never returns over
a packet still on its way to an older one. -/
theorem superseded_cutOff (as : List HubAction) (h : Hub) (a : HubAction) (h' : Hub)
    (hrun : Runs step Clear init as h) (hstep : step h a = some h') : CutOff h a h' :=
  (hrun.invariant (fun _ _ _ ho hok hstep => ho.step hok hstep) ordered_init).cutOff hstep

/-! ## Runs -/

/-- A report of zeros. -/
def zeroReport : HostPacket := List.replicate reportLen 0

/-- A session supersedes another, and a packet read since is on its way to it. -/
theorem superseded_quietly : ∃ as h h', Runs step Clear init as h ∧ step h .deliver = some h' ∧ CutOff h .deliver h' := by
  let as : List HubAction :=
    [.subscribe, .closePrevious 0, .subscribed 0, .subscribe, .closePrevious 1, .subscribed 1, .read zeroReport, .take]
  have hexec : ((Runs.exec step (fun h a => decide (h.Clear a)) init as).bind fun h =>
      step h .deliver).isSome = true := by decide +kernel
  obtain ⟨h', hh'⟩ := Option.isSome_iff_exists.mp hexec
  obtain ⟨h, hh, hstep⟩ := Option.bind_eq_some_iff.mp hh'
  have hrun : Runs step Clear init as h := Runs.of_exec (fun _ _ htest => of_decide_eq_true htest) hh
  exact ⟨as, h, h', hrun, hstep, superseded_cutOff as h .deliver h' hrun hstep⟩

/-- The reader holds a packet for the first session while the second
supersedes it, and places it after the second has been returned. -/
theorem exists_not_cutOff : ∃ as h h', Runs step (fun _ _ => True) init as h ∧ step h .deliver = some h' ∧
    (h.subs 1).call.hasReturned = true ∧ (h.subs 0).packets.length < (h'.subs 0).packets.length := by
  let as : List HubAction :=
    [.subscribe, .closePrevious 0, .subscribed 0, .read zeroReport, .take, .subscribe, .closePrevious 1, .subscribed 1]
  have hexec : ((Runs.exec step (fun _ _ => true) init as).bind fun h => (step h .deliver).map fun h' =>
      ((h.subs 1).call.hasReturned, (h.subs 0).packets.length, (h'.subs 0).packets.length)) = some (true, 0, 1) := by
    decide +kernel
  obtain ⟨h, hh, hstep⟩ := Option.bind_eq_some_iff.mp hexec
  obtain ⟨h', hh', hseen⟩ := Option.map_eq_some_iff.mp hstep
  simp only [Prod.mk.injEq] at hseen
  obtain ⟨hreturned, hbefore, hafter⟩ := hseen
  exact ⟨as, h, h', Runs.of_exec (fun _ _ _ => trivial) hh, hh', hreturned, by omega⟩

end Hub

end AbkFido
