/-
The order of the packets a session receives.

`subscribe` makes its subscription known before it has moved the backlog into
the channel, and `run` may send there as soon as it is known. So a packet read
later can overtake the backlog, and with a full backlog there is one too many
for the channel: `subscribe` then waits for a consumer that only starts when
it returns. Where `run` sends nothing to the active session before its backlog
has been moved, everything comes in order and once, and `subscribe` returns.
-/
import AbkFido.Agent.Superseded

namespace AbkFido

namespace Hub

/-! ## What is asked -/

/-- The packet `run` is about to send to a subscription. -/
def inHand (h : Hub) (id : Nat) : List HostPacket :=
  match h.reader with
  | .sending packet _ active => if active = id then [packet] else []
  | _ => []

/-- What a session is to receive: what was buffered before it, and what came since. -/
def due (h : Hub) (id : Nat) : List HostPacket := (h.subs id).backlog ++ h.taken.drop (h.subs id).since

/-- What a subscription holds and has held of it. -/
def queue (h : Hub) (id : Nat) : List HostPacket × List HostPacket × List HostPacket × List HostPacket × Nat :=
  ((h.subs id).received, (h.subs id).packets, (h.subs id).call.toMove, (h.subs id).backlog, (h.subs id).since)

/-- Received, in the channel, still to be moved, in hand: in this order all that is due. -/
def InOrder (h : Hub) (id : Nat) : Prop :=
  (h.subs id).received ++ (h.subs id).packets ++ (h.subs id).call.toMove ++ h.inHand id = h.due id ∧
    (h.subs id).backlog.length ≤ maxPendingPackets

end Hub

/-- The steps of `subscribe` once it has let go of the lock, and the closing of
a subscription whose device failed. None waits for a packet or a consumer. -/
def HubAction.ofSubscribe : HubAction → Bool
  | .closePrevious _ | .fill _ | .fillDone _ | .subscribed _ | .closeFailed => true
  | _ => false

namespace Hub

/-- These steps alone bring the call to its end. -/
def Returns (h : Hub) (id : Nat) : Prop :=
  ∃ as h', Runs step (fun _ a => a.ofSubscribe = true) h as h' ∧ (h'.subs id).call.hasReturned = true

/-- `run` sends to the active session once its backlog has been moved. -/
def Moved (h : Hub) : HubAction → Prop
  | .deliver => ∀ id ∈ h.reader.target, h.active = some id → (h.subs id).call.toMove = []
  | _ => True

instance (h : Hub) : ∀ a, Decidable (h.Moved a)
  | .deliver => Option.decidableForallMem _
  | .read _ | .readFails | .take | .drop | .closeFailed | .subscribe | .closePrevious _ | .fill _ | .fillDone _ | .subscribed _
  | .unsubscribe _ | .closeOwn _ | .receive _ | .write _ _ => instDecidableTrue

variable {h h' : Hub} {a : HubAction}

/-! ## Every call returns -/

theorem Returns.step_first (hstep : step h a = some h') (ha : a.ofSubscribe = true) {id : Nat} (hr : h'.Returns id) :
    h.Returns id := by
  obtain ⟨as, h'', hrun, hreturned⟩ := hr
  exact ⟨a :: as, h'', .cons ha hstep hrun, hreturned⟩

theorem returns_of_hasReturned {id : Nat} (hc : (h.subs id).call.hasReturned = true) : h.Returns id := ⟨[], h, .nil h, hc⟩

theorem returns_filled {id : Nat} (hc : (h.subs id).call = .filling []) : h.Returns id := by
  have hstep : step h (.subscribed id) = some (h.setCall id .returned) := by simp only [step, hc]
  exact .step_first hstep rfl (returns_of_hasReturned (by simp [setCall, Call.hasReturned]))

/-- The loop, with room for all that is left. -/
theorem returns_filling (rest : List HostPacket) : ∀ {h : Hub} {id : Nat}, (h.subs id).call = .filling rest →
    (h.subs id).packets.length + rest.length ≤ maxPendingPackets → h.Returns id := by
  induction rest with
  | nil => exact fun hc _ => returns_filled hc
  | cons p rest ih =>
    intro h id hc hroom
    rw [List.length_cons] at hroom
    have hfree : h.hasRoom id = true := decide_eq_true (by omega)
    have hstep : step h (.fill id) = some ((h.place id p).setCall id (.filling rest)) := by
      simp only [step, hc, hfree, if_true]
    have hcall : ((((h.place id p).setCall id (.filling rest)).subs id).call) = .filling rest := by simp [setCall]
    refine .step_first hstep rfl (ih hcall ?_)
    simp only [setCall, place, setSub_same, List.length_append, List.length_singleton]
    omega

/-- A closed subscription waits for nothing. -/
theorem returns_done {id : Nat} (hdone : (h.subs id).done = true) (hc : (h.subs id).call ≠ .none) : h.Returns id := by
  have hloop : ∀ {g : Hub} {rest}, (g.subs id).done = true → (g.subs id).call = .filling rest → g.Returns id := by
    intro g rest hgdone hgcall
    cases rest with
    | nil => exact returns_filled hgcall
    | cons p rest =>
      have hstep : step g (.fillDone id) = some (g.setCall id .returned) := by simp only [step, hgcall, hgdone, if_true]
      exact .step_first hstep rfl (returns_of_hasReturned (by simp [setCall, Call.hasReturned]))
  cases hcall : (h.subs id).call with
  | none => exact absurd hcall hc
  | closing o rest =>
    have hstep : step h (.closePrevious id) = some ((h.closeIf o).setCall id (.filling rest)) := by simp only [step, hcall]
    have hfilling : (((h.closeIf o).setCall id (.filling rest)).subs id).call = .filling rest := by simp [setCall]
    refine .step_first hstep rfl (hloop ?_ hfilling)
    rw [setCall, setSub_same, closeIf_subs]
    simp [hdone]
  | filling rest => exact hloop hdone hcall
  | returned | unsubscribing | gone => exact returns_of_hasReturned (by rw [hcall]; rfl)

/-- Who closes a subscription that is neither active nor closed. -/
def ToClose (h : Hub) (id : Nat) : Prop :=
  (∃ i rest, (h.subs i).call = .closing (some id) rest) ∨ h.reader = .failing (some id)

theorem returns_toClose {id : Nat} (hs : h.Sound) (hc : (h.subs id).call ≠ .none) (hclose : h.ToClose id) : h.Returns id := by
  rcases hclose with ⟨i, rest, hi⟩ | hr
  · have hne : id ≠ i := by
      have := hs.previous i id rest hi
      omega
    have hstep : step h (.closePrevious i) = some ((h.closeIf (some id)).setCall i (.filling rest)) := by simp only [step, hi]
    refine .step_first hstep rfl (returns_done ?_ ?_)
    · rw [setCall, setSub_other _ i _ hne, closeIf_subs, if_pos rfl]
    · rw [setCall, setSub_other _ i _ hne, closeIf_subs]
      exact hc
  · have hstep : step h .closeFailed = some { h.closeIf (some id) with reader := .stopped } := by simp only [step, hr]
    refine .step_first hstep rfl (returns_done ?_ ?_)
    · show ((h.closeIf (some id)).subs id).done = true
      rw [closeIf_subs, if_pos rfl]
    · show ((h.closeIf (some id)).subs id).call ≠ .none
      rw [closeIf_subs]
      exact hc

/-- A subscription that was taken over is closed, or about to be, or its call is over. -/
def Accounted (h : Hub) : Prop :=
  ∀ id < h.next, (h.subs id).done = true ∨ h.active = some id ∨ h.ToClose id ∨ (h.subs id).call.hasReturned = true

theorem done_step (hstep : step h a = some h') {i : Nat} (hi : i < h.next) (hdone : (h.subs i).done = true) :
    (h'.subs i).done = true := by
  have hset : ∀ (g : Hub) {id : Nat} {s : Subscription}, g.subs i = h.subs i → (i = id → s.done = true) →
      ((g.setSub id s).subs i).done = true := by
    intro g id s hsame hnew
    by_cases hid : i = id
    · subst hid
      rw [setSub_same]
      exact hnew rfl
    · rw [setSub_other g id _ hid, hsame]
      exact hdone
  cases stepped hstep with
  | readShort _ | read _ | readFails _ | drop _ _ | writeFails | write _ _ => exact hdone
  | take _ =>
    unfold runTake
    split <;> exact hdone
  | deliver _ _ => exact hset h rfl fun hid => hid ▸ hdone
  | @closeFailed o _ =>
    show ((h.closeIf o).subs i).done = true
    rw [closeIf_subs]
    simp [hdone]
  | subscribe =>
    have hne : i ≠ h.next := by omega
    simpa [takeOver, Function.update_of_ne hne] using hdone
  | @closePrevious id o rest _ =>
    have hclosed : ((h.closeIf o).subs i).done = true := by
      rw [closeIf_subs]
      simp [hdone]
    by_cases hid : i = id
    · subst hid
      rw [setCall, setSub_same]
      exact hclosed
    · rw [setCall, setSub_other _ id _ hid]
      exact hclosed
  | @fill id p rest _ _ =>
    have hplaced : ((h.place id p).subs i).done = true := hset h rfl fun hid => hid ▸ hdone
    by_cases hid : i = id
    · subst hid
      rw [setCall, setSub_same]
      exact hplaced
    · rw [setCall, setSub_other _ id _ hid]
      exact hplaced
  | fillDone _ _ | subscribed _ | receive _ _ => exact hset h rfl fun hid => hid ▸ hdone
  | @unsubscribe id _ =>
    exact hset { h with active := if h.active = some id then none else h.active } rfl fun hid => hid ▸ hdone
  | @closeOwn id _ =>
    by_cases hid : i = id
    · subst hid
      simp [setCall, close]
    · rw [setCall, setSub_other _ id _ hid, close, setSub_other _ id _ hid]
      exact hdone

/-- A close that is due stays due until it is done. -/
theorem toClose_step (hs : h.Sound) (hstep : step h a = some h') {i : Nat} (hi : h.ToClose i) :
    (h'.subs i).done = true ∨ h'.ToClose i := by
  have keep : (∀ j rest, (h.subs j).call = .closing (some i) rest → (h'.subs j).call = .closing (some i) rest) →
      (h.reader = .failing (some i) → h'.reader = .failing (some i)) → h'.ToClose i := by
    intro hcalls hreader
    rcases hi with ⟨j, rest, hj⟩ | hr
    · exact .inl ⟨j, rest, hcalls j rest hj⟩
    · exact .inr (hreader hr)
  have hset : ∀ {g : Hub} {id : Nat} {s : Subscription}, (∀ j, (g.subs j).call = (h.subs j).call) →
      (∀ rest, (h.subs id).call ≠ .closing (some i) rest) → ∀ j rest, (h.subs j).call = .closing (some i) rest →
        ((g.setSub id s).subs j).call = .closing (some i) rest := by
    intro g id s hsame hid j rest hj
    have hne : j ≠ id := by
      rintro rfl
      exact hid rest hj
    rw [setSub_other g id _ hne, hsame, hj]
  have hplaced : ∀ (id : Nat) (p : HostPacket) (j : Nat), ((h.place id p).subs j).call = (h.subs j).call := by
    intro id p j
    by_cases hj : j = id
    · subst hj
      simp [place]
    · rw [place, setSub_other h id _ hj]
  have hclosed : ∀ (id j : Nat), ((h.close id).subs j).call = (h.subs j).call := fun id j => by
    rw [show h.close id = h.closeIf (some id) from rfl, closeIf_subs]
  cases stepped hstep with
  | readShort _ | writeFails | write _ _ => exact .inr hi
  | read hr | readFails hr => exact .inr (keep (fun _ _ hj => hj) fun hr' => by rw [hr] at hr'; cases hr')
  | drop hr _ => exact .inr (keep (fun _ _ hj => hj) fun hr' => by rw [hr] at hr'; cases hr')
  | @take p u hr =>
    refine .inr (keep (fun j rest hj => ?_) fun hr' => by rw [hr] at hr'; cases hr')
    unfold runTake
    split <;> exact hj
  | @deliver p u id hr _ =>
    refine .inr (keep (fun j rest hj => ?_) fun hr' => by rw [hr] at hr'; cases hr')
    exact (hplaced id p j).trans hj
  | @closeFailed o hr =>
    by_cases ho : o = some i
    · left
      show ((h.closeIf o).subs i).done = true
      rw [closeIf_subs, if_pos ho]
    · refine .inr (keep (fun j rest hj => ?_) fun hr' => ?_)
      · show ((h.closeIf o).subs j).call = _
        rw [closeIf_subs]
        exact hj
      · rw [hr] at hr'
        exact absurd (HidReader.failing.inj hr') ho
  | subscribe =>
    refine .inr (keep (fun j rest hj => ?_) fun hr => hr)
    have hne : j ≠ h.next := by
      rintro rfl
      rw [hs.fresh h.next (Nat.le_refl _)] at hj
      cases hj
    simpa [takeOver, Function.update_of_ne hne] using hj
  | @closePrevious id o rest hc =>
    by_cases ho : o = some i
    · left
      have hclosed : ((h.closeIf o).subs i).done = true := by rw [closeIf_subs, if_pos ho]
      by_cases hid : i = id
      · subst hid
        rw [setCall, setSub_same]
        exact hclosed
      · rw [setCall, setSub_other _ id _ hid]
        exact hclosed
    · refine .inr (keep (hset (fun j => by rw [closeIf_subs]) fun rest' hc' => ?_) fun hr => by simpa [setCall] using hr)
      rw [hc] at hc'
      exact ho (Call.closing.inj hc').1
  | @fill id p rest hc _ =>
    exact .inr (keep (hset (hplaced id p) fun rest' hc' => by rw [hc] at hc'; cases hc') fun hr => hr)
  | @fillDone id p rest hc _ =>
    exact .inr (keep (hset (fun _ => rfl) fun rest' hc' => by rw [hc] at hc'; cases hc') fun hr => hr)
  | @subscribed id hc =>
    exact .inr (keep (hset (fun _ => rfl) fun rest' hc' => by rw [hc] at hc'; cases hc') fun hr => hr)
  | @unsubscribe id hc =>
    exact .inr (keep (hset (g := { h with active := if h.active = some id then none else h.active }) (fun _ => rfl)
      fun rest' hc' => by rw [hc] at hc'; cases hc') fun hr => hr)
  | @closeOwn id hc =>
    exact .inr (keep (hset (fun j => hclosed id j) fun rest' hc' => by rw [hc] at hc'; cases hc') fun hr => hr)
  | @receive id p ps _ hc =>
    exact .inr (keep (hset (fun _ => rfl) fun rest' hc' => by rw [hc'] at hc; cases hc) fun hr => hr)

theorem accounted_step (hs : h.Sound) (ha : h.Accounted) (hstep : step h a = some h') : h'.Accounted := by
  intro id hid
  -- Who was accounted for stays so, unless it was the active one.
  have hold : id < h.next → h.active ≠ some id → (h'.subs id).done = true ∨ h'.active = some id ∨ h'.ToClose id ∨
      (h'.subs id).call.hasReturned = true := by
    intro hlt hne
    rcases ha id hlt with hdone | hactive | hclose | hreturned
    · exact .inl (done_step hstep hlt hdone)
    · exact absurd hactive hne
    · rcases toClose_step hs hstep hclose with hdone | hclose
      · exact .inl hdone
      · exact .inr (.inr (.inl hclose))
    · refine .inr (.inr (.inr ?_))
      rcases returned_step hs hstep id with heq | ⟨hnow, _⟩
      · rw [heq, hreturned]
      · exact hnow
  by_cases hactive : h.active = some id
  · cases stepped hstep with
    | readFails _ => exact .inr (.inr (.inl (.inr (by rw [← hactive]))))
    | subscribe => exact .inr (.inr (.inl (.inl ⟨h.next, h.pending, by simp [takeOver, hactive]⟩)))
    | @unsubscribe i hc =>
      by_cases hi : i = id
      · subst hi
        exact .inr (.inr (.inr (by simp [setCall, Call.hasReturned])))
      · refine .inr (.inl ?_)
        have hne : h.active ≠ some i := by rw [hactive]; exact fun heq => hi (Option.some.inj heq).symm
        show (if h.active = some i then none else h.active) = some id
        rw [if_neg hne, hactive]
    | take _ =>
      refine .inr (.inl ?_)
      unfold runTake
      split <;> exact hactive
    | closeFailed _ | closePrevious _ => exact .inr (.inl (by simpa [setCall] using hactive))
    | _ => exact .inr (.inl hactive)
  · by_cases hlt : id < h.next
    · exact hold hlt hactive
    · -- The one that takes over now.
      have hnew : h'.active = some id := by
        have hle := next_le hstep
        cases stepped hstep with
        | subscribe =>
          have hid : id < h.next + 1 := hid
          have heq : h.next = id := by omega
          show some h.next = some id
          rw [heq]
        | take _ =>
          unfold runTake at hid
          split at hid <;> exact absurd hid hlt
        | closeFailed _ | closePrevious _ => exact absurd (by simpa [setCall] using hid) hlt
        | _ => exact absurd hid hlt
      exact .inr (.inl hnew)

/-! ## Everything in order -/

/-- The line of the packets of a session. -/
structure Line (h : Hub) (id : Nat) : Prop where
  inOrder : (h.subs id).received ++ (h.subs id).packets ++ (h.subs id).call.toMove ++ h.inHand id = h.due id
  /-- Nothing but backlog is in the channel before the backlog has been moved. -/
  starting : (h.subs id).call.toMove ≠ [] →
    (h.subs id).received = [] ∧ (h.subs id).packets ++ (h.subs id).call.toMove = (h.subs id).backlog
  since_le : (h.subs id).since ≤ h.taken.length
  backlog_le : (h.subs id).backlog.length ≤ maxPendingPackets

theorem Line.of_queue {id : Nat} (hl : h.Line id) (hqueue : h'.queue id = h.queue id) (htaken : h'.taken = h.taken)
    (hhand : h'.inHand id = h.inHand id) : h'.Line id := by
  simp only [queue, Prod.mk.injEq] at hqueue
  obtain ⟨hreceived, hpackets, hmove, hbacklog, hsince⟩ := hqueue
  exact
    { inOrder := by rw [due, hreceived, hpackets, hmove, hhand, hbacklog, hsince, htaken]; exact hl.inOrder
      starting := by rw [hreceived, hpackets, hmove, hbacklog]; exact hl.starting
      since_le := by rw [hsince, htaken]; exact hl.since_le
      backlog_le := by rw [hbacklog]; exact hl.backlog_le }

theorem inHand_of_reader (hreader : h'.reader = h.reader) (id : Nat) : h'.inHand id = h.inHand id := by
  rw [inHand, inHand, hreader]

theorem inHand_eq_nil {id : Nat} (h : Hub) (hno : id ∉ h.reader.target) : h.inHand id = [] := by
  unfold inHand
  split
  · next p u t hr =>
    rw [hr] at hno
    exact if_neg fun heq => hno (by rw [heq]; rfl)
  · rfl

theorem queue_setSub_other (h : Hub) {id i : Nat} {s : Subscription} (hne : id ≠ i) : (h.setSub i s).queue id = h.queue id := by
  rw [queue, queue, setSub_other h i s hne]

theorem queue_closeIf (h : Hub) (o : Option Nat) (id : Nat) : (h.closeIf o).queue id = h.queue id := by
  rw [queue, queue, closeIf_subs]

/-- A call that goes on with as much to move. -/
theorem queue_setCall (h : Hub) {i : Nat} {c : Call} (hmove : c.toMove = (h.subs i).call.toMove) (id : Nat) :
    (h.setCall i c).queue id = h.queue id := by
  by_cases hne : id = i
  · subst hne
    rw [queue, queue, setCall, setSub_same, hmove]
  · exact queue_setSub_other h hne

structure Aligned (h : Hub) : Prop where
  pending_le : h.pending.length ≤ maxPendingPackets
  target_lt : ∀ id ∈ h.reader.target, id < h.next
  line : ∀ id, h.active = some id → h.Line id

theorem pending_step (ha : h.Aligned) (hstep : step h a = some h') : h'.pending.length ≤ maxPendingPackets := by
  have hle := ha.pending_le
  cases stepped hstep with
  | take _ =>
    unfold runTake
    split
    · show (if _ then _ else h.pending).length ≤ _
      split
      · rw [List.length_append, List.length_singleton]
        omega
      · exact hle
    · exact hle
  | subscribe => exact Nat.zero_le _
  | closeFailed _ | closePrevious _ => simpa [setCall] using hle
  | _ => exact hle

theorem target_lt_step (hs : h.Sound) (ha : h.Aligned) (hstep : step h a = some h') : ∀ id ∈ h'.reader.target, id < h'.next := by
  intro id hid
  have hle := next_le hstep
  rcases target_step hstep id hid with hold | hactive
  · have := ha.target_lt id hold
    omega
  · have := hs.latest id hactive
    omega

/-- The line of the active session, step by step. -/
theorem line_step (hs : h.Sound) (ha : h.Aligned) (hok : h.Moved a) (hstep : step h a = some h') {id : Nat}
    (hid : h'.active = some id) : h'.Line id := by
  cases stepped hstep with
  | readShort _ | writeFails => exact ha.line id hid
  | write _ _ => exact (ha.line id hid).of_queue rfl rfl rfl
  | read hr => exact (ha.line id hid).of_queue rfl rfl (by simp [inHand, hr])
  | readFails _ => cases hid
  | @take p u hr =>
    unfold runTake at hid ⊢
    split
    · next hnone =>
      rw [hnone] at hid
      cases hid
    · next active hactive =>
      rw [hactive] at hid
      have hid : active = id := Option.some.inj hid
      subst hid
      have hl := ha.line active hactive
      have hempty : h.inHand active = [] := by simp [inHand, hr]
      -- The packet is taken, and is in hand: the last in both.
      refine { inOrder := ?_, starting := hl.starting, since_le := ?_, backlog_le := hl.backlog_le }
      · have hbefore := hl.inOrder
        rw [hempty, List.append_nil] at hbefore
        show (h.subs active).received ++ (h.subs active).packets ++ (h.subs active).call.toMove ++ _ =
          (h.subs active).backlog ++ (h.taken ++ [p]).drop (h.subs active).since
        rw [hbefore, List.drop_append_of_le_length hl.since_le, ← List.append_assoc]
        simp [inHand, due]
      · show (h.subs active).since ≤ (h.taken ++ [p]).length
        rw [List.length_append]
        have := hl.since_le
        omega
  | @deliver p u t hr hroom =>
    have hid : h.active = some id := hid
    have hl := ha.line id hid
    by_cases ht : id = t
    · subst ht
      have hmoved : (h.subs id).call.toMove = [] := hok id (by rw [hr]; rfl) hid
      have hbefore := hl.inOrder
      have hhand : h.inHand id = [p] := by simp [inHand, hr]
      rw [hmoved, List.append_nil, hhand] at hbefore
      refine { inOrder := ?_, starting := ?_, since_le := ?_, backlog_le := ?_ }
      · simp only [place, setSub_same, hmoved, List.append_nil, due, inHand, setSub_taken]
        rw [← List.append_assoc, hbefore, due]
      · intro hne
        simp only [place, setSub_same] at hne
        exact absurd hmoved hne
      · simpa [place] using hl.since_le
      · simpa [place] using hl.backlog_le
    · refine hl.of_queue (queue_setSub_other h ht) rfl ?_
      rw [inHand_eq_nil h (by rw [hr]; simpa [HidReader.target] using fun heq => ht heq.symm)]
      rfl
  | @drop p u t hr hdone =>
    have hid : h.active = some id := hid
    have ht : id ≠ t := by
      rintro rfl
      rw [hs.isOpen id hid] at hdone
      cases hdone
    refine (ha.line id hid).of_queue rfl rfl ?_
    rw [inHand_eq_nil h (by rw [hr]; simpa [HidReader.target] using fun heq => ht heq.symm)]
    rfl
  | @closeFailed o hr =>
    have hid : h.active = some id := by simpa using hid
    exact (ha.line id hid).of_queue (queue_closeIf h o id) (closeIf_taken h o) (by simp [inHand, hr])
  | subscribe =>
    have hid : h.next = id := Option.some.inj hid
    subst hid
    have hother : h.next ∉ h.reader.target := fun hin => absurd (ha.target_lt h.next hin) (Nat.lt_irrefl _)
    have hhand : h.takeOver.inHand h.next = [] := inHand_eq_nil h.takeOver hother
    refine { inOrder := ?_, starting := fun _ => ?_, since_le := ?_, backlog_le := ?_ }
    · rw [hhand]
      simp [takeOver, due, Call.toMove]
    · simp [takeOver, Call.toMove]
    · simp [takeOver]
    · simpa [takeOver] using ha.pending_le
  | @closePrevious i o rest hc =>
    have hid : h.active = some id := by simpa [setCall] using hid
    have hmove : (Call.filling rest).toMove = ((h.closeIf o).subs i).call.toMove := by
      rw [closeIf_subs, hc]
      rfl
    exact (ha.line id hid).of_queue ((queue_setCall _ hmove id).trans (queue_closeIf h o id)) (closeIf_taken h o)
      (inHand_of_reader (by simp [setCall]) id)
  | @fill i p rest hc _ =>
    have hl := ha.line id hid
    by_cases hi : id = i
    · subst hi
      obtain ⟨hnone, hback⟩ := hl.starting (by rw [hc]; simp [Call.toMove])
      have hbefore := hl.inOrder
      rw [hc] at hback hbefore
      -- The packet moves from the one list to the other.
      refine { inOrder := ?_, starting := fun _ => ?_, since_le := ?_, backlog_le := ?_ }
      · simp only [setCall, place, setSub_same, Call.toMove, due, setSub_taken] at hbefore ⊢
        rw [← hbefore]
        simp [inHand]
      · simp only [setCall, place, setSub_same, Call.toMove] at hback ⊢
        rw [← hback]
        simp [hnone]
      · simpa [setCall, place] using hl.since_le
      · simpa [setCall, place] using hl.backlog_le
    · exact hl.of_queue ((queue_setSub_other _ hi).trans (queue_setSub_other h hi)) rfl rfl
  | @fillDone i p rest hc hdone =>
    have hid : h.active = some id := hid
    have hi : id ≠ i := by
      rintro rfl
      rw [hs.isOpen id hid] at hdone
      cases hdone
    exact (ha.line id hid).of_queue (queue_setSub_other h hi) rfl rfl
  | @subscribed i hc => exact (ha.line id hid).of_queue (queue_setCall h (by rw [hc]; rfl) id) rfl rfl
  | @unsubscribe i hc =>
    have hid : (if h.active = some i then none else h.active) = some id := hid
    split at hid
    · cases hid
    · exact (ha.line id hid).of_queue (queue_setCall { h with active := _ } (by rw [hc]; rfl) id) rfl rfl
  | @closeOwn i hc =>
    have hmove : Call.gone.toMove = ((h.closeIf (some i)).subs i).call.toMove := by
      rw [closeIf_subs, hc]
      rfl
    exact (ha.line id hid).of_queue ((queue_setCall _ hmove id).trans (queue_closeIf h (some i) id)) rfl rfl
  | @receive i p ps hp hc =>
    have hl := ha.line id hid
    by_cases hi : id = i
    · subst hi
      have hmoved : (h.subs id).call.toMove = [] := by
        cases hcall : (h.subs id).call <;> rw [hcall] at hc <;> first | rfl | cases hc
      have hbefore := hl.inOrder
      refine { inOrder := ?_, starting := ?_, since_le := ?_, backlog_le := ?_ }
      · simp only [setSub_same, hmoved, hp, due, setSub_taken] at hbefore ⊢
        rw [← hbefore]
        simp [inHand]
      · intro hne
        rw [setSub_same] at hne
        exact absurd hmoved hne
      · simpa using hl.since_le
      · simpa using hl.backlog_le
    · exact hl.of_queue (queue_setSub_other h hi) rfl rfl

/-! ## Whole runs -/

structure Fair (h : Hub) : Prop where
  sound : h.Sound
  accounted : h.Accounted
  aligned : h.Aligned

theorem Fair.step (hf : h.Fair) (hok : h.Moved a) (hstep : Hub.step h a = some h') : h'.Fair where
  sound := hf.sound.step hstep
  accounted := accounted_step hf.sound hf.accounted hstep
  aligned :=
    { pending_le := pending_step hf.aligned hstep
      target_lt := target_lt_step hf.sound hf.aligned hstep
      line := fun _ hid => line_step hf.sound hf.aligned hok hstep hid }

/-- The active session's call: its channel has room for what is left. -/
theorem Fair.returns_active (hf : h.Fair) {id : Nat} (hactive : h.active = some id) (hc : (h.subs id).call ≠ .none) :
    h.Returns id := by
  have hl := hf.aligned.line id hactive
  have hroom : (h.subs id).call.toMove ≠ [] →
      (h.subs id).packets.length + (h.subs id).call.toMove.length ≤ maxPendingPackets := by
    intro hne
    rw [← List.length_append, (hl.starting hne).2]
    exact hl.backlog_le
  have hloop : ∀ {g : Hub} {rest}, (g.subs id).call = .filling rest → (g.subs id).packets = (h.subs id).packets →
      (h.subs id).call.toMove = rest → g.Returns id := by
    intro g rest hg hpackets hrest
    cases rest with
    | nil => exact returns_filled hg
    | cons p rest =>
      refine returns_filling (p :: rest) hg ?_
      rw [hpackets, ← hrest]
      exact hroom (by rw [hrest]; simp)
  cases hcall : (h.subs id).call with
  | none => exact absurd hcall hc
  | closing o rest =>
    have hstep : Hub.step h (.closePrevious id) = some ((h.closeIf o).setCall id (.filling rest)) := by
      simp only [Hub.step, hcall]
    have hfilling : (((h.closeIf o).setCall id (.filling rest)).subs id).call = .filling rest := by simp [setCall]
    refine .step_first hstep rfl (hloop hfilling ?_ (by rw [hcall]; rfl))
    rw [setCall, setSub_same, closeIf_subs]
  | filling rest => exact hloop hcall rfl (by rw [hcall]; rfl)
  | returned | unsubscribing | gone => exact returns_of_hasReturned (by rw [hcall]; rfl)

theorem Fair.returns (hf : h.Fair) {id : Nat} (hc : (h.subs id).call ≠ .none) : h.Returns id := by
  rcases hf.accounted id (hf.sound.lt_next hc) with hdone | hactive | hclose | hreturned
  · exact returns_done hdone hc
  · exact hf.returns_active hactive hc
  · exact returns_toClose hf.sound hc hclose
  · exact returns_of_hasReturned hreturned

theorem Fair.inOrder (hf : h.Fair) {id : Nat} (hactive : h.active = some id) : h.InOrder id :=
  ⟨(hf.aligned.line id hactive).inOrder, (hf.aligned.line id hactive).backlog_le⟩

instance (h : Hub) (id : Nat) : Decidable (h.InOrder id) := by
  unfold InOrder
  exact inferInstance

/-- A call in its loop with no room, not superseded, and no other call. -/
structure Stuck (h : Hub) (id : Nat) : Prop where
  call : ∃ p rest, (h.subs id).call = .filling (p :: rest)
  full : h.hasRoom id = false
  isOpen : (h.subs id).done = false
  reading : h.reader = .reading
  alone : ∀ i, i ≠ id → (h.subs i).call = .none

theorem Stuck.step {id : Nat} (hst : h.Stuck id) (ha : a.ofSubscribe = true) : Hub.step h a = none := by
  obtain ⟨p, rest, hcall⟩ := hst.call
  cases a with
  | closePrevious i =>
    by_cases hi : i = id
    · subst hi
      simp only [Hub.step, hcall]
    · simp only [Hub.step, hst.alone i hi]
  | fill i =>
    by_cases hi : i = id
    · subst hi
      simp [Hub.step, hcall, hst.full]
    · simp only [Hub.step, hst.alone i hi]
  | fillDone i =>
    by_cases hi : i = id
    · subst hi
      simp [Hub.step, hcall, hst.isOpen]
    · simp only [Hub.step, hst.alone i hi]
  | subscribed i =>
    by_cases hi : i = id
    · subst hi
      simp only [Hub.step, hcall]
    · simp only [Hub.step, hst.alone i hi]
  | closeFailed => simp only [Hub.step, hst.reading]
  | _ => cases ha

theorem Stuck.not_returns {id : Nat} (hst : h.Stuck id) : ¬ h.Returns id := by
  rintro ⟨as, h', hrun, hreturned⟩
  cases hrun with
  | nil =>
    obtain ⟨p, rest, hcall⟩ := hst.call
    rw [hcall] at hreturned
    cases hreturned
  | cons hok hstep _ =>
    rw [hst.step hok] at hstep
    cases hstep

/-- A full backlog and one packet sent before it is moved: `subscribe` waits
for a consumer that waits for it. -/
theorem exists_not_returns : ∃ as h, Runs step (fun _ _ => True) init as h ∧ h.active = some 0 ∧ ¬ h.Returns 0 := by
  let as : List HubAction :=
    (List.replicate maxPendingPackets [.read zeroReport, .take]).flatten ++
      [.subscribe, .closePrevious 0, .read zeroReport, .take, .deliver] ++ List.replicate (maxPendingPackets - 1) (.fill 0)
  have hexec : (Runs.exec step (fun _ _ => true) init as).map
      (fun h => (h.active, decide ((h.subs 0).call = .filling [zeroReport]), h.hasRoom 0, (h.subs 0).done,
        decide (h.reader = .reading), h.next)) = some (some 0, true, false, false, true, 1) := by decide +kernel
  obtain ⟨h, hh, hseen⟩ := Option.map_eq_some_iff.mp hexec
  simp only [Prod.mk.injEq] at hseen
  obtain ⟨hactive, hcall, hroom, hdone, hreading, hnext⟩ := hseen
  have hrun : Runs step (fun _ _ => True) init as h := Runs.of_exec (fun _ _ _ => trivial) hh
  have hsound : h.Sound := hrun.invariant (fun _ _ _ hs _ hstep => hs.step hstep) sound_init
  have hstuck : h.Stuck 0 :=
    { call := ⟨zeroReport, [], of_decide_eq_true hcall⟩
      full := hroom
      isOpen := hdone
      reading := of_decide_eq_true hreading
      alone := fun i hi => hsound.fresh i (by omega) }
  exact ⟨as, h, hrun, hactive, hstuck.not_returns⟩

end Hub

end AbkFido
