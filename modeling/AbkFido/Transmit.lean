/-
`tx_packets` on its way to the IN endpoint.

Senders push the packets of a message one by one and then kick; a write to
the debug node pushes one and kicks; so does the completion of a transfer. A
kick takes the oldest report out of the queue before it looks at
`tx_pending`, and puts it back at the other end if a transfer is pending. So
a report may land behind a later one, or be overtaken by another kick's, or
find the queue full, or be put back when nobody will look again. Where none
of this happens (`Orderly`), reports leave in the order they were pushed and
none stays behind (`sent_of_runs`).

The transport is online, its endpoint accepts every request, and a completion
may come at any time while a transfer is in flight. For the theorems a report
also has its number among the pushes.
-/
import AbkFido.Hid
import AbkFido.Lib.Run

namespace AbkFido

structure Report where
  num : Nat
  packet : Packet
  deriving DecidableEq

/-- Where a thread is in the transmit path. -/
inductive TxStage
  | idle
  /-- In `abk_fido_send_hid_message`, with these packets to push. -/
  | sending (packets : List Packet)
  /-- `abk_fido_tx_kick` is called. -/
  | kicking
  /-- It has popped a report, and looks at `tx_pending` next. -/
  | holding (r : Report)
  /-- It has found `tx_pending` set. -/
  | returning (r : Report)
  /-- It has set `tx_pending`. -/
  | handing (r : Report)
  /-- In `abk_fido_tx_complete`. -/
  | completing

structure TxQueue where
  queue : RingBuffer Report queueDepth
  /-- `tx_pending` -/
  pending : Bool
  /-- The endpoint has the request. -/
  inFlight : Bool
  thread : Nat → TxStage
  /-- For the theorems only: the pushes of senders that found room. -/
  pushed : List Report
  /-- What was handed to `usb_ep_queue`. -/
  sent : List Report

inductive TxAction
  /-- A call of `abk_fido_send_hid_message`. -/
  | send (k : Nat) (cid : UInt32) (cmd : UInt8) (payload : List UInt8)
  /-- It pushes its next packet, or kicks after the last one. -/
  | push (k : Nat)
  /-- `abk_fido_misc_write`, up to its kick. -/
  | miscWrite (k : Nat) (p : Packet)
  /-- Any other call of `abk_fido_tx_kick`. -/
  | kick (k : Nat)
  | pop (k : Nat)
  | check (k : Nat)
  | putBack (k : Nat)
  | queue (k : Nat)
  /-- The transfer is over. -/
  | complete (k : Nat)
  /-- `tx_pending` is cleared. -/
  | clear (k : Nat)

namespace TxAction

def thread : TxAction → Nat
  | .send k _ _ _ | .push k | .miscWrite k _ | .kick k | .pop k | .check k | .putBack k | .queue k | .complete k
  | .clear k => k

end TxAction

namespace TxQueue

def init : TxQueue where
  queue := .empty ⟨0, zeros 64⟩
  pending := false
  inFlight := false
  thread _ := .idle
  pushed := []
  sent := []

def setThread (k : Nat) (g : TxStage) (s : TxQueue) : TxQueue := { s with thread := Function.update s.thread k g }

/-- `abk_fido_queue_push` of a new report. -/
def pushNew (p : Packet) (s : TxQueue) : Option TxQueue :=
  (s.queue.push ⟨s.pushed.length, p⟩).map fun q => { s with queue := q, pushed := s.pushed ++ [⟨s.pushed.length, p⟩] }

def step (s : TxQueue) : TxAction → Option TxQueue
  | .send k cid cmd payload =>
    match s.thread k with
    | .idle => some (s.setThread k (.sending (hidPackets cid cmd payload)))
    | _ => none
  | .push k =>
    match s.thread k with
    | .sending (p :: packets) => some (((s.pushNew p).getD s).setThread k (.sending packets))
    | .sending [] => some (s.setThread k .kicking)
    | _ => none
  | .miscWrite k p =>
    match s.thread k with
    -- `-EBUSY` where there is no room.
    | .idle => some (((s.pushNew p).map (setThread k .kicking)).getD s)
    | _ => none
  | .kick k =>
    match s.thread k with
    | .idle => some (s.setThread k .kicking)
    | _ => none
  | .pop k =>
    match s.thread k with
    | .kicking =>
      match s.queue.pop with
      | some (r, q) => some ({ s with queue := q }.setThread k (.holding r))
      | none => some (s.setThread k .idle)
    | _ => none
  | .check k =>
    match s.thread k with
    | .holding r =>
      if s.pending then some (s.setThread k (.returning r))
      else some ({ s with pending := true }.setThread k (.handing r))
    | _ => none
  | .putBack k =>
    match s.thread k with
    | .returning r => some ({ s with queue := (s.queue.push r).getD s.queue }.setThread k .idle)
    | _ => none
  | .queue k =>
    match s.thread k with
    | .handing r => some ({ s with inFlight := true, sent := s.sent ++ [r] }.setThread k .idle)
    | _ => none
  | .complete k =>
    match s.thread k with
    | .idle => if s.inFlight then some ({ s with inFlight := false }.setThread k .completing) else none
    | _ => none
  | .clear k =>
    match s.thread k with
    | .completing => some ({ s with pending := false }.setThread k .kicking)
    | _ => none

end TxQueue

/-! ## What a thread holds -/

namespace TxStage

/-- The report it has taken out of the queue. -/
def held : TxStage → Option Report
  | .holding r | .returning r | .handing r => some r
  | _ => none

/-- `tx_pending` is set for it, and the endpoint does not have the request. -/
def owns : TxStage → Bool
  | .handing _ | .completing => true
  | _ => false

end TxStage

/-! ## Order -/

section
variable {Q : List Report} {thread : Nat → TxStage} {pushed sent : List Report} {k : Nat} {r : Report}

def Unsent (pushed sent : List Report) (r : Report) : Prop := sent.length ≤ r.num ∧ pushed[r.num]? = some r

/-- Where the reports are: those that are not sent are in the queue or held
by a thread, none of them behind a later one. -/
structure Placed (Q : List Report) (thread : Nat → TxStage) (pushed sent : List Report) : Prop where
  numbered : ∀ n (r : Report), pushed[n]? = some r → r.num = n
  sent_eq : sent = pushed.take sent.length
  queued : ∀ r ∈ Q, Unsent pushed sent r
  held : ∀ k r, (thread k).held = some r → Unsent pushed sent r
  somewhere : ∀ r, Unsent pushed sent r → r ∈ Q ∨ ∃ k, (thread k).held = some r
  sorted : Q.Pairwise (·.num < ·.num)
  ahead : ∀ k r, thread k = .holding r → ∀ r' ∈ Q, r.num < r'.num
  next : ∀ k r, thread k = .handing r → r.num = sent.length ∧ (∀ r' ∈ Q, r.num < r'.num) ∧
    ∀ k', k' ≠ k → ∀ r', (thread k').held = some r' → r.num < r'.num

theorem Unsent.lt (h : Unsent pushed sent r) : r.num < pushed.length := by
  by_contra hge
  have hnone := h.2
  rw [List.getElem?_eq_none (by omega)] at hnone
  cases hnone

/-- A thread goes on with nothing in its hands. -/
theorem Placed.setThread (h : Placed Q thread pushed sent) {g : TxStage} (hk : (thread k).held = none)
    (hg : g.held = none) : Placed Q (Function.update thread k g) pushed sent := by
  have hheld : ∀ j r, (Function.update thread k g j).held = some r → (thread j).held = some r := by
    intro j r hj
    by_cases hjk : j = k
    · rw [hjk, Function.update_self, hg] at hj
      cases hj
    · rwa [Function.update_of_ne hjk] at hj
  have hsame : ∀ j g', g'.held ≠ none → Function.update thread k g j = g' → thread j = g' := by
    intro j g' hne hj
    by_cases hjk : j = k
    · rw [hjk, Function.update_self] at hj
      rw [← hj, hg] at hne
      exact absurd rfl hne
    · rwa [Function.update_of_ne hjk] at hj
  refine ⟨h.numbered, h.sent_eq, h.queued, fun j r hj => h.held j r (hheld j r hj), fun r hr => ?_, h.sorted,
    fun j r hj => h.ahead j r (hsame j _ (Option.some_ne_none _) hj), fun j r hj => ?_⟩
  · refine (h.somewhere r hr).imp_right fun ⟨j, hj⟩ => ⟨j, ?_⟩
    have hjk : j ≠ k := by
      rintro rfl
      rw [hk] at hj
      cases hj
    rwa [Function.update_of_ne hjk]
  · obtain ⟨hnum, hqueue, hothers⟩ := h.next j r (hsame j _ (Option.some_ne_none _) hj)
    exact ⟨hnum, hqueue, fun j' hne r' hr' => hothers j' hne r' (hheld j' r' hr')⟩

/-- A new report is the last. -/
theorem Placed.push (h : Placed Q thread pushed sent) (hr : r.num = pushed.length) :
    Placed (Q ++ [r]) thread (pushed ++ [r]) sent := by
  have hunsent : ∀ {x}, Unsent pushed sent x → Unsent (pushed ++ [r]) sent x := fun hx =>
    ⟨hx.1, by rw [List.getElem?_append_left hx.lt]; exact hx.2⟩
  have hlen : sent.length ≤ pushed.length := by
    have htake := congrArg List.length h.sent_eq
    rw [List.length_take] at htake
    omega
  have hlast : ∀ x ∈ Q ++ [r], x ∈ Q ∨ x = r := fun x hx => (List.mem_append.mp hx).imp_right List.mem_singleton.mp
  refine ⟨fun n x hx => ?_, ?_, fun x hx => ?_, fun j x hj => hunsent (h.held j x hj), fun x hx => ?_, ?_,
    fun j x hj y hy => ?_, fun j x hj => ?_⟩
  · rw [List.getElem?_append] at hx
    split at hx
    · exact h.numbered n x hx
    · next hge =>
      obtain ⟨hn, rfl⟩ : n - pushed.length = 0 ∧ r = x := by
        rw [List.getElem?_singleton] at hx
        split at hx
        · next h0 => exact ⟨h0, by cases hx; rfl⟩
        · cases hx
      omega
  · rw [List.take_append_of_le_length hlen]
    exact h.sent_eq
  · rcases hlast x hx with hx | rfl
    · exact hunsent (h.queued x hx)
    · exact ⟨by omega, by rw [hr, List.getElem?_append_right (Nat.le_refl _), Nat.sub_self]; rfl⟩
  · by_cases hlt : x.num < pushed.length
    · rw [Unsent, List.getElem?_append_left hlt] at hx
      exact (h.somewhere x hx).imp_left (List.mem_append_left _)
    · have hx := hx.2
      rw [List.getElem?_append_right (by omega), List.getElem?_singleton] at hx
      split at hx
      · cases hx
        exact .inl (List.mem_append_right _ (.head _))
      · cases hx
  · refine List.pairwise_append.mpr ⟨h.sorted, List.pairwise_singleton _ _, fun x hx y hy => ?_⟩
    rw [List.mem_singleton.mp hy, hr]
    exact (h.queued x hx).lt
  · rcases hlast y hy with hy | rfl
    · exact h.ahead j x hj y hy
    · rw [hr]
      exact (h.held j x (by rw [hj]; rfl)).lt
  · obtain ⟨hnum, hqueue, hothers⟩ := h.next j x hj
    refine ⟨hnum, fun y hy => ?_, hothers⟩
    rcases hlast y hy with hy | rfl
    · exact hqueue y hy
    · rw [hr]
      exact (h.held j x (by rw [hj]; rfl)).lt

/-- A kick takes the oldest report of the queue. -/
theorem Placed.pop (h : Placed (r :: Q) thread pushed sent) (hk : (thread k).held = none) :
    Placed Q (Function.update thread k (.holding r)) pushed sent := by
  obtain ⟨hfirst, hsorted⟩ := List.pairwise_cons.mp h.sorted
  refine ⟨h.numbered, h.sent_eq, fun x hx => h.queued x (.tail _ hx), fun j x hj => ?_, fun x hx => ?_, hsorted,
    fun j x hj => ?_, fun j x hj => ?_⟩
  · by_cases hjk : j = k
    · rw [hjk, Function.update_self] at hj
      cases hj
      exact h.queued _ (.head _)
    · rw [Function.update_of_ne hjk] at hj
      exact h.held j x hj
  · rcases h.somewhere x hx with hmem | ⟨j, hj⟩
    · rcases List.mem_cons.mp hmem with rfl | hmem
      · exact .inr ⟨k, by rw [Function.update_self]; rfl⟩
      · exact .inl hmem
    · have hjk : j ≠ k := by
        rintro rfl
        rw [hk] at hj
        cases hj
      exact .inr ⟨j, by rwa [Function.update_of_ne hjk]⟩
  · by_cases hjk : j = k
    · rw [hjk, Function.update_self] at hj
      cases hj
      exact hfirst
    · rw [Function.update_of_ne hjk] at hj
      exact fun y hy => h.ahead j x hj y (.tail _ hy)
  · by_cases hjk : j = k
    · rw [hjk, Function.update_self] at hj
      cases hj
    · rw [Function.update_of_ne hjk] at hj
      obtain ⟨hnum, hqueue, hothers⟩ := h.next j x hj
      refine ⟨hnum, fun y hy => hqueue y (.tail _ hy), fun j' hne y hy => ?_⟩
      by_cases hj'k : j' = k
      · rw [hj'k, Function.update_self] at hy
        cases hy
        exact hqueue _ (.head _)
      · rw [Function.update_of_ne hj'k] at hy
        exact hothers j' hne y hy

/-- A kick looks at `tx_pending`, and keeps its report. -/
theorem Placed.look (h : Placed Q thread pushed sent) {g : TxStage} (hk : thread k = .holding r) (hg : g.held = some r)
    (hnot : ∀ x, g ≠ .holding x)
    (hnext : ∀ x, g = .handing x → x.num = sent.length ∧ (∀ y ∈ Q, x.num < y.num) ∧
      ∀ j, j ≠ k → ∀ y, (thread j).held = some y → x.num < y.num) :
    Placed Q (Function.update thread k g) pushed sent := by
  have hheld : ∀ j, (Function.update thread k g j).held = (thread j).held := by
    intro j
    by_cases hjk : j = k
    · rw [hjk, Function.update_self, hg, hk]
      rfl
    · rw [Function.update_of_ne hjk]
  refine ⟨h.numbered, h.sent_eq, h.queued, fun j x hj => h.held j x (hheld j ▸ hj), fun x hx => ?_, h.sorted,
    fun j x hj => ?_, fun j x hj => ?_⟩
  · exact (h.somewhere x hx).imp_right fun ⟨j, hj⟩ => ⟨j, (hheld j).trans hj⟩
  · by_cases hjk : j = k
    · rw [hjk, Function.update_self] at hj
      exact absurd hj (hnot x)
    · rw [Function.update_of_ne hjk] at hj
      exact h.ahead j x hj
  · by_cases hjk : j = k
    · rw [hjk, Function.update_self] at hj
      obtain ⟨hnum, hqueue, hothers⟩ := hnext x hj
      exact ⟨hnum, hqueue, fun j' hne y hy => hothers j' (hjk ▸ hne) y (hheld j' ▸ hy)⟩
    · rw [Function.update_of_ne hjk] at hj
      obtain ⟨hnum, hqueue, hothers⟩ := h.next j x hj
      exact ⟨hnum, hqueue, fun j' hne y hy => hothers j' hne y (hheld j' ▸ hy)⟩

/-- A report that nothing unsent is earlier than is the next one. -/
theorem Placed.num_eq (h : Placed Q thread pushed sent) (hk : thread k = .holding r)
    (hothers : ∀ j, j ≠ k → ∀ y, (thread j).held = some y → r.num < y.num) : r.num = sent.length := by
  have hunsent := h.held k r (by rw [hk]; rfl)
  by_contra hne
  have hlt : sent.length < r.num := lt_of_le_of_ne hunsent.1 (Ne.symm hne)
  obtain ⟨x, hx⟩ : ∃ x, pushed[sent.length]? = some x := ⟨_, List.getElem?_eq_getElem (hlt.trans hunsent.lt)⟩
  have hnum := h.numbered _ x hx
  have hearlier : ¬ r.num < x.num := by omega
  rcases h.somewhere x ⟨hnum.ge, by rw [hnum]; exact hx⟩ with hmem | ⟨j, hj⟩
  · exact hearlier (h.ahead k r hk x hmem)
  · by_cases hjk : j = k
    · rw [hjk, hk] at hj
      cases hj
      omega
    · exact hearlier (hothers j hjk x hj)

/-- A report goes back behind earlier ones. -/
theorem Placed.putBack (h : Placed Q thread pushed sent) (hk : thread k = .returning r)
    (hqueue : ∀ y ∈ Q, y.num < r.num) (hholding : ∀ j, j ≠ k → ∀ y, thread j = .holding y → y.num < r.num) :
    Placed (Q ++ [r]) (Function.update thread k .idle) pushed sent := by
  have hlast : ∀ x ∈ Q ++ [r], x ∈ Q ∨ x = r := fun x hx => (List.mem_append.mp hx).imp_right List.mem_singleton.mp
  have hr : (thread k).held = some r := by rw [hk]; rfl
  refine ⟨h.numbered, h.sent_eq, fun x hx => ?_, fun j x hj => ?_, fun x hx => ?_, ?_, fun j x hj y hy => ?_,
    fun j x hj => ?_⟩
  · rcases hlast x hx with hx | rfl
    · exact h.queued x hx
    · exact h.held k x hr
  · by_cases hjk : j = k
    · rw [hjk, Function.update_self] at hj
      cases hj
    · rw [Function.update_of_ne hjk] at hj
      exact h.held j x hj
  · rcases h.somewhere x hx with hmem | ⟨j, hj⟩
    · exact .inl (List.mem_append_left _ hmem)
    · by_cases hjk : j = k
      · rw [hjk, hr, Option.some.injEq] at hj
        exact .inl (List.mem_append_right _ (List.mem_singleton.mpr hj.symm))
      · exact .inr ⟨j, by rwa [Function.update_of_ne hjk]⟩
  · refine List.pairwise_append.mpr ⟨h.sorted, List.pairwise_singleton _ _, fun x hx y hy => ?_⟩
    rw [List.mem_singleton.mp hy]
    exact hqueue x hx
  · by_cases hjk : j = k
    · rw [hjk, Function.update_self] at hj
      cases hj
    · rw [Function.update_of_ne hjk] at hj
      rcases hlast y hy with hy | rfl
      · exact h.ahead j x hj y hy
      · exact hholding j hjk x hj
  · by_cases hjk : j = k
    · rw [hjk, Function.update_self] at hj
      cases hj
    · rw [Function.update_of_ne hjk] at hj
      obtain ⟨hnum, hbehind, hothers⟩ := h.next j x hj
      refine ⟨hnum, fun y hy => ?_, fun j' hne y hy => ?_⟩
      · rcases hlast y hy with hy | rfl
        · exact hbehind y hy
        · exact hothers k (Ne.symm hjk) y hr
      · by_cases hj'k : j' = k
        · rw [hj'k, Function.update_self] at hy
          cases hy
        · rw [Function.update_of_ne hj'k] at hy
          exact hothers j' hne y hy

/-- The next report is handed over. -/
theorem Placed.hand (h : Placed Q thread pushed sent) (hk : thread k = .handing r)
    (halone : ∀ j, j ≠ k → ∀ x, thread j ≠ .handing x) :
    Placed Q (Function.update thread k .idle) pushed (sent ++ [r]) := by
  obtain ⟨hnum, hqueue, hothers⟩ := h.next k r hk
  have hunsent := h.held k r (by rw [hk]; rfl)
  have hlen : (sent ++ [r]).length = sent.length + 1 := by rw [List.length_append, List.length_singleton]
  refine ⟨h.numbered, ?_, fun x hx => ?_, fun j x hj => ?_, fun x hx => ?_, h.sorted, fun j x hj => ?_, fun j x hj => ?_⟩
  · have hat := hunsent.2
    rw [hnum] at hat
    rw [hlen, List.take_add_one, hat, ← h.sent_eq]
    rfl
  · have hlt := hqueue x hx
    exact ⟨by omega, (h.queued x hx).2⟩
  · by_cases hjk : j = k
    · rw [hjk, Function.update_self] at hj
      cases hj
    · rw [Function.update_of_ne hjk] at hj
      have hlt := hothers j hjk x hj
      exact ⟨by omega, (h.held j x hj).2⟩
  · have hlater := hx.1
    refine (h.somewhere x ⟨by omega, hx.2⟩).imp_right fun ⟨j, hj⟩ => ⟨j, ?_⟩
    have hjk : j ≠ k := by
      rintro rfl
      rw [hk] at hj
      cases hj
      omega
    rwa [Function.update_of_ne hjk]
  · by_cases hjk : j = k
    · rw [hjk, Function.update_self] at hj
      cases hj
    · rw [Function.update_of_ne hjk] at hj
      exact h.ahead j x hj
  · by_cases hjk : j = k
    · rw [hjk, Function.update_self] at hj
      cases hj
    · rw [Function.update_of_ne hjk] at hj
      exact absurd hj (halone j hjk x)

/-! ## The transfer -/

/-- `tx_pending` is set for one transfer: one that a kick is about to hand
over, or that is in flight, or whose completion has not cleared it yet. -/
structure Flow (pending inFlight : Bool) (thread : Nat → TxStage) : Prop where
  owner : ∀ k, (thread k).owns = true → pending = true ∧ inFlight = false ∧ ∀ j, j ≠ k → (thread j).owns = false
  flight : inFlight = true → pending = true ∧ ∀ k, (thread k).owns = false
  pending : pending = true → inFlight = true ∨ ∃ k, (thread k).owns = true

variable {pending inFlight : Bool} {g : TxStage}

theorem Flow.setThread (h : Flow pending inFlight thread) (hg : g.owns = (thread k).owns) :
    Flow pending inFlight (Function.update thread k g) := by
  have howns : ∀ j, (Function.update thread k g j).owns = (thread j).owns := by
    intro j
    by_cases hjk : j = k
    · rw [hjk, Function.update_self, hg]
    · rw [Function.update_of_ne hjk]
  constructor
  · intro j hj
    obtain ⟨hpending, hidle, hothers⟩ := h.owner j (howns j ▸ hj)
    exact ⟨hpending, hidle, fun j' hne => (howns j').trans (hothers j' hne)⟩
  · intro hf
    exact ⟨(h.flight hf).1, fun j => (howns j).trans ((h.flight hf).2 j)⟩
  · intro hp
    exact (h.pending hp).imp_right fun ⟨j, hj⟩ => ⟨j, (howns j).trans hj⟩

/-- No one has the transfer. -/
theorem Flow.free (h : Flow false inFlight thread) : inFlight = false ∧ ∀ j, (thread j).owns = false := by
  constructor
  · by_contra hf
    cases (h.flight (Bool.eq_true_of_not_eq_false hf)).1
  · intro j
    by_contra hj
    cases (h.owner j (Bool.eq_true_of_not_eq_false hj)).1

/-- A thread has it, and no other does. -/
theorem flow_owned (hg : g.owns = true) (hothers : ∀ j, j ≠ k → (thread j).owns = false) :
    Flow true false (Function.update thread k g) := by
  have hother : ∀ j, j ≠ k → (Function.update thread k g j).owns = false := fun j hjk => by
    rw [Function.update_of_ne hjk, hothers j hjk]
  refine ⟨fun j hj => ⟨rfl, rfl, ?_⟩, (fun hf => nomatch hf), fun _ => .inr ⟨k, by rw [Function.update_self, hg]⟩⟩
  by_cases hjk : j = k
  · rw [hjk]
    exact hother
  · rw [hother j hjk] at hj
    cases hj

/-- No thread has it. -/
theorem flow_unowned (hg : g.owns = false) (hothers : ∀ j, j ≠ k → (thread j).owns = false) (inFlight : Bool) :
    Flow inFlight inFlight (Function.update thread k g) := by
  have hnone : ∀ j, (Function.update thread k g j).owns = false := by
    intro j
    by_cases hjk : j = k
    · rw [hjk, Function.update_self, hg]
    · rw [Function.update_of_ne hjk, hothers j hjk]
  refine ⟨fun j hj => ?_, fun hf => ⟨hf, hnone⟩, fun hp => .inl hp⟩
  rw [hnone j] at hj
  cases hj

end

/-! ## Runs -/

namespace TxQueue

variable {s s' : TxQueue}

/-- Nothing goes wrong in the step: a kick that finds `tx_pending` clear has
no earlier report beside it in another kick's hands; and a report is put back
into a queue with room for it and no later report, with none in the hands of
a kick that has yet to look at `tx_pending`, while `tx_pending` is set or
someone is still on the way. -/
def Orderly (s : TxQueue) : TxAction → Prop
  | .check k => ∀ r, s.thread k = .holding r → s.pending = false →
    ∀ j, j ≠ k → ∀ r', (s.thread j).held = some r' → r.num < r'.num
  | .putBack k => ∀ r, s.thread k = .returning r →
    s.queue.toList.length < queueDepth ∧ (∀ r' ∈ s.queue.toList, r'.num < r.num) ∧
      (∀ j, j ≠ k → ∀ r', s.thread j = .holding r' → r'.num < r.num) ∧
      (s.pending = true ∨ ∃ j, j ≠ k ∧ s.thread j ≠ .idle)
  | _ => True

structure Sound (s : TxQueue) : Prop where
  placed : Placed s.queue.toList s.thread s.pushed s.sent
  flow : Flow s.pending s.inFlight s.thread
  /-- What is in the queue will be looked at. -/
  awake : s.queue.toList = [] ∨ s.pending = true ∨ ∃ k, s.thread k ≠ .idle

theorem sound_init : init.Sound where
  placed :=
    { numbered := fun _ _ h => by cases h
      sent_eq := rfl
      queued := fun _ h => by cases h
      held := fun _ _ h => by cases h
      somewhere := fun _ h => by cases h.2
      sorted := List.Pairwise.nil
      ahead := fun _ _ h => by cases h
      next := fun _ _ h => by cases h }
  flow := ⟨(fun _ h => nomatch h), (fun h => nomatch h), fun h => nomatch h⟩
  awake := .inl rfl

theorem busy {thread : Nat → TxStage} {k : Nat} {g : TxStage} (hg : g ≠ .idle) :
    ∃ j, Function.update thread k g j ≠ .idle := ⟨k, by rwa [Function.update_self]⟩

/-- A thread that holds nothing and has no transfer goes on, and is not done. -/
theorem Sound.setThread (h : s.Sound) {k : Nat} {g : TxStage} (hk : (s.thread k).held = none)
    (hown : (s.thread k).owns = false) (hg : g.held = none) (hgown : g.owns = false) (hne : g ≠ .idle) :
    (s.setThread k g).Sound :=
  ⟨h.placed.setThread hk hg, h.flow.setThread (hgown.trans hown.symm), .inr (.inr (busy hne))⟩

/-- A new report goes to the end of the queue, and the pusher is not done. -/
theorem pushNew_cases (s : TxQueue) (p : Packet) :
    s.pushNew p = none ∨ ∃ s' : TxQueue, s.pushNew p = some s' ∧ ∃ r : Report, r.num = s.pushed.length ∧
      s'.queue.toList = s.queue.toList ++ [r] ∧ s'.pushed = s.pushed ++ [r] ∧ s'.sent = s.sent ∧
      s'.thread = s.thread ∧ s'.pending = s.pending ∧ s'.inFlight = s.inFlight := by
  rw [pushNew]
  cases hpush : s.queue.push ⟨s.pushed.length, p⟩ with
  | none => exact .inl rfl
  | some q => exact .inr ⟨_, rfl, _, rfl, RingBuffer.toList_push hpush, rfl, rfl, rfl, rfl, rfl⟩

theorem Sound.pushNew (h : s.Sound) {p : Packet} (hs : s.pushNew p = some s') {k : Nat} {g : TxStage}
    (hk : (s.thread k).held = none) (hown : (s.thread k).owns = false) (hg : g.held = none) (hgown : g.owns = false)
    (hne : g ≠ .idle) : (s'.setThread k g).Sound := by
  rcases s.pushNew_cases p with hnone | ⟨t, ht, r, hnum, hqueue, hpushed, hsent, hthread, hpending, hflight⟩
  · rw [hnone] at hs
    cases hs
  · rw [hs, Option.some.injEq] at ht
    subst ht
    refine ⟨?_, ?_, .inr (.inr (busy hne))⟩
    · show Placed s'.queue.toList (Function.update s'.thread k g) s'.pushed s'.sent
      rw [hqueue, hthread, hpushed, hsent]
      exact (h.placed.push hnum).setThread hk hg
    · show Flow s'.pending s'.inFlight (Function.update s'.thread k g)
      rw [hpending, hflight, hthread]
      exact h.flow.setThread (hgown.trans hown.symm)

theorem Sound.step (h : s.Sound) {a : TxAction} (hok : s.Orderly a) (hstep : s.step a = some s') : s'.Sound := by
  cases a with
  | send k cid cmd payload =>
    simp only [TxQueue.step] at hstep
    split at hstep
    · next hk =>
      cases hstep
      exact h.setThread (by rw [hk]; rfl) (by rw [hk]; rfl) rfl rfl TxStage.noConfusion
    · cases hstep
  | push k =>
    simp only [TxQueue.step] at hstep
    split at hstep
    · next p packets hk =>
      cases hstep
      cases hpush : s.pushNew p with
      | none => exact h.setThread (by rw [hk]; rfl) (by rw [hk]; rfl) rfl rfl TxStage.noConfusion
      | some t => exact h.pushNew hpush (by rw [hk]; rfl) (by rw [hk]; rfl) rfl rfl TxStage.noConfusion
    · next hk =>
      cases hstep
      exact h.setThread (by rw [hk]; rfl) (by rw [hk]; rfl) rfl rfl TxStage.noConfusion
    · cases hstep
  | miscWrite k p =>
    simp only [TxQueue.step] at hstep
    split at hstep
    · next hk =>
      cases hstep
      cases hpush : s.pushNew p with
      | none => exact h
      | some t => exact h.pushNew hpush (by rw [hk]; rfl) (by rw [hk]; rfl) rfl rfl TxStage.noConfusion
    · cases hstep
  | kick k =>
    simp only [TxQueue.step] at hstep
    split at hstep
    · next hk =>
      cases hstep
      exact h.setThread (by rw [hk]; rfl) (by rw [hk]; rfl) rfl rfl TxStage.noConfusion
    · cases hstep
  | pop k =>
    simp only [TxQueue.step] at hstep
    split at hstep
    · next hk =>
      split at hstep
      · next r q hpop =>
        cases hstep
        have hplaced := h.placed
        rw [RingBuffer.toList_pop hpop] at hplaced
        exact ⟨hplaced.pop (by rw [hk]; rfl), h.flow.setThread (by rw [hk]; rfl),
          .inr (.inr (busy TxStage.noConfusion))⟩
      · next hnone =>
        cases hstep
        exact ⟨h.placed.setThread (by rw [hk]; rfl) rfl, h.flow.setThread (by rw [hk]; rfl),
          .inl (RingBuffer.pop_eq_none.mp hnone)⟩
    · cases hstep
  | check k =>
    simp only [TxQueue.step] at hstep
    split at hstep
    · next r hk =>
      split at hstep
      · cases hstep
        exact ⟨h.placed.look hk rfl (fun _ => TxStage.noConfusion) (fun _ => TxStage.noConfusion),
          h.flow.setThread (by rw [hk]; rfl), .inr (.inr (busy TxStage.noConfusion))⟩
      · next hclear =>
        cases hstep
        have hpending : s.pending = false := Bool.eq_false_of_not_eq_true hclear
        have hothers := hok r hk hpending
        have hflow := h.flow
        rw [hpending] at hflow
        obtain ⟨hidle, hfree⟩ := hflow.free
        refine ⟨h.placed.look hk rfl (fun _ => TxStage.noConfusion) fun x hx => ?_, ?_, .inr (.inl rfl)⟩
        · cases hx
          exact ⟨h.placed.num_eq hk hothers, h.placed.ahead k r hk, hothers⟩
        · show Flow true s.inFlight (Function.update s.thread k (.handing r))
          rw [hidle]
          exact flow_owned rfl fun j _ => hfree j
    · cases hstep
  | putBack k =>
    simp only [TxQueue.step] at hstep
    split at hstep
    · next r hk =>
      cases hstep
      obtain ⟨hroom, hqueue, hholding, hawake⟩ := hok r hk
      obtain ⟨q, hpush⟩ := RingBuffer.exists_push hroom r
      refine ⟨?_, h.flow.setThread (by rw [hk]; rfl), .inr ?_⟩
      · show Placed ((s.queue.push r).getD s.queue).toList (Function.update s.thread k .idle) s.pushed s.sent
        rw [hpush, Option.getD_some, RingBuffer.toList_push hpush]
        exact h.placed.putBack hk hqueue hholding
      · exact hawake.imp_right fun ⟨j, hjk, hj⟩ => ⟨j, by
          show Function.update s.thread k .idle j ≠ .idle
          rwa [Function.update_of_ne hjk]⟩
    · cases hstep
  | queue k =>
    simp only [TxQueue.step] at hstep
    split at hstep
    · next r hk =>
      cases hstep
      obtain ⟨hpending, -, hothers⟩ := h.flow.owner k (by rw [hk]; rfl)
      refine ⟨h.placed.hand hk fun j hjk x hj => ?_, ?_, .inr (.inl hpending)⟩
      · have hown := hothers j hjk
        rw [hj] at hown
        cases hown
      · show Flow s.pending true (Function.update s.thread k .idle)
        rw [hpending]
        exact flow_unowned rfl hothers true
    · cases hstep
  | complete k =>
    simp only [TxQueue.step] at hstep
    split at hstep
    · next hk =>
      split at hstep
      · next hflight =>
        cases hstep
        obtain ⟨hpending, hfree⟩ := h.flow.flight hflight
        refine ⟨h.placed.setThread (by rw [hk]; rfl) rfl, ?_, .inr (.inl hpending)⟩
        show Flow s.pending false (Function.update s.thread k .completing)
        rw [hpending]
        exact flow_owned rfl fun j _ => hfree j
      · cases hstep
    · cases hstep
  | clear k =>
    simp only [TxQueue.step] at hstep
    split at hstep
    · next hk =>
      cases hstep
      obtain ⟨-, hidle, hothers⟩ := h.flow.owner k (by rw [hk]; rfl)
      refine ⟨h.placed.setThread (by rw [hk]; rfl) rfl, ?_, .inr (.inr (busy TxStage.noConfusion))⟩
      show Flow false s.inFlight (Function.update s.thread k .kicking)
      rw [hidle]
      exact flow_unowned rfl hothers false
    · cases hstep

/-- The host has taken what was handed over, and no call is under way. -/
def AtRest (s : TxQueue) : Prop := s.inFlight = false ∧ ∀ k, s.thread k = .idle

/-- **In an orderly run reports leave in the order they were pushed**, each
once, and when all is at rest none is left. -/
theorem sent_of_runs {as : List TxAction} (h : Runs TxQueue.step Orderly init as s) :
    s.sent <+: s.pushed ∧ (s.AtRest → s.sent = s.pushed) := by
  have hsound : s.Sound := h.invariant (fun _ _ _ hs hok hstep => hs.step hok hstep) sound_init
  have hsent := hsound.placed.sent_eq
  refine ⟨?_, fun ⟨hidle, hthreads⟩ => ?_⟩
  · rw [hsent]
    exact List.take_prefix _ _
  · have hheld : ∀ k, (s.thread k).held = none := fun k => by rw [hthreads k]; rfl
    have hclear : s.pending ≠ true := fun hp => by
      rcases hsound.flow.pending hp with hf | ⟨k, hk⟩
      · rw [hidle] at hf
        cases hf
      · rw [hthreads k] at hk
        cases hk
    have hempty : s.queue.toList = [] := by
      rcases hsound.awake with hq | hp | ⟨k, hk⟩
      · exact hq
      · exact absurd hp hclear
      · exact absurd (hthreads k) hk
    rw [hsent, List.take_of_length_le]
    by_contra hlt
    obtain ⟨r, hr⟩ : ∃ r, s.pushed[s.sent.length]? = some r := ⟨_, List.getElem?_eq_getElem (Nat.lt_of_not_le hlt)⟩
    have hnum := hsound.placed.numbered _ r hr
    rcases hsound.placed.somewhere r ⟨hnum.ge, by rw [hnum]; exact hr⟩ with hmem | ⟨k, hk⟩
    · rw [hempty] at hmem
      cases hmem
    · rw [hheld k] at hk
      cases hk

/-- A step moves one thread. -/
theorem step_others {a : TxAction} (h : s.step a = some s') {j : Nat} (hj : j ≠ a.thread) :
    s'.thread j = s.thread j := by
  have hset : ∀ (t : TxQueue) g, (t.setThread a.thread g).thread j = t.thread j := fun t g => Function.update_of_ne hj _ _
  have hnew : ∀ p (t : TxQueue), s.pushNew p = some t → t.thread = s.thread := by
    intro p t ht
    obtain ⟨q, -, rfl⟩ := Option.map_eq_some_iff.mp ht
    rfl
  cases a with
  | push k =>
    simp only [step] at h
    split at h
    · next p packets _ =>
      cases h
      refine (hset _ _).trans ?_
      cases ht : s.pushNew p with
      | none => rfl
      | some t => rw [Option.getD_some, hnew p t ht]
    · cases h
      exact hset _ _
    · cases h
  | miscWrite k p =>
    simp only [step] at h
    split at h
    · cases h
      cases ht : s.pushNew p with
      | none => rfl
      | some t =>
        rw [Option.map_some, Option.getD_some, ← hnew p t ht]
        exact hset _ _
    · cases h
  | _ =>
    simp only [step] at h
    repeat' split at h
    all_goals cases h
    all_goals exact hset _ _

/-- One thread does all, and puts a report back only into an empty queue
while a transfer is pending. -/
def Alone (s : TxQueue) : TxAction → Bool
  | .putBack k => k == 0 && (s.queue.toList.isEmpty && s.pending)
  | a => a.thread == 0

theorem thread_of_alone {a : TxAction} (h : s.Alone a = true) : a.thread = 0 := by
  cases a with
  | putBack k =>
    rw [Alone, Bool.and_eq_true] at h
    exact beq_iff_eq.mp h.1
  | _ => exact beq_iff_eq.mp h

theorem orderly_of_alone {a : TxAction} (hidle : ∀ j, j ≠ 0 → s.thread j = .idle) (h : s.Alone a = true) :
    s.Orderly a := by
  have hothers : ∀ j, j ≠ a.thread → s.thread j = .idle := fun j hj => hidle j (thread_of_alone h ▸ hj)
  cases a with
  | check k =>
    intro r _ _ j hj r' hr'
    rw [hothers j hj] at hr'
    cases hr'
  | putBack k =>
    intro r _
    simp only [Alone, Bool.and_eq_true, List.isEmpty_iff] at h
    obtain ⟨-, hempty, hpending⟩ := h
    rw [hempty]
    refine ⟨by decide, (fun _ h => nomatch h), fun j hj r' hr' => ?_, .inl hpending⟩
    rw [hothers j hj] at hr'
    cases hr'
  | _ => trivial

/-- A keepalive, and another that is put back while the first is in flight. -/
def twoKeepalives : List TxAction :=
  [.send 0 7 hidKeepalive [1], .push 0, .push 0, .pop 0, .check 0, .queue 0,
    .send 0 7 hidKeepalive [2], .push 0, .push 0, .pop 0, .check 0, .putBack 0,
    .complete 0, .clear 0, .pop 0, .check 0, .queue 0, .complete 0, .clear 0, .pop 0]

theorem sent_twoKeepalives : ∃ s, Runs TxQueue.step Orderly init twoKeepalives s ∧ s.pushed.length = 2 ∧
    s.sent = s.pushed := by
  have hrun : (Runs.exec TxQueue.step Alone init twoKeepalives).map
      (fun s => (s.pushed.length, s.inFlight, s.thread 0 matches .idle)) = some (2, false, true) := by decide +kernel
  obtain ⟨s, hexec, hfields⟩ := Option.map_eq_some_iff.mp hrun
  obtain ⟨hlen, hfields⟩ := Prod.mk.inj hfields
  obtain ⟨hflight, hidle⟩ := Prod.mk.inj hfields
  have halone : Runs TxQueue.step (fun s a => s.Alone a = true) init twoKeepalives s := Runs.of_exec (fun _ _ h => h) hexec
  have hkept : ∀ (s : TxQueue) a t, (∀ j, j ≠ 0 → s.thread j = .idle) → s.Alone a = true → s.step a = some t →
      ∀ j, j ≠ 0 → t.thread j = .idle := by
    intro s a t hs ha hstep j hj
    rw [step_others hstep (thread_of_alone ha ▸ hj), hs j hj]
  have hrun : Runs TxQueue.step Orderly init twoKeepalives s :=
    halone.mono_of_invariant hkept (fun _ _ => orderly_of_alone) fun _ _ => rfl
  have hrest : s.AtRest := by
    refine ⟨hflight, fun k => ?_⟩
    by_cases hk : k = 0
    · subst hk
      revert hidle
      cases s.thread 0 <;> intro hidle <;> first | rfl | cases hidle
    · exact halone.invariant hkept (fun _ _ => rfl) k hk
  exact ⟨s, hrun, hlen, (sent_of_runs hrun).2 hrest⟩

/-- The keepalive is in flight, so the kick puts the first packet of the
response back, behind the second. -/
def overtakingRun : List TxAction :=
  [.send 0 7 hidKeepalive [1], .push 0, .push 0, .pop 0, .check 0, .queue 0,
    .send 1 7 hidPing (List.replicate 60 0), .push 1, .push 1, .push 1, .pop 1, .check 1, .putBack 1,
    .complete 2, .clear 2, .pop 2, .check 2, .queue 2]

theorem exists_reordered : ∃ s, Runs TxQueue.step (fun _ _ => True) init overtakingRun s ∧
    s.pushed.map (·.num) = [0, 1, 2] ∧ s.sent.map (·.num) = [0, 2] ∧ ¬ s.sent <+: s.pushed := by
  have hrun : (Runs.exec TxQueue.step (fun _ _ => true) init overtakingRun).map
      (fun s => (s.pushed.map (·.num), s.sent.map (·.num))) = some ([0, 1, 2], [0, 2]) := by decide +kernel
  obtain ⟨s, hexec, hnums⟩ := Option.map_eq_some_iff.mp hrun
  obtain ⟨hpushed, hsent⟩ := Prod.mk.inj hnums
  refine ⟨s, Runs.of_exec (fun _ _ _ => trivial) hexec, hpushed, hsent, fun h => ?_⟩
  have hnum := h.map (·.num)
  rw [hpushed, hsent] at hnum
  revert hnum
  decide

end TxQueue

end AbkFido
