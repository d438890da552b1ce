/-
The backlog of host reports is a FIFO that drops only the oldest.

`Backlogged` ties the ring, the waiting reads, the drop counter and the log
together; every step keeps it. So frames leave in the order they arrived in,
each once, and one is displaced only when the ring is full.
-/
import AbkFido.Vhid.Device

namespace AbkFido.Vhid

/-- The frames that came from the host, the oldest first. -/
def arrivals (log : List Event) : List Frame := (log.filterMap fun
  | .arrived frame => some frame
  | _ => none).reverse

/-- The frames that left the driver, in the order they did. -/
def departures (log : List Event) : List Frame := (log.filterMap fun
  | .handed _ frame | .displaced frame => some frame
  | .arrived _ => none).reverse

/-- The frames that reads were completed with. -/
def handedFrames (log : List Event) : List Frame := (log.filterMap fun
  | .handed _ frame => some frame
  | _ => none).reverse

def displacements (log : List Event) : Nat := log.countP fun
  | .displaced _ => true
  | _ => false

/-- A frame is displaced only while as many are waiting as there are slots. -/
def DisplacedFull : Event → List Event → Prop
  | .displaced _, past => (arrivals past).length = (departures past).length + ringSlots
  | _, _ => True

/-- These frames are in the backlog. -/
structure Backlogged (d : Device) (frames : List Frame) : Prop where
  holds : Ring.Holds ringSlots d.context.ring d.context.tail d.context.head d.context.count frames
  waits : d.context.readQueue ≠ [] → frames = []
  arrivals : arrivals d.log = departures d.log ++ frames
  displaced : Past.Always DisplacedFull d.log
  dropped : d.context.dropped.toNat = displacements d.log % 2 ^ 32

theorem slots_lt : ringSlots < 2 ^ 32 := by decide

/-! ## Events -/

section
variable (request : Nat) (frame : Frame) (log : List Event)

@[simp] theorem arrivals_arrived : arrivals (.arrived frame :: log) = arrivals log ++ [frame] := by simp [arrivals]
@[simp] theorem arrivals_handed : arrivals (.handed request frame :: log) = arrivals log := by simp [arrivals]
@[simp] theorem arrivals_displaced : arrivals (.displaced frame :: log) = arrivals log := by simp [arrivals]

@[simp] theorem departures_arrived : departures (.arrived frame :: log) = departures log := by simp [departures]
@[simp] theorem departures_handed : departures (.handed request frame :: log) = departures log ++ [frame] := by
  simp [departures]
@[simp] theorem departures_displaced : departures (.displaced frame :: log) = departures log ++ [frame] := by
  simp [departures]

@[simp] theorem displacements_arrived : displacements (.arrived frame :: log) = displacements log := by
  simp [displacements]
@[simp] theorem displacements_handed : displacements (.handed request frame :: log) = displacements log := by
  simp [displacements]
@[simp] theorem displacements_displaced : displacements (.displaced frame :: log) = displacements log + 1 := by
  simp [displacements]

end

theorem handedFrames_sublist (log : List Event) : (handedFrames log).Sublist (departures log) := by
  rw [handedFrames, departures, List.reverse_sublist]
  induction log with
  | nil => exact .slnil
  | cons e log ih =>
    cases e with
    | arrived => exact ih
    | handed request frame => exact ih.cons_cons frame
    | displaced frame => exact ih.cons frame

/-! ## Steps -/

namespace Backlogged

variable {d d' : Device} {frames : List Frame}

theorem init : Backlogged .init [] where
  holds := .nil (by decide) _
  waits := fun h => absurd rfl h
  arrivals := rfl
  displaced := trivial
  dropped := rfl

/-- What the rest of the driver does leaves the backlog alone. -/
theorem frame (h : Backlogged d frames) {c : Context} (hring : c.ring = d.context.ring) (htail : c.tail = d.context.tail)
    (hhead : c.head = d.context.head) (hcount : c.count = d.context.count) (hdropped : c.dropped = d.context.dropped)
    (hreads : c.readQueue ≠ [] → d.context.readQueue ≠ []) : Backlogged ⟨c, d.log⟩ frames where
  holds := by
    show Ring.Holds ringSlots c.ring c.tail c.head c.count frames
    rw [hring, htail, hhead, hcount]
    exact h.holds
  waits hwait := h.waits (hreads hwait)
  arrivals := h.arrivals
  displaced := h.displaced
  dropped := hdropped ▸ h.dropped

theorem count_eq_zero (h : Backlogged d frames) : d.context.count = 0 ↔ frames = [] := h.holds.count_eq_zero

theorem same (h : Backlogged d frames) (hsame : d.SameBacklog d') : Backlogged d' frames := by
  obtain ⟨replies, rfl⟩ := hsame
  exact h.frame rfl rfl rfl rfl rfl id

/-- The oldest frame leaves, by a read or because the ring is full. -/
theorem leave {x : Frame} (h : Backlogged d (x :: frames)) {e : Event} {dropped : UInt32}
    (harrivals : Vhid.arrivals (e :: d.log) = Vhid.arrivals d.log)
    (hdepartures : departures (e :: d.log) = departures d.log ++ [x]) (hfull : DisplacedFull e d.log)
    (hdropped : dropped.toNat = displacements (e :: d.log) % 2 ^ 32) :
    Backlogged ⟨{ d.context.advanceTail with dropped := dropped }, e :: d.log⟩ frames where
  holds := h.holds.drop slots_lt
  waits hwait := nomatch h.waits hwait
  arrivals := by
    rw [harrivals, hdepartures, h.arrivals, List.append_assoc, List.singleton_append]
  displaced := ⟨hfull, h.displaced⟩
  dropped := hdropped

theorem read (h : Backlogged d frames) (request length : Nat) (forward : NtStatus) :
    ∃ frames, Backlogged (evtIoRead request length forward d) frames := by
  unfold evtIoRead
  split
  · exact ⟨frames, h⟩
  split
  · next hcount =>
    cases frames with
    | nil =>
      rw [h.count_eq_zero.mpr rfl] at hcount
      exact absurd hcount (lt_irrefl 0)
    | cons x frames =>
      have hfirst : d.context.ring d.context.tail.toNat = x := h.holds.first_eq
      rw [hfirst]
      refine ⟨frames, h.leave (e := .handed request x) (arrivals_handed ..) (departures_handed ..) trivial ?_⟩
      rw [displacements_handed]
      exact h.dropped
  · next hcount =>
    have hempty : frames = [] := h.count_eq_zero.mp (UInt32.le_zero_iff.mp (UInt32.not_lt.mp hcount))
    split
    · exact ⟨frames, h.holds, fun _ => hempty, h.arrivals, h.displaced, h.dropped⟩
    · exact ⟨frames, h⟩

/-- There is room for one more. -/
theorem put (h : Backlogged d frames) (hroom : frames.length < ringSlots) (hreads : d.context.readQueue = []) (x : Frame) :
    Backlogged ⟨d.context.putFrame x, .arrived x :: d.log⟩ (frames ++ [x]) where
  holds := h.holds.put slots_lt hroom x
  waits hwait := absurd hreads hwait
  arrivals := by rw [arrivals_arrived, departures_arrived, h.arrivals, List.append_assoc]
  displaced := ⟨trivial, h.displaced⟩
  dropped := by
    rw [displacements_arrived]
    exact h.dropped

theorem enqueue (h : Backlogged d frames) (hreads : d.context.readQueue = []) (x : Frame) :
    ∃ frames, Backlogged (enqueueHostReport x d) frames := by
  unfold enqueueHostReport
  by_cases hfull : d.context.count = .ofNat ringSlots
  · have hlen : frames.length = ringSlots := (h.holds.count_eq_depth slots_lt).mp hfull
    cases frames with
    | nil => cases hlen
    | cons oldest frames =>
      have hfirst : d.context.ring d.context.tail.toNat = oldest := h.holds.first_eq
      have hwaiting : DisplacedFull (.displaced oldest) d.log := by
        show (Vhid.arrivals d.log).length = (departures d.log).length + ringSlots
        rw [h.arrivals, List.length_append, hlen]
      have hdropped : (d.context.dropped + 1).toNat = displacements (.displaced oldest :: d.log) % 2 ^ 32 := by
        rw [displacements_displaced, UInt32.toNat_add, h.dropped]
        exact Nat.mod_add_mod ..
      have hleft := h.leave (arrivals_displaced ..) (departures_displaced ..) hwaiting hdropped
      rw [if_pos hfull, hfirst]
      refine ⟨_, hleft.put ?_ hreads x⟩
      rw [List.length_cons] at hlen
      omega
  · have hlen : frames.length ≠ ringSlots := fun heq => hfull ((h.holds.count_eq_depth slots_lt).mpr heq)
    rw [if_neg hfull]
    exact ⟨_, h.put (lt_of_le_of_ne h.holds.length_le hlen) hreads x⟩

theorem deliver (h : Backlogged d frames) (x : Frame) : ∃ frames, Backlogged (deliverHostReport x d) frames := by
  unfold deliverHostReport
  by_cases hcount : d.context.count = 0
  · have hempty : frames = [] := h.count_eq_zero.mp hcount
    subst hempty
    rw [if_pos hcount]
    split
    · -- A read was waiting: the frame goes past the ring.
      refine ⟨[], h.holds, fun _ => rfl, ?_, ⟨trivial, trivial, h.displaced⟩, ?_⟩
      · rw [arrivals_handed, arrivals_arrived, departures_handed, departures_arrived, h.arrivals, List.append_nil,
          List.append_nil]
      · rw [displacements_handed, displacements_arrived]
        exact h.dropped
    · next hreads => exact h.enqueue hreads x
  · have hreads : d.context.readQueue = [] := by
      by_contra hwait
      exact hcount (h.count_eq_zero.mpr (h.waits hwait))
    rw [if_neg hcount]
    exact h.enqueue hreads x

theorem write (h : Backlogged d frames) {buffer : Option (List UInt8)} (hstep : d.step (.writeReport buffer) = some d') :
    ∃ frames, Backlogged d' frames := by
  obtain ⟨⟨status, d''⟩, hwrite, rfl⟩ := Option.map_eq_some_iff.mp hstep
  unfold evtVhfWriteReport at hwrite
  split at hwrite
  · cases hwrite
    exact ⟨frames, h⟩
  · cases hwrite
    exact ⟨frames, h⟩
  · next bytes _ =>
    obtain ⟨x, _, heq⟩ := Option.bind_eq_some_iff.mp hwrite
    cases heq
    have hmarked : Backlogged ⟨{ d.context with reportIdSeen := true, reportIdLeads := reportSize < bytes.length }, d.log⟩
        frames := h.frame rfl rfl rfl rfl rfl id
    exact hmarked.deliver x

theorem step (h : Backlogged d frames) {a : Action} (hstep : d.step a = some d') : ∃ frames, Backlogged d' frames := by
  cases a with
  | ioRead request length forward =>
    cases hstep
    exact h.read request length forward
  | cancel request =>
    cases hstep
    refine ⟨frames, h.frame rfl rfl rfl rfl rfl fun hwait hnil => hwait ?_⟩
    show d.context.readQueue.erase request = []
    rw [hnil, List.erase_nil]
  | writeReport buffer => exact h.write hstep
  | ioWrite vhf buffer =>
    obtain ⟨⟨sent, status, d''⟩, hwrite, rfl⟩ := Option.map_eq_some_iff.mp hstep
    exact ⟨frames, h.same (evtIoWrite_same hwrite)⟩
  | getInputReport buffer =>
    obtain ⟨⟨status, report, d''⟩, hget, rfl⟩ := Option.map_eq_some_iff.mp hstep
    exact ⟨frames, h.same (evtVhfGetInputReport_same hget)⟩
  | setReportMode mode =>
    cases hstep
    split
    · exact ⟨frames, h⟩
    · exact ⟨frames, h.frame rfl rfl rfl rfl rfl id⟩
  | setStarted started =>
    cases hstep
    exact ⟨frames, h.frame rfl rfl rfl rfl rfl id⟩

end Backlogged

/-! ## Runs -/

/-- **The backlog is a FIFO that drops only the oldest.** -/
theorem backlog_fifo {as : List Action} {d : Device} (h : Runs Device.step (fun _ _ => True) .init as d) :
    d.context.count.toNat ≤ ringSlots ∧
    d.context.tail.toNat < ringSlots ∧
    d.context.head.toNat = (d.context.tail.toNat + d.context.count.toNat) % ringSlots ∧
    (d.context.readQueue ≠ [] → d.context.count = 0) ∧
    (handedFrames d.log).Sublist (arrivals d.log) ∧
    Past.Always DisplacedFull d.log ∧
    d.context.dropped.toNat = displacements d.log % 2 ^ 32 ∧
    ∃ frames, Ring.Holds ringSlots d.context.ring d.context.tail d.context.head d.context.count frames ∧
      arrivals d.log = departures d.log ++ frames := by
  obtain ⟨frames, hd⟩ : ∃ frames, Backlogged d frames := by
    refine h.invariant (I := fun d => ∃ frames, Backlogged d frames) ?_ ⟨[], .init⟩
    rintro s a t ⟨frames, hs⟩ _ hstep
    exact hs.step hstep
  refine ⟨hd.holds.count_le, hd.holds.first_lt, hd.holds.free_count, fun hwait => hd.count_eq_zero.mpr (hd.waits hwait),
    ?_, hd.displaced, hd.dropped, frames, hd.holds, hd.arrivals⟩
  rw [hd.arrivals]
  exact (handedFrames_sublist d.log).trans (List.sublist_append_left ..)

/-- A report for a read that waits, and one that waits for its read. -/
theorem backlog_fifo_two : ∃ d, Runs Device.step (fun _ _ => True) .init
    [.ioRead 1 64 .success, .writeReport (some (List.replicate 64 7)), .writeReport (some (List.replicate 65 0)),
      .ioRead 2 64 .success] d ∧ (handedFrames d.log).Sublist (arrivals d.log) := by
  obtain ⟨d, hrun⟩ : ∃ d, Runs Device.step (fun _ _ => True) .init
      [.ioRead 1 64 .success, .writeReport (some (List.replicate 64 7)), .writeReport (some (List.replicate 65 0)),
        .ioRead 2 64 .success] d :=
    ⟨_, .cons trivial rfl (.cons trivial rfl (.cons trivial rfl (.cons trivial rfl (.nil _))))⟩
  exact ⟨d, hrun, (backlog_fifo hrun).2.2.2.2.1⟩

end AbkFido.Vhid
