/-
`struct abk_fido_queue`: the reports that wait for a transport's worker or
for its host.

A queue is a circular array that `abk_fido_queue_push` and `abk_fido_queue_pop`
go round, and `Queue.Holds` says which reports it stands for. Whatever is
pushed and popped from its initialisation on, what was accepted is what was
popped and what is still there, in order (`Queue.fifo`). On whole packets it
is the `RingBuffer` of the transports (`Queue.push_packet`, `Queue.pop_packet`).
-/
import AbkFido.Hid
import AbkFido.Lib.Ring

namespace AbkFido

/-- `ABK_FIDO_REPORT_LEN` -/
def maxReport : Nat := 64

namespace Queue

/-- `struct abk_fido_report` -/
structure Report where
  len : Nat
  data : Bytes maxReport

namespace Report

/-- A cleared slot after `memcpy(slot->data, data, len)`. -/
def of (data : Nat → UInt8) (len : Nat) : Report := ⟨len, (Layout.Codec.bytes maxReport).dec ((List.range len).map data)⟩

/-- The bytes a report counts. -/
def bytes (r : Report) : List UInt8 := r.data.toList.take r.len

end Report

end Queue

structure Queue where
  head : UInt32
  tail : UInt32
  count : UInt32
  items : Nat → Queue.Report

namespace Queue

/-- `abk_fido_queue_init`: the array is left as it is. -/
def init (items : Nat → Report) : Queue := ⟨0, 0, 0, items⟩

/-- `abk_fido_queue_push`. `data` is the memory from the pointer on, or NULL. -/
def push (data : Option (Nat → UInt8)) (len : Nat) (q : Queue) : Bool × Queue :=
  match data with
  | none => (false, q)
  | some data =>
    if len = 0 ∨ maxReport < len then (false, q)
    else if q.count = .ofNat queueDepth then (false, q)
    else
      (true,
        { q with
          items := Function.update q.items q.tail.toNat (.of data len)
          tail := Ring.next queueDepth q.tail
          count := q.count + 1 })

/-- `abk_fido_queue_pop` -/
def pop (q : Queue) : Option Report × Queue :=
  if q.count = 0 then (none, q)
  else
    (some (q.items q.head.toNat),
      { q with
        head := Ring.next queueDepth q.head
        count := q.count - 1 })

/-- `abk_fido_queue_empty` -/
def isEmpty (q : Queue) : Bool := q.count == 0

/-- The queue stands for these reports, the oldest first. -/
def Holds (q : Queue) (reports : List Report) : Prop :=
  Ring.Holds queueDepth q.items q.head q.tail q.count reports

/-! ## Runs -/

inductive Op
  | push (data : Option (Nat → UInt8)) (len : Nat)
  | pop

/-- A queue, the bytes of the reports it has accepted, and the reports popped
from it. -/
structure History where
  queue : Queue
  accepted : List (List UInt8)
  popped : List Report

def History.step (h : History) : Op → History
  | .push data len =>
    let (ok, queue) := h.queue.push data len
    let bytes := match data with
      | some data => (List.range len).map data
      | none => []
    { h with queue := queue, accepted := if ok then h.accepted ++ [bytes] else h.accepted }
  | .pop =>
    let (report, queue) := h.queue.pop
    { h with queue := queue, popped := h.popped ++ report.toList }

/-- What some calls do to a queue that was just initialised. -/
def run (items : Nat → Report) (ops : List Op) : History := ops.foldl History.step ⟨init items, [], []⟩

/-! ## One call -/

variable {q : Queue} {reports : List Report}

theorem depth_lt : queueDepth < 2 ^ 32 := by decide

theorem holds_init (items : Nat → Report) : (init items).Holds [] := .nil (by decide) items

/-- A push is taken exactly if its arguments are valid and there is room. -/
theorem push_eq_true (q : Queue) (data : Option (Nat → UInt8)) (len : Nat) :
    (q.push data len).1 = true ↔ data ≠ none ∧ 1 ≤ len ∧ len ≤ maxReport ∧ q.count ≠ .ofNat queueDepth := by
  cases data with
  | none => simp [push]
  | some data =>
    by_cases hlen : len = 0 ∨ maxReport < len
    · simp only [push, if_pos hlen, Bool.false_eq_true, false_iff]
      omega
    · by_cases hfull : q.count = .ofNat queueDepth
      · simp [push, hlen, hfull]
      · simp only [push, if_neg hlen, if_neg hfull, true_iff]
        exact ⟨nofun, by omega, by omega, hfull⟩

theorem Holds.push (h : q.Holds reports) (data : Nat → UInt8) {len : Nat} (hok : (q.push (some data) len).1 = true) :
    (q.push (some data) len).2.Holds (reports ++ [.of data len]) := by
  obtain ⟨_, hpos, hle, hfull⟩ := (push_eq_true q _ len).mp hok
  have hlen : ¬ (len = 0 ∨ maxReport < len) := by omega
  have hroom : reports.length < queueDepth := lt_of_le_of_ne h.length_le fun heq => hfull ((h.count_eq_depth depth_lt).mpr heq)
  rw [Queue.push, if_neg hlen, if_neg hfull]
  exact h.put depth_lt hroom _

/-- A push that is refused changes nothing. -/
theorem push_refused {data : Option (Nat → UInt8)} {len : Nat} (hok : (q.push data len).1 = false) :
    (q.push data len).2 = q := by
  cases data with
  | none => rfl
  | some data =>
    rw [push] at hok ⊢
    split
    · rfl
    · next hlen =>
      rw [if_neg hlen] at hok
      split
      · rfl
      · next hfull =>
        rw [if_neg hfull] at hok
        cases hok

theorem Holds.pop_nil (h : q.Holds []) : q.pop = (none, q) := if_pos (h.count_eq_zero.mpr rfl)

theorem Holds.pop_cons {report : Report} (h : q.Holds (report :: reports)) :
    q.pop.1 = some report ∧ q.pop.2.Holds reports := by
  have hcount : q.count ≠ 0 := fun heq => nomatch h.count_eq_zero.mp heq
  rw [pop, if_neg hcount]
  exact ⟨congrArg some h.first_eq, h.drop depth_lt⟩

theorem Holds.isEmpty (h : q.Holds reports) : q.isEmpty = true ↔ reports = [] := by
  rw [Queue.isEmpty, beq_iff_eq]
  exact h.count_eq_zero

/-- A report keeps the length and the bytes it was pushed with. -/
theorem bytes_of (data : Nat → UInt8) {len : Nat} (h : len ≤ maxReport) :
    (Report.of data len).bytes = (List.range len).map data := by
  have hlen : ((List.range len).map data).length = len := by rw [List.length_map, List.length_range]
  show (((List.range len).map data).take maxReport ++ List.replicate (maxReport - ((List.range len).map data).length) 0).take len =
    (List.range len).map data
  rw [List.take_of_length_le (hlen.trans_le h), List.take_left' hlen]

/-! ## A whole run -/

/-- What was accepted was popped, or is still in the queue. -/
structure Fifo (h : History) (reports : List Report) : Prop where
  holds : h.queue.Holds reports
  accepted : h.accepted = (h.popped ++ reports).map Report.bytes
  len : ∀ r ∈ h.popped ++ reports, r.len = r.bytes.length

theorem Fifo.push {h : History} (hfifo : Fifo h reports) (data : Option (Nat → UInt8)) (len : Nat) :
    ∃ reports, Fifo (h.step (.push data len)) reports := by
  cases hok : (h.queue.push data len).1 with
  | false =>
    have hsame : h.step (.push data len) = h := by
      simp only [History.step, hok, push_refused hok]
      rfl
    rw [hsame]
    exact ⟨reports, hfifo⟩
  | true =>
    obtain ⟨hdata, _, hle, _⟩ := (push_eq_true ..).mp hok
    obtain ⟨data, rfl⟩ := Option.ne_none_iff_exists'.mp hdata
    refine ⟨reports ++ [.of data len], ?_, ?_, ?_⟩
    · exact hfifo.holds.push data hok
    · simp only [History.step, hok, if_true]
      simp only [hfifo.accepted, ← List.append_assoc, List.map_append, List.map_singleton, bytes_of data hle]
    · intro r hr
      rw [← List.append_assoc, List.mem_append, List.mem_singleton] at hr
      rcases hr with hr | rfl
      · exact hfifo.len r hr
      · rw [bytes_of data hle, List.length_map, List.length_range]
        rfl

theorem Fifo.pop {h : History} (hfifo : Fifo h reports) : ∃ reports, Fifo (h.step .pop) reports := by
  cases reports with
  | nil =>
    refine ⟨[], ?_⟩
    have hsame : h.step .pop = h := by
      simp only [History.step, hfifo.holds.pop_nil, Option.toList_none, List.append_nil]
    rwa [hsame]
  | cons report reports =>
    obtain ⟨hpop, hholds⟩ := hfifo.holds.pop_cons
    have hpopped : (h.step .pop).popped ++ reports = h.popped ++ report :: reports := by
      simp only [History.step, hpop, Option.toList_some, List.append_assoc, List.singleton_append]
    refine ⟨reports, hholds, ?_, ?_⟩
    · rw [hpopped]
      exact hfifo.accepted
    · rw [hpopped]
      exact hfifo.len

theorem fifo_run (items : Nat → Report) (ops : List Op) : ∃ reports, Fifo (run items ops) reports := by
  induction ops using List.reverseRecOn with
  | nil => exact ⟨[], holds_init items, rfl, nofun⟩
  | append_singleton ops op ih =>
    obtain ⟨reports, hfifo⟩ := ih
    rw [run, List.foldl_append]
    cases op with
    | push data len => exact hfifo.push data len
    | pop => exact hfifo.pop

/-- **A queue is a bounded FIFO**, whatever its array held when it was
initialised. -/
theorem fifo (items : Nat → Report) (ops : List Op) :
    let h := run items ops
    h.queue.count.toNat ≤ queueDepth ∧
    h.queue.head.toNat < queueDepth ∧
    h.queue.tail.toNat = (h.queue.head.toNat + h.queue.count.toNat) % queueDepth ∧
    (∀ data len, (h.queue.push data len).1 = true ↔
      data ≠ none ∧ 1 ≤ len ∧ len ≤ maxReport ∧ h.queue.count.toNat < queueDepth) ∧
    (h.queue.pop.1 = none ↔ h.queue.count = 0) ∧
    ∃ reports, h.queue.Holds reports ∧ h.accepted = (h.popped ++ reports).map Report.bytes ∧
      ∀ r ∈ h.popped ++ reports, r.len = r.bytes.length := by
  obtain ⟨reports, hholds, haccepted, hlen⟩ := fifo_run items ops
  have hroom : (run items ops).queue.count ≠ .ofNat queueDepth ↔ (run items ops).queue.count.toNat < queueDepth := by
    rw [Ne, hholds.count_eq_depth depth_lt, hholds.count_eq]
    exact ⟨lt_of_le_of_ne hholds.length_le, Nat.ne_of_lt⟩
  refine ⟨hholds.count_le, hholds.first_lt, hholds.free_count, fun data len => ?_, ?_, reports, hholds, haccepted, hlen⟩
  · rw [push_eq_true, hroom]
  · rw [pop]
    split <;> simp [*]

/-! ## The transports' queues -/

/-- A whole packet as a report. -/
def ofPacket (p : Packet) : Report := ⟨maxReport, p⟩

theorem of_packet {p : Packet} {data : Nat → UInt8} (hdata : (List.range maxReport).map data = p.toList) :
    Report.of data maxReport = ofPacket p := by
  rw [Report.of, hdata]
  exact congrArg (Report.mk maxReport) ((Layout.Codec.bytes maxReport).dec_enc_self p)

section
variable {ring : RingBuffer Packet queueDepth} (h : q.Holds (ring.toList.map ofPacket))
include h

/-- A queue that holds the packets of a transport's ring takes one more as
the ring does. -/
theorem push_packet {p : Packet} {data : Nat → UInt8} (hdata : (List.range maxReport).map data = p.toList) :
    (ring.push p = none ∧ (q.push (some data) maxReport).1 = false) ∨
    ∃ ring', ring.push p = some ring' ∧ (q.push (some data) maxReport).1 = true ∧
      (q.push (some data) maxReport).2.Holds (ring'.toList.map ofPacket) := by
  have hfull : q.count = .ofNat queueDepth ↔ ring.toList.length = queueDepth := by
    rw [h.count_eq_depth depth_lt, List.length_map]
  cases hpush : ring.push p with
  | none =>
    refine .inl ⟨rfl, ?_⟩
    rw [← Bool.not_eq_true, push_eq_true]
    exact fun hok => hok.2.2.2 (hfull.mpr (RingBuffer.push_eq_none.mp hpush))
  | some ring' =>
    have hroom : ring.toList.length ≠ queueDepth := fun heq => by
      rw [RingBuffer.push_eq_none.mpr heq] at hpush
      cases hpush
    have hok : (q.push (some data) maxReport).1 = true :=
      (push_eq_true ..).mpr ⟨nofun, by decide, le_rfl, fun heq => hroom (hfull.mp heq)⟩
    refine .inr ⟨ring', rfl, hok, ?_⟩
    rw [RingBuffer.toList_push hpush, List.map_append, List.map_singleton, ← of_packet hdata]
    exact h.push data hok

theorem pop_packet :
    (ring.pop = none ∧ q.pop.1 = none) ∨
    ∃ p ring', ring.pop = some (p, ring') ∧ q.pop.1 = some (ofPacket p) ∧ q.pop.2.Holds (ring'.toList.map ofPacket) := by
  cases hpop : ring.pop with
  | none =>
    rw [RingBuffer.pop_eq_none.mp hpop] at h
    exact .inl ⟨rfl, by rw [h.pop_nil]⟩
  | some r =>
    obtain ⟨p, ring'⟩ := r
    rw [RingBuffer.toList_pop hpop] at h
    obtain ⟨hfirst, hrest⟩ := h.pop_cons
    exact .inr ⟨p, ring', rfl, hfirst, hrest⟩

end

end Queue

end AbkFido
