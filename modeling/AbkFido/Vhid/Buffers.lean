/-
What the virtual HID driver does with buffers of any length.

Reports from the host and frames from the agent are handled within their
buffers and keep their bytes (`hostReports_right`, `writes_right`). A poll
copies a whole frame into any buffer, so it stays within one of fewer than
64 bytes only if there is no reply (`polls_right_iff`, `handled_iff`).
-/
import AbkFido.Vhid.Backlog

namespace AbkFido.Vhid

open Layout

/-- A frame, bare or led by a zero report id. -/
def Frame.Shown (frame : Frame) (bytes : List UInt8) : Prop := bytes = frame.toList ∨ bytes = 0 :: frame.toList

/-- The replies a ring keeps. -/
def lastReplies (replies : List Frame) : List Frame := replies.drop (replies.length - replySlots)

/-- An output report is read within its buffer, and a frame in it is the one
that arrives. -/
structure HostReportsRight (d : Device) (buffer : List UInt8) : Prop where
  inBounds : ∃ status d', evtVhfWriteReport (some buffer) d = some (status, d')
  frame : ∀ frame : Frame, frame.Shown buffer → ∃ d', evtVhfWriteReport (some buffer) d = some (.success, d') ∧
    arrivals d'.log = arrivals d.log ++ [frame]

/-- A frame the agent writes is what VHF is given, and what is kept for polls
if VHF takes it. -/
def WritesRight (d : Device) : Prop :=
  ∀ (vhf : List UInt8 → NtStatus) (frame : Frame) (buffer : List UInt8), frame.Shown buffer →
    ∃ sent status d', evtIoWrite vhf buffer d = some (sent, status, d') ∧ (∀ report ∈ sent, frame.Shown report) ∧
      (status.ok = true → (∃ report ∈ sent, vhf report = status) ∧
        d'.context.replies.toList = lastReplies (d.context.replies.toList ++ [frame]))

/-- A poll stays within its buffer, and returns the oldest reply. -/
def PollsRight (d : Device) (buffer : List UInt8) : Prop :=
  ∃ status report d', evtVhfGetInputReport (some buffer) d = some (status, report, d') ∧
    ∀ frame rest, d.context.replies.toList = frame :: rest →
      status = .success ∧ frame.Shown report ∧ d'.context.replies.toList = rest

structure Handled (d : Device) (buffer : List UInt8) : Prop where
  hostReports : HostReportsRight d buffer
  writes : WritesRight d
  polls : PollsRight d buffer

/-! ## Where the data is -/

variable {buffer : List UInt8} {frame : Frame}

theorem length_frame (frame : Frame) : frame.toList.length = reportSize := frame.toList_length

theorem dec_frame (frame : Frame) : (Codec.bytes reportSize).dec frame.toList = frame :=
  (Codec.bytes reportSize).dec_enc_self frame

/-- The data is within the buffer, all of a frame if there is room for one. -/
theorem dataOffset_inBounds (h : buffer ≠ []) : ∃ off, dataOffset buffer = some off ∧ off ≤ buffer.length ∧
    (reportSize ≤ buffer.length → off + reportSize ≤ buffer.length) := by
  obtain ⟨b, rest, rfl⟩ := List.exists_cons_of_ne_nil h
  by_cases hlong : reportSize < (b :: rest).length
  · refine ⟨if b = 0 then 1 else 0, by rw [dataOffset, if_pos hlong]; rfl, ?_, fun _ => ?_⟩
    · split <;> omega
    · split <;> omega
  · exact ⟨0, by rw [dataOffset, if_neg hlong], Nat.zero_le _, fun hle => by omega⟩

/-- A shown frame is found, past its report id. -/
theorem Frame.Shown.found (h : frame.Shown buffer) : ∃ off, dataOffset buffer = some off ∧
    copyIn buffer off reportSize = some frame.toList ∧ min (buffer.length - off) reportSize = reportSize := by
  have hlen := length_frame frame
  rcases h with rfl | rfl
  · refine ⟨0, by rw [dataOffset, hlen, if_neg (lt_irrefl _)], ?_, by rw [hlen, Nat.sub_zero, Nat.min_self]⟩
    rw [copyIn, hlen, Nat.zero_add, if_pos le_rfl, List.drop_zero, List.take_of_length_le hlen.le]
  · have hlen' : (0 :: frame.toList).length = reportSize + 1 := by rw [List.length_cons, hlen]
    refine ⟨1, by rw [dataOffset, hlen', if_pos (Nat.lt_succ_self _)]; rfl, ?_, by rw [hlen', Nat.add_sub_cancel, Nat.min_self]⟩
    rw [copyIn, hlen', Nat.add_comm 1, if_pos le_rfl, List.drop_one, List.tail_cons, List.take_of_length_le hlen.le]

theorem Frame.Shown.ne_nil (h : frame.Shown buffer) : buffer ≠ [] := by
  rcases h with rfl | rfl
  · intro heq
    have hlen := length_frame frame
    rw [heq] at hlen
    cases hlen
  · exact nofun

theorem Frame.Shown.le_length (h : frame.Shown buffer) : reportSize ≤ buffer.length := by
  rcases h with rfl | rfl
  · exact (length_frame frame).ge
  · rw [List.length_cons, length_frame]
    exact Nat.le_succ _

/-! ## Reports from the host -/

theorem hostFrame_inBounds (h : buffer ≠ []) : ∃ frame, hostFrame buffer = some frame := by
  obtain ⟨off, hoff, hle, _⟩ := dataOffset_inBounds h
  have hfits : off + min (buffer.length - off) reportSize ≤ buffer.length := by omega
  rw [hostFrame, hoff, Option.bind_eq_bind, Option.bind_some, copyIn, if_pos hfits]
  exact ⟨_, rfl⟩

theorem hostFrame_shown (h : frame.Shown buffer) : hostFrame buffer = some frame := by
  obtain ⟨off, hoff, hcopy, hmin⟩ := h.found
  rw [hostFrame, hoff, Option.bind_eq_bind, Option.bind_some, hmin, hcopy, Option.bind_eq_bind, Option.bind_some, dec_frame]

theorem arrivals_deliver (frame : Frame) (d : Device) :
    arrivals (deliverHostReport frame d).log = arrivals d.log ++ [frame] := by
  unfold deliverHostReport enqueueHostReport
  split
  · rw [arrivals_handed, arrivals_arrived]
  · rw [arrivals_arrived]
    split
    · rw [arrivals_displaced]
    · rfl

theorem write_eq (d : Device) (h : buffer ≠ []) : ∃ d₀, d₀.log = d.log ∧
    evtVhfWriteReport (some buffer) d = (hostFrame buffer).map fun frame => (.success, deliverHostReport frame d₀) := by
  obtain ⟨b, rest, rfl⟩ := List.exists_cons_of_ne_nil h
  refine ⟨⟨{ d.context with reportIdLeads := reportSize < (b :: rest).length, reportIdSeen := true }, d.log⟩, rfl, ?_⟩
  rw [evtVhfWriteReport, Option.map_eq_bind]
  · rfl
  · exact nofun

theorem hostReports_right (d : Device) (h : buffer ≠ []) : HostReportsRight d buffer := by
  obtain ⟨d₀, hlog, heq⟩ := write_eq d h
  refine ⟨?_, fun frame hframe => ?_⟩
  · obtain ⟨frame, hframe⟩ := hostFrame_inBounds h
    rw [heq, hframe]
    exact ⟨_, _, rfl⟩
  · rw [heq, hostFrame_shown hframe, ← hlog]
    exact ⟨_, rfl, arrivals_deliver frame d₀⟩

/-! ## Frames from the agent -/

theorem toList_keepReply (frame : Frame) (replies : RingBuffer Frame replySlots) :
    (keepReply frame replies).toList = lastReplies (replies.toList ++ [frame]) := by
  have hpush : ∀ r : RingBuffer Frame replySlots, r.toList.length < replySlots →
      ((r.push frame).getD r).toList = r.toList ++ [frame] := by
    intro r hroom
    obtain ⟨r', hr'⟩ := RingBuffer.exists_push hroom frame
    rw [hr', Option.getD_some, RingBuffer.toList_push hr']
  have hlen := replies.length_toList_le
  unfold keepReply lastReplies
  dsimp only
  rw [← RingBuffer.length_toList, List.length_append, List.length_singleton]
  by_cases hfull : replies.toList.length = replySlots
  · -- The oldest goes first.
    have hpos : 0 < replies.toList.length := by
      rw [hfull]
      decide
    obtain ⟨oldest, rest, hlist⟩ := List.exists_cons_of_ne_nil (List.ne_nil_of_length_pos hpos)
    obtain ⟨r, hpop, hrest⟩ := RingBuffer.exists_pop hlist
    have hroom : r.toList.length < replySlots := by
      rw [hrest, ← hfull, hlist]
      exact Nat.lt_succ_self _
    rw [if_pos hfull, hpop, Option.map_some, Option.getD_some, hpush r hroom, hfull, hrest, hlist, Nat.add_sub_cancel_left]
    rfl
  · have hroom : replies.toList.length + 1 - replySlots = 0 := by omega
    rw [if_neg hfull, hpush replies (by omega), hroom, List.drop_zero]

theorem submit_shown (vhf : List UInt8 → NtStatus) (frame : Frame) (c : Context) :
    (∀ report ∈ (submit vhf frame.toList c).1, frame.Shown report) ∧
      ((submit vhf frame.toList c).2.ok = true →
        ∃ report ∈ (submit vhf frame.toList c).1, vhf report = (submit vhf frame.toList c).2) := by
  have hshown : ∀ leads, frame.Shown (submission leads frame.toList) := by
    intro leads
    cases leads
    · exact .inl rfl
    · exact .inr rfl
  unfold submit
  split
  · dsimp only
    split
    · refine ⟨?_, fun _ => ⟨_, by simp, rfl⟩⟩
      simp [hshown]
    · refine ⟨?_, fun _ => ⟨_, by simp, rfl⟩⟩
      simp [hshown]
  · refine ⟨nofun, fun hok => ?_⟩
    cases hok

theorem writes_right (d : Device) : WritesRight d := by
  intro vhf frame buffer h
  obtain ⟨off, hoff, hcopy, _⟩ := h.found
  obtain ⟨hsent, hok⟩ := submit_shown vhf frame d.context
  have hlen : ¬ buffer.length < reportSize := Nat.not_lt.mpr h.le_length
  obtain ⟨d', hd'⟩ : ∃ d', d' = if (submit vhf frame.toList d.context).2.ok then
      { d with context := { d.context with replies := keepReply frame d.context.replies } } else d := ⟨_, rfl⟩
  refine ⟨(submit vhf frame.toList d.context).1, (submit vhf frame.toList d.context).2, d', ?_, hsent,
    fun hstatus => ⟨hok hstatus, ?_⟩⟩
  · rw [evtIoWrite, if_neg hlen, hoff, Option.bind_eq_bind, Option.bind_some, hcopy, Option.bind_eq_bind, Option.bind_some,
      dec_frame, hd']
  · rw [hd', if_pos hstatus]
    exact toList_keepReply ..

/-! ## Polls -/

theorem copyOut_eq (buffer : List UInt8) (off : Nat) (data : List UInt8) (h : off + data.length ≤ buffer.length) :
    copyOut buffer off data = some (splice buffer off data) := if_pos h

/-- What a poll does where there is a reply. -/
theorem poll_reply {d : Device} {replies : RingBuffer Frame replySlots} (hpop : d.context.replies.pop = some (frame, replies))
    (h : buffer ≠ []) :
    (reportSize ≤ buffer.length ∧ ∃ report d', evtVhfGetInputReport (some buffer) d = some (.success, report, d') ∧
      frame.Shown report ∧ d'.context.replies = replies) ∨
    (buffer.length < reportSize ∧ evtVhfGetInputReport (some buffer) d = none) := by
  have hlen := length_frame frame
  obtain ⟨b, rest, rfl⟩ := List.exists_cons_of_ne_nil h
  rw [evtVhfGetInputReport, hpop]
  · by_cases hlong : reportSize < (b :: rest).length
    · have hid : copyOut (b :: rest) 0 [0] = some (0 :: rest) := copyOut_eq _ 0 [0] (Nat.le_add_left 1 _)
      have hframe : copyOut (0 :: rest) 1 frame.toList = some (0 :: frame.toList ++ rest.drop reportSize) := by
        rw [copyOut_eq _ 1 _ (by rw [hlen, Nat.add_comm]; exact hlong), splice, hlen, Nat.add_comm 1, List.drop_succ_cons]
        rfl
      have hreport : (0 :: frame.toList ++ rest.drop reportSize).take (1 + reportSize) = 0 :: frame.toList :=
        List.take_left' (by rw [List.length_cons, hlen, Nat.add_comm])
      simp only [if_pos hlong, Option.bind_eq_bind, hid, Option.bind_some, hframe, hreport]
      exact .inl ⟨hlong.le, _, _, rfl, .inr rfl, rfl⟩
    · simp only [if_neg hlong, Option.bind_eq_bind]
      by_cases hle : reportSize ≤ (b :: rest).length
      · have hfits : 0 + frame.toList.length ≤ (b :: rest).length := by rwa [hlen, Nat.zero_add]
        have hreport : (splice (b :: rest) 0 frame.toList).take reportSize = frame.toList := List.take_left' hlen
        rw [copyOut_eq _ 0 _ hfits, Option.bind_some, hreport]
        exact .inl ⟨hle, _, _, rfl, .inl rfl, rfl⟩
      · have hover : ¬ 0 + frame.toList.length ≤ (b :: rest).length := by rwa [hlen, Nat.zero_add]
        rw [copyOut, if_neg hover]
        exact .inr ⟨Nat.lt_of_not_le hle, rfl⟩
  · intro h
    cases h

theorem polls_right_iff (d : Device) (h : buffer ≠ []) :
    PollsRight d buffer ↔ d.context.replies.toList = [] ∨ reportSize ≤ buffer.length := by
  cases hpop : d.context.replies.pop with
  | none =>
    have hnil := RingBuffer.pop_eq_none.mp hpop
    refine ⟨fun _ => .inl hnil, fun _ => ?_⟩
    obtain ⟨b, rest, rfl⟩ := List.exists_cons_of_ne_nil h
    refine ⟨.noMoreEntries, [], d, by rw [evtVhfGetInputReport, hpop]; exact nofun, fun frame rest heq => ?_⟩
    rw [hnil] at heq
    cases heq
  | some r =>
    obtain ⟨frame, replies⟩ := r
    have hlist := RingBuffer.toList_pop hpop
    rcases poll_reply hpop h with ⟨hle, report, d', heq, hshown, hrest⟩ | ⟨hshort, heq⟩
    · refine ⟨fun _ => .inr hle, fun _ => ⟨.success, report, d', heq, fun frame' rest hcons => ?_⟩⟩
      rw [hlist] at hcons
      cases hcons
      exact ⟨rfl, hshown, congrArg RingBuffer.toList hrest⟩
    · constructor
      · rintro ⟨status, report, d', hsome, _⟩
        rw [heq] at hsome
        cases hsome
      · rintro (hnil | hle)
        · rw [hlist] at hnil
          cases hnil
        · omega

/-- **Buffers are handled within their bounds and without a shift, but for a
poll with a short one.** -/
theorem handled_iff (d : Device) (buffer : List UInt8) (h : 1 ≤ buffer.length) :
    Handled d buffer ↔ d.context.replies.toList = [] ∨ reportSize ≤ buffer.length := by
  have hne : buffer ≠ [] := List.length_pos_iff.mp h
  rw [← polls_right_iff d hne]
  exact ⟨Handled.polls, fun hpolls => ⟨hostReports_right d hne, writes_right d, hpolls⟩⟩

/-- A poll for a reply with a buffer that just holds a frame. -/
theorem handled_whole :
    Handled ⟨{ Context.init with replies := keepReply (zeros reportSize) (.empty (zeros reportSize)) }, []⟩
      (List.replicate 64 0) :=
  (handled_iff _ _ (by decide)).mpr (.inr (by decide))

set_option maxRecDepth 4000 in
/-- After one reply a poll with one byte overruns it. -/
theorem not_handled_short : ∃ d, Runs Device.step (fun _ _ => True) .init
    [.setStarted true, .ioWrite (fun _ => .success) (List.replicate 64 1)] d ∧
      evtVhfGetInputReport (some [0]) d = none ∧ ¬ Handled d [0] := by
  refine ⟨_, .cons trivial rfl (.cons trivial rfl (.nil _)), rfl, fun h => ?_⟩
  obtain ⟨status, report, d', heq, _⟩ := h.polls
  cases heq

end AbkFido.Vhid
