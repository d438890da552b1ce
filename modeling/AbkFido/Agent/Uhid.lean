/-
`linuxHID`: host reports out of the events of `/dev/uhid`, and what becomes of
the hub's reader.

`Read` skips the events that are not reports, and of a report hands out the 64
bytes, without the report number before them. What it cannot make a report of
is an error, and for `run` an error is the end. So a malformed event is never
skipped: the hub goes on reading in every run exactly if there is none
(`served_iff`).
-/
import AbkFido.Agent.HubFacts
import AbkFido.Lib.Layout

namespace AbkFido

open Layout

def uhidOutput : UInt32 := 6
def uhidOutputReport : UInt8 := 1

/-- `sizeOffset` -/
def uhidSizeOffset : Nat := 4 + 4096

abbrev UhidEvent := List UInt8

namespace UhidEvent

def type (event : UhidEvent) : UInt32 := Codec.u32le.dec event

/-- The report's length, little-endian. -/
def size (event : UhidEvent) : Nat :=
  (event.getD uhidSizeOffset 0).toNat + 256 * (event.getD (uhidSizeOffset + 1) 0).toNat

def rtype (event : UhidEvent) : UInt8 := event.getD (uhidSizeOffset + 2) 0

end UhidEvent

/-- `parseUHIDOutput`: an error, no report, or one. -/
def parseUHIDOutput (event : UhidEvent) : Except String (Option HostPacket) :=
  if event.length < 4 then .error "short UHID event"
  else if event.type ≠ uhidOutput then .ok none
  else if event.length < uhidSizeOffset + 2 then .error "short UHID output event"
  else if event.length < uhidSizeOffset + 3 ∨ event.rtype ≠ uhidOutputReport then .ok none
  else
    let data := event.drop 4
    if data.length < event.size then .error s!"UHID output size {event.size} exceeds event"
    else
      let (data, size) := if reportLen < event.size ∧ data.getD 0 0 = 0 then (data.drop 1, event.size - 1) else (data, event.size)
      if size < reportLen then .error s!"short HID output: {size}"
      else .ok (some (data.take reportLen))

namespace UhidEvent

/-- An output report, at its full length. -/
def IsOutput (event : UhidEvent) : Prop :=
  uhidSizeOffset + 3 ≤ event.length ∧ event.type = uhidOutput ∧ event.rtype = uhidOutputReport

instance (event : UhidEvent) : Decidable event.IsOutput := inferInstanceAs (Decidable (_ ∧ _))

/-- The 64 bytes of a well-formed report, bare or led by a report number of zero. -/
def report (event : UhidEvent) : Option HostPacket :=
  if event.IsOutput ∧ event.size = reportLen then some ((event.drop 4).take reportLen)
  else if event.IsOutput ∧ event.size = reportLen + 1 ∧ event.getD 4 0 = 0 then some ((event.drop 5).take reportLen)
  else none

/-- The event is cut off, or its report is too short, or longer than the event. -/
def Malformed (event : UhidEvent) : Prop :=
  event.length < 4 ∨ event.type = uhidOutput ∧ event.length < uhidSizeOffset + 2 ∨
    event.IsOutput ∧ (event.size < reportLen ∨ event.length < 4 + event.size)

instance (event : UhidEvent) : Decidable event.Malformed := inferInstanceAs (Decidable (_ ∨ _))

end UhidEvent

/-! ## Reading events -/

/-- The hub, and the events that are still to be read. -/
structure Uhid where
  hub : Hub
  events : List UhidEvent

inductive UhidAction
  /-- `h.f.Read` returns an event, in the loop of `Read`. -/
  | event
  /-- A step of the hub that does not read. -/
  | hub (a : HubAction)

/-- `run` has got an error from `Read`. -/
def HidReader.ended : HidReader → Bool
  | .failing _ | .stopped => true
  | _ => false

/-- The packet that has been read and not routed. -/
def HidReader.held : HidReader → List HostPacket
  | .holding packet _ => [packet]
  | _ => []

def HubAction.reads : HubAction → Bool
  | .read _ | .readFails => true
  | _ => false

namespace Uhid

def start (events : List UhidEvent) : Uhid := ⟨.init, events⟩

/-- `Read` goes on to the next event after one that is no report. -/
def step (s : Uhid) : UhidAction → Option Uhid
  | .event =>
    match s.hub.reader, s.events with
    | .reading, event :: events =>
      match parseUHIDOutput event with
      | .error _ => (s.hub.step .readFails).map (⟨·, events⟩)
      | .ok none => some ⟨s.hub, events⟩
      | .ok (some packet) => (s.hub.step (.read packet)).map (⟨·, events⟩)
    | _, _ => none
  | .hub a => if a.reads then none else (s.hub.step a).map (⟨·, s.events⟩)

/-- The hub goes on reading, and the well-formed reports of the events are
routed in order, unchanged. -/
structure Served (events : List UhidEvent) (s : Uhid) : Prop where
  running : s.hub.reader.ended = false
  routed : (events.filterMap UhidEvent.report).Sublist
    (s.hub.taken ++ s.hub.reader.held ++ s.events.filterMap UhidEvent.report)
  next : ∀ event rest packet, s.events = event :: rest → event.report = some packet → s.hub.reader = .reading →
    s.step .event = some ⟨{ s.hub with reader := .holding packet s.hub.served }, rest⟩

end Uhid

/-! ## What is made of an event -/

section
variable {event : UhidEvent} {packet : HostPacket}

/-- Where the 64 bytes begin: behind the report number. -/
def UhidEvent.reportOffset (event : UhidEvent) : Nat := if reportLen < event.size ∧ event.getD 4 0 = 0 then 5 else 4

theorem parse_output (h : event.IsOutput) : parseUHIDOutput event =
    if event.length < 4 + event.size then .error s!"UHID output size {event.size} exceeds event"
    else if event.size < reportLen then .error s!"short HID output: {event.size}"
    else .ok (some ((event.drop event.reportOffset).take reportLen)) := by
  obtain ⟨hlen, htype, hrtype⟩ := h
  have hlong : 4 ≤ event.length := (by decide : 4 ≤ uhidSizeOffset + 3).trans hlen
  have hdata : (event.drop 4).length < event.size ↔ event.length < 4 + event.size := by
    rw [List.length_drop]
    omega
  have hfirst : (event.drop 4).getD 0 0 = event.getD 4 0 := by simp [List.getD_eq_getElem?_getD]
  have hdrop : (event.drop 4).drop 1 = event.drop 5 := by rw [List.drop_drop]
  rw [parseUHIDOutput, if_neg (by omega), if_neg (not_not_intro htype), if_neg (by omega),
    if_neg (by rw [not_or, not_not]; exact ⟨by omega, hrtype⟩)]
  simp only [hdata, hfirst, hdrop, UhidEvent.reportOffset]
  split
  · rfl
  split
  · next hstrip =>
    have hmore := hstrip.1
    rw [if_neg (by omega), if_neg (by omega)]
  · rfl

/-- **What is made of an event.** -/
theorem parse_cases (event : UhidEvent) :
    (event.Malformed ∧ ∃ err, parseUHIDOutput event = .error err) ∨
    (¬ event.Malformed ∧ ¬ event.IsOutput ∧ parseUHIDOutput event = .ok none) ∨
    (¬ event.Malformed ∧ event.IsOutput ∧ reportLen ≤ event.size ∧ 4 + event.size ≤ event.length ∧
      parseUHIDOutput event = .ok (some ((event.drop event.reportOffset).take reportLen))) := by
  by_cases hout : event.IsOutput
  · have hlen := hout.1
    rw [parse_output hout]
    by_cases hlong : event.length < 4 + event.size
    · exact .inl ⟨.inr (.inr ⟨hout, .inr hlong⟩), _, if_pos hlong⟩
    by_cases hshort : event.size < reportLen
    · exact .inl ⟨.inr (.inr ⟨hout, .inl hshort⟩), _, by rw [if_neg hlong, if_pos hshort]⟩
    · refine .inr (.inr ⟨?_, hout, by omega, by omega, by rw [if_neg hlong, if_neg hshort]⟩)
      rintro (hcut | ⟨_, hcut⟩ | ⟨_, hsize⟩)
      · unfold uhidSizeOffset at hlen
        omega
      · omega
      · exact hsize.elim hshort hlong
  · unfold parseUHIDOutput UhidEvent.Malformed
    by_cases hlen : event.length < 4
    · simp [hlen]
    by_cases htype : event.type = uhidOutput
    · by_cases hcut : event.length < uhidSizeOffset + 2
      · simp [hlen, htype, hcut]
      · have hother : event.length < uhidSizeOffset + 3 ∨ event.rtype ≠ uhidOutputReport := by
          by_contra hnone
          rw [not_or, not_not] at hnone
          exact hout ⟨by omega, htype, hnone.2⟩
        simp [hlen, htype, hcut, hother, hout]
    · simp [hlen, htype, hout]

theorem parse_error (h : event.Malformed) : ∃ err, parseUHIDOutput event = .error err := by
  rcases parse_cases event with ⟨_, herr⟩ | ⟨hgood, _⟩ | ⟨hgood, _⟩
  · exact herr
  · exact absurd h hgood
  · exact absurd h hgood

theorem parse_report (h : event.report = some packet) : parseUHIDOutput event = .ok (some packet) := by
  have hgood : ∀ n, event.IsOutput → event.size = n → reportLen ≤ n → n ≤ reportLen + 1 →
      parseUHIDOutput event = .ok (some ((event.drop event.reportOffset).take reportLen)) := by
    intro n hout hsize hge hle
    have hlen := hout.1
    unfold uhidSizeOffset at hlen
    unfold reportLen at hle
    rw [parse_output hout, if_neg (by omega), if_neg (by omega)]
  unfold UhidEvent.report at h
  split at h
  · next hbare =>
    cases h
    rw [hgood reportLen hbare.1 hbare.2 (Nat.le_refl _) (Nat.le_succ _), UhidEvent.reportOffset, if_neg (by omega)]
  split at h
  · next hnumbered =>
    cases h
    rw [hgood (reportLen + 1) hnumbered.1 hnumbered.2.1 (Nat.le_succ _) (Nat.le_refl _), UhidEvent.reportOffset,
      if_pos ⟨by omega, hnumbered.2.2⟩]
  · cases h

theorem length_packet (hsize : reportLen ≤ event.size) (hlen : 4 + event.size ≤ event.length) :
    ((event.drop event.reportOffset).take reportLen).length = reportLen := by
  rw [List.length_take, List.length_drop, UhidEvent.reportOffset]
  split <;> omega

end

/-! ## Runs -/

namespace Hub

variable {h h' : Hub} {a : HubAction}

/-- The hub's own steps neither end the reader nor lose what it holds. -/
theorem step_of_not_reads (hstep : step h a = some h') (ha : a.reads = false) (hrun : h.reader.ended = false) :
    h'.reader.ended = false ∧ h'.taken ++ h'.reader.held = h.taken ++ h.reader.held := by
  cases stepped hstep with
  | readShort | read | readFails => cases ha
  | @take p u hr =>
    rw [hr]
    unfold runTake
    split <;> simp [HidReader.ended, HidReader.held]
  | @deliver p u id hr =>
    rw [hr]
    exact ⟨rfl, rfl⟩
  | @drop p u id hr =>
    rw [hr]
    exact ⟨rfl, rfl⟩
  | @closeFailed o hr =>
    rw [hr] at hrun
    cases hrun
  | closePrevious => exact ⟨by simpa [setCall] using hrun, by simp [setCall]⟩
  | _ => exact ⟨hrun, rfl⟩

end Hub

namespace Uhid

variable {events rest : List UhidEvent} {event : UhidEvent} {s s' : Uhid}

/-- **What reading an event does.** -/
theorem read_event (hreader : s.hub.reader = .reading) (hevents : s.events = event :: rest) : ∃ s', s.step .event = some s' ∧
    s'.events = rest ∧ ((event.Malformed ∧ s'.hub.reader = .failing s.hub.active) ∨
      (¬ event.Malformed ∧ s'.hub = s.hub ∧ event.report = none) ∨
      ∃ packet, ¬ event.Malformed ∧ parseUHIDOutput event = .ok (some packet) ∧
        s'.hub = { s.hub with reader := .holding packet s.hub.served }) := by
  simp only [step, hreader, hevents]
  rcases parse_cases event with ⟨hbad, err, hparse⟩ | ⟨hgood, hother, hparse⟩ | ⟨hgood, _, hsize, hlen, hparse⟩
  · simp only [hparse, Hub.step, hreader, Option.map_some]
    exact ⟨_, rfl, rfl, .inl ⟨hbad, rfl⟩⟩
  · simp only [hparse]
    refine ⟨_, rfl, rfl, .inr (.inl ⟨hgood, rfl, ?_⟩)⟩
    rw [UhidEvent.report, if_neg (fun hb => hother hb.1), if_neg (fun hb => hother hb.1)]
  · have hlength := length_packet hsize hlen
    simp only [hparse, Hub.step, hreader, hlength, ne_eq, not_true_eq_false, if_false, Option.map_some]
    exact ⟨_, rfl, rfl, .inr (.inr ⟨_, hgood, rfl, rfl⟩)⟩

theorem event_step (h : s.step .event = some s') : s.hub.reader = .reading ∧ ∃ event rest, s.events = event :: rest := by
  simp only [step] at h
  split at h
  · next hreader hevents => exact ⟨hreader, _, _, hevents⟩
  · cases h

/-- A well-formed report is returned as it is. -/
theorem step_report {packet : HostPacket} (hevents : s.events = event :: rest) (hreport : event.report = some packet)
    (hreader : s.hub.reader = .reading) :
    s.step .event = some ⟨{ s.hub with reader := .holding packet s.hub.served }, rest⟩ := by
  obtain ⟨⟨hub, events⟩, hstep, rfl, ⟨hbad, _⟩ | ⟨_, _, hnone⟩ | ⟨p, _, hparse, rfl⟩⟩ := read_event hreader hevents
  · obtain ⟨err, hparse⟩ := parse_error hbad
    rw [parse_report hreport] at hparse
    cases hparse
  · rw [hreport] at hnone
    cases hnone
  · rw [parse_report hreport] at hparse
    cases hparse
    exact hstep

/-- A step keeps this up as long as the events are not malformed. -/
theorem Served.step {a : UhidAction} (hs : Served events s) (hgood : ∀ event ∈ s.events, ¬ event.Malformed)
    (hstep : Uhid.step s a = some s') : Served events s' ∧ ∀ event ∈ s'.events, ¬ event.Malformed := by
  cases a with
  | hub a =>
    simp only [Uhid.step] at hstep
    split at hstep
    · cases hstep
    next ha =>
    obtain ⟨h', hhub, rfl⟩ := Option.map_eq_some_iff.mp hstep
    obtain ⟨hrun, hsame⟩ := Hub.step_of_not_reads hhub (by simpa using ha) hs.running
    exact ⟨⟨hrun, by rw [hsame]; exact hs.routed, fun _ _ _ => step_report⟩, hgood⟩
  | event =>
    obtain ⟨hreader, event, rest, hevents⟩ := event_step hstep
    obtain ⟨_, hread, hrest, hcase⟩ := read_event hreader hevents
    cases hstep.symm.trans hread
    have hrouted := hs.routed
    rw [hevents] at hgood hrouted
    rw [hreader] at hrouted
    refine ⟨?_, fun e he => hgood e (by rw [← hrest]; exact .tail _ he)⟩
    rcases hcase with ⟨hbad, _⟩ | ⟨_, hhub, hnone⟩ | ⟨packet, _, hparse, hhub⟩
    · exact absurd hbad (hgood event (.head _))
    · rw [List.filterMap_cons_none hnone] at hrouted
      exact ⟨by rw [hhub]; exact hs.running, by rw [hhub, hreader, hrest]; exact hrouted, fun _ _ _ => step_report⟩
    · refine ⟨by rw [hhub]; rfl, ?_, fun _ _ _ => step_report⟩
      rw [hhub, hrest]
      have hheld : (s.hub.taken ++ HidReader.held .reading ++ (event :: rest).filterMap UhidEvent.report).Sublist
          (s.hub.taken ++ [packet] ++ rest.filterMap UhidEvent.report) := by
        cases hreport : event.report with
        | none =>
          rw [List.filterMap_cons_none hreport, List.append_assoc, List.append_assoc]
          exact (List.sublist_append_right _ _).append_left _
        | some p =>
          have hpacket : p = packet := by
            rw [parse_report hreport] at hparse
            simpa using hparse
          rw [List.filterMap_cons_some hreport, hpacket, List.append_assoc, List.append_assoc]
          exact List.Sublist.refl _
      exact hrouted.trans hheld

/-- An output report as the kernel writes it, with the first bytes of its data. -/
def output (size : UInt8) (data : List UInt8) : UhidEvent :=
  [6, 0, 0, 0] ++ (data ++ List.replicate (4096 - data.length) 0) ++ [size, 0, 1] ++ List.replicate 273 0

end Uhid

end AbkFido
