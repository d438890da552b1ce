/-
What a step of the link can do, action by action, and how it holds the two
models below it together: a run of the link is a run of the device
(`device_run`) and one of the reassembly (`hid_run`), and a worker is in
`abk_fido_cbor_dispatch` exactly while the device has work for it (`Tied`).
-/
import AbkFido.Link

namespace AbkFido

variable {P : Platform}

/-! ## A worker's own steps -/

/-- How far a command is from its answer. -/
def Worker.rank : Worker → Nat
  | .idle => 0
  | .awake .. => 1
  | .waiting .. => 2
  | .ready _ => 3
  | .hung => 4

@[simp] theorem Worker.rank_hear (r : UInt32) (allow : Bool) (w : Worker) : (w.hear r allow).rank = w.rank := by
  cases w <;> rfl

@[simp] theorem Worker.rank_eq_zero {w : Worker} : w.rank = 0 ↔ w = .idle := by cases w <;> simp [Worker.rank]

theorem Worker.rank_le (w : Worker) : w.rank ≤ 4 := by cases w <;> simp [Worker.rank]

namespace Device

variable {d d' : Device} {a : Action} {t : Transport}

theorem reply_worker {r : Reply} (h : d.reply P a = some r) : a.worker = some r.transport := by
  cases a with
  | tick | wake | expire | decide | blobRead | blobWrite | restore | persist | pinReset => cases h
  | receive t msg allocOk =>
    simp only [reply] at h
    split at h <;> cases h
    rfl
  | enter t io =>
    simp only [reply] at h
    split at h
    · split at h
      · cases h
        rfl
      · split at h <;> cases h <;> rfl
    · cases h
  | resume t io =>
    simp only [reply] at h
    split at h
    · split at h <;> cases h <;> rfl
    · cases h

theorem worker_conclude (t : Transport) (io : Io) (rest : Rest) (d : Device) : (d.conclude P t io rest).worker t = .idle := by
  rw [conclude_eq]
  exact Function.update_self ..

/-- A message is answered when it does not parse, and keeps its worker busy when it does. -/
theorem receive_own {msg : List UInt8} {allocOk : Bool} (hstep : d.step P (.receive t msg allocOk) = some d') :
    d.worker t = .idle ∧
      ((∃ r, d.reply P (.receive t msg allocOk) = some r ∧ d'.worker t = .idle) ∨
        (d.reply P (.receive t msg allocOk) = none ∧ d'.worker t ≠ .idle)) := by
  simp only [step] at hstep
  split at hstep
  · next hidle =>
    refine ⟨hidle, ?_⟩
    simp only [reply, hidle]
    split at hstep <;> cases hstep <;> simp_all
  · cases hstep

/-- A worker that is busy comes closer to the answer with every step it takes, and is idle when it has answered. -/
theorem busy_own (ha : a.worker = some t) (hbusy : d.worker t ≠ .idle) (hstep : d.step P a = some d') :
    (d'.worker t).rank < (d.worker t).rank ∧ ((d.reply P a).isSome ↔ d'.worker t = .idle) := by
  cases a with
  | tick | decide | blobRead | blobWrite | restore | persist | pinReset => cases ha
  | receive t' msg allocOk =>
    cases ha
    exact absurd (receive_own hstep).1 hbusy
  | enter t' io =>
    cases ha
    simp only [step] at hstep
    split at hstep <;> cases hstep
    next cmd hw =>
      rcases enter_reply (P := P) hw io with ⟨_, _, _, hreply, heq⟩ | ⟨_, _, _, _, hcases⟩
      · simp [hreply, heq, hw, Worker.rank]
      rcases hcases with ⟨_, hreply, heq⟩ | ⟨_, hreply, heq⟩ | ⟨_, hreply, heq⟩
      · simp [hreply, heq, hw, Worker.rank]
      · simp [hreply, heq, hw, Worker.rank, worker_conclude]
      · simp [hreply, heq, hw, Worker.rank]
  | wake t' | expire t' =>
    cases ha
    simp only [step] at hstep
    split at hstep
    · next hw =>
      split at hstep <;> cases hstep
      simp [reply, hw, Worker.rank]
    · cases hstep
  | resume t' io =>
    cases ha
    simp only [step] at hstep
    split at hstep <;> cases hstep
    next hw =>
      obtain ⟨_, ⟨_, hreply, heq⟩ | ⟨_, hreply, heq⟩⟩ := resume_reply (P := P) hw io
      · simp [hreply, heq, hw, Worker.rank, worker_conclude]
      · simp [hreply, heq, hw, Worker.rank]

theorem rank_other (ha : a.worker ≠ some t) (hstep : d.step P a = some d') :
    (d'.worker t).rank = (d.worker t).rank := by
  rcases worker_step hstep ha with heq | ⟨r, allow, heq⟩
  · rw [heq]
  · rw [heq, Worker.rank_hear]

end Device

namespace Link

variable {s s' : Link} {t t' : Transport}

@[simp] theorem setStage_self (t : Transport) (g : Stage) (s : Link) : (s.setStage t g).stage t = g :=
  Function.update_self ..

theorem setStage_of_ne (h : t' ≠ t) (g : Stage) (s : Link) : (s.setStage t g).stage t' = s.stage t' :=
  Function.update_of_ne h ..

@[simp] theorem note_self (t : Transport) (e : LinkEvent) (s : Link) : (s.note t e).log t = e :: s.log t :=
  Function.update_self ..

theorem note_of_ne (h : t' ≠ t) (e : LinkEvent) (s : Link) : (s.note t e).log t' = s.log t' :=
  Function.update_of_ne h ..

/-! ## What a step does -/

theorem take_cases {allocOk : Bool} (h : s.step P (.take t allocOk) = some s') :
    s.stage t = .idle ∧ ∃ p rx hid,
      ((s.hid.processPacketLocked allocOk p = (.nothing, hid) ∧
          s' = { s with rx := rx, hid := hid }.note t (.packet p)) ∨
      (∃ err, s.hid.processPacketLocked allocOk p = (.refused err, hid) ∧
          s' = ({ s with rx := rx, hid := hid }.note t (.packet p)).note t (.sent (sendHidError p.cid err))) ∨
      ∃ m, s.hid.processPacketLocked allocOk p = (.complete m.cmd m.data, hid) ∧ m.cid = p.cid ∧
          s' = (({ s with rx := rx, hid := hid, cancelled := Function.update s.cancelled t false }.note t
            (.packet p)).setStage t (.complete m)).note t (.dispatched m)) := by
  simp only [step] at h
  split at h
  · next p rx hidle hpop =>
    refine ⟨hidle, p, Function.update s.rx t rx, (s.hid.processPacketLocked allocOk p).2, ?_⟩
    generalize hr : s.hid.processPacketLocked allocOk p = r at h ⊢
    obtain ⟨r, hid⟩ := r
    cases r with
    | nothing =>
      cases h
      exact .inl ⟨rfl, rfl⟩
    | refused err =>
      cases h
      exact .inr (.inl ⟨err, rfl, rfl⟩)
    | complete cmd data =>
      cases h
      exact .inr (.inr ⟨⟨p.cid, cmd, data⟩, rfl, rfl, rfl⟩)
  · cases h

theorem dispatch_cases (h : s.step P (.dispatch t) = some s') :
    ∃ m, s.stage t = .complete m ∧
      ((m.cmd = hidCbor ∧ s' = { s with authUsb := some t, authCid := m.cid }.setStage t (.calling m)) ∨
      (m.cmd ≠ hidCbor ∧ ∃ handed hid, s.hid.dispatchLocked m = (handed, hid) ∧
        ((m.answer [] handed = none ∧ s' = { s with hid := hid }.setStage t .idle) ∨
        ∃ cmd data, m.answer [] handed = some (cmd, data) ∧
          s' = ({ s with hid := hid }.setStage t .idle).note t (.sent ⟨m.cid, cmd, data⟩)))) := by
  simp only [step] at h
  split at h
  · next m hm =>
    refine ⟨m, hm, ?_⟩
    split at h
    · next hcbor =>
      cases h
      exact .inl ⟨hcbor, rfl⟩
    · next hcbor =>
      refine .inr ⟨hcbor, _, _, rfl, ?_⟩
      split at h
      · next cmd data hanswer =>
        cases h
        exact .inr ⟨cmd, data, hanswer, rfl⟩
      · next hanswer =>
        cases h
        exact .inl ⟨hanswer, rfl⟩
  · cases h

theorem device_cases {a : Action} (h : s.step P (.device a) = some s') :
    ∃ d, s.device.step P a = some d ∧
      ((a.worker = none ∧ s' = { s with device := d }) ∨
      ∃ t m, a.worker = some t ∧ s.serves t a = some m ∧ s' = s.follow P t m a d) := by
  simp only [step] at h
  split at h
  · cases h
  · next d hd ha =>
    cases h
    exact ⟨d, hd, .inl ⟨ha, rfl⟩⟩
  · next d t hd ha =>
    obtain ⟨m, hm, rfl⟩ := Option.map_eq_some_iff.mp h
    exact ⟨d, hd, .inr ⟨t, m, ha, hm, rfl⟩⟩

/-- A worker enters `abk_fido_cbor_dispatch` with its message, and goes on in it. -/
theorem serves_cases {a : Action} {m : Msg} (h : s.serves t a = some m) :
    (s.stage t = .calling m ∧ ∃ allocOk u, a = .receive u m.data allocOk) ∨
      (s.stage t = .inside m ∧ ∀ u msg allocOk, a ≠ .receive u msg allocOk) := by
  simp only [serves] at h
  split at h
  · next u msg allocOk hcall =>
    split at h <;> cases h
    next hmsg =>
      cases hmsg
      exact .inl ⟨hcall, allocOk, u, rfl⟩
  · cases h
  · next hin hne =>
    cases h
    exact .inr ⟨hin, fun u msg allocOk ha => hne u msg allocOk ha⟩
  · cases h

theorem clear_cases (h : s.step P (.clear t) = some s') :
    ∃ m ret, s.stage t = .returned m ret ∧ s' = { s with authUsb := none }.setStage t (.cleared m ret) := by
  simp only [step] at h
  split at h <;> cases h
  exact ⟨_, _, ‹_›, rfl⟩

theorem disarm_cases (h : s.step P (.disarm t) = some s') :
    ∃ m ret, s.stage t = .cleared m ret ∧ s' = { s with armed := false }.setStage t (.cancelling m ret) := by
  simp only [step] at h
  split at h <;> cases h
  exact ⟨_, _, ‹_›, rfl⟩

theorem disarmed_cases (h : s.step P (.disarmed t) = some s') :
    ∃ m ret, s.stage t = .cancelling m ret ∧ s.pacer = .idle ∧ s' = s.setStage t (.answering m ret) := by
  simp only [step] at h
  split at h <;> cases h
  exact ⟨_, _, ‹_›, ‹_›, rfl⟩

theorem respond_cases {allocOk : Bool} (h : s.step P (.respond t allocOk) = some s') :
    ∃ m ret, s.stage t = .answering m ret ∧
      s' = (s.setStage t .idle).note t (.sent (sendCborResult allocOk m.cid ret)) := by
  simp only [step] at h
  split at h <;> cases h
  exact ⟨_, _, ‹_›, rfl⟩

theorem fire_cases (h : s.step P .fire = some s') :
    s.pacer = .idle ∧ s.armed = true ∧ s' = { s with armed := false, pacer := .started } := by
  simp only [step] at h
  split at h
  · split at h <;> cases h
    exact ⟨‹_›, ‹_›, rfl⟩
  · cases h

theorem look_cases (h : s.step P .look = some s') :
    s.pacer = .started ∧
      ((∃ t, s.device.auth.pending = true ∧ s.device.auth.decided = false ∧ s.authUsb = some t ∧
          s' = { s with pacer := .looked t s.authCid }) ∨
        (¬ (s.device.auth.pending = true ∧ s.device.auth.decided = false ∧ s.authUsb.isSome) ∧
          s' = { s with pacer := .idle })) := by
  simp only [step] at h
  split at h
  · next hstarted =>
    refine ⟨hstarted, ?_⟩
    split at h <;> cases h
    · next t hpending husb =>
      rw [Bool.and_eq_true, Bool.not_eq_true'] at hpending
      exact .inl ⟨t, hpending.1, hpending.2, husb, rfl⟩
    · next hne =>
      refine .inr ⟨fun ⟨hp, hd, husb⟩ => ?_, rfl⟩
      obtain ⟨t, ht⟩ := Option.isSome_iff_exists.mp husb
      exact hne t (by rw [hp, hd]; rfl) ht
  · cases h

theorem pace_cases (h : s.step P .pace = some s') :
    ∃ t cid, s.pacer = .looked t cid ∧
      s' = { s with pacer := .sent }.note t (.sent ⟨cid, hidKeepalive, [keepaliveStatusProcessing]⟩) := by
  simp only [step] at h
  split at h <;> cases h
  exact ⟨_, _, ‹_›, rfl⟩

theorem rearm_cases (h : s.step P .rearm = some s') : s.pacer = .sent ∧ s' = { s.arm with pacer := .idle } := by
  simp only [step] at h
  split at h <;> cases h
  exact ⟨‹_›, rfl⟩

/-! ## Whose step it is -/

end Link

/-- What the reassembly has of a worker. -/
def Stage.message : Stage → Option Msg
  | .complete m => some m
  | _ => none

/-- The worker that takes the step. -/
def LinkAction.worker : LinkAction → Option Transport
  | .take t _ | .dispatch t | .clear t | .disarm t | .disarmed t | .respond t _ => some t
  | .device a => a.worker
  | .arrive .. | .fire | .look | .pace | .rearm => none

namespace Link

variable {s s' : Link} {t t' : Transport} {a : LinkAction}

@[simp] theorem setStage_device (t : Transport) (g : Stage) (s : Link) : (s.setStage t g).device = s.device := rfl
@[simp] theorem setStage_log (t : Transport) (g : Stage) (s : Link) : (s.setStage t g).log = s.log := rfl
@[simp] theorem note_device (t : Transport) (e : LinkEvent) (s : Link) : (s.note t e).device = s.device := rfl
@[simp] theorem note_stage (t : Transport) (e : LinkEvent) (s : Link) : (s.note t e).stage = s.stage := rfl

@[simp] theorem follow_device (t : Transport) (m : Msg) (a : Action) (s : Link) (d : Device) :
    (s.follow P t m a d).device = d := by
  unfold follow
  split <;> rfl

/-- The call of a worker that is answered returns; another goes on. -/
theorem follow_stage (t : Transport) (m : Msg) (a : Action) (s : Link) (d : Device) :
    (s.follow P t m a d).stage = Function.update s.stage t
      (match s.device.reply P a with
        | some r => .returned m r.result
        | none => .inside m) := by
  unfold follow
  split <;> simp only [*] <;> rfl

theorem follow_log (t : Transport) (m : Msg) (a : Action) (s : Link) (d : Device) :
    (s.follow P t m a d).log = match s.device.reply P a with
      | some r => Function.update s.log t (.returned r.result :: s.log t)
      | none => s.log := by
  unfold follow
  split <;> simp only [*] <;> rfl

/-- A step moves no other worker on. -/
theorem stage_other (ha : a.worker ≠ some t) (h : s.step P a = some s') : s'.stage t = s.stage t := by
  have hne : ∀ {u}, a.worker = some u → t ≠ u := fun hu htu => ha (by rw [hu, htu])
  cases a with
  | arrive => cases h; rfl
  | take u allocOk =>
    obtain ⟨_, p, rx, hid, ⟨_, rfl⟩ | ⟨err, _, rfl⟩ | ⟨m, _, _, rfl⟩⟩ := take_cases h
    · rfl
    · rfl
    · exact setStage_of_ne (hne rfl) ..
  | dispatch u =>
    obtain ⟨m, _, ⟨_, rfl⟩ | ⟨_, handed, hid, _, ⟨_, rfl⟩ | ⟨cmd, data, _, rfl⟩⟩⟩ := dispatch_cases h <;>
      exact setStage_of_ne (hne rfl) ..
  | device b =>
    obtain ⟨d, _, ⟨_, rfl⟩ | ⟨u, m, hu, _, rfl⟩⟩ := device_cases h
    · rfl
    · rw [follow_stage]
      exact Function.update_of_ne (hne hu) ..
  | clear u => obtain ⟨m, ret, _, rfl⟩ := clear_cases h; exact setStage_of_ne (hne rfl) ..
  | disarm u => obtain ⟨m, ret, _, rfl⟩ := disarm_cases h; exact setStage_of_ne (hne rfl) ..
  | disarmed u => obtain ⟨m, ret, _, _, rfl⟩ := disarmed_cases h; exact setStage_of_ne (hne rfl) ..
  | respond u allocOk => obtain ⟨m, ret, _, rfl⟩ := respond_cases h; exact setStage_of_ne (hne rfl) ..
  | fire => obtain ⟨_, _, rfl⟩ := fire_cases h; rfl
  | look => obtain ⟨_, ⟨_, _, _, _, rfl⟩ | ⟨_, rfl⟩⟩ := look_cases h <;> rfl
  | pace => obtain ⟨_, _, _, rfl⟩ := pace_cases h; rfl
  | rearm => obtain ⟨_, rfl⟩ := rearm_cases h; rfl

theorem stage_of_ne {u : Transport} (ha : a.worker = some t) (hu : u ≠ t) (h : s.step P a = some s') :
    s'.stage u = s.stage u :=
  stage_other (fun hw => hu (Option.some.inj (hw.symm.trans ha))) h

/-- Only a step of the device changes it. -/
theorem device_other (ha : ∀ b, a ≠ .device b) (h : s.step P a = some s') : s'.device = s.device := by
  cases a with
  | arrive => cases h; rfl
  | take u allocOk =>
    obtain ⟨_, p, rx, hid, ⟨_, rfl⟩ | ⟨err, _, rfl⟩ | ⟨m, _, _, rfl⟩⟩ := take_cases h <;> rfl
  | dispatch u =>
    obtain ⟨m, _, ⟨_, rfl⟩ | ⟨_, handed, hid, _, ⟨_, rfl⟩ | ⟨cmd, data, _, rfl⟩⟩⟩ := dispatch_cases h <;> rfl
  | device b => exact absurd rfl (ha b)
  | clear u => obtain ⟨m, ret, _, rfl⟩ := clear_cases h; rfl
  | disarm u => obtain ⟨m, ret, _, rfl⟩ := disarm_cases h; rfl
  | disarmed u => obtain ⟨m, ret, _, _, rfl⟩ := disarmed_cases h; rfl
  | respond u allocOk => obtain ⟨m, ret, _, rfl⟩ := respond_cases h; rfl
  | fire => obtain ⟨_, _, rfl⟩ := fire_cases h; rfl
  | look => obtain ⟨_, ⟨_, _, _, _, rfl⟩ | ⟨_, rfl⟩⟩ := look_cases h <;> rfl
  | pace => obtain ⟨_, _, _, rfl⟩ := pace_cases h; rfl
  | rearm => obtain ⟨_, rfl⟩ := rearm_cases h; rfl

theorem device_step {b : Action} (h : s.step P (.device b) = some s') : s.device.step P b = some s'.device := by
  obtain ⟨d, hd, ⟨_, rfl⟩ | ⟨u, m, _, _, rfl⟩⟩ := device_cases h
  · exact hd
  · rw [follow_device]
    exact hd

/-! ## The models below -/

/-- A run of the link is one of the device. -/
theorem device_run {ok : Link → LinkAction → Prop} {file : File} {clock : Nat} {as : List LinkAction}
    (h : Runs (step P) ok (boot file clock) as s) :
    ∃ bs, Runs (Device.step P) (fun _ _ => True) (.boot file clock) bs s.device := by
  have hsim : ∀ (s : Link) a s' d, s.device = d → ok s a → s.step P a = some s' →
      ∃ bs d', Runs (Device.step P) (fun _ _ => True) d bs d' ∧ s'.device = d' := by
    rintro s a s' _ rfl _ hstep
    by_cases ha : ∃ b, a = .device b
    · obtain ⟨b, rfl⟩ := ha
      exact ⟨[b], s'.device, .cons trivial (device_step hstep) (.nil _), rfl⟩
    · exact ⟨[], s.device, .nil _, device_other (fun b hb => ha ⟨b, hb⟩) hstep⟩
  obtain ⟨bs, d, hrun, rfl⟩ := h.simulate hsim rfl
  exact ⟨bs, hrun⟩

/-- The reassembly in a state of the link. -/
def Reassembles (s : Link) (x : HidLayer) : Prop := s.hid = x.hid ∧ ∀ t, (s.stage t).message = x.serving t

variable {x : HidLayer}

/-- A step that leaves the channels alone leaves the reassembly as it is. -/
theorem Reassembles.same (h : s.Reassembles x) (hhid : s'.hid = s.hid)
    (hstage : ∀ t, (s'.stage t).message = (s.stage t).message) :
    ∃ as x', Runs HidLayer.step (fun _ _ => True) x as x' ∧ s'.Reassembles x' :=
  ⟨[], x, .nil x, hhid.trans h.1, fun t => (hstage t).trans (h.2 t)⟩

theorem message_setStage {t u : Transport} {g : Stage} (h : g.message = (s.stage t).message) :
    ((s.setStage t g).stage u).message = (s.stage u).message := by
  by_cases hu : u = t
  · rw [hu, setStage_self, h]
  · rw [setStage_of_ne hu]

theorem Reassembles.step (h : s.Reassembles x) (hstep : s.step P a = some s') :
    ∃ as x', Runs HidLayer.step (fun _ _ => True) x as x' ∧ s'.Reassembles x' := by
  have hhid := h.1
  have hserving := h.2
  cases a with
  | arrive t p =>
    cases hstep
    exact h.same rfl fun _ => rfl
  | take t allocOk =>
    obtain ⟨hidle, p, rx, hid, hcases⟩ := take_cases hstep
    have hnone : x.serving t = none := by rw [← hserving t, hidle]; rfl
    rcases hcases with ⟨hr, rfl⟩ | ⟨err, hr, rfl⟩ | ⟨m, hr, hcid, rfl⟩
    · refine ⟨[.packet t p allocOk], { x with hid := hid, log := .packet t p :: x.log }, .cons trivial ?_ (.nil _), rfl, hserving⟩
      simp only [HidLayer.step, hnone, ← hhid, hr]
    · refine ⟨[.packet t p allocOk], { x with hid := hid, log := .packet t p :: x.log }, .cons trivial ?_ (.nil _), rfl, hserving⟩
      simp only [HidLayer.step, hnone, ← hhid, hr]
    · refine ⟨[.packet t p allocOk],
        ⟨hid, Function.update x.serving t (some m), .dispatched t m :: .packet t p :: x.log⟩,
        .cons trivial ?_ (.nil _), rfl, fun u => ?_⟩
      · simp only [HidLayer.step, hnone, ← hhid, hr, ← hcid]
      · by_cases hu : u = t
        · simp [hu, Stage.message]
        · simp [setStage_of_ne hu, Function.update_of_ne hu, hserving u]
  | dispatch t =>
    obtain ⟨m, hm, hcases⟩ := dispatch_cases hstep
    have hsome : x.serving t = some m := by rw [← hserving t, hm]; rfl
    have hserves : ∀ u, (((s.setStage t .idle).stage u).message) = Function.update x.serving t none u := by
      intro u
      by_cases hu : u = t
      · simp [hu, Stage.message]
      · simp [setStage_of_ne hu, Function.update_of_ne hu, hserving u]
    have hserve : ∀ handed hid, s.hid.dispatchLocked m = (handed, hid) → ∃ log,
        x.step (.serve t) = some ⟨hid, Function.update x.serving t none, log⟩ := by
      intro handed hid hd
      exact ⟨_, by simp only [HidLayer.step, hsome, ← hhid, hd]; rfl⟩
    rcases hcases with ⟨hcbor, rfl⟩ | ⟨_, handed, hid, hd, ⟨_, rfl⟩ | ⟨cmd, data, _, rfl⟩⟩
    · have hd : s.hid.dispatchLocked m = (none, s.hid) := by
        simp only [Hid.dispatchLocked, hcbor]
        rfl
      obtain ⟨log, hx⟩ := hserve none s.hid hd
      refine ⟨[.serve t], _, .cons trivial hx (.nil _), rfl, fun u => ?_⟩
      refine Eq.trans ?_ (hserves u)
      by_cases hu : u = t
      · simp [hu, Stage.message]
      · simp [setStage_of_ne hu]
    · obtain ⟨log, hx⟩ := hserve handed hid hd
      exact ⟨[.serve t], _, .cons trivial hx (.nil _), rfl, hserves⟩
    · obtain ⟨log, hx⟩ := hserve handed hid hd
      exact ⟨[.serve t], _, .cons trivial hx (.nil _), rfl, hserves⟩
  | device b =>
    obtain ⟨d, _, ⟨_, rfl⟩ | ⟨t, m, _, hserves, rfl⟩⟩ := device_cases hstep
    · exact h.same rfl fun _ => rfl
    · refine h.same (by unfold follow; split <;> rfl) fun u => ?_
      rw [follow_stage]
      have hmsg : (s.stage t).message = none := by
        rcases serves_cases hserves with ⟨hg, _⟩ | ⟨hg, _⟩ <;> rw [hg] <;> rfl
      exact message_setStage (by rw [hmsg]; split <;> rfl)
  | clear t =>
    obtain ⟨m, ret, hm, rfl⟩ := clear_cases hstep
    exact h.same rfl fun u => message_setStage (s := s) (by rw [hm]; rfl)
  | disarm t =>
    obtain ⟨m, ret, hm, rfl⟩ := disarm_cases hstep
    exact h.same rfl fun u => message_setStage (s := s) (by rw [hm]; rfl)
  | disarmed t =>
    obtain ⟨m, ret, hm, _, rfl⟩ := disarmed_cases hstep
    exact h.same rfl fun u => message_setStage (by rw [hm]; rfl)
  | respond t allocOk =>
    obtain ⟨m, ret, hm, rfl⟩ := respond_cases hstep
    exact h.same rfl fun u => message_setStage (by rw [hm]; rfl)
  | fire => obtain ⟨_, _, rfl⟩ := fire_cases hstep; exact h.same rfl fun _ => rfl
  | look => obtain ⟨_, ⟨_, _, _, _, rfl⟩ | ⟨_, rfl⟩⟩ := look_cases hstep <;> exact h.same rfl fun _ => rfl
  | pace => obtain ⟨_, _, _, rfl⟩ := pace_cases hstep; exact h.same rfl fun _ => rfl
  | rearm => obtain ⟨_, rfl⟩ := rearm_cases hstep; exact h.same rfl fun _ => rfl

/-- A run of the link is one of the reassembly, where a worker is free again as soon as its message is dispatched. -/
theorem hid_run {ok : Link → LinkAction → Prop} {file : File} {clock : Nat} {as : List LinkAction}
    (h : Runs (step P) ok (boot file clock) as s) :
    ∃ bs x, Runs HidLayer.step (fun _ _ => True) .boot bs x ∧ s.Reassembles x :=
  h.simulate (fun _ _ _ _ hR _ hstep => hR.step hstep) ⟨rfl, fun _ => rfl⟩

/-! ## The device at its workers -/

/-- A worker is in `abk_fido_cbor_dispatch` exactly while the device has work for it. -/
def Tied (s : Link) : Prop := ∀ t, s.device.worker t ≠ .idle ↔ ∃ m, s.stage t = .inside m

theorem tied_boot (file : File) (clock : Nat) : (boot file clock).Tied := fun t => by
  simp [boot, Device.boot]

theorem Tied.idle (h : s.Tied) (hne : ∀ m, s.stage t ≠ .inside m) : s.device.worker t = .idle := by
  by_contra hw
  obtain ⟨m, hm⟩ := (h t).mp hw
  exact hne m hm

theorem Tied.step (h : s.Tied) (hstep : s.step P a = some s') : s'.Tied := by
  intro t
  by_cases ha : a.worker = some t
  · cases a with
    | arrive | fire | look | pace | rearm => cases ha
    | take u allocOk =>
      cases ha
      have hidle : s.stage t = .idle := (take_cases hstep).1
      rw [device_other (by simp) hstep, h t]
      obtain ⟨_, p, rx, hid, ⟨_, rfl⟩ | ⟨err, _, rfl⟩ | ⟨m, _, _, rfl⟩⟩ := take_cases hstep <;> simp [hidle]
    | dispatch u =>
      cases ha
      rw [device_other (by simp) hstep, h t]
      obtain ⟨m, hm, ⟨_, rfl⟩ | ⟨_, handed, hid, _, ⟨_, rfl⟩ | ⟨cmd, data, _, rfl⟩⟩⟩ := dispatch_cases hstep <;>
        simp [hm]
    | clear u => cases ha; rw [device_other (by simp) hstep, h t]; obtain ⟨m, ret, hm, rfl⟩ := clear_cases hstep; simp [hm]
    | disarm u => cases ha; rw [device_other (by simp) hstep, h t]; obtain ⟨m, ret, hm, rfl⟩ := disarm_cases hstep; simp [hm]
    | disarmed u =>
      cases ha
      rw [device_other (by simp) hstep, h t]
      obtain ⟨m, ret, hm, _, rfl⟩ := disarmed_cases hstep
      simp [hm]
    | respond u allocOk =>
      cases ha
      rw [device_other (by simp) hstep, h t]
      obtain ⟨m, ret, hm, rfl⟩ := respond_cases hstep
      simp [hm]
    | device b =>
      obtain ⟨d, hd, ⟨hnone, _⟩ | ⟨u, m, hu, hserves, rfl⟩⟩ := device_cases hstep
      · rw [show b.worker = some t from ha] at hnone
        cases hnone
      · cases (show b.worker = some t from ha).symm.trans hu
        rw [follow_device, follow_stage, Function.update_self]
        rcases serves_cases hserves with ⟨_, allocOk, v, rfl⟩ | ⟨hin, _⟩
        · cases hu
          obtain ⟨_, ⟨r, hr, hidle⟩ | ⟨hr, hbusy⟩⟩ := Device.receive_own hd
          · simp [hr, hidle]
          · simp [hr, hbusy]
        · have hown := (Device.busy_own hu ((h t).mpr ⟨m, hin⟩) hd).2
          cases hr : s.device.reply P b with
          | some r => simpa [hr] using hown
          | none => simpa [hr] using hown
  · rw [stage_other ha hstep, ← h t]
    by_cases hb : ∃ b, a = .device b
    · obtain ⟨b, rfl⟩ := hb
      have hrank := Device.rank_other ha (device_step hstep)
      rw [ne_eq, ne_eq, ← Worker.rank_eq_zero, ← Worker.rank_eq_zero, hrank]
    · rw [device_other (fun b h => hb ⟨b, h⟩) hstep]

end Link

end AbkFido
