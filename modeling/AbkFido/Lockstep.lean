/-
One response for each message: one call of `abk_fido_send_hid_message`, or of
`abk_fido_send_hid_error`, which calls it.

`Lockstep` reads a transport's log as a conversation: a message, then its
response, then the next message. The log of every run reads so
(`lockstep_of_runs`), whatever the other transport and the keepalive worker
do, and a worker with a message comes to its response: its own steps all take
it closer, none of the others' takes it back. Where one transport alone is
used the keepalives for a message come before its response.
-/
import AbkFido.LinkFacts

namespace AbkFido

variable {P : Platform}

/-- What a transport's log has come to. -/
inductive Exchange
  | quiet
  /-- A message without its response. -/
  | asked (m : Msg)
  /-- A CBOR message that `abk_fido_cbor_dispatch` has returned from. -/
  | settled (m : Msg) (ret : Ret)

def Exchange.msg : Exchange → Option Msg
  | .quiet => none
  | .asked m | .settled m _ => some m

/-- A CBOR response: the status is 0 exactly if the call returned 0, and only
then there is a payload, which is what it returned. -/
structure Responds (ret : Ret) (f : Msg) : Prop where
  cmd : f.cmd = hidCbor
  status : ∃ status payload, f.data = status :: payload ∧ (status = 0 ↔ ∃ bytes, ret = .ok bytes) ∧
    (payload ≠ [] → ret = .ok payload)

/-- The log of a transport, newest first, as a conversation. `paced` says
which keepalives may come in between. -/
inductive Lockstep (paced : Exchange → UInt32 → Prop) : List LinkEvent → Exchange → Prop
  | boot : Lockstep paced [] .quiet
  | packet {log} (p : Packet) : Lockstep paced log .quiet → Lockstep paced (.packet p :: log) .quiet
  /-- A packet that completes no message may be answered with an error. -/
  | refused {log} (p : Packet) (err : UInt8) : Lockstep paced log .quiet →
      Lockstep paced (.sent ⟨p.cid, hidError, [err]⟩ :: .packet p :: log) .quiet
  | dispatched {log} (p : Packet) (m : Msg) : Lockstep paced log .quiet →
      Lockstep paced (.dispatched m :: .packet p :: log) (.asked m)
  | cancel {log m} : m.cmd = hidCancel → Lockstep paced log (.asked m) → Lockstep paced log .quiet
  | answered {log m f} : m.cmd ≠ hidCancel → m.cmd ≠ hidCbor → f.cid = m.cid → f.cmd ≠ hidKeepalive →
      Lockstep paced log (.asked m) → Lockstep paced (.sent f :: log) .quiet
  | returned {log m} (ret : Ret) : m.cmd = hidCbor → Lockstep paced log (.asked m) →
      Lockstep paced (.returned ret :: log) (.settled m ret)
  /-- Without memory for its buffer the response is an error. -/
  | responded {log m ret f} : f.cid = m.cid → Responds ret f ∨ (f.cmd = hidError ∧ f.data = [hidErrOther]) →
      Lockstep paced log (.settled m ret) → Lockstep paced (.sent f :: log) .quiet
  | keepalive {log x} (cid : UInt32) : paced x cid → Lockstep paced log x →
      Lockstep paced (.sent ⟨cid, hidKeepalive, [keepaliveStatusProcessing]⟩ :: log) x

theorem responds_sendCborResult (allocOk : Bool) (cid : UInt32) (ret : Ret) :
    Responds ret (sendCborResult allocOk cid ret) ∨
      ((sendCborResult allocOk cid ret).cmd = hidError ∧ (sendCborResult allocOk cid ret).data = [hidErrOther]) := by
  cases allocOk with
  | false => exact .inr ⟨rfl, rfl⟩
  | true =>
    refine .inl ⟨rfl, ?_⟩
    cases ret with
    | ok payload => exact ⟨ctapSuccess, payload, rfl, by simp [ctapSuccess], fun _ => rfl⟩
    | error e =>
      refine ⟨ctapStatus e, [], rfl, ?_, fun h => absurd rfl h⟩
      exact ⟨fun h => absurd h (ctapStatus_ne_success e), fun ⟨_, h⟩ => by cases h⟩

theorem sendCborResult_cid (allocOk : Bool) (cid : UInt32) (ret : Ret) : (sendCborResult allocOk cid ret).cid = cid := by
  cases allocOk <;> rfl

/-- What a message other than CBOR is answered is no keepalive, and only a
CANCEL is not answered. -/
theorem answer_final {m : Msg} (handed : Option UInt32) (hcbor : m.cmd ≠ hidCbor) :
    (m.answer [] handed = none ∧ m.cmd = hidCancel) ∨
      ∃ cmd data, m.answer [] handed = some (cmd, data) ∧ m.cmd ≠ hidCancel ∧ cmd ≠ hidKeepalive := by
  unfold Msg.answer
  by_cases hinit : m.cmd = hidInit
  · rw [if_pos hinit, hinit]
    cases handed with
    | none => exact .inr ⟨_, _, rfl, by decide, by decide⟩
    | some cid => exact .inr ⟨_, _, rfl, by decide, by decide⟩
  rw [if_neg hinit]
  by_cases hping : m.cmd = hidPing
  · rw [if_pos hping, hping]
    exact .inr ⟨_, _, rfl, by decide, by decide⟩
  rw [if_neg hping]
  by_cases hwink : m.cmd = hidWink
  · rw [if_pos hwink, hwink]
    exact .inr ⟨_, _, rfl, by decide, by decide⟩
  rw [if_neg hwink]
  by_cases hcancel : m.cmd = hidCancel
  · rw [if_pos hcancel]
    exact .inl ⟨rfl, hcancel⟩
  · rw [if_neg hcancel, if_neg hcbor]
    exact .inr ⟨_, _, rfl, hcancel, by decide⟩

/-! ## The log of a run -/

def Stage.exchange : Stage → Exchange
  | .idle => .quiet
  | .complete m | .calling m | .inside m => .asked m
  | .returned m ret | .cleared m ret | .cancelling m ret | .answering m ret => .settled m ret

/-- How far the keepalive worker is from the end of its run. -/
def Pacer.rank : Pacer → Nat
  | .idle => 0
  | .sent => 1
  | .looked .. => 2
  | .started => 3

theorem Pacer.rank_le (p : Pacer) : p.rank ≤ 3 := by cases p <;> simp [Pacer.rank]

/-- Where the keepalives of a message may still be on their way. -/
def Stage.paces : Stage → Bool
  | .inside _ | .returned .. | .cleared .. | .cancelling .. => true
  | _ => false

namespace Link

variable {s s' : Link} {t : Transport} {a : LinkAction}

/-- The log of `t` is a conversation that has come to where its worker is. -/
structure Converses (paced : Exchange → UInt32 → Prop) (t : Transport) (s : Link) : Prop where
  log : Lockstep paced (s.log t) (s.stage t).exchange
  cbor : ∀ m, s.stage t = .calling m ∨ s.stage t = .inside m → m.cmd = hidCbor

variable {paced : Exchange → UInt32 → Prop}

/-- A step that changes neither the log nor the stage of a worker. -/
theorem Converses.same (h : s.Converses paced t) (hlog : s'.log t = s.log t) (hstage : s'.stage t = s.stage t) :
    s'.Converses paced t := by
  constructor
  · rw [hlog, hstage]
    exact h.log
  · rw [hstage]
    exact h.cbor

/-- A step that takes a worker on in the same exchange, out of `abk_fido_cbor_dispatch`. -/
theorem Converses.on (h : s.Converses paced t) {g : Stage} (hlog : s'.log t = s.log t) (hstage : s'.stage t = g)
    (hex : g.exchange = (s.stage t).exchange) (hg : ∀ m, ¬ (g = .calling m ∨ g = .inside m)) :
    s'.Converses paced t := by
  constructor
  · rw [hlog, hstage, hex]
    exact h.log
  · rw [hstage]
    exact fun m hm => absurd hm (hg m)

theorem Converses.take {allocOk : Bool} (h : s.Converses paced t) (hstep : s.step P (.take t allocOk) = some s') :
    s'.Converses paced t := by
  obtain ⟨hidle, p, rx, hid, hcases⟩ := take_cases hstep
  have hquiet : Lockstep paced (s.log t) .quiet := by
    have := h.log
    rwa [hidle] at this
  rcases hcases with ⟨_, rfl⟩ | ⟨err, _, rfl⟩ | ⟨m, _, _, rfl⟩
  · constructor
    · rw [note_self, note_stage, hidle]
      exact hquiet.packet p
    · simp [hidle]
  · constructor
    · rw [note_self, note_stage, note_self, note_stage, hidle]
      exact hquiet.refused p err
    · simp [hidle]
  · constructor
    · rw [note_self, note_stage, setStage_self, setStage_log, note_self]
      exact hquiet.dispatched p m
    · simp

theorem Converses.dispatch (h : s.Converses paced t) (hstep : s.step P (.dispatch t) = some s') :
    s'.Converses paced t := by
  obtain ⟨m, hm, hcases⟩ := dispatch_cases hstep
  have hasked : Lockstep paced (s.log t) (.asked m) := by
    have := h.log
    rwa [hm] at this
  rcases hcases with ⟨hcbor, rfl⟩ | ⟨hcbor, handed, hid, _, hanswer⟩
  · constructor
    · rw [setStage_self, setStage_log]
      exact hasked
    · rw [setStage_self]
      rintro m' (hm' | hm') <;> cases hm'
      exact hcbor
  rcases answer_final handed hcbor with ⟨hnone, hcancel⟩ | ⟨cmd, data, hsome, hcancel, hkeep⟩
  · rcases hanswer with ⟨_, rfl⟩ | ⟨_, _, hsome, _⟩
    · constructor
      · rw [setStage_self, setStage_log]
        exact hasked.cancel hcancel
      · simp
    · rw [hnone] at hsome
      cases hsome
  · rcases hanswer with ⟨hnone, _⟩ | ⟨cmd', data', hsome', rfl⟩
    · rw [hnone] at hsome
      cases hsome
    · cases hsome.symm.trans hsome'
      constructor
      · rw [note_self, note_stage, setStage_self, setStage_log]
        exact hasked.answered hcancel hcbor rfl hkeep
      · simp

theorem Converses.device {b : Action} (h : s.Converses paced t) (hb : b.worker = some t)
    (hstep : s.step P (.device b) = some s') : s'.Converses paced t := by
  obtain ⟨d, _, ⟨hnone, _⟩ | ⟨u, m, hu, hserves, rfl⟩⟩ := device_cases hstep
  · rw [hb] at hnone
    cases hnone
  cases hb.symm.trans hu
  have hcall : s.stage t = .calling m ∨ s.stage t = .inside m :=
    (serves_cases hserves).imp And.left And.left
  have hcbor := h.cbor m hcall
  have hasked : Lockstep paced (s.log t) (.asked m) := by
    have := h.log
    rcases hcall with hc | hc <;> rwa [hc] at this
  cases hr : s.device.reply P b with
  | none =>
    constructor
    · rw [follow_log, follow_stage, hr, Function.update_self]
      exact hasked
    · rw [follow_stage, hr, Function.update_self]
      rintro m' (hm' | hm') <;> cases hm'
      exact hcbor
  | some r =>
    constructor
    · simp only [follow_log, follow_stage, hr, Function.update_self]
      exact hasked.returned r.result hcbor
    · rw [follow_stage, hr, Function.update_self]
      rintro m' (hm' | hm') <;> cases hm'

/-- The step of a worker that has the response. -/
theorem Converses.respond {allocOk : Bool} (h : s.Converses paced t)
    (hstep : s.step P (.respond t allocOk) = some s') : s'.Converses paced t := by
  obtain ⟨m, ret, hm, rfl⟩ := respond_cases hstep
  have hsettled : Lockstep paced (s.log t) (.settled m ret) := by
    have := h.log
    rwa [hm] at this
  constructor
  · rw [note_self, note_stage, setStage_self, setStage_log]
    exact hsettled.responded (sendCborResult_cid ..) (responds_sendCborResult ..)
  · simp

/-- What another worker, the companion or the clock does is not in the log of `t`. -/
theorem log_other (ha : a.worker ≠ some t) (hpace : a ≠ .pace) (hstep : s.step P a = some s') : s'.log t = s.log t := by
  have hne : ∀ {u}, a.worker = some u → t ≠ u := fun hu htu => ha (by rw [hu, htu])
  cases a with
  | arrive => cases hstep; rfl
  | take u allocOk =>
    obtain ⟨_, p, rx, hid, ⟨_, rfl⟩ | ⟨err, _, rfl⟩ | ⟨m, _, _, rfl⟩⟩ := take_cases hstep
    · rw [note_of_ne (hne rfl)]
    · rw [note_of_ne (hne rfl), note_of_ne (hne rfl)]
    · rw [note_of_ne (hne rfl), setStage_log, note_of_ne (hne rfl)]
  | dispatch u =>
    obtain ⟨m, _, ⟨_, rfl⟩ | ⟨_, handed, hid, _, ⟨_, rfl⟩ | ⟨cmd, data, _, rfl⟩⟩⟩ := dispatch_cases hstep
    · rfl
    · rfl
    · rw [note_of_ne (hne rfl), setStage_log]
  | device b =>
    obtain ⟨d, _, ⟨_, rfl⟩ | ⟨u, m, hu, _, rfl⟩⟩ := device_cases hstep
    · rfl
    · rw [follow_log]
      split
      · exact Function.update_of_ne (hne hu) ..
      · rfl
  | clear u => obtain ⟨m, ret, _, rfl⟩ := clear_cases hstep; rfl
  | disarm u => obtain ⟨m, ret, _, rfl⟩ := disarm_cases hstep; rfl
  | disarmed u => obtain ⟨m, ret, _, _, rfl⟩ := disarmed_cases hstep; rfl
  | respond u allocOk => obtain ⟨m, ret, _, rfl⟩ := respond_cases hstep; rw [note_of_ne (hne rfl), setStage_log]
  | fire => obtain ⟨_, _, rfl⟩ := fire_cases hstep; rfl
  | look => obtain ⟨_, ⟨_, _, _, _, rfl⟩ | ⟨_, rfl⟩⟩ := look_cases hstep <;> rfl
  | pace => exact absurd rfl hpace
  | rearm => obtain ⟨_, rfl⟩ := rearm_cases hstep; rfl

/-- A keepalive on `t` is one of those that may come. -/
theorem Converses.pace (h : s.Converses paced t)
    (hpaced : ∀ cid, s.pacer = .looked t cid → paced (s.stage t).exchange cid) (hstep : s.step P .pace = some s') :
    s'.Converses paced t := by
  obtain ⟨u, cid, hlooked, rfl⟩ := pace_cases hstep
  by_cases hu : t = u
  · subst hu
    constructor
    · rw [note_self, note_stage]
      exact h.log.keepalive cid (hpaced cid hlooked)
    · rw [note_stage]
      exact h.cbor
  · refine h.same ?_ rfl
    rw [note_of_ne hu]

theorem Converses.step (h : s.Converses paced t)
    (hpaced : ∀ cid, s.pacer = .looked t cid → paced (s.stage t).exchange cid) (hstep : s.step P a = some s') :
    s'.Converses paced t := by
  by_cases hpace : a = .pace
  · subst hpace
    exact h.pace hpaced hstep
  by_cases ha : a.worker = some t
  · cases a with
    | arrive | fire | look | pace | rearm => cases ha
    | take u allocOk => cases ha; exact h.take hstep
    | dispatch u => cases ha; exact h.dispatch hstep
    | device b => exact h.device ha hstep
    | clear u =>
      cases ha
      obtain ⟨m, ret, hm, rfl⟩ := clear_cases hstep
      exact h.on rfl (setStage_self ..) (by rw [hm]; rfl) (by simp)
    | disarm u =>
      cases ha
      obtain ⟨m, ret, hm, rfl⟩ := disarm_cases hstep
      exact h.on rfl (setStage_self ..) (by rw [hm]; rfl) (by simp)
    | disarmed u =>
      cases ha
      obtain ⟨m, ret, hm, _, rfl⟩ := disarmed_cases hstep
      exact h.on rfl (setStage_self ..) (by rw [hm]; rfl) (by simp)
    | respond u allocOk => cases ha; exact h.respond hstep
  · exact h.same (log_other ha hpace hstep) (stage_other ha hstep)

/-! ## One transport alone -/

/-- What the keepalive record and the worker of `t` have to do with each other while no other worker acts. -/
structure Alone (t : Transport) (s : Link) : Prop where
  looked : ∀ u cid, s.pacer = .looked u cid → ∃ m, (s.stage t).exchange.msg = some m ∧ m.cid = cid
  usb : ∀ u, s.authUsb = some u → ∃ m, (s.stage t = .calling m ∨ s.stage t = .inside m ∨
    ∃ ret, s.stage t = .returned m ret) ∧ m.cid = s.authCid
  quiet : (s.stage t).paces = false → s.armed = false ∧ s.pacer = .idle
  disarmed : ∀ m ret, s.stage t = .cancelling m ret → s.armed = false

theorem alone_boot (t : Transport) (file : File) (clock : Nat) : (boot file clock).Alone t where
  looked _ _ h := by cases h
  usb _ h := by cases h
  quiet _ := ⟨rfl, rfl⟩
  disarmed _ _ h := by cases h

theorem disarming_of {m : Msg} {ret : Ret} (h : s.stage t = .cancelling m ret) : s.disarming = true := by
  cases t <;> simp [disarming, h, Stage.isCancelling]

theorem arm_of_disarming (h : s.disarming = true) : s.arm = s := by
  simp [arm, h]

/-- The record names a transport only while its message is on its way through the call. -/
theorem Alone.silent (h : s.Alone t)
    (hstage : ∀ m, ¬ (s.stage t = .calling m ∨ s.stage t = .inside m ∨ ∃ ret, s.stage t = .returned m ret)) :
    ∀ u, s.authUsb ≠ some u := fun u hu => by
  obtain ⟨m, hm, _⟩ := h.usb u hu
  exact hstage m hm

/-- The keepalive worker runs, or is about to, only while it may. -/
theorem Alone.paces (h : s.Alone t) (hrun : s.armed = true ∨ s.pacer ≠ .idle) : (s.stage t).paces = true := by
  by_contra hp
  obtain ⟨harmed, hpacer⟩ := h.quiet (by simpa using hp)
  rcases hrun with hrun | hrun
  · rw [harmed] at hrun
    cases hrun
  · exact hrun hpacer

/-- A worker's own step outside the call: nothing runs before it, and nothing after. -/
theorem Alone.rests (h : s.Alone t) {g : Stage} (hold : (s.stage t).paces = false)
    (hstage : s'.stage t = g) (harmed : s'.armed = s.armed) (hpacer : s'.pacer = s.pacer)
    (husb : ∀ u, s'.authUsb = some u → ∃ m, g = .calling m ∧ m.cid = s'.authCid) : s'.Alone t := by
  obtain ⟨ha, hp⟩ := h.quiet hold
  refine ⟨fun u cid hl => ?_, fun u hu => ?_, fun _ => ⟨harmed.trans ha, hpacer.trans hp⟩, fun _ _ _ => harmed.trans ha⟩
  · rw [hpacer, hp] at hl
    cases hl
  · obtain ⟨m, hg, hcid⟩ := husb u hu
    exact ⟨m, .inl (hstage.trans hg), hcid⟩

/-- A worker's own step with its message in the call, or just out of it. -/
theorem Alone.goesOn (h : s.Alone t) {g : Stage} (hnew : g.paces = true) (hstage : s'.stage t = g)
    (hmsg : g.exchange.msg = (s.stage t).exchange.msg) (hpacer : s'.pacer = s.pacer)
    (husb : ∀ u, s'.authUsb = some u → ∃ m, (g = .inside m ∨ ∃ ret, g = .returned m ret) ∧ m.cid = s'.authCid)
    (hdisarmed : ∀ m ret, g = .cancelling m ret → s'.armed = false) : s'.Alone t := by
  subst hstage
  refine ⟨fun u cid hl => ?_, fun u hu => ?_, fun hq => ?_, hdisarmed⟩
  · rw [hmsg]
    exact h.looked u cid (hpacer ▸ hl)
  · obtain ⟨m, hg, hcid⟩ := husb u hu
    exact ⟨m, .inr hg, hcid⟩
  · rw [hnew] at hq
    cases hq

/-- A step of the keepalive worker. -/
theorem Alone.pacer (h : s.Alone t) (hp : (s.stage t).paces = true) (hstage : s'.stage = s.stage)
    (husb : s'.authUsb = s.authUsb) (hcid : s'.authCid = s.authCid)
    (hlooked : ∀ u cid, s'.pacer = .looked u cid → ∃ m, (s.stage t).exchange.msg = some m ∧ m.cid = cid)
    (hdisarmed : ∀ m ret, s.stage t = .cancelling m ret → s'.armed = false) : s'.Alone t := by
  refine ⟨by rwa [hstage], ?_, fun hq => ?_, by rwa [hstage]⟩
  · rw [husb, hcid, hstage]
    exact h.usb
  · rw [hstage, hp] at hq
    cases hq

theorem Alone.step (h : s.Alone t) (ha : ∀ u, a.worker = some u → u = t) (hstep : s.step P a = some s') :
    s'.Alone t := by
  cases a with
  | arrive u p =>
    cases hstep
    exact ⟨h.looked, h.usb, h.quiet, h.disarmed⟩
  | take u allocOk =>
    cases ha u rfl
    obtain ⟨hidle, p, rx, hid, hcases⟩ := take_cases hstep
    have hsilent := h.silent (by simp [hidle])
    have hold : (s.stage t).paces = false := by rw [hidle]; rfl
    rcases hcases with ⟨_, rfl⟩ | ⟨err, _, rfl⟩ | ⟨m, _, _, rfl⟩
    · exact h.rests (g := .idle) hold hidle rfl rfl fun u hu => absurd hu (hsilent u)
    · exact h.rests (g := .idle) hold hidle rfl rfl fun u hu => absurd hu (hsilent u)
    · exact h.rests hold (setStage_self ..) rfl rfl fun u hu => absurd hu (hsilent u)
  | dispatch u =>
    cases ha u rfl
    obtain ⟨m, hm, hcases⟩ := dispatch_cases hstep
    have hsilent := h.silent (by simp [hm])
    have hold : (s.stage t).paces = false := by rw [hm]; rfl
    rcases hcases with ⟨_, rfl⟩ | ⟨_, handed, hid, _, ⟨_, rfl⟩ | ⟨cmd, data, _, rfl⟩⟩
    · exact h.rests hold (setStage_self ..) rfl rfl fun _ _ => ⟨m, rfl, rfl⟩
    · exact h.rests hold (setStage_self ..) rfl rfl fun u hu => absurd hu (hsilent u)
    · exact h.rests hold (setStage_self ..) rfl rfl fun u hu => absurd hu (hsilent u)
  | device b =>
    obtain ⟨d, _, ⟨_, rfl⟩ | ⟨u, m, hu, hserves, rfl⟩⟩ := device_cases hstep
    · exact ⟨h.looked, h.usb, h.quiet, h.disarmed⟩
    cases ha u hu
    have hcall : s.stage t = .calling m ∨ s.stage t = .inside m := (serves_cases hserves).imp And.left And.left
    have hmsg : (s.stage t).exchange.msg = some m := by rcases hcall with hc | hc <;> rw [hc] <;> rfl
    have hcid : ∀ v, s.authUsb = some v → m.cid = s.authCid := by
      intro v hv
      obtain ⟨m', hm', hcid⟩ := h.usb v hv
      rcases hcall with hc | hc <;> rw [hc] at hm' <;> simp_all
    have hstage := congrFun (follow_stage (P := P) t m b s d) t
    rw [Function.update_self] at hstage
    cases hr : s.device.reply P b with
    | none =>
      rw [hr] at hstage
      refine h.goesOn rfl hstage hmsg.symm (by unfold follow; split <;> rfl) (fun v hv => ⟨m, .inl rfl, ?_⟩)
        fun _ _ hg => by cases hg
      have husb : (s.follow P t m b d).authUsb = s.authUsb := by unfold follow; split <;> rfl
      have hauth : (s.follow P t m b d).authCid = s.authCid := by unfold follow; split <;> rfl
      rw [hauth]
      exact hcid v (husb ▸ hv)
    | some r =>
      rw [hr] at hstage
      refine h.goesOn rfl hstage hmsg.symm (by unfold follow; split <;> rfl) (fun v hv => ⟨m, .inr ⟨_, rfl⟩, ?_⟩)
        fun _ _ hg => by cases hg
      have husb : (s.follow P t m b d).authUsb = s.authUsb := by unfold follow; split <;> rfl
      have hauth : (s.follow P t m b d).authCid = s.authCid := by unfold follow; split <;> rfl
      rw [hauth]
      exact hcid v (husb ▸ hv)
  | clear u =>
    cases ha u rfl
    obtain ⟨m, ret, hm, rfl⟩ := clear_cases hstep
    exact h.goesOn rfl (setStage_self ..) (by rw [hm]; rfl) rfl (fun _ hv => by cases hv) fun _ _ hg => by cases hg
  | disarm u =>
    cases ha u rfl
    obtain ⟨m, ret, hm, rfl⟩ := disarm_cases hstep
    exact h.goesOn rfl (setStage_self ..) (by rw [hm]; rfl) rfl
      (fun v hv => absurd hv (h.silent (by simp [hm]) v)) fun _ _ _ => rfl
  | disarmed u =>
    cases ha u rfl
    obtain ⟨m, ret, hm, hpacer, rfl⟩ := disarmed_cases hstep
    have hsilent := h.silent (by simp [hm])
    refine ⟨fun v cid hl => ?_, fun v hv => absurd hv (hsilent v), fun _ => ⟨h.disarmed m ret hm, hpacer⟩, ?_⟩
    · rw [show (s.setStage t _).pacer = s.pacer from rfl, hpacer] at hl
      cases hl
    · simp
  | respond u allocOk =>
    cases ha u rfl
    obtain ⟨m, ret, hm, rfl⟩ := respond_cases hstep
    exact h.rests (by rw [hm]; rfl) (setStage_self ..) rfl rfl fun v hv => absurd hv (h.silent (by simp [hm]) v)
  | fire =>
    obtain ⟨_, harmed, rfl⟩ := fire_cases hstep
    exact h.pacer (h.paces (.inl harmed)) rfl rfl rfl (fun _ _ hl => by cases hl) fun _ _ _ => rfl
  | look =>
    obtain ⟨hstarted, hcases⟩ := look_cases hstep
    have hp := h.paces (.inr (by rw [hstarted]; decide))
    rcases hcases with ⟨u, _, _, husb, rfl⟩ | ⟨_, rfl⟩
    · refine h.pacer hp rfl rfl rfl (fun v cid hl => ?_) h.disarmed
      cases hl
      obtain ⟨m, hm, hcid⟩ := h.usb u husb
      refine ⟨m, ?_, hcid⟩
      rcases hm with hm | hm | ⟨ret, hm⟩ <;> rw [hm] <;> rfl
    · exact h.pacer hp rfl rfl rfl (fun _ _ hl => by cases hl) h.disarmed
  | pace =>
    obtain ⟨u, cid, hlooked, rfl⟩ := pace_cases hstep
    exact h.pacer (h.paces (.inr (by rw [hlooked]; exact Pacer.noConfusion))) rfl rfl rfl (fun _ _ hl => by cases hl)
      h.disarmed
  | rearm =>
    obtain ⟨hsent, rfl⟩ := rearm_cases hstep
    refine h.pacer (h.paces (.inr (by rw [hsent]; decide))) rfl rfl rfl (fun _ _ hl => by cases hl) fun m ret hm => ?_
    rw [arm_of_disarming (disarming_of hm)]
    exact h.disarmed m ret hm

theorem converses_boot (paced : Exchange → UInt32 → Prop) (t : Transport) (file : File) (clock : Nat) :
    (boot file clock).Converses paced t := ⟨.boot, by simp [boot]⟩

/-! ## The response comes -/

/-- How far a worker is from its response. While it waits for the keepalive worker, that one's steps count too. -/
def rank (t : Transport) (s : Link) : Nat :=
  match s.stage t with
  | .idle => 0
  | .answering .. => 1
  | .cancelling .. => 2 + s.pacer.rank
  | .cleared .. => 6
  | .returned .. => 7
  | .inside _ => 7 + (s.device.worker t).rank
  | .calling _ => 12
  | .complete _ => 13

/-- The worker of `t` comes to its response: while it has a message, and is
not in a parse that does not end, some step takes it closer; its own steps all
do, and no step takes it back. -/
structure Progresses (P : Platform) (t : Transport) (s : Link) : Prop where
  closer : s.stage t ≠ .idle → s.device.worker t ≠ .hung → ∃ a s', s.step P a = some s' ∧ s'.rank t < s.rank t
  own : s.stage t ≠ .idle → ∀ a s', a.worker = some t → s.step P a = some s' → s'.rank t < s.rank t
  others : s.stage t ≠ .idle → ∀ a s', s.step P a = some s' → s'.rank t ≤ s.rank t

/-- What the rank needs to know of a reachable state. -/
structure Sound (s : Link) : Prop where
  tied : s.Tied
  disarmed : ∀ t m ret, s.stage t = .cancelling m ret → s.armed = false

theorem armed_arm (s : Link) : s.arm.armed = (s.armed || !s.disarming) := rfl

theorem Sound.step (h : s.Sound) (hstep : s.step P a = some s') : s'.Sound := by
  refine ⟨h.tied.step hstep, fun t m ret hm => ?_⟩
  -- the only steps that arm the work do nothing while it is being cancelled
  have harm : ∀ {u : Link}, u.armed = s.armed → (∀ m ret, u.stage t = .cancelling m ret → s.stage t = .cancelling m ret) →
      u.arm.stage t = .cancelling m ret → u.arm.armed = false := by
    intro u hu hback hm
    have hm' : u.stage t = .cancelling m ret := hm
    rw [arm_of_disarming (disarming_of hm'), hu]
    exact h.disarmed t m ret (hback m ret hm')
  by_cases ha : a.worker = some t
  · cases a with
    | arrive | fire | look | pace | rearm => cases ha
    | take u allocOk =>
      cases ha
      obtain ⟨hidle, p, rx, hid, ⟨_, rfl⟩ | ⟨err, _, rfl⟩ | ⟨m, _, _, rfl⟩⟩ := take_cases hstep <;> simp [hidle] at hm
    | dispatch u =>
      cases ha
      obtain ⟨m, hm', ⟨_, rfl⟩ | ⟨_, handed, hid, _, ⟨_, rfl⟩ | ⟨cmd, data, _, rfl⟩⟩⟩ := dispatch_cases hstep <;>
        simp at hm
    | device b =>
      obtain ⟨d, _, ⟨hnone, _⟩ | ⟨u, m, hu, _, rfl⟩⟩ := device_cases hstep
      · rw [show b.worker = some t from ha] at hnone
        cases hnone
      · cases (show b.worker = some t from ha).symm.trans hu
        rw [follow_stage, Function.update_self] at hm
        split at hm <;> cases hm
    | clear u => cases ha; obtain ⟨m, ret, hm', rfl⟩ := clear_cases hstep; simp at hm
    | disarm u => cases ha; obtain ⟨m, ret, hm', rfl⟩ := disarm_cases hstep; rfl
    | disarmed u => cases ha; obtain ⟨m, ret, hm', _, rfl⟩ := disarmed_cases hstep; simp at hm
    | respond u allocOk => cases ha; obtain ⟨m, ret, hm', rfl⟩ := respond_cases hstep; simp at hm
  · have hwas := h.disarmed t m ret ((stage_other ha hstep).symm.trans hm)
    cases a with
    | arrive => cases hstep; exact hwas
    | take u allocOk => obtain ⟨_, p, rx, hid, ⟨_, rfl⟩ | ⟨err, _, rfl⟩ | ⟨m, _, _, rfl⟩⟩ := take_cases hstep <;> exact hwas
    | dispatch u =>
      obtain ⟨m, hm', ⟨_, rfl⟩ | ⟨_, handed, hid, _, ⟨_, rfl⟩ | ⟨cmd, data, _, rfl⟩⟩⟩ := dispatch_cases hstep <;> exact hwas
    | device b =>
      obtain ⟨d, _, ⟨_, rfl⟩ | ⟨u, m', hu, _, rfl⟩⟩ := device_cases hstep
      · exact hwas
      · have hne : t ≠ u := fun htu => ha (by rw [htu]; exact hu)
        unfold follow at hm ⊢
        split at hm
        · exact hwas
        · exact hwas
        · exact harm rfl (fun m ret hm => by rwa [setStage_of_ne hne] at hm) hm
        · exact hwas
    | clear u => obtain ⟨m, ret, hm', rfl⟩ := clear_cases hstep; exact hwas
    | disarm u => obtain ⟨m, ret, hm', rfl⟩ := disarm_cases hstep; rfl
    | disarmed u => obtain ⟨m, ret, hm', _, rfl⟩ := disarmed_cases hstep; exact hwas
    | respond u allocOk => obtain ⟨m, ret, hm', rfl⟩ := respond_cases hstep; exact hwas
    | fire => obtain ⟨_, _, rfl⟩ := fire_cases hstep; rfl
    | look => obtain ⟨_, ⟨_, _, _, _, rfl⟩ | ⟨_, rfl⟩⟩ := look_cases hstep <;> exact hwas
    | pace => obtain ⟨_, _, _, rfl⟩ := pace_cases hstep; exact hwas
    | rearm => obtain ⟨_, rfl⟩ := rearm_cases hstep; exact harm rfl (fun _ _ h => h) hm

theorem Sound.rank_own (h : s.Sound) (hbusy : s.stage t ≠ .idle) (ha : a.worker = some t)
    (hstep : s.step P a = some s') : s'.rank t < s.rank t := by
  cases a with
  | arrive | fire | look | pace | rearm => cases ha
  | take u allocOk => cases ha; exact absurd (take_cases hstep).1 hbusy
  | dispatch u =>
    cases ha
    obtain ⟨m, hm, ⟨_, rfl⟩ | ⟨_, handed, hid, _, ⟨_, rfl⟩ | ⟨cmd, data, _, rfl⟩⟩⟩ := dispatch_cases hstep <;>
      simp [rank, hm]
  | device b =>
    obtain ⟨d, hd, ⟨hnone, _⟩ | ⟨u, m, hu, hserves, rfl⟩⟩ := device_cases hstep
    · rw [show b.worker = some t from ha] at hnone
      cases hnone
    cases (show b.worker = some t from ha).symm.trans hu
    simp only [rank, follow_stage, follow_device, Function.update_self]
    rcases serves_cases hserves with ⟨hcall, _⟩ | ⟨hin, _⟩
    · have hmax := (d.worker t).rank_le
      cases s.device.reply P b <;> simp only [hcall] <;> omega
    · have hwork : s.device.worker t ≠ .idle := (h.tied t).mpr ⟨m, hin⟩
      obtain ⟨hlt, _⟩ := Device.busy_own hu hwork hd
      have hpos : (s.device.worker t).rank ≠ 0 := fun h0 => hwork (Worker.rank_eq_zero.mp h0)
      cases s.device.reply P b <;> simp only [hin] <;> omega
  | clear u => cases ha; obtain ⟨m, ret, hm, rfl⟩ := clear_cases hstep; simp [rank, hm]
  | disarm u =>
    cases ha
    obtain ⟨m, ret, hm, rfl⟩ := disarm_cases hstep
    have hmax := s.pacer.rank_le
    simp only [rank, hm, setStage_self]
    show 2 + s.pacer.rank < 6
    omega
  | disarmed u =>
    cases ha
    obtain ⟨m, ret, hm, _, rfl⟩ := disarmed_cases hstep
    simp only [rank, hm, setStage_self]
    omega
  | respond u allocOk => cases ha; obtain ⟨m, ret, hm, rfl⟩ := respond_cases hstep; simp [rank, hm]

/-- A cancelled work is not started again, so the keepalive worker only comes to an end. -/
theorem Sound.pacer_rank (h : s.Sound) {m : Msg} {ret : Ret} (hm : s.stage t = .cancelling m ret)
    (hstep : s.step P a = some s') : s'.pacer.rank ≤ s.pacer.rank := by
  cases a with
  | arrive => cases hstep; exact le_rfl
  | take u allocOk => obtain ⟨_, p, rx, hid, ⟨_, rfl⟩ | ⟨err, _, rfl⟩ | ⟨m, _, _, rfl⟩⟩ := take_cases hstep <;> exact le_rfl
  | dispatch u =>
    obtain ⟨m, _, ⟨_, rfl⟩ | ⟨_, handed, hid, _, ⟨_, rfl⟩ | ⟨cmd, data, _, rfl⟩⟩⟩ := dispatch_cases hstep <;> exact le_rfl
  | device b =>
    obtain ⟨d, _, ⟨_, rfl⟩ | ⟨u, m', hu, _, rfl⟩⟩ := device_cases hstep
    · exact le_rfl
    · unfold follow
      split <;> exact le_rfl
  | clear u => obtain ⟨m, ret, _, rfl⟩ := clear_cases hstep; exact le_rfl
  | disarm u => obtain ⟨m, ret, _, rfl⟩ := disarm_cases hstep; exact le_rfl
  | disarmed u => obtain ⟨m, ret, _, _, rfl⟩ := disarmed_cases hstep; exact le_rfl
  | respond u allocOk => obtain ⟨m, ret, _, rfl⟩ := respond_cases hstep; exact le_rfl
  | fire =>
    obtain ⟨_, harmed, rfl⟩ := fire_cases hstep
    rw [h.disarmed t m ret hm] at harmed
    cases harmed
  | look => obtain ⟨hp, ⟨_, _, _, _, rfl⟩ | ⟨_, rfl⟩⟩ := look_cases hstep <;> simp [hp, Pacer.rank]
  | pace => obtain ⟨_, _, hp, rfl⟩ := pace_cases hstep; rw [hp]; exact Nat.le_succ 1
  | rearm => obtain ⟨hp, rfl⟩ := rearm_cases hstep; exact Nat.zero_le _

theorem Sound.rank_other (h : s.Sound) (ha : a.worker ≠ some t) (hstep : s.step P a = some s') :
    s'.rank t ≤ s.rank t := by
  have hstage := stage_other ha hstep
  have hworker : (s'.device.worker t).rank = (s.device.worker t).rank := by
    by_cases hb : ∃ b, a = .device b
    · obtain ⟨b, rfl⟩ := hb
      exact Device.rank_other ha (device_step hstep)
    · rw [device_other (fun b h => hb ⟨b, h⟩) hstep]
  simp only [rank, hstage, hworker]
  cases hm : s.stage t with
  | cancelling m ret => exact Nat.add_le_add_left (h.pacer_rank hm hstep) 2
  | idle | complete | calling | inside | returned | cleared | answering => exact le_rfl

/-- The steps a worker in the call can take. -/
theorem exists_inside {m : Msg} (h : s.stage t = .inside m) (hwork : s.device.worker t ≠ .idle)
    (hhung : s.device.worker t ≠ .hung) : ∃ b d, b.worker = some t ∧ s.step P (.device b) = some (s.follow P t m b d) := by
  have hgo : ∀ b d, b.worker = some t → (∀ u msg allocOk, b ≠ .receive u msg allocOk) → s.device.step P b = some d →
      s.step P (.device b) = some (s.follow P t m b d) := by
    intro b d hb hne hd
    have hserves : s.serves t b = some m := by
      cases b with
      | receive u msg allocOk => exact absurd rfl (hne u msg allocOk)
      | _ => simp only [serves, h]
    simp only [step, hd, hb, hserves, Option.map_some]
  cases hw : s.device.worker t with
  | idle => exact absurd hw hwork
  | hung => exact absurd hw hhung
  | ready cmd =>
    exact ⟨.enter t .plain, s.device.enter P t .plain cmd, rfl, hgo _ _ rfl (by simp) (by simp only [Device.step, hw])⟩
  | waiting r first rest =>
    cases hdec : s.device.auth.decided with
    | true => exact ⟨.wake t, _, rfl, hgo _ _ rfl (by simp) (by simp only [Device.step, hw, hdec]; rfl)⟩
    | false => exact ⟨.expire t, _, rfl, hgo _ _ rfl (by simp) (by simp only [Device.step, hw, hdec]; rfl)⟩
  | awake r first timedOut rest =>
    exact ⟨.resume t .plain, s.device.resume P t .plain r first timedOut rest, rfl,
      hgo _ _ rfl (by simp) (by simp only [Device.step, hw])⟩

/-- The keepalive worker that runs can go on. -/
theorem exists_pacer (h : s.pacer ≠ .idle) :
    ∃ a s', s.step P a = some s' ∧ s'.stage = s.stage ∧ s'.pacer.rank < s.pacer.rank := by
  cases hp : s.pacer with
  | idle => exact absurd hp h
  | started =>
    by_cases hsee : s.device.auth.pending && !s.device.auth.decided
    · cases husb : s.authUsb with
      | none => exact ⟨.look, { s with pacer := .idle }, by simp only [step, hp, hsee, husb], rfl, by simp [Pacer.rank]⟩
      | some u =>
        exact ⟨.look, { s with pacer := .looked u s.authCid }, by simp only [step, hp, hsee, husb], rfl, by simp [Pacer.rank]⟩
    · refine ⟨.look, { s with pacer := .idle }, ?_, rfl, by simp [Pacer.rank]⟩
      simp only [Bool.not_eq_true] at hsee
      simp only [step, hp, hsee]
  | looked u cid =>
    refine ⟨.pace, { s with pacer := .sent }.note u (.sent ⟨cid, hidKeepalive, [keepaliveStatusProcessing]⟩),
      by simp only [step, hp], rfl, ?_⟩
    show Pacer.sent.rank < (Pacer.looked u cid).rank
    simp [Pacer.rank]
  | sent => exact ⟨.rearm, { s.arm with pacer := .idle }, by simp only [step, hp], rfl, (by decide : 0 < 1)⟩

theorem Sound.closer (h : s.Sound) (hbusy : s.stage t ≠ .idle) (hhung : s.device.worker t ≠ .hung) :
    ∃ a s', s.step P a = some s' ∧ s'.rank t < s.rank t := by
  -- a step of its own, unless it waits for the keepalive worker
  have hown : (∃ a s', a.worker = some t ∧ s.step P a = some s') → ∃ a s', s.step P a = some s' ∧ s'.rank t < s.rank t :=
    fun ⟨a, s', ha, hstep⟩ => ⟨a, s', hstep, h.rank_own hbusy ha hstep⟩
  cases hg : s.stage t with
  | idle => exact absurd hg hbusy
  | complete m =>
    refine hown ⟨.dispatch t, ?_⟩
    simp only [Link.step, hg]
    split
    · exact ⟨_, rfl, rfl⟩
    · split <;> exact ⟨_, rfl, rfl⟩
  | calling m =>
    have hidle := h.tied.idle (t := t) (by simp [hg])
    have hd : ∃ d, s.device.step P (.receive t m.data true) = some d := by
      simp only [Device.step, hidle]
      split <;> exact ⟨_, rfl⟩
    obtain ⟨d, hd⟩ := hd
    exact hown ⟨.device (.receive t m.data true), s.follow P t m (.receive t m.data true) d, rfl, by
      simp only [Link.step, hd, Action.worker, serves, hg, if_true, Option.map_some]⟩
  | inside m =>
    obtain ⟨b, d, hb, hstep⟩ := exists_inside (P := P) hg ((h.tied t).mpr ⟨m, hg⟩) hhung
    exact hown ⟨.device b, _, hb, hstep⟩
  | returned m ret => exact hown ⟨.clear t, _, rfl, by simp only [Link.step, hg]; rfl⟩
  | cleared m ret => exact hown ⟨.disarm t, _, rfl, by simp only [Link.step, hg]; rfl⟩
  | cancelling m ret =>
    by_cases hp : s.pacer = .idle
    · exact hown ⟨.disarmed t, _, rfl, by simp only [Link.step, hg, hp]; rfl⟩
    · obtain ⟨a, s', hstep, hstage, hlt⟩ := exists_pacer (P := P) hp
      refine ⟨a, s', hstep, ?_⟩
      simp only [rank, hstage, hg]
      omega
  | answering m ret => exact hown ⟨.respond t true, _, rfl, by simp only [Link.step, hg]; rfl⟩

theorem Sound.progresses (h : s.Sound) (P : Platform) (t : Transport) : s.Progresses P t where
  closer := h.closer
  own hbusy _ _ ha hstep := h.rank_own hbusy ha hstep
  others hbusy a _ hstep := by
    by_cases ha : a.worker = some t
    · exact (h.rank_own hbusy ha hstep).le
    · exact h.rank_other ha hstep

/-! ## Every run -/

theorem sound_of_run {ok : Link → LinkAction → Prop} {file : File} {clock : Nat} {as : List LinkAction}
    (h : Runs (step P) ok (boot file clock) as s) : s.Sound :=
  h.invariant (fun _ _ _ hI _ hstep => hI.step hstep) ⟨tied_boot file clock, fun _ _ _ h => by cases h⟩

/-- **One response is handed over for each message**, in whatever order the
two workers, the companion, the clock and the keepalive worker take their
steps: the log of a transport is a conversation, a message in it comes to its
response, and where no other transport is used no keepalive for a message
comes after its response. -/
theorem lockstep_of_runs (P : Platform) (file : File) (clock : Nat) (as : List LinkAction) (s : Link)
    (h : Runs (step P) (fun _ _ => True) (boot file clock) as s) (t : Transport) :
    Lockstep (fun _ _ => True) (s.log t) (s.stage t).exchange ∧ s.Progresses P t ∧
      ((∀ a ∈ as, ∀ u, a.worker = some u → u = t) →
        Lockstep (fun x cid => ∃ m, x.msg = some m ∧ m.cid = cid) (s.log t) (s.stage t).exchange) := by
  refine ⟨?_, (sound_of_run h).progresses P t, fun halone => ?_⟩
  · exact (h.invariant (I := Converses (fun _ _ => True) t)
      (fun _ _ _ hI _ hstep => hI.step (fun _ _ => trivial) hstep) (converses_boot ..)).log
  · have hI := (h.restrict halone).invariant
      (I := fun s => s.Converses (fun x cid => ∃ m, x.msg = some m ∧ m.cid = cid) t ∧ s.Alone t)
      (fun s a s' ⟨hc, ha⟩ hok hstep => ⟨hc.step (ha.looked t) hstep, ha.step hok.2 hstep⟩)
      ⟨converses_boot .., alone_boot ..⟩
    exact hI.1.log

/-! ## A run -/

/-- `authenticatorGetInfo` on channel 5. -/
def getInfoPacket : Packet := initPacket 5 hidCbor 1 [ctapGetInfo]

/-- It is received on USB and answered; `allocOk`: there is memory for the response. -/
def getInfoRun (allocOk : Bool) : List LinkAction :=
  [.arrive .usb getInfoPacket, .take .usb true, .dispatch .usb, .device (.receive .usb [ctapGetInfo] true),
    .device (.enter .usb .plain), .clear .usb, .disarm .usb, .disarmed .usb, .respond .usb allocOk]

/-- What its log says of it. -/
def getInfoLog (allocOk : Bool) (payload : List UInt8) : List LinkEvent :=
  [.sent (sendCborResult allocOk 5 (.ok payload)), .returned (.ok payload), .dispatched ⟨5, hidCbor, [ctapGetInfo]⟩,
    .packet getInfoPacket]

/-- The payload of the call that returned last. -/
def lastPayload (s : Link) : Option (List UInt8) :=
  match s.log .usb with
  | _ :: .returned (.ok payload) :: _ => some payload
  | _ => none

theorem exists_getInfo (allocOk : Bool) : ∃ s payload,
    Runs (step .volatile) (fun _ _ => True) (boot none 0) (getInfoRun allocOk) s ∧
      s.log .usb = getInfoLog allocOk payload := by
  have hexec : ((Runs.exec (step .volatile) (fun _ _ => true) (boot none 0) (getInfoRun allocOk)).bind fun s =>
      s.lastPayload.map fun payload => decide (s.log .usb = getInfoLog allocOk payload)) = some true := by
    cases allocOk <;> decide +kernel
  obtain ⟨s, hs, hlog⟩ := Option.bind_eq_some_iff.mp hexec
  obtain ⟨payload, _, hlog⟩ := Option.map_eq_some_iff.mp hlog
  exact ⟨s, payload, Runs.of_exec (fun _ _ _ => trivial) hs, of_decide_eq_true hlog⟩

theorem lockstep_getInfo : ∃ (s : Link) (payload : List UInt8), s.log .usb = getInfoLog true payload ∧
    Lockstep (fun x cid => ∃ m, x.msg = some m ∧ m.cid = cid) (s.log .usb) (s.stage .usb).exchange := by
  obtain ⟨s, payload, hrun, hlog⟩ := exists_getInfo true
  obtain ⟨_, _, halone⟩ := lockstep_of_runs .volatile none 0 (getInfoRun true) s hrun .usb
  refine ⟨s, payload, hlog, halone ?_⟩
  simp [getInfoRun, LinkAction.worker, Action.worker]

/-- Without memory the response to a call that returned 0 is no CBOR response. -/
theorem exists_not_cbor : ∃ (s : Link) (payload : List UInt8),
    Runs (step .volatile) (fun _ _ => True) (boot none 0) (getInfoRun false) s ∧
      s.log .usb = [.sent ⟨5, hidError, [hidErrOther]⟩, .returned (.ok payload),
        .dispatched ⟨5, hidCbor, [ctapGetInfo]⟩, .packet getInfoPacket] ∧
      ¬ Responds (.ok payload) ⟨5, hidError, [hidErrOther]⟩ := by
  obtain ⟨s, payload, hrun, hlog⟩ := exists_getInfo false
  exact ⟨s, payload, hrun, hlog, fun h => absurd h.cmd (show hidError ≠ hidCbor by decide)⟩

end Link

end AbkFido
