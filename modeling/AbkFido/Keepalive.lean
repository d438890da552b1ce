/-
Where the keepalives go.

The transport and the cid of the keepalives are one record, and so is the
work that sends them: a CBOR message that is dispatched, or finishes, on the
other transport takes them away from a request that waits. As long as none
does, and no wait ends between the keepalive worker's look at the record and
its frame (`Undisturbed`), every keepalive goes to a request that is waiting
and the work stays armed for it (`routed_of_undisturbed`).
-/
import AbkFido.Lockstep

namespace AbkFido

variable {P : Platform}

/-! ## Prompts -/

namespace Device

/-- What a step of the device does to the prompts, as the keepalive worker sees them. -/
inductive PromptStep (P : Platform) (d : Device) : Action → Device → Prop
  | still {a d'} : d'.auth.pending = d.auth.pending → d'.auth.decided = d.auth.decided →
      d'.auth.requestId = d.auth.requestId → (∀ t, (d'.worker t).prompt = (d.worker t).prompt) → PromptStep P d a d'
  | opened {t io d'} : d.reply P (.enter t io) = none → d'.auth.pending = true → d'.auth.decided = false →
      (d.worker t).prompt = none → (d'.worker t).prompt = some (d'.auth.requestId, none) →
      (∀ t', t' ≠ t → (d'.worker t').prompt = (d.worker t').prompt) → PromptStep P d (.enter t io) d'
  | decided {allow id d'} : (authDecideLocked allow id d.auth).1 = .ok () → d'.auth.decided = true →
      d'.auth.requestId = d.auth.requestId → (∀ t, d'.worker t = (d.worker t).hear d.auth.requestId allow) →
      PromptStep P d (.decide allow id) d'
  | ended {t io d'} : d'.auth.pending = false → d'.auth.requestId = d.auth.requestId → (d'.worker t).prompt = none →
      (∀ t', t' ≠ t → (d'.worker t').prompt = (d.worker t').prompt) → PromptStep P d (.resume t io) d'

variable {d d' : Device} {a : Action}

/-- A worker that takes a step without opening or ending a prompt. -/
theorem PromptStep.of_setWorker {t : Transport} {w : Worker} (h : w.prompt = (d.worker t).prompt)
    (hauth : d'.auth = d.auth) (hworker : d'.worker = Function.update d.worker t w) : PromptStep P d a d' := by
  refine .still (by rw [hauth]) (by rw [hauth]) (by rw [hauth]) fun u => ?_
  rw [hworker]
  by_cases hu : u = t
  · rw [hu, Function.update_self, h]
  · rw [Function.update_of_ne hu]

theorem authEnd_pending (now : UInt64) (timedOut : Bool) (a : Auth) :
    (authEndLocked P now (.ofTimeout timedOut) a).2.pending = false ∧
      (authEndLocked P now (.ofTimeout timedOut) a).2.requestId = a.requestId := by
  cases timedOut with
  | true => exact ⟨rfl, rfl⟩
  | false =>
    cases hallowed : a.allowed <;> simp [authEndLocked, WaitRet.ofTimeout, hallowed, authStartCooldownLocked]

theorem prompt_step (h : d.step P a = some d') : PromptStep P d a d' := by
  cases a with
  | tick | blobRead | blobWrite | restore | persist | pinReset =>
    cases h
    exact .still rfl rfl rfl fun _ => rfl
  | receive t msg allocOk =>
    simp only [step] at h
    split at h
    · next hidle =>
      split at h <;> cases h
      · exact .of_setWorker (t := t) (w := .hung) (by rw [hidle]; rfl) rfl rfl
      · exact .still rfl rfl rfl fun _ => rfl
      · exact .of_setWorker (t := t) (by rw [hidle]; rfl) rfl rfl
    · cases h
  | enter t io =>
    simp only [step] at h
    split at h <;> cases h
    next cmd hw =>
      have hnone : (d.worker t).prompt = none := by rw [hw]; rfl
      rcases enter_reply (P := P) hw io with ⟨_, c, _, _, heq⟩ | ⟨ask, rest, c, _, hcases⟩
      · rw [heq]
        exact .of_setWorker (t := t) (w := .idle) hnone.symm rfl rfl
      rcases hcases with ⟨_, _, heq⟩ | ⟨_, _, heq⟩ | ⟨_, hreply, heq⟩
      · rw [heq]
        exact .of_setWorker (t := t) (w := .idle) hnone.symm rfl rfl
      · rw [heq, conclude_eq]
        refine .still rfl rfl rfl fun u => ?_
        by_cases hu : u = t
        · subst hu
          simp [hw, Worker.prompt]
        · simp [Function.update_of_ne hu]
      · refine .opened hreply ?_ ?_ hnone ?_ fun u hu => ?_
        · rw [heq]; rfl
        · rw [heq]; rfl
        · rw [heq, setWorker_self]; rfl
        · rw [heq, setWorker_of_ne hu]; rfl
  | wake t | expire t =>
    simp only [step] at h
    split at h
    · next hw =>
      split at h <;> cases h
      exact .of_setWorker (t := t) (by rw [hw]; rfl) rfl rfl
    · cases h
  | resume t io =>
    simp only [step] at h
    split at h <;> cases h
    next r first timedOut rest hw =>
      obtain ⟨a, ha, hcases⟩ := resume_cases (P := P) t io r first timedOut rest d
      have hauth : (d.resume P t io r first timedOut rest).auth = a := by
        rcases hcases with ⟨_, heq⟩ | ⟨_, heq⟩
        · rw [heq, conclude_eq]; rfl
        · rw [heq]; rfl
      obtain ⟨hpending, hid⟩ := authEnd_pending (P := P) d.jiffies timedOut d.auth
      rw [ha] at hpending hid
      refine .ended (by rw [hauth, hpending]) (by rw [hauth, hid]) ?_ fun u hu => ?_
      · rcases hcases with ⟨_, heq⟩ | ⟨_, heq⟩
        · rw [heq, worker_conclude]; rfl
        · rw [heq, setWorker_self]; rfl
      · rcases hcases with ⟨_, heq⟩ | ⟨_, heq⟩
        · rw [heq, worker_conclude_of_ne hu]; rfl
        · rw [heq, setWorker_of_ne hu]; rfl
  | decide allow id =>
    cases h
    rcases authDecide_cases allow id d with ⟨_, heq⟩ | ⟨hok, heq⟩
    · rw [heq]
      exact .still rfl rfl rfl fun _ => rfl
    · rw [heq]
      exact .decided hok rfl rfl fun _ => rfl

end Device

/-! ## Waiting for approval -/

namespace Link

variable {s s' : Link} {a : LinkAction} {t : Transport} {m : Msg}

/-- The request `m` of `t` waits for its approval: its prompt is open and no decision was accepted for it. -/
def Waits (t : Transport) (m : Msg) (s : Link) : Prop :=
  s.stage t = .inside m ∧ ∃ r, (s.device.worker t).prompt = some (r, none)

/-- The keepalive worker is armed for the request, and its next run arms it again. -/
structure ArmedFor (t : Transport) (m : Msg) (s : Link) : Prop where
  usb : s.authUsb = some t
  cid : s.authCid = m.cid
  pending : s.device.auth.pending = true
  undecided : s.device.auth.decided = false
  work : s.armed = true ∨ s.pacer ≠ .idle
  kept : s.disarming = false

/-- Every request that waits has the keepalive worker armed for it. -/
def Routed (s : Link) : Prop := ∀ t m, s.Waits t m → s.ArmedFor t m

/-- No request of another transport waits. -/
def OthersFree (t : Transport) (s : Link) : Prop := ∀ t' m, t' ≠ t → ¬ s.Waits t' m

/-- What disturbs no keepalive: a CBOR message is dispatched, finishes or ends
its wait while no request of the other transport waits; a prompt opens while
the record still names its request and no work is being cancelled; and a wait
does not end, by a decision or the timeout, between the keepalive worker's look
at the record and its frame. -/
def Undisturbed (P : Platform) (s : Link) : LinkAction → Prop
  | .dispatch t => ∀ m, s.stage t = .complete m → m.cmd = hidCbor → s.OthersFree t
  | .clear t | .disarm t => s.OthersFree t
  | .device (.resume t _) => s.OthersFree t ∧ ∀ t' cid m, s.pacer = .looked t' cid → ¬ s.Waits t m
  | .device (.enter t io) => s.device.reply P (.enter t io) = none →
      s.authUsb = some t ∧ (∀ m, s.stage t = .inside m → s.authCid = m.cid) ∧ s.disarming = false
  | .device (.decide allow id) => (authDecideLocked allow id s.device.auth).1 = .ok () →
      ∀ t cid, s.pacer ≠ .looked t cid
  | _ => True

/-! ## What a run keeps -/

/-- The record, the prompts and the keepalive worker as a run keeps them. -/
structure Paced (s : Link) : Prop where
  tied : s.Tied
  routed : s.Routed
  looked : ∀ t cid, s.pacer = .looked t cid → ∃ m, s.Waits t m ∧ m.cid = cid
  pending : s.device.auth.pending = true → s.device.auth.decided = false → ∃ t m, s.Waits t m
  request : ∀ t r, (s.device.worker t).prompt = some (r, none) → r = s.device.auth.requestId

theorem paced_boot (file : File) (clock : Nat) : (boot file clock).Paced where
  tied := tied_boot file clock
  routed _ _ h := by cases h.1
  looked _ _ h := by cases h
  pending h := by cases h
  request _ _ h := by cases h

theorem Paced.waits_of_prompt (h : s.Paced) {r : UInt32} (hr : (s.device.worker t).prompt = some (r, none)) :
    ∃ m, s.Waits t m := by
  have hwork : s.device.worker t ≠ .idle := fun h0 => by
    rw [h0] at hr
    cases hr
  obtain ⟨m, hm⟩ := (h.tied t).mp hwork
  exact ⟨m, hm, r, hr⟩

/-- A step after which no request waits, or is believed to. -/
theorem paced_of_none (htied : s'.Tied) (hno : ∀ t m, ¬ s'.Waits t m)
    (hpacer : ∀ t cid, s'.pacer ≠ .looked t cid)
    (hpending : s'.device.auth.pending = true → s'.device.auth.decided = true)
    (hprompt : ∀ t r, (s'.device.worker t).prompt ≠ some (r, none)) : s'.Paced where
  tied := htied
  routed t m hw := absurd hw (hno t m)
  looked t cid hl := absurd hl (hpacer t cid)
  pending hp hd := by
    rw [hpending hp] at hd
    cases hd
  request t r hr := absurd hr (hprompt t r)

/-- A step that leaves the device alone, and every request waiting that did. -/
theorem Paced.keeps (h : s.Paced) (htied : s'.Tied) (hdevice : s'.device = s.device)
    (hstage : ∀ t m, s'.stage t = .inside m ↔ s.stage t = .inside m)
    (hrec : ∀ t m, s.Waits t m → s'.authUsb = s.authUsb ∧ s'.authCid = s.authCid ∧
      (s'.armed = true ∨ s'.pacer ≠ .idle) ∧ s'.disarming = false)
    (hlooked : ∀ t cid, s'.pacer = .looked t cid → ∃ m, s.Waits t m ∧ m.cid = cid) : s'.Paced := by
  have hwaits : ∀ t m, s'.Waits t m ↔ s.Waits t m := fun t m => by
    simp only [Waits, hstage, hdevice]
  refine ⟨htied, fun t m hw => ?_, fun t cid hl => ?_, ?_, ?_⟩
  · have hw' := (hwaits t m).mp hw
    have harmed := h.routed t m hw'
    obtain ⟨husb, hcid, hwork, hkept⟩ := hrec t m hw'
    exact ⟨husb.trans harmed.usb, hcid.trans harmed.cid, by rw [hdevice]; exact harmed.pending,
      by rw [hdevice]; exact harmed.undecided, hwork, hkept⟩
  · obtain ⟨m, hw, hcid⟩ := hlooked t cid hl
    exact ⟨m, (hwaits t m).mpr hw, hcid⟩
  · rw [hdevice]
    intro hp hd
    obtain ⟨t, m, hw⟩ := h.pending hp hd
    exact ⟨t, m, (hwaits t m).mpr hw⟩
  · rw [hdevice]
    exact h.request

theorem isCancelling_of (h : s.disarming = false) (t : Transport) : (s.stage t).isCancelling = false := by
  rw [disarming, Bool.or_eq_false_iff] at h
  cases t
  · exact h.1
  · exact h.2

theorem disarming_eq_false (h : ∀ t, (s.stage t).isCancelling = false) : s.disarming = false := by
  rw [disarming, h .usb, h .ctap]
  rfl

/-- The step of a worker outside the call changes no message in it. -/
theorem inside_iff {u : Transport} (hold : ∀ m, s.stage u ≠ .inside m) (hnew : ∀ m, s'.stage u ≠ .inside m)
    (hother : ∀ t, t ≠ u → s'.stage t = s.stage t) (t : Transport) (m : Msg) :
    s'.stage t = .inside m ↔ s.stage t = .inside m := by
  by_cases ht : t = u
  · rw [ht]
    exact ⟨fun h => absurd h (hnew m), fun h => absurd h (hold m)⟩
  · rw [hother t ht]

/-- Nor does it begin to cancel the work. -/
theorem disarming_other {u : Transport} (hnew : (s'.stage u).isCancelling = false)
    (hother : ∀ t, t ≠ u → s'.stage t = s.stage t) (h : s.disarming = false) : s'.disarming = false := by
  refine disarming_eq_false fun t => ?_
  by_cases ht : t = u
  · rw [ht, hnew]
  · rw [hother t ht]
    exact isCancelling_of h t

/-- A worker's own step outside the call that leaves the record and the work alone. -/
theorem Paced.keeps_own (h : s.Paced) {u : Transport} (htied : s'.Tied) (hdevice : s'.device = s.device)
    (hold : ∀ m, s.stage u ≠ .inside m) (hnew : ∀ m, s'.stage u ≠ .inside m)
    (hcancel : (s'.stage u).isCancelling = false) (hother : ∀ t, t ≠ u → s'.stage t = s.stage t)
    (husb : s'.authUsb = s.authUsb) (hcid : s'.authCid = s.authCid) (harmed : s'.armed = s.armed)
    (hpacer : s'.pacer = s.pacer) : s'.Paced := by
  refine h.keeps htied hdevice (inside_iff hold hnew hother) (fun t m hw => ⟨husb, hcid, ?_, ?_⟩) ?_
  · rw [harmed, hpacer]
    exact (h.routed t m hw).work
  · exact disarming_other hcancel hother (h.routed t m hw).kept
  · rw [hpacer]
    exact h.looked

/-- A worker's own step outside the call while no request waits. -/
theorem Paced.keeps_free (h : s.Paced) {u : Transport} (htied : s'.Tied) (hdevice : s'.device = s.device)
    (hold : ∀ m, s.stage u ≠ .inside m) (hnew : ∀ m, s'.stage u ≠ .inside m)
    (hother : ∀ t, t ≠ u → s'.stage t = s.stage t) (hfree : s.OthersFree u) (hpacer : s'.pacer = s.pacer) :
    s'.Paced := by
  refine h.keeps htied hdevice (inside_iff hold hnew hother) (fun t m hw => ?_) (by rw [hpacer]; exact h.looked)
  by_cases ht : t = u
  · exact absurd (ht ▸ hw.1) (hold m)
  · exact absurd hw (hfree t m ht)

theorem Paced.look (h : s.Paced) (hstep : s.step P .look = some s') : s'.Paced := by
  have htied := h.tied.step hstep
  obtain ⟨hstarted, hcases⟩ := look_cases hstep
  rcases hcases with ⟨u, hpending, hdecided, husb, rfl⟩ | ⟨hnot, rfl⟩
  · refine h.keeps htied rfl (fun _ _ => Iff.rfl) (fun t m hw => ⟨rfl, rfl, .inr ?_, (h.routed t m hw).kept⟩) ?_
    · simp
    · intro t cid hl
      cases hl
      obtain ⟨t', m, hw⟩ := h.pending hpending hdecided
      have harmed := h.routed t' m hw
      cases harmed.usb.symm.trans husb
      exact ⟨m, hw, harmed.cid.symm⟩
  · refine h.keeps htied rfl (fun _ _ => Iff.rfl) (fun t m hw => ?_) (fun _ _ hl => by cases hl)
    have harmed := h.routed t m hw
    exact absurd ⟨harmed.pending, harmed.undecided, by rw [harmed.usb]; rfl⟩ hnot

theorem Paced.fire_pace_rearm (h : s.Paced) (ha : a = .fire ∨ a = .pace ∨ a = .rearm) (hstep : s.step P a = some s') :
    s'.Paced := by
  have htied := h.tied.step hstep
  rcases ha with rfl | rfl | rfl
  · obtain ⟨_, _, rfl⟩ := fire_cases hstep
    exact h.keeps htied rfl (fun _ _ => Iff.rfl) (fun t m hw => ⟨rfl, rfl, .inr (by simp), (h.routed t m hw).kept⟩)
      (fun _ _ hl => by cases hl)
  · obtain ⟨u, cid, _, rfl⟩ := pace_cases hstep
    exact h.keeps htied rfl (fun _ _ => Iff.rfl)
      (fun t m hw => ⟨rfl, rfl, .inr (by simp [note]), (h.routed t m hw).kept⟩) (fun _ _ hl => by cases hl)
  · obtain ⟨_, rfl⟩ := rearm_cases hstep
    refine h.keeps htied rfl (fun _ _ => Iff.rfl) (fun t m hw => ?_) (fun _ _ hl => by cases hl)
    have hkept := (h.routed t m hw).kept
    exact ⟨rfl, rfl, .inl (by simp [arm, hkept]), hkept⟩

/-- The message of a worker whose prompt is open after its step is the one it served. -/
theorem waits_own {b : Action} {d : Device} {m' : Msg} {r : UInt32} (htied : s.Tied) (hserves : s.serves t b = some m)
    (hin : (s.follow P t m b d).stage t = .inside m') (hr : (s.device.worker t).prompt = some (r, none)) :
    s.Waits t m' := by
  have hwork : s.device.worker t ≠ .idle := fun h0 => by
    rw [h0] at hr
    cases hr
  obtain ⟨m'', hm''⟩ := (htied t).mp hwork
  rw [follow_stage, Function.update_self] at hin
  split at hin <;> cases hin
  rcases serves_cases hserves with ⟨hcall, _⟩ | ⟨hin, _⟩
  · rw [hcall] at hm''
    cases hm''
  · exact ⟨hin, r, hr⟩

theorem follow_authUsb (t : Transport) (m : Msg) (b : Action) (s : Link) (d : Device) :
    (s.follow P t m b d).authUsb = s.authUsb := by
  unfold follow
  split <;> rfl

theorem follow_authCid (t : Transport) (m : Msg) (b : Action) (s : Link) (d : Device) :
    (s.follow P t m b d).authCid = s.authCid := by
  unfold follow
  split <;> rfl

theorem follow_pacer (t : Transport) (m : Msg) (b : Action) (s : Link) (d : Device) :
    (s.follow P t m b d).pacer = s.pacer := by
  unfold follow
  split <;> rfl

theorem follow_stage_of_ne {u : Transport} (h : u ≠ t) (m : Msg) (b : Action) (s : Link) (d : Device) :
    (s.follow P t m b d).stage u = s.stage u := by
  rw [follow_stage, Function.update_of_ne h]

theorem follow_disarming (h : s.disarming = false) (t : Transport) (m : Msg) (b : Action) (d : Device) :
    (s.follow P t m b d).disarming = false := by
  refine disarming_other (u := t) ?_ (fun u hu => follow_stage_of_ne hu ..) h
  rw [follow_stage, Function.update_self]
  split <;> rfl

/-- The work stays armed in a call, but for one that is being cancelled. -/
theorem follow_armed (h : s.armed = true) (t : Transport) (m : Msg) (b : Action) (d : Device) :
    (s.follow P t m b d).armed = true := by
  unfold follow
  split
  · exact h
  · exact h
  · rw [armed_arm]
    exact Bool.or_eq_true_iff.mpr (.inl h)
  · exact h

/-- A step of the device that changes no prompt and no flag. -/
theorem Paced.still (h : s.Paced) (htied : s'.Tied) (hpending : s'.device.auth.pending = s.device.auth.pending)
    (hdecided : s'.device.auth.decided = s.device.auth.decided)
    (hid : s'.device.auth.requestId = s.device.auth.requestId)
    (hprompt : ∀ t, (s'.device.worker t).prompt = (s.device.worker t).prompt)
    (hback : ∀ t m, s'.Waits t m → s.Waits t m) (husb : s'.authUsb = s.authUsb) (hcid : s'.authCid = s.authCid)
    (harmed : s.armed = true → s'.armed = true) (hpacer : s'.pacer = s.pacer)
    (hkept : s.disarming = false → s'.disarming = false) : s'.Paced := by
  -- who waited before waits still: its prompt is open, and its message can be no other
  have hforth : ∀ t m, s.Waits t m → s'.Waits t m := by
    rintro t m ⟨hm, r, hr⟩
    have hwork : s'.device.worker t ≠ .idle := fun h0 => by
      rw [← hprompt, h0] at hr
      cases hr
    obtain ⟨m', hm'⟩ := (htied t).mp hwork
    have hw' : s'.Waits t m' := ⟨hm', r, by rw [hprompt]; exact hr⟩
    have hm'' := (hback t m' hw').1
    rw [hm] at hm''
    cases hm''
    exact hw'
  refine ⟨htied, fun t m hw => ?_, fun t cid hl => ?_, fun hp hd => ?_, fun t r hr => ?_⟩
  · have hold := h.routed t m (hback t m hw)
    refine ⟨husb.trans hold.usb, hcid.trans hold.cid, hpending.trans hold.pending, hdecided.trans hold.undecided, ?_,
      hkept hold.kept⟩
    rw [hpacer]
    exact hold.work.imp_left harmed
  · obtain ⟨m, hw, hc⟩ := h.looked t cid (hpacer ▸ hl)
    exact ⟨m, hforth t m hw, hc⟩
  · obtain ⟨t, m, hw⟩ := h.pending (hpending ▸ hp) (hdecided ▸ hd)
    exact ⟨t, m, hforth t m hw⟩
  · rw [hid]
    exact h.request t r (hprompt t ▸ hr)

/-- A step of the companion or the clock. -/
theorem Paced.free (h : s.Paced) {b : Action} (hb : b.worker = none)
    (hok : s.Undisturbed P (.device b)) (hstep : s.step P (.device b) = some s') : s'.Paced := by
  have htied := h.tied.step hstep
  have hd := device_step hstep
  obtain ⟨d, hd', ⟨_, rfl⟩ | ⟨u, m, hu, _, _⟩⟩ := device_cases hstep
  · cases Device.prompt_step hd with
    | still hpending hdecided hid hprompt =>
      refine h.still htied hpending hdecided hid hprompt (fun t m hw => ⟨hw.1, ?_⟩) rfl rfl (fun h => h) rfl fun h => h
      obtain ⟨r, hr⟩ := hw.2
      exact ⟨r, (hprompt t).symm.trans hr⟩
    | opened | ended => cases hb
    | decided hdec hdecided hid hhear =>
      -- the one request that waited has its decision
      have hprompt : ∀ t r, (d.worker t).prompt ≠ some (r, none) := by
        intro t r hr
        rw [hhear] at hr
        obtain ⟨first, hfirst⟩ := Worker.prompt_of_hear _ hr
        cases first with
        | none =>
          have hid := h.request t r hfirst
          cases hw : s.device.worker t <;> rw [hw] at hr hfirst <;> cases hfirst <;> simp [Worker.hear, Worker.prompt, hid] at hr
        | some first =>
          cases hw : s.device.worker t <;> rw [hw] at hr hfirst <;> cases hfirst <;>
            simp only [Worker.hear, Worker.prompt] at hr <;> split at hr <;> simp at hr
      refine paced_of_none htied (fun t m hw => ?_) (fun t cid => hok hdec t cid) (fun _ => hdecided) hprompt
      obtain ⟨r, hr⟩ := hw.2
      exact hprompt t r hr
  · rw [hb] at hu
    cases hu

/-- A step of a worker in `abk_fido_cbor_dispatch`. -/
theorem Paced.call (h : s.Paced) {b : Action} {d : Device} (hb : b.worker = some t) (hserves : s.serves t b = some m)
    (hd : s.device.step P b = some d) (hok : s.Undisturbed P (.device b)) (htied : (s.follow P t m b d).Tied) :
    (s.follow P t m b d).Paced := by
  have hdevice := follow_device (P := P) t m b s d
  cases Device.prompt_step hd with
  | still hpending hdecided hid hprompt =>
    refine h.still htied (by rw [hdevice, hpending]) (by rw [hdevice, hdecided]) (by rw [hdevice, hid])
      (by rw [hdevice]; exact hprompt) (fun u m' hw => ?_) (follow_authUsb ..) (follow_authCid ..)
      (fun harmed => follow_armed harmed ..) (follow_pacer ..) fun hkept => follow_disarming hkept ..
    obtain ⟨hin, r, hr⟩ := hw
    rw [hdevice, hprompt] at hr
    by_cases hu : u = t
    · subst hu
      exact waits_own h.tied hserves hin hr
    · rw [follow_stage_of_ne hu] at hin
      exact ⟨hin, r, hr⟩
  | decided => cases hb
  | @opened u io d hreply hpending hdecided hnone hopen hother =>
    cases hb
    obtain ⟨husb, hcid, hkept⟩ := hok hreply
    -- no one else waits: the record names this request
    have hfree : ∀ u m', ¬ s.Waits u m' := by
      intro u m' hw
      have hu := husb.symm.trans (h.routed u m' hw).usb
      cases hu
      obtain ⟨r, hr⟩ := hw.2
      rw [hnone] at hr
      cases hr
    have hin : s.stage t = .inside m := by
      rcases serves_cases hserves with ⟨_, _, _, heq⟩ | ⟨hin, _⟩
      · cases heq
      · exact hin
    have hstage : (s.follow P t m (.enter t io) d).stage t = .inside m := by
      rw [follow_stage, hreply, Function.update_self]
    have hwaits : ∀ u m', (s.follow P t m (.enter t io) d).Waits u m' → u = t ∧ m' = m := by
      rintro u m' ⟨hin', r, hr⟩
      by_cases hu : u = t
      · rw [hu, hstage] at hin'
        cases hin'
        exact ⟨hu, rfl⟩
      · rw [follow_stage_of_ne hu] at hin'
        rw [hdevice, hother u hu] at hr
        exact absurd ⟨hin', r, hr⟩ (hfree u m')
    refine ⟨htied, fun u m' hw => ?_, fun u cid hl => ?_, fun _ _ => ?_, fun u r hr => ?_⟩
    · obtain ⟨rfl, rfl⟩ := hwaits u m' hw
      refine ⟨(follow_authUsb ..).trans husb, (follow_authCid ..).trans (hcid _ hin), by rw [hdevice, hpending],
        by rw [hdevice, hdecided], .inl ?_, follow_disarming hkept ..⟩
      have harm : (({ s with device := d }.setStage u (.inside m')).arm).armed = true := by
        rw [armed_arm]
        have hkept' : ({ s with device := d }.setStage u (.inside m')).disarming = false :=
          disarming_other (u := u) (by rw [setStage_self]; rfl) (fun v hv => setStage_of_ne hv ..) hkept
        rw [hkept', Bool.not_false, Bool.or_true]
      unfold follow
      rw [hreply]
      exact harm
    · rw [follow_pacer] at hl
      obtain ⟨m', hw, _⟩ := h.looked u cid hl
      exact absurd hw (hfree u m')
    · exact ⟨t, m, hstage, _, by rw [hdevice, hopen]⟩
    · rw [hdevice] at hr ⊢
      by_cases hu : u = t
      · rw [hu, hopen] at hr
        cases hr
        rfl
      · rw [hother u hu] at hr
        obtain ⟨m', hw⟩ := h.waits_of_prompt hr
        exact absurd hw (hfree u m')
  | @ended u io d hpending _ hnone hother =>
    cases hb
    obtain ⟨hfree, hlook⟩ := hok
    have hprompt : ∀ u r, ((s.follow P t m (.resume t io) d).device.worker u).prompt ≠ some (r, none) := by
      intro u r hr
      rw [hdevice] at hr
      by_cases hu : u = t
      · rw [hu, hnone] at hr
        cases hr
      · rw [hother u hu] at hr
        obtain ⟨m', hw⟩ := h.waits_of_prompt hr
        exact hfree u m' hu hw
    refine paced_of_none htied (fun u m' hw => ?_) (fun u cid hl => ?_) (fun hp => ?_) hprompt
    · obtain ⟨r, hr⟩ := hw.2
      exact hprompt u r hr
    · rw [follow_pacer] at hl
      obtain ⟨m', hw, _⟩ := h.looked u cid hl
      by_cases hu : u = t
      · exact hlook u cid m' hl (hu ▸ hw)
      · exact hfree u m' hu hw
    · rw [hdevice, hpending] at hp
      cases hp

theorem Paced.step (h : s.Paced) (hok : s.Undisturbed P a) (hstep : s.step P a = some s') : s'.Paced := by
  have htied := h.tied.step hstep
  cases a with
  | arrive t p =>
    cases hstep
    exact h.keeps htied rfl (fun _ _ => Iff.rfl)
      (fun t m hw => ⟨rfl, rfl, (h.routed t m hw).work, (h.routed t m hw).kept⟩) h.looked
  | take t allocOk =>
    have hother := fun u (hu : u ≠ t) => stage_of_ne rfl hu hstep
    obtain ⟨hidle, p, rx, hid, ⟨_, rfl⟩ | ⟨err, _, rfl⟩ | ⟨m, _, _, rfl⟩⟩ := take_cases hstep
    · exact h.keeps_own (u := t) htied rfl (by simp [hidle]) (by simp [hidle]) (by simp [hidle, Stage.isCancelling])
        hother rfl rfl rfl rfl
    · exact h.keeps_own (u := t) htied rfl (by simp [hidle]) (by simp [hidle]) (by simp [hidle, Stage.isCancelling])
        hother rfl rfl rfl rfl
    · exact h.keeps_own (u := t) htied rfl (by simp [hidle]) (by simp) (by simp [Stage.isCancelling]) hother rfl rfl rfl
        rfl
  | dispatch t =>
    have hother := fun u (hu : u ≠ t) => stage_of_ne rfl hu hstep
    obtain ⟨m, hm, ⟨hcbor, rfl⟩ | ⟨_, handed, hid, _, ⟨_, rfl⟩ | ⟨cmd, data, _, rfl⟩⟩⟩ := dispatch_cases hstep
    · exact h.keeps_free (u := t) htied rfl (by simp [hm]) (by simp) hother (hok m hm hcbor) rfl
    · exact h.keeps_own (u := t) htied rfl (by simp [hm]) (by simp) (by simp [Stage.isCancelling]) hother rfl rfl rfl rfl
    · exact h.keeps_own (u := t) htied rfl (by simp [hm]) (by simp) (by simp [Stage.isCancelling]) hother rfl rfl rfl rfl
  | device b =>
    obtain ⟨d, hd, ⟨hb, _⟩ | ⟨t, m, hb, hserves, rfl⟩⟩ := device_cases hstep
    · exact h.free hb hok hstep
    · exact h.call hb hserves hd hok htied
  | clear t =>
    have hother := fun u (hu : u ≠ t) => stage_of_ne rfl hu hstep
    obtain ⟨m, ret, hm, rfl⟩ := clear_cases hstep
    exact h.keeps_free (u := t) htied rfl (by simp [hm]) (by simp) hother hok rfl
  | disarm t =>
    have hother := fun u (hu : u ≠ t) => stage_of_ne rfl hu hstep
    obtain ⟨m, ret, hm, rfl⟩ := disarm_cases hstep
    exact h.keeps_free (u := t) htied rfl (by simp [hm]) (by simp) hother hok rfl
  | disarmed t =>
    have hother := fun u (hu : u ≠ t) => stage_of_ne rfl hu hstep
    obtain ⟨m, ret, hm, _, rfl⟩ := disarmed_cases hstep
    exact h.keeps_own (u := t) htied rfl (by simp [hm]) (by simp) (by simp [Stage.isCancelling]) hother rfl rfl rfl rfl
  | respond t allocOk =>
    have hother := fun u (hu : u ≠ t) => stage_of_ne rfl hu hstep
    obtain ⟨m, ret, hm, rfl⟩ := respond_cases hstep
    exact h.keeps_own (u := t) htied rfl (by simp [hm]) (by simp) (by simp [Stage.isCancelling]) hother rfl rfl rfl rfl
  | look => exact h.look hstep
  | fire => exact h.fire_pace_rearm (.inl rfl) hstep
  | pace => exact h.fire_pace_rearm (.inr (.inl rfl)) hstep
  | rearm => exact h.fire_pace_rearm (.inr (.inr rfl)) hstep

/-- Every keepalive is a frame of the keepalive worker, to the transport and the cid it has seen. -/
theorem looked_of_keepalive {f : Msg} (hstep : s.step P a = some s') (hlog : s'.log t = .sent f :: s.log t)
    (hf : f.cmd = hidKeepalive) : s.pacer = .looked t f.cid := by
  have hnothing : s'.log t ≠ s.log t := fun heq => List.cons_ne_self _ _ (hlog.symm.trans heq)
  by_cases hpace : a = .pace
  · subst hpace
    obtain ⟨u, cid, hlooked, rfl⟩ := pace_cases hstep
    by_cases hu : t = u
    · subst hu
      rw [note_self, List.cons.injEq] at hlog
      cases hlog.1
      exact hlooked
    · exact absurd (note_of_ne hu ..) hnothing
  by_cases ha : a.worker = some t
  · exfalso
    cases a with
    | arrive | fire | look | pace | rearm => cases ha
    | take u allocOk =>
      cases ha
      obtain ⟨_, p, rx, hid, ⟨_, rfl⟩ | ⟨err, _, rfl⟩ | ⟨m, _, _, rfl⟩⟩ := take_cases hstep
      · rw [note_self] at hlog
        cases hlog
      · rw [note_self, note_self] at hlog
        exact absurd (List.cons.inj hlog).2 (List.cons_ne_self _ _)
      · rw [note_self] at hlog
        cases hlog
    | dispatch u =>
      cases ha
      obtain ⟨m, _, ⟨_, rfl⟩ | ⟨hcbor, handed, hid, _, ⟨_, rfl⟩ | ⟨cmd, data, hanswer, rfl⟩⟩⟩ := dispatch_cases hstep
      · exact hnothing rfl
      · exact hnothing rfl
      · rw [note_self] at hlog
        cases (List.cons.inj hlog).1
        rcases answer_final handed hcbor with ⟨hnone, _⟩ | ⟨cmd', data', hsome, _, hkeep⟩
        · rw [hanswer] at hnone
          cases hnone
        · cases hanswer.symm.trans hsome
          exact hkeep hf
    | device b =>
      obtain ⟨d, _, ⟨hb, _⟩ | ⟨u, m, hu, _, rfl⟩⟩ := device_cases hstep
      · rw [show b.worker = some t from ha] at hb
        cases hb
      · cases (show b.worker = some t from ha).symm.trans hu
        rw [follow_log] at hlog
        split at hlog
        · rw [Function.update_self] at hlog
          cases hlog
        · exact List.cons_ne_self _ _ hlog.symm
    | clear u => obtain ⟨m, ret, _, rfl⟩ := clear_cases hstep; exact hnothing rfl
    | disarm u => obtain ⟨m, ret, _, rfl⟩ := disarm_cases hstep; exact hnothing rfl
    | disarmed u => obtain ⟨m, ret, _, _, rfl⟩ := disarmed_cases hstep; exact hnothing rfl
    | respond u allocOk =>
      cases ha
      obtain ⟨m, ret, _, rfl⟩ := respond_cases hstep
      rw [note_self] at hlog
      cases (List.cons.inj hlog).1
      cases allocOk
      · exact absurd hf (show hidError ≠ hidKeepalive by decide)
      · exact absurd hf (show hidCbor ≠ hidKeepalive by decide)
  · exact absurd (log_other ha hpace hstep) hnothing

/-- **Keepalives go to who waits**: in a run without disturbance every
keepalive is queued on the transport and the cid of a request that is waiting
for its approval, and the keepalive worker stays armed for every request that
waits. -/
theorem routed_of_undisturbed (P : Platform) (file : File) (clock : Nat) (as : List LinkAction) (s : Link)
    (h : Runs (step P) (Undisturbed P) (boot file clock) as s) :
    s.Routed ∧ ∀ a s' t f, s.step P a = some s' → s'.log t = .sent f :: s.log t → f.cmd = hidKeepalive →
      ∃ m, s.Waits t m ∧ m.cid = f.cid := by
  have hpaced := h.invariant (fun _ _ _ hI hok hstep => hI.step hok hstep) (paced_boot file clock)
  exact ⟨hpaced.routed, fun _ _ t f hstep hlog hf => hpaced.looked t f.cid (looked_of_keepalive hstep hlog hf)⟩

/-! ## Two transports -/

/-- `authenticatorSelection` on a channel. -/
def selectionPacket (cid : UInt32) : Packet := initPacket cid hidCbor 1 [ctapSelection]

/-- A selection on channel 5 of USB waits for its approval. -/
def selectionRun : List LinkAction :=
  [.arrive .usb (selectionPacket 5), .take .usb true, .dispatch .usb, .device (.receive .usb [ctapSelection] true),
    .device (.enter .usb .plain)]

/-- The keepalive worker runs, up to its frame. -/
def lookRun : List LinkAction := [.fire, .look]

/-- `authenticatorGetInfo` on channel 6 of the other transport. -/
def otherRun : List LinkAction :=
  [.arrive .ctap (initPacket 6 hidCbor 1 [ctapGetInfo]), .take .ctap true, .dispatch .ctap]

/-- What the steps of a lone request have to be checked for. -/
def undisturbed (s : Link) : LinkAction → Bool
  | .arrive .. | .take .. | .fire | .look | .device (.receive ..) => true
  | .dispatch _ => match s.stage .ctap with
    | .idle => true
    | _ => false
  | .device (.enter t _) => s.authUsb == some t && (s.stage t).request.all (·.cid == s.authCid) && !s.disarming
  | _ => false

theorem undisturbed_of_true (ha : a.worker ≠ some .ctap) (h : s.undisturbed a = true) : s.Undisturbed P a := by
  cases a with
  | arrive | take | fire | look => trivial
  | clear | disarm | disarmed | respond | pace | rearm => cases h
  | dispatch t =>
    intro _ _ _ t' m' hne hw
    cases t with
    | ctap => exact ha rfl
    | usb =>
      cases t' with
      | usb => exact hne rfl
      | ctap =>
        simp only [undisturbed, hw.1] at h
        cases h
  | device b =>
    cases b with
    | receive => trivial
    | enter t io =>
      intro _
      simp only [undisturbed, Bool.and_eq_true, beq_iff_eq, Bool.not_eq_true', Option.all_eq_true] at h
      exact ⟨h.1.1, fun m hm => (h.1.2 m (by rw [hm]; rfl)).symm, h.2⟩
    | tick | wake | expire | resume | decide | blobRead | blobWrite | restore | persist | pinReset => cases h

/-- The cids of the requests that wait. -/
def waiting (s : Link) (t : Transport) : Option UInt32 :=
  match s.stage t, (s.device.worker t).prompt with
  | .inside m, some (_, none) => some m.cid
  | _, _ => none

theorem waiting_eq_none (h : s.waiting t = none) (m : Msg) : ¬ s.Waits t m := by
  rintro ⟨hm, r, hr⟩
  simp [waiting, hm, hr] at h

theorem of_waiting {cid : UInt32} (h : s.waiting t = some cid) : ∃ m, s.Waits t m ∧ m.cid = cid := by
  simp only [waiting] at h
  split at h <;> cases h
  exact ⟨_, ⟨‹_›, _, ‹_›⟩, rfl⟩

/-- A waiting request is sent a keepalive. -/
theorem routed_selectionRun : ∃ s s', Runs (step .volatile) (Undisturbed .volatile) (boot none 0) (selectionRun ++ lookRun) s ∧
    s.step .volatile .pace = some s' ∧
      s'.log .usb = .sent ⟨5, hidKeepalive, [keepaliveStatusProcessing]⟩ :: s.log .usb ∧
      ∃ m, s.Waits .usb m ∧ m.cid = 5 := by
  have hexec : (Runs.exec (step .volatile) (fun s a => decide (a.worker ≠ some .ctap) && s.undisturbed a) (boot none 0)
      (selectionRun ++ lookRun)).map (fun s => s.pacer) = some (.looked .usb 5) := by decide +kernel
  obtain ⟨s, hs, hlooked⟩ := Option.map_eq_some_iff.mp hexec
  have hrun : Runs (step .volatile) (Undisturbed .volatile) (boot none 0) (selectionRun ++ lookRun) s :=
    Runs.of_exec (fun s a h => by
      rw [Bool.and_eq_true, decide_eq_true_eq] at h
      exact undisturbed_of_true h.1 h.2) hs
  have hstep : s.step .volatile .pace =
      some ({ s with pacer := .sent }.note .usb (.sent ⟨5, hidKeepalive, [keepaliveStatusProcessing]⟩)) := by
    simp only [step, hlooked]
  obtain ⟨_, hframes⟩ := routed_of_undisturbed .volatile none 0 _ s hrun
  exact ⟨s, _, hrun, hstep, note_self .., hframes .pace _ .usb _ hstep (note_self ..) rfl⟩

/-- While USB waits, a `getInfo` on the other transport takes its keepalives away. -/
theorem exists_misrouted : ∃ s s', Runs (step .volatile) (fun _ _ => True) (boot none 0)
      (selectionRun ++ otherRun ++ lookRun) s ∧
    (∃ m, s.Waits .usb m) ∧ ¬ s.Routed ∧ s.step .volatile .pace = some s' ∧
    s'.log .ctap = .sent ⟨6, hidKeepalive, [keepaliveStatusProcessing]⟩ :: s.log .ctap ∧ ∀ m, ¬ s.Waits .ctap m := by
  have hexec : (Runs.exec (step .volatile) (fun _ _ => true) (boot none 0) (selectionRun ++ otherRun ++ lookRun)).map
      (fun s => (s.pacer, s.authUsb, s.waiting .usb, s.waiting .ctap)) =
      some (.looked .ctap 6, some .ctap, some 5, none) := by decide +kernel
  obtain ⟨s, hs, hshow⟩ := Option.map_eq_some_iff.mp hexec
  simp only [Prod.mk.injEq] at hshow
  obtain ⟨hlooked, husb, hwaits, hnone⟩ := hshow
  obtain ⟨m, hw, _⟩ := of_waiting hwaits
  refine ⟨s, { s with pacer := .sent }.note .ctap (.sent ⟨6, hidKeepalive, [keepaliveStatusProcessing]⟩),
    Runs.of_exec (fun _ _ _ => trivial) hs, ⟨m, hw⟩, fun hrouted => ?_, ?_, note_self .., waiting_eq_none hnone⟩
  · have hto := (hrouted .usb m hw).usb
    rw [husb] at hto
    cases hto
  · simp only [step, hlooked]

end Link

end AbkFido
