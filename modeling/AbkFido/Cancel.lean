/-
What a CANCEL comes to.

A CANCEL for a request that waits is a packet in the queue of the worker that
waits: it is taken when the request has been answered, and sets a flag that
nothing reads. What becomes of the request is up to its prompt alone. It is
cancelled as it should be exactly when the prompt is refused or runs out
(`cancels_of_refused`), which it is with no CANCEL too.
-/
import AbkFido.CommandFacts
import AbkFido.Keepalive

namespace AbkFido

variable {P : Platform}

/-- The response is no success, and carries nothing. -/
def Msg.Fails (f : Msg) : Prop := f.cmd = hidError ∨ ∃ status, status ≠ ctapSuccess ∧ f.data = [status]

/-- What a worker on its way out of the call has. -/
def Stage.outcome : Stage → Option Ret
  | .returned _ ret | .cleared _ ret | .cancelling _ ret | .answering _ ret => some ret
  | _ => none

theorem Stage.outcome_of_request {g : Stage} {m : Msg} (h : g.request = some m) : g.outcome = none := by
  cases g with
  | idle | complete | calling | inside => rfl
  | returned | cleared | cancelling | answering => cases h

namespace Link

variable {s s' : Link} {a : LinkAction} {t : Transport} {m : Msg}

/-- What a step makes of a request of `t` for which a CANCEL came in before its
prompt was decided: it ends in an error, having signed nothing and changed no
credential, and its response is no success. Until then it at most loads the store. -/
structure Cancels (P : Platform) (t : Transport) (s : Link) (a : LinkAction) (s' : Link) : Prop where
  ended : ∀ b r, a = .device b → s.device.reply P b = some r → (s.device.worker t).prompt ≠ none → r.transport = t →
    (∃ e, r.result = .error e) ∧ r.effects = [] ∧ s'.device.core = s.device.core
  goesOn : ∀ b, a = .device b → b.worker = some t → s.device.reply P b = none →
    s'.device.core.storage = s.device.core.storage ∨
      ∃ io : Io, s'.device.core.storage = loadStoreLocked P io.load io.ids s.device.core.storage
  response : ∀ allocOk f, a = .respond t allocOk → s'.log t = .sent f :: s.log t → f.Fails

/-- A request for which a CANCEL came in does not take the lock back with an approval. -/
def Refused (s : Link) : LinkAction → Prop
  | .device (.resume t _) => s.cancelled t = true → ∀ r first timedOut rest,
      s.device.worker t = .awake r first timedOut rest → ¬ s.device.approves timedOut
  | _ => True

/-! ## One step -/

/-- Whatever ends a prompt without an approval changes nothing. -/
theorem refused_reply {b : Action} {r : Reply} {d : Device} (hok : s.Refused (.device b))
    (hcancelled : s.cancelled t = true) (hr : s.device.reply P b = some r) (ht : r.transport = t)
    (hprompt : (s.device.worker t).prompt ≠ none) (hd : s.device.step P b = some d) :
    r = ⟨t, .error .eperm, []⟩ ∧ d.core = s.device.core := by
  have hworker : b.worker = some t := ht ▸ Device.reply_worker hr
  cases b with
  | tick | wake | expire | decide | blobRead | blobWrite | restore | persist | pinReset => cases hr
  | receive u msg allocOk =>
    cases hworker
    exact absurd (by rw [(Device.receive_own hd).1]; rfl) hprompt
  | enter u io =>
    cases hworker
    simp only [Device.step] at hd
    split at hd
    · next hw => exact absurd (by rw [hw]; rfl) hprompt
    · cases hd
  | resume u io =>
    cases hworker
    simp only [Device.step] at hd
    split at hd <;> cases hd
    next r' first timedOut rest hw =>
      obtain ⟨_, ⟨happ, _⟩ | ⟨_, hreply, heq⟩⟩ := Device.resume_reply (P := P) hw io
      · exact absurd happ (hok hcancelled r' first timedOut rest hw)
      · rw [hr] at hreply
        cases hreply
        exact ⟨rfl, by rw [heq]; rfl⟩

/-- Until it is answered a command at most loads the store. -/
theorem storage_of_unanswered {d d' : Device} {b : Action} (hb : b.worker = some t) (hr : d.reply P b = none)
    (hd : d.step P b = some d') :
    d'.core.storage = d.core.storage ∨ ∃ io : Io, d'.core.storage = loadStoreLocked P io.load io.ids d.core.storage := by
  cases b with
  | tick | decide | blobRead | blobWrite | restore | persist | pinReset => cases hb
  | receive u msg allocOk =>
    simp only [Device.step] at hd
    split at hd
    · left
      split at hd <;> cases hd <;> (show (ite _ _ _ : Core).storage = _) <;> split <;> rfl
    · cases hd
  | enter u io =>
    simp only [Device.step] at hd
    split at hd <;> cases hd
    next cmd hw =>
      have hstart := start_storage (P := P) io d.jiffies cmd d.core
      rcases Device.enter_reply (P := P) hw io with ⟨_, _, _, hreply, _⟩ | ⟨ask, rest, c, hs, hcases⟩
      · rw [hr] at hreply
        cases hreply
      rw [hs] at hstart
      rcases hcases with ⟨_, hreply, _⟩ | ⟨_, hreply, _⟩ | ⟨_, _, heq⟩
      · rw [hr] at hreply
        cases hreply
      · rw [hr] at hreply
        cases hreply
      · rw [heq]
        exact hstart.imp_right fun h => ⟨io, h⟩
  | wake u | expire u =>
    simp only [Device.step] at hd
    split at hd
    · split at hd <;> cases hd
      exact .inl rfl
    · cases hd
  | resume u io =>
    simp only [Device.step] at hd
    split at hd
    · next hw =>
      obtain ⟨_, ⟨_, hreply, _⟩ | ⟨_, hreply, _⟩⟩ := Device.resume_reply (P := P) hw io
      · rw [hr] at hreply
        cases hreply
      · rw [hr] at hreply
        cases hreply
    · cases hd

/-! ## Runs -/

/-- A request for which a CANCEL came in before its prompt was decided has come out of the call with an error. -/
def Failed (s : Link) : Prop := ∀ t ret, s.cancelled t = true → (s.stage t).outcome = some ret → ∃ e, ret = .error e

/-- A step that brings no worker out of the call with anything new, and no CANCEL. -/
theorem Failed.same (h : s.Failed) (hcancelled : ∀ t, s'.cancelled t = true → s.cancelled t = true)
    (hstage : ∀ t ret, (s'.stage t).outcome = some ret → (s.stage t).outcome = some ret) : s'.Failed :=
  fun t ret hc ho => h t ret (hcancelled t hc) (hstage t ret ho)

theorem outcome_setStage {u : Transport} {g : Stage} {ret : Ret} (hg : g.outcome = none ∨ g.outcome = (s.stage u).outcome)
    (h : ((s.setStage u g).stage t).outcome = some ret) : (s.stage t).outcome = some ret := by
  by_cases ht : t = u
  · rw [ht, setStage_self] at h
    rcases hg with hg | hg
    · rw [hg] at h
      cases h
    · rw [ht, ← hg, h]
  · rwa [setStage_of_ne ht] at h

theorem update_false {c : Transport → Bool} {u t : Transport} (h : Function.update c u false t = true) : c t = true := by
  by_cases ht : t = u
  · rw [ht, Function.update_self] at h
    cases h
  · rwa [Function.update_of_ne ht] at h

theorem Failed.step (h : s.Failed) (hok : s.Refused a) (hstep : s.step P a = some s') : s'.Failed := by
  cases a with
  | arrive u p =>
    cases hstep
    intro t ret hc ho
    refine h t ret ?_ ho
    show s.cancelled t = true
    change (if s.hears u p then Function.update s.cancelled u true else s.cancelled) t = true at hc
    split at hc
    · next hhears =>
      by_cases ht : t = u
      · -- a request that is heard has not come out yet
        subst ht
        simp only [hears, Option.any_eq_true] at hhears
        obtain ⟨m, hm, _⟩ := hhears
        change (s.stage t).outcome = some ret at ho
        rw [Stage.outcome_of_request hm] at ho
        cases ho
      · rwa [Function.update_of_ne ht] at hc
    · exact hc
  | take u allocOk =>
    obtain ⟨hidle, p, rx, hid, ⟨_, rfl⟩ | ⟨err, _, rfl⟩ | ⟨m, _, _, rfl⟩⟩ := take_cases hstep
    · exact h.same (fun _ h => h) fun _ _ h => h
    · exact h.same (fun _ h => h) fun _ _ h => h
    · exact h.same (fun _ h => update_false h) fun _ _ ho => outcome_setStage (s := s) (.inl rfl) ho
  | dispatch u =>
    obtain ⟨m, _, ⟨_, rfl⟩ | ⟨_, handed, hid, _, ⟨_, rfl⟩ | ⟨cmd, data, _, rfl⟩⟩⟩ := dispatch_cases hstep <;>
      exact h.same (fun _ h => h) fun _ _ ho => outcome_setStage (s := s) (.inl rfl) ho
  | device b =>
    obtain ⟨d, hd, ⟨_, rfl⟩ | ⟨u, m, hu, hserves, rfl⟩⟩ := device_cases hstep
    · exact h.same (fun _ h => h) fun _ _ h => h
    unfold follow
    split
    · next r v io hr =>
      intro t ret hc ho
      by_cases ht : t = u
      · subst ht
        simp only [note_stage, setStage_self, Stage.outcome, Option.some.injEq] at ho
        subst ho
        simp only [Device.step] at hd
        split at hd
        · next hw =>
          cases hu
          have hprompt : (s.device.worker v).prompt ≠ none := by
            rw [hw]
            simp [Worker.prompt]
          have htr : r.transport = v := (Option.some.inj (Device.reply_worker hr)).symm
          obtain ⟨rfl, _⟩ := refused_reply (P := P) (d := d) hok hc hr htr hprompt (by simp only [Device.step, hw, hd])
          exact ⟨_, rfl⟩
        · cases hd
      · simp only [note_stage, setStage_of_ne ht] at ho
        exact h t ret hc ho
    · intro t ret hc ho
      have ht : t ≠ u := fun ht => by
        subst ht
        simp [note, setStage] at hc
      simp only [note_stage, setStage_of_ne ht] at ho
      exact h t ret (update_false hc) ho
    · exact h.same (fun _ h => h) fun _ _ ho => outcome_setStage (s := s) (.inl rfl) ho
    · exact h.same (fun _ h => h) fun _ _ ho => outcome_setStage (s := s) (.inl rfl) ho
  | clear u =>
    obtain ⟨m, ret, hm, rfl⟩ := clear_cases hstep
    exact h.same (fun _ h => h) fun _ _ ho => outcome_setStage (s := s) (.inr (by rw [hm]; rfl)) ho
  | disarm u =>
    obtain ⟨m, ret, hm, rfl⟩ := disarm_cases hstep
    exact h.same (fun _ h => h) fun _ _ ho => outcome_setStage (s := s) (.inr (by rw [hm]; rfl)) ho
  | disarmed u =>
    obtain ⟨m, ret, hm, _, rfl⟩ := disarmed_cases hstep
    exact h.same (fun _ h => h) fun _ _ ho => outcome_setStage (.inr (by rw [hm]; rfl)) ho
  | respond u allocOk =>
    obtain ⟨m, ret, hm, rfl⟩ := respond_cases hstep
    exact h.same (fun _ h => h) fun _ _ ho => outcome_setStage (.inl rfl) ho
  | fire => obtain ⟨_, _, rfl⟩ := fire_cases hstep; exact h.same (fun _ h => h) fun _ _ h => h
  | look => obtain ⟨_, ⟨_, _, _, _, rfl⟩ | ⟨_, rfl⟩⟩ := look_cases hstep <;> exact h.same (fun _ h => h) fun _ _ h => h
  | pace => obtain ⟨_, _, _, rfl⟩ := pace_cases hstep; exact h.same (fun _ h => h) fun _ _ h => h
  | rearm => obtain ⟨_, rfl⟩ := rearm_cases hstep; exact h.same (fun _ h => h) fun _ _ h => h

/-- **A cancelled request fails exactly as long as its prompt is not approved**:
in a run where no request takes the lock back with an approval after a CANCEL
came in for it, every such request ends in an error, without a signature or a
change of the store, and with a response that is no success. -/
theorem cancels_of_refused (P : Platform) (file : File) (clock : Nat) (as : List LinkAction) (s : Link)
    (h : Runs (step P) Refused (boot file clock) as s) (a : LinkAction) (s' : Link) (hok : s.Refused a)
    (hstep : s.step P a = some s') (t : Transport) (hcancelled : s.cancelled t = true) : s.Cancels P t a s' := by
  have hfailed : s.Failed := h.invariant (fun _ _ _ hI hok hstep => hI.step hok hstep) fun _ _ hc _ => by cases hc
  refine ⟨?_, ?_, ?_⟩
  · rintro b r rfl hr hprompt ht
    obtain ⟨rfl, hcore⟩ := refused_reply hok hcancelled hr ht hprompt (device_step hstep)
    exact ⟨⟨_, rfl⟩, rfl, hcore⟩
  · rintro b rfl hb hr
    exact storage_of_unanswered hb hr (device_step hstep)
  · rintro allocOk f rfl hlog
    obtain ⟨m, ret, hm, rfl⟩ := respond_cases hstep
    obtain ⟨e, rfl⟩ := hfailed t ret hcancelled (by rw [hm]; rfl)
    rw [note_self, setStage_log, List.cons.injEq] at hlog
    cases hlog.1
    cases allocOk with
    | true => exact .inr ⟨ctapStatus e, ctapStatus_ne_success e, rfl⟩
    | false => exact .inl rfl

/-! ## A reset -/

/-- `authenticatorReset` on channel 5 waits for its approval, and a CANCEL comes in for it. -/
def cancelledRun : List LinkAction :=
  [.arrive .usb (initPacket 5 hidCbor 1 [ctapReset]), .take .usb true, .dispatch .usb,
    .device (.receive .usb [ctapReset] true), .device (.enter .usb .plain),
    .arrive .usb (initPacket 5 hidCancel 0 [])]

/-- The wait of USB has run out. -/
def outOfTime (s : Link) : Bool :=
  match s.device.worker .usb with
  | .awake _ _ true _ => true
  | _ => false

/-- The step answers USB, which wiped the store. -/
def wipes (P : Platform) (b : Action) (s : Link) : Bool :=
  match s.device.reply P b with
  | some ⟨.usb, .ok _, [.wiped]⟩ => true
  | _ => false

theorem not_approves_of_outOfTime (h : s.outOfTime = true) (io : Io) : s.Refused (.device (.resume .usb io)) := by
  intro _ r first timedOut rest hw happ
  simp only [outOfTime, hw] at h
  rw [happ.1] at h
  cases h

/-- The wait of the cancelled reset runs out. -/
theorem cancels_cancelledRun : ∃ s s' r, Runs (step .volatile) Refused (boot none 0)
      (cancelledRun ++ [.device (.expire .usb)]) s ∧ s.cancelled .usb = true ∧
    s.step .volatile (.device (.resume .usb .plain)) = some s' ∧
    s.device.reply .volatile (.resume .usb .plain) = some r ∧ r.effects = [] ∧ s'.device.core = s.device.core := by
  have hexec : (Runs.exec (step .volatile) (fun _ a => match a with
      | .device (.resume ..) => false
      | _ => true) (boot none 0) (cancelledRun ++ [.device (.expire .usb)])).map (fun s =>
        (s.cancelled .usb, s.outOfTime, (s.step .volatile (.device (.resume .usb .plain))).isSome,
          (s.device.reply .volatile (.resume .usb .plain)).map (·.transport), (s.device.worker .usb).prompt.isSome)) =
      some (true, true, true, some .usb, true) := by decide +kernel
  obtain ⟨s, hs, hshow⟩ := Option.map_eq_some_iff.mp hexec
  simp only [Prod.mk.injEq] at hshow
  obtain ⟨hcancelled, htime, hstep, hreply, hprompt⟩ := hshow
  obtain ⟨s', hs'⟩ := Option.isSome_iff_exists.mp hstep
  obtain ⟨r, hr, ht⟩ := Option.map_eq_some_iff.mp hreply
  have hrun : Runs (step .volatile) Refused (boot none 0) (cancelledRun ++ [.device (.expire .usb)]) s := by
    refine Runs.of_exec (fun s a h => ?_) hs
    cases a with
    | device b => cases b <;> trivial
    | _ => trivial
  have hcancels := cancels_of_refused .volatile none 0 _ s hrun _ s' (not_approves_of_outOfTime htime _) hs' .usb hcancelled
  obtain ⟨_, heffects, hcore⟩ := hcancels.ended _ r rfl hr (fun h0 => by rw [h0] at hprompt; cases hprompt) ht
  exact ⟨s, s', r, hrun, hcancelled, hs', hr, heffects, hcore⟩

/-- The cancelled reset is approved, and wipes the store. -/
theorem exists_cancelled_wipes : ∃ s s', Runs (step .volatile) (fun _ _ => True) (boot none 0)
      (cancelledRun ++ [.device (.decide true none), .device (.wake .usb)]) s ∧
    s.cancelled .usb = true ∧ s.step .volatile (.device (.resume .usb .plain)) = some s' ∧
    (∃ r payload, s.device.reply .volatile (.resume .usb .plain) = some r ∧ r.transport = .usb ∧
      r.result = .ok payload ∧ r.effects = [.wiped]) ∧
    ¬ s.Cancels .volatile .usb (.device (.resume .usb .plain)) s' := by
  have hexec : (Runs.exec (step .volatile) (fun _ _ => true) (boot none 0)
      (cancelledRun ++ [.device (.decide true none), .device (.wake .usb)])).map (fun s =>
        (s.cancelled .usb, (s.step .volatile (.device (.resume .usb .plain))).isSome,
          s.wipes .volatile (.resume .usb .plain), (s.device.worker .usb).prompt.isSome)) =
      some (true, true, true, true) := by decide +kernel
  obtain ⟨s, hs, hshow⟩ := Option.map_eq_some_iff.mp hexec
  simp only [Prod.mk.injEq] at hshow
  obtain ⟨hcancelled, hstep, hwipes, hprompt⟩ := hshow
  obtain ⟨s', hs'⟩ := Option.isSome_iff_exists.mp hstep
  have hreply : ∃ r payload, s.device.reply .volatile (.resume .usb .plain) = some r ∧ r.transport = .usb ∧
      r.result = .ok payload ∧ r.effects = [.wiped] := by
    simp only [wipes] at hwipes
    split at hwipes
    · next payload heq => exact ⟨_, payload, heq, rfl, rfl, rfl⟩
    · cases hwipes
  refine ⟨s, s', Runs.of_exec (fun _ _ _ => trivial) hs, hcancelled, hs', hreply, fun hcancels => ?_⟩
  obtain ⟨r, payload, hr, ht, hok, _⟩ := hreply
  obtain ⟨⟨e, he⟩, _⟩ := hcancels.ended _ r rfl hr (fun h0 => by rw [h0] at hprompt; cases hprompt) ht
  rw [hok] at he
  cases he

end Link

end AbkFido
