/-
One message, from its arrival to its answer.

Between the two its worker is only moved on by steps of its own: whatever
else happens, a parsed command stays what it is until it takes the lock
(`ready_step`), and what it holds while it waits stays what it is until it is
answered (`rest_step`).
-/
import AbkFido.Reply

namespace AbkFido

variable {P : Platform}

/-- The worker a step belongs to. -/
def Action.worker : Action → Option Transport
  | .receive t _ _ | .enter t _ | .wake t | .expire t | .resume t _ => some t
  | _ => none

@[simp] theorem Worker.rest_hear (r : UInt32) (allow : Bool) (w : Worker) : (w.hear r allow).rest = w.rest := by
  cases w <;> rfl

namespace Device

variable {d d' : Device} {a : Action} {t : Transport}

theorem worker_conclude_of_ne {t' : Transport} (h : t' ≠ t) (io : Io) (rest : Rest) (d : Device) :
    (d.conclude P t io rest).worker t' = d.worker t' := by
  rw [conclude_eq]
  exact Function.update_of_ne h ..

/-- A step of another worker, or of none, at most tells this one a decision. -/
theorem worker_step (hstep : d.step P a = some d') (ha : a.worker ≠ some t) :
    d'.worker t = d.worker t ∨ ∃ r allow, d'.worker t = (d.worker t).hear r allow := by
  cases a with
  | tick | blobRead | blobWrite | restore | persist | pinReset =>
    cases hstep
    exact .inl rfl
  | receive t' msg allocOk =>
    have hne : t ≠ t' := fun h => ha (congrArg some h.symm)
    simp only [step] at hstep
    split at hstep
    · split at hstep <;> cases hstep
      · exact .inl (setWorker_of_ne hne _ _)
      · exact .inl rfl
      · exact .inl (setWorker_of_ne hne _ _)
    · cases hstep
  | enter t' io =>
    have hne : t ≠ t' := fun h => ha (congrArg some h.symm)
    simp only [step] at hstep
    split at hstep <;> cases hstep
    left
    rcases enter_cases (P := P) t' io _ d with ⟨_, c, _, heq⟩ | ⟨ask, rest, c, _, hgate⟩
    · rw [heq, setWorker_of_ne hne]
    rcases hgate with ⟨_, heq⟩ | ⟨_, _, heq⟩ | ⟨_, _, heq⟩
    · rw [heq, setWorker_of_ne hne]
      rfl
    · rw [heq, worker_conclude_of_ne hne]
      rfl
    · rw [heq, setWorker_of_ne hne]
      rfl
  | wake t' | expire t' =>
    have hne : t ≠ t' := fun h => ha (congrArg some h.symm)
    simp only [step] at hstep
    split at hstep
    · split at hstep <;> cases hstep
      exact .inl (setWorker_of_ne hne _ _)
    · cases hstep
  | resume t' io =>
    have hne : t ≠ t' := fun h => ha (congrArg some h.symm)
    simp only [step] at hstep
    split at hstep <;> cases hstep
    left
    obtain ⟨a, _, hcases⟩ := resume_cases (P := P) t' io _ _ _ _ d
    rcases hcases with ⟨_, heq⟩ | ⟨_, heq⟩
    · rw [heq, worker_conclude_of_ne hne]
      rfl
    · rw [heq, setWorker_of_ne hne]
      rfl
  | decide allow id =>
    cases hstep
    rcases authDecide_cases allow id d with ⟨_, heq⟩ | ⟨_, heq⟩
    · exact .inl (by rw [heq])
    · exact .inr ⟨_, _, by rw [heq]; rfl⟩

/-- A step that does not answer `t`. -/
def Unanswered (P : Platform) (t : Transport) (d : Device) (a : Action) : Prop :=
  ∀ r, d.reply P a = some r → r.transport ≠ t

/-- A parsed command waits for the lock. -/
theorem ready_step {cmd : Command} (h : d.worker t = .ready cmd) (hstep : d.step P a = some d')
    (ha : ∀ io, a ≠ .enter t io) : d'.worker t = .ready cmd := by
  by_cases hw : a.worker = some t
  · cases a with
    | tick | decide | blobRead | blobWrite | restore | persist | pinReset => cases hw
    | receive t' msg allocOk =>
      cases hw
      simp only [step, h] at hstep
      cases hstep
    | enter t' io =>
      cases hw
      exact absurd rfl (ha io)
    | wake t' | expire t' | resume t' =>
      cases hw
      simp only [step, h] at hstep
      cases hstep
  · rcases worker_step hstep hw with heq | ⟨r, allow, heq⟩
    · rw [heq, h]
    · rw [heq, h]
      rfl

/-- A command that takes the lock and is not answered waits. -/
theorem enter_waits {cmd : Command} {io : Io} {ask : Ask} {rest : Rest} {c : Core} (hw : d.worker t = .ready cmd)
    (hs : start P io d.jiffies cmd d.core = (.ask ask rest, c)) (ha : d.Unanswered P t (.enter t io))
    (hstep : d.step P (.enter t io) = some d') : (d'.worker t).rest = some rest := by
  simp only [step, hw, Option.some.injEq] at hstep
  subst hstep
  rcases enter_reply (P := P) hw io with ⟨_, _, _, hreply, _⟩ | ⟨ask', rest', c', hs', hcases⟩
  · exact absurd rfl (ha _ hreply)
  rw [hs] at hs'
  cases hs'
  rcases hcases with ⟨_, hreply, _⟩ | ⟨_, hreply, _⟩ | ⟨_, _, heq⟩
  · exact absurd rfl (ha _ hreply)
  · exact absurd rfl (ha _ hreply)
  · rw [heq, setWorker_self]
    rfl

/-- What a command holds while it waits, it holds until it is answered. -/
theorem rest_step {rest : Rest} (h : (d.worker t).rest = some rest) (hstep : d.step P a = some d')
    (ha : d.Unanswered P t a) : (d'.worker t).rest = some rest := by
  by_cases hw : a.worker = some t
  · cases a with
    | tick | decide | blobRead | blobWrite | restore | persist | pinReset => cases hw
    | receive t' msg allocOk =>
      cases hw
      simp only [step] at hstep
      split at hstep
      · next hidle =>
        rw [hidle] at h
        cases h
      · cases hstep
    | enter t' io =>
      cases hw
      simp only [step] at hstep
      split at hstep
      · next hready =>
        rw [hready] at h
        cases h
      · cases hstep
    | wake t' | expire t' =>
      cases hw
      simp only [step] at hstep
      split at hstep
      · next hwait =>
        split at hstep <;> cases hstep
        rw [hwait] at h
        rw [setWorker_self]
        exact h
      · cases hstep
    | resume t' io =>
      cases hw
      simp only [step] at hstep
      split at hstep
      · next hawake =>
        obtain ⟨_, ⟨_, hreply, _⟩ | ⟨_, hreply, _⟩⟩ := resume_reply (P := P) hawake io
        · exact absurd rfl (ha _ hreply)
        · exact absurd rfl (ha _ hreply)
      · cases hstep
  · rcases worker_step hstep hw with heq | ⟨r, allow, heq⟩
    · rw [heq, h]
    · rw [heq, Worker.rest_hear, h]

/-- The core that the second part of a command starts from, where the step takes it there. -/
def approvedCore (P : Platform) (d : Device) : Action → Option Core
  | .enter t io =>
    match d.worker t with
    | .ready cmd =>
      match start P io d.jiffies cmd d.core with
      | (.ask _ _, c) => if !d.auth.denies d.jiffies && d.auth.grants d.jiffies then some c else none
      | (.done _, _) => none
    | _ => none
  | .resume t _ =>
    match d.worker t with
    | .awake _ _ timedOut _ => if !timedOut && d.auth.allowed then some d.core else none
    | _ => none
  | _ => none

/-- What `t` is answered once its command is approved: what the second part of the command makes of it. -/
theorem approved_reply {r : Reply} {c : Core} (hr : d.reply P a = some r) (hc : d.approvedCore P a = some c) :
    ∃ io rest, r = (finish P io d.jiffies rest c).reply r.transport ∧
      ((a = .enter r.transport io ∧ ∃ cmd ask, d.worker r.transport = .ready cmd ∧
          start P io d.jiffies cmd d.core = (.ask ask rest, c)) ∨
        a = .resume r.transport io ∧ (d.worker r.transport).rest = some rest ∧ c = d.core) ∧
      ∀ d', d.step P a = some d' → d'.core = (finish P io d.jiffies rest c).core := by
  cases a with
  | tick | receive | wake | expire | decide | blobRead | blobWrite | restore | persist | pinReset => cases hc
  | enter t io =>
    simp only [approvedCore] at hc
    split at hc
    · next cmd hw =>
      split at hc
      · next ask rest c' hs =>
        split at hc
        · next hpass =>
          cases hc
          rw [Bool.and_eq_true, Bool.not_eq_true'] at hpass
          rcases enter_reply (P := P) hw io with ⟨_, _, hs', _, _⟩ | ⟨ask', rest', c'', hs', hcases⟩
          · rw [hs] at hs'
            cases hs'
          · rw [hs] at hs'
            cases hs'
            rcases hcases with ⟨hnot, _⟩ | ⟨_, hreply, heq⟩ | ⟨hnot, _⟩
            · exact absurd hpass hnot
            · rw [hr] at hreply
              cases hreply
              refine ⟨io, rest, rfl, .inl ⟨rfl, cmd, ask, hw, hs⟩, fun d' hstep => ?_⟩
              simp only [step, hw, Option.some.injEq] at hstep
              rw [← hstep, heq, conclude_eq]
              rfl
            · exact absurd hpass hnot
        · cases hc
      · cases hc
    · cases hc
  | resume t io =>
    simp only [approvedCore] at hc
    split at hc
    · next r' first timedOut rest hw =>
      split at hc
      · next happ =>
        cases hc
        rw [Bool.and_eq_true, Bool.not_eq_true'] at happ
        obtain ⟨_, ⟨_, hreply, heq⟩ | ⟨hnot, _⟩⟩ := resume_reply (P := P) hw io
        · rw [hr] at hreply
          cases hreply
          refine ⟨io, rest, rfl, .inr ⟨rfl, by rw [show (Outcome.reply t _).transport = t from rfl, hw]; rfl, rfl⟩,
            fun d' hstep => ?_⟩
          simp only [step, hw, Option.some.injEq] at hstep
          rw [← hstep, heq, conclude_eq]
          rfl
        · exact absurd happ hnot
      · cases hc
    · cases hc

/-- Whether the step answers USB with `-EINVAL` and does nothing else. -/
def refuses (P : Platform) (d : Device) (a : Action) : Bool :=
  match d.reply P a with
  | some ⟨.usb, .error .einval, []⟩ => true
  | _ => false

theorem of_refuses (h : d.refuses P a = true) : d.reply P a = some ⟨.usb, .error .einval, []⟩ := by
  rw [refuses] at h
  split at h
  · assumption
  · cases h

end Device

end AbkFido
