/-
What each step does to the device, said once: a command concludes with its
answer logged and its worker idle (`conclude_eq`), comes to the gate in one
of four ways (`enter_cases`), and comes back from it in one of two
(`resume_cases`).
-/
import AbkFido.Device

namespace AbkFido

/-- A decision changes no prompt, only what was first decided for it. -/
theorem Worker.prompt_of_hear {r r' : UInt32} {allow : Bool} {first : Option Bool} (w : Worker)
    (h : (w.hear r allow).prompt = some (r', first)) : ∃ first', w.prompt = some (r', first') := by
  cases w with
  | idle | ready | hung => cases h
  | waiting r'' first' rest => cases h; exact ⟨first', rfl⟩
  | awake r'' first' timedOut rest => cases h; exact ⟨first', rfl⟩

namespace Device

variable {P : Platform}

@[simp] theorem setWorker_auth (t : Transport) (w : Worker) (d : Device) : (d.setWorker t w).auth = d.auth := rfl
@[simp] theorem setWorker_core (t : Transport) (w : Worker) (d : Device) : (d.setWorker t w).core = d.core := rfl
@[simp] theorem setWorker_clock (t : Transport) (w : Worker) (d : Device) : (d.setWorker t w).clock = d.clock := rfl
@[simp] theorem setWorker_log (t : Transport) (w : Worker) (d : Device) : (d.setWorker t w).log = d.log := rfl
@[simp] theorem setWorker_self (t : Transport) (w : Worker) (d : Device) : (d.setWorker t w).worker t = w :=
  Function.update_self ..

theorem setWorker_of_ne {t t' : Transport} (h : t' ≠ t) (w : Worker) (d : Device) :
    (d.setWorker t w).worker t' = d.worker t' := Function.update_of_ne h ..

@[simp] theorem note_auth (e : Event) (d : Device) : (d.note e).auth = d.auth := rfl
@[simp] theorem note_core (e : Event) (d : Device) : (d.note e).core = d.core := rfl
@[simp] theorem note_clock (e : Event) (d : Device) : (d.note e).clock = d.clock := rfl
@[simp] theorem note_worker (e : Event) (d : Device) : (d.note e).worker = d.worker := rfl
@[simp] theorem note_log (e : Event) (d : Device) : (d.note e).log = (d.clock, e) :: d.log := rfl

theorem noteAll_eq : ∀ (es : List Event) (d : Device),
    d.noteAll es = { d with log := (es.map (d.clock, ·)).reverse ++ d.log }
  | [], _ => rfl
  | e :: es, d => by
    rw [noteAll, List.foldl_cons, ← noteAll, noteAll_eq es]
    simp

@[simp] theorem noteAll_auth (es : List Event) (d : Device) : (d.noteAll es).auth = d.auth := by rw [noteAll_eq]
@[simp] theorem noteAll_core (es : List Event) (d : Device) : (d.noteAll es).core = d.core := by rw [noteAll_eq]
@[simp] theorem noteAll_clock (es : List Event) (d : Device) : (d.noteAll es).clock = d.clock := by rw [noteAll_eq]
@[simp] theorem noteAll_worker (es : List Event) (d : Device) : (d.noteAll es).worker = d.worker := by rw [noteAll_eq]
@[simp] theorem noteAll_log (es : List Event) (d : Device) :
    (d.noteAll es).log = (es.map (d.clock, ·)).reverse ++ d.log := by rw [noteAll_eq]

/-- What the second part of a command logs. -/
def concluded (P : Platform) (t : Transport) (io : Io) (rest : Rest) (d : Device) : List Event :=
  let o := finish P io d.jiffies rest d.core
  o.effects.map (.effect t) ++ match o.result with
    | .ok _ => [.succeeded t rest.gated]
    | .error _ => []

/-- The second part of a command leaves the gate alone and its worker idle. -/
theorem conclude_eq (t : Transport) (io : Io) (rest : Rest) (d : Device) :
    d.conclude P t io rest =
      { d with
        core := (finish P io d.jiffies rest d.core).core
        worker := Function.update d.worker t .idle
        log := ((concluded P t io rest d).map (d.clock, ·)).reverse ++ d.log } := by
  rw [conclude, concluded]
  cases (finish P io d.jiffies rest d.core).result <;> simp [noteAll_eq, setWorker, note]

@[simp] theorem setWorker_setWorker (t : Transport) (w w' : Worker) (d : Device) :
    (d.setWorker t w).setWorker t w' = d.setWorker t w' := by
  simp [setWorker]

/-- What the worker was doing is no matter once its command concludes. -/
@[simp] theorem conclude_setWorker (t : Transport) (w : Worker) (io : Io) (rest : Rest) (d : Device) :
    (d.setWorker t w).conclude P t io rest = d.conclude P t io rest := by
  rw [conclude_eq, conclude_eq]
  simp [setWorker, concluded, jiffies]

/-- How a command comes to the gate. -/
theorem enter_cases (t : Transport) (io : Io) (cmd : Command) (d : Device) :
    (∃ res c, start P io d.jiffies cmd d.core = (.done res, c) ∧
      d.enter P t io cmd = { d with core := c }.setWorker t .idle) ∨
    ∃ ask rest c, start P io d.jiffies cmd d.core = (.ask ask rest, c) ∧
      ((d.auth.denies d.jiffies ∧
        d.enter P t io cmd =
          (({ d with core := c }.note (.asked t)).note (.denied t)).setWorker t .idle) ∨
      (¬ d.auth.denies d.jiffies ∧ d.auth.grants d.jiffies ∧
        d.enter P t io cmd =
          ((({ d with core := c, auth := { d.auth with denyValid := false } }.note (.asked t)).note
            (.granted t)).conclude P t io rest)) ∨
      (¬ d.auth.denies d.jiffies ∧ ¬ d.auth.grants d.jiffies ∧
        d.enter P t io cmd =
          (({ d with core := c, auth := d.auth.openPrompt ask }.note (.asked t)).note
            (.opened t (d.auth.requestId + 1))).setWorker t (.waiting (d.auth.requestId + 1) none rest))) := by
  cases hs : start P io d.jiffies cmd d.core with
  | mk st c =>
    cases st with
    | done res => exact .inl ⟨res, c, rfl, by rw [enter, hs]⟩
    | ask ask rest =>
      refine .inr ⟨ask, rest, c, rfl, ?_⟩
      by_cases hd : d.auth.denies d.jiffies
      · have hbegin : authBeginLocked d.jiffies ask d.auth = (.denied, d.auth) := by rw [authBeginLocked, if_pos hd]
        exact .inl ⟨hd, by simp only [enter, hs, hbegin]⟩
      · by_cases hg : d.auth.grants d.jiffies
        · have hbegin : authBeginLocked d.jiffies ask d.auth = (.granted, { d.auth with denyValid := false }) := by
            rw [authBeginLocked, if_neg hd, if_pos hg]
          exact .inr (.inl ⟨hd, hg, by simp only [enter, hs, hbegin]⟩)
        · have hbegin : authBeginLocked d.jiffies ask d.auth = (.prompt (d.auth.requestId + 1), d.auth.openPrompt ask) := by
            rw [authBeginLocked, if_neg hd, if_neg hg]
          exact .inr (.inr ⟨hd, hg, by simp only [enter, hs, hbegin]⟩)

/-- How a command comes back from its wait. -/
theorem resume_cases (t : Transport) (io : Io) (r : UInt32) (first : Option Bool) (timedOut : Bool) (rest : Rest)
    (d : Device) : ∃ a, (authEndLocked P d.jiffies (.ofTimeout timedOut) d.auth).2 = a ∧
      (((authEndLocked P d.jiffies (.ofTimeout timedOut) d.auth).1 = .ok () ∧
        d.resume P t io r first timedOut rest =
          ({ d with auth := a }.note (.ended t r first true)).conclude P t io rest) ∨
      ((authEndLocked P d.jiffies (.ofTimeout timedOut) d.auth).1 ≠ .ok () ∧
        d.resume P t io r first timedOut rest =
          ({ d with auth := a }.note (.ended t r first false)).setWorker t .idle)) := by
  refine ⟨_, rfl, ?_⟩
  rw [resume]
  split
  · next heq => exact .inl ⟨by rw [heq], by rw [heq]⟩
  · next heq => exact .inr ⟨by rw [heq]; simp, by rw [heq]⟩

/-- A decision is refused, or goes on record for whatever request is there. -/
theorem authDecide_cases (allow : Bool) (id : Option UInt32) (d : Device) :
    ((authDecideLocked allow id d.auth).1 ≠ .ok () ∧ d.authDecide allow id = d) ∨
      ((authDecideLocked allow id d.auth).1 = .ok () ∧
        d.authDecide allow id = Device.note (.accepted d.auth.requestId allow)
          { d with
            auth := { d.auth with
              allowed := allow, decided := true, cacheValid := if allow then d.auth.cacheValid else false }
            worker := fun t => (d.worker t).hear d.auth.requestId allow }) := by
  simp only [authDecide, authDecideLocked]
  split
  · exact .inl ⟨by simp, rfl⟩
  split
  · exact .inl ⟨by simp, rfl⟩
  · exact .inr ⟨rfl, rfl⟩

/-- What is logged of an effect comes from the approved part of a command. -/
theorem effect_conclude {t t' : Transport} {io : Io} {rest : Rest} {d : Device} {n : Nat} {e : Effect}
    (h : (n, Event.effect t' e) ∈ (d.conclude P t io rest).log) :
    (n, Event.effect t' e) ∈ d.log ∨ e ∈ (finish P io d.jiffies rest d.core).effects := by
  rw [conclude_eq] at h
  rcases List.mem_append.mp h with h | h
  · simp only [List.mem_reverse, List.mem_map, concluded, List.mem_append, Prod.mk.injEq] at h
    obtain ⟨_, he | he, _, rfl⟩ := h
    · obtain ⟨e', he', heq⟩ := he
      cases heq
      exact .inr he'
    · split at he <;> simp at he
  · exact .inl h

theorem effect_step {d d' : Device} {a : Action} (hstep : d.step P a = some d') {n : Nat} {t : Transport} {e : Effect}
    (h : (n, Event.effect t e) ∈ d'.log) :
    (n, Event.effect t e) ∈ d.log ∨ ∃ io rest c, e ∈ (finish P io d.jiffies rest c).effects := by
  cases a with
  | tick | blobRead | blobWrite | restore | persist | pinReset => cases hstep; exact .inl h
  | receive t' msg allocOk =>
    simp only [step] at hstep
    split at hstep
    · split at hstep <;> cases hstep <;> exact .inl h
    · cases hstep
  | enter t' io =>
    simp only [step] at hstep
    split at hstep <;> cases hstep
    rcases enter_cases (P := P) t' io _ d with ⟨_, c, _, heq⟩ | ⟨ask, rest, c, _, hgate⟩
    · rw [heq] at h; exact .inl h
    rcases hgate with ⟨_, heq⟩ | ⟨_, _, heq⟩ | ⟨_, _, heq⟩ <;> rw [heq] at h
    · exact .inl (by simpa using h)
    · rcases effect_conclude h with h | h
      · exact .inl (by simpa using h)
      · exact .inr ⟨io, rest, c, h⟩
    · exact .inl (by simpa using h)
  | wake t' =>
    simp only [step] at hstep
    split at hstep
    · split at hstep <;> cases hstep; exact .inl h
    · cases hstep
  | expire t' =>
    simp only [step] at hstep
    split at hstep
    · split at hstep <;> cases hstep; exact .inl h
    · cases hstep
  | resume t' io =>
    simp only [step] at hstep
    split at hstep <;> cases hstep
    next r first timedOut rest hw =>
    simp only [resume] at h
    split at h
    · rcases effect_conclude h with h | h
      · exact .inl (by simpa using h)
      · exact .inr ⟨io, rest, _, h⟩
    · exact .inl (by simpa using h)
  | decide allow id =>
    cases hstep
    simp only [authDecide] at h
    split at h
    · exact .inl (by simpa using h)
    · exact .inl h

end Device

end AbkFido
