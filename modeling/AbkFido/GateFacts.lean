/-
Whose decision it is that a prompt's caller returns.

There is one record for the open prompt of either transport, and what it
says when a caller looks at it again may have been written for another
prompt, or after the first decision. `Undisturbed` leaves out the steps that
do that: a prompt opened while another is open, a decision that contradicts
an accepted one, an approval accepted once the wait has timed out. In every
run without them the caller that opened a prompt returns what was first
decided for it (`promptBinding_of_undisturbed`).
-/
import AbkFido.DeviceFacts

namespace AbkFido

open Device

/-! ## What a waiting command relies on -/

/-- The two records tell a waiting command the same. -/
structure Auth.SamePrompt (a a' : Auth) : Prop where
  pending : a'.pending = a.pending
  requestId : a'.requestId = a.requestId
  decided : a'.decided = a.decided
  allowed : a'.allowed = a.allowed

theorem Auth.SamePrompt.refl (a : Auth) : a.SamePrompt a := ⟨rfl, rfl, rfl, rfl⟩

/-- The record is the worker's prompt's, and says what was first decided for it. -/
def Worker.Bound (a : Auth) : Worker → Prop
  | .waiting r first _ =>
    a.pending = true ∧ a.requestId = r ∧ a.decided = first.isSome ∧ ∀ b, first = some b → a.allowed = b
  | .awake r first false _ => a.pending = true ∧ a.requestId = r ∧ first = some a.allowed
  | .awake r first true _ => a.pending = true ∧ a.requestId = r ∧ first ≠ some true
  | _ => True

theorem Worker.Bound.of_prompt_none {a : Auth} {w : Worker} (h : w.prompt = none) : w.Bound a := by
  cases w with
  | idle | ready | hung => trivial
  | waiting | awake => cases h

theorem Worker.Bound.same {a a' : Auth} {w : Worker} (h : w.Bound a) (hs : a.SamePrompt a') : w.Bound a' := by
  cases w with
  | idle | ready | hung => trivial
  | waiting r first rest =>
    obtain ⟨hp, hr, hd, ha⟩ := h
    exact ⟨hs.pending.trans hp, hs.requestId.trans hr, hs.decided.trans hd, fun b hb => hs.allowed.trans (ha b hb)⟩
  | awake r first timedOut rest =>
    cases timedOut with
    | true =>
      obtain ⟨hp, hr, hf⟩ := h
      exact ⟨hs.pending.trans hp, hs.requestId.trans hr, hf⟩
    | false =>
      obtain ⟨hp, hr, hf⟩ := h
      exact ⟨hs.pending.trans hp, hs.requestId.trans hr, hf.trans (by rw [hs.allowed])⟩

/-- The prompt of a bound worker is on record. -/
theorem Worker.Bound.on_record {a : Auth} {w : Worker} (h : w.Bound a) {p} (hp : w.prompt = some p) :
    a.pending = true ∧ a.requestId = p.1 := by
  cases w with
  | idle | ready | hung => cases hp
  | waiting r first rest => cases hp; exact ⟨h.1, h.2.1⟩
  | awake r first timedOut rest =>
    cases hp
    cases timedOut with
    | true | false => exact ⟨h.1, h.2.1⟩

/-- At most one prompt is open, its worker is bound to the record, and every
call that opened a prompt has returned what was first decided for it. -/
structure Device.PromptsBound (d : Device) : Prop where
  one : ∀ t t', (d.worker t).prompt ≠ none → (d.worker t').prompt ≠ none → t = t'
  bound : ∀ t, (d.worker t).Bound d.auth
  ended : ∀ n t r first ok, (n, Event.ended t r first ok) ∈ d.log → (ok = true ↔ first = some true)

namespace Device.PromptsBound

variable {P : Platform} {d d' : Device}

theorem boot (file : File) (clock : Nat) : (Device.boot file clock).PromptsBound where
  one t t' h := absurd rfl h
  bound t := trivial
  ended n t r first ok h := by cases h

/-- A step that tells the waiting commands the same, opens no prompt and
ends none keeps the prompts bound. -/
theorem of_same (h : d.PromptsBound) (hs : d.auth.SamePrompt d'.auth)
    (hw : ∀ t, d'.worker t = d.worker t ∨ (d'.worker t).prompt = none)
    (hlog : ∀ n t r first ok, (n, Event.ended t r first ok) ∈ d'.log → (n, Event.ended t r first ok) ∈ d.log) :
    d'.PromptsBound where
  one t t' ht ht' := by
    have key : ∀ t, (d'.worker t).prompt ≠ none → (d.worker t).prompt ≠ none := by
      intro t ht
      rcases hw t with heq | hnone
      · rwa [← heq]
      · exact absurd hnone ht
    exact h.one t t' (key t ht) (key t' ht')
  bound t := by
    rcases hw t with heq | hnone
    · rw [heq]; exact (h.bound t).same hs
    · exact .of_prompt_none hnone
  ended n t r first ok hmem := h.ended n t r first ok (hlog n t r first ok hmem)

theorem of_storage (h : d.PromptsBound) (c : Core) : ({ d with core := c } : Device).PromptsBound :=
  h.of_same (.refl _) (fun _ => .inl rfl) fun _ _ _ _ _ hmem => hmem

/-- The commands' own entries end no prompt. -/
theorem mem_concluded {t : Transport} {io : Io} {rest : Rest} {n : Nat} {t' : Transport} {r : UInt32}
    {first : Option Bool} {ok : Bool}
    (h : (n, Event.ended t' r first ok) ∈ ((concluded P t io rest d).map (d.clock, ·)).reverse) : False := by
  simp only [List.mem_reverse, List.mem_map, concluded, List.mem_append, Prod.mk.injEq] at h
  obtain ⟨e, he | he, _, rfl⟩ := h
  · simp at he
  · split at he <;> simp at he

/-- A command without an open prompt concludes. -/
theorem conclude (h : d.PromptsBound) (t : Transport) (io : Io) (rest : Rest) :
    (d.conclude P t io rest).PromptsBound := by
  rw [conclude_eq]
  refine h.of_same (.refl _) (fun t' => ?_) fun n t' r first ok hmem => ?_
  · by_cases ht : t' = t
    · subst ht
      exact .inr (by simp [Worker.prompt])
    · exact .inl (Function.update_of_ne ht ..)
  · rcases List.mem_append.mp hmem with hmem | hmem
    · exact (mem_concluded hmem).elim
    · exact hmem

theorem setWorker_none (h : d.PromptsBound) (t : Transport) {w : Worker} (hw : w.prompt = none) :
    (d.setWorker t w).PromptsBound := by
  refine h.of_same (.refl _) (fun t' => ?_) fun _ _ _ _ _ hmem => hmem
  by_cases ht : t' = t
  · subst ht
    exact .inr (by rw [setWorker_self]; exact hw)
  · exact .inl (setWorker_of_ne ht w d)

/-- Noting anything but the end of a prompt. -/
theorem note (h : d.PromptsBound) {e : Event} (he : ∀ t r first ok, e ≠ .ended t r first ok) :
    (d.note e).PromptsBound := by
  refine h.of_same (.refl _) (fun _ => .inl rfl) fun n t r first ok hmem => ?_
  rcases List.mem_cons.mp hmem with heq | hmem
  · exact absurd (Prod.mk.inj heq).2.symm (he t r first ok)
  · exact hmem

/-- A worker's own prompt goes on, and the worker is still bound. -/
theorem setWorker_own (h : d.PromptsBound) {t : Transport} {w : Worker} (ht : (d.worker t).prompt ≠ none)
    (hw : w.Bound d.auth) : (d.setWorker t w).PromptsBound where
  one t₁ t₂ h₁ h₂ := by
    have key : ∀ t', ((d.setWorker t w).worker t').prompt ≠ none → t' = t := by
      intro t' ht'
      by_contra hne
      rw [setWorker_of_ne hne] at ht'
      exact hne (h.one t' t ht' ht)
    rw [key t₁ h₁, key t₂ h₂]
  bound t' := by
    by_cases hne : t' = t
    · subst hne; rw [setWorker_self]; exact hw
    · rw [setWorker_of_ne hne]; exact h.bound t'
  ended := h.ended

/-- Once the only open prompt ends, none is open. -/
theorem prompt_none_of_ne (h : d.PromptsBound) {t t' : Transport} (ht : (d.worker t).prompt ≠ none) (hne : t' ≠ t) :
    (d.worker t').prompt = none := by
  by_contra h'
  exact hne (h.one t' t h' ht)

/-- A call that returns from its wait returns what was first decided for it. -/
theorem resume (h : d.PromptsBound) {t : Transport} (io : Io) {r : UInt32} {first : Option Bool} {timedOut : Bool}
    {rest : Rest} (hw : d.worker t = .awake r first timedOut rest) : (d.resume P t io r first timedOut rest).PromptsBound := by
  have hopen : (d.worker t).prompt ≠ none := by rw [hw]; simp [Worker.prompt]
  have hb := h.bound t
  rw [hw] at hb
  -- With the worker off its prompt no other is open, so the record may change.
  have hidle : ∀ a ok, (ok = true ↔ first = some true) →
      (({ d with auth := a }.note (.ended t r first ok)).setWorker t .idle).PromptsBound := by
    intro a ok hok
    have hnone : ∀ t', ((({ d with auth := a }.note (.ended t r first ok)).setWorker t .idle).worker t').prompt = none := by
      intro t'
      by_cases hne : t' = t
      · subst hne; rw [setWorker_self]; rfl
      · rw [setWorker_of_ne hne]; exact h.prompt_none_of_ne hopen hne
    refine ⟨fun t₁ t₂ h₁ => absurd (hnone t₁) h₁, fun t' => .of_prompt_none (hnone t'), ?_⟩
    intro n t' r' first' ok' hmem
    rcases List.mem_cons.mp hmem with heq | hmem
    · cases heq; exact hok
    · exact h.ended n t' r' first' ok' hmem
  have hconclude : ∀ a, first = some true →
      (({ d with auth := a }.note (.ended t r first true)).conclude P t io rest).PromptsBound := by
    intro a hf
    rw [conclude_eq]
    refine (hidle a true (by simp [hf])).of_same (.refl _) (fun _ => .inl rfl) fun n t' r' first' ok' hmem => ?_
    rcases List.mem_append.mp hmem with hmem | hmem
    · exact (mem_concluded hmem).elim
    · exact hmem
  cases timedOut with
  | true => exact hidle _ false (by simp [hb.2.2])
  | false =>
    simp only [Device.resume, WaitRet.ofTimeout, authEndLocked]
    by_cases ha : d.auth.allowed = true
    · rw [if_pos ha]
      exact hconclude _ (by rw [hb.2.2, ha])
    · rw [if_neg ha]
      exact hidle _ false (by simp [hb.2.2, ha])

end Device.PromptsBound

/-! ## Deciding -/

/-- A decision accepted now leaves this worker with what was first decided:
it repeats an earlier one, or comes to a prompt that has timed out and refuses. -/
def Worker.Agrees (allow : Bool) : Worker → Prop
  | .waiting _ (some b) _ | .awake _ (some b) false _ => allow = b
  | .awake _ none true _ => allow = false
  | _ => True

/-- A step that does not come between a prompt and its decision. -/
def Device.Undisturbed (P : Platform) (d : Device) : Action → Prop
  | .enter t io => ∀ cmd ask rest c, d.worker t = .ready cmd → start P io d.jiffies cmd d.core = (.ask ask rest, c) →
      d.auth.denies d.jiffies ∨ d.auth.grants d.jiffies ∨ ∀ t', (d.worker t').prompt = none
  | .decide allow id => (authDecideLocked allow id d.auth).1 = .ok () → ∀ t, (d.worker t).Agrees allow
  | _ => True

@[simp] theorem Worker.prompt_hear (r : UInt32) (allow : Bool) (w : Worker) :
    (w.hear r allow).prompt = none ↔ w.prompt = none := by
  cases w <;> simp [hear, prompt]

theorem Worker.Bound.hear {a : Auth} {w : Worker} (h : w.Bound a) {allow : Bool} (hw : w.Agrees allow) (cache : Bool) :
    (w.hear a.requestId allow).Bound { a with allowed := allow, decided := true, cacheValid := cache } := by
  cases w with
  | idle | ready | hung => trivial
  | waiting r first rest =>
    obtain ⟨hp, hr, hd, ha⟩ := h
    cases first with
    | none => exact ⟨hp, hr, by simp [hr], fun b hb => by simpa [hr] using hb⟩
    | some b => exact ⟨hp, hr, by simp, fun b' hb' => by simp at hb'; rw [← hb']; exact hw⟩
  | awake r first timedOut rest =>
    cases timedOut with
    | true =>
      obtain ⟨hp, hr, hf⟩ := h
      cases first with
      | none => exact ⟨hp, hr, by simp [hr, show allow = false from hw]⟩
      | some b => exact ⟨hp, hr, by simpa using hf⟩
    | false =>
      obtain ⟨hp, hr, hf⟩ := h
      subst hf
      exact ⟨hp, hr, by simp [show allow = a.allowed from hw]⟩

theorem Device.PromptsBound.authDecide {d : Device} (h : d.PromptsBound) {allow : Bool} {id : Option UInt32}
    (hok : (authDecideLocked allow id d.auth).1 = .ok () → ∀ t, (d.worker t).Agrees allow) :
    (d.authDecide allow id).PromptsBound := by
  simp only [Device.authDecide, authDecideLocked] at hok ⊢
  split at hok
  · next hp => simp only [hp, if_true]; exact h
  next hp =>
  split at hok
  · next hid => simp only [hp, hid, if_true]; exact h
  next hid =>
  simp only [hp, hid]
  have hagree := hok rfl
  refine PromptsBound.note ?_ fun _ _ _ _ => by simp
  exact ⟨fun t t' ht ht' => h.one t t' (by simpa using ht) (by simpa using ht'),
    fun t => (h.bound t).hear (hagree t) _, h.ended⟩

/-! ## The run -/

theorem Device.PromptsBound.enter {P : Platform} {d : Device} (h : d.PromptsBound) {t : Transport} {io : Io}
    {cmd : Command} (hready : d.worker t = .ready cmd)
    (hok : ∀ ask rest c, start P io d.jiffies cmd d.core = (.ask ask rest, c) →
      d.auth.denies d.jiffies ∨ d.auth.grants d.jiffies ∨ ∀ t', (d.worker t').prompt = none) :
    (d.enter P t io cmd).PromptsBound := by
  rcases enter_cases (P := P) t io cmd d with ⟨_, c, _, heq⟩ | ⟨ask, rest, c, hs, hgate⟩
  · rw [heq]; exact (h.of_storage c).setWorker_none t rfl
  have hasked : ∀ a, d.auth.SamePrompt a →
      (({ d with core := c, auth := a } : Device).note (.asked t)).PromptsBound := fun a ha =>
    (h.of_same ha (fun _ => .inl rfl) fun _ _ _ _ _ hmem => hmem : ({ d with core := c, auth := a } : Device).PromptsBound).note
      fun _ _ _ _ => by simp
  rcases hgate with ⟨_, heq⟩ | ⟨_, _, heq⟩ | ⟨hd, hg, heq⟩
  · rw [heq]
    exact ((hasked _ (.refl _)).note fun _ _ _ _ => by simp).setWorker_none t rfl
  · rw [heq]
    have hgranted := hasked { d.auth with denyValid := false } ⟨rfl, rfl, rfl, rfl⟩
    exact (hgranted.note fun _ _ _ _ => by simp).conclude t io rest
  · have hnone : ∀ t', (d.worker t').prompt = none := by
      rcases hok ask rest c hs with hd' | hg' | hnone
      · exact absurd hd' hd
      · exact absurd hg' hg
      · exact hnone
    rw [heq]
    refine ⟨fun t₁ t₂ h₁ h₂ => ?_, fun t' => ?_, fun n t' r first ok hmem => ?_⟩
    · have key : ∀ t', ((Device.setWorker t (.waiting (d.auth.requestId + 1) none rest)
          (Device.note (.opened t (d.auth.requestId + 1)) (Device.note (.asked t)
            { d with core := c, auth := d.auth.openPrompt ask }))).worker t').prompt ≠ none → t' = t := by
        intro t' ht'
        by_contra hne
        rw [setWorker_of_ne hne] at ht'
        exact ht' (hnone t')
      rw [key t₁ h₁, key t₂ h₂]
    · by_cases hne : t' = t
      · subst hne
        rw [setWorker_self]
        exact ⟨rfl, rfl, rfl, fun b hb => by cases hb⟩
      · rw [setWorker_of_ne hne]
        exact .of_prompt_none (hnone t')
    · rw [setWorker_log, note_log, note_log] at hmem
      simp at hmem
      exact h.ended n t' r first ok hmem

theorem Device.PromptsBound.step {P : Platform} {d d' : Device} {a : Action} (h : d.PromptsBound)
    (hok : d.Undisturbed P a) (hstep : d.step P a = some d') : d'.PromptsBound := by
  cases a with
  | tick n =>
    cases hstep
    exact h.of_same (.refl _) (fun _ => .inl rfl) fun _ _ _ _ _ hmem => hmem
  | receive t msg allocOk =>
    simp only [Device.step] at hstep
    split at hstep
    · split at hstep <;> cases hstep
      · exact (h.of_storage _).setWorker_none t rfl
      · exact h.of_storage _
      · exact (h.of_storage _).setWorker_none t rfl
    · cases hstep
  | enter t io =>
    simp only [Device.step] at hstep
    split at hstep
    · next cmd hready =>
      cases hstep
      exact h.enter hready fun ask rest c hs => hok cmd ask rest c hready hs
    · cases hstep
  | wake t =>
    simp only [Device.step] at hstep
    split at hstep
    · next r first rest hw =>
      split at hstep <;> cases hstep
      next hdec =>
      have hb := h.bound t
      rw [hw] at hb
      obtain ⟨hp, hr, hd, ha⟩ := hb
      refine h.setWorker_own (by rw [hw]; simp [Worker.prompt]) ⟨hp, hr, ?_⟩
      obtain ⟨b, rfl⟩ := Option.isSome_iff_exists.mp (hd.symm.trans hdec)
      rw [ha b rfl]
    · cases hstep
  | expire t =>
    simp only [Device.step] at hstep
    split at hstep
    · next r first rest hw =>
      split at hstep <;> cases hstep
      next hdec =>
      have hb := h.bound t
      rw [hw] at hb
      obtain ⟨hp, hr, hd, ha⟩ := hb
      refine h.setWorker_own (by rw [hw]; simp [Worker.prompt]) ⟨hp, hr, ?_⟩
      rintro rfl
      exact hdec hd
    · cases hstep
  | resume t io =>
    simp only [Device.step] at hstep
    split at hstep
    · next r first timedOut rest hw => cases hstep; exact h.resume io hw
    · cases hstep
  | decide allow id => cases hstep; exact h.authDecide hok
  | blobRead | blobWrite | restore | persist | pinReset => cases hstep; exact h.of_storage _

/-- What a prompt owes the user: it stays decidable until its call returns,
only a decision for it ends its wait, and its call returns the first one. -/
structure Device.PromptBinding (d : Device) : Prop where
  decidable : ∀ t r first, (d.worker t).prompt = some (r, first) → ∀ allow,
    (authDecideLocked allow (some r) d.auth).1 = .ok ()
  woken : ∀ t r first rest, d.worker t = .awake r first false rest → first ≠ none
  ended : ∀ n t r first ok, (n, Event.ended t r first ok) ∈ d.log → (ok = true ↔ first = some true)

theorem Device.PromptsBound.binding {d : Device} (h : d.PromptsBound) : d.PromptBinding where
  decidable t r first hp allow := by
    obtain ⟨hpending, hr⟩ := (h.bound t).on_record hp
    simp [authDecideLocked, hpending, hr]
  woken t r first rest hw := by
    have hb := h.bound t
    rw [hw] at hb
    rw [hb.2.2]
    exact Option.some_ne_none _
  ended := h.ended

/-- **Whose decision it is**: in every run that leaves each prompt its
decision, the call that opened it returns 0 exactly when the first decision
accepted for it was to allow. -/
theorem Device.promptBinding_of_undisturbed (P : Platform) (file : File) (clock : Nat) (as : List Action) (d : Device)
    (h : Runs (step P) (Undisturbed P) (boot file clock) as d) : d.PromptBinding :=
  (h.invariant (I := PromptsBound) (fun _ _ _ hI hok hstep => hI.step hok hstep) (.boot file clock)).binding

/-- A selection that is approved. -/
def selectionRun : List Action :=
  [.receive .usb [ctapSelection] true, .enter .usb .plain, .decide true (some 1), .wake .usb, .resume .usb .plain]

theorem Device.promptBinding_selectionRun :
    (Runs.exec (step .volatile) (fun _ _ => true) (boot none 0) selectionRun |>.getD (boot none 0)).PromptBinding := by
  refine promptBinding_of_undisturbed .volatile none 0 selectionRun _ ?_
  refine .cons trivial rfl (.cons ?_ rfl (.cons ?_ rfl (.cons trivial rfl (.cons trivial rfl (.nil _)))))
  · exact fun _ _ _ _ _ _ => .inr (.inr fun t' => by cases t' <;> rfl)
  · exact fun _ t => by cases t <;> trivial

/-- Two selections at once, and one decision, for the second. -/
def crossedRun : List Action :=
  [.receive .usb [ctapSelection] true, .enter .usb .plain, .receive .ctap [ctapSelection] true, .enter .ctap .plain,
    .decide true (some 2), .wake .usb, .resume .usb .plain]

/-- The first selection returns 0 although nothing was decided for it. -/
theorem Device.exists_not_promptBinding : ∃ as d,
    Runs (step .volatile) (fun _ _ => True) (boot none 0) as d ∧ ¬ d.PromptBinding := by
  obtain ⟨d, hd, hmem⟩ : ∃ d, Runs.exec (step .volatile) (fun _ _ => true) (boot none 0) crossedRun = some d ∧
      (0, .ended .usb 1 none true) ∈ d.log := ⟨_, rfl, .tail _ (.head _)⟩
  refine ⟨crossedRun, d, Runs.of_exec (fun _ _ _ => trivial) hd, fun h => ?_⟩
  have := (h.ended 0 .usb 1 none true hmem).mp rfl
  cases this

end AbkFido
