/-
No key use without an approval, on one transport.

With one transport a prompt is never superseded, and all that is left to
chance is the clock: deadlines are compared modulo 2^64, so a deadline that
is left alone for half of that comes back to life. As long as the clock runs
less than 2^63 jiffies from one use of the gate to the next (`Single`),
nothing a gated command does happens without an approval of its own or one
within the grant window (`onlyApproved_of_single`).
-/
import AbkFido.DeviceFacts
import AbkFido.Lib.Past

namespace AbkFido

open Device Past

variable {P : Platform}

/-! ## Deadlines -/

/-- The windows of the gate, in jiffies. -/
def authWindow (P : Platform) : Nat := (3000 * P.hz + 999) / 1000

theorem authWindow_le (P : Platform) : authWindow P ≤ 3000 := by
  have := P.hz_le
  simp only [authWindow]
  omega

theorem deadline_eq (P : Platform) (d : Device) :
    d.jiffies + msecsToJiffies P authCacheMs = .ofNat (d.clock + authWindow P) ∧
      d.jiffies + msecsToJiffies P authDenyMs = .ofNat (d.clock + authWindow P) := by
  simp only [jiffies, msecsToJiffies, authCacheMs, authDenyMs, authWindow, UInt64.ofNat_add, and_self]

/-! ## What is promised -/

namespace Event

/-- A prompt ended otherwise than by an approval. -/
def Refuses : Event → Prop
  | .ended _ _ _ false => True
  | _ => False

def Opens : Event → Prop
  | .opened _ _ => True
  | _ => False

def Asks : Event → Prop
  | .asked _ => True
  | _ => False

/-- The gate was used: a command came to it, or came back from its wait. -/
def UsesGate : Event → Prop
  | .asked _ | .ended .. => True
  | _ => False

/-- What no one may bring about unapproved. -/
def NeedsApproval : Event → Prop
  | .effect _ _ | .succeeded _ _ => True
  | _ => False

/-- What does not happen in the cooldown. -/
def Passes : Event → Prop
  | .granted _ | .opened _ _ | .succeeded _ _ => True
  | _ => False

instance : DecidablePred UsesGate := fun e => by cases e <;> simp only [UsesGate] <;> infer_instance

end Event

abbrev Entry := Nat × Event

/-- Since the transport's prompt `r` was opened no other was, and an approval was accepted for it. -/
def Accepted (t : Transport) (r : UInt32) : List Entry → Prop :=
  Since (fun x past => x.2 = .accepted r true ∧ Since (fun y _ => y.2 = .opened t r) (¬ ·.2.Opens) past) (¬ ·.2.Opens)

/-- A prompt ended with its approval. -/
def Approves (x : Entry) (past : List Entry) : Prop :=
  ∃ t r first, x.2 = .ended t r first true ∧ Accepted t r past

/-- At time `n` the command that came to the gate last has its own approval,
or there is one from less than the grant window ago, and no refusal since. -/
def Approved (P : Platform) (n : Nat) (past : List Entry) : Prop :=
  Since Approves (fun x => ¬ x.2.Refuses ∧ ¬ x.2.Asks) past ∨
    Since (fun x past => Approves x past ∧ n < x.1 + authWindow P) (¬ ·.2.Refuses) past

/-- **What the gate is for.** -/
structure Device.OnlyApproved (P : Platform) (d : Device) : Prop where
  approved : Always (fun x past => x.2.NeedsApproval → Approved P x.1 past) d.log
  cooldown : Always (fun x past => x.2.Passes → ∀ y ∈ past, y.2.Refuses → y.1 + authWindow P ≤ x.1) d.log

/-! ## The gate and its log -/

/-- No refusal is less than a cooldown old. -/
def Cooled (P : Platform) (clock : Nat) (log : List Entry) : Prop :=
  ∀ y ∈ log, y.2.Refuses → y.1 + authWindow P ≤ clock

/-- The windows on record are those the log tells of. -/
structure GateSafe (P : Platform) (clock : Nat) (a : Auth) (log : List Entry) : Prop where
  approved : Always (fun x past => x.2.NeedsApproval → Approved P x.1 past) log
  cooldown : Always (fun x past => x.2.Passes → Cooled P x.1 past) log
  past : ∀ y ∈ log, y.1 ≤ clock
  recent : ∀ g, log.find? (·.2.UsesGate) = some g → clock < g.1 + 2 ^ 63
  deny : ∀ y ∈ log, y.2.Refuses → clock < y.1 + authWindow P →
    a.denyValid = true ∧ a.denyExpires = .ofNat (y.1 + authWindow P)
  excl : a.denyValid = true → a.cacheValid = false
  cache : a.cacheValid = true → ∃ m g, a.cacheExpires = .ofNat (m + authWindow P) ∧
    log.find? (·.2.UsesGate) = some g ∧ g.1 ≤ m + authWindow P ∧
    Since (fun x past => Approves x past ∧ x.1 = m) (¬ ·.2.Refuses) log

/-- A prompt that is open: no cooldown was running, and if the record says
allowed, that was accepted for it. -/
structure PromptSafe (P : Platform) (t : Transport) (r : UInt32) (clock : Nat) (a : Auth) (log : List Entry) : Prop where
  cooled : Cooled P clock log
  requestId : a.requestId = r
  opened : Since (fun y _ => y.2 = .opened t r) (¬ ·.2.Opens) log
  allowed : a.allowed = true → Accepted t r log

namespace Event

theorem NeedsApproval.not_refuses {e : Event} (h : e.NeedsApproval) : ¬ e.Refuses := by
  cases e <;> first | exact h.elim | exact id

theorem NeedsApproval.not_asks {e : Event} (h : e.NeedsApproval) : ¬ e.Asks := by
  cases e <;> first | exact h.elim | exact id

theorem NeedsApproval.not_usesGate {e : Event} (h : e.NeedsApproval) : ¬ e.UsesGate := by
  cases e <;> first | exact h.elim | exact id

end Event

namespace GateSafe

variable {clock : Nat} {a : Auth} {log : List Entry}

theorem boot (clock : Nat) : GateSafe P clock .boot [] where
  approved := trivial
  cooldown := trivial
  past y h := by cases h
  recent g h := by cases h
  deny y h := by cases h
  excl h := by cases h
  cache h := by cases h

theorem tick (h : GateSafe P clock a log) {n : Nat}
    (hn : ∀ g, log.find? (·.2.UsesGate) = some g → clock + n < g.1 + 2 ^ 63) : GateSafe P (clock + n) a log :=
  { h with
    past := fun y hy => (h.past y hy).trans (Nat.le_add_right _ _)
    recent := hn
    deny := fun y hy hr hlt => h.deny y hy hr (by omega) }

/-- Once the gate does not deny, the cooldown is over. -/
theorem cooled (h : GateSafe P clock a log) (hd : ¬ a.denies (.ofNat clock)) : Cooled P clock log := by
  intro y hy hr
  by_contra hlt
  obtain ⟨hvalid, hexp⟩ := h.deny y hy hr (by omega)
  refine hd ?_
  have hW := authWindow_le P
  have hpast := h.past y hy
  rw [Auth.denies, hvalid, hexp, timeBefore_of_lt (by omega) (by omega)]
  rfl

/-- A grant: the approval it goes back to is less than the window old. -/
theorem granted (h : GateSafe P clock a log) (hg : a.grants (.ofNat clock)) :
    ∃ m, clock < m + authWindow P ∧ a.cacheExpires = .ofNat (m + authWindow P) ∧
      Since (fun x past => Approves x past ∧ x.1 = m) (¬ ·.2.Refuses) log := by
  simp only [Auth.grants, Bool.and_eq_true] at hg
  obtain ⟨m, g, hexp, hfind, hle, hsince⟩ := h.cache hg.1
  refine ⟨m, ?_, hexp, hsince⟩
  by_contra hlt
  have hrecent := h.recent g hfind
  rw [hexp, timeBefore_of_le (by omega) (by omega)] at hg
  exact absurd hg.2 (by decide)

/-- An entry that is neither a refusal nor a use of the gate. -/
theorem note (h : GateSafe P clock a log) {e : Event} (hr : ¬ e.Refuses) (hu : ¬ e.UsesGate)
    (happ : e.NeedsApproval → Approved P clock log) (hpass : e.Passes → Cooled P clock log) :
    GateSafe P clock a ((clock, e) :: log) := by
  have hfind : ((clock, e) :: log).find? (·.2.UsesGate) = log.find? (·.2.UsesGate) := by
    rw [List.find?_cons_of_neg (by simpa using hu)]
  exact
    { approved := ⟨happ, h.approved⟩
      cooldown := ⟨hpass, h.cooldown⟩
      past := fun y hy => by
        rcases List.mem_cons.mp hy with rfl | hy
        · exact le_rfl
        · exact h.past y hy
      recent := fun g hg => h.recent g (hfind ▸ hg)
      deny := fun y hy hry hlt => by
        rcases List.mem_cons.mp hy with rfl | hy
        · exact absurd hry hr
        · exact h.deny y hy hry hlt
      excl := h.excl
      cache := fun hc => by
        obtain ⟨m, g, hexp, hg, hle, hsince⟩ := h.cache hc
        exact ⟨m, g, hexp, hfind ▸ hg, hle, .inr ⟨hr, hsince⟩⟩ }

/-- A command comes to the gate, with no grant left over that has run out. -/
theorem asked (h : GateSafe P clock a log) (t : Transport) (hc : a.cacheValid = true → a.grants (.ofNat clock)) :
    GateSafe P clock a ((clock, .asked t) :: log) where
  approved := ⟨fun hn => hn.elim, h.approved⟩
  cooldown := ⟨fun hp => hp.elim, h.cooldown⟩
  past y hy := by
    rcases List.mem_cons.mp hy with rfl | hy
    · exact le_rfl
    · exact h.past y hy
  recent g hg := by
    cases hg
    show clock < clock + 2 ^ 63
    omega
  deny y hy hr hlt := by
    rcases List.mem_cons.mp hy with rfl | hy
    · exact hr.elim
    · exact h.deny y hy hr hlt
  excl := h.excl
  cache hvalid := by
    obtain ⟨m, hlt, hexp, hsince⟩ := h.granted (hc hvalid)
    exact ⟨m, (clock, .asked t), hexp, rfl, hlt.le, .inr ⟨id, hsince⟩⟩

/-- The record may drop its cooldown when it is over, and its grant. -/
theorem withAuth (h : GateSafe P clock a log) (hcool : Cooled P clock log) (a' : Auth)
    (hdeny : a'.denyValid = false)
    (hcache : a'.cacheValid = true → a.cacheValid = true ∧ a'.cacheExpires = a.cacheExpires) :
    GateSafe P clock a' log :=
  { h with
    deny := fun y hy hr hlt => absurd (hcool y hy hr) (by omega)
    excl := fun hd => by rw [hdeny] at hd; cases hd
    cache := fun hc => by
      obtain ⟨hc, hexp⟩ := hcache hc
      rw [hexp]
      exact h.cache hc }

/-- A decision is accepted: a refusal ends the grant. -/
theorem decided (h : GateSafe P clock a log) (allow : Bool) :
    GateSafe P clock
      { a with allowed := allow, decided := true, cacheValid := if allow then a.cacheValid else false } log :=
  { h with
    excl := fun hd => by simp [h.excl hd]
    cache := fun hc => h.cache (by cases allow <;> simp_all) }

/-- A prompt ends with its approval. -/
theorem allowed (h : GateSafe P clock a log) {t : Transport} {r : UInt32} {first : Option Bool}
    (hcool : Cooled P clock log) (hacc : Accepted t r log) {a' : Auth} (hdeny : a'.denyValid = false)
    (hexp : a'.cacheExpires = .ofNat (clock + authWindow P)) :
    GateSafe P clock a' ((clock, .ended t r first true) :: log) where
  approved := ⟨fun hn => hn.elim, h.approved⟩
  cooldown := ⟨fun hp => hp.elim, h.cooldown⟩
  past y hy := by
    rcases List.mem_cons.mp hy with rfl | hy
    · exact le_rfl
    · exact h.past y hy
  recent g hg := by
    cases hg
    show clock < clock + 2 ^ 63
    omega
  deny y hy hr hlt := by
    rcases List.mem_cons.mp hy with rfl | hy
    · exact hr.elim
    · exact absurd (hcool y hy hr) (by omega)
  excl hd := by rw [hdeny] at hd; cases hd
  cache _ := ⟨clock, (clock, .ended t r first true), hexp, rfl, Nat.le_add_right _ _,
    .inl ⟨⟨t, r, first, rfl, hacc⟩, rfl⟩⟩

/-- A prompt ends otherwise: the cooldown starts. -/
theorem refused (h : GateSafe P clock a log) {t : Transport} {r : UInt32} {first : Option Bool}
    (hcool : Cooled P clock log) {a' : Auth} (hcache : a'.cacheValid = false) (hdeny : a'.denyValid = true)
    (hexp : a'.denyExpires = .ofNat (clock + authWindow P)) :
    GateSafe P clock a' ((clock, .ended t r first false) :: log) where
  approved := ⟨fun hn => hn.elim, h.approved⟩
  cooldown := ⟨fun hp => hp.elim, h.cooldown⟩
  past y hy := by
    rcases List.mem_cons.mp hy with rfl | hy
    · exact le_rfl
    · exact h.past y hy
  recent g hg := by
    cases hg
    show clock < clock + 2 ^ 63
    omega
  deny y hy hr hlt := by
    rcases List.mem_cons.mp hy with rfl | hy
    · exact ⟨hdeny, hexp⟩
    · exact absurd (hcool y hy hr) (by omega)
  excl _ := hcache
  cache hc := by rw [hcache] at hc; cases hc

end GateSafe

/-- What a command brings about at once leaves it approved. -/
theorem Approved.note {clock n : Nat} {log : List Entry} (h : Approved P clock log) {e : Event} (he : e.NeedsApproval) :
    Approved P clock ((n, e) :: log) := by
  rcases h with h | h
  · exact .inl (.inr ⟨⟨he.not_refuses, he.not_asks⟩, h⟩)
  · exact .inr (.inr ⟨he.not_refuses, h⟩)

theorem Cooled.note {clock n : Nat} {log : List Entry} (h : Cooled P clock log) {e : Event} (he : ¬ e.Refuses) :
    Cooled P clock ((n, e) :: log) := by
  intro y hy hr
  rcases List.mem_cons.mp hy with rfl | hy
  · exact absurd hr he
  · exact h y hy hr

/-- An approved command logs what it brings about. -/
theorem GateSafe.concluded {clock : Nat} {a : Auth} : ∀ {es : List Event} {log : List Entry}, GateSafe P clock a log →
    Approved P clock log → Cooled P clock log → (∀ e ∈ es, e.NeedsApproval) →
    GateSafe P clock a ((es.map (clock, ·)).reverse ++ log)
  | [], _, h, _, _, _ => h
  | e :: es, log, h, happ, hcool, hes => by
    have he := hes e (by simp)
    have hnoted := h.note he.not_refuses he.not_usesGate (fun _ => happ) fun _ => hcool
    have hrest : ∀ e' ∈ es, e'.NeedsApproval := fun e' he' => hes e' (by simp [he'])
    simpa using hnoted.concluded (happ.note he) (hcool.note he.not_refuses) hrest

/-! ## The run -/

def Action.On (t : Transport) : Action → Prop
  | .receive t' _ _ | .enter t' _ | .wake t' | .expire t' | .resume t' _ => t' = t
  | _ => True

/-- When the gate was last used. -/
def Device.lastGate (d : Device) : Option Nat := (d.log.find? (·.2.UsesGate)).map (·.1)

/-- A step of a run on one transport, in which the clock goes less than 2^63
jiffies from one use of the gate to the next. -/
def Device.Single (t : Transport) (d : Device) (a : Action) : Prop :=
  a.On t ∧ ∀ n g, a = .tick n → d.lastGate = some g → d.clock + n < g + 2 ^ 63

/-- What holds on one transport: the other is idle, the gate is safe, and so
is the prompt if one is open. -/
structure Device.Guarded (P : Platform) (t : Transport) (d : Device) : Prop where
  single : ∀ t', t' ≠ t → d.worker t' = .idle
  safe : GateSafe P d.clock d.auth d.log
  prompt : ∀ r first, (d.worker t).prompt = some (r, first) → PromptSafe P t r d.clock d.auth d.log

namespace Device.Guarded

variable {t : Transport} {d d' : Device}

theorem boot (file : File) (clock : Nat) : (Device.boot file clock).Guarded P t where
  single _ _ := rfl
  safe := .boot clock
  prompt r first h := by cases h

/-- The transport's worker goes on, with the prompt it had or none. -/
theorem setWorker (h : d.Guarded P t) {w : Worker} (hw : w.prompt = none ∨ w.prompt = (d.worker t).prompt) :
    (d.setWorker t w).Guarded P t where
  single t' ht' := by rw [setWorker_of_ne ht']; exact h.single t' ht'
  safe := h.safe
  prompt r first hp := by
    rw [setWorker_self] at hp
    rcases hw with hw | hw
    · rw [hw] at hp; cases hp
    · exact h.prompt r first (hw ▸ hp)

theorem withCore (h : d.Guarded P t) (c : Core) : ({ d with core := c } : Device).Guarded P t :=
  ⟨h.single, h.safe, h.prompt⟩

/-- Its worker becomes idle while the gate stays safe. -/
theorem idle (hsingle : ∀ t', t' ≠ t → d.worker t' = .idle) (hsafe : GateSafe P d.clock d.auth d.log) :
    (d.setWorker t .idle).Guarded P t where
  single t' ht' := by rw [setWorker_of_ne ht']; exact hsingle t' ht'
  safe := hsafe
  prompt r first hp := by rw [setWorker_self] at hp; cases hp

/-- An approved command concludes. -/
theorem conclude (hsingle : ∀ t', t' ≠ t → d.worker t' = .idle) (hsafe : GateSafe P d.clock d.auth d.log)
    (happ : Approved P d.clock d.log) (hcool : Cooled P d.clock d.log) (io : Io) (rest : Rest) :
    (d.conclude P t io rest).Guarded P t := by
  rw [conclude_eq]
  refine idle (d := { d with
    core := (finish P io d.jiffies rest d.core).core
    log := ((concluded P t io rest d).map (d.clock, ·)).reverse ++ d.log }) hsingle ?_
  refine hsafe.concluded happ hcool fun e he => ?_
  simp only [Device.concluded, List.mem_append, List.mem_map] at he
  rcases he with ⟨e', _, rfl⟩ | he
  · trivial
  · split at he
    · rw [List.mem_singleton.mp he]; trivial
    · cases he

theorem enter (h : d.Guarded P t) (io : Io) (cmd : Command) : (d.enter P t io cmd).Guarded P t := by
  rcases enter_cases (P := P) t io cmd d with ⟨_, c, _, heq⟩ | ⟨ask, rest, c, _, hgate⟩
  · rw [heq]; exact (h.withCore c).setWorker (.inl rfl)
  rcases hgate with ⟨hd, heq⟩ | ⟨hd, hg, heq⟩ | ⟨hd, hg, heq⟩ <;> rw [heq]
  · -- In the cooldown there is no grant.
    have hnocache : d.auth.cacheValid = false := by
      simp only [Auth.denies, Bool.and_eq_true] at hd
      exact h.safe.excl hd.1
    refine idle (d := ((({ d with core := c } : Device).note (.asked t)).note (.denied t))) h.single ?_
    have hasked := h.safe.asked t fun hc => by rw [hnocache] at hc; cases hc
    exact hasked.note id id (fun hn => hn.elim) fun hp => hp.elim
  · have hcool := h.safe.cooled hd
    obtain ⟨m, hlt, _, hsince⟩ := h.safe.granted hg
    have hsafe := (h.safe.asked t fun _ => hg).withAuth (hcool.note id) { d.auth with denyValid := false } rfl
      fun hc => ⟨hc, rfl⟩
    have hgranted := hsafe.note (e := .granted t) id id (fun hn => hn.elim) fun _ => hcool.note id
    refine conclude (d := Device.note (.granted t) (Device.note (.asked t)
      { d with core := c, auth := { d.auth with denyValid := false } })) h.single hgranted ?_
      ((hcool.note id).note id) io rest
    refine .inr (.inr ⟨id, .inr ⟨id, hsince.imp (fun x past hx => ⟨hx.1, ?_⟩) fun _ hx => hx⟩⟩)
    rw [hx.2]
    exact hlt
  · have hcool := h.safe.cooled hd
    have hopen := h.safe.withAuth hcool (d.auth.openPrompt ask) rfl fun hc => by cases hc
    have hsafe := (hopen.asked t fun hc => by cases hc).note (e := .opened t (d.auth.requestId + 1)) id id
      (fun hn => hn.elim) fun _ => hcool.note id
    refine ⟨fun t' ht' => ?_, hsafe, fun r first hp => ?_⟩
    · rw [setWorker_of_ne ht']; exact h.single t' ht'
    · rw [setWorker_self] at hp
      cases hp
      exact ⟨(hcool.note id).note id, rfl, .inl rfl, fun ha => by cases ha⟩

theorem resume (h : d.Guarded P t) (io : Io) {r : UInt32} {first : Option Bool} {timedOut : Bool}
    {rest : Rest} (hw : d.worker t = .awake r first timedOut rest) :
    (d.resume P t io r first timedOut rest).Guarded P t := by
  have hprompt := h.prompt r first (by rw [hw]; rfl)
  obtain ⟨hallow, hdeny⟩ := deadline_eq P d
  have hrefused : ∀ a, a.cacheValid = false → a.denyValid = true → a.denyExpires = d.jiffies + msecsToJiffies P authDenyMs →
      (Device.setWorker t .idle (Device.note (.ended t r first false) { d with auth := a })).Guarded P t :=
    fun a hc hv he => idle h.single (h.safe.refused hprompt.cooled hc hv (he.trans hdeny))
  have hallowed : ∀ a, Accepted t r d.log → a.denyValid = false →
      a.cacheExpires = d.jiffies + msecsToJiffies P authCacheMs →
      (Device.conclude P t io rest (Device.note (.ended t r first true) { d with auth := a })).Guarded P t :=
    fun a hacc hv he => conclude (d := Device.note (.ended t r first true) { d with auth := a }) h.single (h.safe.allowed hprompt.cooled hacc hv (he.trans hallow))
      (.inl (.inl ⟨t, r, first, rfl, hacc⟩)) (hprompt.cooled.note id) io rest
  cases timedOut with
  | true => exact hrefused _ rfl rfl rfl
  | false =>
    simp only [Device.resume, WaitRet.ofTimeout, authEndLocked]
    by_cases ha : d.auth.allowed = true
    · rw [if_pos ha]
      exact hallowed _ (hprompt.allowed ha) rfl rfl
    · rw [if_neg ha]
      exact hrefused _ rfl rfl rfl

/-- A decision comes: at most it allows the prompt that is open. -/
theorem authDecide (h : d.Guarded P t) (allow : Bool) (reqId : Option UInt32) :
    (d.authDecide allow reqId).Guarded P t := by
  rcases authDecide_cases allow reqId d with ⟨_, heq⟩ | ⟨_, heq⟩ <;> rw [heq]
  · exact h
  refine ⟨fun t' ht' => ?_, (h.safe.decided allow).note id id (fun hn => hn.elim) fun hp => hp.elim, fun r first hp => ?_⟩
  · show (d.worker t').hear d.auth.requestId allow = .idle
    rw [h.single t' ht']
    rfl
  · obtain ⟨first', hp⟩ := (d.worker t).prompt_of_hear hp
    obtain ⟨hcool, hr, hopen, _⟩ := h.prompt r first' hp
    refine ⟨hcool.note id, hr, .inr ⟨id, hopen⟩, fun ha => .inl ⟨?_, hopen⟩⟩
    show Event.accepted d.auth.requestId allow = .accepted r true
    rw [hr, show allow = true from ha]

theorem step (h : d.Guarded P t) {a : Action} (hok : d.Single t a) (hstep : d.step P a = some d') :
    d'.Guarded P t := by
  obtain ⟨hon, htick⟩ := hok
  cases a with
  | tick n =>
    cases hstep
    have hn : ∀ g, d.log.find? (·.2.UsesGate) = some g → d.clock + n < g.1 + 2 ^ 63 := fun g hg =>
      htick n g.1 rfl (by rw [lastGate, hg]; rfl)
    refine ⟨h.single, h.safe.tick hn, fun r first hp => ?_⟩
    obtain ⟨hcool, hr, hopen, hall⟩ := h.prompt r first hp
    exact ⟨fun y hy hry => (hcool y hy hry).trans (Nat.le_add_right _ _), hr, hopen, hall⟩
  | receive t' msg allocOk =>
    cases hon
    simp only [Device.step] at hstep
    split at hstep
    · split at hstep <;> cases hstep
      · exact (h.withCore _).setWorker (.inl rfl)
      · exact h.withCore _
      · exact (h.withCore _).setWorker (.inl rfl)
    · cases hstep
  | enter t' io =>
    cases hon
    simp only [Device.step] at hstep
    split at hstep <;> cases hstep
    exact h.enter io _
  | wake t' =>
    cases hon
    simp only [Device.step] at hstep
    split at hstep
    · next r first rest hw =>
      split at hstep <;> cases hstep
      exact h.setWorker (.inr (by rw [hw]; rfl))
    · cases hstep
  | expire t' =>
    cases hon
    simp only [Device.step] at hstep
    split at hstep
    · next r first rest hw =>
      split at hstep <;> cases hstep
      exact h.setWorker (.inr (by rw [hw]; rfl))
    · cases hstep
  | resume t' io =>
    cases hon
    simp only [Device.step] at hstep
    split at hstep
    · next r first timedOut rest hw => cases hstep; exact h.resume io hw
    · cases hstep
  | decide allow id => cases hstep; exact h.authDecide allow id
  | blobRead | blobWrite | restore | persist | pinReset => cases hstep; exact h.withCore _

end Device.Guarded

/-- **No key use without an approval**: on one transport, while the clock
does not run half its range past the gate, what a gated command brings about
has an approval of its own or one within the grant window, and nothing
passes the gate in the cooldown. -/
theorem Device.onlyApproved_of_single (P : Platform) (t : Transport) (file : File) (clock : Nat) (as : List Action)
    (d : Device) (h : Runs (step P) (Single t) (boot file clock) as d) : d.OnlyApproved P := by
  have hg := h.invariant (I := Guarded P t) (fun _ _ _ hI hok hstep => hI.step hok hstep) (.boot file clock)
  exact ⟨hg.safe.approved, hg.safe.cooldown⟩

/-- A selection that is approved, and a second later another. -/
def selectionsRun : List Action :=
  [.receive .usb [ctapSelection] true, .enter .usb .plain, .decide true (some 1), .wake .usb, .resume .usb .plain,
    .tick 250, .receive .usb [ctapSelection] true, .enter .usb .plain]

theorem Device.onlyApproved_selectionsRun :
    (Runs.exec (step .volatile) (fun _ _ => true) (boot none 0) selectionsRun |>.getD (boot none 0)).OnlyApproved
      .volatile := by
  have hstill : ∀ {d : Device} {a : Action}, a.On .usb → (∀ n, a ≠ .tick n) → d.Single .usb a :=
    fun hon hn => ⟨hon, fun n _ ha => absurd ha (hn n)⟩
  refine onlyApproved_of_single .volatile .usb none 0 selectionsRun _ ?_
  refine .cons (hstill rfl (by simp)) rfl (.cons (hstill rfl (by simp)) rfl (.cons (hstill trivial (by simp)) rfl
    (.cons (hstill rfl (by simp)) rfl (.cons (hstill rfl (by simp)) rfl (.cons ⟨trivial, fun n g hn hg => ?_⟩ rfl
    (.cons (hstill rfl (by simp)) rfl (.cons (hstill rfl (by simp)) rfl (.nil _))))))))
  cases hn
  cases hg
  decide

/-- An approval, three waits of a quarter of the clock's range each, and
another selection: by then the grant window seems to lie ahead. -/
def staleGrantRun : List Action :=
  [.receive .usb [ctapSelection] true, .enter .usb .plain, .decide true (some 1), .wake .usb, .resume .usb .plain,
    .tick (2 ^ 62), .tick (2 ^ 62), .tick (2 ^ 62), .receive .usb [ctapSelection] true, .enter .usb .plain]

/-- Clock advances that are each shorter than half the range do not make an old grant expire. -/
theorem Device.exists_not_onlyApproved : ∃ as d,
    Runs (step .volatile) (fun _ a => a.On .usb ∧ ∀ n, a = .tick n → n < 2 ^ 63) (boot none 0) as d ∧
      ¬ d.OnlyApproved .volatile := by
  have hstill : ∀ {a : Action}, a.On .usb → (∀ n, a ≠ .tick n) → a.On .usb ∧ ∀ n, a = .tick n → n < 2 ^ 63 :=
    fun hon hn => ⟨hon, fun n ha => absurd ha (hn n)⟩
  have htick : Action.On .usb (.tick (2 ^ 62)) ∧ ∀ n, Action.tick (2 ^ 62) = .tick n → n < 2 ^ 63 :=
    ⟨trivial, fun n hn => by cases hn; decide⟩
  obtain ⟨d, hrun, hlog⟩ : ∃ d,
      Runs (step .volatile) (fun _ a => a.On .usb ∧ ∀ n, a = .tick n → n < 2 ^ 63) (boot none 0) staleGrantRun d ∧
        d.log = [(3 * 2 ^ 62, .succeeded .usb .selection), (3 * 2 ^ 62, .granted .usb), (3 * 2 ^ 62, .asked .usb),
          (0, .succeeded .usb .selection), (0, .ended .usb 1 (some true) true), (0, .accepted 1 true),
          (0, .opened .usb 1), (0, .asked .usb)] := by
    refine ⟨_, .cons (hstill rfl (by simp)) rfl (.cons (hstill rfl (by simp)) rfl (.cons (hstill trivial (by simp)) rfl
      (.cons (hstill rfl (by simp)) rfl (.cons (hstill rfl (by simp)) rfl (.cons htick rfl (.cons htick rfl
      (.cons htick rfl (.cons (hstill rfl (by simp)) rfl (.cons (hstill rfl (by simp)) rfl (.nil _)))))))))), rfl⟩
  refine ⟨staleGrantRun, d, hrun, fun h => ?_⟩
  have happ := h.approved
  rw [hlog] at happ
  have := happ.1 trivial
  simp [Approved, Approves, Event.Refuses, Event.Asks, authWindow, Platform.volatile] at this

end AbkFido
