/-
The walk over the assertions of one request.

`Walking` follows the commands as a client sees them: an answered
`getAssertion` that matched several slots begins a walk over them, each
answered `getNextAssertion` takes one, and every other command ends it, as
does the window running out. The device keeps what is promised there
(`Walking.Answers`) in every regular run; it does not where a malformed
`getAssertion` arrives in a walk, which ends nothing.
-/
import AbkFido.Continue
import AbkFido.Signing

namespace AbkFido

open Device

variable {P : Platform}

/-- `ABK_FIDO_ASSERT_WINDOW_MS` in jiffies. -/
def assertWindow (P : Platform) : Nat := (30000 * P.hz + 999) / 1000

theorem assertWindow_le (P : Platform) : assertWindow P ≤ 30000 := by
  have h := P.hz_le
  simp only [assertWindow]
  omega

theorem assertDeadline_eq (P : Platform) (d : Device) :
    d.jiffies + msecsToJiffies P assertWindowMs = .ofNat (d.clock + assertWindow P) := by
  simp only [jiffies, msecsToJiffies, assertWindowMs, assertWindow, UInt64.ofNat_add]

/-! ## The walk -/

/-- The slots a `getAssertion` matched, and how many have been returned. -/
structure Walk where
  slots : List (Fin maxCreds)
  served : Nat
  deriving DecidableEq

/-- The slot that is to be returned next. -/
def Walk.due (w : Walk) : Option (Fin maxCreds) := w.slots[w.served]?

/-- After one more slot: over, when it was the last. -/
def Walk.advance (w : Walk) : Option Walk :=
  if w.slots.length ≤ w.served + 1 then none else some { w with served := w.served + 1 }

/-- The device, and the walk of its clients. -/
structure Walking where
  device : Device
  walk : Option Walk
  /-- When the walk was last answered. -/
  last : Nat
  /-- What the `getAssertion` of a transport matched. -/
  matched : Transport → List (Fin maxCreds)
  /-- The walk the `getNextAssertion` of a transport was called on. -/
  call : Transport → Option Walk

namespace Walking

def boot (file : File) (clock : Nat) : Walking where
  device := .boot file clock
  walk := none
  last := clock
  matched _ := []
  call _ := none

/-- The walk, while its window lasts. -/
def openWalk (P : Platform) (x : Walking) : Option Walk :=
  if x.device.clock < x.last + assertWindow P then x.walk else none

/-- A `getAssertion` has been answered. -/
def begin (t : Transport) (x : Walking) : Walking :=
  if (x.matched t).length ≤ 1 then x
  else { x with walk := some { slots := x.matched t, served := 1 }, last := x.device.clock }

/-- A `getNextAssertion` has been answered. -/
def advance (x : Walking) : Walking := { x with walk := x.walk.bind Walk.advance, last := x.device.clock }

end Walking

/-- A message whose command ends a walk when it arrives. A `getAssertion`
does so when it takes the lock, unless it is answered without. -/
def endsWalk (allocOk : Bool) (msg : List UInt8) : Bool :=
  match msg with
  | [] => false
  | cmd :: _ =>
    if cmd = ctapGetNextAssertion then false
    else if cmd = ctapGetAssertion then
      match parseCommand allocOk msg with
      | some (.ok _) => false
      | _ => true
    else true

/-- A step answers its command with success. -/
def Device.succeeds (P : Platform) (d : Device) (a : Action) : Bool := (d.reply P a).any fun r => r.result.isOk

namespace Walking

/-- What a step makes of the walk. -/
def follow (P : Platform) (x : Walking) : Action → Walking
  | .receive _ msg allocOk => { x with walk := if endsWalk allocOk msg then none else x.walk }
  | .enter t io =>
    match x.device.worker t with
    | .ready (.getAssertion req) =>
      let st := (loadStoreLocked P io.load io.ids x.device.core.storage).store
      let x' := { x with walk := none, matched := Function.update x.matched t (collectRpCredentials st req) }
      if x.device.succeeds P (.enter t io) then x'.begin t else x'
    | .ready .getNextAssertion =>
      let x' := { x with walk := x.openWalk P, call := Function.update x.call t (x.openWalk P) }
      if x.device.succeeds P (.enter t io) then x'.advance else x'
    | _ => x
  | .resume t io =>
    match x.device.worker t with
    | .awake _ _ _ (.getAssertion ..) => if x.device.succeeds P (.resume t io) then x.begin t else x
    | .awake _ _ _ (.getNextAssertion ..) => if x.device.succeeds P (.resume t io) then x.advance else x
    | _ => x
  | _ => x

def step (P : Platform) (x : Walking) (a : Action) : Option Walking :=
  (x.device.step P a).map fun d => { x.follow P a with device := d }

end Walking

/-! ## What is promised -/

/-- The reply returns the slot, and no other. -/
def Reply.Returns (r : Reply) (slot : Fin maxCreds) : Prop :=
  (∃ payload, r.result = .ok payload) ∧ ∃ s, r.effects = [.assertion s] ∧ s.slot = slot

def Reply.NotAllowed (r : Reply) : Prop := r.result = .error errNotAllowed ∧ r.effects = []

/-- A `getNextAssertion` of this transport waits for its approval. -/
def Worker.atNext (w : Worker) : Bool :=
  match w.rest with
  | some (.getNextAssertion ..) => true
  | _ => false

namespace Walking

/-- What a `getNextAssertion` is answered, if the step answers one: it is not
allowed without an open walk, and once approved it returns the slot that is
due, unless the walk it was called on is gone. -/
def Answers (P : Platform) (x : Walking) : Action → Prop
  | .enter t io =>
    x.device.worker t = .ready .getNextAssertion →
      match x.openWalk P with
      | none => ∃ r, x.device.reply P (.enter t io) = some r ∧ r.NotAllowed
      | some w => x.device.passes →
        ∃ r slot, x.device.reply P (.enter t io) = some r ∧ w.due = some slot ∧ r.Returns slot
  | .resume t io =>
    ∀ reqId first timedOut rest, x.device.worker t = .awake reqId first timedOut rest →
      (x.device.worker t).atNext = true → x.device.approves timedOut →
        if x.walk = x.call t then
          ∃ r w slot, x.device.reply P (.resume t io) = some r ∧ x.walk = some w ∧ w.due = some slot ∧ r.Returns slot
        else ∃ r, x.device.reply P (.resume t io) = some r ∧ r.NotAllowed
  | _ => True

/-- The steps of a regular run:
no malformed `getAssertion` arrives in a walk;
the slot that is due is still in use when it is asked for;
signatures can be made;
an approved `getNextAssertion` does not find, in place of the walk it was
called on, another that has got as far;
and the clock does not run half its range past the end of a window. -/
def Regular (P : Platform) (x : Walking) : Action → Prop
  | .tick n => x.device.core.assert = none ∨ x.device.clock + n < x.last + assertWindow P + 2 ^ 63
  | .receive _ msg allocOk =>
    msg.head? = some ctapGetAssertion → endsWalk allocOk msg = true →
      x.openWalk P = none ∧ ∀ t, (x.device.worker t).atNext = false
  | .enter t io =>
    x.device.worker t = .ready .getNextAssertion →
      io.Signs ∧ ∀ w slot, x.openWalk P = some w → w.due = some slot →
        (x.device.core.storage.store.creds slot).inUse = true
  | .resume t io =>
    (x.device.worker t).atNext = true →
      io.Signs ∧ ∀ w w', x.walk = some w → x.call t = some w' → w.served = w'.served → w = w'
  | _ => True

end Walking

/-! ## What the device keeps -/

/-- The continuation is where the walk is; one left behind is out of time,
and no one waits to use it. -/
structure Walking.Tracks (P : Platform) (x : Walking) : Prop where
  walk : ∀ w, x.walk = some w → w.served < w.slots.length ∧
    ∃ k, x.device.core.assert = some k ∧ k.slots = w.slots ∧ k.next = w.served
  stale : x.walk = none → x.device.core.assert = none ∨
    (x.last + assertWindow P ≤ x.device.clock ∧ ∀ t, (x.device.worker t).atNext = false)
  deadline : ∀ k, x.device.core.assert = some k → k.expires = .ofNat (x.last + assertWindow P) ∧
    x.device.clock < x.last + assertWindow P + 2 ^ 63
  past : x.last ≤ x.device.clock
  matched : ∀ t req slot more, (x.device.worker t).rest = some (.getAssertion req slot more) →
    x.matched t = slot :: more
  call : ∀ t slot served hash rpId, (x.device.worker t).rest = some (.getNextAssertion slot served hash rpId) →
    ∃ w, x.call t = some w ∧ served = w.served + 1 ∧ w.due = some slot

theorem Worker.atNext_iff (w : Worker) : w.atNext = true ↔
    ∃ slot served hash rpId, w.rest = some (.getNextAssertion slot served hash rpId) := by
  rw [Worker.atNext]
  split
  · next slot served hash rpId h => exact ⟨fun _ => ⟨slot, served, hash, rpId, h⟩, fun _ => rfl⟩
  · next h =>
    refine ⟨fun h' => (by cases h'), fun ⟨slot, served, hash, rpId, h'⟩ => absurd h' (h slot served hash rpId)⟩

theorem Worker.atNext_congr {w w' : Worker} (h : w'.rest = none ∨ w'.rest = w.rest) (hw : w.atNext = false) :
    w'.atNext = false := by
  rcases h with h | h
  · rw [Worker.atNext, h]
  · rw [Worker.atNext, h]
    exact hw

namespace Walking.Tracks

variable {x : Walking} {d : Device} {t : Transport}

theorem boot (file : File) (clock : Nat) : (Walking.boot file clock).Tracks P where
  walk w h := by cases h
  stale _ := .inl rfl
  deadline k h := by cases h
  past := le_rfl
  matched t req slot more h := by cases h
  call t slot served hash rpId h := by cases h

/-- A step that leaves the continuation and the clock alone and opens no prompt. -/
theorem frame (h : x.Tracks P) (hassert : d.core.assert = x.device.core.assert) (hclock : d.clock = x.device.clock)
    (hw : ∀ t, (d.worker t).rest = none ∨ (d.worker t).rest = (x.device.worker t).rest) :
    ({ x with device := d } : Walking).Tracks P where
  walk w hx := by
    rw [show ({ x with device := d } : Walking).device = d from rfl, hassert]
    exact h.walk w hx
  stale hx := by
    rw [show ({ x with device := d } : Walking).device = d from rfl, hassert, hclock]
    exact (h.stale hx).imp_right fun hs => ⟨hs.1, fun t => Worker.atNext_congr (hw t) (hs.2 t)⟩
  deadline k hk := by
    rw [show ({ x with device := d } : Walking).device = d from rfl] at *
    rw [hclock]
    exact h.deadline k (hassert ▸ hk)
  past := hclock ▸ h.past
  matched t req slot more hr := by
    rcases hw t with hn | hs
    · exact absurd (hn.symm.trans hr) (by simp)
    · exact h.matched t req slot more (hs ▸ hr)
  call t slot served hash rpId hr := by
    rcases hw t with hn | hs
    · exact absurd (hn.symm.trans hr) (by simp)
    · exact h.call t slot served hash rpId (hs ▸ hr)

/-- The walk ends with the continuation. -/
theorem ended (h : x.Tracks P) (hassert : d.core.assert = none) (hclock : d.clock = x.device.clock)
    (hw : ∀ t, (d.worker t).rest = none ∨ (d.worker t).rest = (x.device.worker t).rest) :
    ({ x with walk := none, device := d } : Walking).Tracks P where
  walk w hx := by cases hx
  stale _ := .inl hassert
  deadline k hk := by
    rw [show ({ x with walk := none, device := d } : Walking).device = d from rfl, hassert] at hk
    cases hk
  past := hclock ▸ h.past
  matched t req slot more hr := by
    rcases hw t with hn | hs
    · exact absurd (hn.symm.trans hr) (by simp)
    · exact h.matched t req slot more (hs ▸ hr)
  call t slot served hash rpId hr := by
    rcases hw t with hn | hs
    · exact absurd (hn.symm.trans hr) (by simp)
    · exact h.call t slot served hash rpId (hs ▸ hr)

/-- The walk ends while its continuation, out of time, is left behind. -/
theorem lapsed (h : x.Tracks P)
    (hout : x.last + assertWindow P ≤ x.device.clock ∧ ∀ t, (x.device.worker t).atNext = false) :
    ({ x with walk := none } : Walking).Tracks P where
  walk w hx := by cases hx
  stale _ := .inr hout
  deadline := h.deadline
  past := h.past
  matched := h.matched
  call := h.call

/-- A transport without a waiting command takes up another. -/
theorem rematch (h : x.Tracks P) (hr : (x.device.worker t).rest = none) (slots : List (Fin maxCreds)) (w : Option Walk) :
    ({ x with matched := Function.update x.matched t slots } : Walking).Tracks P ∧
      ({ x with call := Function.update x.call t w } : Walking).Tracks P := by
  refine ⟨⟨h.walk, h.stale, h.deadline, h.past, fun t' req slot more hr' => ?_, h.call⟩,
    ⟨h.walk, h.stale, h.deadline, h.past, h.matched, fun t' slot served hash rpId hr' => ?_⟩⟩
  · have hne : t' ≠ t := by
      rintro rfl
      exact absurd (hr.symm.trans hr') (by simp)
    simp only [Function.update_of_ne hne]
    exact h.matched t' req slot more hr'
  · have hne : t' ≠ t := by
      rintro rfl
      exact absurd (hr.symm.trans hr') (by simp)
    simp only [Function.update_of_ne hne]
    exact h.call t' slot served hash rpId hr'

/-- A command opens its prompt. -/
theorem waiting (h : x.Tracks P) (r : UInt32) {rest : Rest}
    (hm : ∀ req slot more, rest = .getAssertion req slot more → x.matched t = slot :: more)
    (hc : ∀ slot served hash rpId, rest = .getNextAssertion slot served hash rpId →
      x.walk ≠ none ∧ ∃ w, x.call t = some w ∧ served = w.served + 1 ∧ w.due = some slot) :
    ({ x with device := x.device.setWorker t (.waiting r none rest) } : Walking).Tracks P where
  walk := h.walk
  stale hx := by
    refine (h.stale hx).imp_right fun hs => ⟨hs.1, fun t' => ?_⟩
    by_cases hne : t' = t
    · subst hne
      show ((x.device.setWorker t' (.waiting r none rest)).worker t').atNext = false
      rw [setWorker_self]
      by_contra hnext
      rw [Bool.not_eq_false, Worker.atNext_iff] at hnext
      obtain ⟨slot, served, hash, rpId, heq⟩ := hnext
      exact (hc slot served hash rpId (Option.some.inj heq)).1 hx
    · show ((x.device.setWorker t (.waiting r none rest)).worker t').atNext = false
      rw [setWorker_of_ne hne]
      exact hs.2 t'
  deadline := h.deadline
  past := h.past
  matched t' req slot more hr := by
    by_cases hne : t' = t
    · subst hne
      rw [show ({ x with device := x.device.setWorker t' (.waiting r none rest) } : Walking).device =
        x.device.setWorker t' (.waiting r none rest) from rfl, setWorker_self] at hr
      exact hm req slot more (Option.some.inj hr)
    · rw [show ({ x with device := x.device.setWorker t (.waiting r none rest) } : Walking).device =
        x.device.setWorker t (.waiting r none rest) from rfl, setWorker_of_ne hne] at hr
      exact h.matched t' req slot more hr
  call t' slot served hash rpId hr := by
    by_cases hne : t' = t
    · subst hne
      rw [show ({ x with device := x.device.setWorker t' (.waiting r none rest) } : Walking).device =
        x.device.setWorker t' (.waiting r none rest) from rfl, setWorker_self] at hr
      exact (hc slot served hash rpId (Option.some.inj hr)).2
    · rw [show ({ x with device := x.device.setWorker t (.waiting r none rest) } : Walking).device =
        x.device.setWorker t (.waiting r none rest) from rfl, setWorker_of_ne hne] at hr
      exact h.call t' slot served hash rpId hr

/-! ## Answers -/

theorem conclude_rest (d : Device) (t : Transport) (io : Io) (rest : Rest) (t' : Transport) :
    ((d.conclude P t io rest).worker t').rest = none ∨
      ((d.conclude P t io rest).worker t').rest = (d.worker t').rest := by
  rw [conclude_eq]
  by_cases hne : t' = t
  · subst hne
    exact .inl (by simp [Worker.rest])
  · exact .inr (by simp [Function.update_of_ne hne])

/-- A command that is not part of a walk concludes. -/
theorem concludeOther (h : x.Tracks P) (io : Io) {rest : Rest} (hr : rest.walks = false) :
    ({ x with device := x.device.conclude P t io rest } : Walking).Tracks P := by
  refine h.frame ?_ ?_ (conclude_rest x.device t io rest)
  · rw [conclude_eq]
    exact finish_assert_other hr
  · rw [conclude_eq]

/-- A walk begins at the same clock whatever else the device did. -/
theorem begin_device (x : Walking) {d : Device} (hclock : d.clock = x.device.clock) (t : Transport) (b : Bool) (d' : Device) :
    ({ (if b then ({ x with device := d } : Walking).begin t else { x with device := d }) with device := d' } : Walking) =
      { (if b then x.begin t else x) with device := d' } := by
  cases b with
  | false => rfl
  | true =>
    simp only [if_true, Walking.begin, hclock]
    split <;> rfl

/-- `getAssertion` concludes. -/
theorem concludeGetAssertion (h : x.Tracks P) (io : Io) {req : GetAssertReq} {slot : Fin maxCreds}
    {more : List (Fin maxCreds)} (hm : x.matched t = slot :: more) :
    ({ (if (finish P io x.device.jiffies (.getAssertion req slot more) x.device.core).result.isOk then x.begin t else x)
      with device := x.device.conclude P t io (.getAssertion req slot more) } : Walking).Tracks P := by
  have hassert := getAssertion_assert (P := P) io x.device.jiffies req slot more x.device.core
  have hworker := conclude_rest (P := P) x.device t io (.getAssertion req slot more)
  have hcore : (x.device.conclude P t io (.getAssertion req slot more)).core =
      (finish P io x.device.jiffies (.getAssertion req slot more) x.device.core).core := by rw [conclude_eq]
  have hclock : (x.device.conclude P t io (.getAssertion req slot more)).clock = x.device.clock := by rw [conclude_eq]
  cases hres : (finish P io x.device.jiffies (.getAssertion req slot more) x.device.core).result with
  | error e =>
    rw [hres] at hassert
    exact h.frame (hcore ▸ hassert) hclock hworker
  | ok payload =>
    rw [hres] at hassert
    by_cases hmore : more = []
    · rw [if_pos hmore] at hassert
      have hbegin : x.begin t = x := by rw [Walking.begin, hm, hmore, if_pos (by simp)]
      rw [hbegin, ite_self]
      exact h.frame (hcore ▸ hassert) hclock hworker
    · rw [if_neg hmore] at hassert
      have hlen : 1 < (slot :: more).length := by
        have := List.length_pos_of_ne_nil hmore
        rw [List.length_cons]
        omega
      have hbegin : x.begin t = { x with walk := some ⟨slot :: more, 1⟩, last := x.device.clock } := by
        rw [Walking.begin, hm, if_neg (by omega)]
      rw [Except.isOk, Except.toBool, if_pos rfl, hbegin]
      refine ⟨fun w hw => ?_, fun hx => (by cases hx), fun k hk => ?_, hclock.ge, fun t' req' slot' more' hr => ?_,
        fun t' slot' served hash rpId hr => ?_⟩
      · cases hw
        exact ⟨hlen, _, hcore ▸ hassert, rfl, rfl⟩
      · have hsome : (x.device.conclude P t io (.getAssertion req slot more)).core.assert =
            some (continuationOf P x.device.jiffies req (slot :: more)) := hcore ▸ hassert
        cases hsome.symm.trans hk
        refine ⟨assertDeadline_eq P x.device, ?_⟩
        show (x.device.conclude P t io (.getAssertion req slot more)).clock < _
        rw [hclock]
        show x.device.clock < x.device.clock + assertWindow P + 2 ^ 63
        omega
      · rcases hworker t' with hn | hs
        · exact absurd (hn.symm.trans hr) (by simp)
        · exact h.matched t' req' slot' more' (hs ▸ hr)
      · rcases hworker t' with hn | hs
        · exact absurd (hn.symm.trans hr) (by simp)
        · exact h.call t' slot' served hash rpId (hs ▸ hr)

/-- `getNextAssertion` concludes: with the slot that is due, or without a
signature when the walk it was called on is gone. -/
theorem concludeNext (h : x.Tracks P) (hsha : ∀ bs, (P.sha256 bs).length = 32) {io : Io} (hio : io.Signs) {w₀ : Walk}
    (slot : Fin maxCreds) (hsame : ∀ w, x.walk = some w → w.served = w₀.served → w = w₀)
    (hgone : x.walk = none → x.device.core.assert = none) (hash : Bytes 32) (rpId : List UInt8) :
    let rest := Rest.getNextAssertion slot (w₀.served + 1) hash rpId
    let o := finish P io x.device.jiffies rest x.device.core
    (x.walk = some w₀ ∧ (o.reply t).Returns slot ∧
      ({ x.advance with device := x.device.conclude P t io rest } : Walking).Tracks P) ∨
    (x.walk ≠ some w₀ ∧ (o.reply t).NotAllowed ∧
      ({ x with device := x.device.conclude P t io rest } : Walking).Tracks P) := by
  intro rest o
  have hworker := conclude_rest (P := P) x.device t io rest
  have hcore : (x.device.conclude P t io rest).core = o.core := by rw [conclude_eq]
  have hclock : (x.device.conclude P t io rest).clock = x.device.clock := by rw [conclude_eq]
  have hmatched : ∀ t' req' slot' more', ((x.device.conclude P t io rest).worker t').rest =
      some (.getAssertion req' slot' more') → x.matched t' = slot' :: more' := by
    intro t' req' slot' more' hr
    rcases hworker t' with hn | hs
    · exact absurd (hn.symm.trans hr) (by simp)
    · exact h.matched t' req' slot' more' (hs ▸ hr)
  have hcall : ∀ t' slot' served' hash' rpId', ((x.device.conclude P t io rest).worker t').rest =
      some (.getNextAssertion slot' served' hash' rpId') →
      ∃ w, x.call t' = some w ∧ served' = w.served + 1 ∧ w.due = some slot' := by
    intro t' slot' served' hash' rpId' hr
    rcases hworker t' with hn | hs
    · exact absurd (hn.symm.trans hr) (by simp)
    · exact h.call t' slot' served' hash' rpId' (hs ▸ hr)
  by_cases hwalk : x.walk = some w₀
  · refine .inl ⟨hwalk, ?_⟩
    obtain ⟨hlt, k, hk, hslots, hnext⟩ := h.walk w₀ hwalk
    obtain ⟨⟨payload, s, hres, heff, hslot⟩, hassert⟩ :=
      getNextAssertion_served hsha hio x.device.jiffies slot hash rpId hk
    rw [hnext] at hres heff hassert
    refine ⟨⟨⟨payload, hres⟩, s, heff, hslot⟩, ?_⟩
    rw [hslots] at hassert
    by_cases hlast : w₀.slots.length ≤ w₀.served + 1
    · rw [if_pos hlast] at hassert
      have hnone : (x.device.conclude P t io rest).core.assert = none := hcore ▸ hassert
      have hadv : x.walk.bind Walk.advance = none := by
        rw [hwalk, Option.bind_some, Walk.advance, if_pos hlast]
      refine ⟨fun w hw => ?_, fun _ => .inl hnone, fun k' hk' => ?_, hclock.ge, hmatched, hcall⟩
      · cases hadv.symm.trans hw
      · cases hnone.symm.trans hk'
    · rw [if_neg hlast] at hassert
      have hsome : (x.device.conclude P t io rest).core.assert =
          some { k with slots := w₀.slots, next := w₀.served + 1, expires := x.device.jiffies + msecsToJiffies P assertWindowMs } :=
        hcore ▸ hassert
      have hadv : x.walk.bind Walk.advance = some { w₀ with served := w₀.served + 1 } := by
        rw [hwalk, Option.bind_some, Walk.advance, if_neg hlast]
      refine ⟨fun w hw => ?_, fun hx => ?_, fun k' hk' => ?_, hclock.ge, hmatched, hcall⟩
      · cases hadv.symm.trans hw
        exact ⟨Nat.lt_of_not_le hlast, _, hsome, rfl, rfl⟩
      · cases hadv.symm.trans hx
      · cases hsome.symm.trans hk'
        refine ⟨assertDeadline_eq P x.device, ?_⟩
        show (x.device.conclude P t io rest).clock < x.device.clock + assertWindow P + 2 ^ 63
        rw [hclock]
        omega
  · refine .inr ⟨hwalk, ?_⟩
    have hlost : ∀ k, x.device.core.assert = some k → k.next + 1 ≠ w₀.served + 1 := by
      intro k hk heq
      cases hx : x.walk with
      | none => rw [hgone hx] at hk; cases hk
      | some w =>
        obtain ⟨-, k', hk', -, hnext⟩ := h.walk w hx
        rw [hk] at hk'
        cases hk'
        exact hwalk (hx.trans (congrArg some (hsame w hx (by omega))))
    have ho : o = ⟨x.device.core, .error errNotAllowed, []⟩ := getNextAssertion_lost hlost
    refine ⟨by rw [ho]; exact ⟨rfl, rfl⟩, h.frame ?_ hclock hworker⟩
    rw [hcore, ho]

/-! ## Steps -/

theorem openWalk_eq {w : Walk} (hw : x.openWalk P = some w) :
    x.walk = some w ∧ x.device.clock < x.last + assertWindow P := by
  rw [Walking.openWalk] at hw
  split at hw
  · next hlt => exact ⟨hw, hlt⟩
  · cases hw

/-- Without an open walk no continuation may be gone on with. -/
theorem late (h : x.Tracks P) (hx : x.openWalk P = none) {k : Continuation} (hk : x.device.core.assert = some k) :
    timeBefore x.device.jiffies k.expires = false := by
  obtain ⟨hexp, hnear⟩ := h.deadline k hk
  have hout : x.last + assertWindow P ≤ x.device.clock := by
    by_contra hlt
    rw [Walking.openWalk, if_pos (by omega)] at hx
    rcases h.stale hx with hnone | ⟨hout, -⟩
    · rw [hnone] at hk
      cases hk
    · omega
  rw [hexp]
  exact timeBefore_of_le hout hnear

theorem setWorker_rest (d : Device) (t : Transport) {w : Worker} (hw : w.rest = none) (t' : Transport) :
    ((d.setWorker t w).worker t').rest = none ∨ ((d.setWorker t w).worker t').rest = (d.worker t').rest := by
  by_cases hne : t' = t
  · subst hne
    rw [setWorker_self]
    exact .inl hw
  · rw [setWorker_of_ne hne]
    exact .inr rfl

/-- Called on no walk, `getNextAssertion` goes no further. -/
theorem start_closed (h : x.Tracks P) (hx : x.openWalk P = none) (io : Io) :
    start P io x.device.jiffies .getNextAssertion x.device.core =
      (.done (.error errNotAllowed), x.device.core.clearAssertState) := by
  rcases start_getNextAssertion_cases (P := P) io x.device.jiffies x.device.core with
    ⟨-, hstart⟩ | ⟨k, slot, hk, -, htime, -⟩
  · exact hstart
  · rw [h.late hx hk] at htime
    cases htime

/-- Called on a walk, it asks approval for the slot that is due. -/
theorem start_open (h : x.Tracks P) {w : Walk} (hx : x.openWalk P = some w) (io : Io)
    (huse : ∀ slot, w.due = some slot → (x.device.core.storage.store.creds slot).inUse = true) :
    ∃ slot ask hash rpId, w.due = some slot ∧ start P io x.device.jiffies .getNextAssertion x.device.core =
      (.ask ask (.getNextAssertion slot (w.served + 1) hash rpId), x.device.core) := by
  obtain ⟨hwalk, hlt⟩ := openWalk_eq hx
  obtain ⟨hserved, k, hk, hslots, hnext⟩ := h.walk w hwalk
  have hdue : k.slots[k.next]? = w.due := by rw [hslots, hnext, Walk.due]
  have htime : timeBefore x.device.jiffies k.expires = true := by
    have hpast := h.past
    have hwindow := assertWindow_le P
    rw [(h.deadline k hk).1]
    exact timeBefore_of_lt hlt (by omega)
  rcases start_getNextAssertion_cases (P := P) io x.device.jiffies x.device.core with ⟨hlate, -⟩ | ⟨k', slot, hk', hslot, -, hstart⟩
  · obtain ⟨slot, hslot⟩ : ∃ slot, w.slots[w.served]? = some slot := ⟨_, List.getElem?_eq_getElem hserved⟩
    rw [hlate k hk slot (hdue.trans hslot)] at htime
    cases htime
  · rw [hk] at hk'
    cases hk'
    have hdue' : w.due = some slot := hdue.symm.trans hslot
    rw [huse slot hdue', if_pos rfl, hnext] at hstart
    exact ⟨slot, _, _, _, hdue', hstart⟩

/-- `getNextAssertion` takes the lock. -/
theorem enterNext (h : x.Tracks P) (hsha : ∀ bs, (P.sha256 bs).length = 32) {io : Io}
    (hw : x.device.worker t = .ready .getNextAssertion) (hok : x.Regular P (.enter t io)) :
    x.Answers P (.enter t io) ∧
      ({ x.follow P (.enter t io) with device := x.device.enter P t io .getNextAssertion } : Walking).Tracks P := by
  obtain ⟨hio, huse⟩ := hok hw
  have hrest : (x.device.worker t).rest = none := by rw [hw]; rfl
  have hfollow : x.follow P (.enter t io) =
      if x.device.succeeds P (.enter t io) then
        ({ x with walk := x.openWalk P, call := Function.update x.call t (x.openWalk P) } : Walking).advance
      else { x with walk := x.openWalk P, call := Function.update x.call t (x.openWalk P) } := by
    simp only [Walking.follow, hw]
  have hcall := (h.rematch hrest [] (x.openWalk P)).2
  have hanswer : x.Answers P (.enter t io) = (x.device.worker t = .ready .getNextAssertion →
      match x.openWalk P with
      | none => ∃ r, x.device.reply P (.enter t io) = some r ∧ r.NotAllowed
      | some w => x.device.passes →
        ∃ r slot, x.device.reply P (.enter t io) = some r ∧ w.due = some slot ∧ r.Returns slot) := rfl
  rw [hfollow, hanswer]
  cases hx : x.openWalk P with
  | none =>
    have hstart := h.start_closed hx io
    rcases enter_reply (P := P) hw io with ⟨res, c, hs, hreply, heq⟩ | ⟨ask, rest, c, hs, -⟩
    · rw [hstart] at hs
      cases hs
      have hno : x.device.succeeds P (.enter t io) = false := by rw [Device.succeeds, hreply]; rfl
      refine ⟨fun _ => ⟨_, hreply, rfl, rfl⟩, ?_⟩
      rw [hno, if_neg (by decide), heq]
      rw [hx] at hcall
      exact hcall.ended rfl rfl (setWorker_rest _ t rfl)
    · rw [hstart] at hs
      cases hs
  | some w =>
    obtain ⟨slot, ask, hash, rpId, hdue, hstart⟩ := h.start_open hx io fun slot => huse w slot hx
    have hwalk : x.walk = some w := (openWalk_eq hx).1
    have hx' : ({ x with walk := some w, call := Function.update x.call t (some w) } : Walking) =
        { x with call := Function.update x.call t (some w) } := by rw [← hwalk]
    rw [hx] at hcall
    rw [hx']
    rcases enter_reply (P := P) hw io with ⟨res, c, hs, -⟩ | ⟨ask', rest, c, hs, hgate⟩
    · rw [hstart] at hs
      cases hs
    rw [hstart] at hs
    cases hs
    rcases hgate with ⟨hpass, hreply, heq⟩ | ⟨hpass, hreply, heq⟩ | ⟨hpass, hreply, heq⟩
    · -- In the cooldown.
      have hno : x.device.succeeds P (.enter t io) = false := by rw [Device.succeeds, hreply]; rfl
      refine ⟨fun _ hp => absurd hp hpass, ?_⟩
      rw [hno, if_neg (by decide), heq]
      exact hcall.frame rfl rfl (setWorker_rest _ t rfl)
    · -- In the grant window.
      have hgranted : ({ x with
          call := Function.update x.call t (some w)
          device := ((({ x.device with auth := { x.device.auth with denyValid := false } } : Device).note (.asked t)).note
            (.granted t)) } : Walking).Tracks P := hcall.frame rfl rfl fun _ => .inr rfl
      rcases hgranted.concludeNext (t := t) hsha hio slot (fun w' hw' _ => Option.some.inj (hw'.symm.trans hwalk))
          (fun hnone => by rw [show x.walk = none from hnone] at hwalk; cases hwalk) hash rpId with
        ⟨-, hret, htracks⟩ | ⟨hne, -⟩
      · have hyes : x.device.succeeds P (.enter t io) = true := by
          obtain ⟨⟨payload, hres⟩, -⟩ := hret
          rw [Device.succeeds, hreply, Option.any_some]
          rw [show ((finish P io x.device.jiffies (.getNextAssertion slot (w.served + 1) hash rpId)
            x.device.core).reply t).result = .ok payload from hres]
          rfl
        refine ⟨fun _ _ => ⟨_, slot, hreply, hdue, hret⟩, ?_⟩
        rw [hyes, if_pos rfl, heq]
        exact htracks
      · exact absurd hwalk hne
    · -- A prompt.
      have hno : x.device.succeeds P (.enter t io) = false := by rw [Device.succeeds, hreply]; rfl
      have hopened : ({ x with
          call := Function.update x.call t (some w)
          device := ((({ x.device with auth := x.device.auth.openPrompt ask } : Device).note (.asked t)).note
            (.opened t (x.device.auth.requestId + 1))) } : Walking).Tracks P := hcall.frame rfl rfl fun _ => .inr rfl
      refine ⟨fun _ hp => absurd hp hpass, ?_⟩
      rw [hno, if_neg (by decide), heq]
      refine hopened.waiting _ (fun req slot' more heq' => by cases heq') fun slot' served hash' rpId' heq' => ?_
      cases heq'
      exact ⟨fun hnone => (by rw [show x.walk = none from hnone] at hwalk; cases hwalk),
        w, Function.update_self .., rfl, hdue⟩

/-- `getAssertion` takes the lock. -/
theorem enterGet (h : x.Tracks P) {io : Io} {req : GetAssertReq} (hw : x.device.worker t = .ready (.getAssertion req)) :
    ({ x.follow P (.enter t io) with device := x.device.enter P t io (.getAssertion req) } : Walking).Tracks P := by
  have hrest : (x.device.worker t).rest = none := by rw [hw]; rfl
  let slots := collectRpCredentials (loadStoreLocked P io.load io.ids x.device.core.storage).store req
  have hfollow : x.follow P (.enter t io) =
      if x.device.succeeds P (.enter t io) then
        ({ x with walk := none, matched := Function.update x.matched t slots } : Walking).begin t
      else { x with walk := none, matched := Function.update x.matched t slots } := by
    simp only [Walking.follow, hw, slots]
  have hassert := start_getAssertion_assert (P := P) io x.device.jiffies req x.device.core
  have hmatch := (h.rematch hrest slots none).1
  rw [hfollow]
  rcases enter_reply (P := P) hw io with ⟨res, c, hs, hreply, heq⟩ | ⟨ask, rest, c, hs, hgate⟩
  · rw [hs] at hassert
    have hended : ({ x with
        walk := none
        matched := Function.update x.matched t slots
        device := { x.device with core := c }.setWorker t .idle } : Walking).Tracks P :=
      hmatch.ended hassert rfl (setWorker_rest _ t rfl)
    cases hyes : x.device.succeeds P (.enter t io) with
    | false =>
      rw [if_neg (by decide), heq]
      exact hended
    | true =>
      exfalso
      rw [Device.succeeds, hreply, Option.any_some] at hyes
      simp only [start] at hs
      split at hs
      · cases hs
        cases hyes
      split at hs
      · cases hs
        cases hyes
      · cases hs
  rw [hs] at hassert
  obtain ⟨slot, more, rfl, hcollect⟩ := start_getAssertion_rest hs
  have hmine : Function.update x.matched t slots t = slot :: more := by
    rw [Function.update_self]
    exact hcollect
  rcases hgate with ⟨hpass, hreply, heq⟩ | ⟨hpass, hreply, heq⟩ | ⟨hpass, hreply, heq⟩
  · have hno : x.device.succeeds P (.enter t io) = false := by rw [Device.succeeds, hreply]; rfl
    rw [hno, if_neg (by decide), heq]
    exact hmatch.ended hassert rfl (setWorker_rest _ t rfl)
  · have hgranted : ({ x with
        walk := none
        matched := Function.update x.matched t slots
        device := ((({ x.device with core := c, auth := { x.device.auth with denyValid := false } } : Device).note
          (.asked t)).note (.granted t)) } : Walking).Tracks P := hmatch.ended hassert rfl fun _ => .inr rfl
    have hres : x.device.succeeds P (.enter t io) =
        (finish P io x.device.jiffies (.getAssertion req slot more) c).result.isOk := by
      rw [Device.succeeds, hreply, Option.any_some]
      rfl
    rw [hres, heq]
    have hsame := begin_device { x with walk := none, matched := Function.update x.matched t slots }
      (d := ((({ x.device with core := c, auth := { x.device.auth with denyValid := false } } : Device).note
        (.asked t)).note (.granted t))) rfl t
    exact (congrArg (Walking.Tracks P) (hsame _ _)).mp (hgranted.concludeGetAssertion io hmine)
  · have hno : x.device.succeeds P (.enter t io) = false := by rw [Device.succeeds, hreply]; rfl
    have hopened : ({ x with
        walk := none
        matched := Function.update x.matched t slots
        device := ((({ x.device with core := c, auth := x.device.auth.openPrompt ask } : Device).note (.asked t)).note
          (.opened t (x.device.auth.requestId + 1))) } : Walking).Tracks P := hmatch.ended hassert rfl fun _ => .inr rfl
    rw [hno, if_neg (by decide), heq]
    refine hopened.waiting _ (fun req' slot' more' heq' => ?_) fun slot' served hash' rpId' heq' => by cases heq'
    cases heq'
    exact hmine

/-- Any other command takes the lock. -/
theorem enterOther (h : x.Tracks P) {io : Io} {cmd : Command} (hw : x.device.worker t = .ready cmd)
    (hcmd : cmd.walks = false) :
    ({ x with device := x.device.enter P t io cmd } : Walking).Tracks P := by
  have hassert := start_assert_other (P := P) io x.device.jiffies x.device.core hcmd
  rcases enter_reply (P := P) hw io with ⟨res, c, hs, -, heq⟩ | ⟨ask, rest, c, hs, hgate⟩
  · rw [hs] at hassert
    rw [heq]
    exact h.frame hassert rfl (setWorker_rest _ t rfl)
  rw [hs] at hassert
  have hrest := start_rest_other hcmd hs
  rcases hgate with ⟨-, -, heq⟩ | ⟨-, -, heq⟩ | ⟨-, -, heq⟩ <;> rw [heq]
  · exact h.frame hassert rfl (setWorker_rest _ t rfl)
  · have hgranted : ({ x with
        device := ((({ x.device with core := c, auth := { x.device.auth with denyValid := false } } : Device).note
          (.asked t)).note (.granted t)) } : Walking).Tracks P := h.frame hassert rfl fun _ => .inr rfl
    exact hgranted.concludeOther io hrest
  · have hopened : ({ x with
        device := ((({ x.device with core := c, auth := x.device.auth.openPrompt ask } : Device).note (.asked t)).note
          (.opened t (x.device.auth.requestId + 1))) } : Walking).Tracks P := h.frame hassert rfl fun _ => .inr rfl
    refine hopened.waiting _ (fun req slot more heq' => ?_) fun slot served hash rpId heq' => ?_
    · rw [heq'] at hrest
      cases hrest
    · rw [heq'] at hrest
      cases hrest

/-- A command comes back from its wait. -/
theorem resume (h : x.Tracks P) (hsha : ∀ bs, (P.sha256 bs).length = 32) {io : Io} {r : UInt32} {first : Option Bool}
    {timedOut : Bool} {rest : Rest} (hw : x.device.worker t = .awake r first timedOut rest)
    (hok : x.Regular P (.resume t io)) :
    x.Answers P (.resume t io) ∧
      ({ x.follow P (.resume t io) with device := x.device.resume P t io r first timedOut rest } : Walking).Tracks P := by
  have hwrest : (x.device.worker t).rest = some rest := by rw [hw]; rfl
  obtain ⟨a, hgate⟩ := resume_reply (P := P) hw io
  have hended : ∀ ok, ({ x with
      device := ({ x.device with auth := a } : Device).note (.ended t r first ok) } : Walking).Tracks P :=
    fun ok => h.frame rfl rfl fun _ => .inr rfl
  rcases hgate with ⟨happ, hreply, heq⟩ | ⟨happ, hreply, heq⟩
  · have hother : rest.walks = false → x.Answers P (.resume t io) ∧
        ({ x.follow P (.resume t io) with device := x.device.resume P t io r first timedOut rest } : Walking).Tracks P := by
      intro hrest
      have hfollow : x.follow P (.resume t io) = x := by
        cases rest with
        | getAssertion | getNextAssertion => cases hrest
        | makeCredential | selectionMakeCredential | reset | selection => simp only [Walking.follow, hw]
      refine ⟨fun reqId first' timedOut' rest' _ hnext => ?_, ?_⟩
      · rw [Worker.atNext_iff, hwrest] at hnext
        obtain ⟨slot, served, hash, rpId, hnext⟩ := hnext
        cases hnext
        cases hrest
      · rw [hfollow, heq]
        exact (hended true).concludeOther io hrest
    cases rest with
    | makeCredential | selectionMakeCredential | reset | selection => exact hother rfl
    | getAssertion req slot more =>
      have hfollow : x.follow P (.resume t io) = if x.device.succeeds P (.resume t io) then x.begin t else x := by
        simp only [Walking.follow, hw]
      have hres : x.device.succeeds P (.resume t io) =
          (finish P io x.device.jiffies (.getAssertion req slot more) x.device.core).result.isOk := by
        rw [Device.succeeds, hreply, Option.any_some]
        rfl
      refine ⟨fun reqId first' timedOut' rest' _ hnext => ?_, ?_⟩
      · rw [Worker.atNext_iff, hwrest] at hnext
        obtain ⟨slot', served, hash, rpId, hnext⟩ := hnext
        cases hnext
      · rw [hfollow, hres, heq]
        have hsame := begin_device x (d := ({ x.device with auth := a } : Device).note (.ended t r first true)) rfl t
        exact (congrArg (Walking.Tracks P) (hsame _ _)).mp
          ((hended true).concludeGetAssertion io (h.matched t req slot more hwrest))
    | getNextAssertion slot served hash rpId =>
      have hnext : (x.device.worker t).atNext = true :=
        (Worker.atNext_iff _).mpr ⟨slot, served, hash, rpId, hwrest⟩
      obtain ⟨hio, hsame⟩ := hok hnext
      obtain ⟨w₀, hcall, rfl, hdue⟩ := h.call t slot served hash rpId hwrest
      have hgone : x.walk = none → x.device.core.assert = none := by
        intro hnone
        rcases h.stale hnone with hassert | ⟨-, hno⟩
        · exact hassert
        · rw [hno t] at hnext
          cases hnext
      have hfollow : x.follow P (.resume t io) = if x.device.succeeds P (.resume t io) then x.advance else x := by
        simp only [Walking.follow, hw]
      have hres : x.device.succeeds P (.resume t io) = ((finish P io x.device.jiffies
          (.getNextAssertion slot (w₀.served + 1) hash rpId) x.device.core).reply t).result.isOk := by
        rw [Device.succeeds, hreply, Option.any_some]
      rcases (hended true).concludeNext (t := t) hsha hio slot (fun w hx hs => hsame w w₀ hx hcall hs) hgone hash rpId with
        ⟨hwalk, hret, htracks⟩ | ⟨hwalk, hnot, htracks⟩
      · refine ⟨fun reqId first' timedOut' rest' _ _ _ => ?_, ?_⟩
        · have hcalled : x.walk = x.call t := hwalk.trans hcall.symm
          rw [if_pos hcalled]
          exact ⟨_, w₀, slot, hreply, hwalk, hdue, hret⟩
        · obtain ⟨⟨payload, hpayload⟩, -⟩ := hret
          have hyes : x.device.succeeds P (.resume t io) = true := by
            rw [hres]
            exact congrArg Except.isOk hpayload
          rw [hfollow, hyes, if_pos rfl, heq]
          exact htracks
      · refine ⟨fun reqId first' timedOut' rest' _ _ _ => ?_, ?_⟩
        · have hcalled : x.walk ≠ x.call t := fun hx => hwalk (hx.trans hcall)
          rw [if_neg hcalled]
          exact ⟨_, hreply, hnot⟩
        · have hno : x.device.succeeds P (.resume t io) = false := by
            rw [hres]
            exact congrArg Except.isOk hnot.1
          rw [hfollow, hno, if_neg (by decide), heq]
          exact htracks
  · have hno : x.device.succeeds P (.resume t io) = false := by rw [Device.succeeds, hreply]; rfl
    have hfollow : x.follow P (.resume t io) = x := by
      simp only [Walking.follow, hw]
      split <;> simp [hno]
    refine ⟨?_, ?_⟩
    · intro reqId first' timedOut' rest' hw' _ happ'
      rw [hw] at hw'
      cases hw'
      exact absurd happ' happ
    · rw [hfollow, heq]
      exact h.frame rfl rfl (setWorker_rest _ t rfl)

/-- A message arrives. -/
theorem receive (h : x.Tracks P) {msg : List UInt8} {allocOk : Bool} (hok : x.Regular P (.receive t msg allocOk))
    {w : Worker} (hw : w.rest = none) :
    ({ x with
      walk := if endsWalk allocOk msg then none else x.walk
      device := ({ x.device with
        core := if endsContinuation msg then x.device.core.clearAssertState else x.device.core } : Device).setWorker t w } :
      Walking).Tracks P := by
  cases hend : endsContinuation msg with
  | true =>
    have hends : endsWalk allocOk msg = true := by
      cases msg with
      | nil => cases hend
      | cons cmd body =>
        simp only [endsContinuation, Bool.and_eq_true, bne_iff_ne] at hend
        rw [endsWalk, if_neg hend.1, if_neg hend.2]
    rw [hends]
    exact h.ended rfl rfl (setWorker_rest _ t hw)
  | false =>
    cases hends : endsWalk allocOk msg with
    | false => exact h.frame rfl rfl (setWorker_rest _ t hw)
    | true =>
      have hget : msg.head? = some ctapGetAssertion := by
        cases msg with
        | nil => cases hends
        | cons cmd body =>
          simp only [endsContinuation, Bool.and_eq_false_iff, bne_eq_false_iff_eq] at hend
          rcases hend with rfl | rfl
          · cases hends
          · rfl
      obtain ⟨hx, hno⟩ := hok hget hends
      have hnone : ({ x with walk := none } : Walking).Tracks P := by
        rw [Walking.openWalk] at hx
        split at hx
        · rw [← hx]
          exact h
        · exact h.lapsed ⟨by omega, hno⟩
      exact hnone.frame rfl rfl (setWorker_rest _ t hw)

theorem step (h : x.Tracks P) (hsha : ∀ bs, (P.sha256 bs).length = 32) {a : Action} {y : Walking}
    (hok : x.Regular P a) (hstep : x.step P a = some y) : x.Answers P a ∧ y.Tracks P := by
  obtain ⟨d', hd, rfl⟩ := Option.map_eq_some_iff.mp hstep
  cases a with
  | tick n =>
    cases hd
    refine ⟨trivial, h.walk, fun hx => (h.stale hx).imp_right fun hs => ⟨Nat.le_add_right_of_le hs.1, hs.2⟩,
      fun k hk => ⟨(h.deadline k hk).1, ?_⟩, Nat.le_add_right_of_le h.past, h.matched, h.call⟩
    rcases hok with hnone | hlt
    · rw [hnone] at hk
      cases hk
    · exact hlt
  | receive t msg allocOk =>
    simp only [Device.step] at hd
    split at hd
    · next hidle =>
      have hself : ({ x.device with
          core := if endsContinuation msg then x.device.core.clearAssertState else x.device.core } : Device).setWorker t .idle =
          { x.device with core := if endsContinuation msg then x.device.core.clearAssertState else x.device.core } := by
        simp only [setWorker, ← hidle, Function.update_eq_self]
      split at hd <;> cases hd
      · exact ⟨trivial, h.receive hok rfl⟩
      · refine ⟨trivial, ?_⟩
        rw [← hself]
        exact h.receive hok rfl
      · exact ⟨trivial, h.receive hok rfl⟩
    · cases hd
  | enter t io =>
    simp only [Device.step] at hd
    split at hd <;> cases hd
    next cmd hw =>
    have hother : cmd.walks = false → x.Answers P (.enter t io) ∧
        ({ x.follow P (.enter t io) with device := x.device.enter P t io cmd } : Walking).Tracks P := by
      intro hcmd
      have hfollow : x.follow P (.enter t io) = x := by
        simp only [Walking.follow, hw]
        split
        · next heq => cases heq; cases hcmd
        · next heq => cases heq; cases hcmd
        · rfl
      refine ⟨fun hnext => ?_, ?_⟩
      · rw [hw] at hnext
        cases hnext
        cases hcmd
      · rw [hfollow]
        exact h.enterOther hw hcmd
    cases cmd with
    | getInfo | makeCredential | reset | selection | clientPin | unknown => exact hother rfl
    | getAssertion req =>
      refine ⟨fun hnext => ?_, h.enterGet hw⟩
      rw [hw] at hnext
      cases hnext
    | getNextAssertion => exact h.enterNext hsha hw hok
  | wake t =>
    simp only [Device.step] at hd
    split at hd
    · next r first rest hw =>
      split at hd <;> cases hd
      refine ⟨trivial, h.frame rfl rfl fun t' => .inr ?_⟩
      by_cases hne : t' = t
      · subst hne
        rw [setWorker_self, hw]
        rfl
      · rw [setWorker_of_ne hne]
    · cases hd
  | expire t =>
    simp only [Device.step] at hd
    split at hd
    · next r first rest hw =>
      split at hd <;> cases hd
      refine ⟨trivial, h.frame rfl rfl fun t' => .inr ?_⟩
      by_cases hne : t' = t
      · subst hne
        rw [setWorker_self, hw]
        rfl
      · rw [setWorker_of_ne hne]
    · cases hd
  | resume t io =>
    simp only [Device.step] at hd
    split at hd <;> cases hd
    next r first timedOut rest hw => exact h.resume hsha hw hok
  | decide allow id =>
    cases hd
    refine ⟨trivial, ?_⟩
    rcases authDecide_cases allow id x.device with ⟨-, heq⟩ | ⟨-, heq⟩ <;> rw [heq]
    · exact h
    · refine h.frame rfl rfl fun t' => .inr ?_
      show ((x.device.worker t').hear x.device.auth.requestId allow).rest = (x.device.worker t').rest
      cases x.device.worker t' <;> rfl
  | blobRead | blobWrite | restore | persist | pinReset =>
    cases hd
    exact ⟨trivial, h.frame rfl rfl fun _ => .inr rfl⟩

end Walking.Tracks

/-- **The walk is complete and bounded**: in a regular run every
`getNextAssertion` is answered as the commands before it promise. -/
theorem Walking.answers_of_regular (P : Platform) (hsha : ∀ bs, (P.sha256 bs).length = 32) (file : File) (clock : Nat)
    (as : List Action) (x : Walking) (h : Runs (step P) (Regular P) (boot file clock) as x) (a : Action) (y : Walking)
    (hok : x.Regular P a) (hstep : x.step P a = some y) : x.Answers P a :=
  ((h.invariant (I := Tracks P) (fun _ _ _ hI hok hstep => (hI.step hsha hok hstep).2) (.boot file clock)).step hsha
    hok hstep).1

/-! ## Two credentials -/

/-- Two credentials for `a` are made, an assertion is asked for, and then `msg` arrives. -/
def pairRun (msg : List UInt8) : List Action :=
  [.receive .usb (makeCredentialMsg 0x61) true, .enter .usb .plain, .decide true (some 1), .wake .usb,
    .resume .usb .plain, .receive .usb (makeCredentialMsg 0x61) true, .enter .usb .plain,
    .receive .usb (getAssertionMsg (text "a")) true, .enter .usb .plain, .receive .usb msg true]

/-- What there is to check of a regular step that signs as it should. -/
def Walking.regular (P : Platform) (x : Walking) : Action → Bool
  | .tick _ => false
  | .receive _ msg allocOk => !(msg.head? == some ctapGetAssertion && endsWalk allocOk msg)
  | .enter _ _ => ((x.openWalk P).bind Walk.due).all fun slot => (x.device.core.storage.store.creds slot).inUse
  | .resume t _ => !(x.device.worker t).atNext
  | _ => true

theorem Walking.regular_of_plain {x : Walking} {a : Action} (hio : ∀ t io, a = .enter t io → io = .plain)
    (h : x.regular P a = true) : x.Regular P a := by
  cases a with
  | tick n => cases h
  | receive t msg allocOk =>
    intro hget hends
    simp only [regular, hget, hends, beq_self_eq_true, Bool.and_self, Bool.not_true] at h
    cases h
  | enter t io =>
    intro hw
    rw [hio t io rfl]
    refine ⟨Io.signs_plain, fun w slot hx hdue => ?_⟩
    simpa only [regular, hx, Option.bind_some, hdue, Option.all_some] using h
  | resume t io =>
    intro hnext
    simp only [regular, hnext, Bool.not_true] at h
    cases h
  | _ => trivial

/-- A `getNextAssertion` is about to take the lock: the slot due, and whether it succeeds. -/
def Walking.nextCall (P : Platform) (x : Walking) : Option (Option (Fin maxCreds) × Bool) :=
  match x.device.worker .usb with
  | .ready .getNextAssertion => some ((x.openWalk P).bind Walk.due, x.device.succeeds P (.enter .usb .plain))
  | _ => none

theorem Walking.ready_of_nextCall {x : Walking} {v} (h : x.nextCall P = some v) :
    x.device.worker .usb = .ready .getNextAssertion ∧
      v = ((x.openWalk P).bind Walk.due, x.device.succeeds P (.enter .usb .plain)) := by
  simp only [nextCall] at h
  split at h
  · next hw =>
    cases h
    exact ⟨hw, rfl⟩
  · cases h

/-- The second credential is returned second. -/
theorem Walking.answers_pairRun : ∃ x y, Runs (step .digesting) (Regular .digesting) (boot none 0) (pairRun [0x08]) x ∧
    x.step .digesting (.enter .usb .plain) = some y ∧ x.nextCall .digesting = some (some ⟨1, by decide⟩, true) ∧
    x.Answers .digesting (.enter .usb .plain) := by
  have h : (Runs.exec (step .digesting) (regular .digesting) (boot none 0) (pairRun [0x08])).map
      (fun x => (x.nextCall .digesting, x.regular .digesting (.enter .usb .plain))) =
      some (some (some ⟨1, by decide⟩, true), true) := by decide +kernel
  obtain ⟨x, hx, hcall⟩ := Option.map_eq_some_iff.mp h
  obtain ⟨hcall, hreg⟩ := Prod.mk.inj hcall
  have hrun : Runs (step .digesting) (Regular .digesting) (boot none 0) (pairRun [0x08]) x := by
    refine Runs.of_exec_mem (fun a ha x hok => regular_of_plain (fun t io heq => ?_) hok) hx
    subst heq
    have hmem : t = .usb ∧ io = .plain := by simpa [pairRun] using ha
    exact hmem.2
  have hready := (ready_of_nextCall hcall).1
  have hstep : ∃ y, x.step .digesting (.enter .usb .plain) = some y := by
    simp only [step, Device.step, hready, Option.map_some]
    exact ⟨_, rfl⟩
  obtain ⟨y, hy⟩ := hstep
  refine ⟨x, y, hrun, hy, hcall, ?_⟩
  refine answers_of_regular .digesting Platform.length_digest none 0 _ x hrun _ y (regular_of_plain ?_ hreg) hy
  rintro t io ⟨⟩
  rfl

/-- A `getAssertion` without its map ends no walk: the second credential is still returned. -/
theorem Walking.exists_not_answers : ∃ as x y, Runs (step .digesting) (fun _ _ => True) (boot none 0) as x ∧
    x.step .digesting (.enter .usb .plain) = some y ∧ ¬ x.Answers .digesting (.enter .usb .plain) := by
  have h : (Runs.exec (step .digesting) (fun _ _ => true) (boot none 0) (pairRun [0x02] ++ [.receive .usb [0x08] true])).map
      (fun x => (x.nextCall .digesting, decide (x.walk = none))) = some (some (none, true), true) := by decide +kernel
  obtain ⟨x, hx, hcall⟩ := Option.map_eq_some_iff.mp h
  obtain ⟨hcall, hwalk⟩ := Prod.mk.inj hcall
  obtain ⟨hready, hsucc⟩ := ready_of_nextCall hcall
  have hstep : ∃ y, x.step .digesting (.enter .usb .plain) = some y := by
    simp only [step, Device.step, hready, Option.map_some]
    exact ⟨_, rfl⟩
  obtain ⟨y, hy⟩ := hstep
  refine ⟨_, x, y, Runs.of_exec (fun _ _ _ => trivial) hx, hy, fun hans => ?_⟩
  have hopen : x.openWalk .digesting = none := by rw [openWalk, of_decide_eq_true hwalk, ite_self]
  have hnot := hans hready
  rw [hopen] at hnot
  obtain ⟨r, hr, hres, -⟩ := hnot
  have hyes : x.device.succeeds .digesting (.enter .usb .plain) = true := (congrArg Prod.snd hsucc).symm
  rw [Device.succeeds, hr, Option.any_some, hres] at hyes
  cases hyes

end AbkFido
