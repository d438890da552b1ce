/-
Whose assertion a client gets.

A client is a channel of a transport. `Serving` keeps for every client the
`getAssertion` it last sent, and which client's `getAssertion` left the
continuation there is. The device keeps one continuation for all of them: a
`getNextAssertion` goes on with its own client's request exactly as long as
that client left the continuation it finds (`own_of_mine`).
-/
import AbkFido.Walk

namespace AbkFido

open Device

variable {P : Platform}

structure Client where
  transport : Transport
  cid : UInt32
  deriving DecidableEq

/-- The device, and its clients. -/
structure Serving where
  device : Device
  /-- Whose message a transport's worker has. -/
  client : Transport → UInt32
  /-- The last `getAssertion` of each client. -/
  asked : Client → Option GetAssertReq
  /-- Whose `getAssertion` left the continuation. -/
  owner : Option Client

namespace Serving

def boot (file : File) (clock : Nat) : Serving where
  device := .boot file clock
  client _ := 0
  asked _ := none
  owner := none

/-- The client a transport's worker serves. -/
def served (x : Serving) (t : Transport) : Client := ⟨t, x.client t⟩

/-- A message of the client `cid` arrives. -/
def receive (t : Transport) (cid : UInt32) (msg : List UInt8) (allocOk : Bool) (x : Serving) : Serving :=
  let x := { x with client := Function.update x.client t cid }
  match parseCommand allocOk msg with
  | some (.ok (.getAssertion req)) => { x with asked := Function.update x.asked ⟨t, cid⟩ (some req) }
  | _ => x

/-- What a step makes of them; `cid` is the client of a message that arrives. -/
def follow (P : Platform) (cid : UInt32) (x : Serving) : Action → Serving
  | .receive t msg allocOk => x.receive t cid msg allocOk
  | .enter t io =>
    match x.device.worker t with
    | .ready (.getAssertion req) =>
      let st := (loadStoreLocked P io.load io.ids x.device.core.storage).store
      if x.device.succeeds P (.enter t io) && decide (1 < (collectRpCredentials st req).length) then
        { x with owner := some (x.served t) }
      else x
    | _ => x
  | .resume t io =>
    match x.device.worker t with
    | .awake _ _ _ (.getAssertion _ _ more) =>
      if x.device.succeeds P (.resume t io) && !more.isEmpty then { x with owner := some (x.served t) } else x
    | _ => x
  | _ => x

def step (P : Platform) (x : Serving) (a : UInt32 × Action) : Option Serving :=
  (x.device.step P a.2).map fun d => { x.follow P a.1 a.2 with device := d }

end Serving

/-- The step goes on with a `getNextAssertion`. -/
def Device.goesNext (d : Device) : Action → Bool
  | .enter t _ =>
    match d.worker t with
    | .ready .getNextAssertion => true
    | _ => false
  | .resume t _ => (d.worker t).atNext
  | _ => false

namespace Serving

/-- A `getNextAssertion` that succeeds returns an assertion, and one that it
signs is for what its client last asked for. -/
def Own (P : Platform) (x : Serving) (a : Action) : Prop :=
  ∀ r, x.device.goesNext a = true → x.device.reply P a = some r →
    (∀ payload, r.result = .ok payload → ∃ s, r.effects = [.assertion s]) ∧
    ∀ s, .assertion s ∈ r.effects →
      ∃ req, x.asked (x.served r.transport) = some req ∧ s.rpId = req.rpId ∧ s.clientDataHash = req.clientDataHash

/-- A `getNextAssertion` takes the lock when there is no continuation, or its client's own. -/
def Mine (x : Serving) (a : UInt32 × Action) : Prop :=
  ∀ t io, a.2 = .enter t io → x.device.worker t = .ready .getNextAssertion → x.device.core.assert ≠ none →
    x.owner = some (x.served t)

end Serving

/-! ## What is signed -/

/-- `getNextAssertion` signs what it was called with. -/
theorem getNextAssertion_signs {io : Io} {now : UInt64} {slot : Fin maxCreds} {served : Nat} {hash : Bytes 32}
    {rpId : List UInt8} {c : Core} {s : Signed}
    (h : .assertion s ∈ (finish P io now (.getNextAssertion slot served hash rpId) c).effects) :
    s.rpId = rpId ∧ s.clientDataHash = hash := by
  have hencode : .assertion s ∈ (encodeAssertionLocked P io slot rpId [] hash true 1 none c).effects := by
    simp only [finish, getNextAssertionFinish] at h
    split at h
    · cases h
    split at h
    · cases h
    split at h <;> exact h
  simp only [encodeAssertionLocked] at hencode
  split at hencode
  · cases hencode
  split at hencode
  · cases List.mem_singleton.mp hencode
    exact ⟨rfl, rfl⟩
  · cases List.mem_singleton.mp hencode
    exact ⟨rfl, rfl⟩

theorem getNextAssertion_ok {io : Io} {now : UInt64} {slot : Fin maxCreds} {served : Nat} {hash : Bytes 32}
    {rpId payload : List UInt8} {c : Core}
    (h : (finish P io now (.getNextAssertion slot served hash rpId) c).result = .ok payload) :
    ∃ s, (finish P io now (.getNextAssertion slot served hash rpId) c).effects = [.assertion s] := by
  have hencode : ∀ payload, (encodeAssertionLocked P io slot rpId [] hash true 1 none c).result = .ok payload →
      ∃ s, (encodeAssertionLocked P io slot rpId [] hash true 1 none c).effects = [.assertion s] := by
    intro payload hok
    simp only [encodeAssertionLocked] at hok ⊢
    split at hok
    · cases hok
    split at hok
    · cases hok
    · exact ⟨_, rfl⟩
  simp only [finish, getNextAssertionFinish] at h ⊢
  split at h
  · cases h
  split at h
  · cases h
  next hserved =>
  split at h
  · next e he =>
    rw [he] at h
    cases h
  · next out hout =>
    obtain ⟨s, hs⟩ := hencode out hout
    refine ⟨s, ?_⟩
    simp only [if_neg hserved, hout, hs]

/-- A continuation for the same request. -/
def Continuation.Like (k k' : Continuation) : Prop := k'.rpId = k.rpId ∧ k'.clientDataHash = k.clientDataHash

/-- `getNextAssertion` leaves no continuation for another request. -/
theorem getNextAssertion_like {io : Io} {now : UInt64} {slot : Fin maxCreds} {served : Nat} {hash : Bytes 32}
    {rpId : List UInt8} {c : Core} {k' : Continuation}
    (h : (finish P io now (.getNextAssertion slot served hash rpId) c).core.assert = some k') :
    ∃ k, c.assert = some k ∧ k.Like k' := by
  simp only [finish, getNextAssertionFinish] at h
  split at h
  · next hnone =>
    rw [hnone] at h
    cases h
  next k hk =>
  split at h
  · exact ⟨k', h, rfl, rfl⟩
  obtain ⟨-, hassert, -⟩ := encodeAssertion_spec (P := P) io slot rpId [] hash true 1 none c
  split at h
  · exact ⟨k', hassert ▸ h, rfl, rfl⟩
  · split at h
    · cases h
    · cases h
      exact ⟨k, hk, rfl, rfl⟩

/-! ## Whose it is -/

/-- The `getAssertion` a worker is about to start. -/
def Worker.asks : Worker → Option GetAssertReq
  | .ready (.getAssertion req) => some req
  | _ => none

/-- The continuation is for what its owner last asked for, unless the owner
is just asking again, which will end it; and so is each command that waits. -/
structure Serving.Owned (x : Serving) : Prop where
  continuation : ∀ k, x.device.core.assert = some k → ∃ c req, x.owner = some c ∧ k.rpId = req.rpId ∧
    k.clientDataHash = req.clientDataHash ∧
    (x.asked c = some req ∨ (x.served c.transport = c ∧ (x.device.worker c.transport).asks ≠ none))
  asks : ∀ t req, (x.device.worker t).asks = some req → x.asked (x.served t) = some req
  asked : ∀ t req slot more, (x.device.worker t).rest = some (.getAssertion req slot more) →
    x.asked (x.served t) = some req
  walks : ∀ t slot n hash rpId, (x.device.worker t).rest = some (.getNextAssertion slot n hash rpId) →
    ∃ req, x.asked (x.served t) = some req ∧ rpId = req.rpId ∧ hash = req.clientDataHash

namespace Serving.Owned

variable {x : Serving} {d : Device} {t : Transport}

theorem boot (file : File) (clock : Nat) : (Serving.boot file clock).Owned where
  continuation k h := by cases h
  asks t req h := by cases h
  asked t req slot more h := by cases h
  walks t slot n hash rpId h := by cases h

/-- A step that leaves no other continuation and opens no prompt. -/
theorem frame (h : x.Owned)
    (hassert : ∀ k', d.core.assert = some k' → (∃ k, x.device.core.assert = some k ∧ k.Like k') ∧
      ∀ t, (d.worker t).asks = (x.device.worker t).asks)
    (hasks : ∀ t, (d.worker t).asks = none ∨ (d.worker t).asks = (x.device.worker t).asks)
    (hrest : ∀ t, (d.worker t).rest = none ∨ (d.worker t).rest = (x.device.worker t).rest) :
    ({ x with device := d } : Serving).Owned where
  continuation k' hk' := by
    obtain ⟨⟨k, hk, hrp, hhash⟩, hsame⟩ := hassert k' hk'
    obtain ⟨c, req, howner, hkrp, hkhash, hlast⟩ := h.continuation k hk
    refine ⟨c, req, howner, hrp.trans hkrp, hhash.trans hkhash, hlast.imp_right fun hl => ⟨hl.1, ?_⟩⟩
    show (d.worker c.transport).asks ≠ none
    rw [hsame]
    exact hl.2
  asks t req hr := by
    rcases hasks t with hn | hs
    · exact absurd (hn.symm.trans hr) (by simp)
    · exact h.asks t req (hs ▸ hr)
  asked t req slot more hr := by
    rcases hrest t with hn | hs
    · exact absurd (hn.symm.trans hr) (by simp)
    · exact h.asked t req slot more (hs ▸ hr)
  walks t slot n hash rpId hr := by
    rcases hrest t with hn | hs
    · exact absurd (hn.symm.trans hr) (by simp)
    · exact h.walks t slot n hash rpId (hs ▸ hr)

/-- A worker that asks for nothing goes on or ends. -/
theorem frameWorker (h : x.Owned) {w : Worker}
    (hassert : ∀ k', d.core.assert = some k' → (∃ k, x.device.core.assert = some k ∧ k.Like k') ∧
      (x.device.worker t).asks = none)
    (hworker : d.worker = Function.update x.device.worker t w) (hask : w.asks = none)
    (hrest : w.rest = none ∨ w.rest = (x.device.worker t).rest) : ({ x with device := d } : Serving).Owned := by
  refine h.frame (fun k' hk' => ⟨(hassert k' hk').1, fun t' => ?_⟩) (fun t' => ?_) fun t' => ?_
  · rw [hworker]
    by_cases hne : t' = t
    · subst hne
      rw [Function.update_self, hask, (hassert k' hk').2]
    · rw [Function.update_of_ne hne]
  · rw [hworker]
    by_cases hne : t' = t
    · subst hne
      rw [Function.update_self]
      exact .inl hask
    · rw [Function.update_of_ne hne]
      exact .inr rfl
  · rw [hworker]
    by_cases hne : t' = t
    · subst hne
      rw [Function.update_self]
      exact hrest
    · rw [Function.update_of_ne hne]
      exact .inr rfl

/-- A command of the assertion commands, or another, opens its prompt. -/
theorem waiting (h : x.Owned) (r : UInt32) (rest : Rest) (hask : (x.device.worker t).asks = none)
    (hget : ∀ req slot more, rest = .getAssertion req slot more → x.asked (x.served t) = some req)
    (hnext : ∀ slot n hash rpId, rest = .getNextAssertion slot n hash rpId →
      ∃ req, x.asked (x.served t) = some req ∧ rpId = req.rpId ∧ hash = req.clientDataHash) :
    ({ x with device := x.device.setWorker t (.waiting r none rest) } : Serving).Owned where
  continuation k hk := by
    obtain ⟨c, req, howner, hkrp, hkhash, hlast⟩ := h.continuation k hk
    refine ⟨c, req, howner, hkrp, hkhash, hlast.imp_right fun hl => ⟨hl.1, ?_⟩⟩
    have hne : c.transport ≠ t := by
      rintro rfl
      exact hl.2 hask
    show ((x.device.setWorker t (.waiting r none rest)).worker c.transport).asks ≠ none
    rw [setWorker_of_ne hne]
    exact hl.2
  asks t' req hr := by
    have hr' : ((x.device.setWorker t (.waiting r none rest)).worker t').asks = some req := hr
    by_cases hne : t' = t
    · subst hne
      rw [setWorker_self] at hr'
      cases hr'
    · rw [setWorker_of_ne hne] at hr'
      exact h.asks t' req hr'
  asked t' req slot more hr := by
    have hr' : ((x.device.setWorker t (.waiting r none rest)).worker t').rest = some (.getAssertion req slot more) := hr
    by_cases hne : t' = t
    · subst hne
      rw [setWorker_self] at hr'
      exact hget req slot more (Option.some.inj hr')
    · rw [setWorker_of_ne hne] at hr'
      exact h.asked t' req slot more hr'
  walks t' slot n hash rpId hr := by
    have hr' : ((x.device.setWorker t (.waiting r none rest)).worker t').rest =
      some (.getNextAssertion slot n hash rpId) := hr
    by_cases hne : t' = t
    · subst hne
      rw [setWorker_self] at hr'
      exact hnext slot n hash rpId (Option.some.inj hr')
    · rw [setWorker_of_ne hne] at hr'
      exact h.walks t' slot n hash rpId hr'

theorem worker_setWorker (d : Device) (t : Transport) (w : Worker) :
    (d.setWorker t w).worker = Function.update d.worker t w := rfl

/-- A command that is not an assertion command concludes, or the second part of `getNextAssertion`. -/
theorem conclude (h : x.Owned) (hask : (x.device.worker t).asks = none) (io : Io) {rest : Rest}
    (hlike : ∀ k', (finish P io x.device.jiffies rest x.device.core).core.assert = some k' →
      ∃ k, x.device.core.assert = some k ∧ k.Like k') :
    ({ x with device := x.device.conclude P t io rest } : Serving).Owned := by
  have hd := conclude_eq (P := P) t io rest x.device
  refine h.frameWorker (t := t) (w := .idle) (fun k' hk' => ⟨hlike k' ?_, hask⟩) ?_ rfl (.inl rfl)
  · rw [hd] at hk'
    exact hk'
  · rw [hd]

theorem like_other {io : Io} {now : UInt64} {rest : Rest} {c : Core} (hr : rest.walks = false) {k' : Continuation}
    (hk' : (finish P io now rest c).core.assert = some k') : ∃ k, c.assert = some k ∧ k.Like k' := by
  rw [finish_assert_other hr] at hk'
  exact ⟨k', hk', rfl, rfl⟩

/-- `getAssertion` concludes: a continuation it leaves is its client's. -/
theorem concludeGet (h : x.Owned) (hask : (x.device.worker t).asks = none) (io : Io) {req : GetAssertReq}
    (hreq : x.asked (x.served t) = some req) (slot : Fin maxCreds) (more : List (Fin maxCreds)) :
    let rest := Rest.getAssertion req slot more
    let left := (finish P io x.device.jiffies rest x.device.core).result.isOk && !more.isEmpty
    (left = false → ({ x with device := x.device.conclude P t io rest } : Serving).Owned) ∧
      (left = true →
        ({ x with owner := some (x.served t), device := x.device.conclude P t io rest } : Serving).Owned) := by
  intro rest left
  have hd := conclude_eq (P := P) t io rest x.device
  have hassert := getAssertion_assert (P := P) io x.device.jiffies req slot more x.device.core
  constructor
  · intro hleft
    refine h.conclude hask io fun k' hk' => ⟨k', ?_, rfl, rfl⟩
    rw [← hk', hassert]
    cases hres : (finish P io x.device.jiffies (.getAssertion req slot more) x.device.core).result with
    | error e => rfl
    | ok payload =>
      have hmore : more = [] := by
        simp only [left, rest, hres] at hleft
        cases more with
        | nil => rfl
        | cons i more => cases hleft
      rw [if_pos hmore]
  · intro hleft
    obtain ⟨hres, hmore⟩ : (finish P io x.device.jiffies rest x.device.core).result.isOk = true ∧ more ≠ [] := by
      simpa [left] using hleft
    have hcont : (x.device.conclude P t io rest).core.assert =
        some (continuationOf P x.device.jiffies req (slot :: more)) := by
      rw [hd]
      show (finish P io x.device.jiffies (.getAssertion req slot more) x.device.core).core.assert = _
      rw [hassert]
      cases hr : (finish P io x.device.jiffies (.getAssertion req slot more) x.device.core).result with
      | error e =>
        rw [show (finish P io x.device.jiffies rest x.device.core).result = .error e from hr] at hres
        cases hres
      | ok payload => rw [if_neg hmore]
    have hidle : ({ x with device := { x.device.conclude P t io rest with
        core := x.device.core.clearAssertState } } : Serving).Owned := by
      refine h.frameWorker (t := t) (w := .idle) (fun k' hk' => by cases hk') ?_ rfl (.inl rfl)
      rw [hd]
    refine ⟨fun k hk => ?_, hidle.asks, hidle.asked, hidle.walks⟩
    cases hcont.symm.trans hk
    exact ⟨x.served t, req, rfl, rfl, rfl, .inl hreq⟩

/-! ## Steps -/

/-- A message arrives at an idle worker. -/
theorem receive (h : x.Owned) (cid : UInt32) {msg : List UInt8} {allocOk : Bool} (hidle : x.device.worker t = .idle)
    {w : Worker} (hrest : w.rest = none)
    (hask : ∀ req, w.asks = some req ↔ parseCommand allocOk msg = some (.ok (.getAssertion req)))
    (hassert : d.core.assert = none ∨ d.core.assert = x.device.core.assert)
    (hworker : d.worker = Function.update x.device.worker t w) :
    ({ x.receive t cid msg allocOk with device := d } : Serving).Owned := by
  have hother : ∀ t', t' ≠ t → d.worker t' = x.device.worker t' := by
    intro t' hne
    rw [hworker, Function.update_of_ne hne]
  have hmine : d.worker t = w := by rw [hworker, Function.update_self]
  have hserved : ∀ t', t' ≠ t → (x.receive t cid msg allocOk).served t' = x.served t' := by
    intro t' hne
    simp only [Serving.receive]
    split <;> simp [served, Function.update_of_ne hne]
  have hself : (x.receive t cid msg allocOk).served t = ⟨t, cid⟩ := by
    simp only [Serving.receive]
    split <;> simp [served]
  have hasked : ∀ c, (x.receive t cid msg allocOk).asked c = x.asked c ∨
      (c = ⟨t, cid⟩ ∧ ∃ req, w.asks = some req ∧ (x.receive t cid msg allocOk).asked c = some req) := by
    intro c
    simp only [Serving.receive]
    split
    · next req hparse =>
      by_cases hc : c = ⟨t, cid⟩
      · subst hc
        exact .inr ⟨rfl, req, (hask req).mpr hparse, Function.update_self ..⟩
      · exact .inl (Function.update_of_ne hc ..)
    · exact .inl rfl
  have hnew : ∀ req, w.asks = some req → (x.receive t cid msg allocOk).asked ⟨t, cid⟩ = some req := by
    intro req hreq
    simp only [Serving.receive, (hask req).mp hreq]
    exact Function.update_self ..
  have hkept : ∀ t', t' ≠ t → ∀ req, x.asked (x.served t') = some req →
      (x.receive t cid msg allocOk).asked ((x.receive t cid msg allocOk).served t') = some req := by
    intro t' hne req hreq
    rw [hserved t' hne]
    rcases hasked (x.served t') with hs | ⟨hc, -⟩
    · rw [hs]
      exact hreq
    · exact absurd (congrArg Client.transport hc) hne
  refine ⟨fun k hk => ?_, fun t' req hr => ?_, fun t' req slot more hr => ?_, fun t' slot n hash rpId hr => ?_⟩
  · rcases hassert with hnone | hsame
    · cases hnone.symm.trans hk
    obtain ⟨c, req, howner, hkrp, hkhash, hlast⟩ := h.continuation k (hsame.symm.trans hk)
    have howner' : (x.receive t cid msg allocOk).owner = some c := by
      simp only [Serving.receive]
      split <;> exact howner
    refine ⟨c, req, howner', hkrp, hkhash, ?_⟩
    rcases hlast with hlast | ⟨hl, hasking⟩
    · rcases hasked c with hs | ⟨rfl, req', hreq', -⟩
      · exact .inl (hs.trans hlast)
      · refine .inr ⟨hself, ?_⟩
        show (d.worker t).asks ≠ none
        rw [hmine, hreq']
        simp
    · have hne : c.transport ≠ t := by
        rintro rfl
        rw [hidle] at hasking
        exact hasking rfl
      refine .inr ⟨(hserved _ hne).trans hl, ?_⟩
      show (d.worker c.transport).asks ≠ none
      rw [hother _ hne]
      exact hasking
  · have hr' : (d.worker t').asks = some req := hr
    by_cases hne : t' = t
    · subst hne
      rw [hmine] at hr'
      show (x.receive t' cid msg allocOk).asked ((x.receive t' cid msg allocOk).served t') = some req
      rw [hself]
      exact hnew req hr'
    · rw [hother t' hne] at hr'
      exact hkept t' hne req (h.asks t' req hr')
  · have hr' : (d.worker t').rest = some (.getAssertion req slot more) := hr
    have hne : t' ≠ t := by
      rintro rfl
      rw [hmine, hrest] at hr'
      cases hr'
    rw [hother t' hne] at hr'
    exact hkept t' hne req (h.asked t' req slot more hr')
  · have hr' : (d.worker t').rest = some (.getNextAssertion slot n hash rpId) := hr
    have hne : t' ≠ t := by
      rintro rfl
      rw [hmine, hrest] at hr'
      cases hr'
    rw [hother t' hne] at hr'
    obtain ⟨req, hreq, hkrp, hkhash⟩ := h.walks t' slot n hash rpId hr'
    exact ⟨req, hkept t' hne req hreq, hkrp, hkhash⟩

/-- What is refused is signed for no one. -/
theorem refused_own {e : Errno} (Q : Signed → Prop) :
    (∀ payload, (.error e : Except Errno (List UInt8)) = .ok payload → ∃ s, ([] : List Effect) = [.assertion s]) ∧
      ∀ s, .assertion s ∈ ([] : List Effect) → Q s :=
  ⟨fun payload h => (by cases h), fun s h => (by cases h)⟩

/-- `getAssertion` takes the lock. -/
theorem enterGet (h : x.Owned) {io : Io} {req : GetAssertReq} (hw : x.device.worker t = .ready (.getAssertion req))
    (cid : UInt32) :
    ({ x.follow P cid (.enter t io) with device := x.device.enter P t io (.getAssertion req) } : Serving).Owned := by
  have hreq : x.asked (x.served t) = some req := h.asks t req (by rw [hw]; rfl)
  have hassert := start_getAssertion_assert (P := P) io x.device.jiffies req x.device.core
  let slots := collectRpCredentials (loadStoreLocked P io.load io.ids x.device.core.storage).store req
  have hfollow : x.follow P cid (.enter t io) =
      if x.device.succeeds P (.enter t io) && decide (1 < slots.length) then { x with owner := some (x.served t) } else x := by
    simp only [Serving.follow, hw, slots]
  -- The continuation is gone, and the worker asks no more.
  have hidle : ∀ d : Device, d.core.assert = none → d.worker = x.device.worker →
      ({ x with device := d.setWorker t .idle } : Serving).Owned := by
    intro d hnone hworker
    refine h.frameWorker (t := t) (w := .idle) (fun k' hk' => ?_) (by rw [worker_setWorker, hworker]) rfl (.inl rfl)
    cases hnone.symm.trans hk'
  have hunowned : ∀ d : Device, d.core.assert = none → d.worker = x.device.worker →
      ({ x.follow P cid (.enter t io) with device := d.setWorker t .idle } : Serving).Owned := by
    intro d hnone hworker
    have hd := hidle d hnone hworker
    rw [hfollow]
    split
    · refine ⟨fun k hk => ?_, hd.asks, hd.asked, hd.walks⟩
      cases hnone.symm.trans hk
    · exact hd
  rcases enter_reply (P := P) hw io with ⟨res, c, hs, -, heq⟩ | ⟨ask, rest, c, hs, hgate⟩
  · rw [hs] at hassert
    rw [heq]
    exact hunowned _ hassert rfl
  rw [hs] at hassert
  obtain ⟨slot, more, rfl, hcollect⟩ := start_getAssertion_rest hs
  rcases hgate with ⟨-, hreply, heq⟩ | ⟨-, hreply, heq⟩ | ⟨-, hreply, heq⟩
  · rw [heq]
    exact hunowned _ hassert rfl
  · have hgranted := hidle ((({ x.device with core := c, auth := { x.device.auth with denyValid := false } } : Device).note
      (.asked t)).note (.granted t)) hassert rfl
    obtain ⟨hkept, hleft⟩ := hgranted.concludeGet (t := t) (P := P) (congrArg Worker.asks (setWorker_self ..)) io hreq
      slot more
    rw [conclude_setWorker] at hkept hleft
    have hmore : decide (1 < slots.length) = !more.isEmpty := by
      rw [show slots = slot :: more from hcollect]
      cases more <;> rfl
    have hres : x.device.succeeds P (.enter t io) =
        (finish P io x.device.jiffies (.getAssertion req slot more) c).result.isOk := by
      rw [Device.succeeds, hreply, Option.any_some]
      rfl
    rw [hfollow, hres, hmore, heq]
    cases hok : (finish P io x.device.jiffies (.getAssertion req slot more) c).result.isOk && !more.isEmpty with
    | false => exact hkept hok
    | true => exact hleft hok
  · have hno : x.device.succeeds P (.enter t io) = false := by rw [Device.succeeds, hreply]; rfl
    have hopened := hidle ((({ x.device with core := c, auth := x.device.auth.openPrompt ask } : Device).note (.asked t)).note
      (.opened t (x.device.auth.requestId + 1))) hassert rfl
    have hmine : ∀ req' slot' more', Rest.getAssertion req slot more = .getAssertion req' slot' more' →
        x.asked (x.served t) = some req' := by
      intro req' slot' more' heq'
      cases heq'
      exact hreq
    have hwaiting := hopened.waiting (t := t) (x.device.auth.requestId + 1) (.getAssertion req slot more)
      (congrArg Worker.asks (setWorker_self ..)) hmine fun slot' n hash rpId heq' => by cases heq'
    rw [setWorker_setWorker] at hwaiting
    rw [hfollow, hno, Bool.false_and, if_neg (by decide), heq]
    exact hwaiting

/-- `getNextAssertion` takes the lock: what it signs is for its client's request. -/
theorem enterNext (h : x.Owned) {io : Io} (hw : x.device.worker t = .ready .getNextAssertion)
    (hmine : x.device.core.assert ≠ none → x.owner = some (x.served t)) :
    x.Own P (.enter t io) ∧
      ({ x with device := x.device.enter P t io .getNextAssertion } : Serving).Owned := by
  have hask : (x.device.worker t).asks = none := by rw [hw]; rfl
  -- A continuation that is there is for what the client last asked for.
  have hfor : ∀ k, x.device.core.assert = some k →
      ∃ req, x.asked (x.served t) = some req ∧ k.rpId = req.rpId ∧ k.clientDataHash = req.clientDataHash := by
    intro k hk
    obtain ⟨c, req, howner, hkrp, hkhash, hlast⟩ := h.continuation k hk
    rw [hmine (by rw [hk]; simp)] at howner
    cases howner
    rcases hlast with hlast | ⟨-, hasking⟩
    · exact ⟨req, hlast, hkrp, hkhash⟩
    · exact absurd hask hasking
  have hdone : ∀ d : Device, (d.core.assert = none ∨ d.core.assert = x.device.core.assert) →
      d.worker = Function.update x.device.worker t .idle → ({ x with device := d } : Serving).Owned := by
    intro d hassert hworker
    refine h.frameWorker (t := t) (w := .idle) (fun k' hk' => ⟨?_, hask⟩) hworker rfl (.inl rfl)
    rcases hassert with hnone | hsame
    · cases hnone.symm.trans hk'
    · exact ⟨k', hsame.symm.trans hk', rfl, rfl⟩
  rcases start_getNextAssertion_cases (P := P) io x.device.jiffies x.device.core with ⟨-, hstart⟩ | ⟨k, slot, hk, -, -, hstart⟩
  · rcases enter_reply (P := P) hw io with ⟨res, c, hs, hreply, heq⟩ | ⟨ask, rest, c, hs, -⟩
    · rw [hstart] at hs
      cases hs
      refine ⟨fun r _ hr => ?_, by rw [heq]; exact hdone _ (.inl rfl) rfl⟩
      cases hreply.symm.trans hr
      exact refused_own _
    · rw [hstart] at hs
      cases hs
  obtain ⟨req, hreq, hkrp, hkhash⟩ := hfor k hk
  rcases enter_reply (P := P) hw io with ⟨res, c, hs, hreply, heq⟩ | ⟨ask, rest, c, hs, hgate⟩
  · rw [hstart] at hs
    split at hs
    · cases hs
    · cases hs
      refine ⟨fun r _ hr => ?_, by rw [heq]; exact hdone _ (.inl rfl) rfl⟩
      cases hreply.symm.trans hr
      exact refused_own _
  rw [hstart] at hs
  split at hs
  · cases hs
    rcases hgate with ⟨-, hreply, heq⟩ | ⟨-, hreply, heq⟩ | ⟨-, hreply, heq⟩
    · refine ⟨fun r _ hr => ?_, by rw [heq]; exact hdone _ (.inr rfl) rfl⟩
      cases hreply.symm.trans hr
      exact refused_own _
    · refine ⟨fun r _ hr => ?_, ?_⟩
      · cases hreply.symm.trans hr
        refine ⟨fun payload hok => getNextAssertion_ok hok, fun s hmem => ?_⟩
        obtain ⟨hrp, hhash⟩ := getNextAssertion_signs hmem
        exact ⟨req, hreq, hrp.trans hkrp, hhash.trans hkhash⟩
      · rw [heq]
        have hgranted : ({ x with
            device := ((({ x.device with auth := { x.device.auth with denyValid := false } } : Device).note
              (.asked t)).note (.granted t)) } : Serving).Owned :=
          h.frame (fun k' hk' => ⟨⟨k', hk', rfl, rfl⟩, fun _ => rfl⟩) (fun _ => .inr rfl) fun _ => .inr rfl
        exact hgranted.conclude hask io fun k' hk' => getNextAssertion_like hk'
    · refine ⟨fun r _ hr => (by cases hreply.symm.trans hr), ?_⟩
      have hopened : ({ x with
          device := ((({ x.device with auth := Auth.openPrompt ⟨ctapGetNextAssertion, k.rpId, false, false⟩ x.device.auth } :
            Device).note (.asked t)).note (.opened t (x.device.auth.requestId + 1))) } : Serving).Owned :=
        h.frame (fun k' hk' => ⟨⟨k', hk', rfl, rfl⟩, fun _ => rfl⟩) (fun _ => .inr rfl) fun _ => .inr rfl
      rw [heq]
      refine hopened.waiting _ _ hask (fun req' slot' more' heq' => by cases heq') fun slot' n hash rpId heq' => ?_
      cases heq'
      exact ⟨req, hreq, hkrp, hkhash⟩
  · cases hs

/-- Any other command takes the lock. -/
theorem enterOther (h : x.Owned) {io : Io} {cmd : Command} (hw : x.device.worker t = .ready cmd)
    (hcmd : cmd.walks = false) : ({ x with device := x.device.enter P t io cmd } : Serving).Owned := by
  have hask : (x.device.worker t).asks = none := by
    rw [hw]
    cases cmd <;> first | rfl | cases hcmd
  have hassert := start_assert_other (P := P) io x.device.jiffies x.device.core hcmd
  have hsame : ∀ {d : Device}, d.core.assert = x.device.core.assert → ∀ k', d.core.assert = some k' →
      ∃ k, x.device.core.assert = some k ∧ k.Like k' := fun heq k' hk' => ⟨k', heq.symm.trans hk', rfl, rfl⟩
  rcases enter_reply (P := P) hw io with ⟨res, c, hs, -, heq⟩ | ⟨ask, rest, c, hs, hgate⟩
  · rw [hs] at hassert
    rw [heq]
    exact h.frameWorker (fun k' hk' => ⟨⟨k', hassert.symm.trans hk', rfl, rfl⟩, hask⟩) (worker_setWorker _ t .idle) rfl (.inl rfl)
  rw [hs] at hassert
  have hrest := start_rest_other hcmd hs
  have hfree : ∀ d : Device, d.core = c → d.worker = x.device.worker → ({ x with device := d } : Serving).Owned := by
    intro d hcore hworker
    refine h.frame (fun k' hk' => ⟨⟨k', ?_, rfl, rfl⟩, fun t' => by rw [hworker]⟩) (fun t' => .inr (by rw [hworker])) fun t' =>
      .inr (by rw [hworker])
    rw [← hassert, ← hcore]
    exact hk'
  rcases hgate with ⟨-, -, heq⟩ | ⟨-, -, heq⟩ | ⟨-, -, heq⟩ <;> rw [heq]
  · exact h.frameWorker (fun k' hk' => ⟨⟨k', hassert.symm.trans hk', rfl, rfl⟩, hask⟩) (worker_setWorker _ t .idle) rfl (.inl rfl)
  · exact (hfree ((({ x.device with core := c, auth := { x.device.auth with denyValid := false } } : Device).note
      (.asked t)).note (.granted t)) rfl rfl).conclude hask io fun k' hk' => like_other hrest hk'
  · refine (hfree ((({ x.device with core := c, auth := x.device.auth.openPrompt ask } : Device).note (.asked t)).note
      (.opened t (x.device.auth.requestId + 1))) rfl rfl).waiting _ _ hask (fun req slot more heq' => ?_)
      fun slot n hash rpId heq' => ?_
    · rw [heq'] at hrest
      cases hrest
    · rw [heq'] at hrest
      cases hrest

/-- A command comes back from its wait. -/
theorem resume (h : x.Owned) {io : Io} {r : UInt32} {first : Option Bool} {timedOut : Bool} {rest : Rest}
    (hw : x.device.worker t = .awake r first timedOut rest) (cid : UInt32) :
    x.Own P (.resume t io) ∧ ({ x.follow P cid (.resume t io) with
      device := x.device.resume P t io r first timedOut rest } : Serving).Owned := by
  have hask : (x.device.worker t).asks = none := by rw [hw]; rfl
  have hwrest : (x.device.worker t).rest = some rest := by rw [hw]; rfl
  obtain ⟨a, hgate⟩ := resume_reply (P := P) hw io
  have hended : ∀ ok, ({ x with
      device := ({ x.device with auth := a } : Device).note (.ended t r first ok) } : Serving).Owned := fun ok =>
    h.frame (fun k' hk' => ⟨⟨k', hk', rfl, rfl⟩, fun _ => rfl⟩) (fun _ => .inr rfl) fun _ => .inr rfl
  have hnot : (∀ slot n hash rpId, rest ≠ .getNextAssertion slot n hash rpId) → x.Own P (.resume t io) := by
    intro hne r' hgoes
    have hnext : (x.device.worker t).atNext = true := hgoes
    obtain ⟨slot, n, hash, rpId, hrest⟩ := (Worker.atNext_iff _).mp hnext
    rw [hwrest] at hrest
    exact absurd (Option.some.inj hrest) (hne slot n hash rpId)
  rcases hgate with ⟨-, hreply, heq⟩ | ⟨-, hreply, heq⟩
  · have hother : rest.walks = false → x.Own P (.resume t io) ∧ ({ x.follow P cid (.resume t io) with
        device := x.device.resume P t io r first timedOut rest } : Serving).Owned := by
      intro hrest
      have hfollow : x.follow P cid (.resume t io) = x := by
        cases rest with
        | getAssertion | getNextAssertion => cases hrest
        | makeCredential | selectionMakeCredential | reset | selection => simp only [Serving.follow, hw]
      refine ⟨hnot fun slot n hash rpId heq' => (by rw [heq'] at hrest; cases hrest), ?_⟩
      rw [hfollow, heq]
      exact (hended true).conclude hask io fun k' hk' => like_other hrest hk'
    cases rest with
    | makeCredential | selectionMakeCredential | reset | selection => exact hother rfl
    | getAssertion req slot more =>
      have hfollow : x.follow P cid (.resume t io) = if x.device.succeeds P (.resume t io) && !more.isEmpty then
          { x with owner := some (x.served t) } else x := by
        simp only [Serving.follow, hw]
      have hres : x.device.succeeds P (.resume t io) =
          (finish P io x.device.jiffies (.getAssertion req slot more) x.device.core).result.isOk := by
        rw [Device.succeeds, hreply, Option.any_some]
        rfl
      obtain ⟨hkept, hleft⟩ := (hended true).concludeGet (t := t) (P := P) hask io (h.asked t req slot more hwrest) slot more
      refine ⟨hnot fun slot' n hash rpId heq' => (by cases heq'), ?_⟩
      rw [hfollow, hres, heq]
      cases hok : (finish P io x.device.jiffies (.getAssertion req slot more) x.device.core).result.isOk && !more.isEmpty with
      | false => exact hkept hok
      | true => exact hleft hok
    | getNextAssertion slot n hash rpId =>
      obtain ⟨req, hreq, hrp, hhash⟩ := h.walks t slot n hash rpId hwrest
      refine ⟨fun r' _ hr => ?_, ?_⟩
      · cases hreply.symm.trans hr
        refine ⟨fun payload hok => getNextAssertion_ok hok, fun s hmem => ?_⟩
        obtain ⟨hsrp, hshash⟩ := getNextAssertion_signs hmem
        exact ⟨req, hreq, hsrp.trans hrp, hshash.trans hhash⟩
      · have hfollow : x.follow P cid (.resume t io) = x := by simp only [Serving.follow, hw]
        rw [hfollow, heq]
        exact (hended true).conclude hask io fun k' hk' => getNextAssertion_like hk'
  · have hno : x.device.succeeds P (.resume t io) = false := by rw [Device.succeeds, hreply]; rfl
    have hfollow : x.follow P cid (.resume t io) = x := by
      simp only [Serving.follow, hw]
      split <;> simp [hno]
    refine ⟨fun r' _ hr => ?_, ?_⟩
    · cases hreply.symm.trans hr
      exact refused_own _
    · rw [hfollow, heq]
      exact h.frameWorker (fun k' hk' => ⟨⟨k', hk', rfl, rfl⟩, hask⟩) (worker_setWorker _ t .idle) rfl (.inl rfl)

theorem step (h : x.Owned) {a : UInt32 × Action} {y : Serving} (hok : x.Mine a) (hstep : x.step P a = some y) :
    x.Own P a.2 ∧ y.Owned := by
  obtain ⟨cid, a⟩ := a
  obtain ⟨d', hd, rfl⟩ := Option.map_eq_some_iff.mp hstep
  have hquiet : ∀ d : Device, d.core.assert = x.device.core.assert →
      (∀ t, (d.worker t).asks = (x.device.worker t).asks ∧ (d.worker t).rest = (x.device.worker t).rest) →
      ({ x with device := d } : Serving).Owned := by
    intro d hassert hworker
    exact h.frame (fun k' hk' => ⟨⟨k', hassert ▸ hk', rfl, rfl⟩, fun t => (hworker t).1⟩) (fun t => .inr (hworker t).1)
      fun t => .inr (hworker t).2
  have hset : ∀ t w, w.asks = (x.device.worker t).asks → w.rest = (x.device.worker t).rest →
      ({ x with device := x.device.setWorker t w } : Serving).Owned := by
    intro t w hask hrest
    refine hquiet _ rfl fun t' => ?_
    by_cases hne : t' = t
    · subst hne
      rw [setWorker_self]
      exact ⟨hask, hrest⟩
    · rw [setWorker_of_ne hne]
      exact ⟨rfl, rfl⟩
  cases a with
  | tick | blobRead | blobWrite | restore | persist | pinReset =>
    cases hd
    exact ⟨fun r hgoes => (by cases hgoes), hquiet _ rfl fun _ => ⟨rfl, rfl⟩⟩
  | receive t msg allocOk =>
    refine ⟨fun r hgoes => (by cases hgoes), ?_⟩
    have hcore : ∀ w : Worker, (({ x.device with
        core := if endsContinuation msg then x.device.core.clearAssertState else x.device.core } : Device).setWorker t
        w).core.assert = none ∨ (({ x.device with
        core := if endsContinuation msg then x.device.core.clearAssertState else x.device.core } : Device).setWorker t
        w).core.assert = x.device.core.assert := by
      intro w
      rw [setWorker_core]
      cases endsContinuation msg with
      | true => exact .inl rfl
      | false => exact .inr rfl
    simp only [Device.step] at hd
    split at hd
    · next hidle =>
      split at hd
      · next hparse =>
        cases hd
        exact h.receive cid hidle (w := .hung) rfl (fun req => by simp [Worker.asks, hparse]) (hcore _) rfl
      · next e hparse =>
        cases hd
        refine h.receive cid hidle (w := .idle) rfl (fun req => by simp [Worker.asks, hparse]) (hcore .idle) ?_
        exact (Function.update_eq_self_iff.mpr hidle.symm).symm
      · next cmd hparse =>
        cases hd
        refine h.receive cid hidle (w := .ready cmd) rfl (fun req => ?_) (hcore _) rfl
        rw [hparse]
        cases cmd <;> simp [Worker.asks]
    · cases hd
  | enter t io =>
    simp only [Device.step] at hd
    split at hd <;> cases hd
    next cmd hw =>
    have hfollow : (∀ req, cmd ≠ .getAssertion req) → x.follow P cid (.enter t io) = x := by
      intro hne
      cases cmd with
      | getAssertion req => exact absurd rfl (hne req)
      | getInfo | makeCredential | getNextAssertion | reset | selection | clientPin | unknown =>
        simp only [Serving.follow, hw]
    have hnot : cmd ≠ .getNextAssertion → x.Own P (.enter t io) := by
      intro hne r hgoes
      simp only [goesNext, hw] at hgoes
      split at hgoes
      · next heq =>
        cases heq
        exact absurd rfl hne
      · cases hgoes
    cases cmd with
    | getInfo | makeCredential | reset | selection | clientPin | unknown =>
      refine ⟨hnot (by simp), ?_⟩
      rw [hfollow (by simp)]
      exact h.enterOther hw rfl
    | getAssertion req => exact ⟨hnot (by simp), h.enterGet hw cid⟩
    | getNextAssertion =>
      rw [hfollow (by simp)]
      exact h.enterNext hw (hok t io rfl hw)
  | wake t =>
    refine ⟨fun r hgoes => (by cases hgoes), ?_⟩
    simp only [Device.step] at hd
    split at hd
    · next r first rest hw =>
      split at hd <;> cases hd
      exact hset t _ (by rw [hw]; rfl) (by rw [hw]; rfl)
    · cases hd
  | expire t =>
    refine ⟨fun r hgoes => (by cases hgoes), ?_⟩
    simp only [Device.step] at hd
    split at hd
    · next r first rest hw =>
      split at hd <;> cases hd
      exact hset t _ (by rw [hw]; rfl) (by rw [hw]; rfl)
    · cases hd
  | resume t io =>
    simp only [Device.step] at hd
    split at hd <;> cases hd
    next r first timedOut rest hw => exact h.resume hw cid
  | decide allow id =>
    cases hd
    refine ⟨fun r hgoes => (by cases hgoes), ?_⟩
    rcases authDecide_cases allow id x.device with ⟨-, heq⟩ | ⟨-, heq⟩ <;> rw [heq]
    · exact h
    · refine hquiet _ rfl fun t' => ?_
      show ((x.device.worker t').hear x.device.auth.requestId allow).asks = (x.device.worker t').asks ∧
        ((x.device.worker t').hear x.device.auth.requestId allow).rest = (x.device.worker t').rest
      cases x.device.worker t' <;> exact ⟨rfl, rfl⟩

end Serving.Owned

/-- **A walk belongs to its client**: as long as no client goes on with a
continuation another has left, what `getNextAssertion` returns is for its
client's own request. -/
theorem Serving.own_of_mine (P : Platform) (file : File) (clock : Nat) (as : List (UInt32 × Action)) (x : Serving)
    (h : Runs (step P) Mine (boot file clock) as x) (a : UInt32 × Action) (y : Serving) (hok : x.Mine a)
    (hstep : x.step P a = some y) : x.Own P a.2 :=
  ((h.invariant (I := Owned) (fun _ _ _ hI hok hstep => (hI.step hok hstep).2) (.boot file clock)).step hok hstep).1

/-! ## Two clients -/

/-- `authenticatorGetAssertion` for `a`, with a `clientDataHash` of one byte repeated. -/
def getAssertionHashing (byte : UInt8) : List UInt8 :=
  [0x02, 0xa2, 0x01, 0x61, 0x61, 0x02, 0x58, 0x20] ++ List.replicate 32 byte

/-- Two credentials for `a` are made, and client 1 on USB asks for an assertion; then `others`
happens, and client 1 asks for the next one. -/
def clientsRun (others : List (UInt32 × Action)) : List (UInt32 × Action) :=
  [(1, .receive .usb (makeCredentialMsg 0x61) true), (1, .enter .usb .plain), (1, .decide true (some 1)), (1, .wake .usb),
    (1, .resume .usb .plain), (1, .receive .usb (makeCredentialMsg 0x61) true), (1, .enter .usb .plain),
    (1, .receive .usb (getAssertionHashing 1) true), (1, .enter .usb .plain)] ++ others ++
    [(1, .receive .usb [0x08] true)]

/-- Client 2 on the other transport asks for an assertion of its own. -/
def otherAsks : List (UInt32 × Action) := [(2, .receive .ctap (getAssertionHashing 2) true), (2, .enter .ctap .plain)]

namespace Serving

def mine (x : Serving) (a : UInt32 × Action) : Bool :=
  match a.2 with
  | .enter t _ => !x.device.goesNext a.2 || x.device.core.assert.isNone || x.owner == some (x.served t)
  | _ => true

theorem mine_of_true (x : Serving) (a : UInt32 × Action) (h : x.mine a = true) : x.Mine a := by
  rintro t io heq hw hassert
  obtain ⟨cid, a⟩ := a
  cases heq
  obtain ⟨k, hk⟩ := Option.ne_none_iff_exists'.mp hassert
  simpa [mine, goesNext, hw, hk] using h

/-- The hash a `getNextAssertion` signs, and the one its client asked for. -/
def hashes (P : Platform) (x : Serving) (a : Action) : Option (Bytes 32 × Option (Bytes 32)) :=
  match x.device.goesNext a, x.device.reply P a with
  | true, some ⟨t, _, [.assertion s]⟩ => some (s.clientDataHash, (x.asked (x.served t)).map (·.clientDataHash))
  | _, _ => none

theorem of_hashes {x : Serving} {a : Action} {hash : Bytes 32} {asked : Option (Bytes 32)}
    (h : x.hashes P a = some (hash, asked)) : x.device.goesNext a = true ∧ ∃ r s, x.device.reply P a = some r ∧
      .assertion s ∈ r.effects ∧ s.clientDataHash = hash ∧ (x.asked (x.served r.transport)).map (·.clientDataHash) = asked := by
  rw [hashes] at h
  split at h
  · next t _ s hgoes hreply =>
    cases h
    exact ⟨hgoes, _, s, hreply, .head _, rfl, rfl⟩
  · cases h

/-- With no one else there, the client gets what it asked for. -/
theorem own_clientsRun : ∃ x y, Runs (step .volatile) Mine (boot none 0) (clientsRun []) x ∧
    x.step .volatile (1, .enter .usb .plain) = some y ∧ x.device.goesNext (.enter .usb .plain) = true ∧
    x.Own .volatile (.enter .usb .plain) := by
  have h : (Runs.exec (step .volatile) mine (boot none 0) (clientsRun [])).map
      (fun x => ((x.hashes .volatile (.enter .usb .plain)).isSome, x.mine (1, .enter .usb .plain),
        (x.step .volatile (1, .enter .usb .plain)).isSome)) = some (true, true, true) := by decide +kernel
  obtain ⟨x, hx, hcheck⟩ := Option.map_eq_some_iff.mp h
  obtain ⟨hhash, hmine, hstep⟩ : (x.hashes .volatile (.enter .usb .plain)).isSome = true ∧
      x.mine (1, .enter .usb .plain) = true ∧ (x.step .volatile (1, .enter .usb .plain)).isSome = true := by
    simpa using hcheck
  obtain ⟨⟨hash, asked⟩, hhash⟩ := Option.isSome_iff_exists.mp hhash
  obtain ⟨y, hy⟩ := Option.isSome_iff_exists.mp hstep
  have hrun : Runs (step .volatile) Mine (boot none 0) (clientsRun []) x := Runs.of_exec mine_of_true hx
  exact ⟨x, y, hrun, hy, (of_hashes hhash).1, own_of_mine .volatile none 0 _ x hrun _ y (mine_of_true x _ hmine) hy⟩

/-- Client 1 is handed an assertion over the hash of client 2. -/
theorem exists_not_own : ∃ as x y, Runs (step .volatile) (fun _ _ => True) (boot none 0) as x ∧
    x.step .volatile (1, .enter .usb .plain) = some y ∧ ¬ x.Own .volatile (.enter .usb .plain) := by
  have h : (Runs.exec (step .volatile) (fun _ _ => true) (boot none 0) (clientsRun otherAsks)).map
      (fun x => ((x.step .volatile (1, .enter .usb .plain)).isSome, x.hashes .volatile (.enter .usb .plain))) =
      some (true, some (.replicate 32 2, some (.replicate 32 1))) := by decide +kernel
  obtain ⟨x, hx, hcheck⟩ := Option.map_eq_some_iff.mp h
  obtain ⟨hstep, hhash⟩ := Prod.mk.inj hcheck
  obtain ⟨y, hy⟩ := Option.isSome_iff_exists.mp hstep
  obtain ⟨hgoes, r, s, hreply, hmem, hs, hasked⟩ := of_hashes hhash
  refine ⟨_, x, y, Runs.of_exec (fun _ _ _ => trivial) hx, hy, fun hown => ?_⟩
  obtain ⟨req, hreq, -, hsame⟩ := (hown r hgoes hreply).2 s hmem
  rw [hreq, Option.map_some, Option.some.injEq, ← hsame, hs] at hasked
  exact absurd hasked (by decide)

end Serving

end AbkFido
