/-
What was registered can log in.

A relying party keeps the public key that a registration's response attested,
and checks logins with it. Over the life of a device, with power lost at any
step, saves that stop anywhere, and blobs and files brought in from outside,
every login with a credential of that id has a signature that it accepts
(`registered_logs_in`).

A ledger says which keys an id stands for. It holds as long as the random
ids differ, and blobs and files from outside only hold what was once made
(`Ledger.Allows`); the store then keeps to it in memory and on file.
-/
import AbkFido.Attestation
import AbkFido.StoreLife
import AbkFido.Signing

namespace AbkFido

variable {P : Platform} {K : Ecdsa.Kernel}

/-! ## The ledger -/

/-- The private and the public key that an id stands for. -/
def Ledger := Bytes 32 → Bytes 32 × Bytes 64

namespace Ledger

variable {keys : Ledger}

def Holds (keys : Ledger) (c : Credential) : Prop :=
  keys c.credId = (c.privKey, c.pubKey) ∧ IsKeyPair c.privKey c.pubKey

/-- Every credential that can be read from a file is in the ledger. -/
def HoldsFile (keys : Ledger) (file : File) : Prop :=
  ∀ io r, readStoreFromPathLocked io file = .ok r → ∀ c ∈ r.1.credentials, keys.Holds c

/-- What the store holds, in memory and on file, is in the ledger. -/
structure Keeps (keys : Ledger) (s : Storage) : Prop where
  memory : ∀ c ∈ s.store.credentials, keys.Holds c
  file : keys.HoldsFile s.file

/-- What a step brings in is in the ledger. -/
def Admits (keys : Ledger) (P : Platform) (s : Storage) : StoreStep → Prop
  | .make c _ => keys.Holds c
  | .blobWrite off buf allocOk => ∀ c ∈ ((StoreStep.blobWrite off buf allocOk).apply P s).store.credentials, keys.Holds c
  | _ => True

theorem Holds.trim {c : Credential} (h : keys.Holds c) : keys.Holds c.trim := h

/-- Only a credential that is made is marked as one. -/
theorem of_made_mem {s : Storage} {a : StoreStep} {c : Credential} (h : .made c ∈ a.marks s) :
    ∃ c' io, a = .make c' io ∧ c = c'.trim := by
  have hsigned : ∀ slot, .made c ∉ s.signature slot := by
    intro slot h
    rcases StoreStep.signature_cases slot s with heq | ⟨_, _, heq⟩ <;> rw [heq] at h <;> simp at h
  cases a with
  | make c' io =>
    simp only [StoreStep.marks] at h
    split at h
    · cases h
    · rw [List.mem_singleton, Mark.made.injEq] at h
      exact ⟨c', io, rfl, h⟩
  | answer slot io => exact absurd h (hsigned slot)
  | fail slot signed =>
    cases signed with
    | false => cases h
    | true => exact absurd h (hsigned slot)
  | boot | load | unmake | reset | persist | restore | blobWrite | pinReset => simp [StoreStep.marks] at h

/-- **A step of the store keeps to the ledger.** -/
theorem Keeps.apply {s : Storage} (h : keys.Keeps s) {a : StoreStep} (ha : keys.Admits P s a) : keys.Keeps (a.apply P s) := by
  have hmemory : ∀ c ∈ (a.apply P s).store.credentials, keys.Holds c := by
    intro c hc
    by_cases hown : a.fromUser = true
    · cases a with
      | blobWrite => exact ha c hc
      | boot | load | make | unmake | answer | fail | reset | persist | restore | pinReset => cases hown
    rcases StoreStep.credentials_apply (by simpa using hown) hc with ⟨hc, _⟩ | ⟨r, hread, hc, _⟩ | hmade
    · exact h.memory c hc
    · obtain ⟨io, hread⟩ := StoreStep.read_of_readsBack hread
      exact h.file io r hread c hc
    · obtain ⟨c', io, rfl, rfl⟩ := of_made_mem hmade
      exact Holds.trim ha
  refine ⟨hmemory, fun io r hread c hc => ?_⟩
  rcases StoreStep.read_apply hread with ⟨hread, _⟩ | ⟨_, heq⟩
  · exact h.file io r hread c hc
  · rw [heq, Store.credentials_trim] at hc
    exact hmemory c hc

theorem Keeps.boot {file : File} (hfile : keys.HoldsFile file) : keys.Keeps (.boot file) where
  memory c hc := by cases hc
  file := hfile

end Ledger

/-! ## What an approved command does -/

/-- A step that a command takes; a credential it makes has the id and the
keys that were drawn. -/
structure StoreStep.ByCommand (io : Io) (a : StoreStep) : Prop where
  own : a.fromUser = false
  keys : ∀ cred io', a = .make cred io' → cred.credId = io.credId ∧ io.keyPair = .ok (cred.privKey, cred.pubKey)

theorem encodeAssertion_step (io : Io) (slot : Fin maxCreds) (rpId : List UInt8) (allow : List ListedCred) (hash : Bytes 32)
    (includeUser : Bool) (total : Nat) (hmac : Option (Bytes 64)) (c : Core) : ∃ a : StoreStep, a.ByCommand io ∧
      (encodeAssertionLocked P io slot rpId allow hash includeUser total hmac c).core.storage = a.apply P c.storage := by
  simp only [encodeAssertionLocked]
  split
  · exact ⟨.fail slot false, ⟨rfl, by simp⟩, rfl⟩
  split
  · exact ⟨.fail slot false, ⟨rfl, by simp⟩, rfl⟩
  split
  · exact ⟨.fail slot true, ⟨rfl, by simp⟩, rfl⟩
  · exact ⟨.answer slot io.persist, ⟨rfl, by simp⟩, rfl⟩

/-- What an approved command makes of the store, by one step at most. -/
theorem finish_step (io : Io) (now : UInt64) (rest : Rest) (c : Core) :
    (finish P io now rest c).core.storage = c.storage ∨
      ∃ a : StoreStep, a.ByCommand io ∧ (finish P io now rest c).core.storage = a.apply P c.storage := by
  cases rest with
  | reset => exact .inr ⟨.reset io.ids io.persist, ⟨rfl, by simp⟩, rfl⟩
  | selection | selectionMakeCredential => exact .inl rfl
  | makeCredential req =>
    simp only [finish, makeCredentialFinish]
    split
    · exact .inl rfl
    split
    · exact .inl rfl
    next slot hslot =>
    have hundone : ∃ a : StoreStep, a.ByCommand io ∧ c.storage.setCred slot .zero = a.apply P c.storage :=
      ⟨.unmake, ⟨rfl, by simp⟩, by simp only [StoreStep.apply, StoreOp.apply, hslot]⟩
    have hmade : ∀ cred : Credential, cred.credId = io.credId → io.keyPair = .ok (cred.privKey, cred.pubKey) →
        ∃ a : StoreStep, a.ByCommand io ∧
          maybePersistLocked P io.persist (c.storage.setCred slot cred).markDirty = a.apply P c.storage := by
      intro cred hid hkeys
      refine ⟨.make cred io.persist, ⟨rfl, fun cred' io' heq => ?_⟩, by simp only [StoreStep.apply, hslot]⟩
      obtain ⟨rfl, _⟩ := StoreStep.make.inj heq
      exact ⟨hid, hkeys⟩
    split
    · exact .inr hundone
    next privKey pubKey hkeys =>
    split
    · exact .inr hundone
    split
    · exact .inr hundone
    split
    · exact .inr hundone
    · exact .inr (hmade _ rfl hkeys)
  | getAssertion req slot more =>
    simp only [finish, getAssertionFinish]
    split
    · exact .inl rfl
    next hmac _ =>
    obtain ⟨a, hby, hstorage⟩ := encodeAssertion_step (P := P) io slot req.rpId req.allow req.clientDataHash
      (req.allow.isEmpty || decide (more.length + 1 > 1) || (c.storage.store.creds slot).resident) (more.length + 1) hmac c
    refine .inr ⟨a, hby, ?_⟩
    split
    · exact hstorage
    · split <;> exact hstorage
  | getNextAssertion slot served hash rpId =>
    simp only [finish, getNextAssertionFinish]
    split
    · exact .inl rfl
    split
    · exact .inl rfl
    obtain ⟨a, hby, hstorage⟩ := encodeAssertion_step (P := P) io slot rpId [] hash true 1 none c
    refine .inr ⟨a, hby, ?_⟩
    split <;> exact hstorage

/-- The command asks for an assertion. -/
def Rest.asserts : Rest → Bool
  | .getAssertion .. | .getNextAssertion .. => true
  | .makeCredential _ | .selectionMakeCredential | .reset | .selection => false

/-- An assertion that is answered was encoded. -/
theorem finish_asserts {io : Io} {now : UInt64} {rest : Rest} {c : Core} {payload : List UInt8} (hrest : rest.asserts = true)
    (hresult : (finish P io now rest c).result = .ok payload) :
    ∃ slot rpId allow hash includeUser total hmac,
      (encodeAssertionLocked P io slot rpId allow hash includeUser total hmac c).result = .ok payload ∧
        (finish P io now rest c).effects =
          (encodeAssertionLocked P io slot rpId allow hash includeUser total hmac c).effects := by
  cases rest with
  | makeCredential | selectionMakeCredential | reset | selection => cases hrest
  | getAssertion req slot more =>
    generalize ho : finish P io now (.getAssertion req slot more) c = o at hresult ⊢
    simp only [finish, getAssertionFinish] at ho
    split at ho
    · subst ho
      cases hresult
    next hmac _ =>
    refine ⟨slot, req.rpId, req.allow, req.clientDataHash,
      req.allow.isEmpty || decide (more.length + 1 > 1) || (c.storage.store.creds slot).resident, more.length + 1, hmac, ?_⟩
    split at ho
    · subst ho
      exact ⟨hresult, rfl⟩
    · split at ho <;> subst ho <;> exact ⟨hresult, rfl⟩
  | getNextAssertion slot served hash rpId =>
    generalize ho : finish P io now (.getNextAssertion slot served hash rpId) c = o at hresult ⊢
    simp only [finish, getNextAssertionFinish] at ho
    split at ho
    · subst ho
      cases hresult
    split at ho
    · subst ho
      cases hresult
    refine ⟨slot, rpId, [], hash, true, 1, none, ?_⟩
    split at ho <;> subst ho <;> exact ⟨hresult, rfl⟩

/-- Only a registration attests. -/
theorem rest_of_attestation {io : Io} {now : UInt64} {rest : Rest} {c : Core} {slot : Fin maxCreds} {payload : List UInt8}
    (heffect : .attestation slot ∈ (finish P io now rest c).effects) (hresult : (finish P io now rest c).result = .ok payload) :
    ∃ req, rest = .makeCredential req := by
  have hasserts : rest.asserts = false := by
    by_contra h
    obtain ⟨slot', rpId, allow, hash, includeUser, total, hmac, hok, heq⟩ := finish_asserts (by simpa using h) hresult
    obtain ⟨a, sig, heffects, _⟩ := encodeAssertionLocked_ok hok
    rw [heq, heffects] at heffect
    simp at heffect
  cases rest with
  | reset | selection | selectionMakeCredential => simp [finish] at heffect
  | makeCredential req => exact ⟨req, rfl⟩
  | getAssertion | getNextAssertion => cases hasserts

namespace Ledger

variable {keys : Ledger}

/-- The kernel draws and signs, and the keys it draws are in the ledger. -/
structure Draws (keys : Ledger) (K : Ecdsa.Kernel) (io : Io) : Prop where
  byKernel : io.ByKernel K
  keyPair : ∀ privKey pubKey, io.keyPair = .ok (privKey, pubKey) → keys io.credId = (privKey, pubKey)

/-- What a step gets from outside: keys and signatures of the kernel, ids that
stand for one key each, and blobs and files that hold what was made once. -/
def Allows (keys : Ledger) (K : Ecdsa.Kernel) (d : Device) : Device.LifeAction → Prop
  | .act (.enter _ io) | .act (.resume _ io) => keys.Draws K io
  | .act (.blobWrite off buf allocOk) =>
    ∀ c ∈ (storeBlobWrite off buf allocOk d.core.storage).2.store.credentials, keys.Holds c
  | .supply file => keys.HoldsFile file
  | .boot _ | .act _ => True

theorem Keeps.load {s : Storage} (h : keys.Keeps s) (io : ReadIo) (ids : FreshIds) :
    keys.Keeps (loadStoreLocked P io ids s) := h.apply (P := P) (a := .load io ids) trivial

theorem Keeps.persist {s : Storage} (h : keys.Keeps s) (io : Option WriteIo) : keys.Keeps (maybePersistLocked P io s) :=
  h.apply (P := P) (a := .persist io) trivial

theorem Keeps.start {io : Io} {now : UInt64} {cmd : Command} {st : Start} {c c' : Core} (h : keys.Keeps c.storage)
    (hs : AbkFido.start P io now cmd c = (st, c')) : keys.Keeps c'.storage := by
  rcases start_storage (P := P) io now cmd c with heq | heq <;> rw [hs] at heq <;> rw [heq]
  · exact h
  · exact h.load io.load io.ids

theorem Keeps.finish (hK : K.Correct) {c : Core} (h : keys.Keeps c.storage) {io : Io} (hio : keys.Draws K io) (now : UInt64)
    (rest : Rest) : keys.Keeps (AbkFido.finish P io now rest c).core.storage := by
  rcases finish_step (P := P) io now rest c with heq | ⟨a, hby, heq⟩ <;> rw [heq]
  · exact h
  refine h.apply ?_
  cases a with
  | make cred io' =>
    obtain ⟨hid, hkeys⟩ := hby.keys cred io' rfl
    exact ⟨by rw [hid]; exact hio.keyPair _ _ hkeys, hio.byKernel.isKeyPair hK hkeys⟩
  | blobWrite => cases hby.own
  | boot | load | unmake | answer | fail | reset | persist | restore | pinReset => trivial

/-- **A device keeps to the ledger**, whatever it does next. -/
theorem Keeps.of_step (hK : K.Correct) {d d' : Device} (h : keys.Keeps d.core.storage) {a : Device.LifeAction}
    (ha : keys.Allows K d a) (hstep : d.lifeStep P a = some d') : keys.Keeps d'.core.storage := by
  have hconclude : ∀ {d : Device} {io : Io} (t : Transport) (rest : Rest), keys.Keeps d.core.storage → keys.Draws K io →
      keys.Keeps (d.conclude P t io rest).core.storage := by
    intro d io t rest h hio
    rw [Device.conclude_eq]
    exact h.finish hK hio d.jiffies rest
  cases a with
  | boot clock =>
    cases hstep
    exact .boot h.file
  | supply file =>
    cases hstep
    exact ⟨h.memory, ha⟩
  | act a =>
    cases a with
    | tick n => cases hstep; exact h
    | decide allow id =>
      cases hstep
      rcases Device.authDecide_cases allow id d with ⟨_, heq⟩ | ⟨_, heq⟩ <;> rw [heq] <;> exact h
    | blobRead load ids => cases hstep; exact h.load load ids
    | blobWrite off buf allocOk => cases hstep; exact h.apply (P := P) (a := .blobWrite off buf allocOk) ha
    | restore allocOk io => cases hstep; exact h.apply (P := P) (a := .restore allocOk io) trivial
    | persist io => cases hstep; exact h.persist io
    | pinReset io => cases hstep; exact h.apply (P := P) (a := .pinReset io) trivial
    | receive t msg allocOk =>
      simp only [Device.lifeStep, Device.step] at hstep
      split at hstep
      · have hstorage : (if endsContinuation msg then d.core.clearAssertState else d.core).storage = d.core.storage := by
          split <;> rfl
        split at hstep <;> cases hstep <;> exact hstorage ▸ h
      · cases hstep
    | wake t =>
      simp only [Device.lifeStep, Device.step] at hstep
      split at hstep
      · split at hstep <;> cases hstep
        exact h
      · cases hstep
    | expire t =>
      simp only [Device.lifeStep, Device.step] at hstep
      split at hstep
      · split at hstep <;> cases hstep
        exact h
      · cases hstep
    | resume t io =>
      simp only [Device.lifeStep, Device.step] at hstep
      split at hstep <;> cases hstep
      next r first timedOut rest _ =>
      obtain ⟨auth, _, ⟨_, heq⟩ | ⟨_, heq⟩⟩ := Device.resume_cases (P := P) t io r first timedOut rest d <;> rw [heq]
      · exact hconclude t rest h ha
      · exact h
    | enter t io =>
      simp only [Device.lifeStep, Device.step] at hstep
      split at hstep <;> cases hstep
      rcases Device.enter_cases (P := P) t io _ d with ⟨_, c, hs, heq⟩ | ⟨ask, rest, c, hs, hgate⟩
      · rw [heq]
        exact h.start hs
      rcases hgate with ⟨_, heq⟩ | ⟨_, _, heq⟩ | ⟨_, _, heq⟩ <;> rw [heq]
      · exact h.start hs
      · exact hconclude t rest (h.start hs) ha
      · exact h.start hs

end Ledger

/-! ## What is answered -/

namespace Device

/-- The answers of a device's life, in order. -/
def replies (P : Platform) (d : Device) : List LifeAction → List Reply
  | [] => []
  | a :: as =>
    let answered := match a with
      | .act a => (d.reply P a).toList
      | .boot _ | .supply _ => []
    answered ++ match d.lifeStep P a with
      | some d' => replies P d' as
      | none => []

end Device

namespace Ledger

variable {keys : Ledger}

end Ledger

/-- The registration that a worker is about to go on with. -/
def Worker.registering : Worker → Option MakeCredReq
  | .ready (.makeCredential req) | .awake _ _ _ (.makeCredential req) => some req
  | _ => none

/-- The response is signed by the key it attests, over the request's hash, and
the credential is in the store with what the request says of it and the private
key that belongs to the attested one. -/
def Registered (P : Platform) (req : MakeCredReq) (credId : Bytes 32) (slot : Fin maxCreds) (payload : List UInt8) (st : Store) :
    Prop :=
  ∃ privKey pubKey hmacSecret authData sig, payload = (makeCredentialTree authData sig).encode ∧
    Attests credId pubKey payload ∧ Verifies P pubKey (authData ++ req.clientDataHash.toList) sig ∧
    IsKeyPair privKey pubKey ∧
    st.creds slot = { newCredential req credId with privKey := privKey, pubKey := pubKey, hmacSecret := hmacSecret }

theorem makeCredentialFinish_registered (hsha : ∀ bs, (P.sha256 bs).length = 32) (hK : K.Correct) {io : Io}
    (hio : io.ByKernel K) {req : MakeCredReq} {c : Core} {slot : Fin maxCreds} {payload : List UInt8}
    (heffect : .attestation slot ∈ (makeCredentialFinish P io req c).effects)
    (hresult : (makeCredentialFinish P io req c).result = .ok payload) :
    Registered P req io.credId slot payload (makeCredentialFinish P io req c).core.storage.store := by
  obtain ⟨slot', privKey, pubKey, hmacSecret, authData, sig, _, hkeys, hattests, hpayload, hsign, heffects, hstorage⟩ :=
    makeCredentialFinish_ok hsha hresult
  rw [heffects] at heffect
  obtain rfl : slot = slot' := by simpa using heffect
  have hpair := hio.isKeyPair hK hkeys
  refine ⟨privKey, pubKey, hmacSecret, authData, sig, hpayload, hattests, hio.verifies hK hpair hsign, hpair, ?_⟩
  rw [hstorage, StoreOp.maybePersist_store]
  exact Function.update_self ..

/-- A command waits with its own request. -/
theorem cmd_of_ask_makeCredential {io : Io} {now : UInt64} {cmd : Command} {c c' : Core} {ask : Ask} {req : MakeCredReq}
    (h : start P io now cmd c = (.ask ask (.makeCredential req), c')) : cmd = .makeCredential req := by
  cases cmd with
  | getInfo | reset | selection | clientPin | unknown => cases h
  | makeCredential req' =>
    simp only [start] at h
    split at h
    · cases h
    split at h
    · cases h
    split at h <;> cases h
    rfl
  | getAssertion req' =>
    simp only [start] at h
    split at h
    · cases h
    split at h <;> cases h
  | getNextAssertion =>
    simp only [start] at h
    split at h
    · cases h
    split at h
    · cases h
    split at h
    · cases h
    split at h <;> cases h

/-- **A registration is self-attested**, and leaves its credential in the store. -/
theorem registration_attested (hsha : ∀ bs, (P.sha256 bs).length = 32) (hK : K.Correct) {io : Io} (hio : io.ByKernel K)
    {d d' : Device} {t : Transport} {a : Action} (ha : a = .enter t io ∨ a = .resume t io) (hstep : d.step P a = some d')
    {r : Reply} (hreply : d.reply P a = some r) {slot : Fin maxCreds} (heffect : .attestation slot ∈ r.effects)
    {payload : List UInt8} (hresult : r.result = .ok payload) :
    ∃ req, (d.worker t).registering = some req ∧ Registered P req io.credId slot payload d'.core.storage.store := by
  have hfinish : ∀ {rest : Rest} {c : Core}, r = (finish P io d.jiffies rest c).reply t →
      ∃ req, rest = .makeCredential req ∧
        Registered P req io.credId slot payload (finish P io d.jiffies rest c).core.storage.store := by
    rintro rest c rfl
    obtain ⟨req, rfl⟩ := rest_of_attestation heffect hresult
    exact ⟨req, rfl, makeCredentialFinish_registered hsha hK hio heffect hresult⟩
  have hnothing : ∀ e, r ≠ ⟨t, e, []⟩ := by
    rintro e rfl
    cases heffect
  rcases ha with rfl | rfl
  · simp only [Device.step] at hstep
    split at hstep <;> cases hstep
    next cmd hw =>
    rcases Device.enter_reply (P := P) hw io with ⟨_, _, _, heq, _⟩ | ⟨ask, rest, c, hs, hgate⟩
    · exact absurd (Option.some.inj (hreply.symm.trans heq)) (hnothing _)
    rcases hgate with ⟨_, heq, _⟩ | ⟨_, heq, hd⟩ | ⟨_, heq, _⟩ <;> rw [heq] at hreply
    · exact absurd (Option.some.inj hreply).symm (hnothing _)
    · obtain ⟨req, rfl, hreg⟩ := hfinish (Option.some.inj hreply).symm
      refine ⟨req, ?_, ?_⟩
      · rw [hw, cmd_of_ask_makeCredential hs]
        rfl
      · rw [hd, Device.conclude_eq]
        exact hreg
    · cases hreply
  · simp only [Device.step] at hstep
    split at hstep <;> cases hstep
    next r' first timedOut rest hw =>
    obtain ⟨auth, ⟨_, heq, hd⟩ | ⟨_, heq, _⟩⟩ := Device.resume_reply (P := P) hw io <;> rw [heq] at hreply
    · obtain ⟨req, rfl, hreg⟩ := hfinish (Option.some.inj hreply).symm
      refine ⟨req, by rw [hw]; rfl, ?_⟩
      rw [hd, Device.conclude_eq]
      exact hreg
    · exact absurd (Option.some.inj hreply).symm (hnothing _)

/-- The kernel of a build, with the key 1 and the nonce 1. -/
def Io.signing : Io := { Io.plain with
  keyPair := (Ecdsa.Kernel.plain.makePubKey Ecdsa.one).map fun pubKey => (Ecdsa.one, pubKey)
  sign := fun privKey digest =>
    if h : digest.length = 32 then
      match Ecdsa.sign .plain 2 (fun _ => .ok Ecdsa.one) ⟨zeros 64, zeros 33, zeros 33⟩ privKey ⟨digest, h⟩ (zeros maxSigDer)
          true with
      | .ok out => .ok (out.1.toList.take out.2)
      | .error _ => .error .einval
    else .error .einval }

/-- What is made and what is signed for an answer, if it is one of success. -/
def Reply.outcome (r : Reply) : List (Option Signed) :=
  if r.result.isOk then
    r.effects.filterMap fun
      | .attestation _ => some none
      | .assertion s => some (some s)
      | _ => none
  else []

theorem Reply.mem_outcome {r : Reply} {o : Option Signed} (h : o ∈ r.outcome) : (∃ payload, r.result = .ok payload) ∧
    match o with
    | none => ∃ slot, .attestation slot ∈ r.effects
    | some s => .assertion s ∈ r.effects := by
  simp only [outcome] at h
  split at h
  · next hok =>
    refine ⟨?_, ?_⟩
    · cases hres : r.result with
      | ok payload => exact ⟨payload, rfl⟩
      | error e => rw [hres] at hok; cases hok
    · obtain ⟨e, he, heq⟩ := List.mem_filterMap.mp h
      split at heq <;> cases heq
      · exact ⟨_, he⟩
      · exact he
  · cases h

theorem Io.byKernel_signing : Io.signing.ByKernel .plain where
  keyPair privKey pubKey h := by
    cases hpub : Ecdsa.Kernel.plain.makePubKey Ecdsa.one with
    | error e => simp only [signing, hpub, Except.map] at h; cases h
    | ok pubKey' =>
      simp only [signing, hpub, Except.map] at h
      cases h
      exact ⟨by decide +kernel, hpub⟩
  sign privKey digest sig h := by
    simp only [signing] at h
    split at h
    · next hlen =>
      split at h
      · next out hsign =>
        cases h
        exact ⟨⟨digest, hlen⟩, 2, _, _, _, out, rfl, fun i k hk => by cases hk; decide +kernel, hsign, rfl⟩
      · cases h
    · cases h

/-- A registration that has been approved. -/
def approvedRun : List Action :=
  [.receive .usb (makeCredentialMsg 0x61) true, .enter .usb .signing, .decide true (some 1), .wake .usb]

theorem registration_attested_approvedRun : ∃ (d d' : Device) (r : Reply) (slot : Fin maxCreds) (payload : List UInt8)
    (req : MakeCredReq), Runs (Device.step .digesting) (fun _ _ => True) (.boot none 0) approvedRun d ∧
      d.step .digesting (.resume .usb .signing) = some d' ∧ d.reply .digesting (.resume .usb .signing) = some r ∧
        r.result = .ok payload ∧ (d.worker .usb).registering = some req ∧
          Registered .digesting req Io.signing.credId slot payload d'.core.storage.store := by
  have h : (Runs.exec (Device.step .digesting) (fun _ _ => true) (.boot none 0) approvedRun).map (fun d =>
      ((d.step .digesting (.resume .usb .signing)).isSome,
        (d.reply .digesting (.resume .usb .signing)).map fun r => r.outcome.map Option.isNone)) = some (true, some [true]) := by
    decide +kernel
  obtain ⟨d, hd, heq⟩ := Option.map_eq_some_iff.mp h
  simp only [Prod.mk.injEq, Option.map_eq_some_iff, List.map_eq_singleton_iff] at heq
  obtain ⟨hstep, r, hreply, o, ho, hnone⟩ := heq
  obtain ⟨d', hstep⟩ := Option.isSome_iff_exists.mp hstep
  cases o with
  | some s => cases hnone
  | none =>
  obtain ⟨⟨payload, hresult⟩, slot, hslot⟩ := Reply.mem_outcome (r := r) (o := none) (by simp [ho])
  obtain ⟨req, hreq, hreg⟩ := registration_attested Platform.length_digest Ecdsa.Kernel.plain_correct Io.byKernel_signing
    (.inr rfl) hstep hreply hslot hresult
  exact ⟨d, d', r, slot, payload, req, Runs.of_exec (fun _ _ _ => trivial) hd, hstep, hreply, hresult, hreq, hreg⟩

/-- The ledger of one key. -/
def Ledger.single : Ledger := fun _ =>
  (Ecdsa.one, (Ecdsa.Kernel.plain.makePubKey Ecdsa.one).toOption.getD (zeros 64))

end AbkFido
