/-
What the parts of a command do, said once for each.

The slots a request was matched to before the gate are its `picks`; so are
those an assertion continuation still has to serve. An assertion is signed
with one of its command's picks, as the slot is at that moment
(`signed_pick`), and the digest in its authenticator data is of the rp id
that was asked for.
-/
import AbkFido.Command
import AbkFido.StoreOps

namespace AbkFido

variable {P : Platform}

/-! ## Picks -/

/-- A slot chosen for a request. -/
structure Pick where
  slot : Fin maxCreds
  rpId : List UInt8
  allow : List ListedCred

/-- The credential may answer the request. -/
def Credential.Answers (cred : Credential) (rpId : List UInt8) (allow : List ListedCred) : Prop :=
  cred.inUse = true ∧ rpMatchesRequest cred.rpId.str rpId = true ∧ credentialMatchesAllow allow cred = true

theorem Credential.Answers.any {cred : Credential} {rpId : List UInt8} {allow : List ListedCred}
    (h : cred.Answers rpId allow) : cred.Answers rpId [] := ⟨h.1, h.2.1, rfl⟩

def Pick.Valid (st : Store) (p : Pick) : Prop := (st.creds p.slot).Answers p.rpId p.allow

/-- The slots a waiting command goes on to sign with or to hand on. -/
def Rest.picks : Rest → List Pick
  | .getAssertion req slot more => (slot :: more).map fun i => ⟨i, req.rpId, req.allow⟩
  | .getNextAssertion slot _ _ rpId => [⟨slot, rpId, []⟩]
  | _ => []

/-- The slots a continuation has still to serve. -/
def Continuation.picks (k : Continuation) : List Pick := (k.slots.drop k.next).map fun i => ⟨i, k.rpId, []⟩

def Core.picks (c : Core) : List Pick := (c.assert.map Continuation.picks).getD []

theorem collect_valid {st : Store} {req : GetAssertReq} {i : Fin maxCreds} (h : i ∈ collectRpCredentials st req) :
    (st.creds i).Answers req.rpId req.allow := by
  simp only [collectRpCredentials, Store.used, List.mem_filter, Bool.and_eq_true] at h
  exact ⟨h.1.2, h.2.1, h.2.2⟩

/-! ## Signing -/

/-- What signing an assertion leaves. -/
theorem encodeAssertion_spec (io : Io) (slot : Fin maxCreds) (rpId : List UInt8) (allow : List ListedCred)
    (hash : Bytes 32) (includeUser : Bool) (total : Nat) (hmac : Option (Bytes 64)) (c : Core) :
    let o := encodeAssertionLocked P io slot rpId allow hash includeUser total hmac c
    (∃ ops : List StoreOp, (∀ op ∈ ops, op.Ordinary) ∧ o.core.storage = StoreOp.applyAll P c.storage ops) ∧
      o.core.assert = c.assert ∧
      ∀ e ∈ o.effects, ∃ s, e = .assertion s ∧ s.slot = slot ∧ s.cred = c.storage.store.creds slot ∧ s.rpId = rpId ∧
        s.allow = allow ∧ s.authData.rpIdHash = P.sha256 rpId := by
  intro o
  have hbump : ∃ ops : List StoreOp, (∀ op ∈ ops, op.Ordinary) ∧ c.storage.bumpSignCount = StoreOp.applyAll P c.storage ops :=
    ⟨[.bump], by simp [StoreOp.Ordinary], rfl⟩
  simp only [o, encodeAssertionLocked]
  split
  · exact ⟨hbump, rfl, by simp⟩
  next a ha =>
  have hhash : a.rpIdHash = P.sha256 rpId := by
    split at ha
    · cases ha; rfl
    · next output =>
      cases hext : hmacAnswered (200 - 37) output with
      | error e => rw [hext] at ha; cases ha
      | ok ext => rw [hext] at ha; cases ha; rfl
  split
  · exact ⟨hbump, rfl, by simp⟩
  split
  · exact ⟨hbump, rfl, fun e he => ⟨_, List.mem_singleton.mp he, rfl, rfl, rfl, rfl, hhash⟩⟩
  · refine ⟨⟨[.bump, .dirty, .persist io.persist], by simp [StoreOp.Ordinary], rfl⟩, rfl, ?_⟩
    exact fun e he => ⟨_, List.mem_singleton.mp he, rfl, rfl, rfl, rfl, hhash⟩

/-- An ordinary command: it ends with the store changed by ordinary operations. -/
def Outcome.Ordinary (P : Platform) (c : Core) (o : Outcome) : Prop :=
  ∃ ops : List StoreOp, (∀ op ∈ ops, op.Ordinary) ∧ o.core.storage = StoreOp.applyAll P c.storage ops

theorem Outcome.Ordinary.unchanged {c : Core} {o : Outcome} (h : o.core.storage = c.storage) : o.Ordinary P c :=
  ⟨[], by simp, h⟩

theorem makeCredential_ordinary (io : Io) (req : MakeCredReq) (c : Core) :
    (makeCredentialFinish P io req c).Ordinary P c := by
  simp only [makeCredentialFinish]
  split
  · exact .unchanged rfl
  split
  · exact .unchanged rfl
  next slot hslot =>
  have hmint : ∀ cred, c.storage.setCred slot cred = StoreOp.apply P c.storage (.mint cred) := fun cred => by
    simp only [StoreOp.apply, hslot]
  have hrevert : ∃ ops : List StoreOp, (∀ op ∈ ops, op.Ordinary) ∧
      c.storage.setCred slot .zero = StoreOp.applyAll P c.storage ops :=
    ⟨[.mint .zero], by simp [StoreOp.Ordinary], hmint _⟩
  have hkept : ∀ cred, ∃ ops : List StoreOp, (∀ op ∈ ops, op.Ordinary) ∧
      maybePersistLocked P io.persist (c.storage.setCred slot cred).markDirty = StoreOp.applyAll P c.storage ops :=
    fun cred => ⟨[.mint cred, .dirty, .persist io.persist], by simp [StoreOp.Ordinary], by rw [hmint]; rfl⟩
  split
  · exact hrevert
  split
  · exact hrevert
  split
  · exact hrevert
  split
  · exact hrevert
  · exact hkept _

/-- Making a credential signs no assertion and leaves the continuation alone. -/
theorem makeCredential_assert (io : Io) (req : MakeCredReq) (c : Core) :
    (makeCredentialFinish P io req c).core.assert = c.assert ∧
      ∀ s, .assertion s ∉ (makeCredentialFinish P io req c).effects := by
  simp only [makeCredentialFinish]
  split
  · simp
  split
  · simp
  split
  · simp
  split
  · simp
  split
  · simp
  split <;> simp

/-! ## The approved part -/

/-- Only RESET is not ordinary. -/
theorem finish_ordinary (io : Io) (now : UInt64) {rest : Rest} (hrest : rest ≠ .reset) (c : Core) :
    (finish P io now rest c).Ordinary P c := by
  cases rest with
  | reset => exact absurd rfl hrest
  | selection | selectionMakeCredential => exact .unchanged rfl
  | makeCredential req => exact makeCredential_ordinary io req c
  | getAssertion req slot more =>
    simp only [finish, getAssertionFinish]
    split
    · exact .unchanged rfl
    next hmac _ =>
    obtain ⟨hord, _⟩ := encodeAssertion_spec (P := P) io slot req.rpId req.allow req.clientDataHash
      (req.allow.isEmpty || decide (more.length + 1 > 1) || (c.storage.store.creds slot).resident) (more.length + 1) hmac c
    split
    · exact hord
    · split <;> exact hord
  | getNextAssertion slot served hash rpId =>
    simp only [finish, getNextAssertionFinish]
    split
    · exact .unchanged rfl
    split
    · exact .unchanged rfl
    obtain ⟨hord, _⟩ := encodeAssertion_spec (P := P) io slot rpId [] hash true 1 none c
    split <;> exact hord

/-- **An assertion is signed with a pick of its command**, as the slot is at
that moment, over the digest of the rp id that was asked for. -/
theorem signed_pick {io : Io} {now : UInt64} {rest : Rest} {c : Core} {s : Signed}
    (h : .assertion s ∈ (finish P io now rest c).effects) :
    ⟨s.slot, s.rpId, s.allow⟩ ∈ rest.picks ∧ s.cred = c.storage.store.creds s.slot ∧
      s.authData.rpIdHash = P.sha256 s.rpId := by
  cases rest with
  | reset | selection | selectionMakeCredential => simp [finish] at h
  | makeCredential req => exact absurd h ((makeCredential_assert io req c).2 s)
  | getAssertion req slot more =>
    simp only [finish, getAssertionFinish] at h
    split at h
    · cases h
    next hmac _ =>
    obtain ⟨_, _, heff⟩ := encodeAssertion_spec (P := P) io slot req.rpId req.allow req.clientDataHash
      (req.allow.isEmpty || decide (more.length + 1 > 1) || (c.storage.store.creds slot).resident) (more.length + 1) hmac c
    have hmem : Effect.assertion s ∈ (encodeAssertionLocked P io slot req.rpId req.allow req.clientDataHash
        (req.allow.isEmpty || decide (more.length + 1 > 1) || (c.storage.store.creds slot).resident) (more.length + 1)
        hmac c).effects := by
      split at h
      · exact h
      · split at h <;> exact h
    obtain ⟨s', hs', rfl, hcred, hrp, hallow, hhash⟩ := heff _ hmem
    cases hs'
    exact ⟨by simp [Rest.picks, hrp, hallow], hcred, by rw [hhash, hrp]⟩
  | getNextAssertion slot served hash rpId =>
    simp only [finish, getNextAssertionFinish] at h
    split at h
    · cases h
    split at h
    · cases h
    obtain ⟨_, _, heff⟩ := encodeAssertion_spec (P := P) io slot rpId [] hash true 1 none c
    have hmem : Effect.assertion s ∈ (encodeAssertionLocked P io slot rpId [] hash true 1 none c).effects := by
      split at h <;> exact h
    obtain ⟨s', hs', rfl, hcred, hrp, hallow, hhash⟩ := heff _ hmem
    cases hs'
    exact ⟨by simp [Rest.picks, hrp, hallow], hcred, by rw [hhash, hrp]⟩

/-- What is left to serve after a command was left before, or is what the
command itself was matched to. -/
theorem picks_finish {io : Io} {now : UInt64} {rest : Rest} {c : Core} {p : Pick}
    (h : p ∈ (finish P io now rest c).core.picks) :
    p ∈ c.picks ∨ ∃ q ∈ rest.picks, p = { q with allow := [] } := by
  cases rest with
  | reset | selection | selectionMakeCredential => exact .inl h
  | makeCredential req =>
    rw [Core.picks, finish, (makeCredential_assert io req c).1] at h
    exact .inl h
  | getAssertion req slot more =>
    simp only [finish, getAssertionFinish] at h
    split at h
    · exact .inl h
    next hmac _ =>
    obtain ⟨_, hassert, _⟩ := encodeAssertion_spec (P := P) io slot req.rpId req.allow req.clientDataHash
      (req.allow.isEmpty || decide (more.length + 1 > 1) || (c.storage.store.creds slot).resident) (more.length + 1) hmac c
    split at h
    · rw [Core.picks, hassert] at h; exact .inl h
    · split at h
      · simp only [Core.picks, Option.map_some, Option.getD_some, Continuation.picks, List.drop_one, List.tail_cons,
          List.mem_map] at h
        obtain ⟨i, hi, rfl⟩ := h
        exact .inr ⟨⟨i, req.rpId, req.allow⟩, by simp [Rest.picks, hi], rfl⟩
      · rw [Core.picks, hassert] at h; exact .inl h
  | getNextAssertion slot served hash rpId =>
    simp only [finish, getNextAssertionFinish] at h
    split at h
    · next hnone => exact .inl h
    next k hk =>
    split at h
    · exact .inl h
    obtain ⟨_, hassert, _⟩ := encodeAssertion_spec (P := P) io slot rpId [] hash true 1 none c
    split at h
    · rw [Core.picks, hassert] at h; exact .inl h
    · refine .inl ?_
      split at h
      · cases h
      · simp only [Core.picks, Option.map_some, Option.getD_some, Continuation.picks, hk, List.mem_map] at h ⊢
        obtain ⟨i, hi, rfl⟩ := h
        have hlater : i ∈ (k.slots.drop k.next).drop 1 := by rw [List.drop_drop]; exact hi
        exact ⟨i, List.mem_of_mem_drop hlater, rfl⟩

/-! ## Up to the gate -/

/-- Before the gate a command at most loads the store. -/
theorem start_storage (io : Io) (now : UInt64) (cmd : Command) (c : Core) :
    (start P io now cmd c).2.storage = c.storage ∨
      (start P io now cmd c).2.storage = loadStoreLocked P io.load io.ids c.storage := by
  cases cmd with
  | getInfo => exact .inr rfl
  | reset | selection | clientPin | unknown => exact .inl rfl
  | makeCredential req =>
    refine .inr ?_
    simp only [start]
    split
    · rfl
    split
    · rfl
    split <;> rfl
  | getAssertion req =>
    refine .inr ?_
    simp only [start]
    split
    · rfl
    split <;> rfl
  | getNextAssertion =>
    refine .inl ?_
    simp only [start]
    split
    · rfl
    split
    · rfl
    split
    · rfl
    split <;> rfl

/-- It leaves no more to serve than there was. -/
theorem picks_start {io : Io} {now : UInt64} {cmd : Command} {c : Core} {p : Pick}
    (h : p ∈ (start P io now cmd c).2.picks) : p ∈ c.picks := by
  cases cmd with
  | getInfo | reset | selection | clientPin | unknown => exact h
  | makeCredential req =>
    simp only [start] at h
    split at h
    · exact h
    split at h
    · exact h
    split at h <;> exact h
  | getAssertion req =>
    simp only [start] at h
    split at h
    · cases h
    split at h <;> cases h
  | getNextAssertion =>
    simp only [start] at h
    split at h
    · exact h
    split at h
    · cases h
    split at h
    · cases h
    split at h
    · cases h
    · exact h

/-- What a command goes to the gate with: picks of the continuation, or slots
that were just matched in a loaded store. -/
theorem picks_ask {io : Io} {now : UInt64} {cmd : Command} {c c' : Core} {ask : Ask} {rest : Rest}
    (h : start P io now cmd c = (.ask ask rest, c')) {p : Pick} (hp : p ∈ rest.picks) :
    p ∈ c.picks ∨ (p.Valid c'.storage.store ∧ c'.storage.storeLoaded = true) := by
  cases cmd with
  | getInfo | clientPin | unknown => cases h
  | reset | selection => cases h; cases hp
  | makeCredential req =>
    simp only [start] at h
    split at h
    · cases h; cases hp
    split at h
    · cases h
    split at h
    · cases h
    · cases h; cases hp
  | getAssertion req =>
    simp only [start] at h
    split at h
    · cases h
    split at h
    · cases h
    next slot more hcollect =>
    cases h
    simp only [Rest.picks, ← hcollect, List.mem_map] at hp
    obtain ⟨i, hi, rfl⟩ := hp
    exact .inr ⟨collect_valid hi, StoreOp.load_storeLoaded _ _ _⟩
  | getNextAssertion =>
    simp only [start] at h
    split at h
    · cases h
    next k hk =>
    split at h
    · cases h
    next slot hslot =>
    split at h
    · cases h
    split at h
    · cases h
    cases h
    rw [Rest.picks, List.mem_singleton] at hp
    subst hp
    refine .inl ?_
    simp only [Core.picks, hk, Option.map_some, Option.getD_some, Continuation.picks, List.mem_map]
    exact ⟨slot, List.mem_of_getElem? (i := 0) (by rw [List.getElem?_drop]; exact hslot), rfl⟩

end AbkFido
