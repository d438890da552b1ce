/-
The `allowList` of getAssertion.
-/
import AbkFido.Continue
import AbkFido.Exclude

namespace AbkFido

open CborForm Device

variable {P : Platform}

/-- The credential in slot `i` may answer the request: it is for its rp, and
on its list if there is one. -/
def GetAssertion.Selects (q : GetAssertion) (st : Store) (i : Fin maxCreds) : Prop :=
  (st.creds i).inUse = true ∧ rpMatchesRequest (st.creds i).rpId.str q.rpId.1 = true ∧
    (q.allow.getD [] = [] ∨ some (st.creds i).credId.toList ∈ q.allow.getD [])

theorem credentialMatchesAllow_iff {allow : List ListedCred} {cred : Credential} :
    credentialMatchesAllow allow cred = true ↔ allow = [] ∨ some cred.credId.toList ∈ allow := by
  rw [credentialMatchesAllow, Bool.or_eq_true, List.isEmpty_iff, List.any_eq_true]
  refine or_congr_right ⟨?_, fun hmem => ⟨_, hmem, ?_⟩⟩
  · rintro ⟨entry, hentry, hany⟩
    cases entry with
    | none => cases hany
    | some id =>
      have hid : (id.length == 32 && id == cred.credId.toList) = true := hany
      rw [Bool.and_eq_true, beq_iff_eq, beq_iff_eq] at hid
      rwa [← hid.2]
  · show (cred.credId.toList.length == 32 && cred.credId.toList == cred.credId.toList) = true
    rw [Bool.and_eq_true, beq_iff_eq, beq_iff_eq]
    exact ⟨cred.credId.toList_length, rfl⟩

theorem mem_collectRpCredentials {q : GetAssertion} {st : Store} {i : Fin maxCreds} :
    i ∈ collectRpCredentials st q.req ↔ q.Selects st i := by
  rw [collectRpCredentials, List.mem_filter, Store.mem_used, Bool.and_eq_true, credentialMatchesAllow_iff]
  rfl

theorem collectRpCredentials_sorted (st : Store) (req : GetAssertReq) :
    (collectRpCredentials st req).Pairwise (· < ·) :=
  ((List.pairwise_lt_finRange maxCreds).filter _).filter _

/-! ## The answer -/

/-- An assertion response: whom it is signed with, and how it is made. -/
theorem encodeAssertion_answered {io : Io} {slot : Fin maxCreds} {rpId : List UInt8} {allow : List ListedCred}
    {hash : Bytes 32} {includeUser : Bool} {total : Nat} {hmac : Option (Bytes 64)} {c : Core} {payload : List UInt8}
    (h : (encodeAssertionLocked P io slot rpId allow hash includeUser total hmac c).result = .ok payload) :
    ∃ s sig, (encodeAssertionLocked P io slot rpId allow hash includeUser total hmac c).effects = [.assertion s] ∧
      s.slot = slot ∧ s.cred = c.storage.store.creds slot ∧
      assertionPayload s.cred s.authData.bytes sig includeUser total = .ok payload := by
  simp only [encodeAssertionLocked] at h ⊢
  split at h
  · cases h
  split at h
  · cases h
  next sig _ =>
  split at h
  · cases h
  · next payload' hpayload =>
    cases h
    exact ⟨_, sig, rfl, rfl, rfl, hpayload⟩

/-- The answer is the assertion of `slot`, as one of `count`. -/
def Reply.AnswersWith (r : Reply) (st : Store) (slot : Fin maxCreds) (count : Nat) : Prop :=
  ∃ s sig includeUser payload, r.effects = [.assertion s] ∧ s.slot = slot ∧ s.cred = st.creds slot ∧
    r.result = .ok payload ∧ assertionPayload s.cred s.authData.bytes sig includeUser count = .ok payload

theorem getAssertion_answers {io : Io} {now : UInt64} {req : GetAssertReq} {slot : Fin maxCreds}
    {more : List (Fin maxCreds)} {c : Core} {payload : List UInt8} (t : Transport)
    (h : (finish P io now (.getAssertion req slot more) c).result = .ok payload) :
    ((finish P io now (.getAssertion req slot more) c).reply t).AnswersWith c.storage.store slot
      (slot :: more).length := by
  unfold Reply.AnswersWith
  simp only [Outcome.reply, h]
  simp only [finish, getAssertionFinish] at h ⊢
  split at h
  · cases h
  next hmac _ =>
  split at h
  · next e he =>
    rw [he] at h
    cases h
  · next payload' hok =>
    have hres : payload' = payload := by
      split at h
      · exact Except.ok.inj (hok.symm.trans h)
      · exact Except.ok.inj (hok.symm.trans h)
    subst hres
    obtain ⟨s, sig, heff, hslot, hcred, hpayload⟩ := encodeAssertion_answered hok
    refine ⟨s, sig, _, payload', ?_, hslot, hcred, rfl, hpayload⟩
    split
    · exact heff
    · exact heff

/-! ## From the message to its answer -/

theorem parseCommand_parseGet {body : List UInt8} {r : Except Errno GetAssertReq}
    (h : (parseGetAssert (maxMsg + 1) (.init body)).1 = r.mapError .errno) :
    parseCommand true (ctapGetAssertion :: body) = some (r.map .getAssertion) := by
  have hinfo : ¬ ctapGetAssertion = ctapGetInfo := by decide
  have hmake : ¬ ctapGetAssertion = ctapMakeCredential := by decide
  simp only [parseCommand, if_neg hinfo, if_neg hmake, if_true, Bool.not_true, Bool.false_eq_true, if_false, h]
  cases r <;> rfl

/-- What becomes of a message whose list there is room for: it is parsed as
its request, or refused for an id that is too long. -/
theorem parseCommand_getAssertion {q : GetAssertion} {body : List UInt8}
    (hcount : ∀ list ∈ q.allow, list.length ≤ maxCredList) (henc : q.Encodes body)
    (hlen : (ctapGetAssertion :: body).length ≤ maxMsg) :
    ((∃ id, some id ∈ q.allow.getD [] ∧ 32 < id.length) →
      ∃ e, parseCommand true (ctapGetAssertion :: body) = some (.error e)) ∧
    ((∀ id, some id ∈ q.allow.getD [] → id.length ≤ 32) →
      parseCommand true (ctapGetAssertion :: body) = some (.ok (.getAssertion q.req))) := by
  rw [List.length_cons, maxMsg] at hlen
  have hdepth : body.length ≤ maxMsg + 1 := by
    rw [maxMsg]
    omega
  constructor
  · rintro ⟨id, hid, hlong⟩
    cases hlist : q.allow with
    | none =>
      rw [hlist] at hid
      cases hid
    | some list =>
      rw [hlist] at hid
      obtain ⟨e, hparse, errno, rfl⟩ := (GetAssertion.parseGetAssert_fails hlist (hcount list hlist) ⟨id, hid, hlong⟩
        henc hdepth).run (show body.length < 2 ^ 64 by omega) (s := .init body) ⟨rfl, rfl⟩
      exact ⟨errno, parseCommand_parseGet (r := .error errno) hparse⟩
  · intro hshort
    have hfits : ∀ list ∈ q.allow, ListFits list := by
      intro list hlist
      refine ⟨hcount list hlist, fun id hid => hshort id ?_⟩
      rw [Option.mem_def.mp hlist]
      exact hid
    have hparse := (parse_encoded.2 q body hfits henc (by omega)).whole (maxMsg + 1) hdepth
    exact parseCommand_parseGet (r := .ok q.req) hparse

/-- `getAssertion` takes the lock: it has nothing to answer with, or asks
approval for the slots that match. -/
theorem start_getAssertion_picks (io : Io) (now : UInt64) {req : GetAssertReq} (c : Core) (hpin : req.pinAuthPresent = false) :
    let st := (loadStoreLocked P io.load io.ids c.storage).store
    (collectRpCredentials st req = [] → ∃ e c', start P io now (.getAssertion req) c = (.done (.error e), c')) ∧
    ∀ slot more, collectRpCredentials st req = slot :: more →
      ∃ ask c', start P io now (.getAssertion req) c = (.ask ask (.getAssertion req slot more), c') := by
  intro st
  have hst : (loadStoreLocked P io.load io.ids c.clearAssertState.storage).store = st := rfl
  constructor
  · intro hnil
    simp only [start, hpin, Bool.false_eq_true, if_false, hst, hnil]
    exact ⟨_, _, rfl⟩
  · intro slot more hcons
    simp only [start, hpin, Bool.false_eq_true, if_false, hst, hcons]
    exact ⟨_, _, rfl⟩

/-- The step of `t` that takes the lock is the first of these. -/
def Takes (t : Transport) (io : Io) (as : List Action) : Prop := as.head? = some (.enter t io)

/-- **`allowList` selects**, for a list there is room for: an id that is too
long has the message refused as it is parsed; otherwise it is parsed as its
request, and when that takes the lock, the slots it may be answered with are
picked, in order: if there are none it fails, and an approved answer is the
assertion of the first, says how many there are, and leaves a continuation
over all of them if there are several. -/
theorem allowed_slots (P : Platform) (t : Transport) (q : GetAssertion)
    (hcount : ∀ list ∈ q.allow, list.length ≤ maxCredList) (hpin : q.pinUvAuthParam = none) (body : List UInt8)
    (henc : q.Encodes body) (hlen : (ctapGetAssertion :: body).length ≤ maxMsg) (d d₁ : Device)
    (hreceive : d.step P (.receive t (ctapGetAssertion :: body) true) = some d₁) :
    ((∃ id, some id ∈ q.allow.getD [] ∧ 32 < id.length) →
      ∃ e, d.reply P (.receive t (ctapGetAssertion :: body) true) = some ⟨t, .error e, []⟩) ∧
    ((∀ id, some id ∈ q.allow.getD [] → id.length ≤ 32) →
      d₁.worker t = .ready (.getAssertion q.req) ∧
        ∀ as d₂ io, Runs (step P) (fun _ a => ∀ io, a ≠ .enter t io) d₁ as d₂ →
          ∃ slots : List (Fin maxCreds), slots.Pairwise (· < ·) ∧
            (∀ i, i ∈ slots ↔ q.Selects (loadStoreLocked P io.load io.ids d₂.core.storage).store i) ∧
            (slots = [] → ∃ e, d₂.reply P (.enter t io) = some ⟨t, .error e, []⟩) ∧
            ∀ slot more, slots = slot :: more → ∀ bs d₃ a r c, Runs (step P) (Unanswered P t) d₂ bs d₃ →
              Takes t io (bs ++ [a]) → d₃.reply P a = some r → r.transport = t → d₃.approvedCore P a = some c →
              ∀ payload, r.result = .ok payload →
                r.AnswersWith c.storage.store slot slots.length ∧
                ∀ d₄, d₃.step P a = some d₄ →
                  d₄.core.assert = if more = [] then c.assert else some (continuationOf P d₃.jiffies q.req slots)) := by
  obtain ⟨hrefused, hparsed⟩ := parseCommand_getAssertion hcount henc hlen
  have hidle : d.worker t = .idle := by
    simp only [Device.step] at hreceive
    split at hreceive
    · assumption
    · cases hreceive
  refine ⟨fun hlong => ?_, fun hshort => ?_⟩
  · obtain ⟨e, he⟩ := hrefused hlong
    exact ⟨e, by simp only [reply, hidle, he]⟩
  have hready : d₁.worker t = .ready (.getAssertion q.req) := by
    simp only [Device.step, hidle, hparsed hshort] at hreceive
    cases hreceive
    exact setWorker_self ..
  refine ⟨hready, fun as d₂ io hrun => ?_⟩
  have hw : d₂.worker t = .ready (.getAssertion q.req) :=
    hrun.invariant (I := fun d => d.worker t = .ready (.getAssertion q.req))
      (fun _ _ _ h ha hstep => ready_step h hstep ha) hready
  have hnopin : q.req.pinAuthPresent = false := by
    show q.pinUvAuthParam.isSome = false
    rw [hpin]
    rfl
  obtain ⟨hnil, hcons⟩ := start_getAssertion_picks (P := P) io d₂.jiffies d₂.core hnopin
  refine ⟨collectRpCredentials (loadStoreLocked P io.load io.ids d₂.core.storage).store q.req,
    collectRpCredentials_sorted _ _, fun i => mem_collectRpCredentials, fun h => ?_,
    fun slot more h bs d₃ a r c hrun' htakes hr ht hc payload hres => ?_⟩
  · obtain ⟨e, c', hs⟩ := hnil h
    exact ⟨e, by simp only [reply, hw, hs]⟩
  obtain ⟨ask, c', hs⟩ := hcons slot more h
  obtain ⟨io', rest, hfinish, hhow, hcore⟩ := approved_reply hr hc
  rw [ht] at hhow
  have hrest : rest = .getAssertion q.req slot more := by
    cases hrun' with
    | nil =>
      cases htakes
      rcases hhow with ⟨heq, cmd, ask', hw', hs'⟩ | ⟨heq, _⟩
      · cases heq
        rw [hw] at hw'
        cases hw'
        rw [hs] at hs'
        cases hs'
        rfl
      · cases heq
    | cons hun hstep hrun' =>
      cases htakes
      have hwait := enter_waits hw hs hun hstep
      have hrest := hrun'.invariant (I := fun d => (d.worker t).rest = some (.getAssertion q.req slot more))
        (fun _ _ _ h ha hstep => rest_step h hstep ha) hwait
      rcases hhow with ⟨_, cmd, ask', hw', _⟩ | ⟨_, hrest', _⟩
      · rw [hw'] at hrest
        cases hrest
      · rw [hrest] at hrest'
        cases hrest'
        rfl
  subst hrest
  rw [hfinish] at hres
  refine ⟨?_, fun d₄ hstep => ?_⟩
  · rw [hfinish, h]
    exact getAssertion_answers _ hres
  · rw [hcore d₄ hstep, getAssertion_assert, h]
    rw [show (finish P io' d₃.jiffies (.getAssertion q.req slot more) c).result = .ok payload from hres]

/-! ## A credential that is listed, and one that cannot be -/

/-- A message that allows `id`. -/
def allowMsg (id : List UInt8) : List UInt8 := ctapGetAssertion :: getAssertionMessage id

/-- Whether the step answers USB with success, once approved. -/
def Device.answers (P : Platform) (d : Device) (a : Action) : Bool :=
  match d.reply P a with
  | some ⟨.usb, .ok _, _⟩ => (d.approvedCore P a).isSome
  | _ => false

theorem Device.of_answers {d : Device} {a : Action} (h : d.answers P a = true) :
    ∃ r c payload, d.reply P a = some r ∧ r.transport = .usb ∧ r.result = .ok payload ∧ d.approvedCore P a = some c := by
  rw [answers] at h
  split at h
  · next payload effects hreply =>
    obtain ⟨c, hc⟩ := Option.isSome_iff_exists.mp h
    exact ⟨_, c, payload, hreply, rfl, rfl, hc⟩
  · cases h

/-- The credential that was made answers a request that allows it. -/
theorem allowed_registered : ∃ d d₁ r c slot more, Runs (step .volatile) (fun _ _ => True) (.boot none 0) registerRun d ∧
    d.step .volatile (.receive .usb (allowMsg (.replicate 32 1)) true) = some d₁ ∧
    d₁.reply .volatile (.enter .usb .plain) = some r ∧ d₁.approvedCore .volatile (.enter .usb .plain) = some c ∧
    r.AnswersWith c.storage.store slot (slot :: more).length ∧
    (getAssertionOf (.replicate 32 1)).Selects
      (loadStoreLocked .volatile Io.plain.load Io.plain.ids d₁.core.storage).store slot := by
  have h : ((Runs.exec (step .volatile) (fun _ _ => true) (boot none 0) registerRun).bind fun d =>
      (d.step .volatile (.receive .usb (allowMsg (.replicate 32 1)) true)).map fun d₁ =>
        d₁.answers .volatile (.enter .usb .plain)) = some true := by decide +kernel
  obtain ⟨d, hd, h⟩ := Option.bind_eq_some_iff.mp h
  obtain ⟨d₁, hd₁, hanswers⟩ := Option.map_eq_some_iff.mp h
  obtain ⟨r, c, payload, hr, ht, hres, hc⟩ := of_answers hanswers
  have hcount : ∀ list ∈ some [some (List.replicate 32 (1 : UInt8))], list.length ≤ maxCredList := by
    rintro list ⟨⟩
    decide
  have hshort : ∀ id, some id ∈ [some (List.replicate 32 (1 : UInt8))] → id.length ≤ 32 := by
    intro id hid
    obtain rfl : id = .replicate 32 1 := by simpa using hid
    decide
  obtain ⟨slots, _, hmem, hnone, hsome⟩ := ((allowed_slots .volatile .usb (getAssertionOf (.replicate 32 1)) hcount rfl _
    (getAssertion_encodes (by decide)) (by decide +kernel) d d₁ hd₁).2 hshort).2 [] d₁ .plain (.nil d₁)
  cases slots with
  | nil =>
    obtain ⟨e, he⟩ := hnone rfl
    rw [hr] at he
    cases he
    cases hres
  | cons slot more =>
    obtain ⟨hwith, _⟩ := hsome slot more rfl [] d₁ (.enter .usb .plain) r c (.nil d₁) rfl hr ht hc payload hres
    exact ⟨d, d₁, r, c, slot, more, Runs.of_exec (fun _ _ _ => trivial) hd, hd₁, hr, hc, hwith,
      (hmem slot).mp List.mem_cons_self⟩

/-- A request that allows a credential of another authenticator, whose id has
33 bytes, fails at once. -/
theorem exists_foreign_fails : ∃ q body, GetAssertion.Encodes q body ∧
    (ctapGetAssertion :: body).length ≤ maxMsg ∧ q.pinUvAuthParam = none ∧
    (boot none 0).reply .volatile (.receive .usb (ctapGetAssertion :: body) true) = some ⟨.usb, .error .einval, []⟩ ∧
    ∀ id, some id ∈ q.allow.getD [] → ∀ cred : Credential, cred.credId.toList ≠ id := by
  refine ⟨getAssertionOf (.replicate 33 0), getAssertionMessage (.replicate 33 0), getAssertion_encodes (by decide),
    by decide +kernel, rfl, of_refuses (by decide +kernel), fun id hid cred heq => ?_⟩
  obtain rfl : id = .replicate 33 0 := by simpa [getAssertionOf] using hid
  have hlen := cred.credId.toList_length
  rw [heq] at hlen
  exact absurd hlen (by decide)

end AbkFido
