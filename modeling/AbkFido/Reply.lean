/-
What a command is answered, and by which step.

A command that does not ask for approval is answered when it takes the lock,
one that does when it is refused or has done its second part; a message that
does not parse is answered at once. A signature that can be made is always
answered: an assertion fits its buffer (`encodeAssertion_ok`).
-/
import AbkFido.DeviceFacts
import AbkFido.CborFacts

namespace AbkFido

variable {P : Platform}

/-- The answer of a command, and what it did on the way. -/
structure Reply where
  transport : Transport
  result : Except Errno (List UInt8)
  effects : List Effect

/-- The answer of the second part of a command. -/
def Outcome.reply (t : Transport) (o : Outcome) : Reply := ⟨t, o.result, o.effects⟩

namespace Device

/-- Which command a step answers, and how; `none` for a step that answers none. -/
def reply (P : Platform) (d : Device) : Action → Option Reply
  | .receive t msg allocOk =>
    match d.worker t, parseCommand allocOk msg with
    | .idle, some (.error e) => some ⟨t, .error e, []⟩
    | _, _ => none
  | .enter t io =>
    match d.worker t with
    | .ready cmd =>
      match start P io d.jiffies cmd d.core with
      | (.done result, _) => some ⟨t, result, []⟩
      | (.ask ask rest, c) =>
        match (authBeginLocked d.jiffies ask d.auth).1 with
        | .denied => some ⟨t, .error .eperm, []⟩
        | .granted => some ((finish P io d.jiffies rest c).reply t)
        | .prompt _ => none
    | _ => none
  | .resume t io =>
    match d.worker t with
    | .awake _ _ timedOut rest =>
      match (authEndLocked P d.jiffies (.ofTimeout timedOut) d.auth).1 with
      | .ok _ => some ((finish P io d.jiffies rest d.core).reply t)
      | .error e => some ⟨t, .error e, []⟩
    | _ => none
  | _ => none

/-- The gate lets a command pass at once. -/
def passes (d : Device) : Prop := d.auth.denies d.jiffies = false ∧ d.auth.grants d.jiffies = true

/-- The wait of a command ended with its approval. -/
def approves (d : Device) (timedOut : Bool) : Prop := timedOut = false ∧ d.auth.allowed = true

/-- A command takes the lock: it is answered, or waits. -/
theorem enter_reply {d : Device} {t : Transport} {cmd : Command} (hw : d.worker t = .ready cmd) (io : Io) :
    (∃ res c, start P io d.jiffies cmd d.core = (.done res, c) ∧ d.reply P (.enter t io) = some ⟨t, res, []⟩ ∧
      d.enter P t io cmd = { d with core := c }.setWorker t .idle) ∨
    ∃ ask rest c, start P io d.jiffies cmd d.core = (.ask ask rest, c) ∧
      ((¬ d.passes ∧ d.reply P (.enter t io) = some ⟨t, .error .eperm, []⟩ ∧
        d.enter P t io cmd = (({ d with core := c }.note (.asked t)).note (.denied t)).setWorker t .idle) ∨
      (d.passes ∧ d.reply P (.enter t io) = some ((finish P io d.jiffies rest c).reply t) ∧
        d.enter P t io cmd =
          ((({ d with core := c, auth := { d.auth with denyValid := false } }.note (.asked t)).note
            (.granted t)).conclude P t io rest)) ∨
      (¬ d.passes ∧ d.reply P (.enter t io) = none ∧
        d.enter P t io cmd =
          (({ d with core := c, auth := d.auth.openPrompt ask }.note (.asked t)).note
            (.opened t (d.auth.requestId + 1))).setWorker t (.waiting (d.auth.requestId + 1) none rest))) := by
  rcases enter_cases (P := P) t io cmd d with ⟨res, c, hs, heq⟩ | ⟨ask, rest, c, hs, hgate⟩
  · exact .inl ⟨res, c, hs, by simp only [reply, hw, hs], heq⟩
  refine .inr ⟨ask, rest, c, hs, ?_⟩
  rcases hgate with ⟨hd, heq⟩ | ⟨hd, hg, heq⟩ | ⟨hd, hg, heq⟩
  · refine .inl ⟨fun h => ?_, ?_, heq⟩
    · rw [h.1] at hd
      cases hd
    · simp only [reply, hw, hs, authBeginLocked, if_pos hd]
  · refine .inr (.inl ⟨⟨by simpa using hd, hg⟩, ?_, heq⟩)
    simp only [reply, hw, hs, authBeginLocked, if_neg hd, if_pos hg]
  · refine .inr (.inr ⟨fun h => hg h.2, ?_, heq⟩)
    simp only [reply, hw, hs, authBeginLocked, if_neg hd, if_neg hg]

theorem authEnd_result (d : Device) (timedOut : Bool) :
    (d.approves timedOut ∧ (authEndLocked P d.jiffies (.ofTimeout timedOut) d.auth).1 = .ok ()) ∨
      (¬ d.approves timedOut ∧ (authEndLocked P d.jiffies (.ofTimeout timedOut) d.auth).1 = .error .eperm) := by
  rw [approves]
  cases timedOut with
  | true => exact .inr ⟨by simp, rfl⟩
  | false =>
    cases hallowed : d.auth.allowed with
    | true => exact .inl ⟨⟨rfl, rfl⟩, by simp only [authEndLocked, WaitRet.ofTimeout, hallowed]; rfl⟩
    | false => exact .inr ⟨by simp, by simp only [authEndLocked, WaitRet.ofTimeout, hallowed]; rfl⟩

/-- A command comes back from its wait: either way it is answered. -/
theorem resume_reply {d : Device} {t : Transport} {r : UInt32} {first : Option Bool} {timedOut : Bool} {rest : Rest}
    (hw : d.worker t = .awake r first timedOut rest) (io : Io) :
    ∃ a, (d.approves timedOut ∧ d.reply P (.resume t io) = some ((finish P io d.jiffies rest d.core).reply t) ∧
        d.resume P t io r first timedOut rest =
          ({ d with auth := a }.note (.ended t r first true)).conclude P t io rest) ∨
      (¬ d.approves timedOut ∧ d.reply P (.resume t io) = some ⟨t, .error .eperm, []⟩ ∧
        d.resume P t io r first timedOut rest =
          ({ d with auth := a }.note (.ended t r first false)).setWorker t .idle) := by
  obtain ⟨a, -, hcases⟩ := resume_cases (P := P) t io r first timedOut rest d
  refine ⟨a, ?_⟩
  rcases authEnd_result (P := P) d timedOut with ⟨happ, hres⟩ | ⟨happ, hres⟩
  · rcases hcases with ⟨-, heq⟩ | ⟨hne, -⟩
    · exact .inl ⟨happ, by simp only [reply, hw, hres], heq⟩
    · exact absurd hres hne
  · rcases hcases with ⟨hok, -⟩ | ⟨-, heq⟩
    · rw [hres] at hok
      cases hok
    · exact .inr ⟨happ, by simp only [reply, hw, hres], heq⟩

end Device

/-! ## What an assertion needs -/

/-- The signature can be made, and is as long as one over P-256 can be. -/
def Io.Signs (io : Io) : Prop := ∀ key digest, ∃ sig, io.sign key digest = .ok sig ∧ sig.length ≤ 72

theorem length_authdataCommon (hsha : ∀ bs, (P.sha256 bs).length = 32) (rpId : List UInt8) (flags : UInt8) (n : UInt32) :
    (authdataCommon P rpId flags n).bytes.length = 37 := by
  simp [AuthData.bytes, authdataCommon, hsha]

/-- An assertion response fits. -/
theorem assertionPayload_ok (cred : Credential) {authData sig : List UInt8} (hauth : authData.length ≤ 200)
    (hsig : sig.length ≤ 80) (includeUser : Bool) (total : Nat) :
    ∃ payload, assertionPayload cred authData sig includeUser total = .ok payload := by
  have hid : cred.credId.toList.length ≤ 32 := cred.credId.toList_length.le
  have huser : (cred.userId.toList.take cred.userIdLen.toNat).length ≤ 64 := by
    have h := cred.userId.toList_length
    rw [List.length_take]
    omega
  have hname : cred.userName.str.length ≤ 64 := cred.userName.length_str_lt.le
  have hdisplay : cred.userDisplay.str.length ≤ 64 := cred.userDisplay.length_str_lt.le
  have hcred := fun pairs : Nat => (((((((Writer.within_init maxCbor).putMap pairs (by decide)).putInt 1
    (by decide)).putMap 2 (by decide)).putText (show (text "id").length ≤ 2 by decide) (by decide)).putBytes hid
    (by decide)).putText (show (text "type").length ≤ 4 by decide) (by decide)).putText
    (show (text "public-key").length ≤ 10 by decide) (by decide)
  have hsigned := fun pairs : Nat => ((((hcred pairs).putInt 2 (by decide)).putBytes hauth (by decide)).putInt 3
    (by decide)).putBytes hsig (by decide)
  have hnamed := fun pairs count : Nat => ((((((hsigned pairs).putInt 4 (by decide)).putMap count (by decide)).putText
    (show (text "id").length ≤ 2 by decide) (by decide)).putBytes huser (by decide)).putText
    (show (text "name").length ≤ 4 by decide) (by decide)).putText hname (by decide)
  have hshown := fun pairs count : Nat => ((hnamed pairs count).putText
    (show (text "displayName").length ≤ 11 by decide) (by decide)).putText hdisplay (by decide)
  have hrest : ∀ w : Writer, w.Within maxCbor 728 →
      ∃ payload, (if total > 1 then (w.putInt 5).putUint total else w).result = .ok payload := by
    intro w hw
    split
    · exact ⟨_, ((hw.putInt 5 (by decide)).putUint total (by decide)).result⟩
    · exact ⟨_, hw.result⟩
  refine hrest _ ?_
  cases includeUser with
  | false => exact (hsigned _).mono (show _ ≤ 728 by decide)
  | true =>
    simp only [if_true]
    split
    · exact (hshown _ _).mono (show _ ≤ 728 by decide)
    · exact (hnamed _ _).mono (show _ ≤ 728 by decide)

/-- **A signature that can be made is answered**, and nothing else is signed. -/
theorem encodeAssertion_ok (hsha : ∀ bs, (P.sha256 bs).length = 32) {io : Io} (hio : io.Signs) (slot : Fin maxCreds)
    (rpId : List UInt8) (allow : List ListedCred) (hash : Bytes 32) (includeUser : Bool) (total : Nat) (c : Core) :
    let o := encodeAssertionLocked P io slot rpId allow hash includeUser total none c
    ∃ payload s, o.result = .ok payload ∧ o.effects = [.assertion s] ∧ s.slot = slot ∧ s.rpId = rpId ∧
      s.clientDataHash = hash := by
  intro o
  let header := authdataCommon P rpId (credFlagUp ||| credFlagUv) c.storage.bumpSignCount.store.signCount
  obtain ⟨sig, hsig, hlen⟩ := hio (c.storage.store.creds slot).privKey (P.sha256 (header.bytes ++ hash.toList))
  have hheader : header.bytes.length ≤ 200 := by
    rw [length_authdataCommon hsha]
    decide
  obtain ⟨payload, hpayload⟩ := assertionPayload_ok (c.storage.store.creds slot) hheader (hlen.trans (by decide)) includeUser total
  refine ⟨payload, ⟨slot, c.storage.store.creds slot, rpId, allow, header, hash⟩, ?_, ?_, rfl, rfl, rfl⟩
  · simp only [o, encodeAssertionLocked]
    rw [hsig]
    dsimp only
    rw [hpayload]
  · simp only [o, encodeAssertionLocked]
    rw [hsig]
    dsimp only
    rw [hpayload]

/-- A platform whose digests have 32 bytes. -/
def Platform.digesting : Platform := { Platform.volatile with sha256 := fun bs => (bs ++ List.replicate 32 0).take 32 }

theorem Platform.length_digest (bs : List UInt8) : (Platform.digesting.sha256 bs).length = 32 := by
  show ((bs ++ List.replicate 32 0).take 32).length = 32
  simp

theorem Io.signs_plain : Io.plain.Signs := fun _ _ => ⟨[0x30], rfl, by decide⟩

end AbkFido
