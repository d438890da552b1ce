/-
The `excludeList` of makeCredential.
-/
import AbkFido.ParseEncoded
import AbkFido.Pending

namespace AbkFido

open CborForm Device

variable {P : Platform}

/-- Making keys and signatures never fails with `-EEXIST`. -/
structure Io.NeverExists (io : Io) : Prop where
  keyPair : io.keyPair ≠ .error .eexist
  sign : ∀ key digest, io.sign key digest ≠ .error .eexist

/-- Some credential of the list is in use in the store. -/
def Store.HasListed (st : Store) (list : List ListedCred) : Prop :=
  ∃ id i, some id ∈ list ∧ (st.creds i).inUse = true ∧ (st.creds i).credId.toList = id

theorem Store.mem_used {st : Store} {i : Fin maxCreds} : i ∈ st.used ↔ (st.creds i).inUse = true := by
  rw [used, List.mem_filter]
  exact and_iff_right (List.mem_finRange i)

theorem findCredentialById_iff {st : Store} {id : List UInt8} :
    findCredentialById st id = true ↔ ∃ i, (st.creds i).inUse = true ∧ (st.creds i).credId.toList = id := by
  rw [findCredentialById, List.any_eq_true]
  constructor
  · rintro ⟨i, hi, hid⟩
    rw [Bool.and_eq_true, beq_iff_eq, beq_iff_eq] at hid
    exact ⟨i, Store.mem_used.mp hi, hid.2.symm⟩
  · rintro ⟨i, hi, rfl⟩
    refine ⟨i, Store.mem_used.mpr hi, ?_⟩
    rw [Bool.and_eq_true, beq_iff_eq, beq_iff_eq]
    exact ⟨(st.creds i).credId.toList_length, rfl⟩

theorem exclude_any_iff {st : Store} {list : List ListedCred} :
    (list.any fun entry => entry.any (findCredentialById st)) = true ↔ st.HasListed list := by
  rw [List.any_eq_true]
  constructor
  · rintro ⟨entry, hentry, hany⟩
    cases entry with
    | none => cases hany
    | some id =>
      obtain ⟨i, hi, hid⟩ := findCredentialById_iff.mp hany
      exact ⟨id, i, hentry, hi, hid⟩
  · rintro ⟨id, i, hentry, hi, hid⟩
    exact ⟨some id, hentry, findCredentialById_iff.mpr ⟨i, hi, hid⟩⟩

theorem encodeCoseKey_error {pubKey : Bytes 64} {alg : Int} {e : Errno} (h : encodeCoseKey pubKey alg = .error e) :
    e = .eoverflow :=
  Writer.Overflows.result ((((((((((((Writer.Overflows.init maxCbor).putMap 5).putInt 1).putInt coseKtyEc2).putInt
    3).putInt alg).putInt (-1)).putInt coseCrvP256).putInt (-2)).putBytes _).putInt (-3)).putBytes _) h

theorem hmacCreated_error {room : Nat} {e : Errno} (h : hmacCreated room = .error e) : e = .eoverflow :=
  Writer.Overflows.result ((((Writer.Overflows.init room).putMap 1).putText _).putBool true) h

theorem makeAuthdataAttested_error {st : Store} {cred : Credential} {flags : UInt8} {n : UInt32} {e : Errno}
    (h : makeAuthdataAttested P st cred flags n = .error e) : e = .eoverflow := by
  unfold makeAuthdataAttested at h
  cases hcose : encodeCoseKey cred.pubKey coseAlgEs256 with
  | error e' =>
    rw [hcose] at h
    cases h
    exact encodeCoseKey_error hcose
  | ok cose =>
    rw [hcose] at h
    cases h

/-- What overflows in either part overflows in the whole. -/
theorem bind_overflows {α β : Type} {m : Except Errno α} {f : α → Except Errno β}
    (hm : ∀ e, m = .error e → e = .eoverflow) (hf : ∀ a e, f a = .error e → e = .eoverflow) {e : Errno}
    (h : m >>= f = .error e) : e = .eoverflow := by
  cases m with
  | error e' =>
    cases h
    exact hm _ rfl
  | ok a => exact hf a e h

/-- **An approved makeCredential is refused as excluded exactly for a listed credential in use.** -/
theorem makeCredentialFinish_eexist {io : Io} (hio : io.NeverExists) (req : MakeCredReq) (c : Core) :
    (makeCredentialFinish P io req c).result = .error .eexist ↔ c.storage.store.HasListed req.exclude := by
  rw [← exclude_any_iff]
  unfold makeCredentialFinish
  split
  · next hany => exact ⟨fun _ => hany, fun _ => rfl⟩
  next hany =>
  refine ⟨fun h => ?_, fun h => absurd h hany⟩
  exfalso
  split at h
  · cases h
  split at h
  · next e hkeys =>
    cases h
    exact hio.keyPair hkeys
  dsimp only at h
  split at h
  · next e hauth =>
    cases h
    have hoverflow := bind_overflows (fun e => makeAuthdataAttested_error) (fun a e hext => by
      split at hext
      · exact bind_overflows (fun e => hmacCreated_error) (fun x e h => by cases h) hext
      · cases hext) hauth
    cases hoverflow
  split at h
  · next e hsign =>
    cases h
    exact hio.sign _ _ hsign
  split at h
  · next e hpayload =>
    cases h
    have hoverflow := Writer.Overflows.result ((((((((((((Writer.Overflows.init maxCbor).putMap 3).putInt 1).putText
      _).putInt 2).putBytes _).putInt 3).putMap 2).putText _).putInt coseAlgEs256).putText _).putBytes _) hpayload
    cases hoverflow
  · cases h

/-! ## From the message to its answer -/

theorem parseCommand_parse {body : List UInt8} {r : Except Errno MakeCredReq}
    (h : (parseMakeCred (maxMsg + 1) (.init body)).1 = r.mapError .errno) :
    parseCommand true (ctapMakeCredential :: body) = some (r.map .makeCredential) := by
  have hne : ¬ ctapMakeCredential = ctapGetInfo := by decide
  simp only [parseCommand, if_neg hne, if_true, Bool.not_true, Bool.false_eq_true, if_false, h]
  cases r <;> rfl

/-- What becomes of a message whose list there is room for: it is parsed as
its request, or refused for an id that is too long. -/
theorem parseCommand_makeCredential {q : MakeCredential} {body : List UInt8}
    (hcount : ∀ list ∈ q.exclude, list.length ≤ maxCredList) (henc : q.Encodes body)
    (hlen : (ctapMakeCredential :: body).length ≤ maxMsg) :
    ((∃ id, some id ∈ q.exclude.getD [] ∧ 32 < id.length) →
      ∃ e, parseCommand true (ctapMakeCredential :: body) = some (.error e)) ∧
    ((∀ id, some id ∈ q.exclude.getD [] → id.length ≤ 32) →
      parseCommand true (ctapMakeCredential :: body) = some (.ok (.makeCredential q.req))) := by
  rw [List.length_cons, maxMsg] at hlen
  have hdepth : body.length ≤ maxMsg + 1 := by
    rw [maxMsg]
    omega
  constructor
  · rintro ⟨id, hid, hlong⟩
    cases hlist : q.exclude with
    | none =>
      rw [hlist] at hid
      cases hid
    | some list =>
      rw [hlist] at hid
      obtain ⟨e, hparse, errno, rfl⟩ := (MakeCredential.parseMakeCred_fails hlist (hcount list hlist) ⟨id, hid, hlong⟩
        henc hdepth).run (show body.length < 2 ^ 64 by omega) (s := .init body) ⟨rfl, rfl⟩
      exact ⟨errno, parseCommand_parse (r := .error errno) hparse⟩
  · intro hshort
    have hfits : ∀ list ∈ q.exclude, ListFits list := by
      intro list hlist
      refine ⟨hcount list hlist, fun id hid => hshort id ?_⟩
      rw [Option.mem_def.mp hlist]
      exact hid
    have hparse := (parse_encoded.1 q body hfits henc (by omega)).whole (maxMsg + 1) hdepth
    exact parseCommand_parse (r := .ok q.req) hparse

theorem start_makeCredential_rest {io : Io} {now : UInt64} {req : MakeCredReq} {c c' : Core} {ask : Ask} {rest : Rest}
    (hsel : isSelectionMakeCredential req = false) (h : start P io now (.makeCredential req) c = (.ask ask rest, c')) :
    rest = .makeCredential req := by
  simp only [start, hsel, Bool.false_eq_true, if_false] at h
  split at h
  · cases h
  split at h
  · cases h
  · cases h
    rfl

/-- The worker has the request, or waits with it. -/
def Device.HasRequest (req : MakeCredReq) (t : Transport) (d : Device) : Prop :=
  d.worker t = .ready (.makeCredential req) ∨ (d.worker t).rest = some (.makeCredential req)

theorem Device.HasRequest.step {req : MakeCredReq} {t : Transport} {d d' : Device} {a : Action}
    (hsel : isSelectionMakeCredential req = false) (h : d.HasRequest req t) (ha : d.Unanswered P t a)
    (hstep : d.step P a = some d') : d'.HasRequest req t := by
  rcases h with hw | hrest
  · by_cases henter : ∃ io, a = .enter t io
    · obtain ⟨io, rfl⟩ := henter
      cases hs : start P io d.jiffies (.makeCredential req) d.core with
      | mk st c =>
        cases st with
        | done res => exact absurd rfl (ha ⟨t, res, []⟩ (by simp only [reply, hw, hs]))
        | ask ask rest =>
          obtain rfl := start_makeCredential_rest hsel hs
          exact .inr (enter_waits hw hs ha hstep)
    · exact .inl (ready_step hw hstep fun io heq => henter ⟨io, heq⟩)
  · exact .inr (rest_step hrest hstep ha)

/-- The step does not fail with `-EEXIST` for want of keys or a signature. -/
def Action.NeverExists : Action → Prop
  | .enter _ io | .resume _ io => io.NeverExists
  | _ => True

/-- **`excludeList` is enforced**, for a list there is room for: an id that
is too long has the message refused as it is parsed; otherwise it is parsed as
its request, and once that is approved, it is refused as excluded exactly when
the store holds a listed credential. -/
theorem excluded_iff (P : Platform) (t : Transport) (q : MakeCredential)
    (hcount : ∀ list ∈ q.exclude, list.length ≤ maxCredList) (hsel : isSelectionMakeCredential q.req = false)
    (body : List UInt8) (henc : q.Encodes body) (hlen : (ctapMakeCredential :: body).length ≤ maxMsg) (d d₁ : Device)
    (hreceive : d.step P (.receive t (ctapMakeCredential :: body) true) = some d₁) :
    ((∃ id, some id ∈ q.exclude.getD [] ∧ 32 < id.length) →
      ∃ e, d.reply P (.receive t (ctapMakeCredential :: body) true) = some ⟨t, .error e, []⟩) ∧
    ((∀ id, some id ∈ q.exclude.getD [] → id.length ≤ 32) →
      d₁.worker t = .ready (.makeCredential q.req) ∧
        ∀ as d₂ a r c, Runs (step P) (Unanswered P t) d₁ as d₂ → a.NeverExists → d₂.reply P a = some r →
          r.transport = t → d₂.approvedCore P a = some c →
          (r.result = .error .eexist ↔ c.storage.store.HasListed (q.exclude.getD []))) := by
  obtain ⟨hrefused, hparsed⟩ := parseCommand_makeCredential hcount henc hlen
  have hidle : d.worker t = .idle := by
    simp only [Device.step] at hreceive
    split at hreceive
    · assumption
    · cases hreceive
  refine ⟨fun hlong => ?_, fun hshort => ?_⟩
  · obtain ⟨e, he⟩ := hrefused hlong
    exact ⟨e, by simp only [reply, hidle, he]⟩
  have hready : d₁.worker t = .ready (.makeCredential q.req) := by
    simp only [Device.step, hidle, hparsed hshort] at hreceive
    cases hreceive
    exact setWorker_self ..
  refine ⟨hready, fun as d₂ a r c hrun hio hr ht hc => ?_⟩
  have hhas : d₂.HasRequest q.req t :=
    hrun.invariant (I := HasRequest q.req t) (fun _ _ _ h ha hstep => h.step hsel ha hstep) (.inl hready)
  obtain ⟨io, rest, hres, hhow, _⟩ := approved_reply hr hc
  rw [ht] at hres hhow
  have hfinish : rest = .makeCredential q.req ∧ io.NeverExists := by
    rcases hhow with ⟨rfl, cmd, ask, hw, hs⟩ | ⟨rfl, hw, -⟩
    · refine ⟨?_, hio⟩
      rcases hhas with hw' | hw'
      · rw [hw] at hw'
        cases hw'
        exact start_makeCredential_rest hsel hs
      · rw [hw] at hw'
        cases hw'
    · refine ⟨?_, hio⟩
      rcases hhas with hw' | hw'
      · rw [hw'] at hw
        cases hw
      · rw [hw'] at hw
        cases hw
        rfl
  obtain ⟨rfl, hio⟩ := hfinish
  rw [hres]
  exact makeCredentialFinish_eexist hio q.req c

/-! ## A credential that is listed, and one that cannot be -/

/-- A message that excludes `id`. -/
def excludeMsg (id : List UInt8) : List UInt8 := ctapMakeCredential :: makeCredentialMessage id

/-- A credential is made; its id is 32 times `1`. -/
def registerRun : List Action :=
  [.receive .usb (excludeMsg []) true, .enter .usb .plain, .decide true (some 1), .wake .usb, .resume .usb .plain]

/-- Whether the step answers USB that its credential is excluded, once approved. -/
def Device.excludes (P : Platform) (d : Device) (a : Action) : Bool :=
  match d.reply P a with
  | some ⟨.usb, .error .eexist, _⟩ => (d.approvedCore P a).isSome
  | _ => false

theorem Device.of_excludes {d : Device} {a : Action} (h : d.excludes P a = true) :
    ∃ r c, d.reply P a = some r ∧ r.transport = .usb ∧ r.result = .error .eexist ∧ d.approvedCore P a = some c := by
  rw [excludes] at h
  split at h
  · next effects hreply =>
    obtain ⟨c, hc⟩ := Option.isSome_iff_exists.mp h
    exact ⟨_, c, hreply, rfl, rfl, hc⟩
  · cases h

/-- The device refuses to make that credential again. -/
theorem excluded_registered : ∃ d d₁ r c, Runs (step .volatile) (fun _ _ => True) (.boot none 0) registerRun d ∧
    d.step .volatile (.receive .usb (excludeMsg (.replicate 32 1)) true) = some d₁ ∧
    d₁.reply .volatile (.enter .usb .plain) = some r ∧ r.result = .error .eexist ∧
    d₁.approvedCore .volatile (.enter .usb .plain) = some c ∧
    c.storage.store.HasListed [some (.replicate 32 1)] := by
  have h : ((Runs.exec (step .volatile) (fun _ _ => true) (boot none 0) registerRun).bind fun d =>
      (d.step .volatile (.receive .usb (excludeMsg (.replicate 32 1)) true)).map fun d₁ =>
        d₁.excludes .volatile (.enter .usb .plain)) = some true := by decide +kernel
  obtain ⟨d, hd, h⟩ := Option.bind_eq_some_iff.mp h
  obtain ⟨d₁, hd₁, hexcludes⟩ := Option.map_eq_some_iff.mp h
  obtain ⟨r, c, hr, ht, hres, hc⟩ := of_excludes hexcludes
  have hcount : ∀ list ∈ some [some (List.replicate 32 (1 : UInt8))], list.length ≤ maxCredList := by
    rintro list ⟨⟩
    decide
  have hshort : ∀ id, some id ∈ [some (List.replicate 32 (1 : UInt8))] → id.length ≤ 32 := by
    intro id hid
    obtain rfl : id = .replicate 32 1 := by simpa using hid
    decide
  have hiff := ((excluded_iff .volatile .usb (makeCredentialOf (.replicate 32 1)) hcount (by decide) _
    (makeCredential_encodes (by decide)) (by decide +kernel) d d₁ hd₁).2 hshort).2 [] d₁
    (.enter .usb .plain) r c (.nil d₁) ⟨by simp [Io.plain], fun _ _ => by simp [Io.plain]⟩ hr ht hc
  exact ⟨d, d₁, r, c, Runs.of_exec (fun _ _ _ => trivial) hd, hd₁, hr, hres, hc, hiff.mp hres⟩

/-- A request that excludes a credential of another authenticator, whose id
has 33 bytes, fails at once. -/
theorem exists_foreign_refused : ∃ q body, MakeCredential.Encodes q body ∧
    (ctapMakeCredential :: body).length ≤ maxMsg ∧ isSelectionMakeCredential q.req = false ∧
    (boot none 0).reply .volatile (.receive .usb (ctapMakeCredential :: body) true) = some ⟨.usb, .error .einval, []⟩ ∧
    ∀ id, some id ∈ q.exclude.getD [] → ∀ cred : Credential, cred.credId.toList ≠ id := by
  refine ⟨makeCredentialOf (.replicate 33 0), makeCredentialMessage (.replicate 33 0),
    makeCredential_encodes (by decide), by decide +kernel, by decide, of_refuses (by decide +kernel),
    fun id hid cred heq => ?_⟩
  obtain rfl : id = .replicate 33 0 := by simpa [makeCredentialOf] using hid
  have hlen := cred.credId.toList_length
  rw [heq] at hlen
  exact absurd hlen (by decide)

end AbkFido
