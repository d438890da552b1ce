/-
What a relying party gets: the public key of a new credential, and
signatures that it accepts under that key.

The keys and the signatures of a step are the kernel's (`Io.ByKernel`), by
the arithmetic of `Signature`. A credential's response gives away its id and
its public key in one way only (`Attests.inj`), and both responses are signed
with the private key that belongs to it.
-/
import AbkFido.Responses
import AbkFido.Signature
import AbkFido.Lib.CborUnique
import AbkFido.Lib.P256Order

namespace AbkFido

open CborForm

variable {P : Platform}

/-! ## Keys and signatures -/

/-- A key for ES256, as the driver stores it: the private one, and the
coordinates of the public one. -/
def IsKeyPair (privKey : Bytes 32) (pubKey : Bytes 64) : Prop :=
  ∃ x y h, ofBigEndian privKey.toList • P256.base = .some x y h ∧
    pubKey.toList = bigEndian 32 x.val ++ bigEndian 32 y.val

/-- A relying party accepts a signature of a message under a public key. -/
def Verifies (P : Platform) (pubKey : Bytes 64) (message sig : List UInt8) : Prop :=
  ∃ x y h, pubKey.toList = bigEndian 32 x.val ++ bigEndian 32 y.val ∧
    ∃ r s, Der.IsPair r s sig ∧ P256.Accepts (.some x y h) (ofBigEndian (P.sha256 message)) r s

/-- What a step gets from outside is drawn and computed by the kernel. -/
structure Io.ByKernel (K : Ecdsa.Kernel) (io : Io) : Prop where
  keyPair : ∀ privKey pubKey, io.keyPair = .ok (privKey, pubKey) →
    ofBigEndian privKey.toList ∈ Set.Ico 1 P256.n ∧ K.makePubKey privKey = .ok pubKey
  sign : ∀ privKey digest sig, io.sign privKey digest = .ok sig →
    ∃ (hash : Bytes 32) (rounds : Nat) (nonces : Nat → Except Errno (Bytes 32)) (locals : Ecdsa.Locals)
      (sigDer : Bytes maxSigDer) (out : Bytes maxSigDer × Nat),
      hash.toList = digest ∧ (∀ i k, nonces i = .ok k → ofBigEndian k.toList ∈ Set.Ico 1 P256.n) ∧
        Ecdsa.sign K rounds nonces locals privKey hash sigDer true = .ok out ∧ sig = out.1.toList.take out.2

variable {K : Ecdsa.Kernel} {io : Io}

theorem Io.ByKernel.isKeyPair (h : io.ByKernel K) (hK : K.Correct) {privKey : Bytes 32} {pubKey : Bytes 64}
    (hkeys : io.keyPair = .ok (privKey, pubKey)) : IsKeyPair privKey pubKey := by
  obtain ⟨hmem, hpub⟩ := h.keyPair privKey pubKey hkeys
  exact hK.makePubKey privKey pubKey hmem hpub

/-- **What is signed is accepted** under the public key that belongs to the private one. -/
theorem Io.ByKernel.verifies (h : io.ByKernel K) (hK : K.Correct) {privKey : Bytes 32} {pubKey : Bytes 64}
    (hpair : IsKeyPair privKey pubKey) {message sig : List UInt8} (hsig : io.sign privKey (P.sha256 message) = .ok sig) :
    Verifies P pubKey message sig := by
  obtain ⟨x, y, hns, hpoint, hpub⟩ := hpair
  obtain ⟨hash, rounds, nonces, locals, sigDer, ⟨sigArray, len⟩, hhash, hnonces, hsign, rfl⟩ := h.sign _ _ _ hsig
  obtain ⟨_, _, k, _, r, s, hsigns, hder, _⟩ :=
    (Ecdsa.sign_correct hK hnonces rounds locals privKey hash sigDer true).signature sigArray len hsign
  refine ⟨x, y, hns, hpub, r, s, hder, ?_⟩
  rw [← hpoint, ← hhash]
  exact hsigns.accepts

/-! ## A credential's response -/

/-- The attested credential data. -/
def attestedData (aaguid : Bytes 16) (credId : Bytes 32) (pubKey : Bytes 64) : List UInt8 :=
  aaguid.toList ++ [0, 32] ++ credId.toList ++ (coseTree pubKey).encode

/-- The response of a new credential tells its id and its public key. -/
inductive Attests (credId : Bytes 32) (pubKey : Bytes 64) : List UInt8 → Prop
  | mk {header : List UInt8} {aaguid : Bytes 16} {ext sig : List UInt8} (hheader : header.length = 37)
      (hcanonical : (makeCredentialTree (header ++ attestedData aaguid credId pubKey ++ ext) sig).Canonical) :
      Attests credId pubKey (makeCredentialTree (header ++ attestedData aaguid credId pubKey ++ ext) sig).encode

theorem coseTree_inj {pubKey pubKey' : Bytes 64} (h : coseTree pubKey = coseTree pubKey') : pubKey = pubKey' := by
  simp only [coseTree, Tree.map.injEq, List.cons.injEq, Prod.mk.injEq, Tree.bytes.injEq, true_and, and_true] at h
  refine Subtype.ext ?_
  show pubKey.toList = pubKey'.toList
  rw [← List.take_append_drop 32 pubKey.toList, h.1, h.2, List.take_append_drop]

/-- There is one way to read it. -/
theorem Attests.inj {credId credId' : Bytes 32} {pubKey pubKey' : Bytes 64} {payload : List UInt8}
    (h : Attests credId pubKey payload) (h' : Attests credId' pubKey' payload) : credId = credId' ∧ pubKey = pubKey' := by
  obtain ⟨hheader, hcanonical⟩ := h
  generalize hpayload : Tree.encode _ = payload at h'
  obtain ⟨hheader', hcanonical'⟩ := h'
  have htree := hcanonical.encode_inj hcanonical' hpayload
  simp only [makeCredentialTree, Tree.map.injEq, List.cons.injEq, Prod.mk.injEq, Tree.bytes.injEq, true_and, and_true,
    attestedData, List.append_assoc] at htree
  obtain ⟨_, hdata⟩ := List.append_inj htree.1 (hheader.trans hheader'.symm)
  obtain ⟨_, hdata⟩ := List.append_inj hdata (by rw [List.Vector.toList_length, List.Vector.toList_length])
  obtain ⟨_, hdata⟩ := List.append_inj hdata rfl
  obtain ⟨hid, hdata⟩ := List.append_inj hdata (by rw [List.Vector.toList_length, List.Vector.toList_length])
  have hcose := ((canonical_coseTree pubKey).unique _ _ _ (canonical_coseTree pubKey') hdata).1
  exact ⟨Subtype.ext hid, coseTree_inj hcose⟩

/-! ## What the commands sign -/

/-- A response that was written is the encoding of its tree. -/
theorem attests_payload {header ext sig payload : List UInt8} (hheader : header.length = 37) (aaguid : Bytes 16)
    (credId : Bytes 32) (pubKey : Bytes 64)
    (hpayload : ((((((((((Writer.init maxCbor).putMap 3).putInt 1).putText (text "packed")).putInt 2).putBytes
      (header ++ attestedData aaguid credId pubKey ++ ext)).putInt 3).putMap 2).putText (text "alg")).putInt coseAlgEs256
      |>.putText (text "sig") |>.putBytes sig |>.result) = .ok payload) :
    Attests credId pubKey payload ∧
      payload = (makeCredentialTree (header ++ attestedData aaguid credId pubKey ++ ext) sig).encode := by
  obtain ⟨heq, hroom⟩ := (((((((((((Writer.wrote_init maxCbor).putMap 3).putInt 1).putText (text "packed")).putInt 2).putBytes
    (header ++ attestedData aaguid credId pubKey ++ ext)).putInt 3).putMap 2).putText (text "alg")).putInt
    coseAlgEs256).putText (text "sig")).putBytes sig |>.result hpayload
  have hdata : (header ++ attestedData aaguid credId pubKey ++ ext).length ≤ maxCbor ∧ sig.length ≤ maxCbor := by
    simp only [List.length_append] at hroom ⊢
    omega
  have hpayload : payload = (makeCredentialTree (header ++ attestedData aaguid credId pubKey ++ ext) sig).encode := by
    rw [heq]
    simp [makeCredentialTree, Tree.encode, Tree.encodeEntries, Tree.encodeEntry, Writer.headBytes_eq]
  refine ⟨?_, hpayload⟩
  rw [hpayload]
  exact .mk hheader (canonical_makeCredentialTree (hdata.1.trans_lt (by decide)) (hdata.2.trans_lt (by decide)))

/-- **A new credential's response** attests its keys, and its signature is one
by its own private key. -/
theorem makeCredentialFinish_ok (hsha : ∀ bs, (P.sha256 bs).length = 32) {req : MakeCredReq} {c : Core}
    {payload : List UInt8} (h : (makeCredentialFinish P io req c).result = .ok payload) :
    ∃ slot privKey pubKey hmacSecret authData sig, allocCredentialLocked c.storage.store = some slot ∧
      io.keyPair = .ok (privKey, pubKey) ∧ Attests io.credId pubKey payload ∧
      payload = (makeCredentialTree authData sig).encode ∧
      io.sign privKey (P.sha256 (authData ++ req.clientDataHash.toList)) = .ok sig ∧
      (makeCredentialFinish P io req c).effects = [.filled slot, .attestation slot] ∧
      (makeCredentialFinish P io req c).core.storage = maybePersistLocked P io.persist
        (c.storage.setCred slot { newCredential req io.credId with
          privKey := privKey, pubKey := pubKey, hmacSecret := hmacSecret }).markDirty := by
  generalize ho : makeCredentialFinish P io req c = o at h ⊢
  simp only [makeCredentialFinish, makeAuthdataAttested, encodeCoseKey_eq, bind, Except.bind] at ho
  split at ho
  · subst ho
    cases h
  split at ho
  · subst ho
    cases h
  next slot hslot =>
  split at ho
  · subst ho
    cases h
  next privKey pubKey hkeys =>
  let header := authdataCommon P (newCredential req io.credId).rpId.str (credFlagUp ||| credFlagUv ||| credFlagAt)
    c.storage.store.signCount
  have hheader : header.bytes.length = 37 := length_authdataCommon hsha _ _ _
  have hbytes : ∀ ext, ({ header with rest := attestedData c.storage.store.aaguid io.credId pubKey ++ ext } : AuthData).bytes =
      header.bytes ++ attestedData c.storage.store.aaguid io.credId pubKey ++ ext := by
    intro ext
    rw [header.bytes_rest, ← List.append_assoc]
    rfl
  cases hreq : req.hmacSecretRequested with
  | false =>
    simp only [hreq, Bool.false_eq_true, if_false] at ho
    split at ho
    · subst ho
      cases h
    next sig hsig =>
    split at ho
    · subst ho
      cases h
    next payload' hpayload =>
    subst ho
    cases h
    obtain ⟨hattests, heq⟩ := attests_payload hheader c.storage.store.aaguid io.credId pubKey
      (by rw [← hbytes []]; exact hpayload)
    exact ⟨slot, privKey, pubKey, zeros 32, _, sig, hslot, hkeys, hattests, heq, by rw [← hbytes []]; exact hsig, rfl, rfl⟩
  | true =>
    simp only [hreq, if_true] at ho
    split at ho
    · subst ho
      cases h
    next a hdata =>
    split at hdata
    · cases hdata
    next ext hext =>
    cases hdata
    split at ho
    · subst ho
      cases h
    next sig hsig =>
    split at ho
    · subst ho
      cases h
    next payload' hpayload =>
    subst ho
    cases h
    obtain ⟨hattests, heq⟩ := attests_payload hheader c.storage.store.aaguid io.credId pubKey
      (by rw [← hbytes ext]; exact hpayload)
    exact ⟨slot, privKey, pubKey, io.hmacSecret, _, sig, hslot, hkeys, hattests, heq, by rw [← hbytes ext]; exact hsig, rfl, rfl⟩

/-- **An assertion's response** is of the credential as it was, and its
signature is one by that credential's private key. -/
theorem encodeAssertionLocked_ok {slot : Fin maxCreds} {rpId : List UInt8} {allow : List ListedCred} {hash : Bytes 32}
    {includeUser : Bool} {total : Nat} {hmacOutput : Option (Bytes 64)} {c : Core} {payload : List UInt8}
    (h : (encodeAssertionLocked P io slot rpId allow hash includeUser total hmacOutput c).result = .ok payload) :
    ∃ (a : AuthData) (sig : List UInt8), (encodeAssertionLocked P io slot rpId allow hash includeUser total hmacOutput c).effects =
        [.assertion ⟨slot, c.storage.store.creds slot, rpId, allow, a, hash⟩] ∧
      io.sign (c.storage.store.creds slot).privKey (P.sha256 (a.bytes ++ hash.toList)) = .ok sig ∧
      payload = (assertionTree (c.storage.store.creds slot) a.bytes sig includeUser total).encode := by
  generalize ho : encodeAssertionLocked P io slot rpId allow hash includeUser total hmacOutput c = o at h ⊢
  simp only [encodeAssertionLocked] at ho
  split at ho
  · subst ho
    cases h
  next a ha =>
  split at ho
  · subst ho
    cases h
  next sig hsig =>
  split at ho
  · subst ho
    cases h
  next payload' hpayload =>
  subst ho
  cases h
  exact ⟨a, sig, rfl, hsig, (payload_eq_encode hpayload).1⟩

end AbkFido
