/-
The responses that carry a signature, as CBOR items.

A response is the encoding of a tree, so it is one map, with as many pairs as
it says at every level and nothing after it; the tree is canonical; and every
buffer on the way, of the response, the authenticator data, its extensions,
its key and what is signed, has room (`responses_canonical`).
-/
import AbkFido.Reply
import AbkFido.Lib.CborTree
import AbkFido.StoreOps

namespace AbkFido

open CborForm

variable {P : Platform}

/-- A signature can be made, and fits the buffer for it. -/
def Io.SignsWithin (io : Io) (room : Nat) : Prop := ∀ key digest, ∃ sig, io.sign key digest = .ok sig ∧ sig.length ≤ room

/-! ## The trees -/

abbrev keyText (s : String) : Tree := .text (text s)

def credentialTree (cred : Credential) : Tree :=
  .map [(keyText "id", .bytes cred.credId.toList), (keyText "type", keyText "public-key")]

/-- `displayName` is left out where it is empty or the name again. -/
def userTree (cred : Credential) : Tree :=
  .map ([(keyText "id", .bytes (cred.userId.toList.take cred.userIdLen.toNat)), (keyText "name", .text cred.userName.str)] ++
    if cred.userDisplay.str != [] && cred.userDisplay.str != cred.userName.str then
      [(keyText "displayName", .text cred.userDisplay.str)]
    else [])

def assertionTree (cred : Credential) (authData sig : List UInt8) (includeUser : Bool) (total : Nat) : Tree :=
  .map ([(.int 1, credentialTree cred), (.int 2, .bytes authData), (.int 3, .bytes sig)] ++
    (if includeUser then [(.int 4, userTree cred)] else []) ++ if total > 1 then [(.int 5, .uint total)] else [])

def coseTree (pubKey : Bytes 64) : Tree :=
  .map [(.int 1, .int coseKtyEc2), (.int 3, .int coseAlgEs256), (.int (-1), .int coseCrvP256),
    (.int (-2), .bytes (pubKey.toList.take 32)), (.int (-3), .bytes (pubKey.toList.drop 32))]

def makeCredentialTree (authData sig : List UInt8) : Tree :=
  .map [(.int 1, keyText "packed"), (.int 2, .bytes authData),
    (.int 3, .map [(keyText "alg", .int coseAlgEs256), (keyText "sig", .bytes sig)])]

/-- The extension of an assertion and of a new credential. -/
def extensionTree (value : Tree) : Tree := .map [(keyText "hmac-secret", value)]

/-! ## What is written -/

theorem Writer.headBytes_eq (major arg : Nat) : Writer.headBytes major arg = shortHead major arg := rfl

namespace Writer.Wrote

variable {room : Nat} {bytes : List UInt8} {w : Writer}

theorem putInt (h : w.Wrote room bytes) (value : Int) : (w.putInt value).Wrote room (bytes ++ (Tree.int value).encode) := by
  rw [Writer.putInt, Tree.int]
  split
  · exact h.putHead 0 _
  · exact h.putHead 1 _

theorem putBool (h : w.Wrote room bytes) (value : Bool) : (w.putBool value).Wrote room (bytes ++ (Tree.bool value).encode) :=
  h.putHead 7 _

end Writer.Wrote

/-- A writer that has room and wrote the encoding of a tree. -/
theorem result_eq {room n : Nat} {bytes : List UInt8} {w : Writer} {t : Tree} (hwithin : w.Within room n)
    (hwrote : w.Wrote room bytes) (heq : bytes = t.encode) : w.result = .ok t.encode ∧ t.encode.length ≤ n := by
  have hresult := hwithin.result
  have hout : w.out = t.encode := (hwrote.result hresult).1.trans heq
  rw [hout] at hresult
  exact ⟨hresult, hout ▸ hwithin.length⟩

/-- A response that was written is the encoding of its tree. -/
theorem payload_eq_encode {cred : Credential} {authData sig : List UInt8} {includeUser : Bool} {total : Nat}
    {payload : List UInt8} (hpayload : assertionPayload cred authData sig includeUser total = .ok payload) :
    payload = (assertionTree cred authData sig includeUser total).encode ∧ payload.length ≤ maxCbor := by
  have hsigned := fun pairs => ((((((((((Writer.wrote_init maxCbor).putMap pairs).putInt 1).putMap 2).putText
    (text "id")).putBytes cred.credId.toList).putText (text "type")).putText (text "public-key")).putInt 2).putBytes
    authData).putInt 3 |>.putBytes sig
  have hnamed := fun pairs count => ((((((hsigned pairs).putInt 4).putMap count).putText (text "id")).putBytes
    (cred.userId.toList.take cred.userIdLen.toNat)).putText (text "name")).putText cred.userName.str
  have hshown := fun pairs count => ((hnamed pairs count).putText (text "displayName")).putText cred.userDisplay.str
  have hlast : ∀ {bytes : List UInt8} {w : Writer}, w.Wrote maxCbor bytes →
      (if total > 1 then (w.putInt 5).putUint total else w).Wrote maxCbor
        (bytes ++ if total > 1 then (Tree.int 5).encode ++ (Tree.uint total).encode else []) := by
    intro bytes w h
    split
    · rw [← List.append_assoc]
      exact (h.putInt 5).putUint total
    · rw [List.append_nil]
      exact h
  cases includeUser with
  | false =>
    obtain ⟨heq, hlen⟩ := (hlast (hsigned _)).result hpayload
    refine ⟨heq.trans ?_, heq ▸ hlen⟩
    by_cases htotal : total > 1 <;>
      simp [assertionTree, credentialTree, htotal, Tree.encode, Tree.encodeEntries, Tree.encodeEntry, Writer.headBytes_eq]
  | true =>
    by_cases hdisplay : (cred.userDisplay.str != [] && cred.userDisplay.str != cred.userName.str) = true
    · simp only [assertionPayload, hdisplay, if_true] at hpayload
      obtain ⟨heq, hlen⟩ := (hlast (hshown _ _)).result hpayload
      refine ⟨heq.trans ?_, heq ▸ hlen⟩
      by_cases htotal : total > 1 <;>
        simp [assertionTree, credentialTree, userTree, hdisplay, htotal, Tree.encode, Tree.encodeEntries, Tree.encodeEntry,
          Writer.headBytes_eq]
    · simp only [assertionPayload, hdisplay, if_true] at hpayload
      obtain ⟨heq, hlen⟩ := (hlast (hnamed _ _)).result hpayload
      refine ⟨heq.trans ?_, heq ▸ hlen⟩
      by_cases htotal : total > 1 <;>
        simp [assertionTree, credentialTree, userTree, hdisplay, htotal, Tree.encode, Tree.encodeEntries, Tree.encodeEntry,
          Writer.headBytes_eq]

theorem assertionPayload_eq (cred : Credential) {authData sig : List UInt8} (hauth : authData.length ≤ 200)
    (hsig : sig.length ≤ maxSigDer) (includeUser : Bool) (total : Nat) :
    assertionPayload cred authData sig includeUser total =
        .ok (assertionTree cred authData sig includeUser total).encode ∧
      (assertionTree cred authData sig includeUser total).encode.length ≤ maxCbor := by
  obtain ⟨payload, hpayload⟩ := assertionPayload_ok cred hauth hsig includeUser total
  obtain ⟨heq, hlen⟩ := payload_eq_encode hpayload
  exact ⟨heq ▸ hpayload, heq ▸ hlen⟩

theorem encodeCoseKey_eq (pubKey : Bytes 64) : encodeCoseKey pubKey coseAlgEs256 = .ok (coseTree pubKey).encode := by
  have hx : (pubKey.toList.take 32).length ≤ 32 := List.length_take_le _ _
  have hy : (pubKey.toList.drop 32).length ≤ 32 := by rw [List.length_drop, pubKey.toList_length]
  have hwithin := (((((((((((Writer.within_init maxCbor).putMap 5 (by decide)).putInt 1 (by decide)).putInt coseKtyEc2
    (by decide)).putInt 3 (by decide)).putInt coseAlgEs256 (by decide)).putInt (-1) (by decide)).putInt coseCrvP256
    (by decide)).putInt (-2) (by decide)).putBytes hx (by decide)).putInt (-3) (by decide)).putBytes hy (by decide)
  have hwrote := (((((((((((Writer.wrote_init maxCbor).putMap 5).putInt 1).putInt coseKtyEc2).putInt 3).putInt
    coseAlgEs256).putInt (-1)).putInt coseCrvP256).putInt (-2)).putBytes (pubKey.toList.take 32)).putInt (-3)).putBytes
    (pubKey.toList.drop 32)
  refine (result_eq hwithin hwrote ?_).1
  simp [coseTree, Tree.encode, Tree.encodeEntries, Tree.encodeEntry, Writer.headBytes_eq]

theorem makeCredentialPayload_eq {authData sig : List UInt8} (hauth : authData.length ≤ 512) (hsig : sig.length ≤ maxSigDer) :
    (((((((((((Writer.init maxCbor).putMap 3).putInt 1).putText (text "packed")).putInt 2).putBytes authData).putInt 3).putMap
          2).putText (text "alg")).putInt coseAlgEs256).putText (text "sig") |>.putBytes sig |>.result) =
        .ok (makeCredentialTree authData sig).encode ∧
      (makeCredentialTree authData sig).encode.length ≤ maxCbor := by
  have hwithin := (((((((((((Writer.within_init maxCbor).putMap 3 (by decide)).putInt 1 (by decide)).putText
    (show (text "packed").length ≤ 6 by decide) (by decide)).putInt 2 (by decide)).putBytes hauth (by decide)).putInt 3
    (by decide)).putMap 2 (by decide)).putText (show (text "alg").length ≤ 3 by decide) (by decide)).putInt coseAlgEs256
    (by decide)).putText (show (text "sig").length ≤ 3 by decide) (by decide)).putBytes hsig (by decide)
  have hwrote := (((((((((((Writer.wrote_init maxCbor).putMap 3).putInt 1).putText (text "packed")).putInt 2).putBytes
    authData).putInt 3).putMap 2).putText (text "alg")).putInt coseAlgEs256).putText (text "sig")).putBytes sig
  have heq := result_eq (t := makeCredentialTree authData sig) hwithin hwrote
    (by simp [makeCredentialTree, Tree.encode, Tree.encodeEntries, Tree.encodeEntry, Writer.headBytes_eq])
  exact ⟨heq.1, heq.2.trans (by decide)⟩

theorem length_coseTree (pubKey : Bytes 64) : (coseTree pubKey).encode.length = 77 := by
  have hx : (pubKey.toList.take 32).length = 32 := by rw [List.length_take, pubKey.toList_length]; rfl
  have hy : (pubKey.toList.drop 32).length = 32 := by rw [List.length_drop, pubKey.toList_length]
  have hheads : [(Tree.int 1).encode, (Tree.int 3).encode, (Tree.int (-1)).encode, (Tree.int (-2)).encode, (Tree.int (-3)).encode,
      (Tree.int coseKtyEc2).encode, (Tree.int coseAlgEs256).encode, (Tree.int coseCrvP256).encode].map List.length =
      List.replicate 8 1 := by decide
  simp only [List.map_cons, List.map_nil, List.replicate, List.cons.injEq] at hheads
  simp only [coseTree, Tree.encode, Tree.encodeEntries, Tree.encodeEntry, List.length_append, List.length_cons, List.length_nil,
    length_shortHead, hx, hy, hheads]
  decide

theorem hmacAnswered_eq {room : Nat} (hroom : 102 ≤ room) (output : Bytes 64) :
    hmacAnswered room output = .ok (extensionTree (.bytes output.toList)).encode ∧
      (extensionTree (.bytes output.toList)).encode.length ≤ 102 := by
  have houtput : output.toList.length ≤ 64 := output.toList_length.le
  have hwithin := (((Writer.within_init room).putMap 1 (by omega)).putText (show (text "hmac-secret").length ≤ 11 by decide)
    (by omega)).putBytes houtput (by omega)
  have hwrote := (((Writer.wrote_init room).putMap 1).putText (text "hmac-secret")).putBytes output.toList
  refine result_eq hwithin hwrote ?_
  simp [extensionTree, Tree.encode, Tree.encodeEntries, Tree.encodeEntry, Writer.headBytes_eq]

theorem hmacCreated_eq {room : Nat} (hroom : 38 ≤ room) : hmacCreated room = .ok (extensionTree (.bool true)).encode ∧
    (extensionTree (.bool true)).encode.length ≤ 38 := by
  have hwithin := (((Writer.within_init room).putMap 1 (by omega)).putText (show (text "hmac-secret").length ≤ 11 by decide)
    (by omega)).putHead 7 21 (by omega)
  have hwrote := (((Writer.wrote_init room).putMap 1).putText (text "hmac-secret")).putBool true
  refine result_eq hwithin hwrote ?_
  simp [extensionTree, Tree.encode, Tree.encodeEntries, Tree.encodeEntry, Writer.headBytes_eq]

/-! ## Canonical -/

theorem canonical_keyText {s : String} (h : (text s).length < 2 ^ 64) : (keyText s).Canonical := .text h

theorem canonical_credentialTree (cred : Credential) : (credentialTree cred).Canonical := by
  have hid : cred.credId.toList.length < 2 ^ 64 := by rw [cred.credId.toList_length]; decide
  have hsorted : [keyText "id", keyText "type"].Pairwise Tree.KeyLt := by decide +kernel
  have hentries : Tree.CanonicalEntries [(keyText "id", .bytes cred.credId.toList), (keyText "type", keyText "public-key")] :=
    .cons (canonical_keyText (by decide)) (.bytes hid) (.cons (canonical_keyText (by decide)) (canonical_keyText (by decide)) .nil)
  exact hentries.map hsorted (.refl _) (by decide)

theorem canonical_userTree (cred : Credential) : (userTree cred).Canonical := by
  have hid : (cred.userId.toList.take cred.userIdLen.toNat).length < 2 ^ 64 := by
    have h := cred.userId.toList_length
    rw [List.length_take]
    omega
  have hstr : ∀ name : CharBuf 64, (Tree.text name.str).Canonical := fun name => .text (name.length_str_lt.trans (by decide))
  have hsorted : [keyText "id", keyText "name", keyText "displayName"].Pairwise Tree.KeyLt := by decide +kernel
  have hentries : Tree.CanonicalEntries
      [(keyText "id", .bytes (cred.userId.toList.take cred.userIdLen.toNat)), (keyText "name", .text cred.userName.str)] :=
    .cons (canonical_keyText (by decide)) (.bytes hid) (.cons (canonical_keyText (by decide)) (hstr _) .nil)
  unfold userTree
  split
  · have hdisplay : Tree.CanonicalEntries [(keyText "displayName", .text cred.userDisplay.str)] :=
      .cons (canonical_keyText (by decide)) (hstr _) .nil
    exact (hentries.append hdisplay).map hsorted (.refl _) (by decide)
  · rw [List.append_nil]
    exact hentries.map hsorted (List.sublist_append_left [keyText "id", keyText "name"] [keyText "displayName"]) (by decide)

theorem canonical_assertionTree (cred : Credential) {authData sig : List UInt8} (hauth : authData.length < 2 ^ 64)
    (hsig : sig.length < 2 ^ 64) (includeUser : Bool) {total : Nat} (htotal : total < 2 ^ 64) :
    (assertionTree cred authData sig includeUser total).Canonical := by
  have hsorted : [Tree.int 1, .int 2, .int 3, .int 4, .int 5].Pairwise Tree.KeyLt := by decide +kernel
  have hfirst : Tree.CanonicalEntries [(.int 1, credentialTree cred), (.int 2, .bytes authData), (.int 3, .bytes sig)] :=
    .cons (.int (by decide) (by decide)) (canonical_credentialTree cred) (.cons (.int (by decide) (by decide))
      (.bytes hauth) (.cons (.int (by decide) (by decide)) (.bytes hsig) .nil))
  have huser : Tree.CanonicalEntries (if includeUser then [(.int 4, userTree cred)] else []) := by
    split
    · exact .cons (.int (by decide) (by decide)) (canonical_userTree cred) .nil
    · exact .nil
  have hlast : Tree.CanonicalEntries (if total > 1 then [(.int 5, .uint total)] else []) := by
    split
    · exact .cons (.int (by decide) (by decide)) (.uint htotal) .nil
    · exact .nil
  have hkey4 : ((if includeUser then [(Tree.int 4, userTree cred)] else []).map (·.1)).Sublist [Tree.int 4] := by
    split
    · exact .refl _
    · exact List.nil_sublist _
  have hkey5 : ((if total > 1 then [(Tree.int 5, Tree.uint total)] else []).map (·.1)).Sublist [Tree.int 5] := by
    split
    · exact .refl _
    · exact List.nil_sublist _
  refine ((hfirst.append huser).append hlast).map hsorted ?_ (by decide)
  rw [List.map_append, List.map_append]
  exact ((List.Sublist.refl [Tree.int 1, .int 2, .int 3]).append hkey4).append hkey5

theorem canonical_coseTree (pubKey : Bytes 64) : (coseTree pubKey).Canonical := by
  have hx : (pubKey.toList.take 32).length < 2 ^ 64 := Nat.lt_of_le_of_lt (List.length_take_le _ _) (by decide)
  have hy : (pubKey.toList.drop 32).length < 2 ^ 64 := by
    rw [List.length_drop, pubKey.toList_length]
    decide
  have hsorted : [Tree.int 1, .int 3, .int (-1), .int (-2), .int (-3)].Pairwise Tree.KeyLt := by decide +kernel
  have hpoint : Tree.CanonicalEntries
      [(.int (-2), .bytes (pubKey.toList.take 32)), (.int (-3), .bytes (pubKey.toList.drop 32))] :=
    .cons (.int (by decide) (by decide)) (.bytes hx) (.cons (.int (by decide) (by decide)) (.bytes hy) .nil)
  have hentries : Tree.CanonicalEntries [(.int 1, .int coseKtyEc2), (.int 3, .int coseAlgEs256), (.int (-1), .int coseCrvP256)] :=
    .cons (.int (by decide) (by decide)) (.int (by decide) (by decide)) (.cons (.int (by decide) (by decide))
      (.int (by decide) (by decide)) (.cons (.int (by decide) (by decide)) (.int (by decide) (by decide)) .nil))
  exact (hentries.append hpoint).map hsorted (.refl _) (by decide)

theorem canonical_makeCredentialTree {authData sig : List UInt8} (hauth : authData.length < 2 ^ 64)
    (hsig : sig.length < 2 ^ 64) : (makeCredentialTree authData sig).Canonical := by
  have hsorted : [Tree.int 1, .int 2, .int 3].Pairwise Tree.KeyLt := by decide +kernel
  have hsorted' : [keyText "alg", keyText "sig"].Pairwise Tree.KeyLt := by decide +kernel
  have hstatement : Tree.CanonicalEntries [(keyText "alg", .int coseAlgEs256), (keyText "sig", .bytes sig)] :=
    .cons (canonical_keyText (by decide)) (.int (by decide) (by decide)) (.cons (canonical_keyText (by decide)) (.bytes hsig) .nil)
  have hentries : Tree.CanonicalEntries [(.int 1, keyText "packed"), (.int 2, .bytes authData),
      (.int 3, .map [(keyText "alg", .int coseAlgEs256), (keyText "sig", .bytes sig)])] :=
    .cons (.int (by decide) (by decide)) (canonical_keyText (by decide)) (.cons (.int (by decide) (by decide)) (.bytes hauth)
      (.cons (.int (by decide) (by decide)) (hstatement.map hsorted' (.refl _) (by decide)) .nil))
  exact hentries.map hsorted (.refl _) (by decide)

theorem canonical_extensionTree {value : Tree} (h : value.Canonical) : (extensionTree value).Canonical := by
  have hentries : Tree.CanonicalEntries [(keyText "hmac-secret", value)] := .cons (canonical_keyText (by decide)) h .nil
  exact hentries.map (List.pairwise_singleton _ _) (.refl _) (show 1 < 2 ^ 64 by decide)

/-! ## The responses -/

/-- An assertion's response: what is in it, and that there was room for it on the way. -/
inductive IsAssertion (cred : Credential) (clientDataHash : Bytes 32) (includeUser : Bool) (total : Nat)
    (extensions : Option Tree) : List UInt8 → Prop
  | mk {header ext sig : List UInt8} (hheader : header.length = 37) (hext : ext = extensions.elim [] Tree.encode)
      (hextensions : ∀ t, extensions = some t → t.Canonical)
      (hcanonical : (assertionTree cred (header ++ ext) sig includeUser total).Canonical)
      (hauthData : (header ++ ext).length ≤ 200) (htoSign : (header ++ ext ++ clientDataHash.toList).length ≤ 256)
      (hpayload : (assertionTree cred (header ++ ext) sig includeUser total).encode.length ≤ maxCbor) :
      IsAssertion cred clientDataHash includeUser total extensions
        (assertionTree cred (header ++ ext) sig includeUser total).encode

/-- A new credential's. -/
inductive IsAttestation (aaguid : Bytes 16) (credId : Bytes 32) (pubKey : Bytes 64) (clientDataHash : Bytes 32)
    (extensions : Option Tree) : List UInt8 → Prop
  | mk {header attested ext sig : List UInt8} (hheader : header.length = 37)
      (hattested : attested = aaguid.toList ++ [0, 32] ++ credId.toList ++ (coseTree pubKey).encode)
      (hcose : (coseTree pubKey).Canonical ∧ (coseTree pubKey).encode.length ≤ 128)
      (hext : ext = extensions.elim [] Tree.encode) (hextensions : ∀ t, extensions = some t → t.Canonical)
      (hcanonical : (makeCredentialTree (header ++ attested ++ ext) sig).Canonical)
      (hauthData : (header ++ attested ++ ext).length ≤ 512)
      (htoSign : (header ++ attested ++ ext ++ clientDataHash.toList).length ≤ 1024)
      (hpayload : (makeCredentialTree (header ++ attested ++ ext) sig).encode.length ≤ maxCbor) :
      IsAttestation aaguid credId pubKey clientDataHash extensions
        (makeCredentialTree (header ++ attested ++ ext) sig).encode

theorem AuthData.bytes_rest (a : AuthData) (rest : List UInt8) :
    ({ a with rest := rest } : AuthData).bytes = ({ a with rest := [] } : AuthData).bytes ++ rest := by
  simp only [AuthData.bytes, List.append_nil]

theorem assertion_canonical (hsha : ∀ bs, (P.sha256 bs).length = 32) {io : Io} (hsign : io.SignsWithin maxSigDer)
    (slot : Fin maxCreds) (rpId : List UInt8) (allow : List ListedCred) (hash : Bytes 32) (includeUser : Bool)
    (total : UInt32) (hmacOutput : Option (Bytes 64)) (c : Core) :
    ∃ payload, (encodeAssertionLocked P io slot rpId allow hash includeUser total.toNat hmacOutput c).result = .ok payload ∧
      IsAssertion (c.storage.store.creds slot) hash includeUser total.toNat
        (hmacOutput.map fun output => extensionTree (.bytes output.toList)) payload := by
  let cred := c.storage.store.creds slot
  let header := authdataCommon P rpId (credFlagUp ||| credFlagUv) c.storage.bumpSignCount.store.signCount
  have hheader : header.bytes.length = 37 := length_authdataCommon hsha _ _ _
  have hhash : hash.toList.length = 32 := hash.toList_length
  have htotal : total.toNat < 2 ^ 64 := total.toNat_lt.trans (by decide)
  -- the rest of the command, once the extensions are written
  have hrest : ∀ ext : List UInt8, ext.length ≤ 102 → ∃ sig, io.sign cred.privKey
        (P.sha256 (({ header with rest := ext } : AuthData).bytes ++ hash.toList)) = .ok sig ∧
      assertionPayload cred ({ header with rest := ext } : AuthData).bytes sig includeUser total.toNat =
        .ok (assertionTree cred (header.bytes ++ ext) sig includeUser total.toNat).encode ∧
      ((extensions : Option Tree) → ext = extensions.elim [] Tree.encode → (∀ t, extensions = some t → t.Canonical) →
        IsAssertion cred hash includeUser total.toNat extensions
          (assertionTree cred (header.bytes ++ ext) sig includeUser total.toNat).encode) := by
    intro ext hext
    obtain ⟨sig, hsig, hlen⟩ := hsign cred.privKey (P.sha256 (({ header with rest := ext } : AuthData).bytes ++ hash.toList))
    have hauth : (header.bytes ++ ext).length ≤ 200 := by
      rw [List.length_append]
      omega
    have hbytes : ({ header with rest := ext } : AuthData).bytes = header.bytes ++ ext := header.bytes_rest ext
    obtain ⟨hpayload, hfits⟩ := assertionPayload_eq cred hauth hlen includeUser total.toNat
    refine ⟨sig, hsig, by rw [hbytes]; exact hpayload, fun extensions heq hcanonical => ?_⟩
    refine .mk hheader heq hcanonical (canonical_assertionTree cred (by omega) (hlen.trans_lt (by decide)) includeUser htotal)
      hauth ?_ hfits
    rw [List.length_append]
    omega
  unfold encodeAssertionLocked
  cases hmacOutput with
  | none =>
    obtain ⟨sig, hsig, hpayload, his⟩ := hrest [] (by decide)
    refine ⟨_, ?_, his none rfl (fun t ht => nomatch ht)⟩
    have hsig : io.sign (c.storage.store.creds slot).privKey (P.sha256 (header.bytes ++ hash.toList)) = .ok sig := hsig
    have hpayload : assertionPayload (c.storage.store.creds slot) header.bytes sig includeUser total.toNat = _ := hpayload
    simp only [header] at hsig hpayload
    simp only [hsig, hpayload]
    rfl
  | some output =>
    obtain ⟨hext, hlen⟩ := hmacAnswered_eq (show 102 ≤ 200 - 37 by decide) output
    obtain ⟨sig, hsig, hpayload, his⟩ := hrest _ hlen
    refine ⟨_, ?_, his (some _) rfl (fun t ht => ?_)⟩
    · simp only [header, cred] at hsig hpayload
      simp only [hext, Except.map, hsig, hpayload]
      rfl
    · cases ht
      exact canonical_extensionTree (.bytes (by rw [output.toList_length]; decide))

theorem attestation_canonical (hsha : ∀ bs, (P.sha256 bs).length = 32) {io : Io} (hsign : io.SignsWithin maxSigDer)
    {privKey : Bytes 32} {pubKey : Bytes 64} (hkeys : io.keyPair = .ok (privKey, pubKey)) (req : MakeCredReq) (c : Core) :
    (makeCredentialFinish P io req c).result = .error .eexist ∨ (makeCredentialFinish P io req c).result = .error .enospc ∨
      ∃ payload, (makeCredentialFinish P io req c).result = .ok payload ∧
        IsAttestation c.storage.store.aaguid io.credId pubKey req.clientDataHash
          (if req.hmacSecretRequested then some (extensionTree (.bool true)) else none) payload := by
  let header := authdataCommon P (newCredential req io.credId).rpId.str (credFlagUp ||| credFlagUv ||| credFlagAt)
    c.storage.store.signCount
  let attested := c.storage.store.aaguid.toList ++ [0, 32] ++ io.credId.toList ++ (coseTree pubKey).encode
  have hheader : header.bytes.length = 37 := length_authdataCommon hsha _ _ _
  have hattested : attested.length = 127 := by
    simp only [attested, List.length_append, c.storage.store.aaguid.toList_length, io.credId.toList_length, length_coseTree,
      List.length_cons, List.length_nil]
  have hdata : ∀ hmacSecret, makeAuthdataAttested P c.storage.store
      { newCredential req io.credId with privKey := privKey, pubKey := pubKey, hmacSecret := hmacSecret }
      (credFlagUp ||| credFlagUv) c.storage.store.signCount = .ok { header with rest := attested } := by
    intro hmacSecret
    simp only [makeAuthdataAttested, encodeCoseKey_eq]
    rfl
  have hbytes : ∀ ext : List UInt8, ({ header with rest := attested ++ ext } : AuthData).bytes = header.bytes ++ attested ++ ext := by
    intro ext
    rw [header.bytes_rest, ← List.append_assoc]
    rfl
  -- the rest of the command, once the extensions are written
  have hrest : ∀ ext : List UInt8, ext.length ≤ 38 → ∃ sig, io.sign privKey
        (P.sha256 (({ header with rest := attested ++ ext } : AuthData).bytes ++ req.clientDataHash.toList)) = .ok sig ∧
      (((((((((((Writer.init maxCbor).putMap 3).putInt 1).putText (text "packed")).putInt 2).putBytes
          ({ header with rest := attested ++ ext } : AuthData).bytes).putInt 3).putMap 2).putText (text "alg")).putInt
          coseAlgEs256).putText (text "sig") |>.putBytes sig |>.result) =
        .ok (makeCredentialTree (header.bytes ++ attested ++ ext) sig).encode ∧
      ((extensions : Option Tree) → ext = extensions.elim [] Tree.encode → (∀ t, extensions = some t → t.Canonical) →
        IsAttestation c.storage.store.aaguid io.credId pubKey req.clientDataHash extensions
          (makeCredentialTree (header.bytes ++ attested ++ ext) sig).encode) := by
    intro ext hext
    obtain ⟨sig, hsig, hlen⟩ := hsign privKey
      (P.sha256 (({ header with rest := attested ++ ext } : AuthData).bytes ++ req.clientDataHash.toList))
    have hauth : (header.bytes ++ attested ++ ext).length ≤ 202 := by
      rw [List.length_append, List.length_append]
      omega
    have hhash : req.clientDataHash.toList.length = 32 := req.clientDataHash.toList_length
    obtain ⟨hpayload, hfits⟩ := makeCredentialPayload_eq (hauth.trans (show 202 ≤ 512 by decide)) hlen
    refine ⟨sig, hsig, by rw [hbytes]; exact hpayload, fun extensions heq hcanonical => ?_⟩
    have hsig64 : sig.length < 2 ^ 64 := hlen.trans_lt (by decide)
    refine .mk hheader rfl ⟨canonical_coseTree pubKey, (length_coseTree pubKey).trans_le (by decide)⟩ heq hcanonical
      (canonical_makeCredentialTree (by omega) hsig64) (by omega) ?_ hfits
    rw [List.length_append]
    omega
  unfold makeCredentialFinish
  split
  · exact .inl rfl
  split
  · exact .inr (.inl rfl)
  next slot hslot =>
  refine .inr (.inr ?_)
  simp only [hkeys]
  cases hrequested : req.hmacSecretRequested with
  | false =>
    obtain ⟨sig, hsig, hpayload, his⟩ := hrest [] (by decide)
    refine ⟨_, ?_, his none rfl (fun t ht => nomatch ht)⟩
    simp only [hdata, bind, Except.bind, Bool.false_eq_true, if_false, hsig, hpayload]
  | true =>
    have hroom : 38 ≤ 512 - ({ header with rest := attested } : AuthData).bytes.length := by
      rw [header.bytes_rest, List.length_append]
      show 38 ≤ 512 - (header.bytes.length + attested.length)
      omega
    obtain ⟨hext, hlen⟩ := hmacCreated_eq hroom
    obtain ⟨sig, hsig, hpayload, his⟩ := hrest _ hlen
    refine ⟨_, ?_, his (some _) rfl (fun t ht => ?_)⟩
    · simp only [hdata, bind, Except.bind, if_true, hext, hsig, hpayload]
    · cases ht
      exact canonical_extensionTree .bool

/-- What is promised of both responses. -/
structure RespondsCanonically (P : Platform) (io : Io) (c : Core) : Prop where
  assertion : ∀ slot rpId allow hash includeUser (total : UInt32) hmacOutput, ∃ payload,
    (encodeAssertionLocked P io slot rpId allow hash includeUser total.toNat hmacOutput c).result = .ok payload ∧
      IsAssertion (c.storage.store.creds slot) hash includeUser total.toNat
        (hmacOutput.map fun output => extensionTree (.bytes output.toList)) payload
  attestation : ∀ privKey pubKey req, io.keyPair = .ok (privKey, pubKey) →
    (makeCredentialFinish P io req c).result = .error .eexist ∨ (makeCredentialFinish P io req c).result = .error .enospc ∨
      ∃ payload, (makeCredentialFinish P io req c).result = .ok payload ∧
        IsAttestation c.storage.store.aaguid io.credId pubKey req.clientDataHash
          (if req.hmacSecretRequested then some (extensionTree (.bool true)) else none) payload

/-- **A response whose signature can be made is canonical, and fits.** -/
theorem responses_canonical (hsha : ∀ bs, (P.sha256 bs).length = 32) {io : Io} (hsign : io.SignsWithin maxSigDer)
    (c : Core) : RespondsCanonically P io c where
  assertion slot rpId allow hash includeUser total hmacOutput :=
    assertion_canonical hsha hsign slot rpId allow hash includeUser total hmacOutput c
  attestation _ _ req hkeys := attestation_canonical hsha hsign hkeys req c

/-- With a key in the first slot. -/
theorem responses_canonical_named :
    RespondsCanonically .digesting .plain ⟨(Storage.boot none).setCred firstSlot (namedKey 1), none⟩ :=
  responses_canonical Platform.length_digest (fun _ _ => ⟨[0x30], rfl, by decide⟩) _

end AbkFido
