/-
Parsing undoes encoding: getAssertion, and both round trips.
-/
import AbkFido.ParseMakeCred

namespace AbkFido

open Cbor CborForm

variable {depth : Nat} {bytes : List UInt8}

/-! ## getAssertion -/

/-- The members of a COSE key once those with the labels `seen` have been read. -/
def CoseKey.after (x y : Bytes 32) (seen : List Int) : CoseKey where
  haveKty := decide (1 ∈ seen)
  haveCrv := decide (-1 ∈ seen)
  x := if -2 ∈ seen then some x else none
  y := if -3 ∈ seen then some y else none

/-- A member of a COSE key, by its label. -/
def readCoseMember (depth : Nat) (cose : CoseKey) (key : Int) : Cbor CoseKey :=
  match key with
  | 1 => do
    let kty ← readInt
    pure { cose with haveKty := kty == coseKtyEc2 }
  | -1 => do
    let crv ← readInt
    pure { cose with haveCrv := crv == coseCrvP256 }
  | -2 => do
    let x ← readFixed 32
    pure { cose with x := some x }
  | -3 => do
    let y ← readFixed 32
    pure { cose with y := some y }
  | _ => do
    skip depth
    pure cose

theorem readCoseMember_reads {x y : Bytes 32} {seen : List Int} {key : Int} {value : List UInt8}
    (hval : CoseValue x y key value) (hdepth : value.length ≤ depth) :
    Reads (readCoseMember depth (.after x y seen) key) value (.after x y (seen ++ [key])) := by
  by_cases hknown : key ∈ coseLabels
  · simp only [coseLabels, List.mem_cons, List.not_mem_nil, or_false] at hknown
    rcases hknown with rfl | rfl | rfl | rfl
    · have hafter : CoseKey.after x y (seen ++ [1]) = { CoseKey.after x y seen with haveKty := true } := by
        simp [CoseKey.after]
      rw [hafter]
      exact (readInt_reads hval).bind_pure
    · have hafter : CoseKey.after x y (seen ++ [-1]) = { CoseKey.after x y seen with haveCrv := true } := by
        simp [CoseKey.after]
      rw [hafter]
      exact (readInt_reads hval).bind_pure
    · have hafter : CoseKey.after x y (seen ++ [-2]) = { CoseKey.after x y seen with x := some x } := by
        simp [CoseKey.after]
      rw [hafter]
      exact (readFixed_reads hval).bind_pure
    · have hafter : CoseKey.after x y (seen ++ [-3]) = { CoseKey.after x y seen with y := some y } := by
        simp [CoseKey.after]
      rw [hafter]
      exact (readFixed_reads hval).bind_pure
  · have hplain : Plain value := by
      unfold CoseValue at hval
      split at hval <;> first | exact hval | exact absurd (by decide) hknown
    have hread : readCoseMember depth (.after x y seen) key = skip depth >>= fun _ => pure (.after x y seen) := by
      unfold readCoseMember
      split <;> first | rfl | exact absurd (by decide) hknown
    have hafter : CoseKey.after x y (seen ++ [key]) = CoseKey.after x y seen := by
      simp only [coseLabels, List.mem_cons, List.not_mem_nil, or_false, not_or] at hknown
      obtain ⟨h1, h2, h3, h4⟩ := hknown
      simp [CoseKey.after, Ne.symm h1, Ne.symm h2, Ne.symm h3, Ne.symm h4]
    rw [hread, hafter]
    exact (skip_reads hplain depth hdepth).bind_pure

theorem readCoseP256Xy_reads {x y : Bytes 32} (h : IsCoseKey x y bytes) (hdepth : bytes.length ≤ depth) :
    Reads (readCoseP256Xy depth) bytes (x ++ y) := by
  have hloop := map_loop_reads h (S := CoseKey.after x y) (f := fun cose => readInt >>= readCoseMember depth cose)
    (b := { haveKty := true, haveCrv := true, x := some x, y := some y })
    (fun seen key kenc venc hkey hval hlen _ =>
      (readInt_reads hkey).bind (readCoseMember_reads hval (hlen.trans hdepth))) fun keys hkeys => by
    have hmem : ∀ k ∈ coseLabels, k ∈ keys := fun k hk => (hkeys k hk).mpr rfl
    simp [CoseKey.after, hmem 1 (by decide), hmem (-1) (by decide), hmem (-2) (by decide), hmem (-3) (by decide)]
  rw [← List.append_nil bytes]
  exact .assoc (hloop.bind (.pure (x ++ y)))

/-- The hmac-secret input once the parts with the keys `seen` have been read. -/
def HmacInput.after (salts : HmacSalts) (req : GetAssertReq) (seen : List Int) : HmacInput where
  req := { req with
    hmacKeyAgreement := if 1 ∈ seen then salts.x ++ salts.y else req.hmacKeyAgreement
    hmacSaltEnc := if 2 ∈ seen then salts.saltEnc else req.hmacSaltEnc
    hmacSaltAuth := if 3 ∈ seen then salts.saltAuth else req.hmacSaltAuth }
  haveKa := decide (1 ∈ seen)
  haveEnc := decide (2 ∈ seen)
  haveAuth := decide (3 ∈ seen)

/-- A request with the hmac-secret input in it. -/
def HmacSalts.fill (salts : HmacSalts) (req : GetAssertReq) : GetAssertReq :=
  { req with
    hmacSecretRequested := true
    hmacKeyAgreement := salts.x ++ salts.y
    hmacSaltEnc := salts.saltEnc
    hmacSaltAuth := salts.saltAuth }

/-- A part of the hmac-secret input, by its key. -/
def readHmacPart (depth : Nat) (input : HmacInput) (mkey : Int) : Cbor HmacInput :=
  match mkey with
  | 1 => do
    let xy ← readCoseP256Xy depth
    pure { input with req := { input.req with hmacKeyAgreement := xy }, haveKa := true }
  | 2 => do
    let enc ← readFixed 64
    pure { input with req := { input.req with hmacSaltEnc := enc }, haveEnc := true }
  | 3 => do
    let auth ← readFixed 16
    pure { input with req := { input.req with hmacSaltAuth := auth }, haveAuth := true }
  | _ => do
    skip depth
    pure input

theorem readHmacPart_reads {salts : HmacSalts} {req : GetAssertReq} {seen : List Int} {key : Int}
    {value : List UInt8} (hval : salts.Value key value) (hdepth : value.length ≤ depth) :
    Reads (readHmacPart depth (.after salts req seen) key) value (.after salts req (seen ++ [key])) := by
  by_cases hknown : key ∈ hmacParts
  · simp only [hmacParts, List.mem_cons, List.not_mem_nil, or_false] at hknown
    rcases hknown with rfl | rfl | rfl
    · have hafter : HmacInput.after salts req (seen ++ [1]) = { HmacInput.after salts req seen with
          req := { (HmacInput.after salts req seen).req with hmacKeyAgreement := salts.x ++ salts.y }
          haveKa := true } := by
        simp [HmacInput.after]
      rw [hafter]
      exact (readCoseP256Xy_reads hval hdepth).bind_pure
    · have hafter : HmacInput.after salts req (seen ++ [2]) = { HmacInput.after salts req seen with
          req := { (HmacInput.after salts req seen).req with hmacSaltEnc := salts.saltEnc }
          haveEnc := true } := by
        simp [HmacInput.after]
      rw [hafter]
      exact (readFixed_reads hval).bind_pure
    · have hafter : HmacInput.after salts req (seen ++ [3]) = { HmacInput.after salts req seen with
          req := { (HmacInput.after salts req seen).req with hmacSaltAuth := salts.saltAuth }
          haveAuth := true } := by
        simp [HmacInput.after]
      rw [hafter]
      exact (readFixed_reads hval).bind_pure
  · have hplain : Plain value := by
      unfold HmacSalts.Value at hval
      split at hval <;> first | exact hval | exact absurd (by decide) hknown
    have hread : readHmacPart depth (.after salts req seen) key =
        skip depth >>= fun _ => pure (.after salts req seen) := by
      unfold readHmacPart
      split <;> first | rfl | exact absurd (by decide) hknown
    have hafter : HmacInput.after salts req (seen ++ [key]) = HmacInput.after salts req seen := by
      simp only [hmacParts, List.mem_cons, List.not_mem_nil, or_false, not_or] at hknown
      obtain ⟨h1, h2, h3⟩ := hknown
      simp [HmacInput.after, Ne.symm h1, Ne.symm h2, Ne.symm h3]
    rw [hread, hafter]
    exact (skip_reads hplain depth hdepth).bind_pure

theorem parseHmacInput_reads {salts : HmacSalts} (h : salts.IsMap bytes) (req : GetAssertReq)
    (hdepth : bytes.length ≤ depth) : Reads (parseHmacInput depth req) bytes (salts.fill req) := by
  have hloop := map_loop_reads h (S := HmacInput.after salts req)
    (f := fun input => readInt >>= readHmacPart depth input)
    (b := { req := { salts.fill req with hmacSecretRequested := req.hmacSecretRequested }
            haveKa := true, haveEnc := true, haveAuth := true })
    (fun seen key kenc venc hkey hval hlen _ =>
      (readInt_reads hkey).bind (readHmacPart_reads hval (hlen.trans hdepth))) fun keys hkeys => by
    have hmem : ∀ k ∈ hmacParts, k ∈ keys := fun k hk => (hkeys k hk).mpr rfl
    simp [HmacInput.after, HmacSalts.fill, hmem 1 (by decide), hmem 2 (by decide), hmem 3 (by decide)]
  rw [← List.append_nil bytes]
  exact .assoc (hloop.bind (.pure (salts.fill req)))

theorem parseGetAssertExtensions_reads {ext : Option HmacSalts}
    (h : IsExtensions ext.isSome (fun v => ∃ salts ∈ ext, salts.IsMap v) bytes) (req : GetAssertReq)
    (hdepth : bytes.length ≤ depth) :
    Reads (parseGetAssertExtensions depth req) bytes ((ext.map fun salts => salts.fill req).getD req) := by
  have hread := extensions_reads (f := parseHmacInput depth) (a := req)
    (b := (ext.map fun salts => salts.fill req).getD req) h (fun enc henc hlen => by
      obtain ⟨salts, hsome, hsalts⟩ := henc
      rw [Option.mem_def.mp hsome]
      exact parseHmacInput_reads hsalts req (hlen.trans hdepth)) hdepth
  cases ext with
  | none => exact hread
  | some salts => exact hread

namespace GetAssertion

/-- What is known of a request once the keys `seen` have been read. -/
def after (q : GetAssertion) (seen : List Int) : GetAssertReq where
  haveClientDataHash := decide (2 ∈ seen)
  haveRpId := decide (1 ∈ seen)
  uv := if 5 ∈ seen then (q.options.bind (·.uv)).getD false else false
  upDisabled := if 5 ∈ seen then q.options.bind (·.up) == some false else false
  pinAuthPresent := decide (6 ∈ seen)
  hmacSecretRequested := if 4 ∈ seen then q.extensions.join.isSome else false
  hmacKeyAgreement := if 4 ∈ seen then (q.extensions.join.map fun h => h.x ++ h.y).getD (zeros 64) else zeros 64
  hmacSaltEnc := if 4 ∈ seen then (q.extensions.join.map (·.saltEnc)).getD (zeros 64) else zeros 64
  hmacSaltAuth := if 4 ∈ seen then (q.extensions.join.map (·.saltAuth)).getD (zeros 16) else zeros 16
  clientDataHash := if 2 ∈ seen then q.clientDataHash else zeros 32
  rpId := if 1 ∈ seen then q.rpId.1 else []
  allow := if 3 ∈ seen then q.allow.getD [] else []

theorem after_other {q : GetAssertion} {seen : List Int} {key : Int} (h : key ∉ known) :
    q.after (seen ++ [key]) = q.after seen := by
  simp only [known, List.mem_cons, List.not_mem_nil, or_false, not_or] at h
  obtain ⟨h1, h2, h3, h4, h5, h6, h7⟩ := h
  simp [after, Ne.symm h1, Ne.symm h2, Ne.symm h3, Ne.symm h4, Ne.symm h5, Ne.symm h6]

theorem parseGetAssertKey_other {key : Int} (h : key ∉ known) (req : GetAssertReq) :
    parseGetAssertKey depth req key = skip depth >>= fun _ => pure req := by
  unfold parseGetAssertKey
  split <;> first | rfl | exact absurd (by decide) h

theorem value_other {q : GetAssertion} {key : Int} {value : List UInt8} (hval : q.Value key value)
    (h : key ∉ known) : Plain value := by
  unfold Value at hval
  split at hval <;> first | exact hval | exact absurd (by decide) h

/-- A request with the options once the entries `seen` have been read. -/
def withOptions (o : Options) (req : GetAssertReq) (seen : List (List UInt8)) : GetAssertReq :=
  { req with
    uv := if text "uv" ∈ seen then o.uv.getD false else req.uv
    upDisabled := if text "up" ∈ seen then o.up == some false else req.upDisabled }

theorem setOption_step {o : Options} (req : GetAssertReq) (seen : List (List UInt8)) (key : List UInt8) (b : Bool)
    (h : key ∈ [text "uv", text "up"] → key ∉ seen ∧ o.get key = some b) :
    GetAssertReq.setOption (fun t => decide (key = t)) b (withOptions o req seen) =
      withOptions o req (seen ++ [key]) := by
  unfold GetAssertReq.setOption
  simp only [decide_eq_true_eq]
  by_cases huv : key = text "uv"
  · subst huv
    have hget : o.uv = some b := (h (by simp)).2
    simp [withOptions, hget, text]
  by_cases hup : key = text "up"
  · subst hup
    have hget : o.up = some b := (h (by simp)).2
    cases b <;> simp [withOptions, hget, text]
  · simp [withOptions, huv, hup, Ne.symm huv, Ne.symm hup]

theorem options_reads {o : Options} (h : o.IsMap [text "uv", text "up"] bytes) {req : GetAssertReq}
    (huv : req.uv = false) (hup : req.upDisabled = false) :
    Reads (readOptions GetAssertReq.setOption req) bytes
      { req with uv := o.uv.getD false, upDisabled := o.up == some false } := by
  refine readOptions_reads (S := withOptions o req) h (setOption_step req) fun keys hkeys => ?_
  have huv' : text "uv" ∈ keys ↔ o.uv.isSome = true := hkeys _ (by simp)
  have hup' : text "up" ∈ keys ↔ o.up.isSome = true := hkeys _ (by simp)
  unfold withOptions
  simp only [huv', hup', huv, hup]
  congr 1
  · exact ite_isSome o.uv (fun b => b.getD false) rfl
  · exact ite_isSome o.up (fun b => b == some false) rfl

/-- Each top-level key adds what it carries. -/
theorem parseGetAssertKey_reads {q : GetAssertion} {seen : List Int} {key : Int} {value : List UInt8}
    (hfits : key = 3 → ∀ list ∈ q.allow, ListFits list) (hval : q.Value key value) (hlen : value.length ≤ depth)
    (hseen : key ∈ known → key ∉ seen ∧ q.there key = true) :
    Reads (parseGetAssertKey depth (q.after seen) key) value (q.after (seen ++ [key])) := by
  by_cases hkey : key ∈ known
  · obtain ⟨hnot, hthere⟩ := hseen hkey
    simp only [known, List.mem_cons, List.not_mem_nil, or_false] at hkey
    rcases hkey with rfl | rfl | rfl | rfl | rfl | rfl | rfl
    · have hafter : q.after (seen ++ [1]) = { q.after seen with rpId := q.rpId.1, haveRpId := true } := by
        simp [after]
      rw [hafter]
      exact (readStr_reads hval q.rpId.2.1 q.rpId.2.2).bind_pure
    · have hafter : q.after (seen ++ [2]) =
          { q.after seen with clientDataHash := q.clientDataHash, haveClientDataHash := true } := by
        simp [after]
      rw [hafter]
      exact (readFixed_reads hval).bind_pure
    · obtain ⟨list, hsome, hval⟩ := hval
      have hafter : q.after (seen ++ [3]) = { q.after seen with allow := list } := by
        simp [after, Option.mem_def.mp hsome]
      have hnil : (q.after seen).allow = [] := if_neg hnot
      rw [hafter]
      show Reads (readCredList depth (q.after seen).allow >>= _) _ _
      rw [hnil]
      exact (readCredList_reads hval (hfits rfl list hsome) hlen).bind_pure
    · obtain ⟨ext, hsome, hval⟩ := hval
      have hafter : q.after (seen ++ [4]) = (ext.map fun salts => salts.fill (q.after seen)).getD (q.after seen) := by
        cases ext with
        | none => simp [after, Option.mem_def.mp hsome, hnot]
        | some salts => simp [after, Option.mem_def.mp hsome, HmacSalts.fill]
      rw [hafter]
      exact parseGetAssertExtensions_reads hval _ hlen
    · obtain ⟨o, hsome, hval⟩ := hval
      have hafter : q.after (seen ++ [5]) = { q.after seen with
          uv := o.uv.getD false, upDisabled := o.up == some false } := by
        simp [after, Option.mem_def.mp hsome]
      rw [hafter]
      exact options_reads hval (if_neg hnot) (if_neg hnot)
    · obtain ⟨param, hsome, hval⟩ := hval
      have hafter : q.after (seen ++ [6]) = { q.after seen with pinAuthPresent := true } := by
        simp [after]
      rw [hafter]
      intro pre
      rw [← List.append_nil value]
      exact string_bind hval (by decide) fun slice _ => .pure _ _
    · obtain ⟨protocol, hsome, hval⟩ := hval
      have hafter : q.after (seen ++ [7]) = q.after seen := by
        simp [after]
      rw [hafter]
      exact (readUint_reads hval).bind_pure
  · rw [parseGetAssertKey_other hkey, after_other hkey]
    exact (skip_reads (value_other hval hkey) depth hlen).bind_pure

theorem after_keys {q : GetAssertion} {keys : List Int} (hkeys : ∀ k ∈ known, k ∈ keys ↔ q.there k = true) :
    q.after keys = q.req := by
  have h1 : 1 ∈ keys := (hkeys 1 (by decide)).mpr rfl
  have h2 : 2 ∈ keys := (hkeys 2 (by decide)).mpr rfl
  have h3 : 3 ∈ keys ↔ q.allow.isSome = true := hkeys 3 (by decide)
  have h4 : 4 ∈ keys ↔ q.extensions.isSome = true := hkeys 4 (by decide)
  have h5 : 5 ∈ keys ↔ q.options.isSome = true := hkeys 5 (by decide)
  have h6 : 6 ∈ keys ↔ q.pinUvAuthParam.isSome = true := hkeys 6 (by decide)
  unfold after req
  simp only [h1, h2, h3, h4, h5, h6, decide_true, if_true, Bool.decide_eq_true]
  congr 1
  · exact ite_isSome q.options (fun o => (o.bind (·.uv)).getD false) rfl
  · exact ite_isSome q.options (fun o => o.bind (·.up) == some false) rfl
  · exact ite_isSome q.extensions (fun e => e.join.isSome) rfl
  · exact ite_isSome q.extensions (fun e => (e.join.map fun h => h.x ++ h.y).getD (zeros 64)) rfl
  · exact ite_isSome q.extensions (fun e => (e.join.map (·.saltEnc)).getD (zeros 64)) rfl
  · exact ite_isSome q.extensions (fun e => (e.join.map (·.saltAuth)).getD (zeros 16)) rfl
  · exact ite_isSome q.allow (fun e => e.getD []) rfl

theorem parseGetAssert_reads {q : GetAssertion} (hfits : ∀ list ∈ q.allow, ListFits list) (h : q.Encodes bytes)
    (hdepth : bytes.length ≤ depth) : Reads (parseGetAssert depth) bytes q.req := by
  have hloop := map_loop_reads h (S := q.after) (f := fun req => readInt >>= parseGetAssertKey depth req)
    (fun seen key kenc venc hkey hval hlen hseen =>
      (readInt_reads hkey).bind (parseGetAssertKey_reads (fun _ => hfits) hval (hlen.trans hdepth) hseen)) fun keys => after_keys
  rw [← List.append_nil bytes]
  exact .assoc (hloop.bind (.pure q.req))

/-- A request that allows an id that is too long is refused. -/
theorem parseGetAssert_fails {q : GetAssertion} {list : List ListedCred} (hlist : q.allow = some list)
    (hcount : list.length ≤ maxCredList) (hlong : ∃ id, some id ∈ list ∧ 32 < id.length) (h : q.Encodes bytes)
    (hdepth : bytes.length ≤ depth) : Reader.cursor.Fails (parseGetAssert depth) bytes := by
  have hloop := map_loop_fails h (S := q.after) (f := fun req => readInt >>= parseGetAssertKey depth req) (k := 3)
    (by decide) (by rw [there, hlist]; rfl)
    (fun seen key kenc venc hkey hval hlen hseen hne => (readInt_reads hkey).bind
      (parseGetAssertKey_reads (fun h => absurd h hne) hval (hlen.trans hdepth) hseen))
    fun seen kenc venc hkey hval hlen hseen => (readInt_reads hkey).bind_fails ?_
  · exact .assoc (hloop.bind _)
  · obtain ⟨list', hsome, hval⟩ := hval
    rw [hlist] at hsome
    cases hsome
    have hnil : (q.after seen).allow = [] := if_neg hseen
    show Reader.cursor.Fails (readCredList depth (q.after seen).allow >>= _) _
    rw [hnil]
    exact (readCredList_fails hval hcount hlong (hlen.trans hdepth)).bind _

end GetAssertion

/-! ## Two messages -/

/-- A list of one credential. -/
def oneCred (id : List UInt8) : List UInt8 :=
  0x81 :: 0xa1 :: (0x62 :: text "id" ++ 0x58 :: UInt8.ofNat id.length :: id)

theorem oneCred_encodes {id : List UInt8} (h : id.length < 256) : IsArray IsListedCred [some id] (oneCred id) := by
  refine isArray_one (isMap_one (isText_short (by decide) (by decide)) ?_)
  rw [if_pos rfl]
  exact ⟨id, rfl, isBytes_wide h⟩

/-- A request with only what is required, and an excluded credential. -/
def makeCredentialOf (id : List UInt8) : MakeCredential where
  clientDataHash := zeros 32
  rpId := ⟨text "a", by decide⟩
  user := { id := ⟨[7], by decide⟩, name := none, displayName := none }
  credParams := [(text "public-key", coseAlgEs256)]
  es256 := List.mem_singleton.mpr rfl
  exclude := some [some id]
  extensions := none
  options := none
  pinUvAuthParam := none
  pinUvAuthProtocol := none

/-- Its entries, and one that is not known among them. -/
def makeCredentialEntries (id : List UInt8) : List (MapEntry Int) :=
  [⟨5, [0x05], oneCred id⟩,
    ⟨4, [0x04], 0x81 :: 0xa2 :: (0x63 :: text "alg" ++ 0x26 :: (0x64 :: text "type" ++ 0x6a :: text "public-key"))⟩,
    ⟨3, [0x03], 0xa1 :: (0x62 :: text "id" ++ 0x58 :: 1 :: [7])⟩,
    ⟨10, [0x0a], [0x80]⟩,
    ⟨2, [0x02], 0xa1 :: (0x62 :: text "id" ++ 0x61 :: text "a")⟩,
    ⟨1, [0x01], 0x58 :: 32 :: (zeros 32).toList⟩]

def makeCredentialMessage (id : List UInt8) : List UInt8 := 0xa6 :: (makeCredentialEntries id).flatMap MapEntry.bytes

theorem credParams_encodes : IsArray IsCredParam [(text "public-key", coseAlgEs256)]
    (0x81 :: 0xa2 :: (0x63 :: text "alg" ++ 0x26 :: (0x64 :: text "type" ++ 0x6a :: text "public-key"))) := by
  refine isArray_one (IsMap.mk (h := [0xa2]) [⟨text "alg", 0x63 :: text "alg", [0x26]⟩,
    ⟨text "type", 0x64 :: text "type", 0x6a :: text "public-key"⟩] (.short (by decide)) ?_ (by decide))
  simp only [List.forall_mem_cons]
  refine ⟨⟨isText_short (by decide) (by decide), ?_⟩, ⟨isText_short (by decide) (by decide), ?_⟩, by simp⟩
  · exact .neg (by decide) (by decide) (.short (by decide))
  · exact isText_short (by decide) (by decide)

theorem hash_encodes : IsBytes (zeros 32).toList (0x58 :: 32 :: (zeros 32).toList) := isBytes_wide (by decide)

theorem rpId_encodes : IsText (text "a") (0x61 :: text "a") := isText_short (by decide) (by decide)

theorem user_encodes : { id := ⟨[7], by decide⟩, name := none, displayName := none : User }.IsMap
    (0xa1 :: (0x62 :: text "id" ++ 0x58 :: 1 :: [7])) := by
  refine IsMap.mk (h := [0xa1]) [⟨text "id", 0x62 :: text "id", 0x58 :: 1 :: [7]⟩] (.short (by decide))
    (List.forall_mem_singleton.mpr ⟨isText_short (by decide) (by decide), ?_⟩) (by decide)
  exact isBytes_wide (by decide)

theorem makeCredential_encodes {id : List UInt8} (h : id.length < 256) :
    (makeCredentialOf id).Encodes (makeCredentialMessage id) := by
  refine IsMap.mk (h := [0xa6]) (makeCredentialEntries id) (.short (Nat.le_add_left 6 17)) ?_ ?_
  · simp only [makeCredentialEntries, List.forall_mem_cons]
    exact ⟨⟨isInt_short (v := 5) (by decide) rfl, _, rfl, oneCred_encodes h⟩,
      ⟨isInt_short (v := 4) (by decide) rfl, credParams_encodes⟩,
      ⟨isInt_short (v := 3) (by decide) rfl, user_encodes⟩,
      ⟨isInt_short (v := 10) (by decide) rfl, .array (h := [0x80]) [] (.short (by decide)) (by simp)⟩,
      ⟨isInt_short (v := 2) (by decide) rfl, isMap_one (isText_short (by decide) (by decide)) rpId_encodes⟩,
      ⟨isInt_short (v := 1) (by decide) rfl, hash_encodes⟩, by simp⟩
  · intro k hk
    simp only [MakeCredential.known, List.mem_cons, List.not_mem_nil, or_false] at hk
    rcases hk with rfl | rfl | rfl | rfl | rfl | rfl | rfl | rfl | rfl <;> rfl

/-- A request with only what is required, and an allowed credential. -/
def getAssertionOf (id : List UInt8) : GetAssertion where
  rpId := ⟨text "a", by decide⟩
  clientDataHash := zeros 32
  allow := some [some id]
  extensions := none
  options := none
  pinUvAuthParam := none
  pinUvAuthProtocol := none

def getAssertionEntries (id : List UInt8) : List (MapEntry Int) :=
  [⟨3, [0x03], oneCred id⟩, ⟨2, [0x02], 0x58 :: 32 :: (zeros 32).toList⟩, ⟨1, [0x01], 0x61 :: text "a"⟩]

def getAssertionMessage (id : List UInt8) : List UInt8 := 0xa3 :: (getAssertionEntries id).flatMap MapEntry.bytes

theorem getAssertion_encodes {id : List UInt8} (h : id.length < 256) :
    (getAssertionOf id).Encodes (getAssertionMessage id) := by
  refine IsMap.mk (h := [0xa3]) (getAssertionEntries id) (.short (Nat.le_add_left 3 20)) ?_ ?_
  · simp only [getAssertionEntries, List.forall_mem_cons]
    exact ⟨⟨isInt_short (v := 3) (by decide) rfl, _, rfl, oneCred_encodes h⟩,
      ⟨isInt_short (v := 2) (by decide) rfl, hash_encodes⟩, ⟨isInt_short (v := 1) (by decide) rfl, rpId_encodes⟩,
      by simp⟩
  · intro k hk
    simp only [GetAssertion.known, List.mem_cons, List.not_mem_nil, or_false] at hk
    rcases hk with rfl | rfl | rfl | rfl | rfl | rfl | rfl <;> rfl

theorem listFits_one {id : List UInt8} (h : id.length ≤ 32) : ListFits [some id] where
  count := Nat.le_add_left 1 31
  id i hi := by
    obtain rfl : i = id := by simpa using hi
    exact h

/-! ## The round trip -/

/-- With call depth enough, `parse` makes `req` of exactly this message and
refuses each of its strict prefixes. -/
structure ParsesOnly {α : Type} (parse : Nat → Cbor α) (bytes : List UInt8) (req : α) : Prop where
  whole : ∀ depth, bytes.length ≤ depth → (parse depth (.init bytes)).1 = .ok req
  short : ∀ depth, bytes.length ≤ depth → ∀ short, short <+: bytes → short ≠ bytes →
    ∃ e : Errno, (parse depth (.init short)).1 = .error (.errno e)

theorem parsesOnly_of_reads {α : Type} {parse : Nat → Cbor α} {req : α} (hsize : bytes.length < 2 ^ 64)
    (h : ∀ depth, bytes.length ≤ depth → Reads (parse depth) bytes req) : ParsesOnly parse bytes req where
  whole depth hdepth := (h depth hdepth).run hsize ⟨rfl, rfl⟩
  short depth hdepth short hpre hne := by
    have hat : Reader.cursor.At (.init short) [] short := ⟨rfl, rfl⟩
    obtain ⟨e, hrun, errno, rfl⟩ := (h depth hdepth).run_short hsize hat hpre hne
    exact ⟨errno, hrun⟩

/-- **Request parsing undoes request encoding**: whatever message carries a
request within the limits, the parser makes that request of it, and refuses
the message cut short anywhere. -/
theorem parse_encoded :
    (∀ (q : MakeCredential) (bytes : List UInt8), (∀ list ∈ q.exclude, ListFits list) → q.Encodes bytes →
      bytes.length < 2 ^ 64 → ParsesOnly parseMakeCred bytes q.req) ∧
    ∀ (q : GetAssertion) (bytes : List UInt8), (∀ list ∈ q.allow, ListFits list) → q.Encodes bytes →
      bytes.length < 2 ^ 64 → ParsesOnly parseGetAssert bytes q.req :=
  ⟨fun _ _ hfits h hsize => parsesOnly_of_reads hsize fun _ hdepth => MakeCredential.parseMakeCred_reads hfits h hdepth,
    fun _ _ hfits h hsize => parsesOnly_of_reads hsize fun _ hdepth => GetAssertion.parseGetAssert_reads hfits h hdepth⟩

theorem parse_encoded_messages :
    ParsesOnly parseMakeCred (makeCredentialMessage []) (makeCredentialOf []).req ∧
      ParsesOnly parseGetAssert (getAssertionMessage []) (getAssertionOf []).req := by
  have hfits : ∀ list ∈ some [some ([] : List UInt8)], ListFits list := by
    rintro list ⟨⟩
    exact listFits_one (Nat.zero_le _)
  exact ⟨parse_encoded.1 _ _ hfits (makeCredential_encodes (by decide)) (by decide +kernel),
    parse_encoded.2 _ _ hfits (getAssertion_encodes (by decide)) (by decide +kernel)⟩

end AbkFido
