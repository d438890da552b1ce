/-
`abk_fido_hmac_get_secret_locked`: the hmac-secret output of an assertion.

The function works in buffers of fixed sizes on its stack, and the digest
helper writes a whole digest wherever it is pointed. Here a write past the
end of a buffer drops the bytes that do not fit and is put on record, so what
is computed and what is overrun can be told apart: the bytes come out right
(`hmacGetSecretLocked_computes`), and `tag` is overrun by every digest that
is written into it.
-/
import AbkFido.Command
import AbkFido.Lib.Prog

namespace AbkFido

open Layout

/-! ## Buffers -/

/-- The bytes of `b` after `memcpy(b + off, data, len)`, as far as they fit. -/
def Bytes.write {n : Nat} (b : Bytes n) (off : Nat) (data : List UInt8) : Bytes n :=
  (Codec.bytes n).dec (b.toList.take off ++ data ++ b.toList.drop (off + data.length))

inductive Buffer
  | rawX
  | shared
  | salt
  | tag
  | outputs
  | hmacSaltEnc
  | output
  deriving DecidableEq

/-- The buffers of the call: its own and its helper's, the request's
`hmac_salt_enc`, which is decrypted in place, and the caller's `output`. -/
structure HmacFrame where
  rawX : Bytes 32
  shared : Bytes 32
  salt : Bytes 64
  /-- `ABK_FIDO_HMAC_SALT_AUTH_LEN` -/
  tag : Bytes 16
  outputs : Bytes 64
  hmacSaltEnc : Bytes 64
  output : Bytes 64
  /-- The buffers that were written past their end, the last one first. -/
  overruns : List Buffer

/-- A buffer of the frame and the size it is declared with. -/
structure FrameBuffer (n : Nat) where
  name : Buffer
  get : HmacFrame → Bytes n
  set : Bytes n → HmacFrame → HmacFrame

namespace FrameBuffer

def rawX : FrameBuffer 32 := ⟨.rawX, HmacFrame.rawX, fun b fr => { fr with rawX := b }⟩
def shared : FrameBuffer 32 := ⟨.shared, HmacFrame.shared, fun b fr => { fr with shared := b }⟩
def salt : FrameBuffer 64 := ⟨.salt, HmacFrame.salt, fun b fr => { fr with salt := b }⟩
def tag : FrameBuffer 16 := ⟨.tag, HmacFrame.tag, fun b fr => { fr with tag := b }⟩
def outputs : FrameBuffer 64 := ⟨.outputs, HmacFrame.outputs, fun b fr => { fr with outputs := b }⟩
def hmacSaltEnc : FrameBuffer 64 := ⟨.hmacSaltEnc, HmacFrame.hmacSaltEnc, fun b fr => { fr with hmacSaltEnc := b }⟩
def output : FrameBuffer 64 := ⟨.output, HmacFrame.output, fun b fr => { fr with output := b }⟩

end FrameBuffer

abbrev HmacProg (α : Type) := Prog Errno HmacFrame α

/-- Every write of the call goes through here. -/
def writeBuffer {n : Nat} (b : FrameBuffer n) (off : Nat) (data : List UInt8) : HmacProg Unit :=
  Prog.modify fun fr =>
    let fr' := b.set ((b.get fr).write off data) fr
    if off + data.length ≤ n then fr' else { fr' with overruns := b.name :: fr'.overruns }

def readBuffer {n : Nat} (b : FrameBuffer n) : HmacProg (Bytes n) := do return b.get (← Prog.get)

/-- A primitive either fails and touches nothing, or has its result written. -/
def ofResult {α : Type} : Except Errno α → HmacProg α
  | .ok a => pure a
  | .error e => Prog.throw e

/-! ## The primitives and their helpers -/

/-- What the kernel's crypto API computes, or why it does not. -/
structure Crypto where
  /-- `ecdh-nist-p256`: the x coordinate of the shared point. -/
  ecdh : Bytes 32 → Bytes 64 → Except Errno (Bytes 32)
  sha256 : List UInt8 → Except Errno (Bytes 32)
  /-- `hmac(sha256)` under a key. -/
  hmac : Bytes 32 → List UInt8 → Except Errno (Bytes 32)
  /-- `cbc(aes)` of four blocks, under a key and an iv. -/
  aesCbc : Bool → Bytes 32 → Bytes 16 → Bytes 64 → Except Errno (Bytes 64)

section
variable (K : Crypto)

/-- `abk_fido_hmac_sha256`: the digest is written at `out`, all 32 bytes of it. -/
def hmacSha256 {n : Nat} (key : Bytes 32) (data : List UInt8) (out : FrameBuffer n) (off : Nat) : HmacProg Unit := do
  let digest ← ofResult (K.hmac key data)
  writeBuffer out off digest.toList

/-- `abk_fido_aes256_cbc` with `abk_fido_hmac_zero_iv`, in place. -/
def aes256Cbc (key : Bytes 32) (inout : FrameBuffer 64) (encrypt : Bool) : HmacProg Unit := do
  let result ← ofResult (K.aesCbc encrypt key (zeros 16) (← readBuffer inout))
  writeBuffer inout 0 result.toList

/-- `abk_fido_ecdh_p256` -/
def ecdhP256 (priv : Bytes 32) (peerXy : Bytes 64) : HmacProg Unit := do
  let x ← ofResult (K.ecdh priv peerXy)
  writeBuffer .rawX 0 x.toList
  let digest ← ofResult (K.sha256 (← readBuffer .rawX).toList)
  writeBuffer .shared 0 digest.toList
  writeBuffer .rawX 0 (zeros 32).toList

/-- From the salts to the output, once they are known to be authentic. -/
def hmacOutputs (cred : Credential) (shared : Bytes 32) : HmacProg Unit := do
  aes256Cbc K shared .hmacSaltEnc false
  writeBuffer .salt 0 (← readBuffer .hmacSaltEnc).toList
  let salt ← readBuffer .salt
  hmacSha256 K cred.hmacSecret (salt.toList.take 32) .outputs 0
  hmacSha256 K cred.hmacSecret (salt.toList.drop 32) .outputs 32
  aes256Cbc K shared .outputs true
  writeBuffer .output 0 (← readBuffer .outputs).toList

/-- From the key agreement to the last `memcpy`. -/
def hmacGetSecretBody (cred : Credential) (req : GetAssertReq) : HmacProg Unit := do
  ecdhP256 K cred.privKey req.hmacKeyAgreement
  let shared ← readBuffer .shared
  hmacSha256 K shared (← readBuffer .hmacSaltEnc).toList .tag 0
  if (← readBuffer .tag) ≠ req.hmacSaltAuth then Prog.throw .einval
  else hmacOutputs K cred shared

/-- `memzero_explicit` at `out:`. -/
def HmacFrame.wipe (fr : HmacFrame) : HmacFrame :=
  { fr with shared := zeros 32, salt := zeros 64, outputs := zeros 64, tag := zeros 16 }

/-- The buffers as the call finds them: the request's salts, and whatever there is on the stack. -/
def HmacFrame.enter (fr : HmacFrame) (req : GetAssertReq) : HmacFrame :=
  { fr with hmacSaltEnc := req.hmacSaltEnc, overruns := [] }

def hmacGetSecretLocked (cred : Credential) (req : GetAssertReq) (fr : HmacFrame) : Except Errno Unit × HmacFrame :=
  if cred.hmacSecret = zeros 32 then (.error errInvalidOption, fr.enter req)
  else
    let r := hmacGetSecretBody K cred req (fr.enter req)
    (r.1, r.2.wipe)

/-- The command's view of the call, if it stays in bounds. -/
def Crypto.hmacGetSecret (fr : HmacFrame) (cred : Credential) (req : GetAssertReq) : Except Errno (Bytes 64) :=
  (hmacGetSecretLocked K cred req fr).1.map fun _ => (hmacGetSecretLocked K cred req fr).2.output

end

/-! ## What is computed -/

theorem Bytes.write_whole {n : Nat} (b c : Bytes n) : b.write 0 c.toList = c := by
  have hlen := c.toList_length
  have hrest : b.toList.drop (0 + c.toList.length) = [] := by
    rw [List.drop_eq_nil_iff, b.toList_length]
    omega
  rw [Bytes.write, hrest, List.take_zero, List.nil_append, List.append_nil]
  exact (Codec.bytes n).dec_enc_self c

/-- Two halves, one after the other. -/
theorem Bytes.write_halves (b : Bytes 64) (x y : Bytes 32) :
    ((b.write 0 x.toList).write 32 y.toList).toList = x.toList ++ y.toList := by
  have hx := x.toList_length
  have hy := y.toList_length
  have hb := b.toList_length
  have hkeep : ∀ bytes : List UInt8, bytes.length = 64 → ((Codec.bytes 64).dec bytes).toList = bytes :=
    fun _ hlen => (Codec.bytes 64).enc_dec_self hlen
  have hfirst : (b.write 0 x.toList).toList = x.toList ++ b.toList.drop 32 := by
    rw [Bytes.write, List.take_zero, List.nil_append, hx, Nat.zero_add]
    exact hkeep _ (by rw [List.length_append, List.length_drop, hx, hb])
  have hrest : (x.toList ++ b.toList.drop 32).drop (32 + y.toList.length) = [] := by
    rw [List.drop_eq_nil_iff, List.length_append, List.length_drop, hx, hy, hb]
  rw [Bytes.write, hfirst, hrest, List.append_nil, List.take_append_of_le_length hx.ge,
    List.take_of_length_le hx.le]
  exact hkeep _ (by rw [List.length_append, hx, hy])

/-- The part of a digest that `tag` has room for. -/
theorem Bytes.toList_write_tag (b : Bytes 16) (digest : Bytes 32) :
    (b.write 0 digest.toList).toList = digest.toList.take 16 := by
  have hlen := digest.toList_length
  have hrest : b.toList.drop (0 + digest.toList.length) = [] := by
    rw [List.drop_eq_nil_iff, b.toList_length, hlen]
    omega
  have hroom : (Codec.bytes 16).size ≤ digest.toList.length := by
    rw [hlen]
    show 16 ≤ 32
    decide
  have hhalf : (digest.toList.take 16).length = 16 := by rw [List.length_take, hlen]; rfl
  rw [Bytes.write, hrest, List.take_zero, List.nil_append, List.append_nil, ← Codec.dec_take _ hroom]
  exact (Codec.bytes 16).enc_dec_self hhalf

/-! ## What the helpers do -/

theorem readBuffer_apply {n : Nat} (b : FrameBuffer n) (fr : HmacFrame) : readBuffer b fr = (.ok (b.get fr), fr) := rfl

/-- A write that fits. -/
theorem writeBuffer_apply {n : Nat} (b : FrameBuffer n) {off : Nat} {data : List UInt8} (h : off + data.length ≤ n)
    (fr : HmacFrame) : writeBuffer b off data fr = (.ok (), b.set ((b.get fr).write off data) fr) := by
  show ((.ok (), if off + data.length ≤ n then _ else _) : Except Errno Unit × HmacFrame) = _
  rw [if_pos h]

/-- A write past the end is put on record. -/
theorem writeBuffer_overrun {n : Nat} (b : FrameBuffer n) {off : Nat} {data : List UInt8} (h : n < off + data.length)
    (fr : HmacFrame) : writeBuffer b off data fr =
      (.ok (), { b.set ((b.get fr).write off data) fr with
        overruns := b.name :: (b.set ((b.get fr).write off data) fr).overruns }) := by
  show ((.ok (), if off + data.length ≤ n then _ else _) : Except Errno Unit × HmacFrame) = _
  rw [if_neg (by omega)]

/-- A whole buffer. -/
theorem writeBuffer_whole {n : Nat} (b : FrameBuffer n) (data : Bytes n) (fr : HmacFrame) :
    writeBuffer b 0 data.toList fr = (.ok (), b.set data fr) := by
  rw [writeBuffer_apply b (by rw [data.toList_length, Nat.zero_add]), Bytes.write_whole]

/-- Z, where it can be computed. -/
def Crypto.sharedSecret (K : Crypto) (cred : Credential) (req : GetAssertReq) : Except Errno (Bytes 32) :=
  (K.ecdh cred.privKey req.hmacKeyAgreement).bind fun x => K.sha256 x.toList

section
variable {K : Crypto} {cred : Credential} {req : GetAssertReq} {z t : Bytes 32}

theorem ecdhP256_ok (hz : K.sharedSecret cred req = .ok z) (fr : HmacFrame) :
    ecdhP256 K cred.privKey req.hmacKeyAgreement fr = (.ok (), { fr with rawX := zeros 32, shared := z }) := by
  unfold Crypto.sharedSecret at hz
  cases hx : K.ecdh cred.privKey req.hmacKeyAgreement with
  | error e => rw [hx] at hz; cases hz
  | ok x =>
    rw [hx] at hz
    have hdigest : K.sha256 x.toList = .ok z := hz
    simp only [ecdhP256, hx, ofResult, Prog.bind_apply, Prog.pure_apply, readBuffer_apply, writeBuffer_whole,
      FrameBuffer.rawX, FrameBuffer.shared, hdigest]

theorem ecdhP256_error {e : Errno} (hz : K.sharedSecret cred req = .error e) (fr : HmacFrame) :
    ∃ fr', ecdhP256 K cred.privKey req.hmacKeyAgreement fr = (.error e, fr') ∧ fr'.overruns = fr.overruns := by
  unfold Crypto.sharedSecret at hz
  cases hx : K.ecdh cred.privKey req.hmacKeyAgreement with
  | error e' =>
    rw [hx] at hz
    cases hz
    exact ⟨fr, by simp only [ecdhP256, hx, ofResult, Prog.bind_apply, Prog.throw], rfl⟩
  | ok x =>
    rw [hx] at hz
    have hdigest : K.sha256 x.toList = .error e := hz
    refine ⟨{ fr with rawX := x }, ?_, rfl⟩
    simp only [ecdhP256, hx, ofResult, Prog.bind_apply, Prog.pure_apply, readBuffer_apply, writeBuffer_whole,
      FrameBuffer.rawX, hdigest, Prog.throw]

/-- A digest overruns `tag`. -/
theorem hmacSha256_tag {key : Bytes 32} {data : List UInt8} (ht : K.hmac key data = .ok t) (fr : HmacFrame) :
    hmacSha256 K key data .tag 0 fr =
      (.ok (), { fr with tag := fr.tag.write 0 t.toList, overruns := .tag :: fr.overruns }) := by
  have hlong : 16 < 0 + t.toList.length := by rw [t.toList_length]; decide
  simp only [hmacSha256, ht, ofResult, Prog.bind_apply, Prog.pure_apply, writeBuffer_overrun _ hlong]
  rfl

/-- Another digest, where it fits. -/
theorem hmacSha256_outputs {key : Bytes 32} {data : List UInt8} {off : Nat} (ht : K.hmac key data = .ok t)
    (hoff : off + 32 ≤ 64) (fr : HmacFrame) :
    hmacSha256 K key data .outputs off fr = (.ok (), { fr with outputs := fr.outputs.write off t.toList }) := by
  have hfit : off + t.toList.length ≤ 64 := by rw [t.toList_length]; exact hoff
  simp only [hmacSha256, ht, ofResult, Prog.bind_apply, Prog.pure_apply, writeBuffer_apply _ hfit]
  rfl

theorem aes256Cbc_ok {b : FrameBuffer 64} {encrypt : Bool} {out : Bytes 64} {fr : HmacFrame}
    (h : K.aesCbc encrypt z (zeros 16) (b.get fr) = .ok out) :
    aes256Cbc K z b encrypt fr = (.ok (), b.set out fr) := by
  simp only [aes256Cbc, Prog.bind_apply, readBuffer_apply, h, ofResult, Prog.pure_apply, writeBuffer_whole]

/-! ## What is computed -/

/-- What the output is to be. -/
def Crypto.Answers (K : Crypto) (cred : Credential) (req : GetAssertReq) (out : Bytes 64) : Prop :=
  ∃ z salts both d d', K.sharedSecret cred req = .ok z ∧ K.aesCbc false z (zeros 16) req.hmacSaltEnc = .ok salts ∧
    K.hmac cred.hmacSecret (salts.toList.take 32) = .ok d ∧ K.hmac cred.hmacSecret (salts.toList.drop 32) = .ok d' ∧
    both.toList = d.toList ++ d'.toList ∧ K.aesCbc true z (zeros 16) both = .ok out

/-- From authentic salts the answer is computed, in bounds. -/
theorem hmacOutputs_ok (fr : HmacFrame) {salts both out : Bytes 64} {d d' : Bytes 32}
    (hsalts : K.aesCbc false z (zeros 16) fr.hmacSaltEnc = .ok salts)
    (hd : K.hmac cred.hmacSecret (salts.toList.take 32) = .ok d)
    (hd' : K.hmac cred.hmacSecret (salts.toList.drop 32) = .ok d') (hboth : both.toList = d.toList ++ d'.toList)
    (hout : K.aesCbc true z (zeros 16) both = .ok out) :
    ∃ fr', hmacOutputs K cred z fr = (.ok (), fr') ∧ fr'.output = out ∧ fr'.overruns = fr.overruns := by
  have hjoined : ∀ b : Bytes 64, (b.write 0 d.toList).write 32 d'.toList = both := fun b =>
    Subtype.ext ((Bytes.write_halves b d d').trans hboth.symm)
  have hdec : aes256Cbc K z .hmacSaltEnc false fr = (.ok (), FrameBuffer.hmacSaltEnc.set salts fr) :=
    aes256Cbc_ok hsalts
  let salted : HmacFrame := FrameBuffer.salt.set salts (FrameBuffer.hmacSaltEnc.set salts fr)
  let filled : HmacFrame := { salted with outputs := both }
  have henc : aes256Cbc K z .outputs true filled = (.ok (), FrameBuffer.outputs.set out filled) := aes256Cbc_ok hout
  have hfill : hmacSha256 K cred.hmacSecret (salts.toList.drop 32) .outputs 32
      { salted with outputs := salted.outputs.write 0 d.toList } = (.ok (), filled) := by
    rw [hmacSha256_outputs hd' (by decide)]
    simp only [hjoined, filled]
  have hfirst := hmacSha256_outputs hd (show 0 + 32 ≤ 64 by decide) salted
  refine ⟨FrameBuffer.output.set out (FrameBuffer.outputs.set out filled), ?_, rfl, rfl⟩
  refine (Prog.bind_ok hdec).trans ?_
  refine (Prog.bind_ok (readBuffer_apply _ _)).trans ?_
  refine (Prog.bind_ok (writeBuffer_whole _ _ _)).trans ?_
  refine (Prog.bind_ok (readBuffer_apply _ _)).trans ?_
  refine (Prog.bind_ok hfirst).trans ?_
  refine (Prog.bind_ok hfill).trans ?_
  refine (Prog.bind_ok henc).trans ?_
  refine (Prog.bind_ok (readBuffer_apply _ _)).trans ?_
  exact writeBuffer_whole _ _ _

/-- What is compared with `saltAuth`, and when. -/
theorem hmacGetSecretBody_tagged {fr : HmacFrame} (hz : K.sharedSecret cred req = .ok z)
    (ht : K.hmac z req.hmacSaltEnc.toList = .ok t) :
    hmacGetSecretBody K cred req (fr.enter req) =
      (if fr.tag.write 0 t.toList ≠ req.hmacSaltAuth then Prog.throw .einval else hmacOutputs K cred z)
        { fr.enter req with rawX := zeros 32, shared := z, tag := fr.tag.write 0 t.toList, overruns := [.tag] } := by
  refine (Prog.bind_ok (ecdhP256_ok hz _)).trans ?_
  refine (Prog.bind_ok (readBuffer_apply _ _)).trans ?_
  refine (Prog.bind_ok (readBuffer_apply _ _)).trans ?_
  refine (Prog.bind_ok (hmacSha256_tag ht _)).trans ?_
  exact Prog.bind_ok (readBuffer_apply _ _)

/-- There is no digest to compare. -/
theorem hmacGetSecretBody_untagged {fr : HmacFrame} {e : Errno} (hz : K.sharedSecret cred req = .ok z)
    (ht : K.hmac z req.hmacSaltEnc.toList = .error e) :
    hmacGetSecretBody K cred req (fr.enter req) =
      (.error e, { fr.enter req with rawX := zeros 32, shared := z }) := by
  refine (Prog.bind_ok (ecdhP256_ok hz _)).trans ?_
  refine (Prog.bind_ok (readBuffer_apply _ _)).trans ?_
  refine (Prog.bind_ok (readBuffer_apply _ _)).trans ?_
  refine Prog.bind_error ?_
  show (ofResult (K.hmac z req.hmacSaltEnc.toList) >>= _) _ = _
  rw [ht]
  rfl

/-- **The right bytes come out**: the answer is given whenever the salts are
authentic, and `tag` alone is overrun. -/
theorem hmacGetSecretLocked_computes {fr : HmacFrame} {salts both out : Bytes 64} {d d' : Bytes 32}
    (hsecret : cred.hmacSecret ≠ zeros 32) (hz : K.sharedSecret cred req = .ok z)
    (ht : K.hmac z req.hmacSaltEnc.toList = .ok t) (hauth : t.toList.take 16 = req.hmacSaltAuth.toList)
    (hsalts : K.aesCbc false z (zeros 16) req.hmacSaltEnc = .ok salts)
    (hd : K.hmac cred.hmacSecret (salts.toList.take 32) = .ok d)
    (hd' : K.hmac cred.hmacSecret (salts.toList.drop 32) = .ok d') (hboth : both.toList = d.toList ++ d'.toList)
    (hout : K.aesCbc true z (zeros 16) both = .ok out) :
    (hmacGetSecretLocked K cred req fr).1 = .ok () ∧ (hmacGetSecretLocked K cred req fr).2.output = out ∧
      (hmacGetSecretLocked K cred req fr).2.overruns = [.tag] := by
  have htag : fr.tag.write 0 t.toList = req.hmacSaltAuth :=
    Subtype.ext ((Bytes.toList_write_tag fr.tag t).trans hauth)
  obtain ⟨fr', hrun, houtput, hover⟩ := hmacOutputs_ok { fr.enter req with
    rawX := zeros 32, shared := z, tag := fr.tag.write 0 t.toList, overruns := [.tag] } hsalts hd hd' hboth hout
  have hbody : hmacGetSecretBody K cred req (fr.enter req) = (.ok (), fr') := by
    rw [hmacGetSecretBody_tagged hz ht, if_neg (not_not_intro htag), hrun]
  simp only [hmacGetSecretLocked, if_neg hsecret, hbody]
  exact ⟨trivial, houtput, hover⟩

/-- To the command it is the answer. -/
theorem Crypto.hmacGetSecret_ok {fr : HmacFrame} {out : Bytes 64}
    (hret : (hmacGetSecretLocked K cred req fr).1 = .ok ()) (hout : (hmacGetSecretLocked K cred req fr).2.output = out) :
    K.hmacGetSecret fr cred req = .ok out := by
  rw [Crypto.hmacGetSecret, hret, hout]
  rfl

/-! ## What is overrun -/

/-- What is on record stays on record. -/
def overrunsGrow : Motion Errno HmacFrame where
  Rel fr fr' := fr.overruns <:+ fr'.overruns
  Err _ _ _ := True
  refl _ := List.suffix_rfl
  trans h h' := h.trans h'
  err_trans _ h := h

theorem writeBuffer_grows {n : Nat} (b : FrameBuffer n)
    (hset : ∀ data fr, (b.set data fr).overruns = fr.overruns) (off : Nat) (data : List UInt8) :
    overrunsGrow.Keeps (writeBuffer b off data) := by
  intro fr
  refine ⟨?_, fun _ _ => trivial⟩
  by_cases h : off + data.length ≤ n
  · rw [writeBuffer_apply b h]
    show fr.overruns <:+ (b.set _ fr).overruns
    rw [hset]
  · rw [writeBuffer_overrun b (by omega)]
    show fr.overruns <:+ b.name :: (b.set _ fr).overruns
    rw [hset]
    exact List.suffix_cons _ _

theorem ofResult_grows {α : Type} (r : Except Errno α) : overrunsGrow.Keeps (ofResult r) := by
  cases r with
  | ok a => exact Motion.Keeps.pure a
  | error e => exact Motion.Keeps.throw fun _ => trivial

theorem readBuffer_grows {n : Nat} (b : FrameBuffer n) : overrunsGrow.Keeps (readBuffer b) := fun _ =>
  ⟨List.suffix_rfl, fun _ _ => trivial⟩

theorem hmacSha256_grows {n : Nat} (key : Bytes 32) (data : List UInt8) (out : FrameBuffer n)
    (hset : ∀ data fr, (out.set data fr).overruns = fr.overruns) (off : Nat) :
    overrunsGrow.Keeps (hmacSha256 K key data out off) :=
  (ofResult_grows _).bind fun _ => writeBuffer_grows out hset _ _

theorem aes256Cbc_grows (key : Bytes 32) (inout : FrameBuffer 64)
    (hset : ∀ data fr, (inout.set data fr).overruns = fr.overruns) (encrypt : Bool) :
    overrunsGrow.Keeps (aes256Cbc K key inout encrypt) :=
  (readBuffer_grows _).bind fun _ => (ofResult_grows _).bind fun _ => writeBuffer_grows inout hset _ _

theorem hmacOutputs_grows (cred : Credential) (shared : Bytes 32) : overrunsGrow.Keeps (hmacOutputs K cred shared) := by
  unfold hmacOutputs
  refine (aes256Cbc_grows _ _ (fun _ _ => rfl) _).bind fun _ => (readBuffer_grows _).bind fun _ => ?_
  refine (writeBuffer_grows _ (fun _ _ => rfl) _ _).bind fun _ => (readBuffer_grows _).bind fun _ => ?_
  refine (hmacSha256_grows _ _ _ (fun _ _ => rfl) _).bind fun _ => ?_
  refine (hmacSha256_grows _ _ _ (fun _ _ => rfl) _).bind fun _ => ?_
  refine (aes256Cbc_grows _ _ (fun _ _ => rfl) _).bind fun _ => (readBuffer_grows _).bind fun _ => ?_
  exact writeBuffer_grows _ (fun _ _ => rfl) _ _

/-- Once a digest is there to compare, `tag` is overrun. -/
theorem tag_overrun {fr : HmacFrame} (hz : K.sharedSecret cred req = .ok z)
    (ht : K.hmac z req.hmacSaltEnc.toList = .ok t) :
    (hmacGetSecretBody K cred req (fr.enter req)).2.overruns ≠ [] := by
  rw [hmacGetSecretBody_tagged hz ht]
  split
  · exact List.cons_ne_nil _ _
  · obtain ⟨hgrows, -⟩ := hmacOutputs_grows (K := K) cred z
      { fr.enter req with rawX := zeros 32, shared := z, tag := fr.tag.write 0 t.toList, overruns := [.tag] }
    intro hnil
    change [Buffer.tag] <:+ (hmacOutputs K cred z _).2.overruns at hgrows
    rw [hnil] at hgrows
    exact absurd (List.suffix_nil.mp hgrows) (List.cons_ne_nil _ _)

theorem hmacGetSecretLocked_overrun {fr : HmacFrame} (hsecret : cred.hmacSecret ≠ zeros 32)
    (hz : K.sharedSecret cred req = .ok z) (ht : K.hmac z req.hmacSaltEnc.toList = .ok t) :
    (hmacGetSecretLocked K cred req fr).2.overruns ≠ [] := by
  rw [hmacGetSecretLocked, if_neg hsecret]
  exact tag_overrun hz ht

/-- The platform knew Z: `saltAuth` is what it is to be. -/
def Crypto.Authentic (K : Crypto) (cred : Credential) (req : GetAssertReq) : Prop :=
  ∃ z t, K.sharedSecret cred req = .ok z ∧ K.hmac z req.hmacSaltEnc.toList = .ok t ∧
    t.toList.take 16 = req.hmacSaltAuth.toList

/-- No one else gets an answer. -/
theorem authentic_of_ok {fr : HmacFrame} (h : (hmacGetSecretLocked K cred req fr).1 = .ok ()) : K.Authentic cred req := by
  simp only [hmacGetSecretLocked] at h
  split at h
  · cases h
  cases hz : K.sharedSecret cred req with
  | error e =>
    obtain ⟨fr', hrun, -⟩ := ecdhP256_error hz (fr.enter req)
    have hbody : hmacGetSecretBody K cred req (fr.enter req) = (.error e, fr') := Prog.bind_error hrun
    rw [hbody] at h
    cases h
  | ok z =>
    cases ht : K.hmac z req.hmacSaltEnc.toList with
    | error e =>
      have hbody : (hmacGetSecretBody K cred req (fr.enter req)).1 = .error e := by
        rw [hmacGetSecretBody_untagged hz ht]
      rw [hbody] at h
      cases h
    | ok t =>
      rw [hmacGetSecretBody_tagged hz ht] at h
      split at h
      · cases h
      next htag =>
      have hsame : fr.tag.write 0 t.toList = req.hmacSaltAuth := not_not.mp htag
      refine ⟨z, t, hz, ht, ?_⟩
      rw [← Bytes.toList_write_tag fr.tag t, hsame]

/-- Nothing is written past the end of a buffer, and what is returned is as it is to be. -/
structure HmacExact (K : Crypto) (cred : Credential) (req : GetAssertReq) (fr : HmacFrame) : Prop where
  inBounds : (hmacGetSecretLocked K cred req fr).2.overruns = []
  accepts : (hmacGetSecretLocked K cred req fr).1 = .ok () ↔ K.Authentic cred req
  answers : (hmacGetSecretLocked K cred req fr).1 = .ok () →
    K.Answers cred req (hmacGetSecretLocked K cred req fr).2.output

end

/-- **No digest fits in `tag`**: the call is exact and in bounds only when it
fails before there is a digest, in the key agreement or in the first HMAC. -/
theorem hmacExact_iff (K : Crypto) (cred : Credential) (req : GetAssertReq) (fr : HmacFrame)
    (hsecret : cred.hmacSecret ≠ zeros 32) :
    HmacExact K cred req fr ↔
      ∀ z t, K.sharedSecret cred req = .ok z → K.hmac z req.hmacSaltEnc.toList ≠ .ok t := by
  have hlocked : hmacGetSecretLocked K cred req fr =
      ((hmacGetSecretBody K cred req (fr.enter req)).1, (hmacGetSecretBody K cred req (fr.enter req)).2.wipe) :=
    if_neg hsecret
  constructor
  · intro hexact z t hz ht
    exact hmacGetSecretLocked_overrun hsecret hz ht hexact.inBounds
  · intro hfails
    have hforged : ¬ K.Authentic cred req := fun ⟨z, t, hz, ht, _⟩ => hfails z t hz ht
    obtain ⟨e, fr', hrun, hover⟩ : ∃ e fr', hmacGetSecretBody K cred req (fr.enter req) = (.error e, fr') ∧
        fr'.overruns = [] := by
      cases hz : K.sharedSecret cred req with
      | error e =>
        obtain ⟨fr', hrun, hover⟩ := ecdhP256_error hz (fr.enter req)
        exact ⟨e, fr', Prog.bind_error hrun, hover⟩
      | ok z =>
        cases ht : K.hmac z req.hmacSaltEnc.toList with
        | ok t => exact absurd ht (hfails z t hz)
        | error e =>
          exact ⟨e, _, hmacGetSecretBody_untagged hz ht, rfl⟩
    have hone : (hmacGetSecretLocked K cred req fr).1 ≠ .ok () := by
      rw [hlocked, hrun]
      intro hok
      cases hok
    refine ⟨?_, ⟨fun hok => absurd hok hone, fun hauth => absurd hauth hforged⟩, fun hok => absurd hok hone⟩
    rw [hlocked, hrun]
    exact hover

/-! ## A call -/

/-- A platform that the card does not understand: the point is refused. -/
def Crypto.refusing : Crypto where
  ecdh _ _ := .error .einval
  sha256 _ := .ok (zeros 32)
  hmac _ _ := .ok (zeros 32)
  aesCbc _ _ _ b := .ok b

/-- Primitives that always succeed. -/
def Crypto.plain : Crypto := { Crypto.refusing with ecdh := fun _ _ => .ok (zeros 32) }

def secretCredential : Credential := { Credential.zero with hmacSecret := .replicate 32 1 }

def HmacFrame.blank : HmacFrame :=
  ⟨zeros 32, zeros 32, zeros 64, zeros 16, zeros 64, zeros 64, zeros 64, []⟩

theorem hmacExact_refused : HmacExact .refusing secretCredential .zero .blank :=
  (hmacExact_iff .refusing secretCredential .zero .blank (by decide)).mpr fun z t hz => by cases hz

/-- An authentic input overruns `tag`. -/
theorem not_hmacExact_plain : ¬ HmacExact .plain secretCredential .zero .blank := fun h =>
  hmacGetSecretLocked_overrun (z := zeros 32) (t := zeros 32) (by decide) rfl rfl h.inBounds

end AbkFido
