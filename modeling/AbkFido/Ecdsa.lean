/-
`abk_fido_ecdsa_sign_p256`.

The arrays of digits are little-endian, those of bytes big-endian; of each
array of `ECC_MAX_DIGITS` digits only the first four are used and modelled.
Every store into an array looks at its end, so that one past it would be seen
(`Fault.overrun`). The kernel's own arithmetic is a parameter (`Kernel`), with
what its documentation says of it (`Kernel.Correct`); its private and public
keys are strings of bytes, as in 5.15 and 6.1.
-/
import AbkFido.Basic
import AbkFido.Lib.CborForm
import AbkFido.Lib.P256

namespace AbkFido.Ecdsa

open CborForm

/-! ## Arrays -/

/-- Why signing stops: the negative return value, a store or a load past the
end of an array, or too few rounds for the loop that reduces `r`. -/
inductive Fault
  | errno (e : Errno)
  | overrun
  | rounds
  deriving DecidableEq

section Arrays

variable {α : Type} {n : Nat}

/-- `memcpy(buf + off, data, …)` -/
def store (buf : List.Vector α n) (off : Nat) (data : List α) : Except Fault (List.Vector α n) :=
  if h : off + data.length ≤ n then
    .ok ⟨buf.toList.take off ++ data ++ buf.toList.drop (off + data.length), by simp; omega⟩
  else .error .overrun

/-- The same from `buf + off - 1` on, which may be before the array. -/
def storeBefore (buf : List.Vector α n) (off : Nat) (data : List α) : Except Fault (List.Vector α n) :=
  if off = 0 then .error .overrun else store buf (off - 1) data

/-- The `count` entries from `buf + off` on. -/
def load (buf : List.Vector α n) (off count : Nat) : Except Fault (List α) :=
  if off + count ≤ n then .ok ((buf.toList.drop off).take count) else .error .overrun

/-- `memmove(buf + off, buf + src, count)` -/
def move (buf : List.Vector α n) (off src count : Nat) : Except Fault (List.Vector α n) := do
  store buf off (← load buf src count)

end Arrays

/-! ## Numbers -/

/-- `u64 x[ECC_CURVE_NIST_P256_DIGITS]`, the lowest digit first. -/
abbrev Digits := List.Vector UInt64 4

/-- The number that digits stand for. -/
def value : List UInt64 → Nat
  | [] => 0
  | digit :: digits => digit.toNat + 2 ^ 64 * value digits

/-- What the driver uses of `crypto/ecc.c`, for NIST P-256. -/
structure Kernel where
  /-- `ecc_get_curve(ECC_CURVE_NIST_P256)->n`, if there is a curve -/
  curve : Option Digits
  swapDigits : (ndigits : Nat) → List UInt8 → List.Vector UInt64 ndigits
  makePubKey : Bytes 32 → Except Errno (Bytes 64)
  vliCmp : Digits → Digits → Int
  vliSub : Digits → Digits → Digits
  vliIsZero : Digits → Bool
  vliModMultSlow : Digits → Digits → Digits → Digits
  vliModInv : Digits → Digits → Digits

/-- What they are documented to compute. -/
structure Kernel.Correct (K : Kernel) : Prop where
  curve : ∀ n, K.curve = some n → value n.toList = P256.n
  swapDigits : ∀ ndigits bytes, bytes.length = 8 * ndigits → value (K.swapDigits ndigits bytes).toList = ofBigEndian bytes
  makePubKey : ∀ k pub, ofBigEndian k.toList ∈ Set.Ico 1 P256.n → K.makePubKey k = .ok pub →
    ∃ x y h, ofBigEndian k.toList • P256.base = .some x y h ∧ pub.toList = bigEndian 32 x.val ++ bigEndian 32 y.val
  vliCmp : ∀ a b, K.vliCmp a b = (value a.toList - value b.toList : Int).sign
  vliSub : ∀ a b, value (K.vliSub a b).toList = (value a.toList + (2 ^ 256 - value b.toList)) % 2 ^ 256
  vliIsZero : ∀ a, K.vliIsZero a = decide (value a.toList = 0)
  vliModMultSlow : ∀ a b n, value n.toList = P256.n →
    value (K.vliModMultSlow a b n).toList = value a.toList * value b.toList % P256.n
  vliModInv : ∀ a n, value n.toList = P256.n → value a.toList ∈ Set.Ico 1 P256.n →
    value (K.vliModInv a n).toList * value a.toList % P256.n = 1

variable (K : Kernel)

/-- `abk_fido_digits_from_bytes` -/
def digitsFromBytes {size : Nat} (bytes : List UInt8) (len : Nat) (digits : List.Vector UInt64 size) (ndigits : Nat) :
    Except Fault (List.Vector UInt64 size) := do
  let diff := ndigits - (len + 7) / 8
  let rem := len % 8
  let ndigits := ndigits - diff
  let digits ← if diff = 0 then pure digits else storeBefore digits ndigits (List.replicate diff 0)
  if rem = 0 then store digits 0 (K.swapDigits ndigits bytes).toList
  else
    let digits ← storeBefore digits ndigits [UInt64.ofNat (ofBigEndian (bytes.take rem))]
    store digits 0 (K.swapDigits (ndigits - 1) (bytes.drop rem)).toList

/-- `abk_fido_digits_to_bytes`, to the bytes from `off` on. -/
def digitsToBytes {size : Nat} (digits : List UInt64) (ndigits : Nat) (out : Bytes size) (off outLen : Nat) :
    Except Fault (Bytes size) := do
  let out ← store out off (List.replicate outLen 0)
  (List.range ndigits).foldlM (fun out i => store out (off + i * 8) (bigEndian 8 (digits.getD (ndigits - 1 - i) 0).toNat)) out

/-- The loop of `abk_fido_vli_add`: the digits of the sum and the last carry. -/
def addDigits : UInt64 → List UInt64 → List UInt64 → List UInt64 × UInt64
  | carry, left :: lefts, right :: rights =>
    let prev := left + carry
    let sum := prev + right
    let (sums, last) := addDigits (if prev < left ∨ sum < prev then 1 else 0) lefts rights
    (sum :: sums, last)
  | carry, _, _ => ([], carry)

theorem length_addDigits (carry : UInt64) {lefts rights : List UInt64} (h : lefts.length = rights.length) :
    (addDigits carry lefts rights).1.length = lefts.length := by
  induction lefts generalizing carry rights with
  | nil => cases rights <;> rfl
  | cons left lefts ih =>
    cases rights with
    | nil => cases h
    | cons right rights => exact congrArg Nat.succ (ih _ (Nat.succ.inj h))

/-- `abk_fido_vli_add`: the result and what it returns. -/
def vliAdd (left right : Digits) : Digits × UInt64 :=
  (⟨(addDigits 0 left.toList right.toList).1, by rw [length_addDigits 0 (by simp)]; simp⟩,
    (addDigits 0 left.toList right.toList).2)

/-- `abk_fido_vli_mod_add` -/
def vliModAdd (left right mod : Digits) : Digits :=
  let (result, carry) := vliAdd left right
  if carry ≠ 0 ∨ K.vliCmp result mod ≥ 0 then K.vliSub result mod else result

/-! ## Signing -/

/-- `while (vli_cmp(r, curve->n, ndigits) >= 0) vli_sub(r, r, curve->n, ndigits);` -/
def reduce (n : Digits) : Nat → Digits → Except Fault Digits
  | 0, _ => .error .rounds
  | rounds + 1, r => if K.vliCmp r n ≥ 0 then reduce n rounds (K.vliSub r n) else pure r

/-- `u64 x[ECC_MAX_DIGITS] = {}` -/
def zeroDigits : Digits := List.Vector.replicate 4 0

/-- What one nonce gives: `r` and `s`, or nothing where the loop continues. -/
def attempt (rounds : Nat) (n d z : Digits) (k : Bytes 32) : Except Fault (Option (Digits × Digits)) :=
  match K.makePubKey k with
  | .error _ => pure none
  | .ok pub => do
    let r ← digitsFromBytes K (pub.toList.take 32) 32 zeroDigits 4
    let r ← reduce K n rounds r
    if K.vliIsZero r then pure none
    else
      let rd := K.vliModMultSlow r d n
      let sum := vliModAdd K z rd n
      if K.vliIsZero sum then pure none
      else
        let kInt ← digitsFromBytes K k.toList 32 zeroDigits 4
        let kinv := K.vliModInv kInt n
        let s := K.vliModMultSlow kinv sum n
        if K.vliIsZero s then pure none else pure (some (r, s))

def eagain : Errno := .other 11

/-- The loop over the nonces, so many of which are left; `nonces` is what the
calls of `ecc_gen_privkey` give. -/
def tryNonces (rounds : Nat) (n d z : Digits) (nonces : Nat → Except Errno (Bytes 32)) :
    (left tries : Nat) → Except Fault (Digits × Digits)
  | 0, _ => .error (.errno eagain)
  | left + 1, tries =>
    match nonces tries with
    | .error e => .error (.errno e)
    | .ok k => do
      match ← attempt K rounds n d z k with
      | some rs => pure rs
      | none => tryNonces rounds n d z nonces left (tries + 1)

/-- The loop that drops leading zeros, of `enc_r` and of `enc_s`. -/
def strip {size : Nat} : Nat → Bytes size → Except Fault (Bytes size × Nat)
  | 0, enc => pure (enc, 0)
  | len + 1, enc =>
    if len + 1 > 1 ∧ enc.toList.getD 0 0 = 0 ∧ enc.toList.getD 1 0 &&& 0x80 = 0 then do
      strip len (← move enc 0 1 len)
    else pure (enc, len + 1)

/-- What is done to `enc_r` and to `enc_s`, from 32 bytes of `raw_rs` on. -/
def encodeInteger (raw : Bytes 64) (off : Nat) (enc : Bytes 33) : Except Fault (Bytes 33 × Nat) := do
  let enc ← store enc 1 (← load raw off 32)
  if enc.toList.getD 1 0 &&& 0x80 ≠ 0 then
    strip 33 (← store enc 0 [0x00])
  else strip 32 (← move enc 0 1 32)

/-- The arrays on the stack that are not initialized. -/
structure Locals where
  rawRs : Bytes 64
  encR : Bytes 33
  encS : Bytes 33

/-- From `r` and `s` on: what `sig_der` and `sig_len` are. -/
def encodeSig (locals : Locals) (r s : Digits) (sigDer : Bytes maxSigDer) : Except Fault (Bytes maxSigDer × Nat) := do
  let raw ← digitsToBytes r.toList 4 locals.rawRs 0 32
  let raw ← digitsToBytes s.toList 4 raw 32 32
  let (encR, rLen) ← encodeInteger raw 0 locals.encR
  let (encS, sLen) ← encodeInteger raw 32 locals.encS
  if 6 + rLen + sLen > maxSigDer then .error (.errno .eoverflow)
  else
    let sig ← store sigDer 0 [0x30]
    let sig ← store sig 1 [UInt8.ofNat (4 + rLen + sLen)]
    let sig ← store sig 2 [0x02]
    let sig ← store sig 3 [UInt8.ofNat rLen]
    let sig ← store sig 4 (← load encR 0 rLen)
    let sig ← store sig (4 + rLen) [0x02]
    let sig ← store sig (5 + rLen) [UInt8.ofNat sLen]
    let sig ← store sig (6 + rLen) (← load encS 0 sLen)
    pure (sig, 6 + rLen + sLen)

/-- `abk_fido_ecdsa_sign_p256`; `sigLen` says whether there is a place for the length. -/
def sign (rounds : Nat) (nonces : Nat → Except Errno (Bytes 32)) (locals : Locals) (priv hash : Bytes 32)
    (sigDer : Bytes maxSigDer) (sigLen : Bool) : Except Fault (Bytes maxSigDer × Nat) :=
  match K.curve with
  | none => .error (.errno .einval)
  | some n =>
    if !sigLen then .error (.errno .einval)
    else do
      let d ← digitsFromBytes K priv.toList 32 zeroDigits 4
      let z ← digitsFromBytes K hash.toList 32 zeroDigits 4
      let (r, s) ← tryNonces K rounds n d z nonces 16 0
      encodeSig locals r s sigDer

end AbkFido.Ecdsa
