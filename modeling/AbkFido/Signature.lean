/-
What `abk_fido_ecdsa_sign_p256` returns is an ECDSA signature in DER
(`sign_correct`).

A hash at or above the order is not reduced before it is added; the sum is
reduced once, so it may still be above the order, and the multiplication that
follows reduces it. Zeros are left out where they are not the sign, one at a
time from the front.
-/
import AbkFido.Ecdsa
import AbkFido.HidFacts
import AbkFido.Lib.Der
import Mathlib.FieldTheory.Finite.Basic

namespace AbkFido.Ecdsa

open CborForm

/-! ## Arrays -/

section Arrays

variable {α : Type} {n : Nat}

theorem store_fits (buf : List.Vector α n) {off : Nat} {data : List α} (h : off + data.length ≤ n) :
    ∃ buf', store buf off data = .ok buf' ∧
      buf'.toList = buf.toList.take off ++ data ++ buf.toList.drop (off + data.length) :=
  ⟨_, dif_pos h, rfl⟩

theorem load_fits {buf : List.Vector α n} {off count : Nat} (h : off + count ≤ n) :
    load buf off count = .ok ((buf.toList.drop off).take count) :=
  if_pos h

/-- Pieces of eight bytes, one after another. -/
theorem foldlM_store (out : Bytes n) {off : Nat} {piece : Nat → List UInt8} (hpiece : ∀ i, (piece i).length = 8) (m : Nat)
    (h : off + 8 * m ≤ n) : ∃ out', (List.range m).foldlM (fun out i => store out (off + i * 8) (piece i)) out = .ok out' ∧
      out'.toList = out.toList.take off ++ (List.range m).flatMap piece ++ out.toList.drop (off + 8 * m) := by
  have hlen : ∀ m, ((List.range m).flatMap piece).length = 8 * m := by
    intro m
    rw [List.length_flatMap]
    simp [hpiece, Nat.mul_comm]
  induction m with
  | zero => exact ⟨out, rfl, by simp⟩
  | succ m ih =>
    obtain ⟨out', hrun, hlist⟩ := ih (by omega)
    have htake : (out.toList.take off).length = off := by
      rw [List.length_take, List.Vector.toList_length]
      omega
    have hfront : (out.toList.take off ++ (List.range m).flatMap piece).length = off + m * 8 := by
      rw [List.length_append, htake, hlen, Nat.mul_comm]
    obtain ⟨out'', hstore, hlist'⟩ := store_fits out' (show off + m * 8 + (piece m).length ≤ n by rw [hpiece]; omega)
    refine ⟨out'', ?_, ?_⟩
    · rw [List.range_succ, List.foldlM_append, hrun]
      simp only [List.foldlM_cons, List.foldlM_nil, bind_pure]
      exact hstore
    · have hdrop : (out.toList.take off ++ (List.range m).flatMap piece ++ out.toList.drop (off + 8 * m)).drop
          (off + m * 8 + 8) = out.toList.drop (off + 8 * (m + 1)) := by
        have hrest : off + 8 * m + 8 = off + 8 * (m + 1) := by omega
        rw [← hfront, List.drop_length_add_append, List.drop_drop, hrest]
      rw [hlist', hlist, List.take_left' hfront, hpiece, hdrop, List.range_succ, List.flatMap_append, List.flatMap_singleton,
        ← List.append_assoc]

end Arrays

/-! ## Numbers -/

theorem value_lt (digits : List UInt64) : value digits < 2 ^ (64 * digits.length) := by
  induction digits with
  | nil => exact Nat.one_pos
  | cons digit digits ih =>
    have hdigit := digit.toNat_lt
    rw [value, List.length_cons, Nat.mul_succ, Nat.pow_add, Nat.mul_comm (2 ^ (64 * _))]
    omega

theorem Digits.lt (digits : Digits) : value digits.toList < 2 ^ 256 := by
  have hlt := value_lt digits.toList
  rwa [List.Vector.toList_length] at hlt

/-- The carry out of a digit. -/
def carryOut (carry left right : UInt64) : UInt64 :=
  if left + carry < left ∨ left + carry + right < left + carry then 1 else 0

theorem add_digit {carry : UInt64} (left right : UInt64) (hcarry : carry.toNat ≤ 1) : (carryOut carry left right).toNat ≤ 1 ∧
    (left + carry + right).toNat + 2 ^ 64 * (carryOut carry left right).toNat =
      left.toNat + right.toNat + carry.toNat := by
  have hl := left.toNat_lt
  have hr := right.toNat_lt
  have hone : (1 : UInt64).toNat = 1 := rfl
  have hzero : (0 : UInt64).toNat = 0 := rfl
  rw [carryOut]
  simp only [UInt64.lt_iff_toNat_lt, UInt64.toNat_add]
  split <;> omega

theorem addDigits_cons (carry left right : UInt64) (lefts rights : List UInt64) :
    addDigits carry (left :: lefts) (right :: rights) =
      ((left + carry + right) :: (addDigits (carryOut carry left right) lefts rights).1,
        (addDigits (carryOut carry left right) lefts rights).2) := rfl

theorem value_addDigits {carry : UInt64} (hcarry : carry.toNat ≤ 1) {lefts rights : List UInt64}
    (hlen : lefts.length = rights.length) :
    value (addDigits carry lefts rights).1 + 2 ^ (64 * lefts.length) * (addDigits carry lefts rights).2.toNat =
      value lefts + value rights + carry.toNat := by
  induction lefts generalizing carry rights with
  | nil =>
    rw [List.length_eq_zero_iff.mp hlen.symm]
    simp [addDigits, value]
  | cons left lefts ih =>
    cases rights with
    | nil => cases hlen
    | cons right rights =>
      obtain ⟨hle, hdigit⟩ := add_digit left right hcarry
      have hrest := ih hle (Nat.succ.inj hlen)
      have hpow : 2 ^ (64 * (left :: lefts).length) = 2 ^ 64 * 2 ^ (64 * lefts.length) := by
        rw [List.length_cons, Nat.mul_succ, Nat.add_comm, Nat.pow_add]
      rw [hpow, Nat.mul_assoc, addDigits_cons, value, value, value]
      dsimp only
      omega

/-- The digits in the order of their bytes. -/
theorem ofBigEndian_digits (digits : List UInt64) :
    ofBigEndian (digits.reverse.flatMap fun digit => bigEndian 8 digit.toNat) = value digits := by
  induction digits with
  | nil => rfl
  | cons digit digits ih =>
    rw [List.reverse_cons, List.flatMap_append, List.flatMap_singleton, ofBigEndian_append, ih, length_bigEndian,
      ofBigEndian_bigEndian digit.toNat_lt, value, Nat.add_comm, Nat.mul_comm]
    rfl

variable {K : Kernel} {n d z r s : Digits}

theorem digitsFromBytes_eq (hK : K.Correct) {bytes : List UInt8} (h : bytes.length = 32) :
    ∃ digits, digitsFromBytes K bytes 32 zeroDigits 4 = .ok digits ∧ value digits.toList = ofBigEndian bytes := by
  obtain ⟨digits, hstore, hlist⟩ := store_fits zeroDigits
    (show 0 + (K.swapDigits 4 bytes).toList.length ≤ 4 by rw [List.Vector.toList_length])
  refine ⟨digits, hstore, ?_⟩
  rw [hlist, List.take_zero, List.nil_append, List.drop_eq_nil_of_le (by simp), List.append_nil, hK.swapDigits 4 bytes h]

theorem digitsToBytes_eq {size off : Nat} {out : Bytes size} (h : off + 32 ≤ size) (digits : Digits) :
    ∃ out', digitsToBytes digits.toList 4 out off 32 = .ok out' ∧
      out'.toList = out.toList.take off ++ bigEndian 32 (value digits.toList) ++ out.toList.drop (off + 32) := by
  obtain ⟨cleared, hclear, hlist⟩ := store_fits out
    (show off + (List.replicate 32 (0 : UInt8)).length ≤ size by rwa [List.length_replicate])
  obtain ⟨out', hrun, hlist'⟩ := foldlM_store cleared
    (fun i => length_bigEndian 8 (digits.toList.getD (4 - 1 - i) 0).toNat) 4 h
  refine ⟨out', ?_, ?_⟩
  · rw [digitsToBytes, hclear]
    exact hrun
  · have hoff : (out.toList.take off).length = off := by
      rw [List.length_take, List.Vector.toList_length]
      omega
    have hpieces : ((List.range 4).flatMap fun i => bigEndian 8 (digits.toList.getD (4 - 1 - i) 0).toNat) =
        bigEndian 32 (value digits.toList) := by
      have hlen := digits.toList_length
      have hbytes := bigEndian_ofBigEndian (digits.toList.reverse.flatMap fun digit => bigEndian 8 digit.toNat)
      rw [ofBigEndian_digits] at hbytes
      generalize digits.toList = ds at hlen hbytes ⊢
      match ds, hlen with
      | [d₀, d₁, d₂, d₃], _ => exact hbytes.symm
    have hdrop : (out.toList.take off ++ List.replicate 32 0).length = off + 32 := by
      rw [List.length_append, hoff, List.length_replicate]
    rw [hlist', hpieces, hlist, List.length_replicate, List.append_assoc (out.toList.take off), List.take_left' hoff,
      ← List.append_assoc (out.toList.take off), List.drop_left' hdrop]

theorem vliCmp_nonneg (hK : K.Correct) (a b : Digits) : K.vliCmp a b ≥ 0 ↔ value b.toList ≤ value a.toList := by
  rw [hK.vliCmp, ge_iff_le, Int.sign_nonneg_iff, Int.sub_nonneg, Int.ofNat_le]

theorem n_lt : P256.n < 2 ^ 256 := by decide

/-- A number that is not below the order is subtracted from at most once. -/
theorem vliModAdd_modEq (hK : K.Correct) (hn : value n.toList = P256.n) {rd : Digits} (hrd : value rd.toList < P256.n) :
    value (vliModAdd K z rd n).toList ≡ value z.toList + value rd.toList [MOD P256.n] := by
  have hvalue : value (vliAdd z rd).1.toList + 2 ^ 256 * (vliAdd z rd).2.toNat = value z.toList + value rd.toList := by
    have hadd := value_addDigits (show (0 : UInt64).toNat ≤ 1 by decide) (show z.toList.length = rd.toList.length by simp)
    rwa [List.Vector.toList_length] at hadd
  have hz := z.lt
  have hsum := (vliAdd z rd).1.lt
  have hrange := n_lt
  have hcarry : (vliAdd z rd).2 = 0 ↔ (vliAdd z rd).2.toNat = 0 := UInt64.toNat_inj.symm
  show value (if (vliAdd z rd).2 ≠ 0 ∨ K.vliCmp (vliAdd z rd).1 n ≥ 0 then K.vliSub (vliAdd z rd).1 n
    else (vliAdd z rd).1).toList ≡ _ [MOD P256.n]
  rw [← hvalue]
  split
  · next hover =>
    rw [ne_eq, hcarry, vliCmp_nonneg hK, hn] at hover
    have hsub : value (vliAdd z rd).1.toList + 2 ^ 256 * (vliAdd z rd).2.toNat =
        value (K.vliSub (vliAdd z rd).1 n).toList + P256.n := by
      rw [hK.vliSub, hn]
      omega
    rw [hsub]
    exact (Nat.add_mod_right _ _).symm
  · next hunder =>
    rw [not_or, not_not, hcarry] at hunder
    rw [hunder.1, Nat.mul_zero, Nat.add_zero]

/-- The loop that reduces `r` leaves the remainder, or it would have to go round more often. -/
theorem reduce_cases (hK : K.Correct) (hn : value n.toList = P256.n) (rounds : Nat) (r : Digits) :
    (∃ r', reduce K n rounds r = .ok r' ∧ value r'.toList = value r.toList % P256.n) ∨
      reduce K n rounds r = .error .rounds ∧ rounds * P256.n ≤ value r.toList := by
  have hrange := n_lt
  induction rounds generalizing r with
  | zero => exact .inr ⟨rfl, by rw [Nat.zero_mul]; exact Nat.zero_le _⟩
  | succ rounds ih =>
    have hr := r.lt
    by_cases hge : K.vliCmp r n ≥ 0
    · have hle := (vliCmp_nonneg hK r n).mp hge
      have hsub : value (K.vliSub r n).toList = value r.toList - P256.n := by
        rw [hK.vliSub, hn]
        rw [hn] at hle
        omega
      rw [hn] at hle
      rw [reduce, if_pos hge, Nat.mod_eq_sub_mod hle, ← hsub, Nat.succ_mul]
      rcases ih (K.vliSub r n) with h | ⟨h, hrounds⟩
      · exact .inl h
      · exact .inr ⟨h, by omega⟩
    · rw [reduce, if_neg hge]
      rw [vliCmp_nonneg hK, hn, not_le] at hge
      exact .inl ⟨r, rfl, (Nat.mod_eq_of_lt hge).symm⟩

/-! ## Outcomes -/

/-- A result with `P`, or an error number; the loop that reduces `r` is only
ever short of rounds where there are fewer than two. -/
inductive Ends {α : Type} (rounds : Nat) (P : α → Prop) : Except Fault α → Prop
  | ok {a : α} (h : P a) : Ends rounds P (.ok a)
  | errno {e : Errno} : Ends rounds P (.error (.errno e))
  | rounds (h : rounds < 2) : Ends rounds P (.error .rounds)

section Ends

variable {α β : Type} {rounds : Nat} {P : α → Prop} {Q : β → Prop} {m : Except Fault α}

theorem Ends.bind {f : α → Except Fault β} (hm : Ends rounds P m) (hf : ∀ a, P a → Ends rounds Q (f a)) :
    Ends rounds Q (m >>= f) := by
  cases hm with
  | ok h => exact hf _ h
  | errno => exact .errno
  | rounds h => exact .rounds h

theorem Ends.mono {P' : α → Prop} (h : Ends rounds P m) (himp : ∀ a, P a → P' a) : Ends rounds P' m := by
  cases h with
  | ok h => exact .ok (himp _ h)
  | errno => exact .errno
  | rounds h => exact .rounds h

theorem Ends.of_ok (h : ∃ a, m = .ok a ∧ P a) : Ends rounds P m := by
  obtain ⟨a, rfl, ha⟩ := h
  exact .ok ha

/-- After what was stored from the start on, what is stored next. -/
theorem store_ends {n off : Nat} {buf : List.Vector α n} {pre data : List α} (hpre : pre <+: buf.toList)
    (hoff : off = pre.length) (h : off + data.length ≤ n) :
    Ends rounds (fun buf' : List.Vector α n => pre ++ data <+: buf'.toList) (store buf off data) := by
  obtain ⟨buf', hstore, hlist⟩ := store_fits buf h
  refine .of_ok ⟨buf', hstore, ?_⟩
  rw [hlist, hoff, ← List.prefix_iff_eq_take.mp hpre]
  exact List.prefix_append _ _

theorem load_ends {n off count : Nat} {buf : List.Vector α n} (h : off + count ≤ n) :
    Ends rounds (fun data => data = (buf.toList.drop off).take count) (load buf off count) :=
  .of_ok ⟨_, load_fits h, rfl⟩

/-- The same bytes, moved to the front. -/
theorem move_ends {n count : Nat} {buf : List.Vector α n} (h : 1 + count ≤ n) :
    Ends rounds (fun buf' : List.Vector α n => buf'.toList.take count = (buf.toList.drop 1).take count)
      (move buf 0 1 count) := by
  have hlen : ((buf.toList.drop 1).take count).length = count := by
    rw [List.length_take, List.length_drop, List.Vector.toList_length]
    omega
  refine (load_ends h).bind fun data hdata => .of_ok ?_
  subst hdata
  obtain ⟨buf', hstore, hlist⟩ := store_fits buf (show 0 + ((buf.toList.drop 1).take count).length ≤ n by omega)
  refine ⟨buf', hstore, ?_⟩
  rw [hlist, List.take_zero, List.nil_append, List.take_left' hlen]

end Ends

/-! ## One nonce -/

variable {rounds : Nat}

theorem p_lt : P256.p < 2 * P256.n := by decide

theorem reduce_ends (hK : K.Correct) (hn : value n.toList = P256.n) (hr : value r.toList < 2 * P256.n) :
    Ends rounds (fun r' => value r'.toList = value r.toList % P256.n) (reduce K n rounds r) := by
  rcases reduce_cases hK hn rounds r with h | ⟨h, hrounds⟩
  · exact .of_ok h
  · rw [h]
    exact .rounds (Nat.lt_of_mul_lt_mul_right (Nat.lt_of_le_of_lt hrounds hr))

/-- What the nonce's inverse times the sum is, times the nonce. -/
theorem mul_nonce_modEq {N d z r k kinv sum : Nat} (hinv : kinv * k % N = 1) (hsum : sum ≡ z + r * d % N [MOD N]) :
    kinv * sum % N * k ≡ z + r * d [MOD N] := by
  have hone : kinv * k ≡ 1 [MOD N] := by
    have hmod := Nat.mod_modEq (kinv * k) N
    rw [hinv] at hmod
    exact hmod.symm
  calc kinv * sum % N * k ≡ kinv * sum * k [MOD N] := (Nat.mod_modEq _ N).mul_right k
    _ = kinv * k * sum := Nat.mul_right_comm kinv sum k
    _ ≡ 1 * sum [MOD N] := hone.mul_right sum
    _ = sum := Nat.one_mul sum
    _ ≡ z + r * d % N [MOD N] := hsum
    _ ≡ z + r * d [MOD N] := (Nat.mod_modEq _ N).add_left z

/-- A nonce gives a signature, or the loop goes on. -/
theorem attempt_ends (hK : K.Correct) (hn : value n.toList = P256.n) {k : Bytes 32}
    (hk : ofBigEndian k.toList ∈ Set.Ico 1 P256.n) :
    Ends rounds (fun o => ∀ r s, o = some (r, s) →
        P256.Signs (value d.toList) (value z.toList) (ofBigEndian k.toList) (value r.toList) (value s.toList))
      (attempt K rounds n d z k) := by
  have hnone : ∀ r s : Digits, none = some (r, s) →
      P256.Signs (value d.toList) (value z.toList) (ofBigEndian k.toList) (value r.toList) (value s.toList) :=
    fun _ _ h => nomatch h
  unfold attempt
  split
  · exact .ok hnone
  next pub hpub =>
  obtain ⟨x, y, hxy, hpoint, hbytes⟩ := hK.makePubKey k pub hk hpub
  have hx : ofBigEndian (pub.toList.take 32) = x.val := by
    have hlt : x.val < 256 ^ 32 := x.val_lt.trans (by decide)
    rw [hbytes, List.take_left' (length_bigEndian 32 _), ofBigEndian_bigEndian hlt]
  refine (Ends.of_ok (digitsFromBytes_eq hK (by simp))).bind fun r₀ hr₀ => ?_
  rw [hx] at hr₀
  refine (reduce_ends hK hn (by rw [hr₀]; exact x.val_lt.trans p_lt)).bind fun r hr => ?_
  rw [hr₀] at hr
  split
  · exact .ok hnone
  next hrzero =>
  dsimp only
  split
  · exact .ok hnone
  refine (Ends.of_ok (digitsFromBytes_eq hK k.toList_length)).bind fun kInt hkInt => ?_
  split
  · exact .ok hnone
  next hszero =>
  refine .ok ?_
  rintro r s ⟨⟩
  rw [hK.vliIsZero, Bool.not_eq_true, decide_eq_false_iff_not] at hrzero hszero
  have hpos : 0 < P256.n := by decide
  have hs := hK.vliModMultSlow (K.vliModInv kInt n) (vliModAdd K z (K.vliModMultSlow r d n) n) n hn
  have hrd := hK.vliModMultSlow r d n hn
  have hinv := hK.vliModInv kInt n hn (by rwa [hkInt])
  have hsum := vliModAdd_modEq (z := z) hK hn
    (show value (K.vliModMultSlow r d n).toList < P256.n by rw [hrd]; exact Nat.mod_lt _ hpos)
  rw [hkInt] at hinv
  rw [hrd] at hsum
  refine ⟨⟨Nat.pos_of_ne_zero hrzero, ?_⟩, ⟨Nat.pos_of_ne_zero hszero, ?_⟩, ⟨x, y, hxy, hpoint, hr⟩, ?_⟩
  · rw [hr]
    exact Nat.mod_lt _ hpos
  · rw [hs]
    exact Nat.mod_lt _ hpos
  · rw [hs]
    exact mul_nonce_modEq hinv hsum

/-- A signature by one of the nonces. -/
def SignedBy (nonces : Nat → Except Errno (Bytes 32)) (tries : Nat) (d z r s : Digits) : Prop :=
  ∃ i < tries, ∃ k, nonces i = .ok k ∧
    P256.Signs (value d.toList) (value z.toList) (ofBigEndian k.toList) (value r.toList) (value s.toList)

theorem tryNonces_ends (hK : K.Correct) (hn : value n.toList = P256.n) {nonces : Nat → Except Errno (Bytes 32)}
    (hnonces : ∀ i k, nonces i = .ok k → ofBigEndian k.toList ∈ Set.Ico 1 P256.n) (left tries : Nat) :
    Ends rounds (fun rs => SignedBy nonces (tries + left) d z rs.1 rs.2) (tryNonces K rounds n d z nonces left tries) := by
  induction left generalizing tries with
  | zero => exact .errno
  | succ left ih =>
    unfold tryNonces
    split
    · exact .errno
    next k hk =>
    refine (attempt_ends hK hn (hnonces tries k hk)).bind fun o ho => ?_
    cases o with
    | some rs => exact .ok ⟨tries, by omega, k, hk, ho rs.1 rs.2 rfl⟩
    | none =>
      have hrest := ih (tries + 1)
      rwa [Nat.add_right_comm] at hrest

/-! ## DER -/

/-- A zero is dropped where the sign stays. -/
theorem holds_tail {v len : Nat} {bytes : List UInt8} (hlen : len ≠ 0) (hzero : bytes.getD 0 0 = 0)
    (hhigh : bytes.getD 1 0 &&& 0x80 = 0) (hle : len + 1 ≤ bytes.length) (h : Der.Holds v (bytes.take (len + 1))) :
    Der.Holds v ((bytes.drop 1).take len) := by
  obtain ⟨n, rfl⟩ := Nat.exists_eq_succ_of_ne_zero hlen
  cases bytes with
  | nil => simp at hle
  | cons b bytes =>
    cases bytes with
    | nil => simp at hle
    | cons b' bs =>
      obtain rfl : b = 0 := hzero
      refine ⟨?_, b', bs.take n, rfl, (and_eq_zero_iff b').mp hhigh⟩
      have hvalue := h.value
      rw [List.take_succ_cons, ofBigEndian_cons, UInt8.toNat_zero, Nat.zero_mul, Nat.zero_add] at hvalue
      exact hvalue

/-- No zero is dropped where the sign would change. -/
theorem reduced_take {len : Nat} {bytes : List UInt8}
    (h : ¬ (len > 1 ∧ bytes.getD 0 0 = 0 ∧ bytes.getD 1 0 &&& 0x80 = 0)) : Der.Reduced (bytes.take len) := by
  match bytes, len with
  | b :: b' :: bs, len + 2 =>
    by_cases hzero : b = 0
    · exact .inr (UInt8.not_lt.mp fun hlt => h ⟨by omega, hzero, (and_eq_zero_iff b').mpr hlt⟩)
    · exact .inl hzero
  | _ :: _ :: _, 1 => exact True.intro
  | [_], _ + 1 => simp [Der.Reduced]
  | [], _ + 1 => exact True.intro
  | _, 0 => exact True.intro

/-- What is left when no more zeros are dropped is an INTEGER. -/
theorem strip_ends {size v len : Nat} {enc : Bytes size} (hlen : len ≤ size) (h : Der.Holds v (enc.toList.take len)) :
    Ends rounds (fun out => out.2 ≤ len ∧ Der.IsInteger v (out.1.toList.take out.2)) (strip len enc) := by
  induction len generalizing enc with
  | zero =>
    obtain ⟨_, _, hnil, _⟩ := h.sign
    cases hnil
  | succ len ih =>
    unfold strip
    split
    · next hcond =>
      obtain ⟨hmore, hzero, hhigh⟩ := hcond
      refine (move_ends (by omega)).bind fun moved hmoved => ?_
      have hholds := holds_tail (by omega) hzero hhigh (by rw [List.Vector.toList_length]; exact hlen) h
      rw [← hmoved] at hholds
      exact (ih (by omega) hholds).mono fun out ⟨hout, hint⟩ => ⟨Nat.le_succ_of_le hout, hint⟩
    · next hcond => exact .ok ⟨le_rfl, (reduced_take hcond).isInteger h⟩

theorem encodeInteger_ends {v off : Nat} {raw : Bytes 64} (enc : Bytes 33) (hoff : off + 32 ≤ 64) (hv : v < 256 ^ 32)
    (hraw : (raw.toList.drop off).take 32 = bigEndian 32 v) :
    Ends rounds (fun out => out.2 ≤ 33 ∧ Der.IsInteger v (out.1.toList.take out.2)) (encodeInteger raw off enc) := by
  obtain ⟨b, bs, hdata⟩ : ∃ b bs, bigEndian 32 v = b :: bs := List.exists_cons_of_ne_nil (by simp [← List.length_pos_iff])
  have hlen := length_bigEndian 32 v
  have hvalue := ofBigEndian_bigEndian hv
  rw [hdata] at hraw hlen hvalue
  unfold encodeInteger
  refine (load_ends hoff).bind fun data hload => ?_
  rw [hraw] at hload
  subst hload
  have hone : (enc.toList.take 1).length = 1 := by
    rw [List.length_take, List.Vector.toList_length]
    rfl
  refine (store_ends (List.take_prefix 1 enc.toList) hone.symm (by rw [hlen])).bind fun enc hpre => ?_
  have henc := hpre.eq_of_length (by rw [List.length_append, hone, hlen, List.Vector.toList_length])
  obtain ⟨a, ha⟩ := List.length_eq_one_iff.mp hone
  rw [ha, List.singleton_append] at henc
  have hfirst : enc.toList.getD 1 0 = b := by
    rw [← henc]
    rfl
  rw [hfirst]
  split
  · next hhigh =>
    obtain ⟨enc', hstore, hlist⟩ := store_fits enc (show 0 + [(0x00 : UInt8)].length ≤ 33 by decide)
    have hholds : Der.Holds v (enc'.toList.take 33) := by
      have hall : enc'.toList = 0 :: b :: bs := by
        rw [hlist, ← henc]
        rfl
      rw [hall, List.take_of_length_le (by rw [List.length_cons, hlen])]
      refine ⟨?_, 0, b :: bs, rfl, by decide⟩
      rw [ofBigEndian_cons, hvalue, UInt8.toNat_zero, Nat.zero_mul, Nat.zero_add]
    rw [hstore]
    exact strip_ends le_rfl hholds
  · next hlow =>
    rw [not_not, and_eq_zero_iff] at hlow
    refine (move_ends (by decide)).bind fun enc' hmoved => ?_
    have hholds : Der.Holds v (enc'.toList.take 32) := by
      rw [hmoved, ← henc, List.drop_one, List.tail_cons, List.take_of_length_le (by rw [hlen])]
      exact ⟨hvalue, b, bs, rfl, hlow⟩
    exact (strip_ends (by decide) hholds).mono fun out ⟨hout, hint⟩ => ⟨Nat.le_succ_of_le hout, hint⟩

theorem encodeSig_ends (locals : Locals) (r s : Digits) (sigDer : Bytes maxSigDer) :
    Ends rounds (fun out => Der.IsPair (value r.toList) (value s.toList) (out.1.toList.take out.2) ∧ out.2 ≤ 72)
      (encodeSig locals r s sigDer) := by
  unfold encodeSig
  refine (Ends.of_ok (digitsToBytes_eq (by decide) r)).bind fun raw₁ hlist₁ => ?_
  refine (Ends.of_ok (digitsToBytes_eq (by decide) s)).bind fun raw₂ hlist₂ => ?_
  have hfirst : raw₁.toList.take 32 = bigEndian 32 (value r.toList) := by
    rw [hlist₁, List.take_zero, List.nil_append, List.take_left' (length_bigEndian 32 _)]
  rw [hfirst] at hlist₂
  have hr : (raw₂.toList.drop 0).take 32 = bigEndian 32 (value r.toList) := by
    rw [hlist₂, List.drop_zero, List.append_assoc, List.take_left' (length_bigEndian 32 _)]
  have hs : (raw₂.toList.drop 32).take 32 = bigEndian 32 (value s.toList) := by
    rw [hlist₂, List.append_assoc, List.drop_left' (length_bigEndian 32 _), List.take_left' (length_bigEndian 32 _)]
  refine (encodeInteger_ends locals.encR (by decide) r.lt hr).bind fun ⟨encR, rLen⟩ ⟨hrLen, hrInt⟩ => ?_
  refine (encodeInteger_ends locals.encS (by decide) s.lt hs).bind fun ⟨encS, sLen⟩ ⟨hsLen, hsInt⟩ => ?_
  dsimp only at *
  have hrLen' : (encR.toList.take rLen).length = rLen := by
    rw [List.length_take, List.Vector.toList_length]
    omega
  have hsLen' : (encS.toList.take sLen).length = sLen := by
    rw [List.length_take, List.Vector.toList_length]
    omega
  have hmax : maxSigDer = 80 := rfl
  have hfits : ∀ {off : Nat} {b : UInt8}, off < 80 → off + [b].length ≤ maxSigDer := fun h => h
  rw [if_neg (by omega)]
  refine (store_ends List.nil_prefix (by rfl) (hfits (by omega))).bind fun sig h => ?_
  refine (store_ends h (by rfl) (hfits (by omega))).bind fun sig h => ?_
  refine (store_ends h (by rfl) (hfits (by omega))).bind fun sig h => ?_
  refine (store_ends h (by rfl) (hfits (by omega))).bind fun sig h => ?_
  refine (load_ends (by omega)).bind fun data hdata => ?_
  rw [List.drop_zero] at hdata
  subst hdata
  refine (store_ends h (by rfl) (by omega)).bind fun sig h => ?_
  refine (store_ends h (by simp; omega) (hfits (by omega))).bind fun sig h => ?_
  refine (store_ends h (by simp; omega) (hfits (by omega))).bind fun sig h => ?_
  refine (load_ends (by omega)).bind fun data hdata => ?_
  rw [List.drop_zero] at hdata
  subst hdata
  refine (store_ends h (by simp; omega) (by omega)).bind fun sig h => ?_
  refine .ok ⟨?_, by dsimp only; omega⟩
  let content := 0x02 :: UInt8.ofNat rLen :: encR.toList.take rLen ++ (0x02 :: UInt8.ofNat sLen :: encS.toList.take sLen)
  have hcontent : content.length = 4 + rLen + sLen := by
    simp only [content, List.length_append, List.length_cons, hrLen', hsLen']
    omega
  have hpair := Der.IsPair.mk hrInt hsInt (Der.isTagged_short (by omega)) (Der.isTagged_short (by omega))
    (Der.isTagged_short (by rw [hrLen', hsLen']; show content.length < _; omega))
  rw [hrLen', hsLen'] at hpair
  change Der.IsPair _ _ (0x30 :: UInt8.ofNat content.length :: content) at hpair
  have hbytes : 0x30 :: UInt8.ofNat (4 + rLen + sLen) :: content <+: sig.toList := by
    simpa [content] using h
  have htake := List.prefix_iff_eq_take.mp hbytes
  have htotal : 4 + rLen + sLen + 1 + 1 = 6 + rLen + sLen := by omega
  rw [List.length_cons, List.length_cons, hcontent, htotal] at htake
  rwa [hcontent, htake] at hpair

/-! ## Signatures -/

variable {nonces : Nat → Except Errno (Bytes 32)}

theorem sign_ends (rounds : Nat) (hK : K.Correct) (hnonces : ∀ i k, nonces i = .ok k → ofBigEndian k.toList ∈ Set.Ico 1 P256.n)
    (locals : Locals) (priv hash : Bytes 32) (sigDer : Bytes maxSigDer) (sigLen : Bool) :
    Ends rounds (fun out => ∃ i < 16, ∃ k, nonces i = .ok k ∧ ∃ r s,
        P256.Signs (ofBigEndian priv.toList) (ofBigEndian hash.toList) (ofBigEndian k.toList) r s ∧
          Der.IsPair r s (out.1.toList.take out.2) ∧ out.2 ≤ 72)
      (sign K rounds nonces locals priv hash sigDer sigLen) := by
  unfold sign
  split
  · exact .errno
  next n hn =>
  split
  · exact .errno
  refine (Ends.of_ok (digitsFromBytes_eq hK priv.toList_length)).bind fun d hd => ?_
  refine (Ends.of_ok (digitsFromBytes_eq hK hash.toList_length)).bind fun z hz => ?_
  refine (tryNonces_ends hK (hK.curve n hn) hnonces 16 0).bind fun ⟨r, s⟩ ⟨i, hi, k, hk, hsigns⟩ => ?_
  rw [hd, hz] at hsigns
  exact (encodeSig_ends locals r s sigDer).mono fun out hout =>
    ⟨i, by omega, k, hk, value r.toList, value s.toList, hsigns, hout⟩

/-- A signature that is returned is one, by a nonce of the first 16 and at
most 72 bytes long; nothing is stored past the end of an array; and the loop
that reduces `r` goes round less than twice. -/
structure SignsCorrectly (K : Kernel) (rounds : Nat) (nonces : Nat → Except Errno (Bytes 32)) (locals : Locals)
    (priv hash : Bytes 32) (sigDer : Bytes maxSigDer) (sigLen : Bool) : Prop where
  signature : ∀ sig len, sign K rounds nonces locals priv hash sigDer sigLen = .ok (sig, len) →
    ∃ i < 16, ∃ k, nonces i = .ok k ∧ ∃ r s,
      P256.Signs (ofBigEndian priv.toList) (ofBigEndian hash.toList) (ofBigEndian k.toList) r s ∧
        Der.IsPair r s (sig.toList.take len) ∧ len ≤ 72
  bounds : sign K rounds nonces locals priv hash sigDer sigLen ≠ .error .overrun
  ends : 2 ≤ rounds → sign K rounds nonces locals priv hash sigDer sigLen ≠ .error .rounds

theorem sign_correct (hK : K.Correct) (hnonces : ∀ i k, nonces i = .ok k → ofBigEndian k.toList ∈ Set.Ico 1 P256.n)
    (rounds : Nat) (locals : Locals) (priv hash : Bytes 32) (sigDer : Bytes maxSigDer) (sigLen : Bool) :
    SignsCorrectly K rounds nonces locals priv hash sigDer sigLen := by
  have hends := sign_ends rounds hK hnonces locals priv hash sigDer sigLen
  refine ⟨fun sig len h => ?_, fun h => ?_, fun hrounds h => ?_⟩
  · rw [h] at hends
    cases hends with
    | ok hsig => exact hsig
  · rw [h] at hends
    cases hends
  · rw [h] at hends
    cases hends with
    | rounds hfew => omega

/-! ## A kernel -/

/-- The digits of a number. -/
def toDigits (count v : Nat) : List.Vector UInt64 count :=
  ⟨(List.range count).map fun i => UInt64.ofNat (v / 2 ^ (64 * i)), by rw [List.length_map, List.length_range]⟩

theorem value_toDigits (count v : Nat) : value (toDigits count v).toList = v % 2 ^ (64 * count) := by
  have hvalue : ∀ count v, value ((List.range count).map fun i => UInt64.ofNat (v / 2 ^ (64 * i))) =
      v % 2 ^ (64 * count) := by
    intro count
    induction count with
    | zero =>
      intro v
      rw [Nat.mul_zero, Nat.pow_zero, Nat.mod_one]
      rfl
    | succ count ih =>
      intro v
      have hnext : (List.range count).map ((fun i => UInt64.ofNat (v / 2 ^ (64 * i))) ∘ Nat.succ) =
          (List.range count).map fun i => UInt64.ofNat (v / 2 ^ 64 / 2 ^ (64 * i)) := by
        refine List.map_congr_left fun i _ => ?_
        rw [Function.comp, Nat.div_div_eq_div_mul, ← Nat.pow_add, Nat.mul_succ, Nat.add_comm 64]
      rw [List.range_succ_eq_map, List.map_cons, List.map_map, hnext, value, ih, Nat.mul_succ, Nat.add_comm (64 * count),
        Nat.pow_add, Nat.mod_mul, Nat.mul_zero, Nat.pow_zero, Nat.div_one]
      rfl
  exact hvalue count v

/-- Arithmetic that is what it says; one public key is all that can be made. -/
def Kernel.plain : Kernel where
  curve := some (toDigits 4 P256.n)
  swapDigits ndigits bytes := toDigits ndigits (ofBigEndian bytes)
  makePubKey k := if ofBigEndian k.toList = 1 then
    .ok ⟨bigEndian 32 P256.baseX.val ++ bigEndian 32 P256.baseY.val, by simp⟩ else .error eagain
  vliCmp a b := (value a.toList - value b.toList : Int).sign
  vliSub a b := toDigits 4 (value a.toList + (2 ^ 256 - value b.toList))
  vliIsZero a := decide (value a.toList = 0)
  vliModMultSlow a b n := toDigits 4 (value a.toList * value b.toList % value n.toList)
  vliModInv a n := toDigits 4 (Pratt.powMod (value n.toList) (value a.toList) 256 (value n.toList - 2))

theorem Kernel.plain_correct : Kernel.plain.Correct where
  curve n hn := by
    cases hn
    rw [value_toDigits]
    exact Nat.mod_eq_of_lt n_lt
  swapDigits ndigits bytes h := by
    show value (toDigits _ _).toList = _
    have hlt := ofBigEndian_lt bytes
    have hbits : 256 ^ (8 * ndigits) = 2 ^ (64 * ndigits) := by
      rw [show 256 = 2 ^ 8 from rfl, ← Nat.pow_mul, ← Nat.mul_assoc]
    rw [h, hbits] at hlt
    rw [value_toDigits, Nat.mod_eq_of_lt hlt]
  makePubKey k pub _ hpub := by
    simp only [plain] at hpub
    split at hpub
    · next hone =>
      cases hpub
      exact ⟨P256.baseX, P256.baseY, P256.nonsingular_base, by rw [hone, one_smul, P256.base], rfl⟩
    · cases hpub
  vliCmp a b := rfl
  vliSub a b := by
    show value (toDigits _ _).toList = _
    rw [value_toDigits]
  vliIsZero a := rfl
  vliModMultSlow a b n hn := by
    show value (toDigits _ _).toList = _
    rw [value_toDigits, hn, Nat.mod_eq_of_lt]
    exact (Nat.mod_lt _ (by decide)).trans n_lt
  vliModInv a n hn ha := by
    show value (toDigits _ _).toList * _ % _ = _
    have hfermat : (value a.toList : ZMod P256.n) ^ (P256.n - 1) = 1 := by
      refine ZMod.pow_card_sub_one_eq_one fun hzero => ?_
      rw [ZMod.natCast_eq_zero_iff] at hzero
      exact absurd (Nat.le_of_dvd ha.1 hzero) (not_le.mpr ha.2)
    have hpow : value a.toList ^ (P256.n - 1) % P256.n = 1 := by
      have hcast := (ZMod.natCast_eq_natCast_iff' (value a.toList ^ (P256.n - 1)) 1 P256.n).mp (by
        rw [Nat.cast_pow, Nat.cast_one, hfermat])
      rw [hcast]
      decide
    have hexp : P256.n - 1 = P256.n - 2 + 1 := by decide
    rw [value_toDigits, hn, Pratt.powMod_eq _ _ ((Nat.sub_le _ 2).trans_lt n_lt),
      Nat.mod_eq_of_lt ((Nat.mod_lt _ (by decide)).trans n_lt), Nat.mod_mul_mod, ← Nat.pow_succ]
    rw [hexp] at hpow
    exact hpow

def one : Bytes 32 := ⟨bigEndian 32 1, rfl⟩

/-- The key 1 signs a hash above the order, by the nonce 1. -/
theorem sign_correct_one :
    (sign .plain 2 (fun _ => .ok one) ⟨zeros 64, zeros 33, zeros 33⟩ one (.replicate 32 0xff) (zeros maxSigDer) true).isOk ∧
      SignsCorrectly .plain 2 (fun _ => .ok one) ⟨zeros 64, zeros 33, zeros 33⟩ one (.replicate 32 0xff) (zeros maxSigDer)
        true :=
  ⟨by decide +kernel, sign_correct Kernel.plain_correct (fun i k h => by cases h; decide +kernel) _ _ _ _ _ _⟩

end AbkFido.Ecdsa
