/-
Fixed-size record layouts.

A `Codec α` lays every value of `α` out in the same number of bytes and
reads it back from a longer buffer, so codecs compose by juxtaposition:
`prod`, `array` and `iso` build the layout of a C struct from the layouts
of its fields, and the round trips (`dec_enc`, `enc_dec`) come with it.

`splice` overwrites a range of a buffer. A `Field` of a codec is a part of
its values together with the offset it is laid out at: reading the buffer
there gives the part, and writing there sets it. Fields are composed like
the codecs they are fields of, so the offset of a member of a struct in an
array in a struct comes out of its path.
-/
import Mathlib.Data.Vector.Basic
import Mathlib.Logic.Equiv.Basic
import Mathlib.Tactic.Ring

namespace Layout

/-- A layout of `α` in exactly `size` bytes. -/
structure Codec (α : Type) where
  size : Nat
  enc : α → List UInt8
  dec : List UInt8 → α
  length_enc : ∀ a, (enc a).length = size
  dec_enc : ∀ a rest, dec (enc a ++ rest) = a
  enc_dec : ∀ bs, size ≤ bs.length → enc (dec bs) = bs.take size

namespace Codec

variable {α β : Type}

theorem dec_enc_self (A : Codec α) (a : α) : A.dec (A.enc a) = a := by
  simpa using A.dec_enc a []

/-- A buffer of the exact size is the encoding of what it decodes to. -/
theorem enc_dec_self (A : Codec α) {bs : List UInt8} (h : bs.length = A.size) :
    A.enc (A.dec bs) = bs := by
  rw [A.enc_dec bs (by omega), List.take_of_length_le (by omega)]

theorem enc_injective (A : Codec α) : Function.Injective A.enc := by
  intro a b h
  rw [← A.dec_enc_self a, ← A.dec_enc_self b, h]

/-- Only the first `size` bytes are read. -/
theorem dec_take (A : Codec α) {bs : List UInt8} (h : A.size ≤ bs.length) :
    A.dec (bs.take A.size) = A.dec bs := by
  rw [← A.enc_dec bs h, A.dec_enc_self]

/-- Past the encoding of `a` comes what was appended to it. -/
theorem drop_enc_append (A : Codec α) (a : α) (rest : List UInt8) (k : Nat) :
    (A.enc a ++ rest).drop (A.size + k) = rest.drop k := by
  rw [List.drop_append, List.drop_of_length_le (by rw [A.length_enc]; omega), List.nil_append, A.length_enc,
    Nat.add_sub_cancel_left]

/-! ## Scalars -/

/-- One byte. -/
def u8 : Codec UInt8 where
  size := 1
  enc b := [b]
  dec bs := bs.headD 0
  length_enc _ := rfl
  dec_enc _ _ := rfl
  enc_dec bs h := by
    cases bs with
    | nil => simp at h
    | cons b bs => rfl

/-- A 32-bit word, little-endian. -/
def u32le : Codec UInt32 where
  size := 4
  enc v := [.ofNat v.toNat, .ofNat (v.toNat / 256), .ofNat (v.toNat / 65536), .ofNat (v.toNat / 16777216)]
  dec bs := .ofNat ((bs.getD 0 0).toNat + 256 * (bs.getD 1 0).toNat + 65536 * (bs.getD 2 0).toNat +
    16777216 * (bs.getD 3 0).toNat)
  length_enc _ := rfl
  dec_enc v rest := by
    have hv := v.toNat_lt
    apply UInt32.toNat_inj.mp
    simp only [List.cons_append, List.getD_cons_zero, List.getD_cons_succ, UInt8.toNat_ofNat',
      UInt32.toNat_ofNat']
    omega
  enc_dec bs h := by
    match bs, h with
    | a :: b :: c :: d :: rest, _ =>
      have ha := a.toNat_lt
      have hb := b.toNat_lt
      have hc := c.toNat_lt
      have hd := d.toNat_lt
      simp only [List.getD_cons_zero, List.getD_cons_succ, UInt32.toNat_ofNat', List.take_succ_cons,
        List.take_zero, List.cons.injEq, and_true]
      refine ⟨?_, ?_, ?_, ?_⟩ <;> apply UInt8.toNat_inj.mp <;> rw [UInt8.toNat_ofNat'] <;> omega

/-- A 16-bit word, big-endian. -/
def u16be : Codec UInt16 where
  size := 2
  enc v := [.ofNat (v.toNat / 256), .ofNat v.toNat]
  dec bs := .ofNat (256 * (bs.getD 0 0).toNat + (bs.getD 1 0).toNat)
  length_enc _ := rfl
  dec_enc v rest := by
    have hv := v.toNat_lt
    apply UInt16.toNat_inj.mp
    simp only [List.cons_append, List.getD_cons_zero, List.getD_cons_succ, UInt8.toNat_ofNat', UInt16.toNat_ofNat']
    omega
  enc_dec bs h := by
    match bs, h with
    | a :: b :: rest, _ =>
      have ha := a.toNat_lt
      have hb := b.toNat_lt
      simp only [List.getD_cons_zero, List.getD_cons_succ, UInt16.toNat_ofNat', List.take_succ_cons, List.take_zero,
        List.cons.injEq, and_true]
      refine ⟨?_, ?_⟩ <;> apply UInt8.toNat_inj.mp <;> rw [UInt8.toNat_ofNat'] <;> omega

/-- A 32-bit word, big-endian. -/
def u32be : Codec UInt32 where
  size := 4
  enc v := [.ofNat (v.toNat / 16777216), .ofNat (v.toNat / 65536), .ofNat (v.toNat / 256), .ofNat v.toNat]
  dec bs := .ofNat (16777216 * (bs.getD 0 0).toNat + 65536 * (bs.getD 1 0).toNat + 256 * (bs.getD 2 0).toNat +
    (bs.getD 3 0).toNat)
  length_enc _ := rfl
  dec_enc v rest := by
    have hv := v.toNat_lt
    apply UInt32.toNat_inj.mp
    simp only [List.cons_append, List.getD_cons_zero, List.getD_cons_succ, UInt8.toNat_ofNat',
      UInt32.toNat_ofNat']
    omega
  enc_dec bs h := by
    match bs, h with
    | a :: b :: c :: d :: rest, _ =>
      have ha := a.toNat_lt
      have hb := b.toNat_lt
      have hc := c.toNat_lt
      have hd := d.toNat_lt
      simp only [List.getD_cons_zero, List.getD_cons_succ, UInt32.toNat_ofNat', List.take_succ_cons,
        List.take_zero, List.cons.injEq, and_true]
      refine ⟨?_, ?_, ?_, ?_⟩ <;> apply UInt8.toNat_inj.mp <;> rw [UInt8.toNat_ofNat'] <;> omega

/-- An array of `n` bytes. -/
def bytes (n : Nat) : Codec (List.Vector UInt8 n) where
  size := n
  enc v := v.toList
  dec bs := ⟨(bs.take n) ++ List.replicate (n - bs.length) 0, by simp; omega⟩
  length_enc v := v.toList_length
  dec_enc v rest := by
    apply Subtype.ext
    have hv := v.toList_length
    show (v.toList ++ rest).take n ++ List.replicate (n - (v.toList ++ rest).length) 0 = v.toList
    rw [List.take_append_of_le_length (by omega), List.take_of_length_le (by omega), List.length_append,
      show n - (v.toList.length + rest.length) = 0 by omega]
    simp
  enc_dec bs h := by
    show bs.take n ++ List.replicate (n - bs.length) 0 = bs.take n
    rw [show n - bs.length = 0 by omega]
    simp

/-! ## Composition -/

/-- `a` and then `b`. -/
def prod (A : Codec α) (B : Codec β) : Codec (α × β) where
  size := A.size + B.size
  enc p := A.enc p.1 ++ B.enc p.2
  dec bs := (A.dec bs, B.dec (bs.drop A.size))
  length_enc p := by simp [A.length_enc, B.length_enc]
  dec_enc p rest := by
    have hdrop := A.drop_enc_append p.1 (B.enc p.2 ++ rest) 0
    rw [Nat.add_zero, List.drop_zero] at hdrop
    rw [List.append_assoc, A.dec_enc, hdrop, B.dec_enc]
  enc_dec bs h := by
    rw [A.enc_dec bs (by omega), B.enc_dec _ (by simp; omega), List.take_add]

/-- The layout of `α` read as a layout of `β`. -/
def iso (A : Codec α) (e : α ≃ β) : Codec β where
  size := A.size
  enc b := A.enc (e.symm b)
  dec bs := e (A.dec bs)
  length_enc b := A.length_enc _
  dec_enc b rest := by rw [A.dec_enc, e.apply_symm_apply]
  enc_dec bs h := by rw [e.symm_apply_apply, A.enc_dec bs h]

theorem length_flatMap_ofFn (A : Codec α) : ∀ {n : Nat} (f : Fin n → α),
    ((List.ofFn f).flatMap A.enc).length = n * A.size
  | 0, _ => by simp
  | n + 1, f => by
    rw [List.ofFn_succ, List.flatMap_cons, List.length_append, A.length_enc, length_flatMap_ofFn A]
    ring

/-- Dropping whole elements leaves the encoding of the rest. -/
theorem dec_flatMap_ofFn (A : Codec α) : ∀ {n : Nat} (f : Fin n → α) (rest : List UInt8) (i : Fin n),
    A.dec (((List.ofFn f).flatMap A.enc ++ rest).drop (i * A.size)) = f i
  | n + 1, f, rest, i => by
    rw [List.ofFn_succ, List.flatMap_cons, List.append_assoc]
    cases i using Fin.cases with
    | zero => simp [A.dec_enc]
    | succ i =>
      rw [Fin.val_succ, show (i.val + 1) * A.size = A.size + i * A.size by ring, drop_enc_append]
      exact dec_flatMap_ofFn A (fun i => f i.succ) rest i

theorem flatMap_ofFn_dec (A : Codec α) : ∀ (n : Nat) (bs : List UInt8), n * A.size ≤ bs.length →
    (List.ofFn fun i : Fin n => A.dec (bs.drop (i * A.size))).flatMap A.enc = bs.take (n * A.size)
  | 0, bs, _ => by simp
  | n + 1, bs, h => by
    have hs : (n + 1) * A.size = A.size + n * A.size := by ring
    have ih := flatMap_ofFn_dec A n (bs.drop A.size) (by simp only [List.length_drop]; omega)
    rw [List.ofFn_succ, List.flatMap_cons, hs, List.take_add, ← ih]
    congr 1
    · simpa using A.enc_dec bs (by omega)
    · congr 2
      funext i
      rw [List.drop_drop, Fin.val_succ]
      congr 2
      ring

/-- `n` elements, one after the other. -/
def array (n : Nat) (A : Codec α) : Codec (Fin n → α) where
  size := n * A.size
  enc f := (List.ofFn f).flatMap A.enc
  dec bs i := A.dec (bs.drop (i * A.size))
  length_enc f := length_flatMap_ofFn A f
  dec_enc f rest := funext fun i => dec_flatMap_ofFn A f rest i
  enc_dec bs h := flatMap_ofFn_dec A n bs h

end Codec

/-! ## Writes into a buffer -/

/-- `memcpy(bs + off, data, data.length)` -/
def splice (bs : List UInt8) (off : Nat) (data : List UInt8) : List UInt8 :=
  bs.take off ++ data ++ bs.drop (off + data.length)

theorem length_splice {bs data : List UInt8} {off : Nat} (h : off + data.length ≤ bs.length) :
    (splice bs off data).length = bs.length := by
  simp only [splice, List.length_append, List.length_take, List.length_drop]
  omega

/-- A write over `y`. -/
theorem splice_middle {x y z data : List UInt8} {off : Nat} (hx : x.length = off) (hy : data.length = y.length) :
    splice (x ++ (y ++ z)) off data = x ++ (data ++ z) := by
  subst hx
  have hlen : x.length + data.length = x.length + (y.length + 0) := by omega
  rw [splice, hlen, List.take_left, List.append_assoc]
  congr 2
  simp [List.drop_append]

/-- A write to a part of a range is a write of the range. -/
theorem splice_add {bs data : List UInt8} {off k n : Nat} (hk : k + data.length ≤ n) (hn : off + n ≤ bs.length) :
    splice bs (off + k) data = splice bs off (splice ((bs.drop off).take n) k data) := by
  obtain ⟨x, y, z, hbs, hx, hy⟩ : ∃ x y z : List UInt8, bs = x ++ (y ++ z) ∧ x.length = off ∧ y.length = n := by
    refine ⟨bs.take off, (bs.drop off).take n, (bs.drop off).drop n, ?_, ?_, ?_⟩
    · rw [List.take_append_drop, List.take_append_drop]
    · rw [List.length_take]; omega
    · rw [List.length_take, List.length_drop]; omega
  obtain ⟨u, v, w, hyw, hu, hv⟩ : ∃ u v w : List UInt8, y = u ++ (v ++ w) ∧ u.length = k ∧ v.length = data.length := by
    refine ⟨y.take k, (y.drop k).take data.length, (y.drop k).drop data.length, ?_, ?_, ?_⟩
    · rw [List.take_append_drop, List.take_append_drop]
    · rw [List.length_take]; omega
    · rw [List.length_take, List.length_drop]; omega
  have hrange : (bs.drop off).take n = y := by rw [hbs, ← hx, ← hy, List.drop_left, List.take_left]
  have hinner : splice y k data = u ++ (data ++ w) := by rw [hyw]; exact splice_middle hu hv.symm
  have hlen : (u ++ (data ++ w)).length = y.length := by rw [hyw]; simp [hv]
  rw [hrange, hinner, hbs, splice_middle hx hlen, hyw]
  have houter : splice ((x ++ u) ++ (v ++ (w ++ z))) (off + k) data = (x ++ u) ++ (data ++ (w ++ z)) :=
    splice_middle (by rw [List.length_append]; omega) hv.symm
  simpa only [List.append_assoc] using houter

/-- A write over an earlier one of the same length. -/
theorem splice_splice {bs data data' : List UInt8} {off : Nat} (h : off + data.length ≤ bs.length)
    (hlen : data'.length = data.length) : splice (splice bs off data) off data' = splice bs off data' := by
  have hx : (bs.take off).length = off := by rw [List.length_take]; omega
  have hfirst : splice bs off data = bs.take off ++ (data ++ bs.drop (off + data.length)) := List.append_assoc ..
  rw [hfirst, splice_middle hx hlen, splice, hlen, List.append_assoc]

/-- A shorter write over zeros. -/
theorem splice_zeros (data : List UInt8) (n : Nat) :
    splice (List.replicate n 0) 0 data = data ++ List.replicate (n - data.length) 0 := by
  simp [splice, List.drop_replicate]

/-! ## Fields -/

/-- A part of the values of `A`, laid out by `B` at `off`. -/
structure Field {α β : Type} (A : Codec α) (B : Codec β) where
  off : Nat
  get : α → β
  set : β → α → α
  fits : off + B.size ≤ A.size
  dec_drop : ∀ a rest, B.dec ((A.enc a ++ rest).drop off) = get a
  splice_enc : ∀ a b, splice (A.enc a) off (B.enc b) = A.enc (set b a)

namespace Field

variable {α β γ : Type} {A : Codec α} {B : Codec β} {C : Codec γ}

theorem dec_drop_enc (F : Field A B) (a : α) : B.dec ((A.enc a).drop F.off) = F.get a := by
  simpa using F.dec_drop a []

/-- What a read of the field finds in any bytes. -/
theorem dec_drop_dec (F : Field A B) {bs : List UInt8} (h : A.size ≤ bs.length) : B.dec (bs.drop F.off) = F.get (A.dec bs) := by
  have hdrop := F.dec_drop (A.dec bs) (bs.drop A.size)
  rwa [A.enc_dec bs h, List.take_append_drop] at hdrop

/-- The bytes of the field. -/
theorem take_drop_enc (F : Field A B) (a : α) : ((A.enc a).drop F.off).take B.size = B.enc (F.get a) := by
  have hfits := F.fits
  rw [← F.dec_drop_enc, B.enc_dec _ (by rw [List.length_drop, A.length_enc]; omega)]

/-- A write inside the field. -/
theorem splice_within (F : Field A B) (a : α) {k : Nat} {data : List UInt8} (hk : k + data.length ≤ B.size) :
    splice (A.enc a) (F.off + k) data = A.enc (F.set (B.dec (splice (B.enc (F.get a)) k data)) a) := by
  have hfits := F.fits
  have hlen : (splice (B.enc (F.get a)) k data).length = B.size := by
    rw [length_splice (by rw [B.length_enc]; exact hk), B.length_enc]
  rw [splice_add hk (by rw [A.length_enc]; exact hfits), F.take_drop_enc, ← F.splice_enc, B.enc_dec_self hlen]

/-- A read inside the field. -/
theorem drop_within (F : Field A B) (a : α) (G : Field B C) (rest : List UInt8) :
    C.dec ((A.enc a ++ rest).drop (F.off + G.off)) = G.get (F.get a) := by
  have hA := A.length_enc a
  have hB := B.length_enc (F.get a)
  have hF := F.fits
  have hG := G.fits
  have hsplit : (A.enc a ++ rest).drop F.off =
      B.enc (F.get a) ++ ((A.enc a ++ rest).drop F.off).drop B.size := by
    rw [← F.take_drop_enc, ← List.take_append_of_le_length (by rw [List.length_drop]; omega),
      ← List.drop_append_of_le_length (by omega), List.take_append_drop]
  rw [← List.drop_drop, hsplit, G.dec_drop]

/-- A write was made. -/
@[simp] theorem get_set (F : Field A B) (a : α) (b : β) : F.get (F.set b a) = b := by
  have hfits := F.fits
  have hx : ((A.enc a).take F.off).length = F.off := by rw [List.length_take, A.length_enc]; omega
  rw [← F.dec_drop_enc, ← F.splice_enc, splice, List.append_assoc]
  have hdrop : ((A.enc a).take F.off ++ (B.enc b ++ (A.enc a).drop (F.off + (B.enc b).length))).drop F.off =
      B.enc b ++ (A.enc a).drop (F.off + (B.enc b).length) := List.drop_left' hx
  rw [hdrop, B.dec_enc]

@[simp] theorem set_set (F : Field A B) (a : α) (b b' : β) : F.set b' (F.set b a) = F.set b' a := by
  have hfits := F.fits
  apply A.enc_injective
  rw [← F.splice_enc, ← F.splice_enc, ← F.splice_enc, splice_splice]
  · rw [B.length_enc, A.length_enc]; exact hfits
  · rw [B.length_enc, B.length_enc]

def comp (F : Field A B) (G : Field B C) : Field A C where
  off := F.off + G.off
  get a := G.get (F.get a)
  set c a := F.set (G.set c (F.get a)) a
  fits := by
    have := F.fits
    have := G.fits
    omega
  dec_drop a rest := F.drop_within a G rest
  splice_enc a c := by
    have hG := G.fits
    rw [F.splice_within a (by rw [C.length_enc]; exact hG), G.splice_enc, B.dec_enc_self]

def fst (A : Codec α) (B : Codec β) : Field (A.prod B) A where
  off := 0
  get p := p.1
  set a p := (a, p.2)
  fits := by simp [Codec.prod]
  dec_drop p rest := by
    simp only [Codec.prod, List.drop_zero, List.append_assoc]
    exact A.dec_enc _ _
  splice_enc p a := by
    have h : splice ([] ++ (A.enc p.1 ++ B.enc p.2)) 0 (A.enc a) = [] ++ (A.enc a ++ B.enc p.2) :=
      splice_middle rfl (by rw [A.length_enc, A.length_enc])
    exact h

def snd (A : Codec α) (B : Codec β) : Field (A.prod B) B where
  off := A.size
  get p := p.2
  set b p := (p.1, b)
  fits := by simp [Codec.prod]
  dec_drop p rest := by
    have h := A.drop_enc_append p.1 (B.enc p.2 ++ rest) 0
    simp only [Nat.add_zero, List.drop_zero] at h
    simp only [Codec.prod, List.append_assoc, h, B.dec_enc]
  splice_enc p b := by
    have h : splice (A.enc p.1 ++ (B.enc p.2 ++ [])) A.size (B.enc b) = A.enc p.1 ++ (B.enc b ++ []) :=
      splice_middle (A.length_enc _) (by rw [B.length_enc, B.length_enc])
    simpa only [Codec.prod, List.append_nil] using h

/-- A field of what comes after `A`. -/
def after (A : Codec α) (F : Field B C) : Field (A.prod B) C := (snd A B).comp F

/-- A field of the same layout read as another type. -/
def iso (F : Field A B) (e : α ≃ γ) : Field (A.iso e) B where
  off := F.off
  get c := F.get (e.symm c)
  set b c := e (F.set b (e.symm c))
  fits := F.fits
  dec_drop c rest := F.dec_drop _ rest
  splice_enc c b := by
    simp only [Codec.iso, Equiv.symm_apply_apply]
    exact F.splice_enc _ b

theorem splice_flatMap_ofFn (A : Codec α) (a : α) : ∀ {n : Nat} (f : Fin n → α) (i : Fin n),
    splice ((List.ofFn f).flatMap A.enc) (i * A.size) (A.enc a) = (List.ofFn (Function.update f i a)).flatMap A.enc
  | n + 1, f, i => by
    have hlen : ∀ a, (A.enc a).length = A.size := A.length_enc
    rw [List.ofFn_succ, List.ofFn_succ, List.flatMap_cons, List.flatMap_cons]
    cases i using Fin.cases with
    | zero =>
      have h : splice ([] ++ (A.enc (f 0) ++ (List.ofFn fun i : Fin n => f i.succ).flatMap A.enc)) 0 (A.enc a) =
          [] ++ (A.enc a ++ (List.ofFn fun i : Fin n => f i.succ).flatMap A.enc) :=
        splice_middle rfl (by rw [hlen, hlen])
      simpa [Function.update_of_ne (Fin.succ_ne_zero _)] using h
    | succ i =>
      have ih := splice_flatMap_ofFn A a (fun i => f i.succ) i
      have hfits : (i.val + 1) * A.size ≤ n * A.size := Nat.mul_le_mul_right _ i.isLt
      have hmul : (i.val + 1) * A.size = A.size + i.val * A.size := by ring
      have htail : ((List.ofFn fun i : Fin n => f i.succ).flatMap A.enc).length = n * A.size :=
        A.length_flatMap_ofFn _
      have hupd : (fun j : Fin n => Function.update f i.succ a j.succ) = Function.update (fun j => f j.succ) i a := by
        funext j
        by_cases hj : j = i
        · subst hj; simp
        · have hne : j.succ ≠ i.succ := fun h => hj (Fin.succ_injective _ h)
          rw [Function.update_of_ne hne, Function.update_of_ne hj]
      rw [Function.update_of_ne (Fin.succ_ne_zero i).symm, hupd, ← ih, Fin.val_succ, hmul]
      generalize (List.ofFn fun i : Fin n => f i.succ).flatMap A.enc = tail at htail
      have hdrop : (A.enc (f 0) ++ tail).drop A.size = tail := by rw [← hlen (f 0), List.drop_left]
      have hk : i.val * A.size + (A.enc a).length ≤ n * A.size := by rw [hlen]; omega
      have hn : A.size + n * A.size ≤ (A.enc (f 0) ++ tail).length := by rw [List.length_append, hlen, htail]
      rw [splice_add hk hn, hdrop, List.take_of_length_le (by omega)]
      have hsplice : (splice tail (i.val * A.size) (A.enc a)).length = tail.length :=
        length_splice (by rw [hlen]; omega)
      have h : splice (A.enc (f 0) ++ (tail ++ [])) A.size (splice tail (i.val * A.size) (A.enc a)) =
          A.enc (f 0) ++ (splice tail (i.val * A.size) (A.enc a) ++ []) :=
        splice_middle (hlen _) hsplice
      simpa only [List.append_nil] using h

/-- An element of an array. -/
def elem (A : Codec α) {n : Nat} (i : Fin n) : Field (Codec.array n A) A where
  off := i * A.size
  get f := f i
  set a f := Function.update f i a
  fits := by
    have h : (i.val + 1) * A.size ≤ n * A.size := Nat.mul_le_mul_right _ i.isLt
    have hmul : (i.val + 1) * A.size = i.val * A.size + A.size := by ring
    rw [hmul] at h
    exact h
  dec_drop f rest := A.dec_flatMap_ofFn f rest i
  splice_enc f a := splice_flatMap_ofFn A a f i

end Field

end Layout
