/-
DER: the one encoding it leaves of a natural number, and of a sequence of
two.

An INTEGER has the fewest octets that hold it with its sign, so for a number
that is not negative the first octet is 0 only to keep the next one's high
bit from being the sign (`Reduced`, `Reduced.isInteger`).
-/
import AbkFido.Lib.CborForm

namespace Der

open CborForm (ofBigEndian ofBigEndian_cons ofBigEndian_lt)

/-- The contents of an INTEGER that is not negative. -/
structure Holds (v : ℕ) (content : List UInt8) : Prop where
  value : ofBigEndian content = v
  sign : ∃ b bs, content = b :: bs ∧ b < 0x80

/-- In the fewest octets. -/
structure IsInteger (v : ℕ) (content : List UInt8) : Prop extends Holds v content where
  least : ∀ other, Holds v other → content.length ≤ other.length

/-- A length in the short form, or in the long one with the fewest octets. -/
inductive IsLength (n : ℕ) : List UInt8 → Prop
  | short (h : n < 0x80) : IsLength n [UInt8.ofNat n]
  | long {b : UInt8} {bs : List UInt8} (h : 0x80 ≤ n) (hb : b ≠ 0) (hvalue : ofBigEndian (b :: bs) = n)
      (hlen : (b :: bs).length < 0x7f) : IsLength n (UInt8.ofNat (0x80 + (b :: bs).length) :: b :: bs)

inductive IsTagged (tag : UInt8) (content : List UInt8) : List UInt8 → Prop
  | mk {len : List UInt8} (h : IsLength content.length len) : IsTagged tag content (tag :: (len ++ content))

/-- A SEQUENCE of two INTEGERs. -/
inductive IsPair (r s : ℕ) : List UInt8 → Prop
  | mk {rContent sContent rBytes sBytes bytes : List UInt8} (hr : IsInteger r rContent) (hs : IsInteger s sContent)
      (rTagged : IsTagged 0x02 rContent rBytes) (sTagged : IsTagged 0x02 sContent sBytes)
      (h : IsTagged 0x30 (rBytes ++ sBytes) bytes) : IsPair r s bytes

theorem isTagged_short {tag : UInt8} {content : List UInt8} (h : content.length < 0x80) :
    IsTagged tag content (tag :: UInt8.ofNat content.length :: content) := .mk (.short h)

/-! ## The fewest octets -/

/-- No octet can be left out: where the first is 0, the next has its high bit set. -/
def Reduced : List UInt8 → Prop
  | b :: b' :: _ => b ≠ 0 ∨ 0x80 ≤ b'
  | _ => True

theorem Holds.lt {v : ℕ} {b : UInt8} {bs : List UInt8} (h : Holds v (b :: bs)) : v < 0x80 * 256 ^ bs.length := by
  obtain ⟨_, _, heq, hb⟩ := h.sign
  cases heq
  have hlt := ofBigEndian_lt bs
  have hle : b.toNat + 1 ≤ 0x80 := UInt8.lt_iff_toNat_lt.mp hb
  have hmul := Nat.mul_le_mul_right (256 ^ bs.length) hle
  rw [← h.value, ofBigEndian_cons]
  rw [Nat.succ_mul] at hmul
  omega

theorem Reduced.le {b b' : UInt8} {bs : List UInt8} (h : Reduced (b :: b' :: bs)) :
    0x80 * 256 ^ bs.length ≤ ofBigEndian (b :: b' :: bs) := by
  rw [ofBigEndian_cons, ofBigEndian_cons, List.length_cons, Nat.pow_succ]
  rcases h with h | h
  · have hb : 1 ≤ b.toNat := Nat.pos_of_ne_zero fun h0 => h (UInt8.toNat_inj.mp h0)
    have hmul := Nat.mul_le_mul_right (256 ^ bs.length * 256) hb
    omega
  · have hmul := Nat.mul_le_mul_right (256 ^ bs.length) (UInt8.le_iff_toNat_le.mp h)
    have h80 : (0x80 : UInt8).toNat = 0x80 := rfl
    rw [h80] at hmul
    omega

theorem Reduced.isInteger {v : ℕ} {content : List UInt8} (h : Reduced content) (hholds : Holds v content) :
    IsInteger v content where
  toHolds := hholds
  least := by
    intro other hother
    obtain ⟨c, cs, rfl, _⟩ := hother.sign
    have hlt := hother.lt
    rw [← hholds.value] at hlt
    match content, h with
    | [], _ => exact Nat.zero_le _
    | [_], _ => exact Nat.succ_le_succ (Nat.zero_le _)
    | b :: b' :: bs, h =>
      have hpow := Nat.lt_of_mul_lt_mul_left (Nat.lt_of_le_of_lt h.le hlt)
      have hlen := (Nat.pow_lt_pow_iff_right (by decide)).mp hpow
      simp only [List.length_cons]
      omega

end Der
