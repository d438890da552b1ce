/-
UTF-8 text, and what a decoder that replaces makes of any bytes.

`decode` reads one byte at a time and writes U+FFFD for each longest run of
bytes that begins a character and cannot go on. It gives back every encoded
text (`decode_encode`), so bytes survive decoding and encoding again exactly
if they are an encoded text (`encode_decode_eq_iff`).
-/
import Mathlib.Data.List.Basic
import Mathlib.Data.List.GetD

namespace Utf8

/-- The UTF-8 bytes of a text. -/
def encode (s : List Char) : List UInt8 := s.flatMap String.utf8EncodeChar

/-- U+FFFD -/
def replacement : Char := Char.ofNat 0xFFFD

/-- A character has begun: how many bytes it still takes, what the next one
may be, and the bits so far. -/
structure Pending where
  left : Nat
  low : Nat
  high : Nat
  bits : Nat

/-- What a byte that is not ASCII begins. -/
def lead (b : Nat) : Option Pending :=
  if b < 0xC2 then none
  else if b < 0xE0 then some ⟨1, 0x80, 0xBF, b - 0xC0⟩
  else if b < 0xF0 then some ⟨2, if b = 0xE0 then 0xA0 else 0x80, if b = 0xED then 0x9F else 0xBF, b - 0xE0⟩
  else if b < 0xF5 then some ⟨3, if b = 0xF0 then 0x90 else 0x80, if b = 0xF4 then 0x8F else 0xBF, b - 0xF0⟩
  else none

/-- A byte between characters: what is written, and what has begun. -/
def start (b : UInt8) : List Char × Option Pending :=
  if b.toNat < 0x80 then ([Char.ofNat b.toNat], none)
  else match lead b.toNat with
    | some p => ([], some p)
    | none => ([replacement], none)

def decodeFrom : Option Pending → List UInt8 → List Char
  | none, [] => []
  | some _, [] => [replacement]
  | none, b :: bs => (start b).1 ++ decodeFrom (start b).2 bs
  | some p, b :: bs =>
    if p.low ≤ b.toNat ∧ b.toNat ≤ p.high then
      let bits := p.bits * 64 + b.toNat % 64
      if p.left = 1 then Char.ofNat bits :: decodeFrom none bs
      else decodeFrom (some ⟨p.left - 1, 0x80, 0xBF, bits⟩) bs
    -- The byte is looked at again, between characters.
    else replacement :: (start b).1 ++ decodeFrom (start b).2 bs

def decode (bytes : List UInt8) : List Char := decodeFrom none bytes

/-! ## Characters -/

theorem decodeFrom_start {n : Nat} (h : n < 256) (hascii : 0x80 ≤ n) {p : Pending} (hlead : lead n = some p) (rest : List UInt8) :
    decodeFrom none (UInt8.ofNat n :: rest) = decodeFrom (some p) rest := by
  simp only [decodeFrom, start, UInt8.toNat_ofNat_of_lt' h, hlead, if_neg (Nat.not_lt.mpr hascii), List.nil_append]

theorem decodeFrom_more {p : Pending} {n : Nat} (h : n < 256) (hlow : p.low ≤ n) (hhigh : n ≤ p.high) (hleft : p.left ≠ 1)
    (rest : List UInt8) : decodeFrom (some p) (UInt8.ofNat n :: rest) =
      decodeFrom (some ⟨p.left - 1, 0x80, 0xBF, p.bits * 64 + n % 64⟩) rest := by
  simp only [decodeFrom, UInt8.toNat_ofNat_of_lt' h, hlow, hhigh, and_self, if_true, if_neg hleft]

theorem decodeFrom_last {p : Pending} {n : Nat} (h : n < 256) (hlow : p.low ≤ n) (hhigh : n ≤ p.high) (hleft : p.left = 1)
    (rest : List UInt8) : decodeFrom (some p) (UInt8.ofNat n :: rest) =
      Char.ofNat (p.bits * 64 + n % 64) :: decodeFrom none rest := by
  simp only [decodeFrom, UInt8.toNat_ofNat_of_lt' h, hlow, hhigh, and_self, if_true, hleft]

theorem ofNat_eq {c : Char} {n : Nat} (h : n = c.toNat) : Char.ofNat n = c := by rw [h, Char.ofNat_toNat]

/-- An encoded character is read back, whatever comes after. -/
theorem decode_utf8EncodeChar (c : Char) (rest : List UInt8) :
    decode (String.utf8EncodeChar c ++ rest) = c :: decode rest := by
  have hvalid : c.toNat < 0xD800 ∨ 0xDFFF < c.toNat ∧ c.toNat < 0x110000 := c.valid
  have hval : c.val.toNat = c.toNat := rfl
  unfold String.utf8EncodeChar decode
  simp only [hval]
  split
  · next h =>
    simp only [List.cons_append, List.nil_append, decodeFrom, start, UInt8.toNat_ofNat_of_lt' (show c.toNat < 256 by omega),
      if_pos (show c.toNat < 0x80 by omega), ofNat_eq rfl]
  split
  · next h =>
    have hlead : lead (c.toNat / 64 % 32 + 192) = some ⟨1, 0x80, 0xBF, c.toNat / 64⟩ := by
      have hhead : c.toNat / 64 % 32 = c.toNat / 64 := by omega
      rw [hhead, lead, if_neg (by omega), if_pos (by omega), Nat.add_sub_cancel]
    rw [List.cons_append, decodeFrom_start (by omega) (by omega) hlead, List.cons_append,
      decodeFrom_last (by omega) (by simp only; omega) (by simp only; omega) rfl]
    rw [ofNat_eq (c := c) (by simp only; omega), List.nil_append]
  split
  · next h =>
    have hlead : lead (c.toNat / 4096 % 16 + 224) = some ⟨2, if c.toNat / 4096 + 224 = 0xE0 then 0xA0 else 0x80,
        if c.toNat / 4096 + 224 = 0xED then 0x9F else 0xBF, c.toNat / 4096⟩ := by
      have hhead : c.toNat / 4096 % 16 = c.toNat / 4096 := by omega
      rw [hhead, lead, if_neg (by omega), if_neg (by omega), if_pos (by omega), Nat.add_sub_cancel]
    rw [List.cons_append, decodeFrom_start (by omega) (by omega) hlead, List.cons_append,
      decodeFrom_more (by omega) (by simp only; split <;> omega) (by simp only; split <;> omega) (by simp only; omega),
      List.cons_append, decodeFrom_last (by omega) (by simp only; omega) (by simp only; omega) rfl]
    rw [ofNat_eq (c := c) (by simp only; omega), List.nil_append]
  · next h =>
    have hlead : lead (c.toNat / 262144 % 8 + 240) = some ⟨3, if c.toNat / 262144 + 240 = 0xF0 then 0x90 else 0x80,
        if c.toNat / 262144 + 240 = 0xF4 then 0x8F else 0xBF, c.toNat / 262144⟩ := by
      have hhead : c.toNat / 262144 % 8 = c.toNat / 262144 := by omega
      rw [hhead, lead, if_neg (by omega), if_neg (by omega), if_neg (by omega), if_pos (by omega), Nat.add_sub_cancel]
    rw [List.cons_append, decodeFrom_start (by omega) (by omega) hlead, List.cons_append,
      decodeFrom_more (by omega) (by simp only; split <;> omega) (by simp only; split <;> omega) (by simp only; omega),
      List.cons_append, decodeFrom_more (by omega) (by simp only; omega) (by simp only; omega) (by simp only; omega),
      List.cons_append, decodeFrom_last (by omega) (by simp only; omega) (by simp only; omega) rfl]
    rw [ofNat_eq (c := c) (by simp only; omega), List.nil_append]

/-! ## Texts -/

@[simp] theorem encode_nil : encode [] = [] := rfl

@[simp] theorem encode_cons (c : Char) (s : List Char) : encode (c :: s) = String.utf8EncodeChar c ++ encode s :=
  List.flatMap_cons

@[simp] theorem encode_append (s t : List Char) : encode (s ++ t) = encode s ++ encode t := List.flatMap_append

theorem decode_encode_append (s : List Char) (rest : List UInt8) : decode (encode s ++ rest) = s ++ decode rest := by
  induction s with
  | nil => rfl
  | cons c s ih => rw [encode_cons, List.append_assoc, decode_utf8EncodeChar, ih, List.cons_append]

@[simp] theorem decode_encode (s : List Char) : decode (encode s) = s := by
  have h := decode_encode_append s []
  rwa [List.append_nil, show decode [] = [] from rfl, List.append_nil] at h

/-- Bytes that are the encoding of a text. -/
def Valid (bytes : List UInt8) : Prop := ∃ s, encode s = bytes

/-- Whatever a decoder writes for the rest, only encoded texts come back. -/
theorem encode_decode_eq_iff {bytes : List UInt8} : encode (decode bytes) = bytes ↔ Valid bytes := by
  constructor
  · exact fun h => ⟨_, h⟩
  · rintro ⟨s, rfl⟩
    rw [decode_encode]

instance (bytes : List UInt8) : Decidable (Valid bytes) := decidable_of_iff _ encode_decode_eq_iff

/-! ## ASCII -/

theorem utf8EncodeChar_ascii {c : Char} (h : c.toNat < 0x80) : String.utf8EncodeChar c = [UInt8.ofNat c.toNat] := by
  have hval : c.val.toNat = c.toNat := rfl
  unfold String.utf8EncodeChar
  simp only [hval]
  rw [if_pos (by omega)]

/-- Only ASCII characters have ASCII bytes. -/
theorem mem_utf8EncodeChar {c : Char} {n : Nat} (hn : n < 0x80) :
    UInt8.ofNat n ∈ String.utf8EncodeChar c ↔ c.toNat = n := by
  have hval : c.val.toNat = c.toNat := rfl
  have hbyte : ∀ m, m < 256 → (UInt8.ofNat n = UInt8.ofNat m ↔ n = m) := by
    intro m hm
    rw [← UInt8.toNat_inj, UInt8.toNat_ofNat_of_lt' (show n < 256 by omega), UInt8.toNat_ofNat_of_lt' hm]
  unfold String.utf8EncodeChar
  simp only [hval]
  split
  · rw [List.mem_singleton, hbyte _ (by omega)]
    exact eq_comm
  split
  · simp only [List.mem_cons, List.not_mem_nil, or_false]
    rw [hbyte _ (by omega), hbyte _ (by omega)]
    omega
  split
  · simp only [List.mem_cons, List.not_mem_nil, or_false]
    rw [hbyte _ (by omega), hbyte _ (by omega), hbyte _ (by omega)]
    omega
  · simp only [List.mem_cons, List.not_mem_nil, or_false]
    rw [hbyte _ (by omega), hbyte _ (by omega), hbyte _ (by omega), hbyte _ (by omega)]
    omega

theorem mem_encode {c : Char} (h : c.toNat < 0x80) {s : List Char} : UInt8.ofNat c.toNat ∈ encode s ↔ c ∈ s := by
  rw [encode, List.mem_flatMap]
  constructor
  · rintro ⟨d, hd, hmem⟩
    rwa [← Char.toNat_inj.mp ((mem_utf8EncodeChar h).mp hmem)]
  · exact fun hc => ⟨c, hc, (mem_utf8EncodeChar h).mpr rfl⟩

/-! ## Part of a text -/

theorem continues_ofNat : ∀ m < 64, UInt8.ofNat m + 128 &&& 0xc0 = 0x80 := by decide +kernel

/-- Every byte of a character but the first says that it continues one. -/
theorem continues_utf8EncodeChar {c : Char} {k : Nat} (hpos : 0 < k) (hk : k < (String.utf8EncodeChar c).length) :
    (String.utf8EncodeChar c).getD k 0 &&& 0xc0 = 0x80 := by
  have hcont : ∀ m, UInt8.ofNat (m % 64) + 128 &&& 0xc0 = 0x80 := fun m => continues_ofNat _ (Nat.mod_lt m (by decide))
  obtain ⟨j, rfl⟩ : ∃ j, k = j + 1 := ⟨k - 1, by omega⟩
  revert hk
  unfold String.utf8EncodeChar
  dsimp only
  split
  · simp
  split
  · rcases j with _ | j <;> simp [hcont]
  split
  · rcases j with _ | _ | j <;> simp [hcont]
  · rcases j with _ | _ | _ | j <;> simp [hcont]

theorem starts_utf8EncodeChar (c : Char) : (String.utf8EncodeChar c).getD 0 0 &&& 0xc0 ≠ 0x80 := by
  have hvalid : c.toNat < 0xD800 ∨ 0xDFFF < c.toNat ∧ c.toNat < 0x110000 := c.valid
  have hval : c.val.toNat = c.toNat := rfl
  have hascii : ∀ m < 128, UInt8.ofNat m &&& 0xc0 ≠ 0x80 := by decide +kernel
  have hlead : ∀ m < 64, UInt8.ofNat (m + 192) &&& 0xc0 ≠ 0x80 := by decide +kernel
  unfold String.utf8EncodeChar
  simp only [hval]
  split
  · exact hascii _ (by omega)
  split
  · exact hlead _ (by omega)
  split
  · exact hlead _ (by omega)
  · exact hlead _ (by omega)

theorem utf8EncodeChar_ne_nil (c : Char) : String.utf8EncodeChar c ≠ [] := by
  unfold String.utf8EncodeChar
  dsimp only
  split
  · exact nofun
  split
  · exact nofun
  split <;> exact nofun

/-- The longest part of a text, from its beginning, that has no more than
`room` bytes. -/
structure Longest (room : Nat) (t kept : List Char) : Prop where
  isPrefix : kept <+: t
  length_le : (encode kept).length ≤ room
  longest : ∀ more, more <+: t → (encode more).length ≤ room → more <+: kept

/-- A part of a text ends where it ends, or where a character begins. -/
theorem boundary {t more : List Char} (h : more <+: t) :
    more = t ∨ (encode t).getD (encode more).length 0 &&& 0xc0 ≠ 0x80 := by
  obtain ⟨rest, rfl⟩ := h
  cases rest with
  | nil => exact .inl (List.append_nil _).symm
  | cons c rest =>
    refine .inr ?_
    have hpos := List.length_pos_iff.mpr (utf8EncodeChar_ne_nil c)
    rw [encode_append, List.getD_append_right _ _ _ _ (Nat.le_refl _), Nat.sub_self, encode_cons, List.getD_append _ _ _ _ hpos]
    exact starts_utf8EncodeChar c

theorem prefix_of_encode {t kept : List Char} (h : encode kept <+: encode t) : kept <+: t := by
  obtain ⟨rest, hrest⟩ := h
  refine ⟨decode rest, ?_⟩
  rw [← decode_encode_append, hrest, decode_encode]

theorem encode_of_isPrefix {t kept : List Char} (h : kept <+: t) : encode kept <+: encode t := by
  obtain ⟨rest, rfl⟩ := h
  rw [encode_append]
  exact List.prefix_append ..

/-- A text that is cut where a character begins is a text. -/
theorem valid_take (s : List Char) {k : Nat}
    (h : 0 < k → k < (encode s).length → (encode s).getD k 0 &&& 0xc0 ≠ 0x80) : Valid ((encode s).take k) := by
  induction s generalizing k with
  | nil => exact ⟨[], by simp⟩
  | cons c s ih =>
    rw [encode_cons] at h ⊢
    by_cases hzero : k = 0
    · exact ⟨[], by rw [hzero, List.take_zero, encode_nil]⟩
    by_cases hin : k < (String.utf8EncodeChar c).length
    · have hbyte := continues_utf8EncodeChar (by omega) hin
      rw [List.getD_append _ _ _ _ hin] at h
      exact absurd hbyte (h (by omega) (by rw [List.length_append]; omega))
    · obtain ⟨t, ht⟩ := ih (k := k - (String.utf8EncodeChar c).length) fun hpos hlt => by
        rw [List.getD_append_right _ _ _ _ (by omega)] at h
        exact h (by omega) (by rw [List.length_append]; omega)
      exact ⟨c :: t, by rw [encode_cons, List.take_append, List.take_of_length_le (by omega), ht]⟩

/-- And one that is cut at its first NUL. -/
theorem valid_takeWhile {bytes : List UInt8} (h : Valid bytes) : Valid (bytes.takeWhile (· != 0)) := by
  obtain ⟨s, rfl⟩ := h
  induction s with
  | nil => exact ⟨[], rfl⟩
  | cons c s ih =>
    obtain ⟨t, ht⟩ := ih
    rw [encode_cons]
    by_cases hc : c.toNat = 0
    · exact ⟨[], by rw [utf8EncodeChar_ascii (by omega), hc]; rfl⟩
    · have hzero : ∀ b ∈ String.utf8EncodeChar c, (b != 0) = true := by
        intro b hb
        rw [bne_iff_ne]
        rintro rfl
        exact hc ((mem_utf8EncodeChar (by decide)).mp hb)
      exact ⟨c :: t, by rw [encode_cons, List.takeWhile_append_of_pos hzero, ht]⟩

end Utf8
