/-
UTF-16 strings, which need not be well formed, and their UTF-8 bytes.

`codePoints` pairs the surrogates of a string; one that is left over is a code
point of its own. Nothing is lost (`units_codePoints`). An encoder writes a
question mark for one that is left over (`toUtf8`), so what it writes is the
encoding of a text that has a character for every code point.
-/
import AbkFido.Lib.Utf8

namespace Utf16

/-- A character, or a surrogate that is not one of a pair. -/
inductive CodePoint
  | char (c : Char)
  | lone (u : UInt16)
  deriving DecidableEq

def isHigh (u : UInt16) : Bool := 0xD800 ≤ u.toNat && u.toNat < 0xDC00

def isLow (u : UInt16) : Bool := 0xDC00 ≤ u.toNat && u.toNat < 0xE000

def single (u : UInt16) : CodePoint := if isHigh u || isLow u then .lone u else .char (Char.ofNat u.toNat)

def pair (u v : UInt16) : CodePoint := .char (Char.ofNat (0x10000 + (u.toNat - 0xD800) * 1024 + (v.toNat - 0xDC00)))

def codePoints : List UInt16 → List CodePoint
  | [] => []
  | [u] => [single u]
  | u :: v :: s => if isHigh u && isLow v then pair u v :: codePoints s else single u :: codePoints (v :: s)

def charUnits (c : Char) : List UInt16 :=
  if c.toNat < 0x10000 then [.ofNat c.toNat]
  else [.ofNat (0xD800 + (c.toNat - 0x10000) / 1024), .ofNat (0xDC00 + (c.toNat - 0x10000) % 1024)]

def CodePoint.units : CodePoint → List UInt16
  | .char c => charUnits c
  | .lone u => [u]

/-- What an encoder takes a code point for. -/
def CodePoint.toChar : CodePoint → Char
  | .char c => c
  | .lone _ => '?'

/-- The string of a text. -/
def encode (t : List Char) : List UInt16 := t.flatMap charUnits

/-- The characters an encoder writes. -/
def chars (s : List UInt16) : List Char := (codePoints s).map CodePoint.toChar

def toUtf8 (s : List UInt16) : List UInt8 := Utf8.encode (chars s)

/-! ## Nothing is lost -/

theorem toNat_char {n : Nat} (h : n < 0xD800 ∨ 0xDFFF < n ∧ n < 0x110000) : (Char.ofNat n).toNat = n := by
  rw [Char.ofNat, dif_pos h]
  rfl

theorem units_single (u : UInt16) : (single u).units = [u] := by
  have hu := u.toNat_lt
  unfold single
  split
  · rfl
  · next h =>
    simp only [isHigh, isLow, Bool.or_eq_true, Bool.and_eq_true, decide_eq_true_eq] at h
    have hchar : (Char.ofNat u.toNat).toNat = u.toNat := toNat_char (by omega)
    rw [CodePoint.units, charUnits, hchar, if_pos (by omega), UInt16.ofNat_toNat]

theorem units_pair {u v : UInt16} (hu : isHigh u = true) (hv : isLow v = true) : (pair u v).units = [u, v] := by
  simp only [isHigh, isLow, Bool.and_eq_true, decide_eq_true_eq] at hu hv
  have hchar : (Char.ofNat (0x10000 + (u.toNat - 0xD800) * 1024 + (v.toNat - 0xDC00))).toNat =
      0x10000 + (u.toNat - 0xD800) * 1024 + (v.toNat - 0xDC00) := toNat_char (by omega)
  rw [pair, CodePoint.units, charUnits, hchar, if_neg (by omega)]
  have hhigh : 0xD800 + (0x10000 + (u.toNat - 0xD800) * 1024 + (v.toNat - 0xDC00) - 0x10000) / 1024 = u.toNat := by omega
  have hlow : 0xDC00 + (0x10000 + (u.toNat - 0xD800) * 1024 + (v.toNat - 0xDC00) - 0x10000) % 1024 = v.toNat := by omega
  rw [hhigh, hlow, UInt16.ofNat_toNat, UInt16.ofNat_toNat]

theorem units_codePoints (s : List UInt16) : (codePoints s).flatMap CodePoint.units = s := by
  induction s using codePoints.induct with
  | case1 => rfl
  | case2 u => rw [codePoints, List.flatMap_singleton, units_single]
  | case3 u v s h ih =>
    rw [Bool.and_eq_true] at h
    rw [codePoints, if_pos (by rw [h.1, h.2]; rfl), List.flatMap_cons, units_pair h.1 h.2, ih]
    rfl
  | case4 u v s h ih =>
    rw [codePoints, if_neg h, List.flatMap_cons, units_single, ih]
    rfl

/-- The string of the characters is the string, where no surrogate is left over. -/
theorem encode_toChar {cps : List CodePoint} (h : ∀ cp ∈ cps, cp = .char cp.toChar) :
    encode (cps.map CodePoint.toChar) = cps.flatMap CodePoint.units := by
  rw [encode, List.flatMap_map]
  refine List.flatMap_congr fun cp hcp => ?_
  rw [h cp hcp]
  rfl

/-- A text comes back from its string. -/
theorem codePoints_encode (t : List Char) : codePoints (encode t) = t.map .char := by
  have hsingle : ∀ {n : Nat} (s : List UInt16), n < 0x10000 → (n < 0xD800 ∨ 0xDFFF < n) →
      codePoints (.ofNat n :: s) = .char (Char.ofNat n) :: codePoints s := by
    intro n s hlt hn
    have htoNat : (UInt16.ofNat n).toNat = n := UInt16.toNat_ofNat_of_lt' hlt
    have hhigh : isHigh (.ofNat n) = false := by
      rw [isHigh, htoNat, Bool.and_eq_false_iff, decide_eq_false_iff_not, decide_eq_false_iff_not]
      omega
    have hlow : isLow (.ofNat n) = false := by
      rw [isLow, htoNat, Bool.and_eq_false_iff, decide_eq_false_iff_not, decide_eq_false_iff_not]
      omega
    have hchar : single (.ofNat n) = .char (Char.ofNat n) := by
      rw [single, hhigh, hlow, htoNat]
      rfl
    cases s with
    | nil => exact congrArg (fun cp => [cp]) hchar
    | cons v s => rw [codePoints, hhigh, hchar, Bool.false_and, if_neg Bool.false_ne_true]
  induction t with
  | nil => rfl
  | cons c t ih =>
    have hvalid : c.toNat < 0xD800 ∨ 0xDFFF < c.toNat ∧ c.toNat < 0x110000 := c.valid
    rw [encode, List.flatMap_cons, ← encode, List.map_cons, charUnits]
    split
    · next h => rw [List.singleton_append, hsingle _ h (by omega), Char.ofNat_toNat, ih]
    · next h =>
      have hu : (UInt16.ofNat (0xD800 + (c.toNat - 0x10000) / 1024)).toNat = 0xD800 + (c.toNat - 0x10000) / 1024 :=
        UInt16.toNat_ofNat_of_lt' (show _ < 65536 by omega)
      have hv : (UInt16.ofNat (0xDC00 + (c.toNat - 0x10000) % 1024)).toNat = 0xDC00 + (c.toNat - 0x10000) % 1024 :=
        UInt16.toNat_ofNat_of_lt' (show _ < 65536 by omega)
      have hhigh : isHigh (.ofNat (0xD800 + (c.toNat - 0x10000) / 1024)) = true := by
        rw [isHigh, hu, Bool.and_eq_true, decide_eq_true_iff, decide_eq_true_iff]
        omega
      have hlow : isLow (.ofNat (0xDC00 + (c.toNat - 0x10000) % 1024)) = true := by
        rw [isLow, hv, Bool.and_eq_true, decide_eq_true_iff, decide_eq_true_iff]
        omega
      have hsum : 0x10000 + (0xD800 + (c.toNat - 0x10000) / 1024 - 0xD800) * 1024 +
          (0xDC00 + (c.toNat - 0x10000) % 1024 - 0xDC00) = c.toNat := by omega
      rw [List.cons_append, List.singleton_append, codePoints, hhigh, hlow, Bool.true_and, if_pos rfl, pair, hu, hv, hsum,
        Char.ofNat_toNat, ih]

@[simp] theorem chars_encode (t : List Char) : chars (encode t) = t := by
  rw [chars, codePoints_encode, List.map_map]
  exact List.map_id t

/-- A string without NUL has no NUL character. -/
theorem nul_not_mem_chars {s : List UInt16} (h : 0 ∉ s) : Char.ofNat 0 ∉ chars s := by
  intro hmem
  obtain ⟨cp, hcp, hnul⟩ := List.mem_map.mp hmem
  cases cp with
  | lone u =>
    have hmark : '?' = Char.ofNat 0 := hnul
    exact absurd hmark (by decide)
  | char c =>
    cases hnul
    apply h
    rw [← units_codePoints s, List.mem_flatMap]
    exact ⟨_, hcp, by decide⟩

end Utf16
