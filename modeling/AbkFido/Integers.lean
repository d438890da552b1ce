/-
What the parsers take an integer for.

`abk_cbor_read_int` casts the argument of the head to `s64`, so an integer is
read modulo 2^64 (`readInt_value`). One that an `s64` holds is read as it is;
any other is read as an integer of the other sign, which may be a map key, a
COSE label or ES256 (`exists_not_actsOn`), where it should be refused.
-/
import AbkFido.Reading
import AbkFido.Request

namespace AbkFido

open Cbor CborForm

/-- The integer that an item of major type 0 or 1 encodes. -/
def intValue (major n : Nat) : Int := if major = 0 then n else -1 - n

def FitsS64 (v : Int) : Prop := -2 ^ 63 ≤ v ∧ v < 2 ^ 63

instance (v : Int) : Decidable (FitsS64 v) := inferInstanceAs (Decidable (_ ∧ _))

/-- Whatever a parser does with the integer it reads next, a map key, a label
or an algorithm, it does with `v`, once `bytes` are read; it stops if no `s64`
holds `v`. -/
def ActsOn (v : Int) (r : Reader) (pre bytes rest : List UInt8) : Prop :=
  if FitsS64 v then
    ∃ t, Reader.cursor.At t (pre ++ bytes) rest ∧ ∀ (α : Type) (act : Int → Cbor α), (readInt >>= act) r = act v t
  else ∀ (α : Type) (act : Int → Cbor α), ∃ e t, (readInt >>= act) r = (.error e, t)

theorem fitsS64_intValue {major n : Nat} : FitsS64 (intValue major n) ↔ n < 2 ^ 63 := by
  unfold FitsS64 intValue
  split <;> omega

theorem bmod_of_fits {v : Int} (h : FitsS64 v) : v.bmod (2 ^ 64) = v := by
  obtain ⟨hmin, hmax⟩ := h
  exact Int.bmod_eq_of_le_mul_two (by push_cast; omega) (by push_cast; omega)

/-- The two casts are one reduction modulo 2^64. -/
theorem sub_toS64 {n : Nat} (h : n < 2 ^ 64) : -1 - toS64 n = (-1 - (n : Int)).bmod (2 ^ 64) := by
  unfold toS64
  rcases lt_or_ge n (2 ^ 63) with hlow | hhigh
  · rw [bmod_of_fits ⟨by omega, by omega⟩, bmod_of_fits ⟨by omega, by omega⟩]
  · have hn : (n : Int).bmod (2 ^ 64) = n - 2 ^ 64 := by
      rw [← Int.sub_bmod_right]
      exact bmod_of_fits ⟨by push_cast; omega, by push_cast; omega⟩
    have hneg : (-1 - (n : Int)).bmod (2 ^ 64) = -1 - n + 2 ^ 64 := by
      rw [← Int.add_bmod_right]
      exact bmod_of_fits ⟨by push_cast; omega, by push_cast; omega⟩
    rw [hn, hneg]
    omega

/-- An integer is read modulo 2^64. -/
theorem readInt_value {major n : Nat} {bytes : List UInt8} (hmajor : major = 0 ∨ major = 1) (h : Head major n bytes) :
    Reads readInt bytes ((intValue major n).bmod (2 ^ 64)) := by
  refine (readHead_reads h (by omega)).bind_nil ?_
  rcases hmajor with rfl | rfl
  · exact .pure _
  · show Reads (pure (-1 - toS64 n)) _ _
    rw [sub_toS64 h.arg_lt]
    exact .pure _

section
variable {major n : Nat} {bytes pre rest : List UInt8} {r : Reader}

/-- One that does not fit is taken for another. -/
theorem not_actsOn (hmajor : major = 0 ∨ major = 1) (h : Head major n bytes) (hat : Reader.cursor.At r pre (bytes ++ rest))
    (hlim : (pre ++ bytes).length < 2 ^ 64) (hn : ¬ n < 2 ^ 63) : ¬ ActsOn (intValue major n) r pre bytes rest := by
  obtain ⟨t, hrun, _⟩ := (readInt_value hmajor h pre hlim).1 r rest hat
  rw [ActsOn, if_neg (mt fitsS64_intValue.mp hn)]
  intro hstops
  obtain ⟨e, u, herr⟩ := hstops Int pure
  rw [Prog.bind_ok hrun] at herr
  cases herr

/-- **The parsers act on the integer that is encoded exactly if its argument is below 2^63.** -/
theorem actsOn_iff (hmajor : major = 0 ∨ major = 1) (h : Head major n bytes)
    (hat : Reader.cursor.At r pre (bytes ++ rest)) (hlim : (pre ++ bytes).length < 2 ^ 64) :
    ActsOn (intValue major n) r pre bytes rest ↔ n < 2 ^ 63 := by
  refine ⟨fun hacts => of_not_not fun hn => not_actsOn hmajor h hat hlim hn hacts, fun hn => ?_⟩
  have hfits : FitsS64 (intValue major n) := fitsS64_intValue.mpr hn
  obtain ⟨t, hrun, hat'⟩ := (readInt_value hmajor h pre hlim).1 r rest hat
  rw [bmod_of_fits hfits] at hrun
  rw [ActsOn, if_pos hfits]
  exact ⟨t, hat', fun α act => Prog.bind_ok hrun⟩

end

/-- The key 9 in a buffer of its own. -/
theorem actsOn_nine : ActsOn (intValue 0 9) (.init [9]) [] [9] [] ↔ 9 < 2 ^ 63 :=
  actsOn_iff (.inl rfl) (.short (by decide)) ⟨rfl, rfl⟩ (by decide)

/-- A makeCredential request up to the algorithm of its only `pubKeyCredParams` entry. -/
def beforeAlg : List UInt8 :=
  [0xa4, 1, 0x58, 32] ++ List.replicate 32 0 ++ [2, 0xa1, 0x62] ++ text "id" ++ [0x61] ++ text "a" ++
    [3, 0xa1, 0x62] ++ text "id" ++ [0x41, 1] ++ [4, 0x81, 0xa2, 0x63] ++ text "alg"

def afterAlg : List UInt8 := [0x64] ++ text "type" ++ [0x6a] ++ text "public-key"

/-- The integer 2^64 - 7. -/
def aliasOfEs256 : List UInt8 := 0x1b :: bigEndian 8 (2 ^ 64 - 7)

/-- The reader at the algorithm. -/
def atAlg : Reader := { Reader.init (beforeAlg ++ (aliasOfEs256 ++ afterAlg)) with pos := beforeAlg.length }

/-- A request with no algorithm the key has is accepted as one for ES256. -/
theorem exists_not_actsOn :
    (parseMakeCred maxMsg (.init (beforeAlg ++ (aliasOfEs256 ++ afterAlg)))).1.isOk = true ∧
      Head 0 (2 ^ 64 - 7) aliasOfEs256 ∧ ¬ ActsOn (intValue 0 (2 ^ 64 - 7)) atAlg beforeAlg aliasOfEs256 afterAlg := by
  have head : Head 0 (2 ^ 64 - 7) aliasOfEs256 := .wide (i := 27) (n := 8) (by decide) (by decide)
  exact ⟨by decide +kernel, head, not_actsOn (.inl rfl) head ⟨rfl, rfl⟩ (by decide) (by decide)⟩

end AbkFido
