/-
`CborWriter` of `WebAuthnCtapBridge`.

What the writer writes are the encodings of trees (`Wrote`), as long as no
length is over 65535; there it throws.
-/
import AbkFido.Lib.CborTree
import AbkFido.Lib.Utf8

namespace AbkFido

open CborForm

/-- What has been written; nothing once a call has thrown. -/
structure CborWriter where
  written : Option (List UInt8)

namespace CborWriter

def new : CborWriter := ⟨some []⟩

def build (w : CborWriter) : Option (List UInt8) := w.written

def write (bs : List UInt8) (w : CborWriter) : CborWriter := ⟨w.written.map (· ++ bs)⟩

def head (major n : Nat) (w : CborWriter) : CborWriter :=
  if n < 24 then w.write [.ofNat (major <<< 5 ||| n)]
  else if n < 256 then w.write [.ofNat (major <<< 5 ||| 24), .ofNat n]
  else if n < 65536 then w.write [.ofNat (major <<< 5 ||| 25), .ofNat (n >>> 8), .ofNat n]
  else ⟨none⟩

def int (n : Int) (w : CborWriter) : CborWriter := if n ≥ 0 then w.head 0 n.toNat else w.head 1 (-1 - n).toNat

def text (s : List Char) (w : CborWriter) : CborWriter := (w.head 3 (Utf8.encode s).length).write (Utf8.encode s)

def bytes (v : List UInt8) (w : CborWriter) : CborWriter := (w.head 2 v.length).write v

def bool (v : Bool) (w : CborWriter) : CborWriter := w.write [if v then 0xf5 else 0xf4]

def map (n : Nat) (w : CborWriter) : CborWriter := w.head 5 n

def array (values : List (List UInt8)) (w : CborWriter) : CborWriter := (w.head 4 values.length).write values.flatten

end CborWriter

/-! ## What is written -/

namespace CborWriter

/-- Nothing was thrown, and these bytes were written. -/
def Wrote (w : CborWriter) (bs : List UInt8) : Prop := w.written = some bs

theorem new_wrote : new.Wrote [] := rfl

/-- Nothing is written any more. -/
def threw : CborWriter := ⟨none⟩

@[simp] theorem threw_write (bs : List UInt8) : threw.write bs = threw := rfl

@[simp] theorem threw_head (major n : Nat) : threw.head major n = threw := by
  unfold head
  split_ifs <;> rfl

@[simp] theorem threw_int (n : Int) : threw.int n = threw := by
  unfold int
  split_ifs <;> exact threw_head _ _

@[simp] theorem threw_text (s : List Char) : threw.text s = threw := by simp [text]

@[simp] theorem threw_bytes (v : List UInt8) : threw.bytes v = threw := by simp [bytes]

@[simp] theorem threw_bool (v : Bool) : threw.bool v = threw := rfl

@[simp] theorem threw_map (n : Nat) : threw.map n = threw := threw_head 5 n

@[simp] theorem threw_array (values : List (List UInt8)) : threw.array values = threw := by simp [array]

theorem text_long (w : CborWriter) {s : List Char} (h : 65536 ≤ (Utf8.encode s).length) : w.text s = threw := by
  have hhead : w.head 3 (Utf8.encode s).length = threw := by
    rw [head, if_neg (by omega), if_neg (by omega), if_neg (by omega), threw]
  rw [text, hhead, threw_write]

namespace Wrote

variable {w : CborWriter} {bs : List UInt8}

theorem write (h : w.Wrote bs) (more : List UInt8) : (w.write more).Wrote (bs ++ more) := by
  rw [Wrote, CborWriter.write, h, Option.map_some]

theorem head (h : w.Wrote bs) {n : Nat} (major : Nat) (hn : n < 65536) : (w.head major n).Wrote (bs ++ shortHead major n) := by
  have hor : ∀ k < 32, major <<< 5 ||| k = major * 32 + k := fun k hk => by
    rw [← Nat.shiftLeft_add_eq_or_of_lt hk, Nat.shiftLeft_eq]
  unfold CborWriter.head shortHead
  by_cases h24 : n < 24
  · rw [if_pos h24, if_pos (by omega), hor n (by omega)]
    exact h.write _
  by_cases h256 : n < 256
  · rw [if_neg h24, if_pos h256, if_neg (by omega), if_pos (by omega), hor 24 (by omega)]
    have hone : bigEndian 1 n = [.ofNat n] := by simp [bigEndian]
    rw [hone]
    exact h.write _
  · rw [if_neg h24, if_neg h256, if_pos hn, if_neg (by omega), if_neg (by omega), if_pos (by omega), hor 25 (by omega)]
    have htwo : bigEndian 2 n = [.ofNat (n >>> 8), .ofNat n] := by
      simp [bigEndian, List.range_succ, Nat.shiftRight_eq_div_pow]
    rw [htwo]
    exact h.write _

theorem int (h : w.Wrote bs) {n : Int} (hmin : -65536 ≤ n) (hmax : n < 65536) :
    (w.int n).Wrote (bs ++ (Tree.int n).encode) := by
  unfold CborWriter.int Tree.int
  split
  · next hn => exact h.head 0 (by omega)
  · next hn => exact h.head 1 (by omega)

theorem text (h : w.Wrote bs) {s : List Char} (hs : (Utf8.encode s).length < 65536) :
    (w.text s).Wrote (bs ++ (Tree.text (Utf8.encode s)).encode) := by
  have hwrote := (h.head 3 hs).write (Utf8.encode s)
  rwa [List.append_assoc] at hwrote

theorem bytes (h : w.Wrote bs) {v : List UInt8} (hv : v.length < 65536) :
    (w.bytes v).Wrote (bs ++ (Tree.bytes v).encode) := by
  have hwrote := (h.head 2 hv).write v
  rwa [List.append_assoc] at hwrote

theorem bool (h : w.Wrote bs) (v : Bool) : (w.bool v).Wrote (bs ++ (Tree.bool v).encode) := by
  cases v with
  | true => exact h.write [0xf5]
  | false => exact h.write [0xf4]

theorem array (h : w.Wrote bs) {items : List Tree} (hn : items.length < 65536) :
    (w.array (items.map Tree.encode)).Wrote (bs ++ (Tree.array items).encode) := by
  have hwrote := (h.head 4 hn).write (Tree.encodeItems items)
  rw [List.append_assoc] at hwrote
  rw [CborWriter.array, List.length_map, ← List.flatMap_def, ← Tree.encodeItems_eq]
  exact hwrote

theorem map (h : w.Wrote bs) {n : Nat} (hn : n < 65536) : (w.map n).Wrote (bs ++ shortHead 5 n) := h.head 5 hn

end Wrote

end CborWriter

end AbkFido
