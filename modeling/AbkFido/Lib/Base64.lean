/-
Base64 with padding, and a decoder that skips every character outside its
alphabet.

The decoder looks at one character at a time; between characters it keeps the
digits of an unfinished group (`Group`). It gives back what was encoded
(`decode_encode`).
-/
import Mathlib.Data.List.Basic

namespace Base64

def alphabet : List Char := "ABCDEFGHIJKLMNOPQRSTUVWXYZabcdefghijklmnopqrstuvwxyz0123456789+/".toList

def digit (n : Nat) : Char := alphabet.getD n '='

def encode : List UInt8 → List Char
  | [] => []
  | [a] => [digit (a.toNat / 4), digit (a.toNat % 4 * 16), '=', '=']
  | [a, b] =>
    [digit (a.toNat / 4), digit (a.toNat % 4 * 16 + b.toNat / 16), digit (b.toNat % 16 * 4), '=']
  | a :: b :: c :: rest =>
    digit (a.toNat / 4) :: digit (a.toNat % 4 * 16 + b.toNat / 16) :: digit (b.toNat % 16 * 4 + c.toNat / 64) ::
      digit (c.toNat % 64) :: encode rest

/-- What the decoder has read of a group: some digits, or the padding that ends it. -/
inductive Group
  | empty
  | one (bits : Nat)
  | two (bits : Nat)
  | three (bits : Nat)
  /-- After `==` only once. -/
  | halfPadded
  | padded

inductive Symbol
  | digit (n : Nat)
  | pad
  | skip
  deriving DecidableEq

def symbol (c : Char) : Symbol :=
  if c = '=' then .pad else match alphabet.idxOf? c with
    | some n => .digit n
    | none => .skip

/-- The bytes a symbol completes and what is kept; `none` where it has no place. -/
def Group.read : Group → Symbol → Option (List UInt8 × Group)
  | g, .skip => some ([], g)
  | .empty, .digit n => some ([], .one n)
  | .one bits, .digit n => some ([], .two (bits * 64 + n))
  | .two bits, .digit n => some ([], .three (bits * 64 + n))
  | .two bits, .pad => some ([.ofNat (bits / 16)], .halfPadded)
  | .three bits, .digit n =>
    let value := bits * 64 + n
    some ([.ofNat (value / 65536), .ofNat (value / 256), .ofNat value], .empty)
  | .three bits, .pad => some ([.ofNat (bits / 1024), .ofNat (bits / 4)], .padded)
  | .halfPadded, .pad => some ([], .padded)
  | _, _ => none

/-- At the end of the text; padding may be missing, but not half of it. -/
def Group.finish : Group → Option (List UInt8)
  | .empty => some []
  | .one _ => none
  | .two bits => some [.ofNat (bits / 16)]
  | .three bits => some [.ofNat (bits / 1024), .ofNat (bits / 4)]
  | .halfPadded => none
  | .padded => some []

def decodeFrom : Group → List Char → Option (List UInt8)
  | g, [] => g.finish
  | g, c :: cs => (g.read (symbol c)).bind fun (bytes, g') => (decodeFrom g' cs).map (bytes ++ ·)

def decode (s : List Char) : Option (List UInt8) := decodeFrom .empty s

/-! ## Round trip -/

theorem symbol_digit : ∀ n < 64, symbol (digit n) = .digit n := by decide +kernel

theorem symbol_pad : symbol '=' = .pad := rfl

variable (a b c : UInt8)

theorem decodeFrom_digit {g : Group} {n : Nat} (h : n < 64) (cs : List Char) :
    decodeFrom g (digit n :: cs) = (g.read (.digit n)).bind fun (bytes, g') => (decodeFrom g' cs).map (bytes ++ ·) := by
  rw [decodeFrom, symbol_digit n h]

/-- Four digits are three bytes. -/
theorem decode_group (rest : List Char) :
    decode (digit (a.toNat / 4) :: digit (a.toNat % 4 * 16 + b.toNat / 16) :: digit (b.toNat % 16 * 4 + c.toNat / 64) ::
      digit (c.toNat % 64) :: rest) = (decode rest).map fun bytes => a :: b :: c :: bytes := by
  have ha := a.toNat_lt
  have hb := b.toNat_lt
  have hc := c.toNat_lt
  have hvalue : ((a.toNat / 4 * 64 + (a.toNat % 4 * 16 + b.toNat / 16)) * 64 + (b.toNat % 16 * 4 + c.toNat / 64)) * 64 +
      c.toNat % 64 = a.toNat * 65536 + b.toNat * 256 + c.toNat := by omega
  have hfirst : UInt8.ofNat ((a.toNat * 65536 + b.toNat * 256 + c.toNat) / 65536) = a := by
    rw [show (a.toNat * 65536 + b.toNat * 256 + c.toNat) / 65536 = a.toNat by omega, UInt8.ofNat_toNat]
  have hsecond : UInt8.ofNat ((a.toNat * 65536 + b.toNat * 256 + c.toNat) / 256) = b := by
    apply UInt8.toNat_inj.mp
    rw [UInt8.toNat_ofNat']
    omega
  have hthird : UInt8.ofNat (a.toNat * 65536 + b.toNat * 256 + c.toNat) = c := by
    apply UInt8.toNat_inj.mp
    rw [UInt8.toNat_ofNat']
    omega
  rw [decode, decodeFrom_digit (by omega)]
  simp only [Group.read, Option.bind_some]
  rw [decodeFrom_digit (by omega)]
  simp only [Group.read, Option.bind_some]
  rw [decodeFrom_digit (by omega)]
  simp only [Group.read, Option.bind_some]
  rw [decodeFrom_digit (by omega)]
  simp only [Group.read, Option.bind_some]
  rw [hvalue, hfirst, hsecond, hthird, decode]
  cases decodeFrom .empty rest <;> rfl

theorem decode_two : decode (encode [a, b]) = some [a, b] := by
  have ha := a.toNat_lt
  have hb := b.toNat_lt
  have hvalue : (a.toNat / 4 * 64 + (a.toNat % 4 * 16 + b.toNat / 16)) * 64 + b.toNat % 16 * 4 =
      a.toNat * 1024 + b.toNat * 4 := by omega
  have hfirst : UInt8.ofNat ((a.toNat * 1024 + b.toNat * 4) / 1024) = a := by
    rw [show (a.toNat * 1024 + b.toNat * 4) / 1024 = a.toNat by omega, UInt8.ofNat_toNat]
  have hsecond : UInt8.ofNat ((a.toNat * 1024 + b.toNat * 4) / 4) = b := by
    apply UInt8.toNat_inj.mp
    rw [UInt8.toNat_ofNat']
    omega
  rw [decode, encode, decodeFrom_digit (by omega)]
  simp only [Group.read, Option.bind_some]
  rw [decodeFrom_digit (by omega)]
  simp only [Group.read, Option.bind_some]
  rw [decodeFrom_digit (by omega)]
  simp only [Group.read, Option.bind_some, decodeFrom, symbol_pad, Group.finish]
  rw [hvalue, hfirst, hsecond]
  rfl

theorem decode_one : decode (encode [a]) = some [a] := by
  have ha := a.toNat_lt
  have hfirst : UInt8.ofNat ((a.toNat / 4 * 64 + a.toNat % 4 * 16) / 16) = a := by
    rw [show (a.toNat / 4 * 64 + a.toNat % 4 * 16) / 16 = a.toNat by omega, UInt8.ofNat_toNat]
  rw [decode, encode, decodeFrom_digit (by omega)]
  simp only [Group.read, Option.bind_some]
  rw [decodeFrom_digit (by omega)]
  simp only [Group.read, Option.bind_some, decodeFrom, symbol_pad, Group.finish]
  rw [hfirst]
  rfl

theorem decode_encode (bytes : List UInt8) : decode (encode bytes) = some bytes := by
  induction bytes using encode.induct with
  | case1 => rfl
  | case2 a => exact decode_one a
  | case3 a b => exact decode_two a b
  | case4 a b c rest ih => rw [encode, decode_group, ih, Option.map_some]

end Base64
