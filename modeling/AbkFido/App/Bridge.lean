/-
`CborReader` of `WebAuthnCtapBridge`: how the Credential Manager provider
reads an assertion the driver wrote.

The reader's position is kept as the bytes from it on, so a lookup goes from
one position to another. A lookup that throws leaves no position to go on
from. `value`, which calls itself for what is nested, takes a bound on the
depth here; the bytes that are left are bound enough (`value_enough`).
-/
import AbkFido.Request
import AbkFido.CborFacts

namespace AbkFido

/-- What the reader throws. -/
inductive ReadFault
  | indexOutOfBounds
  /-- `error("unsupported CBOR")` -/
  | unsupported
  deriving DecidableEq

namespace CborReader

/-- The bytes from the position on. -/
abbrev Pos := List UInt8

/-- `raw[p++]` -/
def next : Pos → Except ReadFault (Nat × Pos)
  | [] => .error .indexOutOfBounds
  | b :: p => .ok (b.toNat, p)

/-- `raw.copyOfRange(p, p + n)` and `p += n` -/
def take (n : Nat) (p : Pos) : Except ReadFault (List UInt8 × Pos) :=
  if n ≤ p.length then .ok (p.take n, p.drop n) else .error .indexOutOfBounds

/-- The major type and the argument of a head. -/
def item (p : Pos) : Except ReadFault ((Nat × Nat) × Pos) := do
  let (x, p) ← next p
  let m := x / 32
  let a := x % 32
  if a ≤ 23 then .ok ((m, a), p)
  else if a = 24 then do
    let (b, p) ← next p
    .ok ((m, b), p)
  else if a = 25 then do
    let (b, p) ← next p
    let (c, p) ← next p
    .ok ((m, b * 256 + c), p)
  else .error .unsupported

/-- `repeat(n)` -/
def times (n : Nat) (body : Pos → Except ReadFault Pos) (p : Pos) : Except ReadFault Pos :=
  match n with
  | 0 => .ok p
  | n + 1 => do times n body (← body p)

/-- The position after a value; no caller looks at its bytes. -/
def valueWithin : Nat → Pos → Except ReadFault Pos
  | 0, _ => .error .indexOutOfBounds
  | depth + 1, p => do
    let ((m, n), p) ← item p
    if m = 0 ∨ m = 1 then .ok p
    else if m = 2 ∨ m = 3 then do
      let (_, p) ← take n p
      .ok p
    else if m = 4 then times n (valueWithin depth) p
    else if m = 5 then times (n * 2) (valueWithin depth) p
    else if m = 7 then .ok p
    else .error .unsupported

def value (p : Pos) : Except ReadFault Pos := valueWithin (p.length + 1) p

/-- The loop of `bytes` over that many pairs. -/
def bytesLoop (key : Nat) : Nat → Pos → Except ReadFault (Option (List UInt8 × Pos))
  | 0, _ => .ok none
  | left + 1, p => do
    let (k, p) ← item p
    if k.1 = 0 ∧ k.2 = key then do
      let ((vm, vn), p) ← item p
      if vm = 2 then do
        let (out, p) ← take vn p
        let p ← times (left * 2) value p
        .ok (some (out, p))
      else do
        -- The head of the value is read already: this skips what comes after it.
        let p ← value p
        bytesLoop key left p
    else do
      let p ← value p
      bytesLoop key left p

/-- `bytes`: found, the position is after the map; not found, it is back where it was. -/
def bytes (key : Nat) (p : Pos) : Except ReadFault (Option (List UInt8) × Pos) := do
  let ((m, n), q) ← item p
  if m ≠ 5 then .ok (none, p)
  else
    match ← bytesLoop key n q with
    | some (out, q) => .ok (some out, q)
    | none => .ok (none, p)

/-- The loop over the nested map; `nestedKey` is not looked at, the key is always the text "id". -/
def nestedLoop : Nat → Pos → Except ReadFault (Option (List UInt8) × Pos)
  | 0, p => .ok (none, p)
  | left + 1, p => do
    let ((nm, nn), p) ← item p
    if nm = 3 then do
      let (text, p) ← take nn p
      if text = AbkFido.text "id" then do
        let ((bm, bn), p) ← item p
        if bm = 2 then do
          let (out, p) ← take bn p
          .ok (some out, p)
        else nestedLoop left p
      else do
        let p ← value p
        nestedLoop left p
    else do
      let p ← value p
      nestedLoop left p

/-- The loop of `mapBytes` over that many pairs. -/
def mapBytesLoop (key : Nat) : Nat → Pos → Except ReadFault (Option (List UInt8 × Pos))
  | 0, _ => .ok none
  | left + 1, p => do
    let (k, p) ← item p
    if k.1 = 0 ∧ k.2 = key then do
      let ((vm, vn), p) ← item p
      if vm ≠ 5 then .ok none
      else
        match ← nestedLoop vn p with
        | (some out, p) => .ok (some (out, p))
        | (none, p) => mapBytesLoop key left p
    else do
      let p ← value p
      mapBytesLoop key left p

/-- `mapBytes`: found, the position is inside the nested map, after what was found. -/
def mapBytes (key _nestedKey : Nat) (p : Pos) : Except ReadFault (Option (List UInt8) × Pos) := do
  let ((m, n), q) ← item p
  if m ≠ 5 then .ok (none, p)
  else
    match ← mapBytesLoop key n q with
    | some (out, q) => .ok (some out, q)
    | none => .ok (none, p)

/-! ## Lookups -/

inductive Lookup
  | bytes (key : Nat)
  | mapBytes (key nestedKey : Nat)

def Lookup.run : Lookup → Pos → Except ReadFault (Option (List UInt8) × Pos)
  | .bytes key => CborReader.bytes key
  | .mapBytes key nestedKey => CborReader.mapBytes key nestedKey

/-- The position after some lookups, if none of them throws. -/
def after : List Lookup → Pos → Except ReadFault Pos
  | [], p => .ok p
  | l :: ls, p => do
    let (_, p) ← l.run p
    after ls p

/-- What a lookup returns. -/
def Lookup.result (l : Lookup) (p : Pos) : Except ReadFault (Option (List UInt8)) := (l.run p).map Prod.fst

/-- The three lookups of `getAssertion`: authData, signature, credential id. -/
def assertionFields (raw : List UInt8) :
    Except ReadFault (Option (List UInt8) × Option (List UInt8) × Option (List UInt8)) := do
  let (authData, p) ← bytes 2 raw
  let (signature, p) ← bytes 3 p
  let (credentialId, _) ← mapBytes 1 1 p
  .ok (authData, signature, credentialId)

/-- The three lookups return what the response carries. -/
def Reads (credId authData sig raw : List UInt8) : Prop := assertionFields raw = .ok (some authData, some sig, some credId)

/-- A lookup returns the same whatever lookups were made before. -/
def OrderFree (raw : List UInt8) : Prop := ∀ before p, after before raw = .ok p → ∀ l : Lookup, l.result p = l.result raw

end CborReader

end AbkFido
