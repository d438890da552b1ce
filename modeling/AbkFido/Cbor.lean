/-
The CBOR reader and writer of the driver.

Sizes and positions are `size_t` and lengths `u64`, both 64 bits wide; they
are numbers here, and the additions that may wrap say so. The reader also
counts the heads it has read and records whether a string's length ever
carried its position past 2^64; no function reads either.
-/
import AbkFido.Basic
import AbkFido.Lib.Layout
import AbkFido.Lib.Prog

namespace AbkFido

/-- The sum of two 64-bit words. -/
def addU64 (a b : Nat) : Nat := (a + b) % 2 ^ 64

/-- `(s64)v` -/
def toS64 (v : Nat) : Int := (v : Int).bmod (2 ^ 64)

/-! ## Reading -/

/-- `struct abk_cbor_reader` -/
structure Reader where
  buf : List UInt8
  pos : Nat
  /-- How many heads have been read. -/
  heads : Nat
  /-- Whether `pos + len` ever wrapped. -/
  wrapped : Bool
  deriving DecidableEq

def Reader.init (buf : List UInt8) : Reader where
  buf := buf
  pos := 0
  heads := 0
  wrapped := false

/-- `r->len` -/
def Reader.len (r : Reader) : Nat := r.buf.length

/-- `struct abk_fido_slice`: where in the buffer, and how long it claims to be. -/
structure Slice where
  ptr : Nat
  len : Nat

/-- The bytes a slice points at. -/
def Reader.bytes (r : Reader) (s : Slice) : List UInt8 := (r.buf.drop s.ptr).take s.len

/-- `memcpy` of `n` bytes from where a slice points. -/
def Reader.copy (n : Nat) (r : Reader) (s : Slice) : Bytes n := (Layout.Codec.bytes n).dec (r.buf.drop s.ptr)

theorem Reader.length_bytes_le (r : Reader) (s : Slice) : (r.bytes s).length ≤ s.len := by
  simp only [bytes, List.length_take]
  omega

/-- Why a parse stops: the negative return value, or the call depth allowed
to `abk_cbor_skip` is used up. -/
inductive Fail
  | errno (e : Errno)
  | depth
  deriving DecidableEq

abbrev Cbor := Prog Fail Reader

namespace Cbor

def fail {α : Type} (e : Errno) : Cbor α := Prog.throw (.errno e)

/-- `n` bytes at the position, big-endian. -/
def be (n : Nat) (r : Reader) : Nat :=
  (List.range n).foldl (fun v i => v * 256 + (r.buf.getD (r.pos + i) 0).toNat) 0

/-- The argument of a head that is stored in `n` bytes after it. -/
def readBe (n : Nat) : Cbor Nat := do
  let r ← Prog.get
  if addU64 r.pos n > r.len then fail .einval
  else
    Prog.modify fun r => { r with pos := r.pos + n }
    pure (be n r)

/-- `abk_cbor_read_u64` -/
def readU64 (ai : Nat) : Cbor Nat :=
  if ai ≤ 23 then pure ai
  else match ai with
    | 24 => readBe 1
    | 25 => readBe 2
    | 26 => readBe 4
    | 27 => readBe 8
    | _ => fail .einval

/-- `abk_cbor_read_head` -/
def readHead : Cbor (Nat × Nat) := do
  let r ← Prog.get
  if r.pos ≥ r.len then fail .einval
  else
    let byte := (r.buf.getD r.pos 0).toNat
    Prog.modify fun r => { r with pos := r.pos + 1, heads := r.heads + 1 }
    let value ← readU64 (byte % 32)
    pure (byte / 32, value)

/-- `abk_cbor_read_uint` -/
def readUint : Cbor Nat := do
  let (major, value) ← readHead
  if major ≠ 0 then fail .einval else pure value

/-- `abk_cbor_read_int` -/
def readInt : Cbor Int := do
  let (major, value) ← readHead
  if major = 0 then pure (toS64 value)
  else if major = 1 then pure (-1 - toS64 value)
  else fail .einval

/-- `r->pos + len > r->len`, then `r->pos += len` -/
def advance (len : Nat) : Cbor Slice := do
  let r ← Prog.get
  if addU64 r.pos len > r.len then fail .einval
  else
    Prog.modify fun r => { r with pos := addU64 r.pos len, wrapped := r.wrapped || decide (2 ^ 64 ≤ r.pos + len) }
    pure { ptr := r.pos, len := len }

/-- `abk_cbor_read_bytes` and `abk_cbor_read_text` -/
def readString (wanted : Nat) : Cbor Slice := do
  let (major, len) ← readHead
  if major ≠ wanted then fail .einval else advance len

def readBytes : Cbor Slice := readString 2
def readText : Cbor Slice := readString 3

/-- `abk_cbor_read_bool` -/
def readBool : Cbor Bool := do
  let (major, value) ← readHead
  if major ≠ 7 ∨ (value ≠ 20 ∧ value ≠ 21) then fail .einval else pure (value == 21)

/-- `abk_cbor_read_map` and `abk_cbor_read_array` -/
def readContainer (wanted : Nat) : Cbor Nat := do
  let (major, count) ← readHead
  if major ≠ wanted then fail .einval else pure count

def readMap : Cbor Nat := readContainer 5
def readArray : Cbor Nat := readContainer 4

/-- `for (i = 0; i < n; i++)` -/
def loop {α : Type} (n : Nat) (a : α) (body : α → Cbor α) : Cbor α := Prog.loop (fun _ => true) body n a

/-- What `abk_cbor_skip` does after a head; `skip` skips one item. -/
def skipItem (skip : Cbor Unit) (major len : Nat) : Cbor Unit :=
  match major with
  | 0 | 1 | 7 => pure ()
  | 2 | 3 => do
    let _ ← advance len
    pure ()
  | 4 => loop len () fun _ => skip
  | 5 => loop len () fun _ => do
    skip
    skip
  | _ => fail .einval

/-- `abk_cbor_skip`, as far as `depth` nested calls go. -/
def skip : Nat → Cbor Unit
  | 0 => Prog.throw .depth
  | depth + 1 => do
    let (major, len) ← readHead
    skipItem (skip depth) major len

/-- `abk_fido_slice_eq_text` -/
def sliceEqText (r : Reader) (s : Slice) (text : List UInt8) : Bool := s.len == text.length && r.bytes s == text

end Cbor

/-! ## Writing -/

/-- `struct abk_cbor_writer`: the bytes before `pos`, the room in all, and
the error that ends the writing. -/
structure Writer where
  out : List UInt8
  len : Nat
  err : Option Errno

/-- `abk_cbor_writer_init` -/
def Writer.init (len : Nat) : Writer := { out := [], len := len, err := none }

namespace Writer

/-- `n` bytes of a number, big-endian. -/
def beBytes (n v : Nat) : List UInt8 := (List.range n).map fun i => UInt8.ofNat (v / 256 ^ (n - 1 - i))

/-- Bytes that are written if they fit. -/
def put (bytes : List UInt8) (w : Writer) : Writer :=
  if w.err.isSome then w
  else if w.out.length + bytes.length > w.len then { w with err := some .eoverflow }
  else { w with out := w.out ++ bytes }

/-- `abk_cbor_put_head` -/
def putHead (major value : Nat) : Writer → Writer :=
  if value ≤ 23 then put [UInt8.ofNat (major * 32 + value)]
  else if value ≤ 0xff then put (UInt8.ofNat (major * 32 + 24) :: beBytes 1 value)
  else if value ≤ 0xffff then put (UInt8.ofNat (major * 32 + 25) :: beBytes 2 value)
  else if value ≤ 0xffffffff then put (UInt8.ofNat (major * 32 + 26) :: beBytes 4 value)
  else put (UInt8.ofNat (major * 32 + 27) :: beBytes 8 value)

def putUint (value : Nat) : Writer → Writer := putHead 0 value

def putInt (value : Int) : Writer → Writer :=
  if 0 ≤ value then putHead 0 value.toNat else putHead 1 (-1 - value).toNat

/-- `abk_cbor_put_bytes`: the head stays even where the bytes do not fit. -/
def putBytes (data : List UInt8) (w : Writer) : Writer := put data (putHead 2 data.length w)

def putText (text : List UInt8) (w : Writer) : Writer := put text (putHead 3 text.length w)

def putBool (value : Bool) : Writer → Writer := putHead 7 (if value then 21 else 20)

def putMap (count : Nat) : Writer → Writer := putHead 5 count

def putArray (count : Nat) : Writer → Writer := putHead 4 count

/-- What was written, or the error. -/
def result (w : Writer) : Except Errno (List UInt8) :=
  match w.err with
  | some e => .error e
  | none => .ok w.out

end Writer

end AbkFido
