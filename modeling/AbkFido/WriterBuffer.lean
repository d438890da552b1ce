/-
The CBOR writer in its buffer.

`Writer` has what was written as a list; the driver stores bytes at offsets
into a buffer, one after another. Here is the writer that does so, with every
offset it has stored to, and the two agree (`Shows`): so whatever is put, no
byte outside the buffer is touched, and what is in it at the end without an
error is the shortest encodings of what was put, which the reader reads back
(`written`).
-/
import AbkFido.CborFacts
import AbkFido.Reading
import AbkFido.Lib.CborTree

namespace AbkFido

open Cbor CborForm

/-! ## The code -/

/-- `struct abk_cbor_writer`: the bytes from `buf` on, and the offsets from it that were stored to. -/
structure BufWriter where
  mem : Nat → UInt8
  stores : List Nat
  pos : Nat
  len : Nat
  err : Option Errno

namespace BufWriter

/-- `abk_cbor_writer_init` -/
def init (mem : Nat → UInt8) (len : Nat) : BufWriter where
  mem := mem
  stores := []
  pos := 0
  len := len
  err := none

/-- `w->buf[i] = byte` -/
def store (i : Nat) (byte : UInt8) (w : BufWriter) : BufWriter :=
  { w with mem := Function.update w.mem i byte, stores := i :: w.stores }

/-- `memcpy` to offset `i`, or a `put_unaligned_be` there. -/
def copy (i : Nat) : List UInt8 → BufWriter → BufWriter
  | [], w => w
  | byte :: bytes, w => copy (i + 1) bytes (w.store i byte)

/-- `w->buf[w->pos++] = byte` -/
def push (byte : UInt8) (w : BufWriter) : BufWriter := { w.store w.pos byte with pos := addU64 w.pos 1 }

def overflow (w : BufWriter) : BufWriter := { w with err := some .eoverflow }

/-- `(major << 5) | info` -/
def headByte (major info : Nat) : UInt8 := UInt8.ofNat (major <<< 5 ||| info)

/-- The bytes at `pos`, which moves past them. -/
def putPayload (bytes : List UInt8) (w : BufWriter) : BufWriter :=
  { w.copy w.pos bytes with pos := addU64 w.pos bytes.length }

/-- A head with its argument in `n` bytes of its own. -/
def putWide (major info n value : Nat) (w : BufWriter) : BufWriter :=
  if addU64 w.pos (1 + n) > w.len then w.overflow
  else (w.push (headByte major info)).putPayload (Writer.beBytes n value)

/-- `abk_cbor_put_head` -/
def putHead (major value : Nat) (w : BufWriter) : BufWriter :=
  if w.err.isSome then w
  else if value ≤ 23 then
    if addU64 w.pos 1 > w.len then w.overflow else w.push (headByte major value)
  else if value ≤ 0xff then w.putWide major 24 1 value
  else if value ≤ 0xffff then w.putWide major 25 2 value
  else if value ≤ 0xffffffff then w.putWide major 26 4 value
  else w.putWide major 27 8 value

def putUint (value : Nat) : BufWriter → BufWriter := putHead 0 value

def putInt (value : Int) : BufWriter → BufWriter :=
  if 0 ≤ value then putHead 0 value.toNat else putHead 1 (-1 - value).toNat

/-- What `abk_cbor_put_bytes` and `abk_cbor_put_text` do after the head. -/
def putData (data : List UInt8) (w : BufWriter) : BufWriter :=
  if w.err.isSome then w
  else if addU64 w.pos data.length > w.len then w.overflow
  else w.putPayload data

def putBytes (data : List UInt8) (w : BufWriter) : BufWriter :=
  if w.err.isSome then w else (w.putHead 2 data.length).putData data

def putText (text : List UInt8) (w : BufWriter) : BufWriter := (w.putHead 3 text.length).putData text

def putBool (value : Bool) : BufWriter → BufWriter := putHead 7 (if value then 21 else 20)

def putMap (count : Nat) : BufWriter → BufWriter := putHead 5 count

def putArray (count : Nat) : BufWriter → BufWriter := putHead 4 count

end BufWriter

/-- A call of an `abk_cbor_put_*`. No object has more than 2^63 - 1 bytes, and
a C string, with its NUL, is one. -/
inductive Put
  | int (value : Int64)
  | uint (value : UInt64)
  | bytes (data : { data : List UInt8 // data.length < 2 ^ 63 })
  | text (s : { s : List UInt8 // s.length + 1 < 2 ^ 63 ∧ 0 ∉ s })
  | bool (value : Bool)
  | map (count : UInt64)
  | array (count : UInt64)

namespace BufWriter

def put : Put → BufWriter → BufWriter
  | .int value => putInt value.toInt
  | .uint value => putUint value.toNat
  | .bytes data => putBytes data
  | .text s => putText s
  | .bool value => putBool value
  | .map count => putMap count.toNat
  | .array count => putArray count.toNat

def putAll (puts : List Put) (w : BufWriter) : BufWriter := puts.foldl (fun w p => w.put p) w

/-- The bytes before `pos`. -/
def output (w : BufWriter) : List UInt8 := (List.range w.pos).map w.mem

end BufWriter

/-! ## What is expected of it -/

/-- Which `abk_cbor_read_*` reads back what was put. -/
inductive Kind
  | int
  | uint
  | bytes
  | text
  | bool
  | map
  | array

inductive Value
  | int (value : Int)
  | uint (value : Nat)
  | bytes (data : List UInt8)
  | text (s : List UInt8)
  | bool (value : Bool)
  | map (count : Nat)
  | array (count : Nat)

/-- The read, and for a slice the bytes it points at. -/
def Kind.read : Kind → Cbor Value
  | .int => do
    let value ← readInt
    pure (.int value)
  | .uint => do
    let value ← readUint
    pure (.uint value)
  | .bytes => do
    let slice ← readBytes
    let r ← Prog.get
    pure (.bytes (r.bytes slice))
  | .text => do
    let slice ← readText
    let r ← Prog.get
    pure (.text (r.bytes slice))
  | .bool => do
    let value ← readBool
    pure (.bool value)
  | .map => do
    let count ← readMap
    pure (.map count)
  | .array => do
    let count ← readArray
    pure (.array count)

def readAll : List Kind → Cbor (List Value)
  | [] => pure []
  | k :: ks => do
    let v ← k.read
    let vs ← readAll ks
    pure (v :: vs)

namespace Put

def kind : Put → Kind
  | .int _ => .int
  | .uint _ => .uint
  | .bytes _ => .bytes
  | .text _ => .text
  | .bool _ => .bool
  | .map _ => .map
  | .array _ => .array

def value : Put → Value
  | .int value => .int value.toInt
  | .uint value => .uint value.toNat
  | .bytes data => .bytes data
  | .text s => .text s
  | .bool value => .bool value
  | .map count => .map count.toNat
  | .array count => .array count.toNat

/-- The encoding with the shortest head there is. -/
inductive Encodes : Put → List UInt8 → Prop
  | nonneg {value h} : 0 ≤ value.toInt → Shortest 0 value.toInt.toNat h → Encodes (.int value) h
  | neg {value h} : value.toInt < 0 → Shortest 1 (-1 - value.toInt).toNat h → Encodes (.int value) h
  | uint {value h} : Shortest 0 value.toNat h → Encodes (.uint value) h
  | bytes {data h} : Shortest 2 data.1.length h → Encodes (.bytes data) (h ++ data)
  | text {s h} : Shortest 3 s.1.length h → Encodes (.text s) (h ++ s)
  | bool {value h} : Shortest 7 (if value then 21 else 20) h → Encodes (.bool value) h
  | map {count h} : Shortest 5 count.toNat h → Encodes (.map count) h
  | array {count h} : Shortest 4 count.toNat h → Encodes (.array count) h

end Put

open BufWriter in
/-- What is promised of any calls with a buffer of `room` bytes. -/
structure Written (mem : Nat → UInt8) (room : Nat) (puts : List Put) : Prop where
  inside : ∀ i ∈ ((init mem room).putAll puts).stores, i < room
  pos_le : ((init mem room).putAll puts).pos ≤ room
  sticky : ∀ done rest, puts = done ++ rest → ((init mem room).putAll done).err ≠ none →
    (init mem room).putAll puts = (init mem room).putAll done
  canonical : ((init mem room).putAll puts).err = none →
    ∃ encs, List.Forall₂ Put.Encodes puts encs ∧ ((init mem room).putAll puts).output = encs.flatten
  readBack : ((init mem room).putAll puts).err = none →
    let out := ((init mem room).putAll puts).output
    ∃ t, readAll (puts.map Put.kind) (.init out) = (.ok (puts.map Put.value), t) ∧ t.pos = out.length

/-! ## In memory -/

namespace BufWriter

variable {w : BufWriter}

theorem copy_spec (bytes : List UInt8) : ∀ (i : Nat) (w : BufWriter),
    (w.copy i bytes).pos = w.pos ∧ (w.copy i bytes).len = w.len ∧ (w.copy i bytes).err = w.err ∧
      (∀ j, (w.copy i bytes).mem j = if i ≤ j then bytes.getD (j - i) (w.mem j) else w.mem j) ∧
      ∀ j ∈ (w.copy i bytes).stores, j ∈ w.stores ∨ j < i + bytes.length := by
  induction bytes with
  | nil =>
    intro i w
    exact ⟨rfl, rfl, rfl, fun j => by simp [copy], fun j hj => .inl hj⟩
  | cons b bytes ih =>
    intro i w
    obtain ⟨hpos, hlen, herr, hmem, hstores⟩ := ih (i + 1) (w.store i b)
    refine ⟨hpos, hlen, herr, fun j => ?_, fun j hj => ?_⟩
    · rw [copy, hmem]
      rcases lt_trichotomy j i with hj | rfl | hj
      · rw [if_neg (by omega), if_neg (by omega)]
        exact Function.update_of_ne (by omega) _ _
      · rw [if_neg (by omega), if_pos le_rfl, Nat.sub_self]
        exact Function.update_self ..
      · rw [if_pos (by omega), if_pos (by omega), show j - i = j - (i + 1) + 1 by omega, List.getD_cons_succ]
        exact congrArg _ (Function.update_of_ne (by omega) _ _)
    · rw [List.length_cons]
      rcases hstores j hj with hj | hj
      · rcases List.mem_cons.mp hj with rfl | hj
        · exact .inr (by omega)
        · exact .inl hj
      · exact .inr (by omega)

/-- The buffer shows what `v` has written. -/
structure Shows (w : BufWriter) (v : Writer) : Prop where
  len : w.len = v.len
  err : w.err = v.err
  output : w.output = v.out
  pos_le : w.pos ≤ w.len
  inside : ∀ i ∈ w.stores, i < w.len

theorem Shows.pos {v : Writer} (h : w.Shows v) : w.pos = v.out.length := by
  rw [← h.output, BufWriter.output, List.length_map, List.length_range]

theorem shows_init (mem : Nat → UInt8) (room : Nat) : (init mem room).Shows (.init room) where
  len := rfl
  err := rfl
  output := rfl
  pos_le := Nat.zero_le _
  inside := fun _ h => nomatch h

theorem Shows.overflow {v : Writer} (h : w.Shows v) : w.overflow.Shows { v with err := some .eoverflow } :=
  ⟨h.len, rfl, h.output, h.pos_le, h.inside⟩

/-- Bytes for which there is room. -/
theorem Shows.payload {v : Writer} (h : w.Shows v) (bytes : List UInt8) (hroom : w.pos + bytes.length ≤ w.len)
    (hmax : w.len < 2 ^ 63) : (w.putPayload bytes).Shows { v with out := v.out ++ bytes } := by
  obtain ⟨_, hlen, herr, hmem, hstores⟩ := copy_spec bytes w.pos w
  have hpos : addU64 w.pos bytes.length = w.pos + bytes.length := Nat.mod_eq_of_lt (by omega)
  constructor
  case len => exact hlen.trans h.len
  case err => exact herr.trans h.err
  case output =>
    show (List.range (addU64 w.pos bytes.length)).map (w.copy w.pos bytes).mem = v.out ++ bytes
    rw [hpos, List.range_add, List.map_append, List.map_map, ← h.output]
    congr 1
    · refine List.map_congr_left fun j hj => ?_
      rw [hmem, if_neg (not_le.mpr (List.mem_range.mp hj))]
    · refine List.ext_getElem (by simp) fun j hj hj' => ?_
      simp [hmem, hj']
  case pos_le =>
    show addU64 w.pos bytes.length ≤ (w.copy w.pos bytes).len
    rw [hpos, hlen]
    exact hroom
  case inside =>
    intro i hi
    show i < (w.copy w.pos bytes).len
    rw [hlen]
    rcases hstores i hi with hi | hi
    · exact h.inside i hi
    · omega

theorem headByte_eq {major info : Nat} (h : info < 32) : headByte major info = UInt8.ofNat (major * 32 + info) := by
  rw [headByte, ← Nat.shiftLeft_add_eq_or_of_lt h, Nat.shiftLeft_eq]

theorem copy_setPos (bytes : List UInt8) (p : Nat) : ∀ (i : Nat) (w : BufWriter),
    BufWriter.copy i bytes { w with pos := p } = { w.copy i bytes with pos := p } := by
  induction bytes with
  | nil => exact fun i w => rfl
  | cons b bytes ih => exact fun i w => ih (i + 1) (w.store i b)

/-- The first byte and the rest of a head are one payload. -/
theorem push_putPayload (w : BufWriter) (byte : UInt8) (bytes : List UInt8) (hroom : w.pos + (bytes.length + 1) ≤ w.len)
    (hmax : w.len < 2 ^ 63) : (w.push byte).putPayload bytes = w.putPayload (byte :: bytes) := by
  have hpos : addU64 w.pos 1 = w.pos + 1 := Nat.mod_eq_of_lt (by omega)
  have hend : addU64 (w.pos + 1) bytes.length = addU64 w.pos (bytes.length + 1) := by
    rw [addU64, addU64, show w.pos + 1 + bytes.length = w.pos + (bytes.length + 1) by omega]
  simp only [push, putPayload, hpos, copy_setPos, hend, List.length_cons]
  rfl

theorem putData_of_err {data : List UInt8} (h : w.err.isSome) : w.putData data = w := if_pos h

/-- A head is put as any bytes are. -/
theorem putHead_eq_putData (major value : Nat) (hpos : w.pos ≤ w.len) (hmax : w.len < 2 ^ 63) :
    w.putHead major value = w.putData (Writer.headBytes major value) := by
  have hwide : ∀ info n : Nat, info < 32 → n ≤ 8 → w.putWide major info n value =
      if addU64 w.pos (UInt8.ofNat (major * 32 + info) :: Writer.beBytes n value).length > w.len then w.overflow
      else w.putPayload (UInt8.ofNat (major * 32 + info) :: Writer.beBytes n value) := by
    intro info n hinfo hn
    rw [putWide, List.length_cons, Writer.length_beBytes, Nat.add_comm 1 n]
    split
    · rfl
    · next hfits =>
      have hsum : addU64 w.pos (n + 1) = w.pos + (n + 1) := Nat.mod_eq_of_lt (by omega)
      rw [headByte_eq hinfo, push_putPayload _ _ _ (by rw [Writer.length_beBytes]; omega) hmax]
  unfold putHead putData Writer.headBytes
  split
  · rfl
  split
  · next hsmall =>
    rw [headByte_eq (by omega)]
    rfl
  split
  · exact hwide 24 1 (by decide) (by decide)
  split
  · exact hwide 25 2 (by decide) (by decide)
  split
  · exact hwide 26 4 (by decide) (by decide)
  · exact hwide 27 8 (by decide) (by decide)

theorem Shows.putData {v : Writer} (h : w.Shows v) (hmax : w.len < 2 ^ 63) {data : List UInt8}
    (hdata : data.length < 2 ^ 63) : (w.putData data).Shows (v.put data) := by
  have hsum : addU64 w.pos data.length = v.out.length + data.length := by
    have := h.pos_le
    rw [← h.pos]
    exact Nat.mod_eq_of_lt (by omega)
  rw [BufWriter.putData, Writer.put, h.err, hsum, h.len]
  split
  · exact h
  split
  · exact h.overflow
  · next hroom => exact h.payload data (by rw [h.pos, h.len]; omega) hmax

theorem length_headBytes_le (major value : Nat) : (Writer.headBytes major value).length ≤ 9 := by
  unfold Writer.headBytes
  split
  · exact Nat.le_add_left 1 8
  split
  · exact Nat.le_add_left 2 7
  split
  · exact Nat.le_add_left 3 6
  split
  · exact Nat.le_add_left 5 4
  · exact le_rfl

theorem Shows.putHead {v : Writer} (h : w.Shows v) (hmax : w.len < 2 ^ 63) (major value : Nat) :
    (w.putHead major value).Shows (v.putHead major value) := by
  have hlen := length_headBytes_le major value
  rw [putHead_eq_putData major value h.pos_le hmax, Writer.putHead_eq]
  exact h.putData hmax (by omega)

/-- A head and the bytes it announces. -/
theorem Shows.putString {v : Writer} (h : w.Shows v) (hmax : w.len < 2 ^ 63) (major : Nat) {data : List UInt8}
    (hdata : data.length < 2 ^ 63) :
    ((w.putHead major data.length).putData data).Shows ((v.putHead major data.length).put data) := by
  have hhead := h.putHead hmax major data.length
  have hlen : (w.putHead major data.length).len < 2 ^ 63 := by
    rw [hhead.len, Writer.putHead_eq, Writer.len_put, ← h.len]
    exact hmax
  exact hhead.putData hlen hdata

/-! ## After an error -/

theorem putHead_of_err (h : w.err.isSome) (major value : Nat) : w.putHead major value = w := if_pos h

theorem putBytes_eq (data : List UInt8) (w : BufWriter) : w.putBytes data = (w.putHead 2 data.length).putData data := by
  unfold putBytes
  split
  · next h => rw [putHead_of_err h, putData_of_err h]
  · rfl

/-- Nothing is put once there is an error. -/
theorem put_of_err (h : w.err.isSome) (p : Put) : w.put p = w := by
  have hstring : ∀ major (data : List UInt8), (w.putHead major data.length).putData data = w := by
    intro major data
    rw [putHead_of_err h, putData_of_err h]
  cases p with
  | int value =>
    rw [put, putInt]
    split <;> exact putHead_of_err h _ _
  | uint value => exact putHead_of_err h _ _
  | bytes data => exact (putBytes_eq _ _).trans (hstring 2 _)
  | text s => exact hstring 3 _
  | bool value => exact putHead_of_err h _ _
  | map count => exact putHead_of_err h _ _
  | array count => exact putHead_of_err h _ _

theorem putAll_of_err (h : w.err.isSome) (puts : List Put) : w.putAll puts = w := by
  induction puts with
  | nil => rfl
  | cons p puts ih => exact (congrArg (putAll puts) (put_of_err h p)).trans ih

end BufWriter

/-! ## The calls -/

/-- The same call of the other writer. -/
def Writer.putOne : Put → Writer → Writer
  | .int value => putInt value.toInt
  | .uint value => putUint value.toNat
  | .bytes data => putBytes data
  | .text s => putText s
  | .bool value => putBool value
  | .map count => putMap count.toNat
  | .array count => putArray count.toNat

def Put.encoding : Put → List UInt8
  | .int value =>
    if 0 ≤ value.toInt then Writer.headBytes 0 value.toInt.toNat else Writer.headBytes 1 (-1 - value.toInt).toNat
  | .uint value => Writer.headBytes 0 value.toNat
  | .bytes data => Writer.headBytes 2 data.1.length ++ data
  | .text s => Writer.headBytes 3 s.1.length ++ s
  | .bool value => Writer.headBytes 7 (if value then 21 else 20)
  | .map count => Writer.headBytes 5 count.toNat
  | .array count => Writer.headBytes 4 count.toNat

theorem BufWriter.Shows.putOne {w : BufWriter} {v : Writer} (h : w.Shows v) (hmax : w.len < 2 ^ 63) (p : Put) :
    (w.put p).Shows (v.putOne p) := by
  cases p with
  | int value =>
    rw [BufWriter.put, BufWriter.putInt, Writer.putOne, Writer.putInt]
    split <;> exact h.putHead hmax _ _
  | uint value => exact h.putHead hmax _ _
  | bytes data =>
    rw [BufWriter.put, BufWriter.putBytes_eq]
    exact h.putString hmax 2 data.2
  | text s => exact h.putString hmax 3 (Nat.lt_of_succ_lt s.2.1)
  | bool value => exact h.putHead hmax _ _
  | map count => exact h.putHead hmax _ _
  | array count => exact h.putHead hmax _ _

theorem Writer.Wrote.putOne {room : Nat} {bytes : List UInt8} {v : Writer} (h : v.Wrote room bytes) (p : Put) :
    (v.putOne p).Wrote room (bytes ++ p.encoding) := by
  cases p with
  | int value =>
    rw [Writer.putOne, Writer.putInt, Put.encoding]
    split <;> exact h.putHead _ _
  | uint value => exact h.putHead _ _
  | bytes data => exact h.putBytes data
  | text s => exact h.putText s
  | bool value => exact h.putHead _ _
  | map count => exact h.putHead _ _
  | array count => exact h.putHead _ _

/-- The two writers go along with each other. -/
theorem BufWriter.shows_putAll (puts : List Put) : ∀ {w : BufWriter} {v : Writer} {room : Nat} {bytes : List UInt8},
    w.Shows v → v.Wrote room bytes → room < 2 ^ 63 →
    ∃ v', (w.putAll puts).Shows v' ∧ v'.Wrote room (bytes ++ (puts.map Put.encoding).flatten) := by
  induction puts with
  | nil =>
    intro w v room bytes h hwrote _
    refine ⟨v, h, ?_⟩
    rw [List.map_nil, List.flatten_nil, List.append_nil]
    exact hwrote
  | cons p puts ih =>
    intro w v room bytes h hwrote hmax
    have hstep := h.putOne (by rw [h.len, hwrote.len]; exact hmax) p
    rw [List.map_cons, List.flatten_cons, ← List.append_assoc]
    exact ih hstep (hwrote.putOne p) hmax

/-! ## The encodings -/

/-- No head is shorter than the one that is put. -/
theorem shortest_headBytes {major arg : Nat} (h : arg < 2 ^ 64) : Shortest major arg (Writer.headBytes major arg) :=
  shortest_shortHead h

theorem Put.encodes (p : Put) : p.Encodes p.encoding := by
  cases p with
  | int value =>
    have hmin := value.le_toInt
    have hmax := value.toInt_lt
    rw [encoding]
    split
    · next h => exact .nonneg h (shortest_headBytes (by omega))
    · next h => exact .neg (not_le.mp h) (shortest_headBytes (by omega))
  | uint value => exact .uint (shortest_headBytes value.toNat_lt)
  | bytes data => exact .bytes (shortest_headBytes (data.2.trans (by decide)))
  | text s => exact .text (shortest_headBytes ((Nat.lt_of_succ_lt s.2.1).trans (by decide)))
  | bool value => exact .bool (shortest_headBytes (by cases value <;> decide))
  | map count => exact .map (shortest_headBytes count.toNat_lt)
  | array count => exact .array (shortest_headBytes count.toNat_lt)

/-! ## Reading back -/

/-- The slice of a string holds its content. -/
theorem readSlice_reads {major : Nat} {data enc : List UInt8} (h : IsString major data enc) (hmajor : major < 8)
    (f : List UInt8 → Value) :
    Reads (readString major >>= fun slice => Prog.get >>= fun r => pure (f (r.bytes slice))) enc (f data) := by
  intro pre
  rw [← List.append_nil enc]
  refine string_bind h hmajor fun slice hholds => .get_bind fun r rest hat => ?_
  rw [hholds.bytes hat]
  exact .pure _ _

/-- What was put is read back. -/
theorem Put.Encodes.reads {p : Put} {enc : List UInt8} (h : p.Encodes enc) : Reads p.kind.read enc p.value := by
  cases h with
  | nonneg hpos h =>
    rename_i value
    exact (readInt_reads (.nonneg hpos value.toInt_lt h.head)).bind_pure
  | neg hneg h =>
    rename_i value
    exact (readInt_reads (.neg hneg value.le_toInt h.head)).bind_pure
  | uint h => exact (readUint_reads h.head).bind_pure
  | bytes h => exact readSlice_reads (.mk h.head) (by decide) _
  | text h => exact readSlice_reads (.mk h.head) (by decide) _
  | bool h =>
    rename_i value
    cases value with
    | false => exact (readBool_head (.inl rfl) h.head).bind_pure
    | true => exact (readBool_head (.inr rfl) h.head).bind_pure
  | map h => exact (readContainer_reads h.head (by decide)).bind_pure
  | array h => exact (readContainer_reads h.head (by decide)).bind_pure

theorem readAll_reads (puts : List Put) :
    Reads (readAll (puts.map Put.kind)) (puts.map Put.encoding).flatten (puts.map Put.value) := by
  induction puts with
  | nil => exact .pure []
  | cons p puts ih => exact p.encodes.reads.bind ih.bind_pure

/-- **The writer is bounded, canonical and readable back.** -/
theorem written (mem : Nat → UInt8) {room : Nat} (hroom : room < 2 ^ 63) (puts : List Put) : Written mem room puts := by
  obtain ⟨v, hshows, hwrote⟩ := BufWriter.shows_putAll puts (BufWriter.shows_init mem room) (Writer.wrote_init room) hroom
  rw [List.nil_append] at hwrote
  have hlen : ((BufWriter.init mem room).putAll puts).len = room := hshows.len.trans hwrote.len
  have hout : ((BufWriter.init mem room).putAll puts).err = none →
      ((BufWriter.init mem room).putAll puts).output = (puts.map Put.encoding).flatten := fun hnone =>
    hshows.output.trans (hwrote.out (hshows.err.symm.trans hnone))
  constructor
  case inside => exact fun i hi => hlen ▸ hshows.inside i hi
  case pos_le => exact hshows.pos_le.trans hlen.le
  case sticky =>
    rintro done rest rfl herr
    rw [BufWriter.putAll, List.foldl_append]
    exact BufWriter.putAll_of_err (Option.isSome_iff_ne_none.mpr herr) rest
  case canonical =>
    intro hnone
    refine ⟨puts.map Put.encoding, ?_, hout hnone⟩
    rw [List.forall₂_map_right_iff]
    exact List.forall₂_same.mpr fun p _ => p.encodes
  case readBack =>
    intro hnone
    have hfits := hwrote.fits (hshows.err.symm.trans hnone)
    dsimp only
    rw [hout hnone]
    obtain ⟨t, hrun, hat⟩ := (readAll_reads puts [] (by rw [List.nil_append]; show _ < 2 ^ 64; omega)).1
      (.init (puts.map Put.encoding).flatten) [] ⟨(List.append_nil _).symm, rfl⟩
    exact ⟨t, hrun, hat.pos⟩

/-- A map with one entry, into sixteen bytes. -/
theorem written_entry : Written (fun _ => 0) 16 [.map 1, .int 3, .bool true] := written (fun _ => 0) (by decide) _

end AbkFido
