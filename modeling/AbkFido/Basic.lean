/-
What the driver, the companion app and their storage share: kernel error
numbers, byte arrays and C strings.

A `char` array of a stored structure is kept as the array it is
(`CharBuf`), since two arrays holding the same string may differ after the
NUL; a `char` array that is only ever read as a string is kept as that
string (`cstr` of what was written into it).
-/
import Mathlib.Data.Vector.Basic
import Mathlib.Data.Fintype.Basic
import Mathlib.Data.List.TakeWhile
import Mathlib.Algebra.GroupWithZero.Nat

namespace AbkFido

/-- The negative return values of the driver's functions. -/
inductive Errno
  | eperm | enoent | eio | enomem | eacces | eexist | einval | enospc | enosys | enokey | ebadrqc
  | eproto | ebadslt | eopnotsupp | enoioctlcmd | estale | ealready | etimedout | eoverflow | eilseq
  | other (n : Nat)
  deriving DecidableEq, Repr

/-- CTAP specific outcomes travel as errno aliases. -/
def errInvalidCommand : Errno := .enosys
def errPinNotSet : Errno := .enokey
def errInvalidOption : Errno := .ebadrqc
def errUpRequired : Errno := .eproto
def errNotAllowed : Errno := .ebadslt

instance neZero_64 : NeZero 64 := ⟨by decide⟩
instance neZero_128 : NeZero 128 := ⟨by decide⟩
instance lawfulBEq_bytes : LawfulBEq (List UInt8) := inferInstance

/-- `u8 x[n]`. -/
abbrev Bytes (n : Nat) := List.Vector UInt8 n

/-- `memset(x, 0, n)`. -/
def zeros (n : Nat) : Bytes n := List.Vector.replicate n 0

/-- `ABK_FIDO_MAX_SIG_DER` -/
def maxSigDer : Nat := 80

/-- The C string a buffer holds: its bytes up to the first NUL. -/
def cstr (buf : List UInt8) : List UInt8 := buf.takeWhile (· != 0)

/-- `char x[n]` holding a terminated string. -/
structure CharBuf (n : Nat) where
  bytes : Bytes n
  nul : 0 ∈ bytes.toList
  deriving DecidableEq

namespace CharBuf

/-- The string the array holds. -/
def str {n : Nat} (c : CharBuf n) : List UInt8 := cstr c.bytes.toList

/-- `strscpy` into a zeroed array: at most `n - 1` bytes of the string. -/
def strscpy (n : Nat) [NeZero n] (src : List UInt8) : CharBuf n where
  bytes := ⟨(cstr src).take (n - 1) ++ List.replicate (n - min (n - 1) (cstr src).length) 0, by simp⟩
  nul := by
    have := Nat.pos_of_neZero n
    show 0 ∈ (cstr src).take (n - 1) ++ List.replicate (n - min (n - 1) (cstr src).length) 0
    rw [List.mem_append, List.mem_replicate]
    exact .inr ⟨by omega, rfl⟩

/-- `memcpy` of a whole array, then a NUL into its last byte. -/
def ofDisk (n : Nat) [NeZero n] (b : Bytes n) : CharBuf n where
  bytes := ⟨b.toList.take (n - 1) ++ [0], by have := Nat.pos_of_neZero n; simp; omega⟩
  nul := by
    show 0 ∈ b.toList.take (n - 1) ++ [0]
    simp

/-- The same string with the bytes after its NUL cleared. -/
def trim {n : Nat} [NeZero n] (c : CharBuf n) : CharBuf n := strscpy n c.str

end CharBuf

/-! ## C strings -/

theorem cstr_nul_free (buf : List UInt8) : ∀ b ∈ cstr buf, b ≠ 0 := by
  intro b hb
  have := List.mem_takeWhile_imp hb
  simpa using this

theorem cstr_of_nul_free {s : List UInt8} (h : ∀ b ∈ s, b ≠ 0) : cstr s = s := by
  rw [cstr, List.takeWhile_eq_self_iff]
  simpa using h

@[simp] theorem cstr_cstr (buf : List UInt8) : cstr (cstr buf) = cstr buf :=
  cstr_of_nul_free (cstr_nul_free buf)

theorem cstr_append_replicate {s : List UInt8} (h : ∀ b ∈ s, b ≠ 0) (k : Nat) :
    cstr (s ++ List.replicate k 0) = s := by
  rw [cstr, List.takeWhile_append_of_pos (by simpa using h)]
  cases k <;> simp [List.replicate_succ]

theorem cstr_take_nul_free (src : List UInt8) (k : Nat) : ∀ b ∈ (cstr src).take k, b ≠ 0 :=
  fun b hb => cstr_nul_free src b (List.mem_of_mem_take hb)

namespace CharBuf

variable {n : Nat}

theorem ext_bytes {c d : CharBuf n} (h : c.bytes.toList = d.bytes.toList) : c = d := by
  cases c; cases d
  congr
  exact Subtype.ext h

/-- A terminated string is shorter than its array. -/
theorem length_str_lt (c : CharBuf n) : c.str.length < n := by
  have hlen := c.bytes.toList_length
  have hpre : c.str <+: c.bytes.toList := List.takeWhile_prefix _
  have hle : c.str.length ≤ n := by
    have := hpre.length_le
    omega
  refine lt_of_le_of_ne hle fun heq => ?_
  have hall : c.str = c.bytes.toList := hpre.eq_of_length (by rw [hlen]; exact heq)
  have hnul : 0 ∈ c.str := by rw [hall]; exact c.nul
  exact cstr_nul_free c.bytes.toList 0 hnul rfl

@[simp] theorem cstr_str (c : CharBuf n) : cstr c.str = c.str := cstr_cstr _

variable [NeZero n]

theorem str_strscpy (src : List UInt8) : (strscpy n src).str = (cstr src).take (n - 1) :=
  cstr_append_replicate (cstr_take_nul_free src (n - 1)) _

/-- A string that fits is copied whole. -/
theorem str_strscpy_of_lt {src : List UInt8} (h : (cstr src).length < n) : (strscpy n src).str = cstr src := by
  rw [str_strscpy, List.take_of_length_le (by omega)]

@[simp] theorem str_trim (c : CharBuf n) : c.trim.str = c.str := by
  rw [trim, str_strscpy_of_lt (by rw [cstr_str]; exact c.length_str_lt), cstr_str]

@[simp] theorem trim_trim (c : CharBuf n) : c.trim.trim = c.trim := by
  rw [trim, str_trim, ← trim]

theorem trim_eq_of_str {c d : CharBuf n} (h : c.str = d.str) : c.trim = d.trim := by
  rw [trim, trim, h]

/-- What `strscpy` left in an array already ends in a NUL. -/
@[simp] theorem ofDisk_strscpy (src : List UInt8) : ofDisk n (strscpy n src).bytes = strscpy n src := by
  have hn := Nat.pos_of_neZero n
  apply ext_bytes
  show ((cstr src).take (n - 1) ++ List.replicate (n - min (n - 1) (cstr src).length) 0).take (n - 1) ++ [0] =
    (cstr src).take (n - 1) ++ List.replicate (n - min (n - 1) (cstr src).length) 0
  obtain ⟨k, hk⟩ : ∃ k, n - min (n - 1) (cstr src).length = k + 1 :=
    ⟨n - min (n - 1) (cstr src).length - 1, by omega⟩
  rw [hk, List.replicate_succ', ← List.append_assoc]
  congr 1
  have hlen : ((cstr src).take (n - 1) ++ List.replicate k (0 : UInt8)).length = n - 1 := by
    simp only [List.length_append, List.length_take, List.length_replicate]
    omega
  rw [List.take_append_of_le_length (by omega), List.take_of_length_le (by omega)]

end CharBuf

/-! ## Slots -/

/-- The lowest index that passes a test. -/
theorem find_finRange {n : Nat} {p : Fin n → Bool} {i : Fin n} :
    (List.finRange n).find? p = some i ↔ p i = true ∧ ∀ j < i, p j = false := by
  induction n with
  | zero => exact i.elim0
  | succ n ih =>
    rw [List.finRange_succ, List.find?_cons, List.find?_map]
    cases h0 : p 0 with
    | true =>
      constructor
      · intro h
        cases h
        exact ⟨h0, fun j hj => absurd hj (Fin.not_lt_zero j)⟩
      · rintro ⟨_, hlow⟩
        rcases Fin.eq_zero_or_eq_succ i with rfl | ⟨i, rfl⟩
        · rfl
        · rw [hlow 0 (Fin.succ_pos i)] at h0
          cases h0
    | false =>
      rcases Fin.eq_zero_or_eq_succ i with rfl | ⟨i, rfl⟩
      · simp [h0]
      · rw [Option.map_eq_some_iff]
        simp only [Fin.succ_inj, exists_eq_right]
        rw [ih]
        refine and_congr_right fun _ => ⟨fun hlow j hj => ?_, fun hlow j hj => hlow j.succ (Fin.succ_lt_succ_iff.mpr hj)⟩
        rcases Fin.eq_zero_or_eq_succ j with rfl | ⟨j, rfl⟩
        · exact h0
        · exact hlow j (Fin.succ_lt_succ_iff.mp hj)

end AbkFido
