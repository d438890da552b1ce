/-
Well-formed CBOR items as byte strings.

A head may be written in any width that holds its argument, and the entries
of a map come in any order, so most values have many encodings: each `Is…`
relates a value to all of them. A map is given by what its keys and values
look like, by the keys that are known, and by which of those are there;
known keys are there once, others as often as they like.
-/
import Mathlib.Data.List.Count
import Mathlib.Data.List.Induction
import Mathlib.Algebra.Group.Int.Defs
import Mathlib.Algebra.Group.Nat.Defs

namespace CborForm

/-- `n` bytes of a number, the highest first. -/
def bigEndian (n v : Nat) : List UInt8 := (List.range n).map fun i => UInt8.ofNat (v / 256 ^ (n - 1 - i))

/-- The ways to write a head: the argument in the first byte, or in the 1, 2,
4 or 8 bytes after it. -/
inductive Head (major arg : Nat) : List UInt8 → Prop
  | short (h : arg ≤ 23) : Head major arg [UInt8.ofNat (major * 32 + arg)]
  | wide {i n : Nat} (hinfo : (i, n) ∈ [(24, 1), (25, 2), (26, 4), (27, 8)]) (h : arg < 256 ^ n) :
      Head major arg (UInt8.ofNat (major * 32 + i) :: bigEndian n arg)

/-- A head in the fewest bytes. -/
structure Shortest (major arg : Nat) (bytes : List UInt8) : Prop where
  head : Head major arg bytes
  le : ∀ other, Head major arg other → bytes.length ≤ other.length

inductive IsString (major : Nat) (data : List UInt8) : List UInt8 → Prop
  | mk {head : List UInt8} (h : Head major data.length head) : IsString major data (head ++ data)

abbrev IsBytes := IsString 2
abbrev IsText := IsString 3

abbrev IsUint := Head 0

/-- An integer that a signed 64-bit word holds. -/
inductive IsInt (v : Int) : List UInt8 → Prop
  | nonneg {bytes : List UInt8} (h : 0 ≤ v) (hmax : v < 2 ^ 63) (head : Head 0 v.toNat bytes) : IsInt v bytes
  | neg {bytes : List UInt8} (h : v < 0) (hmin : -2 ^ 63 ≤ v) (head : Head 1 (-1 - v).toNat bytes) : IsInt v bytes

inductive IsBool : Bool → List UInt8 → Prop
  | false : IsBool false [0xf4]
  | true : IsBool true [0xf5]

inductive IsArray {ι : Type} (Item : ι → List UInt8 → Prop) : List ι → List UInt8 → Prop
  | mk {h : List UInt8} (items : List (ι × List UInt8)) (head : Head 4 items.length h)
      (hitems : ∀ i ∈ items, Item i.1 i.2) : IsArray Item (items.map (·.1)) (h ++ items.flatMap (·.2))

/-- An entry of a map: its key, and how key and value are written. -/
structure MapEntry (κ : Type) where
  key : κ
  keyBytes : List UInt8
  value : List UInt8

def MapEntry.bytes {κ : Type} (e : MapEntry κ) : List UInt8 := e.keyBytes ++ e.value

inductive IsMap {κ : Type} [DecidableEq κ] (Key Value : κ → List UInt8 → Prop) (known : List κ) (there : κ → Bool) :
    List UInt8 → Prop
  | mk {h : List UInt8} (entries : List (MapEntry κ)) (head : Head 5 entries.length h)
      (hentries : ∀ e ∈ entries, Key e.key e.keyBytes ∧ Value e.key e.value)
      (hknown : ∀ k ∈ known, (entries.map (·.key)).count k = if there k then 1 else 0) :
      IsMap Key Value known there (h ++ entries.flatMap MapEntry.bytes)

/-- An item without tags, its strings, arrays and maps of definite length. -/
inductive Plain : List UInt8 → Prop
  | scalar {major arg : Nat} {bytes : List UInt8} (hmajor : major ∈ [0, 1, 7]) (h : Head major arg bytes) : Plain bytes
  | string {major : Nat} {data bytes : List UInt8} (hmajor : major ∈ [2, 3]) (h : IsString major data bytes) :
      Plain bytes
  | array {h : List UInt8} (items : List (List UInt8)) (head : Head 4 items.length h)
      (hitems : ∀ i ∈ items, Plain i) : Plain (h ++ items.flatMap id)
  | map {h : List UInt8} (entries : List (List UInt8 × List UInt8)) (head : Head 5 entries.length h)
      (hkeys : ∀ e ∈ entries, Plain e.1) (hvalues : ∀ e ∈ entries, Plain e.2) :
      Plain (h ++ entries.flatMap fun e => e.1 ++ e.2)

/-! ## Heads -/

@[simp] theorem length_bigEndian (n v : Nat) : (bigEndian n v).length = n := by
  rw [bigEndian, List.length_map, List.length_range]

/-- The number whose bytes these are, the highest first. -/
def ofBigEndian (bytes : List UInt8) : Nat := bytes.foldl (fun v b => v * 256 + b.toNat) 0

theorem ofBigEndian_concat (bytes : List UInt8) (b : UInt8) : ofBigEndian (bytes ++ [b]) = ofBigEndian bytes * 256 + b.toNat := by
  rw [ofBigEndian, List.foldl_append]
  rfl

theorem bigEndian_succ (n v : Nat) (b : UInt8) : bigEndian (n + 1) (v * 256 + b.toNat) = bigEndian n v ++ [b] := by
  have hb := b.toNat_lt
  rw [bigEndian, List.range_succ, List.map_append, bigEndian]
  congr 1
  · refine List.map_congr_left fun i hi => ?_
    have hi := List.mem_range.mp hi
    have hexp : n + 1 - 1 - i = n - 1 - i + 1 := by omega
    rw [hexp, Nat.pow_succ, Nat.mul_comm (256 ^ _), ← Nat.div_div_eq_div_mul, Nat.mul_comm v, Nat.mul_add_div (by decide),
      Nat.div_eq_of_lt hb, Nat.add_zero]
  · have hlast : v * 256 + b.toNat = b.toNat + 256 * v := by omega
    simp [hlast]

theorem ofBigEndian_lt (bytes : List UInt8) : ofBigEndian bytes < 256 ^ bytes.length := by
  induction bytes using List.reverseRecOn with
  | nil => exact Nat.one_pos
  | append_singleton bytes b ih =>
    have hb := b.toNat_lt
    rw [ofBigEndian_concat, List.length_append, List.length_singleton, Nat.pow_succ]
    omega

theorem bigEndian_ofBigEndian (bytes : List UInt8) : bigEndian bytes.length (ofBigEndian bytes) = bytes := by
  induction bytes using List.reverseRecOn with
  | nil => rfl
  | append_singleton bytes b ih => rw [ofBigEndian_concat, List.length_append, List.length_singleton, bigEndian_succ, ih]

theorem ofBigEndian_append (xs ys : List UInt8) :
    ofBigEndian (xs ++ ys) = ofBigEndian xs * 256 ^ ys.length + ofBigEndian ys := by
  induction ys using List.reverseRecOn with
  | nil => rw [List.append_nil, List.length_nil, Nat.pow_zero, Nat.mul_one]; rfl
  | append_singleton ys b ih =>
    rw [← List.append_assoc, ofBigEndian_concat, ih, ofBigEndian_concat, List.length_append, List.length_singleton,
      Nat.pow_succ, Nat.add_mul, Nat.mul_assoc, Nat.add_assoc]

theorem ofBigEndian_cons (b : UInt8) (bs : List UInt8) :
    ofBigEndian (b :: bs) = b.toNat * 256 ^ bs.length + ofBigEndian bs := by
  have hone : ofBigEndian [b] = b.toNat := Nat.zero_add _
  rw [← List.singleton_append, ofBigEndian_append, hone]

theorem ofBigEndian_bigEndian {n v : Nat} (h : v < 256 ^ n) : ofBigEndian (bigEndian n v) = v := by
  induction n generalizing v with
  | zero =>
    rw [Nat.lt_one_iff.mp h]
    rfl
  | succ n ih =>
    have hb : (UInt8.ofNat (v % 256)).toNat = v % 256 := Nat.mod_mod v 256
    have hsplit : v = v / 256 * 256 + (UInt8.ofNat (v % 256)).toNat := by
      rw [hb, Nat.div_add_mod']
    rw [Nat.pow_succ] at h
    rw [hsplit, bigEndian_succ, ofBigEndian_concat, ih (Nat.div_lt_of_lt_mul (by omega))]

theorem Head.arg_lt {major arg : Nat} {bytes : List UInt8} (h : Head major arg bytes) : arg < 2 ^ 64 := by
  cases h with
  | short h => omega
  | wide hinfo h =>
    simp only [List.mem_cons, Prod.mk.injEq, List.not_mem_nil, or_false] at hinfo
    refine Nat.lt_of_lt_of_le h ?_
    rcases hinfo with ⟨_, rfl⟩ | ⟨_, rfl⟩ | ⟨_, rfl⟩ | ⟨_, rfl⟩ <;> decide

theorem Head.ne_nil {major arg : Nat} {bytes : List UInt8} (h : Head major arg bytes) : bytes ≠ [] := by
  cases h with
  | short => exact List.cons_ne_nil _ _
  | wide => exact List.cons_ne_nil _ _

theorem Head.length_pos {major arg : Nat} {bytes : List UInt8} (h : Head major arg bytes) : 0 < bytes.length :=
  List.length_pos_iff.mpr h.ne_nil

/-! ## Short items -/

theorem isText_short {t : List UInt8} {b : UInt8} (h : t.length ≤ 23) (hb : b = UInt8.ofNat (3 * 32 + t.length)) :
    IsText t (b :: t) := by
  rw [hb]
  exact .mk (.short h)

theorem isBytes_wide {data : List UInt8} (h : data.length < 256) :
    IsBytes data (0x58 :: UInt8.ofNat data.length :: data) := by
  have head : Head 2 data.length [0x58, UInt8.ofNat data.length] := by
    have hwide : Head 2 data.length _ := .wide (i := 24) (n := 1) (by decide) h
    simpa [bigEndian] using hwide
  exact .mk head

theorem isInt_short {v : Nat} {b : UInt8} (h : v ≤ 23) (hb : b = UInt8.ofNat (0 * 32 + v)) : IsInt v [b] := by
  rw [hb]
  exact .nonneg (by omega) (by omega) (.short h)

theorem isArray_one {ι : Type} {Item : ι → List UInt8 → Prop} {i : ι} {enc : List UInt8} (h : Item i enc) :
    IsArray Item [i] (0x81 :: enc) := by
  have harray := IsArray.mk (h := [0x81]) [(i, enc)] (.short (Nat.le_add_left 1 22)) (List.forall_mem_singleton.mpr h)
  simpa using harray

theorem isMap_one {κ : Type} [DecidableEq κ] {Key Value : κ → List UInt8 → Prop} {k : κ} {kenc venc : List UInt8}
    (hkey : Key k kenc) (hvalue : Value k venc) : IsMap Key Value [k] (fun _ => true) (0xa1 :: (kenc ++ venc)) := by
  have hmap : IsMap Key Value [k] (fun _ => true) _ := .mk (h := [0xa1]) [⟨k, kenc, venc⟩]
    (.short (Nat.le_add_left 1 22)) (List.forall_mem_singleton.mpr ⟨hkey, hvalue⟩)
    (List.forall_mem_singleton.mpr (by simp))
  simpa [MapEntry.bytes] using hmap

/-- The keys and values of a map, one after another. -/
def flatten (entries : List (List UInt8 × List UInt8)) : List (List UInt8) := entries.flatMap fun e => [e.1, e.2]

theorem length_flatten (entries : List (List UInt8 × List UInt8)) : (flatten entries).length = entries.length * 2 := by
  induction entries with
  | nil => rfl
  | cons e entries ih =>
    show (flatten entries).length + 2 = _
    rw [ih, List.length_cons, Nat.succ_mul]

theorem flatMap_flatten (entries : List (List UInt8 × List UInt8)) :
    (flatten entries).flatMap id = entries.flatMap fun e => e.1 ++ e.2 := by
  simp only [flatten, List.flatMap_assoc, List.flatMap_cons, List.flatMap_nil, List.append_nil, id_eq]

theorem exists_flatten {n : Nat} {items : List (List UInt8)} (h : items.length = n * 2) :
    ∃ entries, entries.length = n ∧ flatten entries = items := by
  induction n generalizing items with
  | zero => exact ⟨[], rfl, (List.length_eq_zero_iff.mp h).symm⟩
  | succ n ih =>
    rcases items with _ | ⟨key, _ | ⟨value, items⟩⟩
    · rw [List.length_nil] at h
      omega
    · rw [List.length_singleton] at h
      omega
    · simp only [List.length_cons] at h
      obtain ⟨entries, hlen, rfl⟩ := ih (show items.length = n * 2 by omega)
      exact ⟨(key, value) :: entries, by rw [List.length_cons, hlen], rfl⟩

/-- A map whose keys and values are given one after another. -/
theorem plain_map {n : Nat} {h : List UInt8} {items : List (List UInt8)} (head : Head 5 n h)
    (hlen : items.length = n * 2) (hitems : ∀ i ∈ items, Plain i) : Plain (h ++ items.flatMap id) := by
  obtain ⟨entries, rfl, rfl⟩ := exists_flatten hlen
  have hmem : ∀ e ∈ entries, e.1 ∈ flatten entries ∧ e.2 ∈ flatten entries := fun e he =>
    ⟨List.mem_flatMap.mpr ⟨e, he, List.mem_cons_self⟩, List.mem_flatMap.mpr ⟨e, he, by simp⟩⟩
  rw [flatMap_flatten]
  exact .map entries head (fun e he => hitems _ (hmem e he).1) fun e he => hitems _ (hmem e he).2

/-! ## Maps -/

section Maps

variable {κ : Type} [DecidableEq κ] {known : List κ} {there : κ → Bool} {entries done rest : List (MapEntry κ)}
  {e : MapEntry κ}

/-- A known key that is there once is not among the entries before it. -/
theorem not_mem_done (hknown : ∀ k ∈ known, (entries.map (·.key)).count k = if there k then 1 else 0)
    (hsplit : entries = done ++ e :: rest) (hk : e.key ∈ known) : e.key ∉ done.map (·.key) ∧ there e.key = true := by
  have hcount := hknown e.key hk
  rw [hsplit, List.map_append, List.map_cons, List.count_append, List.count_cons_self] at hcount
  split at hcount
  · next h => exact ⟨List.count_eq_zero.mp (by omega), h⟩
  · omega

theorem mem_keys_iff (hknown : ∀ k ∈ known, (entries.map (·.key)).count k = if there k then 1 else 0) {k : κ}
    (hk : k ∈ known) : k ∈ entries.map (·.key) ↔ there k = true := by
  rw [← List.count_pos_iff, hknown k hk]
  split
  · next h => exact ⟨fun _ => h, fun _ => Nat.one_pos⟩
  · next h => exact ⟨fun h' => absurd h' (Nat.lt_irrefl 0), fun h' => absurd h' h⟩

end Maps

end CborForm
