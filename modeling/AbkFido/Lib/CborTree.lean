/-
CBOR data items as trees, and their canonical encoding.

The encoding writes every head in the fewest bytes. A tree is canonical if
the keys of each of its maps are in order, by major type, then length, then
bytes, which leaves no key twice; and if every number and length has a head
at all. The encoding of a canonical tree is a well-formed item
(`Canonical.plain`).
-/
import AbkFido.Lib.CborForm

namespace CborForm

/-! ## Heads -/

/-- The head with its argument in the fewest bytes. -/
def shortHead (major arg : Nat) : List UInt8 :=
  if arg ≤ 23 then [UInt8.ofNat (major * 32 + arg)]
  else if arg ≤ 0xff then UInt8.ofNat (major * 32 + 24) :: bigEndian 1 arg
  else if arg ≤ 0xffff then UInt8.ofNat (major * 32 + 25) :: bigEndian 2 arg
  else if arg ≤ 0xffffffff then UInt8.ofNat (major * 32 + 26) :: bigEndian 4 arg
  else UInt8.ofNat (major * 32 + 27) :: bigEndian 8 arg

theorem length_shortHead (major arg : Nat) : (shortHead major arg).length =
    if arg ≤ 23 then 1 else if arg ≤ 0xff then 2 else if arg ≤ 0xffff then 3 else if arg ≤ 0xffffffff then 5 else 9 := by
  simp only [shortHead, apply_ite List.length, List.length_cons, List.length_nil, length_bigEndian]

theorem length_shortHead_le (major arg : Nat) : (shortHead major arg).length ≤ 9 := by
  rw [length_shortHead]
  split_ifs <;> decide

theorem head_shortHead {major arg : Nat} (h : arg < 2 ^ 64) : Head major arg (shortHead major arg) := by
  unfold shortHead
  split
  · next hle => exact .short hle
  split
  · exact .wide (i := 24) (n := 1) (by decide) (by omega)
  split
  · exact .wide (i := 25) (n := 2) (by decide) (by omega)
  split
  · exact .wide (i := 26) (n := 4) (by decide) (by omega)
  · exact .wide (i := 27) (n := 8) (by decide) h

/-- No head is shorter. -/
theorem shortest_shortHead {major arg : Nat} (h : arg < 2 ^ 64) : Shortest major arg (shortHead major arg) where
  head := head_shortHead h
  le := by
    intro other hother
    rw [length_shortHead]
    cases hother with
    | short hle =>
      rw [if_pos hle]
      exact Nat.le_refl 1
    | wide hinfo hlt =>
      simp only [List.mem_cons, Prod.mk.injEq, List.not_mem_nil, or_false] at hinfo
      rw [List.length_cons, length_bigEndian]
      rcases hinfo with ⟨_, rfl⟩ | ⟨_, rfl⟩ | ⟨_, rfl⟩ | ⟨_, rfl⟩ <;> (split_ifs <;> omega)

/-! ## Trees -/

inductive Tree
  | uint (n : Nat)
  /-- The integer -1 - n. -/
  | nint (n : Nat)
  | bytes (data : List UInt8)
  | text (s : List UInt8)
  | bool (b : Bool)
  | array (items : List Tree)
  | map (entries : List (Tree × Tree))

namespace Tree

mutual

def encode : Tree → List UInt8
  | uint n => shortHead 0 n
  | nint n => shortHead 1 n
  | bytes data => shortHead 2 data.length ++ data
  | text s => shortHead 3 s.length ++ s
  | bool b => shortHead 7 (if b then 21 else 20)
  | array items => shortHead 4 items.length ++ encodeItems items
  | map entries => shortHead 5 entries.length ++ encodeEntries entries

def encodeItems : List Tree → List UInt8
  | [] => []
  | item :: items => item.encode ++ encodeItems items

def encodeEntries : List (Tree × Tree) → List UInt8
  | [] => []
  | entry :: entries => encodeEntry entry ++ encodeEntries entries

def encodeEntry : Tree × Tree → List UInt8
  | (key, value) => key.encode ++ value.encode

end

/-- An integer, whichever its sign. -/
def int (v : Int) : Tree := if 0 ≤ v then uint v.toNat else nint (-1 - v).toNat

/-- The order of keys. -/
def KeyLt (key key' : Tree) : Prop :=
  let major := fun k : Tree => (k.encode.headD 0).toNat / 32
  major key < major key' ∨ major key = major key' ∧
    (key.encode.length < key'.encode.length ∨ key.encode.length = key'.encode.length ∧ key.encode < key'.encode)

instance (key key' : Tree) : Decidable (KeyLt key key') := inferInstanceAs (Decidable (_ ∨ _ ∧ (_ ∨ _ ∧ _)))

inductive Canonical : Tree → Prop
  | uint {n} : n < 2 ^ 64 → Canonical (uint n)
  | nint {n} : n < 2 ^ 64 → Canonical (nint n)
  | bytes {data} : data.length < 2 ^ 64 → Canonical (bytes data)
  | text {s} : s.length < 2 ^ 64 → Canonical (text s)
  | bool {b} : Canonical (bool b)
  | array {items} : items.length < 2 ^ 64 → (∀ i ∈ items, Canonical i) → Canonical (array items)
  | map {entries} : entries.length < 2 ^ 64 → (entries.map (·.1)).Pairwise KeyLt → (∀ e ∈ entries, Canonical e.1) →
      (∀ e ∈ entries, Canonical e.2) → Canonical (map entries)

theorem encodeItems_eq (items : List Tree) : encodeItems items = items.flatMap encode := by
  induction items with
  | nil => rfl
  | cons item items ih => rw [encodeItems, ih, List.flatMap_cons]

theorem encodeEntries_eq (entries : List (Tree × Tree)) :
    encodeEntries entries = entries.flatMap fun e => e.1.encode ++ e.2.encode := by
  induction entries with
  | nil => rfl
  | cons entry entries ih => rw [encodeEntries, ih, List.flatMap_cons, encodeEntry]

theorem Canonical.int {v : Int} (hmin : -2 ^ 63 ≤ v) (hmax : v < 2 ^ 63) : Canonical (Tree.int v) := by
  unfold Tree.int
  split
  · exact .uint (by omega)
  · exact .nint (by omega)

def CanonicalEntries (entries : List (Tree × Tree)) : Prop := ∀ e ∈ entries, e.1.Canonical ∧ e.2.Canonical

namespace CanonicalEntries

variable {entries entries' : List (Tree × Tree)} {key value : Tree}

theorem nil : CanonicalEntries [] := fun _ h => nomatch h

theorem cons (hkey : key.Canonical) (hvalue : value.Canonical) (h : CanonicalEntries entries) :
    CanonicalEntries ((key, value) :: entries) :=
  List.forall_mem_cons.mpr ⟨⟨hkey, hvalue⟩, h⟩

theorem append (h : CanonicalEntries entries) (h' : CanonicalEntries entries') : CanonicalEntries (entries ++ entries') :=
  List.forall_mem_append.mpr ⟨h, h'⟩

/-- A map with some of the keys of a sorted list. -/
theorem map {keys : List Tree} (h : CanonicalEntries entries) (hsorted : keys.Pairwise KeyLt)
    (hkeys : (entries.map (·.1)).Sublist keys) (hlen : keys.length < 2 ^ 64) : (Tree.map entries).Canonical := by
  have hle := hkeys.length_le
  rw [List.length_map] at hle
  exact .map (Nat.lt_of_le_of_lt hle hlen) (hsorted.sublist hkeys) (fun e he => (h e he).1) fun e he => (h e he).2

end CanonicalEntries

/-- The encoding of a canonical tree is one item, and nothing more. -/
theorem Canonical.plain {t : Tree} (h : t.Canonical) : Plain t.encode := by
  induction h with
  | uint h => exact .scalar (by decide) (head_shortHead h)
  | nint h => exact .scalar (by decide) (head_shortHead h)
  | bytes h => exact .string (by decide) (.mk (head_shortHead h))
  | text h => exact .string (by decide) (.mk (head_shortHead h))
  | bool =>
    rename_i b
    exact .scalar (by decide) (head_shortHead (by cases b <;> decide))
  | array hlen _ ih =>
    rename_i items _
    have hplain := Plain.array (items.map encode) (by rw [List.length_map]; exact head_shortHead hlen)
      (List.forall_mem_map.mpr ih)
    rw [encode, encodeItems_eq]
    simpa [List.flatMap_map] using hplain
  | map hlen _ _ _ ihk ihv =>
    rename_i entries _ _ _
    have hplain := Plain.map (entries.map fun e => (e.1.encode, e.2.encode))
      (by rw [List.length_map]; exact head_shortHead hlen) (List.forall_mem_map.mpr ihk) (List.forall_mem_map.mpr ihv)
    rw [encode, encodeEntries_eq]
    simpa [List.flatMap_map] using hplain

/-! ## Lengths -/

theorem length_int_le (v : Int) : (int v).encode.length ≤ 9 := by
  unfold int
  split <;> exact length_shortHead_le _ _

theorem length_text_le (s : List UInt8) : (text s).encode.length ≤ 9 + s.length := by
  have h := length_shortHead_le 3 s.length
  rw [encode, List.length_append]
  omega

theorem length_bytes_le (data : List UInt8) : (bytes data).encode.length ≤ 9 + data.length := by
  have h := length_shortHead_le 2 data.length
  rw [encode, List.length_append]
  omega

theorem length_array_le {items : List Tree} {n : Nat} (h : ∀ i ∈ items, i.encode.length ≤ n) :
    (array items).encode.length ≤ 9 + items.length * n := by
  have hitems : (encodeItems items).length ≤ items.length * n := by
    induction items with
    | nil => simp [encodeItems]
    | cons item items ih =>
      have hitem := h item (by simp)
      have hitems := ih fun i hi => h i (by simp [hi])
      rw [encodeItems, List.length_append, List.length_cons, Nat.succ_mul]
      omega
  have hhead := length_shortHead_le 4 items.length
  rw [encode, List.length_append]
  omega

theorem length_map_le {entries : List (Tree × Tree)} {n : Nat} (h : ∀ e ∈ entries, e.1.encode.length + e.2.encode.length ≤ n) :
    (map entries).encode.length ≤ 9 + entries.length * n := by
  have hentries : (encodeEntries entries).length ≤ entries.length * n := by
    induction entries with
    | nil => simp [encodeEntries]
    | cons entry entries ih =>
      have hentry := h entry (by simp)
      have hentries := ih fun e he => h e (by simp [he])
      rw [encodeEntries, encodeEntry, List.length_append, List.length_append, List.length_cons, Nat.succ_mul]
      omega
  have hhead := length_shortHead_le 5 entries.length
  rw [encode, List.length_append]
  omega

/-! ## As the reader's forms -/

theorem isInt_encode {v : Int} (hmin : -2 ^ 63 ≤ v) (hmax : v < 2 ^ 63) : IsInt v (int v).encode := by
  unfold int
  split
  · next h => exact .nonneg h hmax (head_shortHead (by omega))
  · next h => exact .neg (by omega) hmin (head_shortHead (by omega))

theorem isText_encode {s : List UInt8} (h : s.length < 2 ^ 64) : IsText s (text s).encode := .mk (head_shortHead h)

theorem isBytes_encode {data : List UInt8} (h : data.length < 2 ^ 64) : IsBytes data (bytes data).encode := .mk (head_shortHead h)

theorem isBool_encode (b : Bool) : IsBool b (bool b).encode := by
  cases b with
  | false => exact .false
  | true => exact .true

theorem isArray_encode {ι : Type} {Item : ι → List UInt8 → Prop} {items : List (ι × Tree)} (hlen : items.length < 2 ^ 64)
    (hitems : ∀ i ∈ items, Item i.1 i.2.encode) : IsArray Item (items.map (·.1)) (array (items.map (·.2))).encode := by
  have harray : IsArray Item _ _ := IsArray.mk (items.map fun i => (i.1, i.2.encode))
    (head_shortHead (by rwa [List.length_map])) (List.forall_mem_map.mpr hitems)
  rw [List.map_map, List.length_map, List.flatMap_map] at harray
  rw [encode, List.length_map, encodeItems_eq, List.flatMap_map]
  exact harray

/-- A map whose entries are given with the keys they stand for. -/
theorem isMap_encode {κ : Type} [DecidableEq κ] {Key Value : κ → List UInt8 → Prop} {known : List κ} {there : κ → Bool}
    {entries : List (κ × Tree × Tree)} (hlen : entries.length < 2 ^ 64)
    (hentries : ∀ e ∈ entries, Key e.1 e.2.1.encode ∧ Value e.1 e.2.2.encode)
    (hknown : ∀ k ∈ known, (entries.map (·.1)).count k = if there k then 1 else 0) :
    IsMap Key Value known there (map (entries.map (·.2))).encode := by
  have hmap : IsMap Key Value known there _ := IsMap.mk (entries.map fun e => ⟨e.1, e.2.1.encode, e.2.2.encode⟩)
    (head_shortHead (by rwa [List.length_map])) (List.forall_mem_map.mpr hentries) (by rwa [List.map_map])
  rw [List.length_map, List.flatMap_map] at hmap
  rw [encode, List.length_map, encodeEntries_eq, List.flatMap_map]
  exact hmap

end Tree

end CborForm
