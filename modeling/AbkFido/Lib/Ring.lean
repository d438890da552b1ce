/-
A circular buffer as a program keeps it: an array, the index of the oldest
element, the index the next one goes to and their number, in machine words.

`Holds` relates these to the queue they stand for. An element that is stored
at the free index goes to the end of the queue (`Holds.put`), and the one at
the first index is the head of it (`Holds.drop`). The array is a function of
the index here; `Holds` says which of its indices are used.
-/
import Mathlib.Data.List.Basic
import Mathlib.Logic.Function.Basic
import Mathlib.Algebra.Group.Nat.Defs

namespace Ring

variable {α : Type}

/-- `(index + 1) % depth` -/
def next (depth : Nat) (index : UInt32) : UInt32 := (index + 1) % .ofNat depth

structure Holds (depth : Nat) (items : Nat → α) (first free count : UInt32) (xs : List α) : Prop where
  first_lt : first.toNat < depth
  length_le : xs.length ≤ depth
  count_eq : count.toNat = xs.length
  free_eq : free.toNat = (first.toNat + xs.length) % depth
  items_eq : ∀ i x, xs[i]? = some x → items ((first.toNat + i) % depth) = x

variable {depth : Nat} {items : Nat → α} {first free count : UInt32} {x : α} {xs : List α}

theorem next_toNat (hdepth : depth < 2 ^ 32) {index : UInt32} (h : index.toNat < depth) :
    (next depth index).toNat = (index.toNat + 1) % depth := by
  have hone : (1 : UInt32).toNat = 1 := rfl
  rw [next, UInt32.toNat_mod, UInt32.toNat_add, UInt32.toNat_ofNat_of_lt' hdepth, hone, Nat.mod_eq_of_lt (a := index.toNat + 1) (by omega)]

theorem mod_ne {first i n : Nat} (hi : i < n) (hn : n < depth) : (first + i) % depth ≠ (first + n) % depth := by
  intro heq
  have hdvd : depth ∣ (first + n) - (first + i) := Nat.dvd_of_mod_eq_zero (Nat.sub_mod_eq_zero_of_mod_eq heq.symm)
  have := Nat.eq_zero_of_dvd_of_lt hdvd (by omega)
  omega

namespace Holds

theorem nil (hdepth : 0 < depth) (items : Nat → α) : Holds depth items 0 0 0 [] where
  first_lt := hdepth
  length_le := Nat.zero_le _
  count_eq := rfl
  free_eq := (Nat.zero_mod depth).symm
  items_eq i x h := by simp at h

theorem free_lt (h : Holds depth items first free count xs) : free.toNat < depth := by
  rw [h.free_eq]
  exact Nat.mod_lt _ (Nat.zero_lt_of_lt h.first_lt)

theorem count_le (h : Holds depth items first free count xs) : count.toNat ≤ depth := by
  rw [h.count_eq]
  exact h.length_le

theorem free_count (h : Holds depth items first free count xs) :
    free.toNat = (first.toNat + count.toNat) % depth := by
  rw [h.free_eq, h.count_eq]

/-- The counters and the array stand for one queue. -/
theorem unique {ys : List α} (h : Holds depth items first free count xs) (h' : Holds depth items first free count ys) :
    xs = ys := by
  have hlen : xs.length = ys.length := by rw [← h.count_eq, h'.count_eq]
  refine List.ext_getElem hlen fun i hi hi' => ?_
  rw [← h.items_eq i _ (List.getElem?_eq_getElem hi), h'.items_eq i _ (List.getElem?_eq_getElem hi')]

/-- There is room for one more. -/
theorem put (h : Holds depth items first free count xs) (hdepth : depth < 2 ^ 32) (hroom : xs.length < depth) (x : α) :
    Holds depth (Function.update items free.toNat x) first (next depth free) (count + 1) (xs ++ [x]) where
  first_lt := h.first_lt
  length_le := by
    rw [List.length_append, List.length_singleton]
    exact hroom
  count_eq := by
    have hone : (1 : UInt32).toNat = 1 := rfl
    rw [UInt32.toNat_add, h.count_eq, hone, Nat.mod_eq_of_lt (by omega), List.length_append, List.length_singleton]
  free_eq := by
    rw [next_toNat hdepth h.free_lt, h.free_eq, Nat.mod_add_mod, List.length_append, List.length_singleton, Nat.add_assoc]
  items_eq i y hy := by
    rcases Nat.lt_trichotomy i xs.length with hlt | rfl | hgt
    · rw [List.getElem?_append_left hlt] at hy
      -- The free index is none of those in use.
      rw [h.free_eq, Function.update_of_ne (mod_ne hlt hroom)]
      exact h.items_eq i y hy
    · rw [List.getElem?_concat_length] at hy
      cases hy
      rw [h.free_eq, Function.update_self]
    · rw [List.getElem?_eq_none (by rw [List.length_append, List.length_singleton]; omega)] at hy
      cases hy

/-- The oldest is where the first index says. -/
theorem first_eq (h : Holds depth items first free count (x :: xs)) : items first.toNat = x := by
  have hfirst := h.items_eq 0 x rfl
  rwa [Nat.add_zero, Nat.mod_eq_of_lt h.first_lt] at hfirst

theorem drop (h : Holds depth items first free count (x :: xs)) (hdepth : depth < 2 ^ 32) :
    Holds depth items (next depth first) free (count - 1) xs where
  first_lt := by
    rw [next_toNat hdepth h.first_lt]
    exact Nat.mod_lt _ (Nat.zero_lt_of_lt h.first_lt)
  length_le := by
    have hle := h.length_le
    rw [List.length_cons] at hle
    omega
  count_eq := by
    have hcount := h.count_eq
    rw [List.length_cons] at hcount
    have hone : (1 : UInt32) ≤ count := by
      rw [UInt32.le_iff_toNat_le, hcount]
      exact Nat.le_add_left 1 _
    rw [UInt32.toNat_sub_of_le _ _ hone, hcount]
    exact Nat.add_sub_cancel ..
  free_eq := by
    rw [next_toNat hdepth h.first_lt, h.free_eq, Nat.mod_add_mod, List.length_cons, Nat.add_assoc, Nat.add_comm 1]
  items_eq i y hy := by
    have hget := h.items_eq (i + 1) y (by rwa [List.getElem?_cons_succ])
    rwa [next_toNat hdepth h.first_lt, Nat.mod_add_mod, Nat.add_assoc, Nat.add_comm 1]

theorem count_eq_zero (h : Holds depth items first free count xs) : count = 0 ↔ xs = [] := by
  rw [← UInt32.toNat_inj, h.count_eq]
  exact List.length_eq_zero_iff

theorem count_eq_depth (h : Holds depth items first free count xs) (hdepth : depth < 2 ^ 32) :
    count = .ofNat depth ↔ xs.length = depth := by
  rw [← UInt32.toNat_inj, h.count_eq, UInt32.toNat_ofNat_of_lt' hdepth]

end Holds

end Ring
