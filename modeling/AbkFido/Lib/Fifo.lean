/-
A bounded queue in a circular buffer.

`RingBuffer` keeps its elements in a fixed array, from `head` on, and counts them;
the index of the next free place is kept too, and tied to the two by a field
of the structure. `toList` is the queue as a list, oldest first, and
`push` and `pop` are read off there: a push that finds room appends, a pop
takes the head (`toList_push`, `toList_pop`). `pushAll` offers a list of
elements and drops those that find no room, which are the last ones.
-/
import Mathlib.Data.Fin.Basic
import Mathlib.Data.List.Range
import Mathlib.Algebra.Group.Fin.Basic
import Mathlib.Algebra.GroupWithZero.Nat

structure RingBuffer (α : Type) (depth : Nat) [NeZero depth] where
  items : Fin depth → α
  head : Fin depth
  tail : Fin depth
  count : Nat
  count_le : count ≤ depth
  tail_eq : tail = head + Fin.ofNat depth count

namespace RingBuffer

variable {α : Type} {depth : Nat} [NeZero depth]

def empty (x : α) : RingBuffer α depth where
  items _ := x
  head := 0
  tail := 0
  count := 0
  count_le := Nat.zero_le _
  tail_eq := by simp

theorem ofNat_succ (n : Nat) : Fin.ofNat depth (n + 1) = Fin.ofNat depth n + 1 := by
  apply Fin.ext
  simp [Fin.val_add]

/-- An element is put in the next free place, if there is one. -/
def push (q : RingBuffer α depth) (x : α) : Option (RingBuffer α depth) :=
  if h : q.count = depth then none
  else some
    { items := Function.update q.items q.tail x
      head := q.head
      tail := q.tail + 1
      count := q.count + 1
      count_le := by have := q.count_le; omega
      tail_eq := by rw [q.tail_eq, ofNat_succ, add_assoc] }

/-- The oldest element is taken, if there is one. -/
def pop (q : RingBuffer α depth) : Option (α × RingBuffer α depth) :=
  match hc : q.count with
  | 0 => none
  | n + 1 =>
    some (q.items q.head,
      { items := q.items
        head := q.head + 1
        tail := q.tail
        count := n
        count_le := by have := q.count_le; omega
        tail_eq := by rw [q.tail_eq, hc, ofNat_succ, add_assoc, add_comm 1] })

/-- The elements, the oldest first. -/
def toList (q : RingBuffer α depth) : List α := (List.range q.count).map fun i => q.items (q.head + Fin.ofNat depth i)

@[simp] theorem length_toList (q : RingBuffer α depth) : q.toList.length = q.count := by simp [toList]

theorem length_toList_le (q : RingBuffer α depth) : q.toList.length ≤ depth := by
  rw [length_toList]
  exact q.count_le

@[simp] theorem toList_empty (x : α) : (empty x : RingBuffer α depth).toList = [] := rfl

theorem push_eq_none {q : RingBuffer α depth} {x : α} : q.push x = none ↔ q.toList.length = depth := by
  rw [length_toList, push]
  split <;> simp [*]

theorem toList_push {q q' : RingBuffer α depth} {x : α} (h : q.push x = some q') : q'.toList = q.toList ++ [x] := by
  rw [push] at h
  split at h
  · cases h
  next hroom =>
  cases h
  have hlt : q.count < depth := lt_of_le_of_ne q.count_le hroom
  simp only [toList, List.range_succ, List.map_append, List.map_cons, List.map_nil]
  congr 1
  · -- The free place is none of those that are taken.
    refine List.map_congr_left fun i hi => Function.update_of_ne ?_ ..
    rw [List.mem_range] at hi
    rw [q.tail_eq]
    intro heq
    have hval := congrArg Fin.val (add_left_cancel heq)
    rw [Fin.val_ofNat, Fin.val_ofNat, Nat.mod_eq_of_lt (by omega), Nat.mod_eq_of_lt hlt] at hval
    omega
  · rw [q.tail_eq, Function.update_self]

theorem pop_eq_none {q : RingBuffer α depth} : q.pop = none ↔ q.toList = [] := by
  rw [← List.length_eq_zero_iff, length_toList, pop]
  split <;> simp [*]

theorem toList_pop {q q' : RingBuffer α depth} {x : α} (h : q.pop = some (x, q')) : q.toList = x :: q'.toList := by
  rw [pop] at h
  split at h
  · cases h
  next n hn =>
  cases h
  simp only [toList, hn, List.range_succ_eq_map, List.map_cons, List.map_map, List.cons.injEq]
  refine ⟨by simp, List.map_congr_left fun i _ => ?_⟩
  rw [Function.comp_apply, ofNat_succ, add_assoc, add_comm 1]

theorem exists_push {q : RingBuffer α depth} (h : q.toList.length < depth) (x : α) : ∃ q', q.push x = some q' := by
  cases hp : q.push x with
  | none => exact absurd (push_eq_none.mp hp) (by omega)
  | some q' => exact ⟨q', rfl⟩

theorem exists_pop {q : RingBuffer α depth} {x : α} {xs : List α} (h : q.toList = x :: xs) :
    ∃ q', q.pop = some (x, q') ∧ q'.toList = xs := by
  cases hp : q.pop with
  | none => rw [pop_eq_none.mp hp] at h; cases h
  | some r =>
    obtain ⟨y, q'⟩ := r
    have heq := toList_pop hp
    rw [h] at heq
    cases heq
    exact ⟨q', rfl, rfl⟩

/-- Elements are offered one after the other; what finds no room is dropped. -/
def pushAll (q : RingBuffer α depth) (xs : List α) : RingBuffer α depth := xs.foldl (fun q x => (q.push x).getD q) q

theorem toList_pushAll (q : RingBuffer α depth) (xs : List α) :
    (q.pushAll xs).toList = q.toList ++ xs.take (depth - q.toList.length) := by
  induction xs generalizing q with
  | nil => simp [pushAll]
  | cons x xs ih =>
    rw [pushAll, List.foldl_cons, ← pushAll, ih]
    cases hp : q.push x with
    | none => simp [push_eq_none.mp hp]
    | some q' =>
      have hlen := q'.length_toList_le
      rw [Option.getD_some, toList_push hp] at *
      rw [List.length_append, List.length_singleton] at hlen ⊢
      rw [show depth - q.toList.length = (depth - (q.toList.length + 1)) + 1 by omega, List.take_succ_cons,
        List.append_assoc, List.singleton_append]

end RingBuffer
