/-
Reading from a stream that arrives in pieces.

A `read` gives some of what has arrived, and `readFull` reads until it has as
much as was asked for. It takes that much off the front of the stream, or fails
where the stream ends before; how the stream was cut does not matter
(`rejoins_readFull`), nor does it to a reader that is put together from such
reads (`Rejoins.bind`).
-/
import Mathlib.Data.List.Basic

namespace Chunks

variable {α : Type}

/-- `read`: at least one element of the next piece, and at most `n`; none at
the end of the stream. -/
def read (n : Nat) : List (List α) → List α × List (List α)
  | [] => ([], [])
  | [] :: pieces => read n pieces
  | (x :: piece) :: pieces => ((x :: piece).take n, (x :: piece).drop n :: pieces)

theorem read_flatten (n : Nat) (pieces : List (List α)) : (read n pieces).1 ++ (read n pieces).2.flatten = pieces.flatten := by
  fun_induction read n pieces with
  | case1 => rfl
  | case2 _ ih => simpa using ih
  | case3 x piece pieces => rw [List.flatten_cons, List.flatten_cons, ← List.append_assoc, List.take_append_drop]

theorem length_read_le (n : Nat) (pieces : List (List α)) : (read n pieces).1.length ≤ n := by
  fun_induction read n pieces with
  | case1 => exact Nat.zero_le _
  | case2 _ ih => exact ih
  | case3 => exact List.length_take_le _ _

/-- Only the end of the stream gives nothing. -/
theorem read_eq_nil {n : Nat} (hn : n ≠ 0) {pieces : List (List α)} (h : (read n pieces).1 = []) : pieces.flatten = [] := by
  fun_induction read n pieces with
  | case1 => rfl
  | case2 _ ih => simpa using ih h
  | case3 x piece pieces =>
    rcases List.take_eq_nil_iff.mp h with hzero | hcons
    · exact absurd hzero hn
    · cases hcons

/-- `readFully`, `ReadFull` -/
def readFull (n : Nat) (pieces : List (List α)) : Option (List α × List (List α)) :=
  if n = 0 then some ([], pieces)
  else
    match _h : read n pieces with
    | ([], _) => none
    | (x :: got, rest) => (readFull (n - (x :: got).length) rest).map fun more => (x :: got ++ more.1, more.2)
termination_by n
decreasing_by
  rw [List.length_cons]
  omega

/-- The stream ends too early. -/
theorem readFull_none {n : Nat} {pieces : List (List α)} (h : pieces.flatten.length < n) : readFull n pieces = none := by
  fun_induction readFull n pieces with
  | case1 pieces => exact absurd h (Nat.not_lt_zero _)
  | case2 n pieces hn rest hread => rfl
  | case3 n pieces hn x got rest hread ih =>
    have hflat := read_flatten n pieces
    rw [hread] at hflat
    have hlen : (x :: got).length + rest.flatten.length = pieces.flatten.length := by rw [← hflat, List.length_append]
    rw [ih (by omega), Option.map_none]

theorem readFull_some {n : Nat} {pieces : List (List α)} (h : n ≤ pieces.flatten.length) :
    ∃ rest, readFull n pieces = some (pieces.flatten.take n, rest) ∧ rest.flatten = pieces.flatten.drop n := by
  fun_induction readFull n pieces with
  | case1 pieces => exact ⟨pieces, by rw [List.take_zero], by rw [List.drop_zero]⟩
  | case2 n pieces hn rest hread =>
    rw [read_eq_nil hn (by rw [hread])] at h
    exact absurd (Nat.le_zero.mp h) hn
  | case3 n pieces hn x got rest hread ih =>
    have hflat := read_flatten n pieces
    have hle := length_read_le n pieces
    rw [hread] at hflat hle
    have hlen : (x :: got).length + rest.flatten.length = pieces.flatten.length := by rw [← hflat, List.length_append]
    obtain ⟨rest', hrest, hdrop⟩ := ih (by omega)
    refine ⟨rest', ?_, ?_⟩
    · rw [hrest, Option.map_some, ← hflat, List.take_append, List.take_of_length_le hle]
    · rw [hdrop, ← hflat, List.drop_append, List.drop_of_length_le hle, List.nil_append]

/-- `readFull` on the stream itself. -/
def takeFull (n : Nat) (stream : List α) : Option (List α × List α) :=
  if n ≤ stream.length then some (stream.take n, stream.drop n) else none

variable {β γ : Type}

/-- What is read from the pieces is what is read from the stream, and the rest is the rest. -/
def Rejoins (r : Option (β × List (List α))) (whole : Option (β × List α)) : Prop :=
  r.map (fun r => (r.1, r.2.flatten)) = whole

theorem rejoins_readFull (n : Nat) (pieces : List (List α)) : Rejoins (readFull n pieces) (takeFull n pieces.flatten) := by
  rw [takeFull]
  split
  · next hle =>
    obtain ⟨rest, hread, hrest⟩ := readFull_some hle
    rw [Rejoins, hread, Option.map_some, hrest]
  · next hlt => rw [Rejoins, readFull_none (Nat.lt_of_not_le hlt), Option.map_none]

/-- A step that reads nothing. -/
theorem Rejoins.of_option (b : Option β) (pieces : List (List α)) :
    Rejoins (b.map fun b => (b, pieces)) (b.map fun b => (b, pieces.flatten)) := by
  cases b with
  | none => rfl
  | some b => rfl

theorem Rejoins.bind {r : Option (β × List (List α))} {whole : Option (β × List α)}
    {f : β × List (List α) → Option (γ × List (List α))} {g : β × List α → Option (γ × List α)}
    (h : Rejoins r whole) (hf : ∀ b pieces, Rejoins (f (b, pieces)) (g (b, pieces.flatten))) :
    Rejoins (r.bind f) (whole.bind g) := by
  cases r with
  | none =>
    cases h
    rfl
  | some r =>
    cases h
    exact hf r.1 r.2

end Chunks
