/-
Taking the indentation that a text's lines have in common off each of them.

`common` and the dropping work on lines. For a text put together from parts
the same is done here character by character (`cut`), with what is left to
drop at the end of a part (`left`); that only spaces are dropped is `Spaced`.
-/
import Mathlib.Data.List.Basic
import Mathlib.Data.List.MinMax

namespace Indent

variable {α : Type*}

/-- The spaces that a line begins with. -/
def width (space : α → Bool) (line : List α) : Nat := (line.takeWhile space).length

/-- The least indentation of a line that is not blank. -/
def common (space : α → Bool) (lines : List (List α)) : Nat :=
  ((lines.filter fun line => !line.all space).map (width space)).min?.getD 0

section
variable {space : α → Bool} {lines : List (List α)} {line : List α}

theorem common_le (hmem : line ∈ lines) (hline : line.all space = false) : common space lines ≤ width space line := by
  have hwidth : width space line ∈ (lines.filter fun line => !line.all space).map (width space) :=
    List.mem_map_of_mem (List.mem_filter.mpr ⟨hmem, by rw [hline]; rfl⟩)
  unfold common
  cases hmin : ((lines.filter fun line => !line.all space).map (width space)).min? with
  | none => exact absurd (List.min?_eq_none_iff.mp hmin ▸ hwidth) List.not_mem_nil
  | some n => exact (List.min?_eq_some_iff.mp hmin).2 _ hwidth

theorem take_width (line : List α) {n : Nat} (h : n ≤ width space line) : (line.take n).all space = true := by
  induction line generalizing n with
  | nil => simp
  | cons c line ih =>
    cases n with
    | zero => rfl
    | succ n =>
      rw [width, List.takeWhile_cons] at h
      split at h
      · next hc =>
        rw [List.take_succ_cons, List.all_cons, hc, Bool.true_and]
        exact ih (Nat.le_of_succ_le_succ h)
      · exact absurd h (Nat.not_succ_le_zero n)

theorem width_append {s : List α} {c : α} (hs : s.all space = true) (hc : space c = false) :
    width space (s ++ c :: line) = s.length := by
  rw [width, List.takeWhile_append_of_pos (List.all_eq_true.mp hs), List.takeWhile_cons, hc]
  simp

/-- What is dropped of any line are spaces. -/
theorem take_common (hmem : line ∈ lines) : (line.take (common space lines)).all space = true := by
  cases hline : line.all space with
  | true =>
    rw [List.all_eq_true] at hline ⊢
    exact fun c hc => hline c (List.mem_of_mem_take hc)
  | false => exact take_width line (common_le hmem hline)

/-- A line that has no indentation leaves none in common, and nothing else does. -/
theorem common_eq_zero (hline : line ∈ lines) (hnot : line.all space = false) :
    common space lines = 0 ↔ ∃ line ∈ lines, ∃ c ∈ line.head?, space c = false := by
  constructor
  · intro hzero
    have hmin : ((lines.filter fun line => !line.all space).map (width space)).min? = some 0 := by
      unfold common at hzero
      cases hmin : ((lines.filter fun line => !line.all space).map (width space)).min? with
      | none =>
        have hwidth : width space line ∈ (lines.filter fun line => !line.all space).map (width space) :=
          List.mem_map_of_mem (List.mem_filter.mpr ⟨hline, by rw [hnot]; rfl⟩)
        exact absurd (List.min?_eq_none_iff.mp hmin ▸ hwidth) List.not_mem_nil
      | some n =>
        rw [hmin] at hzero
        exact congrArg some hzero
    obtain ⟨flush, hflush, hwidth⟩ := List.mem_map.mp (List.min?_eq_some_iff.mp hmin).1
    obtain ⟨hmem, hblank⟩ := List.mem_filter.mp hflush
    cases flush with
    | nil => simp at hblank
    | cons c flush =>
      refine ⟨_, hmem, c, rfl, ?_⟩
      cases hc : space c with
      | false => rfl
      | true => simp [width, hc] at hwidth
  · rintro ⟨flush, hmem, c, hhead, hc⟩
    obtain ⟨rest, rfl⟩ := List.head?_eq_some_iff.mp hhead
    have hle := common_le hmem (show (c :: rest).all space = false by simp [hc])
    simp only [width, List.takeWhile_cons, hc] at hle
    exact Nat.le_zero.mp hle

end

/-! ## Character by character -/

variable [DecidableEq α]

section
variable (nl : α)

/-- The first line, and the others. -/
def lines : List α → List α × List (List α)
  | [] => ([], [])
  | c :: s => if c = nl then ([], (lines s).1 :: (lines s).2) else (c :: (lines s).1, (lines s).2)

/-- Without the first `k` characters of the line and `m` of each line after it. -/
def cut (m : Nat) : Nat → List α → List α
  | _, [] => []
  | k, c :: s => if c = nl then c :: cut m m s else if k = 0 then c :: cut m 0 s else cut m (k - 1) s

/-- How many characters are still to be dropped of the line that the text ends in. -/
def left (m : Nat) : Nat → List α → Nat
  | k, [] => k
  | k, c :: s => if c = nl then left m m s else left m (k - 1) s

/-- What is dropped are spaces. -/
def Spaced (space : α → Bool) (m : Nat) : Nat → List α → Prop
  | _, [] => True
  | k, c :: s =>
    if c = nl then Spaced space m m s
    else if k = 0 then Spaced space m 0 s
    else space c ∧ Spaced space m (k - 1) s

/-- Some line begins with a character that is not a space; the first counts if `start`. -/
def flush (space : α → Bool) : Bool → List α → Bool
  | _, [] => false
  | start, c :: s => start && !space c || flush space (c == nl) s

/-- After the text a line begins. -/
def atStart : Bool → List α → Bool
  | start, [] => start
  | _, c :: s => atStart (c == nl) s

end

variable {nl : α} {space : α → Bool} {m k : Nat} {s t : List α} {start : Bool}

theorem splitOn_eq (s : List α) : s.splitOn nl = (lines nl s).1 :: (lines nl s).2 := by
  induction s with
  | nil => exact List.splitOn_nil nl
  | cons c s ih =>
    rw [List.splitOn_cons_eq_if_modifyHead, ih, lines]
    by_cases hc : c = nl
    · simp [hc]
    · simp [hc]

theorem lines_append (h : nl ∉ s) (t : List α) : (lines nl (s ++ t)).1 = s ++ (lines nl t).1 := by
  induction s with
  | nil => rfl
  | cons c s ih =>
    rw [List.mem_cons, not_or] at h
    rw [List.cons_append, lines, if_neg (Ne.symm h.1), ih h.2, List.cons_append]

theorem cut_lines (m k : Nat) (s : List α) :
    [nl].intercalate ((lines nl s).1.drop k :: (lines nl s).2.map (·.drop m)) = cut nl m k s := by
  induction s generalizing k with
  | nil => simp [lines, cut]
  | cons c s ih =>
    by_cases hc : c = nl
    · have hs := ih m
      simp [lines, cut, hc, List.intercalate_cons_cons, hs]
    cases k with
    | zero =>
      have hs := ih 0
      rw [List.drop_zero] at hs
      rw [lines, if_neg hc, cut, if_neg hc, if_pos rfl, ← hs]
      cases (lines nl s).2 <;> simp [List.intercalate_cons_cons]
    | succ k =>
      rw [lines, if_neg hc, cut, if_neg hc, if_neg (Nat.succ_ne_zero k), Nat.add_sub_cancel, ← ih k]
      rfl

theorem spaced_lines (hfirst : ((lines nl s).1.take k).all space = true)
    (hothers : ∀ line ∈ (lines nl s).2, (line.take m).all space = true) : Spaced nl space m k s := by
  induction s generalizing k with
  | nil => trivial
  | cons c s ih =>
    rw [Spaced]
    by_cases hc : c = nl
    · rw [lines, if_pos hc] at hothers
      obtain ⟨hline, hothers⟩ := List.forall_mem_cons.mp hothers
      rw [if_pos hc]
      exact ih hline hothers
    rw [lines, if_neg hc] at hfirst hothers
    rw [if_neg hc]
    cases k with
    | zero => exact ih rfl hothers
    | succ k =>
      rw [List.take_succ_cons, List.all_cons, Bool.and_eq_true] at hfirst
      exact ⟨hfirst.1, ih hfirst.2 hothers⟩

theorem spaced_common (nl : α) (space : α → Bool) (s : List α) :
    Spaced nl space (common space (s.splitOn nl)) (common space (s.splitOn nl)) s := by
  have hdrop : ∀ line ∈ s.splitOn nl, (line.take (common space (s.splitOn nl))).all space = true :=
    fun _ hline => take_common hline
  generalize common space (s.splitOn nl) = m at hdrop ⊢
  rw [splitOn_eq, List.forall_mem_cons] at hdrop
  exact spaced_lines hdrop.1 hdrop.2

theorem flush_lines (hnl : space nl = true) (start : Bool) (s : List α) : flush nl space start s = true ↔
    (start = true ∧ ∃ c ∈ (lines nl s).1.head?, space c = false) ∨
      ∃ line ∈ (lines nl s).2, ∃ c ∈ line.head?, space c = false := by
  induction s generalizing start with
  | nil => simp [flush, lines]
  | cons c s ih =>
    rw [flush, lines]
    by_cases hc : c = nl
    · subst hc
      simp [hnl, ih]
    · simp [hc, ih]

/-! ### A text in parts -/

theorem cut_append (m k : Nat) (s t : List α) : cut nl m k (s ++ t) = cut nl m k s ++ cut nl m (left nl m k s) t := by
  induction s generalizing k with
  | nil => rfl
  | cons c s ih =>
    rw [List.cons_append, cut, cut, left]
    split_ifs with hc hk
    · rw [ih, List.cons_append]
    · rw [ih, hk, List.cons_append]
    · exact ih _

theorem left_append (m k : Nat) (s t : List α) : left nl m k (s ++ t) = left nl m (left nl m k s) t := by
  induction s generalizing k with
  | nil => rfl
  | cons c s ih =>
    rw [List.cons_append, left, left]
    split_ifs <;> exact ih _

theorem spaced_append (m k : Nat) (s t : List α) :
    Spaced nl space m k (s ++ t) ↔ Spaced nl space m k s ∧ Spaced nl space m (left nl m k s) t := by
  induction s generalizing k with
  | nil => simp [Spaced, left]
  | cons c s ih =>
    rw [List.cons_append, Spaced, Spaced, left]
    split_ifs with hc hk
    · exact ih m
    · rw [ih, hk]
    · rw [ih, and_assoc]

theorem flush_append (start : Bool) (s t : List α) :
    flush nl space start (s ++ t) = (flush nl space start s || flush nl space (atStart nl start s) t) := by
  induction s generalizing start with
  | nil => rfl
  | cons c s ih => rw [List.cons_append, flush, flush, ih, atStart, Bool.or_assoc]

theorem atStart_append (start : Bool) (s t : List α) :
    atStart nl start (s ++ t) = atStart nl (atStart nl start s) t := by
  induction s generalizing start with
  | nil => rfl
  | cons c s ih => exact ih _

/-! ### One line -/

theorem cut_replicate {c : α} (hc : c ≠ nl) {n : Nat} (hk : k ≤ n) (t : List α) :
    cut nl m k (List.replicate n c ++ t) = List.replicate (n - k) c ++ cut nl m 0 t := by
  induction n generalizing k with
  | zero =>
    obtain rfl := Nat.le_zero.mp hk
    rfl
  | succ n ih =>
    rw [List.replicate_succ, List.cons_append, cut, if_neg hc]
    split_ifs with hzero
    · rw [ih (Nat.zero_le n), hzero, Nat.sub_zero, Nat.sub_zero, List.replicate_succ, List.cons_append]
    · rw [ih (by omega), show n + 1 - k = n - (k - 1) by omega]

theorem left_replicate {c : α} (hc : c ≠ nl) {n : Nat} (hk : k ≤ n) (t : List α) :
    left nl m k (List.replicate n c ++ t) = left nl m 0 t := by
  induction n generalizing k with
  | zero =>
    obtain rfl := Nat.le_zero.mp hk
    rfl
  | succ n ih =>
    rw [List.replicate_succ, List.cons_append, left, if_neg hc]
    exact ih (by omega)

theorem cut_line (h : nl ∉ s) : cut nl m 0 s = s := by
  induction s with
  | nil => rfl
  | cons c s ih =>
    rw [List.mem_cons, not_or] at h
    rw [cut, if_neg (Ne.symm h.1), if_pos rfl, ih h.2]

theorem left_line (h : nl ∉ s) : left nl m 0 s = 0 := by
  induction s with
  | nil => rfl
  | cons c s ih =>
    rw [List.mem_cons, not_or] at h
    rw [left, if_neg (Ne.symm h.1)]
    exact ih h.2

theorem flush_line (space : α → Bool) (h : nl ∉ s) : flush nl space false s = false ∧ atStart nl false s = false := by
  induction s with
  | nil => exact ⟨rfl, rfl⟩
  | cons c s ih =>
    rw [List.mem_cons, not_or] at h
    have hc : (c == nl) = false := beq_eq_false_iff_ne.mpr (Ne.symm h.1)
    rw [flush, atStart, hc]
    exact ih h.2

/-! ### What is kept -/

theorem cut_sublist (m k : Nat) (s : List α) : (cut nl m k s).Sublist s := by
  induction s generalizing k with
  | nil => exact .slnil
  | cons c s ih =>
    rw [cut]
    split_ifs
    · exact (ih m).cons_cons c
    · exact (ih 0).cons_cons c
    · exact (ih (k - 1)).cons c

theorem cut_zero (s : List α) : cut nl 0 0 s = s := by
  induction s with
  | nil => rfl
  | cons c s ih => rw [cut, ih, if_pos rfl, ite_self]

/-- Where something is to be dropped of every line, a text that keeps all it has
and nothing to drop is one line. -/
theorem cut_eq_self (hm : 0 < m) (hleft : left nl m k s = 0) : cut nl m k s = s ↔ nl ∉ s ∧ k = 0 := by
  constructor
  · intro h
    induction s generalizing k with
    | nil => exact ⟨List.not_mem_nil, hleft⟩
    | cons c s ih =>
      rw [cut] at h
      rw [left] at hleft
      by_cases hc : c = nl
      · rw [if_pos hc] at h hleft
        have hzero := (ih hleft (List.cons_inj_right c |>.mp h)).2
        omega
      rw [if_neg hc] at h hleft
      by_cases hk : k = 0
      · subst hk
        rw [if_pos rfl] at h
        have hs := (ih hleft (List.cons_inj_right c |>.mp h)).1
        exact ⟨by rw [List.mem_cons, not_or]; exact ⟨Ne.symm hc, hs⟩, rfl⟩
      · rw [if_neg hk] at h
        have hle : (cut nl m (k - 1) s).length ≤ s.length := (cut_sublist m (k - 1) s).length_le
        rw [h, List.length_cons] at hle
        omega
  · rintro ⟨hs, rfl⟩
    exact cut_line hs

/-- The text has a line after its first that begins with no space; one that is
empty at its end counts. -/
def Flush (nl : α) (space : α → Bool) (s : List α) : Prop :=
  ∃ before after, s = before ++ nl :: after ∧ ∀ c ∈ after.head?, space c = false

theorem flush_iff {c : α} (hnl : space nl = true) (hc : space c = false) :
    flush nl space start (s ++ [c]) = true ↔
      (start = true ∧ ∀ c ∈ s.head?, space c = false) ∨ Flush nl space s := by
  induction s generalizing start with
  | nil =>
    simp [flush, hc, Flush]
  | cons x s ih =>
    rw [List.cons_append, flush, Bool.or_eq_true, ih]
    have hsplit : Flush nl space (x :: s) ↔ (x = nl ∧ ∀ c ∈ s.head?, space c = false) ∨ Flush nl space s := by
      constructor
      · rintro ⟨before, after, heq, hafter⟩
        cases before with
        | nil =>
          obtain ⟨rfl, rfl⟩ := List.cons.inj heq
          exact .inl ⟨rfl, hafter⟩
        | cons y before =>
          obtain ⟨rfl, rfl⟩ := List.cons.inj heq
          exact .inr ⟨before, after, rfl, hafter⟩
      · rintro (⟨rfl, hs⟩ | ⟨before, after, rfl, hafter⟩)
        · exact ⟨[], s, rfl, hs⟩
        · exact ⟨x :: before, after, rfl, hafter⟩
    rw [hsplit]
    simp

end Indent
