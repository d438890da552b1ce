/-
Text between markers, and what a search for it replaces.

A block begins at an opening marker and ends at the first closing marker after
it. `replaceBlocks` is what a lazy search for the two makes of a text: it
leaves a text without blocks alone, and otherwise replaces everything from the
first opening marker to the first closing marker after that. Where the markers
do not overlap, a text has its blocks in one way (`first_unique`).
-/
import Mathlib.Data.List.Infix
import Mathlib.Data.List.DropRight
import Mathlib.Data.Nat.Find

namespace Markers

variable {α : Type}

/-! ## Replacing -/

/-- What a scan writes: `new` for each match, whose length `len` says, and
everything else as it is. The first number is how much of a match is left. -/
def scan (len : List α → Option Nat) (new : List α) : Nat → List α → List α
  | _, [] => []
  | left + 1, _ :: s => scan len new left s
  | 0, a :: s =>
    match len (a :: s) with
    | some n => new ++ scan len new (n - 1) s
    | none => a :: scan len new 0 s

section
variable {len : List α → Option Nat} {new : List α}

theorem scan_left (n : Nat) (s : List α) : scan len new n s = scan len new 0 (s.drop n) := by
  induction s generalizing n with
  | nil => rw [List.drop_nil, scan, scan]
  | cons a s ih =>
    cases n with
    | zero => rfl
    | succ n => rw [scan, List.drop_succ_cons, ih]

/-- A text goes on as it is up to where something matches. -/
theorem scan_append {x s : List α} (h : ∀ y z, x = y ++ z → z ≠ [] → len (z ++ s) = none) :
    scan len new 0 (x ++ s) = x ++ scan len new 0 s := by
  induction x with
  | nil => rfl
  | cons a x ih =>
    have hnone : len (a :: (x ++ s)) = none := h [] (a :: x) rfl nofun
    rw [List.cons_append, scan, hnone, List.cons_append, ih fun y z hx => h (a :: y) z (by rw [hx, List.cons_append])]

theorem scan_match {x s : List α} (hne : x ≠ []) (h : len (x ++ s) = some x.length) :
    scan len new 0 (x ++ s) = new ++ scan len new 0 s := by
  obtain ⟨a, x, rfl⟩ := List.exists_cons_of_ne_nil hne
  rw [List.cons_append] at h ⊢
  rw [scan, h, List.length_cons]
  show new ++ scan len new (x.length + 1 - 1) (x ++ s) = new ++ scan len new 0 s
  rw [Nat.add_sub_cancel, scan_left, List.drop_left]

end

/-- `str.replace` -/
def replaceAll [DecidableEq α] (old new : List α) : List α → List α :=
  scan (fun s => if old <+: s then some old.length else none) new 0

/-! ## Where a list occurs -/

/-- `p` occurs in `s` at a position. -/
def At (p s : List α) (i : Nat) : Prop := p <+: s.drop i

/-- An occurrence of `q` does not begin inside of one of `p`. -/
def Apart (p q : List α) : Prop := ∀ i < p.length, 0 < i → ¬ p.drop i <+: q ∧ ¬ q <+: p.drop i

instance [DecidableEq α] (p q : List α) : Decidable (Apart p q) :=
  decidable_of_iff
    (∀ i < p.length, 0 < i → (p.drop i).isPrefixOf q = false ∧ q.isPrefixOf (p.drop i) = false)
    (by simp only [Apart, ← Bool.not_eq_true, List.isPrefixOf_iff_prefix])

/-- Whether `p` occurs in a list. -/
def occurs [DecidableEq α] (p : List α) : List α → Bool
  | [] => p.isEmpty
  | a :: s => p.isPrefixOf (a :: s) || occurs p s

theorem occurs_iff [DecidableEq α] {p s : List α} : occurs p s = true ↔ p <:+: s := by
  induction s with
  | nil => rw [occurs, List.isEmpty_iff, List.infix_nil]
  | cons a s ih => rw [occurs, Bool.or_eq_true, ih, List.isPrefixOf_iff_prefix, List.infix_cons_iff]

section
variable {p q s x y z : List α} {i j : Nat}

theorem at_append (p x y : List α) : At p (x ++ (p ++ y)) x.length := by
  rw [At, List.drop_left]
  exact List.prefix_append ..

theorem At.split (h : At p s i) (hp : p ≠ []) : ∃ x y, s = x ++ (p ++ y) ∧ x.length = i := by
  obtain ⟨y, hy⟩ := h
  have hlt : i < s.length := by
    by_contra hge
    rw [List.drop_eq_nil_of_le (Nat.le_of_not_lt hge)] at hy
    exact hp (List.append_eq_nil_iff.mp hy).1
  exact ⟨s.take i, y, by rw [hy, List.take_append_drop], List.length_take_of_le hlt.le⟩

theorem At.isInfix (h : At p s i) : p <:+: s := (List.IsPrefix.isInfix h).trans (List.drop_suffix i s).isInfix

/-- An occurrence that ends within the first part is one in it. -/
theorem At.of_append_left (h : At p (x ++ y) i) (hle : i + p.length ≤ x.length) : At p x i := by
  rw [At, List.drop_append_of_le_length (by omega)] at h
  exact List.prefix_of_prefix_length_le h (List.prefix_append ..) (by rw [List.length_drop]; omega)

theorem At.of_append_right (h : At p (x ++ y) i) (hle : x.length ≤ i) : At p y (i - x.length) := by
  rwa [At, List.drop_append, List.drop_eq_nil_of_le hle, List.nil_append] at h

/-- An occurrence between two parts is one in what is between them. -/
theorem At.of_middle {t : List α} (h : At q (x ++ (p ++ (y ++ t))) i) (hle : x.length + p.length ≤ i)
    (hend : i + q.length ≤ x.length + p.length + y.length) : q <:+: y := by
  have hright := (h.of_append_right (by omega)).of_append_right (by omega)
  exact (hright.of_append_left (by omega)).isInfix

theorem infix_at (h : p <:+: s) : ∃ i, At p s i := by
  obtain ⟨x, y, rfl⟩ := h
  exact ⟨x.length, by rw [List.append_assoc]; exact at_append ..⟩

theorem Apart.le (h : Apart p q) (hp : At p s i) (hq : At q s j) (hlt : i < j) : i + p.length ≤ j := by
  by_contra hinside
  have hdrop : p.drop (j - i) <+: s.drop j := by
    have hj : s.drop j = (s.drop i).drop (j - i) := by rw [List.drop_drop, Nat.add_sub_cancel' hlt.le]
    rw [hj]
    exact hp.drop (j - i)
  obtain ⟨hpq, hqp⟩ := h (j - i) (by omega) (by omega)
  exact (List.prefix_or_prefix_of_prefix hdrop hq).elim hpq hqp

/-- A list without a separator is not across it. -/
theorem infix_append_sep {c : α} (h : p <:+: x ++ (c :: y)) (hc : c ∉ p) : p <:+: x ∨ p <:+: y := by
  obtain ⟨i, hi⟩ := infix_at h
  rcases Nat.lt_or_ge x.length i with hafter | hle
  · have hright : At p (c :: y) (i - x.length) := hi.of_append_right hafter.le
    obtain ⟨k, hk⟩ : ∃ k, i - x.length = k + 1 := ⟨i - x.length - 1, by omega⟩
    rw [hk, At, List.drop_succ_cons] at hright
    exact .inr (At.isInfix hright)
  · by_cases hend : i + p.length ≤ x.length
    · exact .inl (hi.of_append_left hend).isInfix
    · rw [At, List.drop_append_of_le_length hle] at hi
      refine absurd ?_ hc
      have hpre : x.drop i ++ [c] <+: p := by
        have hfull : x.drop i ++ [c] <+: x.drop i ++ (c :: y) := ⟨y, by simp⟩
        refine List.prefix_of_prefix_length_le hfull hi ?_
        rw [List.length_append, List.length_drop, List.length_singleton]
        omega
      exact hpre.subset (by simp)

theorem infix_lines {β : Type} {f : β → List α} {c : α} (hc : c ∉ p) (hp : p ≠ []) :
    ∀ {lines : List β}, p <:+: lines.flatMap (fun l => f l ++ [c]) → ∃ l ∈ lines, p <:+: f l
  | [], h => absurd (List.infix_nil.mp h) hp
  | l :: lines, h => by
    rw [List.flatMap_cons, List.append_assoc, List.singleton_append] at h
    rcases infix_append_sep h hc with hl | hlines
    · exact ⟨l, by simp, hl⟩
    · obtain ⟨l', hmem, hl'⟩ := infix_lines hc hp hlines
      exact ⟨l', by simp [hmem], hl'⟩

theorem replaceAll_of_not_infix [DecidableEq α] {new : List α} (h : ¬ p <:+: s) : replaceAll p new s = s := by
  have hscan : replaceAll p new (s ++ []) = s ++ replaceAll p new [] := by
    refine scan_append fun y z hs _ => ?_
    rw [List.append_nil, if_neg]
    exact fun hpre => h (hs ▸ hpre.isInfix.trans (List.suffix_append y z).isInfix)
  rwa [List.append_nil, replaceAll, scan, List.append_nil] at hscan

/-- The first occurrence of a list. -/
theorem exists_first (h : p <:+: s) (hp : p ≠ []) : ∃ x y, s = x ++ (p ++ y) ∧ ¬ p <:+: x := by
  classical
  have hex := infix_at h
  obtain ⟨x, y, hs, hlen⟩ := (Nat.find_spec hex).split hp
  refine ⟨x, y, hs, fun hx => ?_⟩
  obtain ⟨i, hi⟩ := infix_at hx
  obtain ⟨u, v, hu, hui⟩ := hi.split hp
  have hearlier : At p s i := by
    rw [hs, hu, ← hui, List.append_assoc, List.append_assoc]
    exact at_append ..
  have hmin := Nat.find_min' hex hearlier
  have hpos := List.length_pos_iff.mpr hp
  have hxlen : x.length = u.length + (p.length + v.length) := by rw [hu, List.length_append, List.length_append]
  omega

/-- The last occurrence of a list. -/
theorem exists_last (h : p <:+: s) (hp : p ≠ []) : ∃ x y, s = x ++ (p ++ y) ∧ ¬ p <:+: y := by
  obtain ⟨x, y, hs, hx⟩ := exists_first (List.reverse_infix.mpr h) (List.reverse_ne_nil_iff.mpr hp)
  refine ⟨y.reverse, x.reverse, ?_, fun hin => hx ?_⟩
  · rw [← List.reverse_reverse s, hs]
    simp only [List.reverse_append, List.reverse_reverse, List.append_assoc]
  · rw [← List.reverse_reverse x]
    exact List.reverse_infix.mpr hin

end

/-! ## Blocks -/

/-- An opening and a closing marker that do not overlap. -/
structure Pair (α : Type) where
  opening : List α
  closing : List α
  opening_ne : opening ≠ []
  closing_ne : closing ≠ []
  opening_opening : Apart opening opening
  opening_closing : Apart opening closing
  closing_opening : Apart closing opening
  closing_closing : Apart closing closing
  distinct : ¬ opening <+: closing ∧ ¬ closing <+: opening

namespace Pair

/-- An opening marker is followed by a closing one. -/
def HasBlock (m : Pair α) (s : List α) : Prop := ∃ x y z, s = x ++ (m.opening ++ (y ++ (m.closing ++ z)))

/-- Text between an opening marker and a closing one, and no markers in it. -/
def IsBlock (m : Pair α) (b : List α) : Prop :=
  ∃ y, b = m.opening ++ (y ++ m.closing) ∧ ¬ m.opening <:+: y ∧ ¬ m.closing <:+: y

/-- How many blocks a text has, and what is left without them. -/
inductive Without (m : Pair α) : Nat → List α → List α → Prop
  | none {s} : ¬ m.HasBlock s → m.Without 0 s s
  | cons {x b s n rest} : ¬ m.HasBlock x → m.IsBlock b → m.Without n s rest → m.Without (n + 1) (x ++ (b ++ s)) (x ++ rest)

/-- The length of a match of the opening marker, then as little as there can
be, then the closing marker. -/
def lazyMatch [DecidableEq α] (m : Pair α) (s : List α) : Option Nat :=
  if m.opening <+: s then
    (List.dropInfix? (s.drop m.opening.length) m.closing).map fun r => m.opening.length + (r.1.length + m.closing.length)
  else none

/-- `re.search` -/
def search [DecidableEq α] (m : Pair α) (s : List α) : Bool := s.tails.any fun t => (m.lazyMatch t).isSome

/-- `re.sub` -/
def replaceBlocks [DecidableEq α] (m : Pair α) (new : List α) : List α → List α := scan m.lazyMatch new 0

section
variable {m : Pair α} {s x y z : List α} {i j : Nat}

/-- No two markers begin at one place. -/
theorem ne_at (ho : At m.opening s i) (hc : At m.closing s j) : i ≠ j := by
  rintro rfl
  exact (List.prefix_or_prefix_of_prefix ho hc).elim m.distinct.1 m.distinct.2

theorem hasBlock_iff_at : m.HasBlock s ↔ ∃ i j, At m.opening s i ∧ At m.closing s j ∧ i < j := by
  constructor
  · rintro ⟨x, y, z, rfl⟩
    have hclose := at_append m.closing (x ++ (m.opening ++ y)) z
    have hpos := List.length_pos_iff.mpr m.opening_ne
    simp only [List.append_assoc] at hclose
    refine ⟨x.length, _, at_append .., hclose, ?_⟩
    rw [List.length_append, List.length_append]
    omega
  · rintro ⟨i, j, ho, hc, hlt⟩
    have hle := m.opening_closing.le ho hc hlt
    obtain ⟨x, t, rfl, rfl⟩ := ho.split m.opening_ne
    have hc := (hc.of_append_right (by omega)).of_append_right (by omega)
    obtain ⟨y, z, rfl, _⟩ := hc.split m.closing_ne
    exact ⟨x, y, z, rfl⟩

/-- The first opening marker, and the first closing one after it. -/
theorem exists_match (h : m.HasBlock s) : ∃ x y z, s = x ++ (m.opening ++ (y ++ (m.closing ++ z))) ∧
    ¬ m.opening <:+: x ∧ ¬ m.closing <:+: y := by
  obtain ⟨i, j, ho, hc, hlt⟩ := hasBlock_iff_at.mp h
  obtain ⟨x, t, rfl, hx⟩ := exists_first ho.isInfix m.opening_ne
  have hfirst : x.length ≤ i := by
    by_contra hbefore
    have hle := m.opening_opening.le ho (at_append ..) (Nat.lt_of_not_le hbefore)
    exact hx (ho.of_append_left hle).isInfix
  have hle := m.opening_closing.le (at_append ..) hc (lt_of_le_of_lt hfirst hlt)
  have hrest := (hc.of_append_right (by omega)).of_append_right (by omega)
  obtain ⟨y, z, rfl, hy⟩ := exists_first hrest.isInfix m.closing_ne
  exact ⟨x, y, z, rfl, hx, hy⟩

theorem not_hasBlock_of_opening (h : ¬ m.opening <:+: s) : ¬ m.HasBlock s := by
  rintro ⟨x, y, z, rfl⟩
  exact h (at_append ..).isInfix

/-- A closing marker is not across an opening one. -/
theorem not_closing_across (hx : ¬ m.closing <:+: x) (hy : ¬ m.closing <:+: y) : ¬ m.closing <:+: x ++ (m.opening ++ y) := by
  intro h
  obtain ⟨i, hi⟩ := infix_at h
  have ho := at_append m.opening x y
  rcases Nat.lt_trichotomy i x.length with hbefore | heq | hafter
  · exact hx (hi.of_append_left (m.closing_opening.le hi ho hbefore)).isInfix
  · exact ne_at ho hi heq.symm
  · have hle := m.opening_closing.le ho hi hafter
    exact hy ((hi.of_append_right (by omega)).of_append_right (by omega)).isInfix

/-- Where nothing closes the first opening marker there is no block. -/
theorem not_hasBlock_of_first (hx : ¬ m.opening <:+: x) (hy : ¬ m.closing <:+: y) :
    ¬ m.HasBlock (x ++ (m.opening ++ y)) := by
  intro h
  obtain ⟨i, j, ho, hc, hlt⟩ := hasBlock_iff_at.mp h
  have hfirst := at_append m.opening x y
  have hle : x.length ≤ i := by
    by_contra hbefore
    exact hx (ho.of_append_left (m.opening_opening.le ho hfirst (Nat.lt_of_not_le hbefore))).isInfix
  have hend := m.opening_closing.le hfirst hc (lt_of_le_of_lt hle hlt)
  exact hy ((hc.of_append_right (by omega)).of_append_right (by omega)).isInfix

theorem IsBlock.hasBlock {b : List α} (h : m.IsBlock b) (x z : List α) : m.HasBlock (x ++ (b ++ z)) := by
  obtain ⟨y, rfl, _, _⟩ := h
  exact ⟨x, y, z, by simp only [List.append_assoc]⟩

/-! ## The first block -/

/-- Two blocks without a block before them: the first does not end first. -/
theorem not_closing_lt {x' y' z' : List α} (hx' : ¬ m.HasBlock x') (hy' : ¬ m.closing <:+: y')
    (h : x ++ (m.opening ++ (y ++ (m.closing ++ z))) = x' ++ (m.opening ++ (y' ++ (m.closing ++ z')))) :
    ¬ x.length + (m.opening.length + y.length) < x'.length + (m.opening.length + y'.length) := by
  intro hlt
  have ho : At m.opening (x' ++ (m.opening ++ (y' ++ (m.closing ++ z')))) x.length := h ▸ at_append ..
  have hc : At m.closing (x' ++ (m.opening ++ (y' ++ (m.closing ++ z')))) (x.length + (m.opening.length + y.length)) := by
    have hclose := at_append m.closing (x ++ (m.opening ++ y)) z
    simp only [List.append_assoc, List.length_append] at hclose
    exact h ▸ hclose
  have ho' : At m.opening (x' ++ (m.opening ++ (y' ++ (m.closing ++ z')))) x'.length := at_append ..
  have hc' : At m.closing (x' ++ (m.opening ++ (y' ++ (m.closing ++ z')))) (x'.length + (m.opening.length + y'.length)) := by
    have hclose := at_append m.closing (x' ++ (m.opening ++ y')) z'
    simpa only [List.append_assoc, List.length_append] using hclose
  have hpos := List.length_pos_iff.mpr m.opening_ne
  rcases Nat.lt_trichotomy (x.length + (m.opening.length + y.length)) x'.length with hbefore | heq | hafter
  · -- The first block is before the second.
    have hend := m.closing_opening.le hc ho' hbefore
    refine hx' (hasBlock_iff_at.mpr ⟨_, _, ho.of_append_left ?_, hc.of_append_left hend, by omega⟩)
    omega
  · exact ne_at ho' hc heq.symm
  · -- It ends within the second.
    have hbegin := m.opening_closing.le ho' hc hafter
    have hend := m.closing_closing.le hc hc' hlt
    exact hy' (hc.of_middle hbegin (by omega))

theorem not_opening_lt {x' y' z' : List α} (hy : ¬ m.opening <:+: y)
    (h : x ++ (m.opening ++ (y ++ (m.closing ++ z))) = x' ++ (m.opening ++ (y' ++ (m.closing ++ z'))))
    (hend : x.length + (m.opening.length + y.length) = x'.length + (m.opening.length + y'.length)) :
    ¬ x.length < x'.length := by
  intro hlt
  have ho : At m.opening (x ++ (m.opening ++ (y ++ (m.closing ++ z)))) x.length := at_append ..
  have ho' : At m.opening (x ++ (m.opening ++ (y ++ (m.closing ++ z)))) x'.length := h ▸ at_append ..
  have hle := m.opening_opening.le ho ho' hlt
  exact hy (ho'.of_middle hle (by omega))

/-- A text has one first block. -/
theorem first_unique {b b' z' x' : List α} (hx : ¬ m.HasBlock x) (hx' : ¬ m.HasBlock x') (hb : m.IsBlock b) (hb' : m.IsBlock b')
    (h : x ++ (b ++ z) = x' ++ (b' ++ z')) : x = x' ∧ b = b' ∧ z = z' := by
  obtain ⟨y, rfl, hyo, hyc⟩ := hb
  obtain ⟨y', rfl, hyo', hyc'⟩ := hb'
  have hsame : x ++ (m.opening ++ (y ++ (m.closing ++ z))) = x' ++ (m.opening ++ (y' ++ (m.closing ++ z'))) := by
    simpa only [List.append_assoc] using h
  have hend : x.length + (m.opening.length + y.length) = x'.length + (m.opening.length + y'.length) := by
    have hle := not_closing_lt hx' hyc' hsame
    have hge := not_closing_lt hx hyc hsame.symm
    omega
  have hlen : x.length = x'.length := by
    have hle := not_opening_lt hyo hsame hend
    have hge := not_opening_lt hyo' hsame.symm hend.symm
    omega
  obtain ⟨rfl, hrest⟩ := List.append_inj h hlen
  have hblen : (m.opening ++ (y ++ m.closing)).length = (m.opening ++ (y' ++ m.closing)).length := by
    simp only [List.length_append]
    omega
  obtain ⟨hbb, rfl⟩ := List.append_inj hrest hblen
  exact ⟨rfl, hbb, rfl⟩

theorem Without.of_not_hasBlock {n : Nat} {rest : List α} (h : m.Without n s rest) (hs : ¬ m.HasBlock s) :
    n = 0 ∧ rest = s := by
  cases h with
  | none => exact ⟨rfl, rfl⟩
  | cons _ hb _ => exact absurd (hb.hasBlock ..) hs

/-- What is left without the first block. -/
theorem Without.of_first {n : Nat} {b rest : List α} (h : m.Without n (x ++ (b ++ z)) rest) (hx : ¬ m.HasBlock x)
    (hb : m.IsBlock b) : ∃ k r, n = k + 1 ∧ rest = x ++ r ∧ m.Without k z r := by
  generalize hs : x ++ (b ++ z) = s at h
  cases h with
  | none hnone => exact absurd (hs ▸ hb.hasBlock x z) hnone
  | cons hx' hb' hrest =>
    obtain ⟨rfl, rfl, rfl⟩ := first_unique hx hx' hb hb' hs
    exact ⟨_, _, rfl, rfl, hrest⟩

/-! ## What a search replaces -/

section
variable [DecidableEq α] {new : List α}

theorem lazyMatch_eq_none (h : ¬ ∃ y z, s = m.opening ++ (y ++ (m.closing ++ z))) : m.lazyMatch s = none := by
  unfold lazyMatch
  split
  · next hopen =>
    obtain ⟨t, rfl⟩ := hopen
    rw [List.drop_left, Option.map_eq_none_iff]
    cases hfound : List.dropInfix? t m.closing with
    | none => rfl
    | some r =>
      obtain ⟨⟨c, ht, hc⟩, _⟩ := List.dropInfix?_eq_some_iff.mp hfound
      rw [beq_iff_eq] at hc
      rw [ht, hc, List.append_assoc] at h
      exact absurd ⟨_, _, rfl⟩ h
  · rfl

/-- The match goes to the first closing marker. -/
theorem lazyMatch_eq (hy : ¬ m.closing <:+: y) (z : List α) :
    m.lazyMatch (m.opening ++ (y ++ (m.closing ++ z))) = some (m.opening ++ (y ++ m.closing)).length := by
  have hfirst : ∀ i, At m.closing (y ++ (m.closing ++ z)) i → y.length ≤ i := by
    intro i hi
    by_contra hlt
    have hle := m.closing_closing.le hi (at_append ..) (Nat.lt_of_not_le hlt)
    exact hy (hi.of_append_left hle).isInfix
  have hfound : List.dropInfix? (y ++ (m.closing ++ z)) m.closing = some (y, z) := by
    refine List.dropInfix?_eq_some_iff.mpr ⟨⟨m.closing, by rw [List.append_assoc], beq_self_eq_true _⟩, ?_⟩
    intro u c v hsplit hc
    rw [beq_iff_eq] at hc
    rw [hc, List.append_assoc] at hsplit
    exact hfirst _ (hsplit ▸ at_append ..)
  rw [lazyMatch, if_pos (List.prefix_append ..), List.drop_left, hfound, Option.map_some, List.length_append, List.length_append]

theorem search_iff : m.search s = true ↔ m.HasBlock s := by
  rw [search, List.any_eq_true]
  constructor
  · rintro ⟨t, ht, hmatch⟩
    obtain ⟨x, rfl⟩ := (List.mem_tails _ _).mp ht
    by_contra hnone
    rw [lazyMatch_eq_none] at hmatch
    · cases hmatch
    · rintro ⟨y, z, rfl⟩
      exact hnone ⟨x, y, z, rfl⟩
  · rintro ⟨x, y, z, rfl⟩
    refine ⟨m.opening ++ (y ++ (m.closing ++ z)), (List.mem_tails _ _).mpr (List.suffix_append ..), ?_⟩
    obtain ⟨u, v, huv, hu⟩ := exists_first (s := y ++ (m.closing ++ z)) (at_append m.closing y z).isInfix m.closing_ne
    rw [huv, lazyMatch_eq hu]
    rfl

theorem replaceBlocks_of_not (h : ¬ m.HasBlock s) : m.replaceBlocks new s = s := by
  have hscan : m.replaceBlocks new (s ++ []) = s ++ m.replaceBlocks new [] := by
    refine scan_append fun y z hs _ => ?_
    rw [List.append_nil]
    refine lazyMatch_eq_none ?_
    rintro ⟨u, v, rfl⟩
    exact h ⟨y, u, v, hs⟩
  rwa [List.append_nil, replaceBlocks, scan, List.append_nil] at hscan

/-- Everything from the first opening marker to the first closing marker after
it is replaced. -/
theorem replaceBlocks_eq (hx : ¬ m.opening <:+: x) (hy : ¬ m.closing <:+: y) (z : List α) :
    m.replaceBlocks new (x ++ (m.opening ++ (y ++ (m.closing ++ z)))) = x ++ (new ++ m.replaceBlocks new z) := by
  have hbefore : ∀ u v, x = u ++ v → v ≠ [] → m.lazyMatch (v ++ (m.opening ++ (y ++ (m.closing ++ z)))) = none := by
    intro u v hsplit hv
    refine lazyMatch_eq_none ?_
    rintro ⟨y', z', heq⟩
    have hpos := List.length_pos_iff.mpr hv
    have ho : At m.opening (v ++ (m.opening ++ (y ++ (m.closing ++ z)))) 0 := by
      rw [heq]
      exact at_append m.opening [] _
    have hle := m.opening_opening.le ho (at_append ..) hpos
    refine hx ?_
    rw [hsplit]
    exact (ho.of_append_left hle).isInfix.trans (List.suffix_append ..).isInfix
  have hne : m.opening ++ (y ++ m.closing) ≠ [] := fun h => m.opening_ne (List.append_eq_nil_iff.mp h).1
  have hmatch : scan m.lazyMatch new 0 ((m.opening ++ (y ++ m.closing)) ++ z) = new ++ scan m.lazyMatch new 0 z := by
    refine scan_match hne ?_
    simp only [List.append_assoc]
    rw [lazyMatch_eq hy]
  rw [replaceBlocks, scan_append hbefore]
  simp only [List.append_assoc] at hmatch
  rw [hmatch]

/-- A text with a block has one after the replacement. -/
theorem hasBlock_replaceBlocks (hnew : m.IsBlock new) (h : m.HasBlock s) : m.HasBlock (m.replaceBlocks new s) := by
  obtain ⟨x, y, z, rfl, hx, hy⟩ := exists_match h
  rw [replaceBlocks_eq hx hy]
  exact hnew.hasBlock ..

end

end

end Pair

end Markers
