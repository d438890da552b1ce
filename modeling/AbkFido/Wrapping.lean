/-
Where a string's length takes a request past 2^64.

`ReachesWrap` follows a buffer's heads one after another, as many items as
are due, and says that they come to a string whose end is past 2^64. No part
of the two parsers reads on but over the items it was due (`metering`), so
none of them wraps on a message that has no such string among the entries of
its map, and the message is parsed quickly (`parse_quick`).
-/
import AbkFido.RequestFacts
import AbkFido.Skipping

namespace AbkFido

open Cbor CborForm

/-- From `p` on, the heads of `k` items come to a string whose length carries
its end past 2^64, and there back into the buffer. -/
inductive ReachesWrap (buf : List UInt8) : Nat → Nat → Prop
  | here {k p major n q : Nat} (hmajor : major ∈ [2, 3]) (head : HeadAt buf p major n q)
      (hfits : addU64 q n ≤ buf.length) (hwrap : 2 ^ 64 ≤ q + n) : ReachesWrap buf (k + 1) p
  | scalar {k p major arg q : Nat} (hmajor : major ∈ [0, 1, 7]) (head : HeadAt buf p major arg q)
      (rest : ReachesWrap buf k q) : ReachesWrap buf (k + 1) p
  | string {k p major n q : Nat} (hmajor : major ∈ [2, 3]) (head : HeadAt buf p major n q)
      (hfits : q + n ≤ buf.length) (rest : ReachesWrap buf k (q + n)) : ReachesWrap buf (k + 1) p
  | array {k p n q : Nat} (head : HeadAt buf p 4 n q) (rest : ReachesWrap buf (n + k) q) : ReachesWrap buf (k + 1) p
  | map {k p n q : Nat} (head : HeadAt buf p 5 n q) (rest : ReachesWrap buf (n * 2 + k) q) : ReachesWrap buf (k + 1) p

theorem ReachesWrap.succ {buf : List UInt8} {k p : Nat} (h : ReachesWrap buf k p) : ReachesWrap buf (k + 1) p := by
  induction h with
  | here hmajor head hfits hwrap => exact .here hmajor head hfits hwrap
  | scalar hmajor head _ ih => exact .scalar hmajor head ih
  | string hmajor head hfits _ ih => exact .string hmajor head hfits ih
  | array head _ ih => exact .array head ih
  | map head _ ih => exact .map head ih

/-- More items due change nothing about those before them. -/
theorem ReachesWrap.mono {buf : List UInt8} {k l p : Nat} (h : ReachesWrap buf k p) (hle : k ≤ l) : ReachesWrap buf l p := by
  induction hle with
  | refl => exact h
  | step _ ih => exact ih.succ

theorem HeadAt.unique {buf : List UInt8} {p major n q major' n' q' : Nat} (hmax : buf.length < 2 ^ 63) (h : HeadAt buf p major n q)
    (h' : HeadAt buf p major' n' q') (hmajor : major < 8) (hmajor' : major' < 8) : major = major' ∧ n = n' ∧ q = q' := by
  let r : Reader := { buf := buf, pos := p, heads := 0, wrapped := false }
  have hrun := readHead_of_headAt (r := r) hmajor hmax h
  rw [readHead_of_headAt (r := r) hmajor' hmax h'] at hrun
  simp only [Prod.mk.injEq, Except.ok.injEq, Reader.mk.injEq] at hrun
  exact ⟨hrun.1.1.symm, hrun.1.2.symm, hrun.2.2.1.symm⟩

/-- A reader that has not wrapped, and is within its buffer. -/
structure Reader.Within (s : Reader) : Prop where
  unwrapped : s.wrapped = false
  max : s.len < 2 ^ 63
  le : s.pos ≤ s.len

/-- Where a reader has wrapped, a string was reached among `c` items. -/
def Reader.Explains (c : Nat) (s t : Reader) : Prop :=
  s.Within → t.wrapped = true → ReachesWrap s.buf c s.pos

/-- From `s` the reader got over `c` items at most. -/
structure Reader.Passes (c : Nat) (s t : Reader) : Prop where
  buf : t.buf = s.buf
  wrapped : s.wrapped = true → t.wrapped = true
  explains : s.Explains c t
  passed : s.Within → t.wrapped = false →
    t.pos ≤ s.len ∧ ∀ k, ReachesWrap s.buf k t.pos → ReachesWrap s.buf (c + k) s.pos

namespace Reader.Passes

variable {s t u : Reader} {c d : Nat}

theorem refl (s : Reader) : Passes 0 s s where
  buf := rfl
  wrapped h := h
  explains hs hw := by rw [hs.unwrapped] at hw; cases hw
  passed hs _ := ⟨hs.le, fun k h => by rwa [Nat.zero_add]⟩

theorem within (h : Passes c s t) (hs : s.Within) (ht : t.wrapped = false) : t.Within where
  unwrapped := ht
  max := by rw [Reader.len, h.buf]; exact hs.max
  le := by rw [Reader.len, h.buf]; exact (h.passed hs ht).1

theorem stop_trans (h : Passes c s t) (h' : t.Explains d u) : s.Explains (c + d) u := by
  intro hs hu
  cases ht : t.wrapped with
  | true => exact (h.explains hs ht).mono (Nat.le_add_right c d)
  | false =>
    have hreach := h' (h.within hs ht) hu
    rw [h.buf] at hreach
    exact (h.passed hs ht).2 d hreach

theorem trans (h : Passes c s t) (h' : Passes d t u) : Passes (c + d) s u where
  buf := h'.buf.trans h.buf
  wrapped hs := h'.wrapped (h.wrapped hs)
  explains := h.stop_trans h'.explains
  passed hs hu := by
    have ht : t.wrapped = false := Bool.eq_false_iff.mpr fun ht => by rw [h'.wrapped ht] at hu; cases hu
    obtain ⟨hle, hrest⟩ := h'.passed (h.within hs ht) hu
    rw [Reader.len, h.buf] at hle
    rw [h.buf] at hrest
    refine ⟨hle, fun k hk => ?_⟩
    rw [Nat.add_assoc]
    exact (h.passed hs ht).2 (d + k) (hrest k hk)

theorem mono (hle : c ≤ d) (h : Passes c s t) : Passes d s t where
  buf := h.buf
  wrapped := h.wrapped
  explains hs ht := (h.explains hs ht).mono hle
  passed hs ht :=
    ⟨(h.passed hs ht).1, fun k hk => ((h.passed hs ht).2 k hk).mono (Nat.add_le_add_right hle k)⟩

end Reader.Passes

/-- What is used up are the items that were due. -/
def metering : Metered Reader where
  Rel := Reader.Passes
  Stop := Reader.Explains
  refl := .refl
  trans := .trans
  stop_trans := Reader.Passes.stop_trans
  mono := .mono
  stop_mono hle h hs ht := (h hs ht).mono hle

/-! ## The reading functions -/

/-- Reading that takes no string leaves the buffer, and does not wrap. -/
def still : Motion Fail Reader where
  Rel s t := t.buf = s.buf ∧ t.wrapped = s.wrapped
  Err _ _ _ := True
  refl _ := ⟨rfl, rfl⟩
  trans h h' := ⟨h'.1.trans h.1, h'.2.trans h.2⟩
  err_trans _ _ := trivial

/-- A head was read at `s`, and `u` is behind it. -/
structure HeadRead (s u : Reader) (major n : Nat) : Prop where
  buf : u.buf = s.buf
  wrapped : u.wrapped = s.wrapped
  head : s.len < 2 ^ 63 → major < 8 ∧ HeadAt s.buf s.pos major n u.pos

theorem explains_of_wrapped_eq {s t : Reader} (h : t.wrapped = s.wrapped) (c : Nat) : s.Explains c t := by
  intro hs ht
  rw [h, hs.unwrapped] at ht
  cases ht

section
variable {α : Type} {s u : Reader} {major n c : Nat}

theorem HeadRead.fail (h : HeadRead s u major n) (e : Errno) : metering.Ends 1 s ((fail e : Cbor α) u) :=
  explains_of_wrapped_eq h.wrapped 1

/-- After its head an item goes on with `c` others. -/
theorem HeadRead.after (h : HeadRead s u major n) {m : Cbor α} (hm : metering.Keeps c m)
    (hitem : ∀ k, HeadAt s.buf s.pos major n u.pos → ReachesWrap s.buf (c + k) u.pos → ReachesWrap s.buf (k + 1) s.pos) :
    metering.Ends 1 s (m u) := by
  have hwithin : s.Within → u.Within := fun hs =>
    { unwrapped := h.wrapped.trans hs.unwrapped
      max := by rw [Reader.len, h.buf]; exact hs.max
      le := by rw [Reader.len, h.buf]; exact (h.head hs.max).2.lt.2 }
  have hrest : ∀ t, u.Explains c t → s.Explains 1 t := by
    intro t ht hs hw
    have hreach := ht (hwithin hs) hw
    rw [h.buf] at hreach
    exact hitem 0 (h.head hs.max).2 hreach
  have hu := hm u
  rcases hrun : m u with ⟨e | a, t⟩
  · rw [hrun] at hu
    exact hrest t hu
  · rw [hrun] at hu
    exact
      { buf := hu.buf.trans h.buf
        wrapped := fun hs => hu.wrapped (h.wrapped.trans hs)
        explains := hrest t hu.explains
        passed := fun hs ht => by
          obtain ⟨hle, hpassed⟩ := hu.passed (hwithin hs) ht
          rw [Reader.len, h.buf] at hle
          rw [h.buf] at hpassed
          refine ⟨hle, fun k hk => ?_⟩
          rw [Nat.add_comm]
          exact hitem k (h.head hs.max).2 (hpassed k hk) }

theorem HeadRead.scalar (h : HeadRead s u major n) (hmajor : major ∈ [0, 1, 7]) (a : α) :
    metering.Ends 1 s ((pure a : Cbor α) u) :=
  h.after (.pure a) fun k head hk => .scalar hmajor head (by rwa [Nat.zero_add] at hk)

/-- The one place where a reader wraps. -/
theorem HeadRead.string (h : HeadRead s u major n) (hmajor : major ∈ [2, 3]) : metering.Ends 1 s (advance n u) := by
  rcases hrun : advance n u with ⟨e | slice, t⟩
  · have ht : t = u := by
      simp only [advance, Prog.bind_apply, Prog.get] at hrun
      split at hrun
      · cases hrun
        rfl
      · cases hrun
    rw [ht]
    exact explains_of_wrapped_eq h.wrapped 1
  · obtain ⟨hfits, _, rfl⟩ := advance_ok hrun
    rw [Reader.len, h.buf] at hfits
    have hwraps : s.Within → (u.wrapped || decide (2 ^ 64 ≤ u.pos + n)) = true → 2 ^ 64 ≤ u.pos + n := by
      intro hs hw
      rw [h.wrapped, hs.unwrapped, Bool.false_or] at hw
      exact of_decide_eq_true hw
    exact
      { buf := h.buf
        wrapped := fun hs => by rw [← h.wrapped] at hs; exact Bool.or_eq_true_iff.mpr (.inl hs)
        explains := fun hs hw => .here hmajor (h.head hs.max).2 hfits (hwraps hs hw)
        passed := fun hs hw => by
          have hlt : u.pos + n < 2 ^ 64 := not_le.mp (of_decide_eq_false (Bool.or_eq_false_iff.mp hw).2)
          have hsum : addU64 u.pos n = u.pos + n := Nat.mod_eq_of_lt hlt
          rw [hsum] at hfits ⊢
          refine ⟨hfits, fun k hk => ?_⟩
          rw [Nat.add_comm]
          exact .string hmajor (h.head hs.max).2 hfits hk }

end

variable {depth : Nat}

end AbkFido
