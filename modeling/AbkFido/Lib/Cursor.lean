/-
Programs that read a buffer from a position on, and what they make of an
encoding.

`C.Decodes pre m bytes a`: once `pre` is read, `m` reads `bytes` as `a`, and
nothing after them; and where the buffer ends inside `bytes`, `m` refuses.
Both halves compose together, so an encoding that is built from parts is
decoded, and each of its strict prefixes refused, by following the program
once. A part whose decoding does not depend on what was read before it is
`C.Reads`. A program that refuses whatever begins with `bytes` `C.Fails`.
-/
import AbkFido.Lib.Prog
import Mathlib.Data.List.Infix

/-- Where a state keeps its buffer and how far it has read, how long a
buffer gets, and which errors refuse one. -/
structure Cursor (ε σ β : Type) where
  buf : σ → List β
  pos : σ → Nat
  limit : Nat
  Refuses : ε → Prop

namespace Cursor

variable {ε σ β : Type}

/-- `pre` has been read and `rest` has not. -/
structure At (C : Cursor ε σ β) (s : σ) (pre rest : List β) : Prop where
  buf : C.buf s = pre ++ rest
  pos : C.pos s = pre.length

variable {α γ ι : Type} (C : Cursor ε σ β)

/-- The run of `m` refuses. -/
def Stops (m : Prog ε σ α) (s : σ) : Prop := ∃ e t, m s = (.error e, t) ∧ C.Refuses e

/-- With `pre` read, `m` reads `bytes` as `a` and refuses a strict prefix of them. -/
def Decodes (pre : List β) (m : Prog ε σ α) (bytes : List β) (a : α) : Prop :=
  (pre ++ bytes).length < C.limit →
    (∀ s rest, C.At s pre (bytes ++ rest) → ∃ t, m s = (.ok a, t) ∧ C.At t (pre ++ bytes) rest) ∧
    ∀ s short, C.At s pre short → short <+: bytes → short ≠ bytes → C.Stops m s

/-- Whatever was read before, `m` reads `bytes` as `a`. -/
def Reads (m : Prog ε σ α) (bytes : List β) (a : α) : Prop := ∀ pre, C.Decodes pre m bytes a

/-- Whatever was read before, `m` refuses what begins with `bytes`. -/
def Fails (m : Prog ε σ α) (bytes : List β) : Prop :=
  ∀ pre, (pre ++ bytes).length < C.limit → ∀ s rest, C.At s pre (bytes ++ rest) → C.Stops m s

variable {C}

theorem Stops.bind {m : Prog ε σ α} {s : σ} (h : C.Stops m s) (f : α → Prog ε σ γ) : C.Stops (m >>= f) s := by
  obtain ⟨e, t, hrun, he⟩ := h
  exact ⟨e, t, Prog.bind_error hrun, he⟩

theorem Decodes.pure (pre : List β) (a : α) : C.Decodes pre (pure a) [] a := by
  intro _
  refine ⟨fun s rest hat => ⟨s, rfl, ?_⟩, fun s short _ hpre hne => ?_⟩
  · rw [List.append_nil]
    exact hat
  · exact absurd (List.prefix_nil.mp hpre) hne

/-- A strict prefix of a concatenation ends in the first part, or after it in the second. -/
theorem prefix_append_cases {short xs ys : List β} (hpre : short <+: xs ++ ys) (hne : short ≠ xs ++ ys) :
    short <+: xs ∧ short ≠ xs ∨ ∃ short', short = xs ++ short' ∧ short' <+: ys ∧ short' ≠ ys := by
  by_cases heq : short = xs
  · exact .inr ⟨[], by rw [heq, List.append_nil], List.nil_prefix, fun h => hne (by rw [heq, ← h, List.append_nil])⟩
  · rcases List.prefix_or_prefix_of_prefix hpre (List.prefix_append xs ys) with h | ⟨short', rfl⟩
    · exact .inl ⟨h, heq⟩
    · exact .inr ⟨short', rfl, (List.prefix_append_right_inj xs).mp hpre, fun h => hne (by rw [h])⟩

theorem Decodes.bind {pre : List β} {m : Prog ε σ α} {f : α → Prog ε σ γ} {xs ys : List β} {a : α} {c : γ}
    (hm : C.Decodes pre m xs a) (hf : C.Decodes (pre ++ xs) (f a) ys c) : C.Decodes pre (m >>= f) (xs ++ ys) c := by
  intro hlim
  rw [← List.append_assoc] at hlim
  have hlim' : (pre ++ xs).length < C.limit := by
    rw [List.length_append] at hlim
    omega
  obtain ⟨hacc, hrej⟩ := hm hlim'
  obtain ⟨hacc', hrej'⟩ := hf hlim
  refine ⟨fun s rest hat => ?_, fun s short hat hpre hne => ?_⟩
  · rw [List.append_assoc] at hat
    obtain ⟨t, hrun, hat'⟩ := hacc s _ hat
    obtain ⟨u, hrun', hat''⟩ := hacc' t rest hat'
    rw [← List.append_assoc]
    exact ⟨u, (Prog.bind_ok hrun).trans hrun', hat''⟩
  · rcases prefix_append_cases hpre hne with ⟨hpre', hne'⟩ | ⟨short', rfl, hpre', hne'⟩
    · exact (hrej s short hat hpre' hne').bind f
    · obtain ⟨t, hrun, hat'⟩ := hacc s short' hat
      obtain ⟨e, u, hrun', he⟩ := hrej' t short' hat' hpre' hne'
      exact ⟨e, u, (Prog.bind_ok hrun).trans hrun', he⟩

theorem Decodes.bind_pure {pre : List β} {m : Prog ε σ α} {f : α → γ} {xs : List β} {a : α}
    (hm : C.Decodes pre m xs a) : C.Decodes pre (m >>= fun x => Pure.pure (f x)) xs (f a) := by
  have h := hm.bind (f := fun x => Pure.pure (f x)) (.pure (pre ++ xs) (f a))
  rwa [List.append_nil] at h

/-- A program that looks at the state only sees one that has read `pre`. -/
theorem Decodes.get_bind {pre bytes : List β} {f : σ → Prog ε σ γ} {c : γ}
    (h : ∀ s rest, C.At s pre rest → C.Decodes pre (f s) bytes c) : C.Decodes pre (Prog.get >>= f) bytes c := by
  intro hlim
  refine ⟨fun s rest hat => ?_, fun s short hat hpre hne => ?_⟩
  · exact (h s _ hat hlim).1 s rest hat
  · exact (h s _ hat hlim).2 s short hat hpre hne

/-- A program that looks at the next element as well refuses when there is none. -/
theorem Decodes.peek_bind {pre bytes : List β} {x : β} {f : σ → Prog ε σ γ} {c : γ}
    (hnil : ∀ s, C.At s pre [] → C.Stops (f s) s)
    (h : ∀ s rest, C.At s pre (x :: rest) → C.Decodes pre (f s) (x :: bytes) c) :
    C.Decodes pre (Prog.get >>= f) (x :: bytes) c := by
  intro hlim
  refine ⟨fun s rest hat => ?_, fun s short hat hpre hne => ?_⟩
  · exact (h s _ hat hlim).1 s rest hat
  · cases short with
    | nil => exact hnil s hat
    | cons y short' =>
      obtain rfl : y = x := (List.cons_prefix_cons.mp hpre).1
      exact (h s _ hat hlim).2 s _ hat hpre hne

namespace Reads

variable {m : Prog ε σ α} {xs ys : List β} {a : α} {c : γ}

theorem pure (a : α) : C.Reads (pure a) [] a := fun pre => .pure pre a

theorem bind {f : α → Prog ε σ γ} (hm : C.Reads m xs a) (hf : C.Reads (f a) ys c) : C.Reads (m >>= f) (xs ++ ys) c :=
  fun pre => (hm pre).bind (hf _)

theorem bind_pure {f : α → γ} (hm : C.Reads m xs a) : C.Reads (m >>= fun x => Pure.pure (f x)) xs (f a) :=
  fun pre => (hm pre).bind_pure

/-- What comes after may read nothing. -/
theorem bind_nil {f : α → Prog ε σ γ} (hm : C.Reads m xs a) (hf : C.Reads (f a) [] c) : C.Reads (m >>= f) xs c := by
  rw [← List.append_nil xs]
  exact hm.bind hf

/-- What comes first may be read as one part, however much comes after it. -/
theorem assoc {δ : Type} {f : α → Prog ε σ γ} {g : γ → Prog ε σ δ} {d : δ} (h : C.Reads (m >>= f >>= g) xs d) :
    C.Reads (m >>= fun a => f a >>= g) xs d := by
  rwa [Prog.bind_assoc] at h

/-- A loop that goes round once for each of a list's items, its state being a
function of the items read. -/
theorem loop {p : γ → Bool} {f : γ → Prog ε σ γ} {enc : ι → List β} {S : List ι → γ} (items : List ι)
    (hstep : ∀ done i rest, items = done ++ i :: rest →
      p (S done) = true ∧ C.Reads (f (S done)) (enc i) (S (done ++ [i]))) :
    C.Reads (Prog.loop p f items.length (S [])) (items.flatMap enc) (S items) := by
  suffices h : ∀ rest done, items = done ++ rest →
      C.Reads (Prog.loop p f rest.length (S done)) (rest.flatMap enc) (S items) from h items [] rfl
  intro rest
  induction rest with
  | nil =>
    intro done hitems
    rw [List.append_nil] at hitems
    rw [hitems]
    exact .pure _
  | cons i rest ih =>
    intro done hitems
    obtain ⟨hcond, hbody⟩ := hstep done i rest hitems
    rw [List.length_cons, Prog.loop, if_pos hcond, List.flatMap_cons]
    exact hbody.bind (ih _ (by rw [hitems, List.append_assoc, List.singleton_append]))

theorem bind_fails {f : α → Prog ε σ γ} (hm : C.Reads m xs a) (hf : C.Fails (f a) ys) : C.Fails (m >>= f) (xs ++ ys) := by
  intro pre hlim s rest hat
  rw [← List.append_assoc] at hlim
  rw [List.append_assoc] at hat
  obtain ⟨t, hrun, hat'⟩ := (hm pre (by rw [List.length_append] at hlim; omega)).1 s _ hat
  obtain ⟨e, u, hrun', he⟩ := hf (pre ++ xs) hlim t rest hat'
  exact ⟨e, u, (Prog.bind_ok hrun).trans hrun', he⟩

/-- From the start of a buffer that holds no more than the encoding. -/
theorem run (h : C.Reads m xs a) (hlim : xs.length < C.limit) {s : σ} (hat : C.At s [] xs) :
    (m s).1 = .ok a := by
  obtain ⟨t, hrun, _⟩ := (h [] hlim).1 s [] (by rwa [List.append_nil])
  rw [hrun]

theorem run_short (h : C.Reads m xs a) (hlim : xs.length < C.limit) {s : σ} {short : List β} (hat : C.At s [] short)
    (hpre : short <+: xs) (hne : short ≠ xs) : ∃ e, (m s).1 = .error e ∧ C.Refuses e := by
  obtain ⟨e, t, hrun, he⟩ := (h [] hlim).2 s short hat hpre hne
  exact ⟨e, by rw [hrun], he⟩

end Reads

namespace Fails

variable {m : Prog ε σ α} {xs : List β}

theorem bind (h : C.Fails m xs) (f : α → Prog ε σ γ) : C.Fails (m >>= f) xs :=
  fun pre hlim s rest hat => (h pre hlim s rest hat).bind f

theorem append (h : C.Fails m xs) (ys : List β) : C.Fails m (xs ++ ys) := by
  intro pre hlim s rest hat
  rw [List.append_assoc] at hat
  rw [← List.append_assoc, List.length_append] at hlim
  exact h pre (by omega) s _ hat

theorem assoc {δ : Type} {f : α → Prog ε σ γ} {g : γ → Prog ε σ δ} (h : C.Fails (m >>= f >>= g) xs) :
    C.Fails (m >>= fun a => f a >>= g) xs := by
  rwa [Prog.bind_assoc] at h

/-- A loop over items fails where its body fails on one of them, having read those before it. -/
theorem loop {p : γ → Bool} {f : γ → Prog ε σ γ} {e : ι → List β} {S : List ι → γ} {i : ι} {l : List ι} :
    ∀ before done : List ι,
      (∀ seen j after, before = seen ++ j :: after →
        p (S (done ++ seen)) = true ∧ C.Reads (f (S (done ++ seen))) (e j) (S (done ++ seen ++ [j]))) →
      p (S (done ++ before)) = true → C.Fails (f (S (done ++ before))) (e i) →
      C.Fails (Prog.loop p f (before ++ i :: l).length (S done)) ((before ++ i :: l).flatMap e)
  | [], done, _, hcond, hfail => by
    rw [List.append_nil] at hcond hfail
    rw [List.nil_append, List.length_cons, Prog.loop, if_pos hcond, List.flatMap_cons]
    exact (hfail.bind _).append _
  | j :: before, done, hstep, hcond, hfail => by
    obtain ⟨hcond', hread⟩ := hstep [] j before rfl
    rw [List.append_nil] at hcond' hread
    have ih := loop (e := e) (S := S) (i := i) (l := l) before (done ++ [j]) (fun seen j' after hsplit => by
      have := hstep (j :: seen) j' after (by rw [hsplit]; rfl)
      simpa using this) (by simpa using hcond) (by simpa using hfail)
    rw [List.cons_append, List.length_cons, Prog.loop, if_pos hcond', List.flatMap_cons]
    exact hread.bind_fails ih

theorem run (h : C.Fails m xs) (hlim : xs.length < C.limit) {s : σ} (hat : C.At s [] xs) :
    ∃ e, (m s).1 = .error e ∧ C.Refuses e := by
  obtain ⟨e, t, hrun, he⟩ := h [] hlim s [] (by rwa [List.append_nil])
  exact ⟨e, by rw [hrun], he⟩

end Fails

end Cursor
