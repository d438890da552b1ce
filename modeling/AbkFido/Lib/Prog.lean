/-
Programs that work on a state and may stop with an error, and the rules for
showing what every run of one does to the state.

A `Motion` is a preorder on states with a clause for errors that may be
stated from any earlier state; `Motion.Keeps m` says every run of `m` moves
its state along the order and stops only with an error of the clause. It is
closed under sequencing and bounded loops, so it is shown of a program by
following its syntax. `Prog.Gives` says of what kind every result is, in the
same way. A `Metered` motion counts besides: what a program may use up is the
sum of what its parts may (`Metered.Keeps`).
-/
import Mathlib.Order.Basic

/-- A program: it ends with a result or an error, and in some state. -/
def Prog (ε σ α : Type) := σ → Except ε α × σ

namespace Prog

variable {ε σ α β : Type}

protected def pure (a : α) : Prog ε σ α := fun s => (.ok a, s)

protected def bind (m : Prog ε σ α) (f : α → Prog ε σ β) : Prog ε σ β := fun s =>
  match m s with
  | (.ok a, t) => f a t
  | (.error e, t) => (.error e, t)

instance : Monad (Prog ε σ) where
  pure := Prog.pure
  bind := Prog.bind

def throw (e : ε) : Prog ε σ α := fun s => (.error e, s)

def get : Prog ε σ σ := fun s => (.ok s, s)

def modify (f : σ → σ) : Prog ε σ Unit := fun s => (.ok (), f s)

/-- `for (i = 0; i < n && cond(a); i++) a = body(a);` -/
def loop (cond : α → Bool) (body : α → Prog ε σ α) : Nat → α → Prog ε σ α
  | 0, a => pure a
  | n + 1, a => if cond a then do loop cond body n (← body a) else pure a

theorem pure_apply (a : α) (s : σ) : (pure a : Prog ε σ α) s = (.ok a, s) := rfl

theorem bind_apply (m : Prog ε σ α) (f : α → Prog ε σ β) (s : σ) :
    (m >>= f) s = match m s with
      | (.ok a, t) => f a t
      | (.error e, t) => (.error e, t) := rfl

theorem bind_ok {m : Prog ε σ α} {f : α → Prog ε σ β} {s t : σ} {a : α} (h : m s = (.ok a, t)) :
    (m >>= f) s = f a t := by
  rw [bind_apply, h]

theorem bind_error {m : Prog ε σ α} {f : α → Prog ε σ β} {s t : σ} {e : ε} (h : m s = (.error e, t)) :
    (m >>= f) s = (.error e, t) := by
  rw [bind_apply, h]

theorem bind_assoc {γ : Type} (m : Prog ε σ α) (f : α → Prog ε σ β) (g : β → Prog ε σ γ) :
    m >>= f >>= g = m >>= fun a => f a >>= g := by
  funext s
  simp only [bind_apply]
  rcases m s with ⟨e | a, t⟩ <;> rfl

end Prog

namespace Prog

variable {ε σ α β : Type} {Q : α → Prop} {R : β → Prop}

/-- Whenever the program ends with a result, it is one of `Q`. -/
def Gives (Q : α → Prop) (m : Prog ε σ α) : Prop := ∀ s a, (m s).1 = .ok a → Q a

theorem Gives.pure {a : α} (h : Q a) : Gives Q (pure a : Prog ε σ α) := fun s b hb => by
  cases hb
  exact h

theorem Gives.throw (e : ε) : Gives Q (Prog.throw e : Prog ε σ α) := fun s a ha => by cases ha

theorem Gives.bind {m : Prog ε σ α} {f : α → Prog ε σ β} (hm : Gives Q m) (hf : ∀ a, Q a → Gives R (f a)) :
    Gives R (m >>= f) := by
  intro s b hb
  rw [bind_apply] at hb
  cases hms : m s with
  | mk r t =>
    rw [hms] at hb
    cases r with
    | error e => cases hb
    | ok a => exact hf a (hm s a (by rw [hms])) t b hb

theorem Gives.trivial (m : Prog ε σ α) : Gives (fun _ => True) m := fun _ _ _ => True.intro

/-- A program whose result does not matter, before one whose result does. -/
theorem Gives.after (m : Prog ε σ α) {f : α → Prog ε σ β} (hf : ∀ a, Gives R (f a)) : Gives R (m >>= f) :=
  (Gives.trivial m).bind fun a _ => hf a

theorem Gives.ite {c : Prop} [Decidable c] {m m' : Prog ε σ α} (hm : c → Gives Q m) (hm' : ¬ c → Gives Q m') :
    Gives Q (if c then m else m') := by
  split
  · next h => exact hm h
  · next h => exact hm' h

theorem Gives.loop {cond : α → Bool} {body : α → Prog ε σ α} (hbody : ∀ a, Q a → Gives Q (body a)) :
    ∀ n a, Q a → Gives Q (Prog.loop cond body n a)
  | 0, _, ha => Gives.pure ha
  | n + 1, a, ha => Gives.ite (fun _ => (hbody a ha).bind fun a' ha' => Gives.loop hbody n a' ha') fun _ => Gives.pure ha

end Prog

/-- A preorder on states and a clause for errors, which from a later state
carries over to an earlier one. -/
structure Motion (ε σ : Type) where
  Rel : σ → σ → Prop
  Err : σ → ε → σ → Prop
  refl : ∀ s, Rel s s
  trans : ∀ {s t u}, Rel s t → Rel t u → Rel s u
  err_trans : ∀ {s t u e}, Rel s t → Err t e u → Err s e u

namespace Motion

variable {ε σ α β : Type} (M : Motion ε σ)

/-- The run of `m` from `s` is a move, and stops only with an error of the clause. -/
def KeepsAt (m : Prog ε σ α) (s : σ) : Prop :=
  M.Rel s (m s).2 ∧ ∀ e, (m s).1 = .error e → M.Err s e (m s).2

/-- So is every run of `m`. -/
def Keeps (m : Prog ε σ α) : Prop := ∀ s, M.KeepsAt m s

variable {M}

theorem KeepsAt.modify {f : σ → σ} {s : σ} (h : M.Rel s (f s)) : M.KeepsAt (Prog.modify f : Prog ε σ Unit) s :=
  ⟨h, fun e he => by cases he⟩

theorem KeepsAt.bind {m : Prog ε σ α} {f : α → Prog ε σ β} {s : σ} (hm : M.KeepsAt m s) (hf : ∀ a, M.Keeps (f a)) :
    M.KeepsAt (m >>= f) s := by
  obtain ⟨hrel, herr⟩ := hm
  rw [KeepsAt, Prog.bind_apply]
  cases hms : m s with
  | mk r t =>
    rw [hms] at hrel herr
    cases r with
    | error e => exact ⟨hrel, fun e' he => by cases he; exact herr e rfl⟩
    | ok a =>
      obtain ⟨hrel', herr'⟩ := hf a t
      exact ⟨M.trans hrel hrel', fun e he => M.err_trans hrel (herr' e he)⟩

theorem Keeps.pure (a : α) : M.Keeps (pure a : Prog ε σ α) := fun s =>
  ⟨M.refl s, fun e h => by cases h⟩

theorem Keeps.throw {e : ε} (h : ∀ s, M.Err s e s) : M.Keeps (Prog.throw e : Prog ε σ α) := fun s =>
  ⟨M.refl s, fun e' he => by cases he; exact h s⟩

theorem Keeps.bind {m : Prog ε σ α} {f : α → Prog ε σ β} (hm : M.Keeps m) (hf : ∀ a, M.Keeps (f a)) :
    M.Keeps (m >>= f) := fun s => (hm s).bind hf

/-- A program that reads the state need only keep the one it read. -/
theorem Keeps.get_bind {f : σ → Prog ε σ β} (h : ∀ s, M.KeepsAt (f s) s) : M.Keeps (Prog.get >>= f) := h

theorem Keeps.ite {c : Prop} [Decidable c] {m m' : Prog ε σ α} (hm : c → M.Keeps m) (hm' : ¬ c → M.Keeps m') :
    M.Keeps (if c then m else m') := by
  split
  · next h => exact hm h
  · next h => exact hm' h

/-- A loop keeps what its body keeps, however often it goes round. -/
theorem Keeps.loop {cond : α → Bool} {body : α → Prog ε σ α} (hbody : ∀ a, M.Keeps (body a)) :
    ∀ n a, M.Keeps (Prog.loop cond body n a)
  | 0, a => Keeps.pure a
  | n + 1, a => Keeps.ite (fun _ => (hbody a).bind fun a' => Keeps.loop hbody n a') fun _ => Keeps.pure a

end Motion

/-- Moves of a state that use something up, at most `c` of it: where a program
ends with a result, and where it stops with an error. -/
structure Metered (σ : Type) where
  Rel : Nat → σ → σ → Prop
  Stop : Nat → σ → σ → Prop
  refl : ∀ s, Rel 0 s s
  trans : ∀ {c d s t u}, Rel c s t → Rel d t u → Rel (c + d) s u
  stop_trans : ∀ {c d s t u}, Rel c s t → Stop d t u → Stop (c + d) s u
  mono : ∀ {c d s t}, c ≤ d → Rel c s t → Rel d s t
  stop_mono : ∀ {c d s t}, c ≤ d → Stop c s t → Stop d s t

namespace Metered

variable {ε σ α β : Type} (M : Metered σ)

/-- How a program may end that uses up at most `c`. -/
def Ends (c : Nat) (s : σ) : Except ε α × σ → Prop
  | (.ok _, t) => M.Rel c s t
  | (.error _, t) => M.Stop c s t

/-- Every run of `m` uses up at most `c`. -/
def Keeps (c : Nat) (m : Prog ε σ α) : Prop := ∀ s, M.Ends c s (m s)

variable {M} {c d : Nat}

theorem Ends.mono {s : σ} {r : Except ε α × σ} (h : M.Ends c s r) (hle : c ≤ d) : M.Ends d s r := by
  obtain ⟨_ | _, _⟩ := r
  · exact M.stop_mono hle h
  · exact M.mono hle h

theorem Keeps.mono {m : Prog ε σ α} (h : M.Keeps c m) (hle : c ≤ d) : M.Keeps d m := fun s => (h s).mono hle

theorem Keeps.pure (a : α) : M.Keeps 0 (pure a : Prog ε σ α) := fun s => M.refl s

theorem Keeps.throw {e : ε} (h : ∀ s, M.Stop c s s) : M.Keeps c (Prog.throw e : Prog ε σ α) := fun s => h s

theorem Ends.bind {m : Prog ε σ α} {f : α → Prog ε σ β} {s t : σ} (hm : M.Ends c s (m t)) (hf : ∀ a, M.Keeps d (f a)) :
    M.Ends (c + d) s ((m >>= f) t) := by
  rw [Prog.bind_apply]
  rcases hmt : m t with ⟨e | a, u⟩
  · rw [hmt] at hm
    exact M.stop_mono (Nat.le_add_right c d) hm
  · rw [hmt] at hm
    have hu := hf a u
    show M.Ends (c + d) s (f a u)
    rcases hfu : f a u with ⟨e | b, v⟩
    · rw [hfu] at hu
      exact M.stop_trans hm hu
    · rw [hfu] at hu
      exact M.trans hm hu

theorem Keeps.bind {m : Prog ε σ α} {f : α → Prog ε σ β} (hm : M.Keeps c m) (hf : ∀ a, M.Keeps d (f a)) :
    M.Keeps (c + d) (m >>= f) := fun s => (hm s).bind hf

theorem Keeps.get_bind {f : σ → Prog ε σ β} (h : ∀ s, M.Keeps c (f s)) : M.Keeps c (Prog.get >>= f) := fun s => h s s

theorem Keeps.ite {p : Prop} [Decidable p] {m m' : Prog ε σ α} (hm : p → M.Keeps c m) (hm' : ¬ p → M.Keeps c m') :
    M.Keeps c (if p then m else m') := by
  split
  · next h => exact hm h
  · next h => exact hm' h

/-- A loop uses up what its body does, as often as it goes round. -/
theorem Keeps.loop {cond : α → Bool} {body : α → Prog ε σ α} (hbody : ∀ a, M.Keeps c (body a)) :
    ∀ n a, M.Keeps (n * c) (Prog.loop cond body n a)
  | 0, a => (Keeps.pure a).mono (Nat.zero_le _)
  | n + 1, a => by
    refine Keeps.ite (fun _ => ?_) fun _ => (Keeps.pure a).mono (Nat.zero_le _)
    exact ((hbody a).bind fun a' => Keeps.loop hbody n a').mono (Nat.le_of_eq (by rw [Nat.succ_mul, Nat.add_comm]))

end Metered
