/-
Runs of a system that takes one labelled step after another.

A step is a partial function of the state and the label; a run may restrict
its steps by a condition on the two. `Runs.invariant` is the induction every
whole-run property is proved by, and `Runs.simulate` carries a run over to a
system that answers each step by steps of its own.
-/
import Mathlib.Order.Basic

/-- `as` leads from one state to another, each step meeting `ok` where it is taken. -/
inductive Runs {σ α : Type} (step : σ → α → Option σ) (ok : σ → α → Prop) : σ → List α → σ → Prop
  | nil (s) : Runs step ok s [] s
  | cons {s a t as u} : ok s a → step s a = some t → Runs step ok t as u → Runs step ok s (a :: as) u

namespace Runs

variable {σ τ α β : Type} {step : σ → α → Option σ} {ok : σ → α → Prop}

/-- Where a list of labels leads, if each step passes a test and can be taken. -/
def exec (step : σ → α → Option σ) (test : σ → α → Bool) : σ → List α → Option σ
  | s, [] => some s
  | s, a :: as => if test s a then (step s a).bind fun t => exec step test t as else none

/-- What `exec` reaches is reached by a run, where the labels that occur pass the test. -/
theorem of_exec_mem {test : σ → α → Bool} : ∀ {as : List α} {s t : σ}, (∀ a ∈ as, ∀ s, test s a = true → ok s a) →
    exec step test s as = some t → Runs step ok s as t
  | [], s, t, _, h => by cases h; exact .nil s
  | a :: as, s, t, htest, h => by
    simp only [exec] at h
    split at h
    · next hok =>
      obtain ⟨u, hu, h⟩ := Option.bind_eq_some_iff.mp h
      exact .cons (htest a (.head _) s hok) hu (of_exec_mem (fun b hb => htest b (.tail _ hb)) h)
    · cases h

theorem of_exec {test : σ → α → Bool} (htest : ∀ s a, test s a = true → ok s a) {as : List α} {s t : σ}
    (h : exec step test s as = some t) : Runs step ok s as t :=
  of_exec_mem (fun a _ s => htest s a) h

theorem append {s t u : σ} {as bs : List α} (h : Runs step ok s as t) (h' : Runs step ok t bs u) :
    Runs step ok s (as ++ bs) u := by
  induction h with
  | nil => exact h'
  | cons hok hstep _ ih => exact .cons hok hstep (ih h')

theorem mono {ok' : σ → α → Prop} {s t : σ} {as : List α} (hok : ∀ s a, ok s a → ok' s a)
    (h : Runs step ok s as t) : Runs step ok' s as t := by
  induction h with
  | nil s => exact .nil s
  | cons h hstep _ ih => exact .cons (hok _ _ h) hstep ih

/-- A condition that all labels of a run meet may be taken into the run. -/
theorem restrict {p : α → Prop} {s t : σ} {as : List α} (h : Runs step ok s as t) (hp : ∀ a ∈ as, p a) :
    Runs step (fun s a => ok s a ∧ p a) s as t := by
  induction h with
  | nil s => exact .nil s
  | cons hok hstep _ ih =>
    exact .cons ⟨hok, hp _ (.head _)⟩ hstep (ih fun a ha => hp a (.tail _ ha))

/-- What holds at the start and is kept by every step holds wherever a run leads. -/
theorem invariant {I : σ → Prop} (hstep : ∀ s a t, I s → ok s a → step s a = some t → I t) {s t : σ} {as : List α}
    (h : Runs step ok s as t) (hs : I s) : I t := by
  induction h with
  | nil => exact hs
  | cons hok hst _ ih => exact ih (hstep _ _ _ hs hok hst)

/-- A condition that steps meet where an invariant holds, they meet in every run from there. -/
theorem mono_of_invariant {I : σ → Prop} {ok' : σ → α → Prop} {s t : σ} {as : List α} (h : Runs step ok s as t)
    (hstep : ∀ s a t, I s → ok s a → step s a = some t → I t) (hok : ∀ s a, I s → ok s a → ok' s a) (hs : I s) :
    Runs step ok' s as t := by
  induction h with
  | nil s => exact .nil s
  | cons h hst _ ih => exact .cons (hok _ _ hs h) hst (ih (hstep _ _ _ hs h hst))

/-- A system that answers each step by steps of its own, to a related state,
answers a run by a run. -/
theorem simulate {step' : τ → β → Option τ} {ok' : τ → β → Prop} {R : σ → τ → Prop}
    (hsim : ∀ s a t s', R s s' → ok s a → step s a = some t → ∃ bs t', Runs step' ok' s' bs t' ∧ R t t')
    {s t : σ} {s' : τ} {as : List α} (h : Runs step ok s as t) (hR : R s s') :
    ∃ bs t', Runs step' ok' s' bs t' ∧ R t t' := by
  induction h generalizing s' with
  | nil => exact ⟨[], s', .nil s', hR⟩
  | cons hok hst _ ih =>
    obtain ⟨bs, t', hrun, hR'⟩ := hsim _ _ _ _ hR hok hst
    obtain ⟨cs, u', hrun', hR''⟩ := ih hR'
    exact ⟨bs ++ cs, u', hrun.append hrun', hR''⟩

end Runs
