/-
Primality by Lucas's test: a number is prime if some other has an order
modulo it of one less.

The test is a computation once the primes that divide one less are known.
Those too large for trial division are tested in turn, so a proof is a list
of tests, each of which relies on those before it (`prime_of_chain`).
-/
import Mathlib.NumberTheory.LucasPrimality

namespace Pratt

/-- `a ^ e % q` by squaring, for an exponent of so many bits. -/
def powMod (q a : ℕ) : ℕ → ℕ → ℕ
  | 0, _ => 1 % q
  | bits + 1, e => powMod q a bits (e / 2) ^ 2 % q * a ^ (e % 2) % q

theorem powMod_eq (q a : ℕ) {bits e : ℕ} (h : e < 2 ^ bits) : powMod q a bits e = a ^ e % q := by
  induction bits generalizing e with
  | zero =>
    rw [Nat.lt_one_iff.mp h]
    rfl
  | succ bits ih =>
    rw [Nat.pow_succ] at h
    have hpow : a ^ e = (a ^ (e / 2)) ^ 2 * a ^ (e % 2) := by
      rw [← Nat.pow_mul, ← Nat.pow_add, Nat.div_add_mod']
    rw [powMod, ih (by omega), ← Nat.pow_mod, Nat.mod_mul_mod, hpow]

/-- A number to be tested, one whose order is to be looked at, and the factors
of one less. -/
structure Test where
  q : ℕ
  a : ℕ
  factors : List ℕ

/-- The order is one less if the factors are prime. -/
def Test.Passes (t : Test) : Prop :=
  1 < t.q ∧ t.factors.prod + 1 = t.q ∧ powMod t.q t.a (t.q.log2 + 1) (t.q - 1) = 1 ∧
    ∀ f ∈ t.factors, powMod t.q t.a (t.q.log2 + 1) ((t.q - 1) / f) ≠ 1

instance (t : Test) : Decidable t.Passes := inferInstanceAs (Decidable (_ ∧ _ ∧ _ ∧ _))

/-- Every test passes, and its factors are known or tested before it. -/
def Chain (known : List ℕ) : List Test → Prop
  | [] => True
  | t :: ts => (t.Passes ∧ ∀ f ∈ t.factors, f ∈ known) ∧ Chain (t.q :: known) ts

instance instDecidableChain (known : List ℕ) : (ts : List Test) → Decidable (Chain known ts)
  | [] => inferInstanceAs (Decidable True)
  | t :: ts =>
    have := instDecidableChain (t.q :: known) ts
    inferInstanceAs (Decidable (_ ∧ _))

theorem Test.Passes.prime {t : Test} (h : t.Passes) (hfactors : ∀ f ∈ t.factors, f.Prime) : t.q.Prime := by
  obtain ⟨hq, hprod, hone, hne⟩ := h
  have hpow : ∀ e ≤ t.q, powMod t.q t.a (t.q.log2 + 1) e = 1 ↔ (t.a : ZMod t.q) ^ e = 1 := by
    intro e he
    have hcast := ZMod.natCast_eq_natCast_iff' (t.a ^ e) 1 t.q
    rw [Nat.mod_eq_of_lt hq, Nat.cast_pow, Nat.cast_one] at hcast
    rw [powMod_eq t.q t.a (Nat.lt_of_le_of_lt he Nat.lt_log2_self), hcast]
  refine lucas_primality t.q t.a ((hpow _ (Nat.sub_le t.q 1)).mp hone) fun f hf hdvd => ?_
  rw [← hprod, Nat.add_sub_cancel] at hdvd
  obtain ⟨f', hf', hdvd⟩ := hf.prime.dvd_prod_iff.mp hdvd
  rw [(Nat.prime_dvd_prime_iff_eq hf (hfactors f' hf')).mp hdvd]
  exact fun h => hne f' hf' ((hpow _ ((Nat.div_le_self _ _).trans (Nat.sub_le t.q 1))).mpr h)

theorem prime_of_chain {known : List ℕ} {ts : List Test} (hknown : ∀ f ∈ known, f.Prime) (h : Chain known ts) :
    ∀ q ∈ ts.map Test.q, q.Prime := by
  induction ts generalizing known with
  | nil => exact List.forall_mem_nil _
  | cons t ts ih =>
    obtain ⟨⟨hpasses, hfactors⟩, hrest⟩ := h
    have hprime := hpasses.prime fun f hf => hknown f (hfactors f hf)
    exact List.forall_mem_cons.mpr ⟨hprime, ih (List.forall_mem_cons.mpr ⟨hprime, hknown⟩) hrest⟩

end Pratt
