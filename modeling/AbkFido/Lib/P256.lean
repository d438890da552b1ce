/-
The elliptic curve P-256: its field, its base point and the order of the
base point, and what a signature of ECDSA on it is. The size of the field and
the order are prime, by a chain of Lucas's tests.
-/
import AbkFido.Lib.Pratt
import Mathlib.AlgebraicGeometry.EllipticCurve.Affine.Point
import Mathlib.Tactic.NormNum.Prime

namespace P256

/-- The size of the field. -/
def p : ℕ := 0xffffffff00000001000000000000000000000000ffffffffffffffffffffffff

/-- The order of the base point. -/
def n : ℕ := 0xffffffff00000000ffffffffffffffffbce6faada7179e84f3b9cac2fc632551

def smallPrimes : List ℕ :=
  [2, 3, 5, 7, 11, 17, 23, 29, 41, 43, 53, 71, 107, 127, 131, 173, 197, 257, 311, 373, 641, 1297, 1531, 2411, 3023, 3407,
    3677, 3769, 16879, 17449, 18169, 38189, 65537, 78283, 126241, 155317, 490463, 704251, 3969899, 6700417, 9350987]

def tests : List Pratt.Test :=
  [⟨187019741, 2, [2, 2, 5, 9350987]⟩,
    ⟨311245691, 2, [2, 5, 7, 17, 29, 29, 311]⟩,
    ⟨622491383, 5, [2, 311245691]⟩,
    ⟨1002328039319, 19, [2, 126241, 3969899]⟩,
    ⟨191039911, 3, [2, 3, 5, 41, 155317]⟩,
    ⟨208150935158385979, 2, [2, 3, 11, 43, 127, 3023, 191039911]⟩,
    ⟨2624747550333869278416773953, 7, [2, 2, 2, 2, 2, 2, 3, 3, 1297, 16879, 208150935158385979]⟩,
    ⟨n, 7, [2, 2, 2, 2, 3, 71, 131, 373, 3407, 17449, 38189, 187019741, 622491383, 1002328039319,
      2624747550333869278416773953]⟩,
    ⟨204061199, 11, [2, 11, 23, 107, 3769]⟩,
    ⟨34282281433, 17, [2, 2, 2, 3, 7, 204061199]⟩,
    ⟨66417393611, 6, [2, 5, 53, 173, 197, 3677]⟩,
    ⟨11290956913871, 13, [2, 5, 17, 66417393611]⟩,
    ⟨46076956964474543, 5, [2, 23, 18169, 78283, 704251]⟩,
    ⟨774023187263532362759620327192479577272145303, 3,
      [2, 3, 3, 2411, 34282281433, 11290956913871, 46076956964474543]⟩,
    ⟨835945042244614951780389953367877943453916927241, 11,
      [2, 2, 2, 3, 3, 3, 5, 774023187263532362759620327192479577272145303]⟩,
    ⟨p, 6, [2, 3, 5, 5, 17, 257, 641, 1531, 65537, 490463, 6700417, 835945042244614951780389953367877943453916927241]⟩]

theorem prime_smallPrimes : ∀ f ∈ smallPrimes, f.Prime := by norm_num [smallPrimes]

theorem prime_tests : ∀ q ∈ tests.map Pratt.Test.q, q.Prime :=
  Pratt.prime_of_chain prime_smallPrimes (by decide +kernel)

instance prime_p : Fact p.Prime := ⟨prime_tests p (by decide +kernel)⟩

instance prime_n : Fact n.Prime := ⟨prime_tests n (by decide +kernel)⟩

/-- y² = x³ - 3x + b -/
def curve : WeierstrassCurve.Affine (ZMod p) where
  a₁ := 0
  a₂ := 0
  a₃ := 0
  a₄ := -3
  a₆ := 0x5ac635d8aa3a93e7b3ebbd55769886bc651d06b0cc53b0f63bce3c3e27d2604b

def baseX : ZMod p := 0x6b17d1f2e12c4247f8bce6e563a440f277037d812deb33a0f4a13945d898c296

def baseY : ZMod p := 0x4fe342e2fe1a7f9b8ee7eb4a7c0f9e162bce33576b315ececbb6406837bf51f5

theorem nonsingular_base : curve.Nonsingular baseX baseY := by
  rw [WeierstrassCurve.Affine.nonsingular_iff, WeierstrassCurve.Affine.equation_iff]
  refine ⟨?_, .inr ?_⟩
  · decide +kernel
  · decide +kernel

/-- The base point. -/
def base : curve.Point := .some baseX baseY nonsingular_base

/-- `r` and `s` are what the key `d` signs the number `z` with, by the nonce `k`. -/
structure Signs (d z k r s : ℕ) : Prop where
  r_mem : r ∈ Set.Ico 1 n
  s_mem : s ∈ Set.Ico 1 n
  point : ∃ x y h, k • base = .some x y h ∧ r = x.val % n
  eq : s * k ≡ z + r * d [MOD n]

end P256
