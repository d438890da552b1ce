/-
The order of the base point of P-256, and what a verifier of signatures
checks: a signature that `Signs` is accepted (`Signs.accepts`).

A multiple of a point is computed in Jacobian coordinates, so without a
division: (X, Y, Z) stands for the point (X/Z², Y/Z³). Where Z is not 0 at the
end it was not 0 on the way, and no case of the group law was missed.
-/
import AbkFido.Lib.P256
import Mathlib.Tactic.FieldSimp
import Mathlib.Tactic.LinearCombination

open WeierstrassCurve

structure JacobianPoint (F : Type) where
  x : F
  y : F
  z : F

namespace JacobianPoint

variable {F : Type} [Field F]

/-- Twice a point of a curve y² = x³ + ax + b. -/
def double (a : F) (t : JacobianPoint F) : JacobianPoint F :=
  let m := 2 * (t.x * t.x) + t.x * t.x + a * (t.z * t.z * (t.z * t.z))
  let s := 4 * t.x * (t.y * t.y)
  let x := m * m - 2 * s
  ⟨x, m * (s - x) - 8 * (t.y * t.y * (t.y * t.y)), 2 * t.y * t.z⟩

/-- The point (x, y) added. -/
def add (x y : F) (t : JacobianPoint F) : JacobianPoint F :=
  let h := x * (t.z * t.z) - t.x
  let r := y * (t.z * t.z * t.z) - t.y
  let x' := r * r - h * h * h - 2 * t.x * (h * h)
  ⟨x', r * (t.x * (h * h) - x') - t.y * (h * h * h), h * t.z⟩

/-- A multiple of the point (x, y), by a number with so many bits after its first. -/
def mult (a x y : F) : ℕ → ℕ → JacobianPoint F
  | 0, _ => ⟨x, y, 1⟩
  | bits + 1, e =>
    let t := double a (mult a x y bits (e / 2))
    if e % 2 = 1 then add x y t else t

variable [DecidableEq F] {W : Affine F} {a x y : F} {t : JacobianPoint F} {P : W.Point}

def Represents (t : JacobianPoint F) (P : W.Point) : Prop := t.z ≠ 0 → ∃ h, P = .some (t.x / t.z ^ 2) (t.y / t.z ^ 3) h

/-- The coefficients of a curve y² = x³ + ax + b. -/
structure Short (W : Affine F) (a : F) : Prop where
  a₁ : W.a₁ = 0
  a₂ : W.a₂ = 0
  a₃ : W.a₃ = 0
  a₄ : W.a₄ = a

omit [DecidableEq F] in
theorem some_eq {x y x' y' : F} {h : W.Nonsingular x y} (hx : x = x') (hy : y = y') :
    ∃ h', Affine.Point.some x y h = .some x' y' h' := by
  subst hx hy
  exact ⟨h, rfl⟩

theorem Represents.double (hW : Short W a) (h : t.Represents P) : (t.double a).Represents (P + P) := by
  intro hz
  obtain ⟨h2y, htz⟩ := mul_ne_zero_iff.mp (show 2 * t.y * t.z ≠ 0 from hz)
  obtain ⟨h2, hy⟩ := mul_ne_zero_iff.mp h2y
  obtain ⟨hns, rfl⟩ := h htz
  have hz' : (t.double a).z = 2 * t.y * t.z := rfl
  -- The point and the slope of its tangent over the new denominator.
  have hX : t.x / t.z ^ 2 = 4 * t.x * t.y ^ 2 / (t.double a).z ^ 2 := by
    rw [div_eq_div_iff (pow_ne_zero 2 htz) (pow_ne_zero 2 hz), hz']
    ring
  have hY : t.y / t.z ^ 3 = 8 * t.y ^ 4 / (t.double a).z ^ 3 := by
    rw [div_eq_div_iff (pow_ne_zero 3 htz) (pow_ne_zero 3 hz), hz']
    ring
  have hsum : t.y / t.z ^ 3 + t.y / t.z ^ 3 ≠ 0 := by
    rw [← two_mul]
    exact mul_ne_zero h2 (div_ne_zero hy (pow_ne_zero 3 htz))
  have hnegY : W.negY (t.x / t.z ^ 2) (t.y / t.z ^ 3) = -(t.y / t.z ^ 3) := by
    rw [Affine.negY, hW.a₁, hW.a₃]
    ring
  have hne : t.y / t.z ^ 3 ≠ W.negY (t.x / t.z ^ 2) (t.y / t.z ^ 3) := by
    rw [hnegY]
    exact fun heq => hsum (eq_neg_iff_add_eq_zero.mp heq)
  have hslope : W.slope (t.x / t.z ^ 2) (t.x / t.z ^ 2) (t.y / t.z ^ 3) (t.y / t.z ^ 3) =
      (3 * t.x ^ 2 + a * t.z ^ 4) / (t.double a).z := by
    rw [Affine.slope_of_Y_ne rfl hne, hnegY, sub_neg_eq_add, div_eq_div_iff hsum hz, hW.a₁, hW.a₂, hW.a₄, hz']
    field_simp
    ring
  rw [Affine.Point.add_self_of_Y_ne hne]
  have hx' : (t.double a).x = (3 * t.x ^ 2 + a * t.z ^ 4) ^ 2 - 2 * (4 * t.x * t.y ^ 2) := by
    rw [JacobianPoint.double]
    ring
  have hy' : (t.double a).y =
      (3 * t.x ^ 2 + a * t.z ^ 4) * (4 * t.x * t.y ^ 2 - (t.double a).x) - 8 * t.y ^ 4 := by
    rw [JacobianPoint.double]
    ring
  refine some_eq ?_ ?_
  · rw [Affine.addX, hslope, hW.a₁, hW.a₂, hX, hx']
    field_simp
    ring
  · rw [Affine.addY, Affine.negAddY, Affine.addX, Affine.negY, hslope, hW.a₁, hW.a₂, hW.a₃, hX, hY, hy', hx']
    field_simp
    ring

theorem Represents.add (hW : Short W a) (hxy : W.Nonsingular x y) (h : t.Represents P) :
    (t.add x y).Represents (P + .some x y hxy) := by
  intro hz
  obtain ⟨hh, htz⟩ := mul_ne_zero_iff.mp (show (x * (t.z * t.z) - t.x) * t.z ≠ 0 from hz)
  obtain ⟨hns, rfl⟩ := h htz
  obtain ⟨d, hd⟩ : ∃ d, d = x * (t.z * t.z) - t.x := ⟨_, rfl⟩
  rw [← hd] at hh
  have hz' : (t.add x y).z = d * t.z := by rw [hd, JacobianPoint.add]
  have hX : t.x / t.z ^ 2 = t.x * d ^ 2 / (t.add x y).z ^ 2 := by
    rw [div_eq_div_iff (pow_ne_zero 2 htz) (pow_ne_zero 2 hz), hz']
    ring
  have hY : t.y / t.z ^ 3 = t.y * d ^ 3 / (t.add x y).z ^ 3 := by
    rw [div_eq_div_iff (pow_ne_zero 3 htz) (pow_ne_zero 3 hz), hz']
    ring
  have hx : x * (t.add x y).z ^ 2 = t.x * d ^ 2 + d ^ 3 := by
    rw [hz']
    linear_combination -d ^ 2 * hd
  have hdiff : t.x / t.z ^ 2 - x = -d / t.z ^ 2 := by
    rw [hd]
    field_simp
    ring
  have hne : t.x / t.z ^ 2 ≠ x := by
    rw [← sub_ne_zero, hdiff]
    exact div_ne_zero (neg_ne_zero.mpr hh) (pow_ne_zero 2 htz)
  have hslope : W.slope (t.x / t.z ^ 2) x (t.y / t.z ^ 3) y = (y * (t.z * t.z * t.z) - t.y) / (t.add x y).z := by
    rw [Affine.slope_of_X_ne hne, hdiff, div_eq_div_iff (div_ne_zero (neg_ne_zero.mpr hh) (pow_ne_zero 2 htz)) hz, hz']
    field_simp
    ring
  have hx' : (t.add x y).x = (y * (t.z * t.z * t.z) - t.y) ^ 2 - d ^ 3 - 2 * t.x * d ^ 2 := by
    rw [hd, JacobianPoint.add]
    ring
  have hy' : (t.add x y).y =
      (y * (t.z * t.z * t.z) - t.y) * (t.x * d ^ 2 - (t.add x y).x) - t.y * d ^ 3 := by
    rw [hd, JacobianPoint.add]
    ring
  rw [Affine.Point.add_of_X_ne hne]
  have hsumX : W.addX (t.x / t.z ^ 2) x (W.slope (t.x / t.z ^ 2) x (t.y / t.z ^ 3) y) =
      (t.add x y).x / (t.add x y).z ^ 2 := by
    rw [Affine.addX, hslope, hW.a₁, hW.a₂, hX, hx']
    field_simp
    linear_combination -hx
  refine some_eq hsumX ?_
  rw [Affine.addY, Affine.negAddY, hsumX, Affine.negY, hslope, hW.a₁, hW.a₃, hX, hY, hy']
  field_simp
  ring

theorem mult_represents (hW : Short W a) (h : W.Nonsingular x y) (bits : ℕ) {e : ℕ} (he : 2 ^ bits ≤ e) (he' : e < 2 ^ (bits + 1)) :
    (mult a x y bits e).Represents (e • (.some x y h : W.Point)) := by
  induction bits generalizing e with
  | zero =>
    have hone : e = 1 := by omega
    subst hone
    intro _
    rw [one_smul, mult]
    exact some_eq (by simp) (by simp)
  | succ bits ih =>
    have hhalf := (ih (e := e / 2) (by omega) (by omega)).double hW
    rw [← two_smul ℕ (_ : W.Point), smul_smul] at hhalf
    rw [mult]
    split
    · next hodd =>
      have hsum := hhalf.add hW h
      have heq : 2 * (e / 2) + 1 = e := by omega
      rw [← succ_nsmul, heq] at hsum
      exact hsum
    · next heven =>
      have heq : 2 * (e / 2) = e := by omega
      rwa [heq] at hhalf

end JacobianPoint

namespace P256

theorem short : JacobianPoint.Short curve (-3) := ⟨rfl, rfl, rfl, rfl⟩

/-- One less than the order gives the opposite of the base point. -/
theorem mult_pred : (JacobianPoint.mult (-3) baseX baseY 255 (n - 1)).z ≠ 0 ∧
    let t := JacobianPoint.mult (-3) baseX baseY 255 (n - 1)
    t.x = baseX * t.z ^ 2 ∧ t.y = -baseY * t.z ^ 3 := by
  decide +kernel

theorem n_smul_base : n • base = 0 := by
  obtain ⟨hz, hx, hy⟩ := mult_pred
  obtain ⟨hns, heq⟩ := JacobianPoint.mult_represents short nonsingular_base 255 (e := n - 1) (by decide) (by decide) hz
  obtain ⟨hns', hopposite⟩ : ∃ h, (n - 1) • base = .some baseX (-baseY) h := by
    rw [base, heq]
    exact JacobianPoint.some_eq (by rw [hx, mul_div_cancel_right₀ _ (pow_ne_zero 2 hz)])
      (by rw [hy, mul_div_cancel_right₀ _ (pow_ne_zero 3 hz)])
  have hn : n = n - 1 + 1 := by decide
  rw [hn, succ_nsmul, hopposite, base]
  exact Affine.Point.add_of_Y_eq rfl (by rw [Affine.negY, short.a₁, short.a₃]; ring)

theorem smul_base_congr {a b : ℕ} (h : (a : ZMod n) = b) : a • base = b • base := by
  have hmod : ∀ c : ℕ, c • base = (c % n) • base := by
    intro c
    conv_lhs => rw [← Nat.div_add_mod c n, add_smul, mul_nsmul, n_smul_base, nsmul_zero, zero_add]
  rw [hmod a, hmod b, (ZMod.natCast_eq_natCast_iff' a b n).mp h]

/-- What a verifier checks of a pair, with the public key `Q` and the number `z` of the hash. -/
structure Accepts (Q : curve.Point) (z r s : ℕ) : Prop where
  r_mem : r ∈ Set.Ico 1 n
  s_mem : s ∈ Set.Ico 1 n
  point : ∃ x y h, (z / s : ZMod n).val • base + (r / s : ZMod n).val • Q = .some x y h ∧ r = x.val % n

theorem Signs.accepts {d z k r s : ℕ} (h : Signs d z k r s) : Accepts (d • base) z r s where
  r_mem := h.r_mem
  s_mem := h.s_mem
  point := by
    obtain ⟨x, y, hns, hk, hr⟩ := h.point
    have hs : (s : ZMod n) ≠ 0 := by
      rw [Ne, ZMod.natCast_eq_zero_iff]
      exact fun hdvd => absurd (Nat.le_of_dvd h.s_mem.1 hdvd) (not_le.mpr h.s_mem.2)
    have heq : (s * k : ZMod n) = z + r * d := by
      have hcast := (ZMod.natCast_eq_natCast_iff (s * k) (z + r * d) n).mpr h.eq
      push_cast at hcast
      exact hcast
    refine ⟨x, y, hns, ?_, hr⟩
    rw [smul_smul, ← add_smul, ← hk]
    apply smul_base_congr
    push_cast
    rw [ZMod.natCast_zmod_val, ZMod.natCast_zmod_val]
    field_simp
    linear_combination -heq

end P256
