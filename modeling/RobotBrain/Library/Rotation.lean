import Mathlib.Algebra.Quaternion
import Mathlib.Tactic.LinearCombination

/-!
# Rotations by quaternions

A quaternion `q` of norm one rotates the vector `v`, a quaternion with real part zero, to
`q * v * star q`; the inverse rotation takes `v` to `star q * v * q`. Both make sense over any
commutative ring.

## Main definitions

* `Quaternion.rotate`, `Quaternion.rotateBack`.
* `Quaternion.aboutK` — the rotations about the third axis.

## Main results

* `Quaternion.rotate_rotateBack` — the inverse rotation is undone.
* `Quaternion.rotateBack_mul` — a composition is undone in the opposite order.
* `Quaternion.normSq_rotateBack` — the norm is kept.
* `Quaternion.rotateBack_aboutK` — a rotation about the third axis fixes that axis.
-/

open scoped Quaternion

namespace Quaternion

variable {R : Type*} [CommRing R]

/-- The rotation of `v` by `q`. -/
def rotate (q v : ℍ[R]) : ℍ[R] := q * v * star q

/-- The inverse rotation of `v` by `q`. -/
def rotateBack (q v : ℍ[R]) : ℍ[R] := star q * v * q

/-- The quaternion of a rotation about the third axis, for `c ^ 2 + s ^ 2 = 1`. -/
def aboutK (c s : R) : ℍ[R] := ⟨c, 0, 0, s⟩

/-- The vector of length `g` along the third axis. -/
def alongK (g : R) : ℍ[R] := ⟨0, 0, 0, g⟩

variable {q : ℍ[R]}

theorem star_mul_self_of_normSq (hq : normSq q = 1) : star q * q = 1 := by
  rw [star_mul_self, hq, coe_one]

theorem self_mul_star_of_normSq (hq : normSq q = 1) : q * star q = 1 := by
  rw [self_mul_star, hq, coe_one]

theorem rotate_rotateBack (hq : normSq q = 1) (v : ℍ[R]) : q.rotate (q.rotateBack v) = v := by
  calc q * (star q * v * q) * star q
      = (q * star q) * v * (q * star q) := by simp only [mul_assoc]
    _ = v := by rw [self_mul_star_of_normSq hq, one_mul, mul_one]

theorem rotateBack_mul (p q v : ℍ[R]) :
    (p * q).rotateBack v = q.rotateBack (p.rotateBack v) := by
  simp only [rotateBack, star_mul, mul_assoc]

theorem rotateBack_neg (q v : ℍ[R]) : (-q).rotateBack v = q.rotateBack v := by
  simp only [rotateBack, star_neg, neg_mul, mul_neg, neg_neg]

theorem normSq_rotateBack (hq : normSq q = 1) (v : ℍ[R]) :
    normSq (q.rotateBack v) = normSq v := by
  rw [rotateBack, map_mul, map_mul, normSq_star, hq, one_mul, mul_one]

theorem normSq_aboutK (c s : R) : normSq (aboutK c s) = c ^ 2 + s ^ 2 := by
  rw [normSq_def']
  simp only [aboutK]
  ring

/-- A rotation about the third axis fixes the vectors along it. -/
theorem rotateBack_aboutK {c s : R} (h : c ^ 2 + s ^ 2 = 1) (g : R) :
    (aboutK c s).rotateBack (alongK g) = alongK g := by
  have hcomm : alongK g * aboutK c s = aboutK c s * alongK g := by
    apply Quaternion.ext <;> simp only [re_mul, imI_mul, imJ_mul, imK_mul] <;>
      simp only [aboutK, alongK] <;> ring
  have hunit : normSq (aboutK c s) = 1 := by rw [normSq_aboutK, h]
  rw [rotateBack, mul_assoc, hcomm, ← mul_assoc, star_mul_self_of_normSq hunit, one_mul]

end Quaternion
