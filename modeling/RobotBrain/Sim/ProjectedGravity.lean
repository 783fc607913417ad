import RobotBrain.Library.Rotation
import RobotBrain.Sim.Node

/-!
# The projected gravity

`RosNode::QuaternionToProjectedGravity` computes the direction of gravity in the frame of the base
from the orientation of the base, by three quadratic polynomials; the Python tools have a formula of
their own with another third component. In exact arithmetic both are the inverse rotation of
`(0, 0, -1)`, for every orientation of norm one and over any commutative ring.

## Main definitions

* `quaternionToProjectedGravity`, `getGravityOrientation` — the two formulas in exact arithmetic.

## Main results

* `projected_gravity` — the formula is the rotated gravity vector.
* `RosNode.quaternionToProjectedGravity_fin` — the formula of the callback on finite messages.
-/

open scoped Quaternion

namespace RobotBrain

open ExtNum

variable {R : Type*} [CommRing R]

/-- `RosNode::QuaternionToProjectedGravity` in exact arithmetic. -/
def quaternionToProjectedGravity (q : ℍ[R]) : Fin 3 → R :=
  ![2 * (q.re * q.imJ - q.imI * q.imK), -2 * (q.re * q.imI + q.imJ * q.imK),
    2 * (q.imI * q.imI + q.imJ * q.imJ) - 1]

/-- `get_gravity_orientation` of the Python tools, which `_run_direct_policy` repeats. -/
def getGravityOrientation (q : ℍ[R]) : Fin 3 → R :=
  ![2 * (-q.imK * q.imI + q.re * q.imJ), -2 * (q.imK * q.imJ + q.re * q.imI),
    1 - 2 * (q.re * q.re + q.imK * q.imK)]

/-- The quaternion with real part zero and the given vector part. -/
def ofVector (v : Fin 3 → R) : ℍ[R] := (Quaternion.equivTuple R).symm (Matrix.vecCons 0 v)

theorem ofVector_eq (v : Fin 3 → R) : ofVector v = ⟨0, v 0, v 1, v (Fin.last 2)⟩ := rfl

/-- A vector is determined by its quaternion. -/
theorem ofVector_injective : Function.Injective (ofVector : (Fin 3 → R) → ℍ[R]) := by
  intro v w h
  obtain ⟨-, h0, h1, h2⟩ := Quaternion.ext_iff.mp h
  funext i
  fin_cases i
  · exact h0
  · exact h1
  · exact h2

variable {q : ℍ[R]}

/-- The formula is the vector part of `star q * (0, 0, 0, -1) * q`. -/
theorem rotateBack_gravity (hq : Quaternion.normSq q = 1) :
    q.rotateBack (Quaternion.alongK (-1)) = ofVector (quaternionToProjectedGravity q) := by
  rw [Quaternion.normSq_def'] at hq
  apply Quaternion.ext <;> simp only [Quaternion.rotateBack, Quaternion.re_mul, Quaternion.imI_mul,
    Quaternion.imJ_mul, Quaternion.imK_mul, Quaternion.re_star, Quaternion.imI_star,
    Quaternion.imJ_star, Quaternion.imK_star] <;>
    simp only [Quaternion.alongK, ofVector_eq, quaternionToProjectedGravity]
  · ring
  · show _ = 2 * (q.re * q.imJ - q.imI * q.imK)
    ring
  · show _ = -2 * (q.re * q.imI + q.imJ * q.imK)
    ring
  · show _ = 2 * (q.imI * q.imI + q.imJ * q.imJ) - 1
    linear_combination -hq

/-- The projected gravity of an orientation of norm one:

* it is the inverse rotation of `(0, 0, -1)`, and rotating it gives `(0, 0, -1)`;
* it has norm one;
* it is the same for `q` and `-q`;
* a rotation about the vertical axis before `q` does not change it;
* the formula of the Python tools agrees. -/
theorem projected_gravity (q : ℍ[R])
    (hq : q.re ^ 2 + q.imI ^ 2 + q.imJ ^ 2 + q.imK ^ 2 = 1) :
    star q * Quaternion.alongK (-1) * q = ofVector (quaternionToProjectedGravity q) ∧
      q * ofVector (quaternionToProjectedGravity q) * star q = Quaternion.alongK (-1) ∧
      quaternionToProjectedGravity q 0 ^ 2 + quaternionToProjectedGravity q 1 ^ 2 +
        quaternionToProjectedGravity q (Fin.last 2) ^ 2 = 1 ∧
      quaternionToProjectedGravity (-q) = quaternionToProjectedGravity q ∧
      (∀ c s, c ^ 2 + s ^ 2 = 1 →
        quaternionToProjectedGravity (Quaternion.aboutK c s * q) =
          quaternionToProjectedGravity q) ∧
      quaternionToProjectedGravity q = getGravityOrientation q := by
  have hnorm : Quaternion.normSq q = 1 := by
    rw [Quaternion.normSq_def']
    exact hq
  have hrot := rotateBack_gravity hnorm
  refine ⟨hrot, ?_, ?_, ?_, fun c s hcs => ?_, ?_⟩
  · rw [← hrot]
    exact Quaternion.rotate_rotateBack hnorm _
  · have hlen := Quaternion.normSq_rotateBack hnorm (Quaternion.alongK (-1))
    rw [hrot, Quaternion.normSq_def', Quaternion.normSq_def'] at hlen
    simp only [ofVector_eq, Quaternion.alongK] at hlen
    linear_combination hlen
  · have hneg : Quaternion.normSq (-q) = 1 := by rw [Quaternion.normSq_neg, hnorm]
    apply ofVector_injective
    rw [← rotateBack_gravity hneg, ← hrot, Quaternion.rotateBack_neg]
  · have hunit : Quaternion.normSq (Quaternion.aboutK c s * q) = 1 := by
      rw [map_mul, hnorm, mul_one, Quaternion.normSq_aboutK, hcs]
    apply ofVector_injective
    rw [← rotateBack_gravity hunit, ← hrot, Quaternion.rotateBack_mul,
      Quaternion.rotateBack_aboutK hcs]
  · funext i
    fin_cases i
    · show 2 * (q.re * q.imJ - q.imI * q.imK) = 2 * (-q.imK * q.imI + q.re * q.imJ)
      ring
    · show -2 * (q.re * q.imI + q.imJ * q.imK) = -2 * (q.imK * q.imJ + q.re * q.imI)
      ring
    · show 2 * (q.imI * q.imI + q.imJ * q.imJ) - 1 = 1 - 2 * (q.re * q.re + q.imK * q.imK)
      linear_combination 2 * hq

/-- A base that lies on its left side. -/
theorem projected_gravity_side :
    quaternionToProjectedGravity (⟨3 / 5, 4 / 5, 0, 0⟩ : ℍ[ℚ]) 0 ^ 2 +
      quaternionToProjectedGravity (⟨3 / 5, 4 / 5, 0, 0⟩ : ℍ[ℚ]) 1 ^ 2 +
      quaternionToProjectedGravity (⟨3 / 5, 4 / 5, 0, 0⟩ : ℍ[ℚ]) (Fin.last 2) ^ 2 = 1 :=
  (projected_gravity ⟨3 / 5, 4 / 5, 0, 0⟩ (by norm_num)).2.2.1

/-- On a message with finite components the callback computes the exact formula. -/
theorem RosNode.quaternionToProjectedGravity_fin (q : ℍ[ℚ]) :
    RosNode.quaternionToProjectedGravity ⟨fin q.re, fin q.imI, fin q.imJ, fin q.imK⟩ =
      fun i => fin (RobotBrain.quaternionToProjectedGravity q i) := by
  simp only [quaternionToProjectedGravity, fin_mul_fin, fin_sub_fin, fin_add_fin]
  funext i
  fin_cases i <;> rfl

end RobotBrain
