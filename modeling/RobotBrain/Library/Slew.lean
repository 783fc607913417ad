import RobotBrain.Library.ExtNum
import Mathlib.Order.Interval.Set.UnorderedInterval

/-!
# Slew-rate limiting

A slew limiter moves a value towards a target by at most a given amount: when the target is
further away than `maxDelta` the value moves by `maxDelta` in the direction of the target,
otherwise it takes the target. `ExtNum.slew` is the limiter as a floating-point program writes it,
with `std::abs`, `std::copysign` and one comparison; `slewStep` is the same map on an ordered field.

## Main definitions

* `slewStep`, `ExtNum.slew`.

## Main results

* `slewStep_mem_uIcc`, `abs_slewStep_sub_le` — a step stays between its two ends and is no longer
  than `maxDelta`.
* `abs_slewStep_sub`, `abs_sub_slewStep` — the length of a step and the distance left after it.
* `ExtNum.exists_slew_eq` — a limit that is not negative keeps finite values between their ends.
* `ExtNum.exists_slew_eq_abs_sub_le` — a nonnegative limit bounds the step for every target but a
  NaN.
* `ExtNum.slew_isFinite_iff` — with a finite limit and a finite current value, only a NaN target
  gives a value that is not finite.
* `ExtNum.abs_sub_le_iff_of_slew_eq` — the distances that a step and a further limit cover.
-/

variable {K : Type*} [Field K] [LinearOrder K]

/-- Move `current` towards `target` by at most `maxDelta`. -/
def slewStep (maxDelta current target : K) : K :=
  if maxDelta < |target - current| then
    current + (if target - current < 0 then -|maxDelta| else |maxDelta|)
  else target

section Ordered

variable [IsStrictOrderedRing K] {m c t : K}

/-- A step of a nonnegative limit ends between the current value and the target. -/
theorem slewStep_mem_uIcc (hm : 0 ≤ m) (c t : K) : slewStep m c t ∈ Set.uIcc c t := by
  unfold slewStep
  split_ifs with hfar hneg
  · rw [abs_of_neg hneg] at hfar
    rw [abs_of_nonneg hm, Set.uIcc_of_ge (by linarith)]
    constructor <;> linarith
  · rw [abs_of_nonneg (not_lt.mp hneg)] at hfar
    rw [abs_of_nonneg hm, Set.uIcc_of_le (by linarith)]
    constructor <;> linarith
  · exact Set.right_mem_uIcc

/-- A step of a nonnegative limit is no longer than the limit. -/
theorem abs_slewStep_sub_le (hm : 0 ≤ m) (c t : K) : |slewStep m c t - c| ≤ m := by
  unfold slewStep
  split_ifs with hfar hneg
  · rw [add_sub_cancel_left, abs_neg, abs_abs, abs_of_nonneg hm]
  · rw [add_sub_cancel_left, abs_abs, abs_of_nonneg hm]
  · exact not_lt.mp hfar

/-- A step of a nonnegative limit covers the limit, or the whole distance if that is less. -/
theorem abs_slewStep_sub (hm : 0 ≤ m) (c t : K) : |slewStep m c t - c| = min m |t - c| := by
  unfold slewStep
  split_ifs with hfar hneg
  · rw [min_eq_left hfar.le, add_sub_cancel_left, abs_neg, abs_abs, abs_of_nonneg hm]
  · rw [min_eq_left hfar.le, add_sub_cancel_left, abs_abs, abs_of_nonneg hm]
  · rw [min_eq_right (not_lt.mp hfar)]

/-- A step of a nonnegative limit shortens the distance to the target by the limit, down to
zero. -/
theorem abs_sub_slewStep (hm : 0 ≤ m) (c t : K) :
    |t - slewStep m c t| = max 0 (|t - c| - m) := by
  unfold slewStep
  split_ifs with hfar hneg
  · rw [abs_of_neg hneg] at hfar ⊢
    rw [abs_of_nonneg hm, max_eq_right (by linarith), abs_of_neg (by linarith)]
    ring
  · rw [abs_of_nonneg (not_lt.mp hneg)] at hfar ⊢
    rw [abs_of_nonneg hm, max_eq_right (by linarith), abs_of_nonneg (by linarith)]
    ring
  · rw [sub_self, abs_zero, max_eq_left (by linarith)]

/-- A value between two others has the target on the same side as the current value does. -/
theorem sub_mul_sub_nonneg_of_mem_uIcc {x : K} (hx : x ∈ Set.uIcc c t) :
    0 ≤ (t - x) * (t - c) := by
  rcases Set.mem_uIcc.mp hx with ⟨hcx, hxt⟩ | ⟨htx, hxc⟩
  · exact mul_nonneg (by linarith) (by linarith)
  · exact mul_nonneg_of_nonpos_of_nonpos (by linarith) (by linarith)

end Ordered

namespace ExtNum

/-- The slew limiter of a floating-point program:
`delta = target - current; if (abs(delta) > maxDelta) current + copysign(maxDelta, delta)`
`else target`. -/
def slew (maxDelta current target : ExtNum K) : ExtNum K :=
  let delta := target - current
  if maxDelta < delta.abs then current + copysign maxDelta delta else target

@[simp] theorem slew_fin (m c t : K) : slew (fin m) (fin c) (fin t) = fin (slewStep m c t) := by
  simp only [slew, slewStep, fin_sub_fin, abs_fin, fin_lt_fin, copysign_fin, isNeg,
    decide_eq_true_eq]
  split_ifs <;> rfl

/-- A limit no finite distance exceeds leaves the target alone. -/
theorem slew_of_not_lt {m c t : ExtNum K} (h : ¬m < (t - c).abs) : slew m c t = t :=
  if_neg h

/-- A NaN target is taken over: its distance compares with no limit. -/
@[simp] theorem slew_nan (m c : ExtNum K) : slew m c nan = nan := by
  apply slew_of_not_lt
  rw [nan_sub]
  exact not_lt_nan m

/-- An infinite target moves a finite value by the whole limit. -/
theorem slew_inf (m c : K) (s : Bool) :
    slew (fin m) (fin c) (inf s) = fin (c + if s then -|m| else |m|) := by
  have hfar : (fin m : ExtNum K) < (inf s - fin c).abs := rfl
  rw [slew, if_pos hfar, copysign_fin]
  rfl

/-- With a finite limit and a finite current value, a step is finite unless the target is a
NaN. -/
theorem slew_isFinite_iff (m c : K) (t : ExtNum K) :
    (slew (fin m) (fin c) t).IsFinite ↔ t ≠ nan := by
  cases t with
  | fin t => simp
  | inf s => simp [slew_inf]
  | nan => simp

omit [Field K] in
/-- A bound below two finite values is below every value between them. -/
theorem le_of_mem_uIcc {a : ExtNum K} {c t x : K} (hc : a ≤ fin c) (ht : a ≤ fin t)
    (hx : x ∈ Set.uIcc c t) : a ≤ fin x := by
  cases a with
  | fin a => exact le_trans (le_inf hc ht) hx.1
  | inf s => exact hc
  | nan => exact hc

omit [Field K] in
/-- A bound above two finite values is above every value between them. -/
theorem ge_of_mem_uIcc {a : ExtNum K} {c t x : K} (hc : fin c ≤ a) (ht : fin t ≤ a)
    (hx : x ∈ Set.uIcc c t) : fin x ≤ a := by
  cases a with
  | fin a => exact le_trans hx.2 (sup_le hc ht)
  | inf s => exact hc
  | nan => exact hc

variable [IsStrictOrderedRing K]

/-- A limit that is not below zero keeps finite values between their two ends: it is a
nonnegative limit, or an infinity or a NaN that limits nothing. -/
theorem exists_slew_eq {m : ExtNum K} (hm : ¬m < fin 0) (c t : K) :
    ∃ x, slew m (fin c) (fin t) = fin x ∧ x ∈ Set.uIcc c t := by
  rcases not_lt_cases hm with ⟨m, rfl, h0⟩ | rfl | rfl
  · exact ⟨_, slew_fin m c t, slewStep_mem_uIcc h0 c t⟩
  · exact ⟨t, slew_of_not_lt (not_posInf_lt _), Set.right_mem_uIcc⟩
  · exact ⟨t, slew_of_not_lt (not_nan_lt _), Set.right_mem_uIcc⟩

/-- A limit of at least zero, infinite or not, bounds the step between finite values. -/
theorem exists_slew_eq_abs_sub_le_of_fin {m : ExtNum K} (hm : fin 0 ≤ m) (c t : K) :
    ∃ x, slew m (fin c) (fin t) = fin x ∧ fin |x - c| ≤ m := by
  rcases le_cases hm with ⟨m, rfl, h0⟩ | rfl
  · exact ⟨_, slew_fin m c t, abs_slewStep_sub_le h0 c t⟩
  · exact ⟨t, slew_of_not_lt (not_posInf_lt _), rfl⟩

/-- A limit of at least zero, infinite or not, moves a finite value towards the target, not past it
and no further than the limit. -/
theorem exists_slew_eq_mem_uIcc {m : ExtNum K} (hm : fin 0 ≤ m) (c t : K) :
    ∃ x, slew m (fin c) (fin t) = fin x ∧ x ∈ Set.uIcc c t ∧ fin |x - c| ≤ m := by
  rcases le_cases hm with ⟨m, rfl, h0⟩ | rfl
  · exact ⟨_, slew_fin m c t, slewStep_mem_uIcc h0 c t, abs_slewStep_sub_le h0 c t⟩
  · exact ⟨t, slew_of_not_lt (not_posInf_lt _), Set.right_mem_uIcc, rfl⟩

/-- What is left of a distance after a step is within `b` exactly if the distance is within the
limit of the step and `b` together. -/
theorem abs_sub_le_iff_of_slew_eq {m b : ExtNum K} (hm : fin 0 ≤ m) (hb : fin 0 ≤ b) {c t x : K}
    (hx : slew m (fin c) (fin t) = fin x) : fin |t - x| ≤ b ↔ fin |t - c| ≤ m + b := by
  rcases le_cases hm with ⟨m, rfl, h0⟩ | rfl
  · rw [slew_fin] at hx
    cases hx
    rw [abs_sub_slewStep h0]
    rcases le_cases hb with ⟨b, rfl, h1⟩ | rfl
    · rw [fin_add_fin, fin_le_fin, fin_le_fin, max_le_iff, and_iff_right h1, sub_le_iff_le_add']
    · exact iff_of_true rfl rfl
  · rw [slew_of_not_lt (not_posInf_lt _)] at hx
    cases hx
    rw [sub_self, abs_zero]
    rcases le_cases hb with ⟨b, rfl, h1⟩ | rfl
    · exact iff_of_true hb rfl
    · exact iff_of_true rfl rfl

/-- A nonnegative limit keeps the distance to the current value, whatever the target is unless it is
a NaN. -/
theorem exists_slew_eq_abs_sub_le {m : K} (hm : 0 ≤ m) (c : K) {t : ExtNum K} (ht : t ≠ nan) :
    ∃ x, slew (fin m) (fin c) t = fin x ∧ |x - c| ≤ m := by
  cases t with
  | fin t => exact ⟨_, slew_fin m c t, abs_slewStep_sub_le hm c t⟩
  | inf s =>
    refine ⟨_, slew_inf m c s, ?_⟩
    cases s <;> simp [abs_of_nonneg hm]
  | nan => exact absurd rfl ht

end ExtNum
