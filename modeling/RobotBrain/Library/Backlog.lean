import Mathlib.Algebra.BigOperators.Intervals
import Mathlib.Algebra.Order.BigOperators.Group.Finset

/-!
# Backlog

Work arrives in rounds, and a round can do a fixed amount of it. What a round leaves over is done
before the work of the next one. If `x k` is the work of round `k` beyond what a round can do,
negative when there is room left, then `backlog x k` is what is left over before round `k`.

## Main definitions

* `backlog x` — the work left over.

## Main results

* `backlog_le_iff` — the backlog is at most `b` if and only if the rounds of every window that ends
  there exceed what they can do by at most `b`.
* `exists_backlog_eq` — some window exceeds it by exactly the backlog.
-/

variable {α : Type*} [AddCommGroup α] [LinearOrder α]

/-- What is left over before a round. -/
def backlog (x : ℕ → α) : ℕ → α
  | 0 => 0
  | k + 1 => max 0 (backlog x k + x k)

variable (x : ℕ → α)

@[simp] theorem backlog_zero : backlog x 0 = 0 := rfl

theorem backlog_succ (k : ℕ) : backlog x (k + 1) = max 0 (backlog x k + x k) := rfl

theorem backlog_nonneg (k : ℕ) : 0 ≤ backlog x k := by
  cases k with
  | zero => exact le_rfl
  | succ k => exact le_max_left _ _

/-- The backlog began to grow in some round, and has grown in every round since. -/
theorem exists_backlog_eq (k : ℕ) : ∃ i ≤ k, backlog x k = ∑ j ∈ Finset.Ico i k, x j := by
  induction k with
  | zero => exact ⟨0, le_rfl, by rw [Finset.Ico_self, Finset.sum_empty, backlog_zero]⟩
  | succ k ih =>
    rw [backlog_succ]
    rcases le_total (backlog x k + x k) 0 with hidle | hbusy
    · exact ⟨k + 1, le_rfl, by rw [max_eq_left hidle, Finset.Ico_self, Finset.sum_empty]⟩
    · obtain ⟨i, hi, heq⟩ := ih
      exact ⟨i, hi.trans k.le_succ, by rw [max_eq_right hbusy, heq, Finset.sum_Ico_succ_top hi]⟩

variable [IsOrderedAddMonoid α]

/-- Every window that ends before the round bounds the backlog from below. -/
theorem sum_Ico_le_backlog {i k : ℕ} (h : i ≤ k) : ∑ j ∈ Finset.Ico i k, x j ≤ backlog x k := by
  induction k, h using Nat.le_induction with
  | base =>
    rw [Finset.Ico_self, Finset.sum_empty]
    exact backlog_nonneg x i
  | succ k h ih =>
    rw [Finset.sum_Ico_succ_top h, backlog_succ]
    exact (add_le_add_left ih (x k)).trans (le_max_right _ _)

theorem backlog_le_iff {k : ℕ} {b : α} :
    backlog x k ≤ b ↔ ∀ i ≤ k, ∑ j ∈ Finset.Ico i k, x j ≤ b := by
  constructor
  · exact fun h i hi => (sum_Ico_le_backlog x hi).trans h
  · intro h
    obtain ⟨i, hi, heq⟩ := exists_backlog_eq x k
    exact heq.trans_le (h i hi)
