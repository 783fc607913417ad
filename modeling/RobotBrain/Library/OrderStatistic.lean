import Mathlib.Data.List.Sort

/-!
# Order statistics

The value of rank `r` of a list, counted from zero, is a value of the list such that at most `r`
values are smaller and more than `r` values are not larger. Sorting the list puts it at the index
`r`, and it does not depend on the order of the list.

## Main definitions

* `IsOrderStatistic l r x` — `x` is the value of rank `r` in `l`.

## Main results

* `isOrderStatistic_insertionSort` — the sorted list holds the order statistics.
* `IsOrderStatistic.mono`, `IsOrderStatistic.unique` — they grow with the rank and are unique.
-/

variable {α : Type*} [LinearOrder α]

/-- `x` is the value of rank `r` in `l`. -/
structure IsOrderStatistic (l : List α) (r : ℕ) (x : α) : Prop where
  mem : x ∈ l
  countP_lt : l.countP (· < x) ≤ r
  lt_countP : r < l.countP (· ≤ x)

variable {l l' : List α} {r r' : ℕ} {x x' : α}

/-- A larger rank has a larger value. -/
theorem IsOrderStatistic.mono (h : IsOrderStatistic l r x) (h' : IsOrderStatistic l r' x')
    (hr : r ≤ r') : x ≤ x' := by
  by_contra hlt
  have hcount : l.countP (· ≤ x') ≤ l.countP (· < x) := by
    refine List.countP_mono_left fun y _ hy => ?_
    have hle : y ≤ x' := of_decide_eq_true hy
    exact decide_eq_true (hle.trans_lt (not_le.mp hlt))
  have hlow := h.countP_lt
  have hhigh := h'.lt_countP
  omega

theorem IsOrderStatistic.unique (h : IsOrderStatistic l r x) (h' : IsOrderStatistic l r x') :
    x = x' :=
  le_antisymm (h.mono h' le_rfl) (h'.mono h le_rfl)

/-- Order statistics do not depend on the order of the list. -/
theorem IsOrderStatistic.of_perm (h : IsOrderStatistic l r x) (hperm : l.Perm l') :
    IsOrderStatistic l' r x where
  mem := hperm.mem_iff.mp h.mem
  countP_lt := hperm.countP_eq _ ▸ h.countP_lt
  lt_countP := hperm.countP_eq _ ▸ h.lt_countP

/-- In a sorted list the value of rank `r` has the index `r`. -/
theorem isOrderStatistic_getElem (hl : l.Pairwise (· ≤ ·)) (hr : r < l.length) :
    IsOrderStatistic l r l[r] := by
  have hdrop : l.drop r = l[r] :: l.drop (r + 1) := List.drop_eq_getElem_cons hr
  have hsplit : (l.take r ++ l.drop r).Pairwise (· ≤ ·) := by
    rw [List.take_append_drop]
    exact hl
  obtain ⟨-, hafter, hbefore⟩ := List.pairwise_append.mp hsplit
  rw [hdrop] at hafter hbefore
  have hlen : (l.take r).length = r := List.length_take_of_le hr.le
  refine ⟨List.getElem_mem hr, ?_, ?_⟩
  · -- only the values before the index can be smaller
    have hzero : (l.drop r).countP (· < l[r]) = 0 := by
      rw [hdrop, List.countP_eq_zero]
      intro y hy
      rw [decide_eq_true_iff, not_lt]
      rcases List.mem_cons.mp hy with rfl | hy
      · exact le_rfl
      · exact (List.pairwise_cons.mp hafter).1 y hy
    calc l.countP (· < l[r])
        = (l.take r).countP (· < l[r]) + (l.drop r).countP (· < l[r]) := by
          rw [← List.countP_append, List.take_append_drop]
      _ ≤ r := by
          have hle : (l.take r).countP (· < l[r]) ≤ (l.take r).length := List.countP_le_length
          omega
  · -- the values up to the index are not larger
    have hall : (l.take r).countP (· ≤ l[r]) = r := by
      rw [List.countP_eq_length.mpr, hlen]
      exact fun y hy => decide_eq_true (hbefore y hy l[r] List.mem_cons_self)
    have hself : 0 < (l.drop r).countP (· ≤ l[r]) := by
      rw [hdrop, List.countP_pos_iff]
      exact ⟨l[r], List.mem_cons_self, decide_eq_true le_rfl⟩
    have hsum : l.countP (· ≤ l[r]) =
        (l.take r).countP (· ≤ l[r]) + (l.drop r).countP (· ≤ l[r]) := by
      rw [← List.countP_append, List.take_append_drop]
    omega

/-- Sorting finds the order statistics. -/
theorem isOrderStatistic_insertionSort (l : List α) (hr : r < (l.insertionSort (· ≤ ·)).length) :
    IsOrderStatistic l r (l.insertionSort (· ≤ ·))[r] :=
  (isOrderStatistic_getElem (List.pairwise_insertionSort (· ≤ ·) l) hr).of_perm
    (List.perm_insertionSort (· ≤ ·) l)
