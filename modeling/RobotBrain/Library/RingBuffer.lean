import Mathlib.Data.List.Rotate

/-!
# Ring buffers

A ring buffer of `W` cells keeps the last `W` values that have been pushed. The index of the next
write goes around the cells, and a counter says how many have been written. Both bounds are fields,
so that a write is always in bounds.

## Main definitions

* `RingBuffer`, `RingBuffer.push`, `RingBuffer.pushAll`.
* `RingBuffer.contents` — the cells that have been written.

## Main results

* `RingBuffer.getElem?_pushAll` — where the values of the window are.
* `RingBuffer.contents_pushAll` — the contents are a permutation of the window.
-/

/-- A ring buffer with `W` cells. -/
structure RingBuffer (α : Type*) (W : ℕ) where
  cells : List α
  idx : ℕ
  count : ℕ
  length_cells : cells.length = W
  idx_lt : idx < W
  count_le : count ≤ W

namespace RingBuffer

variable {α : Type*} {W : ℕ}

/-- An empty ring buffer, whose cells hold `x`. -/
def empty (hW : 0 < W) (x : α) : RingBuffer α W where
  cells := List.replicate W x
  idx := 0
  count := 0
  length_cells := List.length_replicate
  idx_lt := hW
  count_le := Nat.zero_le W

/-- Write the next cell. -/
def push (r : RingBuffer α W) (x : α) : RingBuffer α W where
  cells := r.cells.set r.idx x
  idx := (r.idx + 1) % W
  count := if r.count < W then r.count + 1 else r.count
  length_cells := by rw [List.length_set, r.length_cells]
  idx_lt := Nat.mod_lt _ (Nat.zero_lt_of_lt r.idx_lt)
  count_le := by
    have hle := r.count_le
    split_ifs <;> omega

/-- Push the values, in order. -/
def pushAll (r : RingBuffer α W) (xs : List α) : RingBuffer α W :=
  xs.foldl push r

/-- The cells that have been written. -/
def contents (r : RingBuffer α W) : List α := r.cells.take r.count

/-- The last `W` values. -/
def window (W : ℕ) (xs : List α) : List α := xs.drop (xs.length - W)

theorem length_window (W : ℕ) (xs : List α) : (window W xs).length = min xs.length W := by
  rw [window, List.length_drop]
  omega

@[simp] theorem length_contents (r : RingBuffer α W) : r.contents.length = r.count := by
  rw [contents, List.length_take, r.length_cells, min_eq_left r.count_le]

theorem pushAll_concat (r : RingBuffer α W) (xs : List α) (x : α) :
    r.pushAll (xs ++ [x]) = (r.pushAll xs).push x := by
  rw [pushAll, List.foldl_append]
  rfl

variable {hW : 0 < W} {d : α}

theorem idx_pushAll (xs : List α) : ((empty hW d).pushAll xs).idx = xs.length % W := by
  induction xs using List.reverseRecOn with
  | nil => exact (Nat.zero_mod W).symm
  | append_singleton xs x ih =>
    rw [pushAll_concat, List.length_append, List.length_singleton]
    show (((empty hW d).pushAll xs).idx + 1) % W = _
    rw [ih, Nat.mod_add_mod]

theorem count_pushAll (xs : List α) : ((empty hW d).pushAll xs).count = min xs.length W := by
  induction xs using List.reverseRecOn with
  | nil => exact (Nat.zero_min W).symm
  | append_singleton xs x ih =>
    rw [pushAll_concat, List.length_append, List.length_singleton]
    show (if ((empty hW d).pushAll xs).count < W then _ else _) = _
    rw [ih]
    split_ifs <;> omega

/-- Two indices less than a full round apart are in different cells. -/
theorem mod_ne_mod {p n : ℕ} (hlt : p < n) (hround : n < p + W) : p % W ≠ n % W := by
  intro heq
  have hzero : (n - p) % W = 0 := Nat.sub_mod_eq_zero_of_mod_eq heq.symm
  rw [Nat.mod_eq_of_lt (by omega)] at hzero
  omega

/-- A value of the window is in the cell that its position leaves modulo `W`. -/
theorem getElem?_pushAll (xs : List α) {p : ℕ} (hp : p < xs.length) (hwindow : xs.length ≤ p + W) :
    ((empty hW d).pushAll xs).cells[p % W]? = xs[p]? := by
  induction xs using List.reverseRecOn with
  | nil => exact absurd hp (Nat.not_lt_zero p)
  | append_singleton xs x ih =>
    rw [List.length_append, List.length_singleton] at hp hwindow
    rw [pushAll_concat]
    show (((empty hW d).pushAll xs).cells.set ((empty hW d).pushAll xs).idx x)[p % W]? = _
    rw [idx_pushAll]
    rcases Nat.lt_succ_iff_lt_or_eq.mp hp with hlt | rfl
    · rw [List.getElem?_set_ne (mod_ne_mod hlt (by omega)).symm, ih hlt (by omega),
        List.getElem?_append_left hlt]
    · have hcell : xs.length % W < ((empty hW d).pushAll xs).cells.length := by
        rw [length_cells]
        exact Nat.mod_lt _ hW
      rw [List.getElem?_set_self hcell, List.getElem?_concat_length]

/-- Before the buffer is full its contents are the values in order. -/
theorem contents_pushAll_of_lt {xs : List α} (hlt : xs.length < W) :
    ((empty hW d).pushAll xs).contents = xs := by
  have hcount : ((empty hW d).pushAll xs).count = xs.length := by
    rw [count_pushAll, min_eq_left hlt.le]
  refine List.ext_getElem? fun i => ?_
  by_cases hi : i < xs.length
  · have hcell : ((empty hW d).pushAll xs).cells[i % W]? = xs[i]? :=
      getElem?_pushAll xs hi (by omega)
    rw [contents, hcount, List.getElem?_take_of_lt hi, ← hcell, Nat.mod_eq_of_lt (hi.trans hlt)]
  · rw [List.getElem?_eq_none (by rw [length_contents, hcount]; omega),
      List.getElem?_eq_none (not_lt.mp hi)]

/-- Afterwards its cells are the window, rotated. -/
theorem rotate_cells_pushAll_of_ge {xs : List α} (hge : W ≤ xs.length) :
    ((empty hW d).pushAll xs).cells.rotate (xs.length % W) = window W xs := by
  have hlen : ((empty hW d).pushAll xs).cells.length = W := length_cells _
  refine List.ext_getElem? fun i => ?_
  by_cases hi : i < W
  · have hcell : (i + xs.length % W) % W = (xs.length - W + i) % W := by
      rw [Nat.add_mod_mod, ← Nat.add_mod_right (xs.length - W + i) W]
      congr 1
      omega
    rw [List.getElem?_rotate (by omega), hlen, hcell, getElem?_pushAll xs (by omega) (by omega),
      window, List.getElem?_drop]
  · rw [List.getElem?_eq_none (by rw [List.length_rotate]; omega),
      List.getElem?_eq_none (by rw [length_window]; omega)]

/-- The contents are the values of the window, in some order. -/
theorem contents_pushAll (xs : List α) :
    ((empty hW d).pushAll xs).contents.Perm (window W xs) := by
  rcases Nat.lt_or_ge xs.length W with hlt | hge
  · rw [contents_pushAll_of_lt hlt, window, Nat.sub_eq_zero_of_le hlt.le, List.drop_zero]
  · have hfull : ((empty hW d).pushAll xs).contents = ((empty hW d).pushAll xs).cells := by
      rw [contents, count_pushAll, min_eq_right hge, List.take_of_length_le (length_cells _).le]
    rw [hfull, ← rotate_cells_pushAll_of_ge hge]
    exact (List.rotate_perm _ _).symm

end RingBuffer
