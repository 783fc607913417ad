import Mathlib.Data.List.Forall2

/-!
# Computations that stop at the first error

When a sequence of computations in `Except` returns, and which error leaves it otherwise.

## Main results

* `Except.bind_eq_ok_iff`, `Except.bind_eq_error_iff` — two computations in sequence.
* `Except.mapM_eq_ok_iff` — a loop over a list returns if every pass does.
* `Except.mapM_eq_error_iff` — it fails with the error of the first pass that fails.
-/

namespace Except

universe u

variable {ε : Type*} {α β : Type u}

theorem bind_eq_ok_iff {x : Except ε α} {f : α → Except ε β} {b : β} :
    (x >>= f) = .ok b ↔ ∃ a, x = .ok a ∧ f a = .ok b := by
  cases x with
  | error e => simp [bind, Except.bind]
  | ok a => simp [bind, Except.bind]

theorem bind_eq_error_iff {x : Except ε α} {f : α → Except ε β} {e : ε} :
    (x >>= f) = .error e ↔ x = .error e ∨ ∃ a, x = .ok a ∧ f a = .error e := by
  cases x with
  | error e' => simp [bind, Except.bind]
  | ok a => simp [bind, Except.bind]

/-- A loop returns if every pass does, with the list of what they return. -/
theorem mapM_eq_ok_iff {f : α → Except ε β} {xs : List α} {ys : List β} :
    xs.mapM f = .ok ys ↔ List.Forall₂ (fun x y => f x = .ok y) xs ys := by
  induction xs generalizing ys with
  | nil =>
    rw [List.mapM_nil, List.forall₂_nil_left_iff]
    exact ⟨fun h => (Except.ok.inj h).symm, fun h => h ▸ rfl⟩
  | cons x xs ih =>
    rw [List.mapM_cons]
    constructor
    · intro h
      obtain ⟨y, hy, h⟩ := bind_eq_ok_iff.mp h
      obtain ⟨ys', hys, h⟩ := bind_eq_ok_iff.mp h
      cases h
      exact .cons hy (ih.mp hys)
    · rintro (_ | ⟨hy, hys⟩)
      exact bind_eq_ok_iff.mpr ⟨_, hy, bind_eq_ok_iff.mpr ⟨_, ih.mpr hys, rfl⟩⟩

/-- A loop fails with the error of the first pass that fails. -/
theorem mapM_eq_error_iff {f : α → Except ε β} {xs : List α} {e : ε} :
    xs.mapM f = .error e ↔ ∃ before x after, xs = before ++ x :: after ∧
      (∀ x' ∈ before, ∃ y, f x' = .ok y) ∧ f x = .error e := by
  induction xs with
  | nil =>
    rw [List.mapM_nil]
    constructor
    · exact fun h => by cases h
    · rintro ⟨before, x, after, h, -⟩
      exact absurd h.symm (List.append_ne_nil_of_right_ne_nil _ (List.cons_ne_nil _ _))
  | cons x xs ih =>
    rw [List.mapM_cons]
    constructor
    · intro h
      rcases bind_eq_error_iff.mp h with hx | ⟨y, hy, h⟩
      · exact ⟨[], x, xs, rfl, fun _ h => absurd h List.not_mem_nil, hx⟩
      · rcases bind_eq_error_iff.mp h with hxs | ⟨_, _, h⟩
        · obtain ⟨before, x', after, rfl, hbefore, hx'⟩ := ih.mp hxs
          exact ⟨x :: before, x', after, rfl, List.forall_mem_cons.mpr ⟨⟨y, hy⟩, hbefore⟩, hx'⟩
        · cases h
    · rintro ⟨before, x', after, h, hbefore, hx'⟩
      refine bind_eq_error_iff.mpr ?_
      cases before with
      | nil =>
        cases h
        exact .inl hx'
      | cons _ before =>
        cases h
        rw [List.forall_mem_cons] at hbefore
        obtain ⟨⟨y, hy⟩, hbefore⟩ := hbefore
        exact .inr ⟨y, hy, bind_eq_error_iff.mpr (.inl (ih.mpr ⟨_, _, _, rfl, hbefore, hx'⟩))⟩

end Except
