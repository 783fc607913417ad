import RobotBrain.Library.Machine
import Mathlib.Algebra.GroupWithZero.Nat
import Mathlib.Algebra.Order.Monoid.Unbundled.Basic

/-!
# Progress of machines

A safety property is an invariant; a progress property says that something happens however the
inputs are scheduled. `Machine.Inevitable P Q n s` says that from `s` every choice of inputs of the
kind `P` comes to a state with the property `Q` after at most `n` steps, and that there is a step
to choose until then. The inputs outside `P` are those that the environment may withhold.

## Main definitions

* `Machine.Inevitable` — `Q` is reached on every schedule, with a bound on the number of steps.

## Main results

* `Machine.inevitable_of_measure`, `Machine.Run.inevitable` — an invariant, or that the state is
  reached, and a measure that every step decreases.
* `Machine.Run.length_le` — the length of a run from what each input adds to a measure.
-/

namespace Machine

variable {σ ι ω : Type*} {M : Machine σ ι ω} {P : ι → Prop} {Q : σ → Prop} {es : List ι} {s : σ}
  {tr : List ω}

/-- Some input of the kind `P` is enabled. -/
def Enabled (M : Machine σ ι ω) (P : ι → Prop) (s : σ) : Prop :=
  ∃ e r, P e ∧ M.step s e = some r

/-- On every schedule of inputs of the kind `P`, a state with the property `Q` is reached after at
most `n` steps. -/
inductive Inevitable (M : Machine σ ι ω) (P : ι → Prop) (Q : σ → Prop) : ℕ → σ → Prop
  | now {n s} (h : Q s) : Inevitable M P Q n s
  | later {n s} (henabled : M.Enabled P s)
      (h : ∀ e r, P e → M.step s e = some r → Inevitable M P Q n r.1) :
      Inevitable M P Q (n + 1) s

/-- A property is inevitable if, as long as it fails, some input is enabled and every input keeps an
invariant and decreases a measure. -/
theorem inevitable_of_measure (I : σ → Prop) (μ : σ → ℕ)
    (henabled : ∀ s, I s → ¬ Q s → M.Enabled P s)
    (hstep : ∀ s e r, I s → ¬ Q s → P e → M.step s e = some r → I r.1 ∧ μ r.1 < μ s)
    (hI : I s) : M.Inevitable P Q (μ s) s := by
  have hbound (n : ℕ) : ∀ s, I s → μ s ≤ n → M.Inevitable P Q n s := by
    induction n with
    | zero =>
      intro s hI hμ
      by_cases hQ : Q s
      · exact .now hQ
      · obtain ⟨e, r, he, hs⟩ := henabled s hI hQ
        have hlt := (hstep s e r hI hQ he hs).2
        omega
    | succ n ih =>
      intro s hI hμ
      by_cases hQ : Q s
      · exact .now hQ
      · refine .later (henabled s hI hQ) fun e r he hs => ?_
        obtain ⟨hI', hlt⟩ := hstep s e r hI hQ he hs
        exact ih r.1 hI' (by omega)
  exact hbound (μ s) s hI le_rfl

/-- The case of the invariant that the state is reached by a run. -/
theorem Run.inevitable (μ : σ → ℕ)
    (henabled : ∀ {es s tr}, M.Run es s tr → ¬ Q s → M.Enabled P s)
    (hstep : ∀ {es s tr e r}, M.Run es s tr → P e → M.step s e = some r → μ r.1 < μ s)
    (h : M.Run es s tr) : M.Inevitable P Q (μ s) s := by
  refine inevitable_of_measure (fun s => ∃ es tr, M.Run es s tr) μ ?_ ?_ ⟨es, tr, h⟩
  · rintro s ⟨es, tr, h⟩ hQ
    exact henabled h hQ
  · rintro s e r ⟨es, tr, h⟩ - he hs
    exact ⟨⟨_, _, h.step trivial hs⟩, hstep h he hs⟩

/-- If an input adds at most its cost less one to a measure, a run is at most as long as the measure
was initially plus the costs of its inputs. -/
theorem Run.length_le (μ : σ → ℕ) (cost : ι → ℕ)
    (hstep : ∀ {es s tr e r}, M.Run es s tr → M.step s e = some r →
      μ r.1 + 1 ≤ μ s + cost e)
    (h : M.Run es s tr) : es.length + μ s ≤ μ M.init + (es.map cost).sum := by
  induction h with
  | init => simp
  | @step es s tr e s' out h _ hs ih =>
    have hle := hstep h hs
    dsimp only at hle
    rw [List.length_append, List.length_singleton, List.map_append, List.sum_append,
      List.map_singleton, List.sum_singleton]
    omega

end Machine
