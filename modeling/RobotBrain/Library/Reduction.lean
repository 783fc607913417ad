import RobotBrain.Library.Machine

/-!
# Serial runs of a machine

A machine `M` of small steps has states `rest t` between calls; a call is a path of steps from such
a state to the next one. A run is serial if each call ends before the next one begins, which a
condition on the steps can say. If every call of `M` is one step of a machine `N` of whole calls,
the serial runs of `M` that end between calls are runs of `N`.

## Main definitions

* `Machine.Completes` — how a call under way may end.

## Main results

* `Machine.Reaches.exists_run_of_rest` — serial runs are runs of whole calls.
-/

namespace Machine

variable {σ τ ι κ ω : Type*} {M : Machine σ ι ω} {N : Machine τ κ ω} {rest : τ → σ}
  {ok : σ → List ω → ι → Prop} {es : List ι} {s : σ} {tr : List ω}

/-- From `s` steps that meet the condition lead to the next state between calls, `rest r.1`, with
the outputs `r.2`. -/
inductive Completes (M : Machine σ ι ω) (ok : σ → ι → Prop) (rest : τ → σ) :
    σ → τ × List ω → Prop
  | done (t : τ) : Completes M ok rest (rest t) (t, [])
  | step {s e s' out r} (hcall : ∀ t, s ≠ rest t) (hok : ok s e)
      (hs : M.step s e = some (s', out)) (h : Completes M ok rest s' r) :
      Completes M ok rest s (r.1, out ++ r.2)

/-- Between calls there is nothing left to do. -/
theorem Completes.eq_of_rest (hinj : Function.Injective rest) {ok : σ → ι → Prop} {t : τ}
    {r : τ × List ω} (h : M.Completes ok rest (rest t) r) : r = (t, []) := by
  generalize hs : rest t = s at h
  cases h with
  | done t' => rw [hinj hs]
  | step hcall => exact absurd hs.symm (hcall t)

/-- A call under way takes a step. -/
theorem Completes.exists_step {ok : σ → ι → Prop} {r : τ × List ω} (h : M.Completes ok rest s r)
    (hcall : ∀ t, s ≠ rest t) : ∃ e s' out r', ok s e ∧ M.step s e = some (s', out) ∧
      M.Completes ok rest s' r' ∧ r = (r'.1, out ++ r'.2) := by
  cases h with
  | done t => exact absurd rfl (hcall t)
  | step _ hok hs h => exact ⟨_, _, _, _, hok, hs, h, rfl⟩

/-- If every call is a step of `N`, every serial run of `M` that ends between calls is a run of `N`
with the same outputs. -/
theorem Reaches.exists_run_of_rest {ok : σ → ι → Prop} (hinj : Function.Injective rest)
    (hinit : M.init = rest N.init)
    (hcall : ∀ {t e s' out r}, ok (rest t) e → M.step (rest t) e = some (s', out) →
      M.Completes ok rest s' r → ∃ k, N.step t k = some (r.1, out ++ r.2))
    {t : τ} (h : M.Reaches (fun s _ e => ok s e) es (rest t) tr) : ∃ ks, N.Run ks t tr := by
  -- along the run: what the calls so far amount to, and that any end of the next one is a step
  let I (s : σ) (tr : List ω) : Prop := ∃ t₀ ks tr₀ out, N.Run ks t₀ tr₀ ∧ tr = tr₀ ++ out ∧
    ((s = rest t₀ ∧ out = []) ∨ (∀ t, s ≠ rest t) ∧
      ∀ r, M.Completes ok rest s r → ∃ k, N.step t₀ k = some (r.1, out ++ r.2))
  have hI : I (rest t) tr := by
    refine h.invariant I ⟨N.init, [], [], [], .init, rfl, Or.inl ⟨hinit, rfl⟩⟩ ?_
    rintro es s tr e s' out' - ⟨t₀, ks, tr₀, out, hrun, rfl, hs₀⟩ hok hs
    have hends : ∀ r, M.Completes ok rest s' r →
        ∃ k, N.step t₀ k = some (r.1, (out ++ out') ++ r.2) := by
      intro r hr
      rcases hs₀ with ⟨rfl, rfl⟩ | ⟨hmid, hends⟩
      · exact hcall hok hs hr
      · rw [List.append_assoc]
        exact hends _ (.step hmid hok hs hr)
    by_cases hrest : ∃ t, s' = rest t
    · obtain ⟨t', rfl⟩ := hrest
      obtain ⟨k, hk⟩ := hends _ (.done t')
      rw [List.append_nil] at hk
      exact ⟨t', ks ++ [k], _, [], hrun.step trivial hk, by simp, Or.inl ⟨rfl, rfl⟩⟩
    · exact ⟨t₀, ks, tr₀, out ++ out', hrun, by rw [List.append_assoc],
        Or.inr ⟨fun t ht => hrest ⟨t, ht⟩, hends⟩⟩
  obtain ⟨t₀, ks, tr₀, out, hrun, rfl, ⟨hs, rfl⟩ | ⟨hmid, -⟩⟩ := hI
  · rw [List.append_nil, hinj hs]
    exact ⟨ks, hrun⟩
  · exact absurd rfl (hmid t)

end Machine
