import Mathlib.Data.List.Infix
import Mathlib.Data.Option.Basic

/-!
# Machines driven by inputs, and their runs

A `Machine` moves from state to state under inputs and emits a list of outputs at every step; an
input that is not enabled gives no step. Concurrent programs fit this form with an input that names
the thread to move, so that a list of inputs is one interleaving.

`Machine.Reaches ok es s tr` says that the inputs `es` take the machine from its initial state to
`s`, emitting `tr`, and that every step meets the condition `ok` on the state before it, the outputs
so far and the input. `Machine.Run` is the case without a condition.

## Main definitions

* `Machine`, `Machine.Reaches`, `Machine.Run`, `Machine.exec`.
* `Machine.withRecord` — the machine with an auxiliary variable.
* `Machine.follow`, `Machine.Leads` — steps from any state.

## Main results

* `Machine.Reaches.invariant` — a property kept by the steps that meet the condition holds in every
  state reached.
* `Machine.Reaches.forall_prefix`, `Machine.Reaches.of_forall_prefix` — from a condition on the
  steps of a run to a property of all states along it, and back.
* `Machine.Reaches.of_backward` — from a property of the last state to a condition on the steps.
* `Machine.run_iff_exists_of_map` — runs along a function of the states.
* `Machine.exists_reaches`, `Machine.exists_reaches_of_decide` — a run found by evaluation.
* `Machine.Run.simulate` — a relation matched step by step carries runs of one machine to runs of
  another with the same outputs.
-/

/-- A machine with states `σ`, inputs `ι` and outputs `ω`. -/
structure Machine (σ ι ω : Type*) where
  /-- The initial state. -/
  init : σ
  /-- The state after an input and the outputs emitted, `none` when the input is not enabled. -/
  step : σ → ι → Option (σ × List ω)

namespace Machine

variable {σ ι ω : Type*} {M : Machine σ ι ω} {ok : σ → List ω → ι → Prop}
  {es : List ι} {s : σ} {tr : List ω}

/-- The inputs `es` lead from the initial state to `s` with outputs `tr`, and every step meets the
condition `ok` on the state before it, the outputs so far and the input. -/
inductive Reaches (M : Machine σ ι ω) (ok : σ → List ω → ι → Prop) :
    List ι → σ → List ω → Prop
  | init : Reaches M ok [] M.init []
  | step {es s tr e s' out} (h : Reaches M ok es s tr) (hok : ok s tr e)
      (hs : M.step s e = some (s', out)) : Reaches M ok (es ++ [e]) s' (tr ++ out)

/-- The runs of a machine, with no condition on the steps. -/
abbrev Run (M : Machine σ ι ω) : List ι → σ → List ω → Prop :=
  M.Reaches fun _ _ _ => True

/-! ### Invariants -/

/-- A property of the state and of the outputs so far holds in every state reached if it holds
initially and every step that meets the condition keeps it. -/
theorem Reaches.invariant (I : σ → List ω → Prop) (h0 : I M.init [])
    (hstep : ∀ {es s tr e s' out}, M.Reaches ok es s tr → I s tr → ok s tr e →
      M.step s e = some (s', out) → I s' (tr ++ out))
    (h : M.Reaches ok es s tr) : I s tr := by
  induction h with
  | init => exact h0
  | step h hok hs ih => exact hstep h ih hok hs

theorem Reaches.run (h : M.Reaches ok es s tr) : M.Run es s tr := by
  induction h with
  | init => exact .init
  | step _ _ hs ih => exact ih.step trivial hs

/-- The last step of a run. -/
theorem reaches_concat {e : ι} {s' : σ} {tr' : List ω} : M.Reaches ok (es ++ [e]) s' tr' ↔
    ∃ s tr out, M.Reaches ok es s tr ∧ ok s tr e ∧ M.step s e = some (s', out) ∧
      tr' = tr ++ out := by
  constructor
  · intro h
    generalize hes : es ++ [e] = es' at h
    cases h with
    | init => simp at hes
    | step h hok hs =>
      obtain ⟨rfl, he⟩ := List.append_inj' hes rfl
      obtain rfl : e = _ := List.singleton_inj.mp he
      exact ⟨_, _, _, h, hok, hs, rfl⟩
  · rintro ⟨s, tr, out, h, hok, hs, rfl⟩
    exact h.step hok hs

/-- A machine is deterministic: the inputs fix the state and the outputs. -/
theorem Reaches.unique {ok' : σ → List ω → ι → Prop} {s' : σ} {tr' : List ω}
    (h : M.Reaches ok es s tr) (h' : M.Reaches ok' es s' tr') : s = s' ∧ tr = tr' := by
  induction h generalizing s' tr' with
  | init =>
    generalize hes : ([] : List ι) = es' at h'
    cases h' with
    | init => exact ⟨rfl, rfl⟩
    | step => simp at hes
  | step h _ hs ih =>
    obtain ⟨_, _, _, hprev, _, hs', rfl⟩ := reaches_concat.mp h'
    obtain ⟨rfl, rfl⟩ := ih hprev
    rw [hs] at hs'
    cases hs'
    exact ⟨rfl, rfl⟩

/-- A property of the states that a condition on the steps leads to holds all along such a run. -/
theorem Reaches.forall_prefix {P : σ → List ω → Prop}
    (hP : ∀ es s tr, M.Reaches ok es s tr → P s tr)
    (h : M.Reaches ok es s tr) {es' : List ι} {s' : σ} {tr' : List ω} (hpre : es' <+: es)
    (hrun : M.Run es' s' tr') : P s' tr' := by
  induction h with
  | init =>
    obtain rfl := List.prefix_nil.mp hpre
    have hinit : M.Reaches ok [] M.init [] := .init
    obtain ⟨rfl, rfl⟩ := hinit.unique hrun
    exact hP _ _ _ hinit
  | step h hok hs ih =>
    rcases List.prefix_concat_iff.mp hpre with rfl | hpre
    · obtain ⟨rfl, rfl⟩ := (h.step hok hs).unique hrun
      exact hP _ _ _ (h.step hok hs)
    · exact ih hpre

/-- If a step from a state with the property `I` that leads to one with the property `P` meets the
condition `ok` and keeps `I`, then a run along which `P` holds meets the condition at every step.
The runs may be restricted beforehand to those whose steps meet `dom`. -/
theorem Reaches.of_forall_prefix {dom : σ → List ω → ι → Prop} (I P : σ → List ω → Prop)
    (h0 : I M.init [])
    (hstep : ∀ {es s tr e s' out}, M.Reaches dom es s tr → I s tr → dom s tr e →
      M.step s e = some (s', out) → P s' (tr ++ out) → ok s tr e ∧ I s' (tr ++ out))
    (h : M.Reaches dom es s tr)
    (hall : ∀ es' s' tr', es' <+: es → M.Run es' s' tr' → P s' tr') :
    M.Reaches ok es s tr ∧ I s tr := by
  induction h with
  | init => exact ⟨.init, h0⟩
  | @step es s tr e s' out h hdom hs ih =>
    have hpre : es <+: es ++ [e] := List.prefix_append es [e]
    obtain ⟨hreach, hI⟩ := ih fun es' s' tr' hpre' => hall es' s' tr' (hpre'.trans hpre)
    have hP := hall _ _ _ List.prefix_rfl (h.run.step trivial hs)
    obtain ⟨hok, hI'⟩ := hstep h hI hdom hs hP
    exact ⟨hreach.step hok hs, hI'⟩

/-- If every step to a state with the property `I` meets the condition `ok` and starts from a state
with the property `I`, then a run to such a state meets the condition at every step. -/
theorem Reaches.of_backward {dom : σ → List ω → ι → Prop} (I : σ → List ω → Prop)
    (hstep : ∀ {es s tr e s' out}, M.Reaches dom es s tr → dom s tr e →
      M.step s e = some (s', out) → I s' (tr ++ out) → I s tr ∧ ok s tr e)
    (h : M.Reaches dom es s tr) (hI : I s tr) : M.Reaches ok es s tr := by
  induction h with
  | init => exact .init
  | step h hdom hs ih =>
    obtain ⟨hprev, hok⟩ := hstep h hdom hs hI
    exact (ih hprev).step hok hs

/-! ### Auxiliary variables -/

/-- The machine with a record of its steps that no step reads: the state before a step, its input,
the state after it and the record so far give the next record. -/
def withRecord {γ : Type*} (M : Machine σ ι ω) (g₀ : γ) (record : σ → ι → σ → γ → γ) :
    Machine (σ × γ) ι ω where
  init := (M.init, g₀)
  step s e := (M.step s.1 e).map fun r => ((r.1, record s.1 e r.1 s.2), r.2)

theorem step_withRecord {γ : Type*} {g₀ : γ} {record : σ → ι → σ → γ → γ} {g : γ} {e : ι}
    {r : (σ × γ) × List ω} : (M.withRecord g₀ record).step (s, g) e = some r ↔
      ∃ s' out, M.step s e = some (s', out) ∧ r = ((s', record s e s' g), out) := by
  rw [withRecord, Option.map_eq_some_iff]
  constructor
  · rintro ⟨⟨s', out⟩, hs, rfl⟩
    exact ⟨s', out, hs, rfl⟩
  · rintro ⟨s', out, hs, rfl⟩
    exact ⟨(s', out), hs, rfl⟩

/-- A record adds and removes no runs. -/
theorem run_iff_exists_withRecord {γ : Type*} (g₀ : γ) (record : σ → ι → σ → γ → γ) :
    M.Run es s tr ↔ ∃ g, (M.withRecord g₀ record).Run es (s, g) tr := by
  constructor
  · intro h
    induction h with
    | init => exact ⟨g₀, .init⟩
    | step _ _ hs ih =>
      obtain ⟨g, hrun⟩ := ih
      exact ⟨_, hrun.step trivial (step_withRecord.mpr ⟨_, _, hs, rfl⟩)⟩
  · rintro ⟨g, h⟩
    generalize hsg : (s, g) = sg at h
    induction h generalizing s g with
    | init =>
      cases hsg
      exact .init
    | @step es sg' _ _ _ _ _ _ hs ih =>
      obtain ⟨s', out, hstep, hr⟩ := step_withRecord.mp hs
      subst hsg
      cases hr
      exact (ih _ rfl).step trivial hstep

/-- A function that carries the steps of one machine to those of another carries its runs to runs on
the same inputs, and every run of the other one comes from one of them. -/
theorem run_iff_exists_of_map {τ : Type*} {N : Machine τ ι ω} {f : σ → τ} (h0 : f M.init = N.init)
    (hstep : ∀ s e, N.step (f s) e = (M.step s e).map fun r => (f r.1, r.2)) {t : τ} :
    N.Run es t tr ↔ ∃ s, M.Run es s tr ∧ f s = t := by
  constructor
  · intro h
    induction h with
    | init => exact ⟨M.init, .init, h0⟩
    | step _ _ hs ih =>
      obtain ⟨s, hrun, rfl⟩ := ih
      rw [hstep, Option.map_eq_some_iff] at hs
      obtain ⟨⟨s', out⟩, hs', heq⟩ := hs
      cases heq
      exact ⟨s', hrun.step trivial hs', rfl⟩
  · rintro ⟨s, h, rfl⟩
    induction h with
    | init => exact h0.symm ▸ .init
    | step _ _ hs ih => exact ih.step trivial (by rw [hstep, hs]; rfl)

/-! ### Evaluation -/

/-- Run the machine from a state on a list of inputs, checking the condition at every step; the
outputs are added to `tr`. -/
def exec (M : Machine σ ι ω) (ok : σ → List ω → ι → Prop) [∀ s tr e, Decidable (ok s tr e)] :
    σ → List ω → List ι → Option (σ × List ω)
  | s, tr, [] => some (s, tr)
  | s, tr, e :: es =>
    if ok s tr e then
      match M.step s e with
      | none => none
      | some (s', out) => exec M ok s' (tr ++ out) es
    else none

theorem Reaches.exec [∀ s tr e, Decidable (ok s tr e)] {es' : List ι} {s' : σ} {tr' : List ω}
    (h : M.Reaches ok es s tr) (he : M.exec ok s tr es' = some (s', tr')) :
    M.Reaches ok (es ++ es') s' tr' := by
  induction es' generalizing es s tr with
  | nil =>
    cases he
    rwa [List.append_nil]
  | cons e es' ih =>
    unfold Machine.exec at he
    split at he
    · rename_i hok
      cases hs : M.step s e with
      | none => simp [hs] at he
      | some p =>
        rw [hs] at he
        rw [List.append_cons]
        exact ih (h.step hok hs) he
    · cases he

/-- A run found by evaluating the machine on given inputs. -/
theorem exists_reaches [∀ s tr e, Decidable (ok s tr e)] {p : σ → List ω → Bool} (es : List ι)
    (h : (M.exec ok M.init [] es).any (fun x => p x.1 x.2) = true) :
    ∃ s tr, M.Reaches ok es s tr ∧ p s tr = true := by
  cases he : M.exec ok M.init [] es with
  | none => simp [he] at h
  | some x =>
    rw [he] at h
    exact ⟨x.1, x.2, Reaches.exec .init he, h⟩

/-- A run found by evaluating the machine on given inputs, to a state with a decidable property. -/
theorem exists_reaches_of_decide [∀ s tr e, Decidable (ok s tr e)] {P : σ → List ω → Prop}
    [∀ s tr, Decidable (P s tr)] (es : List ι)
    (h : (M.exec ok M.init [] es).any (fun x => decide (P x.1 x.2)) = true) :
    ∃ s tr, M.Reaches ok es s tr ∧ P s tr := by
  obtain ⟨s, tr, hreach, hP⟩ := exists_reaches (p := fun s tr => decide (P s tr)) es h
  exact ⟨s, tr, hreach, of_decide_eq_true hP⟩

/-! ### Simulation -/

/-- Run the machine from a state on a list of inputs, collecting the outputs. -/
def follow (M : Machine σ ι ω) : σ → List ι → Option (σ × List ω)
  | s, [] => some (s, [])
  | s, e :: es =>
    match M.step s e with
    | none => none
    | some (s', out) => (M.follow s' es).map fun r => (r.1, out ++ r.2)

theorem follow_cons {s s' s'' : σ} {e : ι} {es : List ι} {out out' : List ω}
    (h : M.step s e = some (s', out)) (h' : M.follow s' es = some (s'', out')) :
    M.follow s (e :: es) = some (s'', out ++ out') := by
  simp only [follow, h, h', Option.map_some]

theorem follow_append {s s' s'' : σ} {es es' : List ι} {out out' : List ω}
    (h : M.follow s es = some (s', out)) (h' : M.follow s' es' = some (s'', out')) :
    M.follow s (es ++ es') = some (s'', out ++ out') := by
  induction es generalizing s out with
  | nil =>
    cases h
    exact h'
  | cons e es ih =>
    rw [List.cons_append]
    unfold follow at h ⊢
    cases hs : M.step s e with
    | none => simp [hs] at h
    | some r =>
      simp only [hs, Option.map_eq_some_iff] at h ⊢
      obtain ⟨r', hr', heq⟩ := h
      cases heq
      exact ⟨_, ih hr', by rw [List.append_assoc]⟩

/-- If from every state with a property the inputs `block c` lead to the state `f s c`, then the
blocks of a list lead to the state that `f` makes of the list. The property may count the blocks. -/
theorem follow_flatMap {γ : Type*} {block : γ → List ι} {f : σ → γ → σ} {P : ℕ → σ → Prop}
    (hblock : ∀ k s c, P k s → ∃ out, M.follow s (block c) = some (f s c, out) ∧ P (k + 1) (f s c))
    (cs : List γ) {k : ℕ} {s : σ} (h : P k s) :
    ∃ out, M.follow s (cs.flatMap block) = some (cs.foldl f s, out) ∧
      P (k + cs.length) (cs.foldl f s) := by
  induction cs generalizing k s with
  | nil => exact ⟨[], rfl, h⟩
  | cons c cs ih =>
    obtain ⟨out, hfollow, hP⟩ := hblock k s c h
    obtain ⟨out', hfollow', hP'⟩ := ih hP
    refine ⟨out ++ out', follow_append hfollow hfollow', ?_⟩
    rw [List.length_cons, Nat.add_comm cs.length, ← Nat.add_assoc]
    exact hP'

theorem Reaches.follow {s' : σ} {es' : List ι} {out : List ω} (h : M.Run es s tr)
    (hf : M.follow s es' = some (s', out)) : M.Run (es ++ es') s' (tr ++ out) := by
  induction es' generalizing es s tr out with
  | nil =>
    cases hf
    rwa [List.append_nil, List.append_nil]
  | cons e es' ih =>
    unfold Machine.follow at hf
    cases hs : M.step s e with
    | none => simp [hs] at hf
    | some r =>
      simp only [hs, Option.map_eq_some_iff] at hf
      obtain ⟨r', hr', heq⟩ := hf
      cases heq
      rw [List.append_cons, ← List.append_assoc]
      exact ih (h.step trivial hs) hr'

/-- Some inputs lead from the state `s` to `s'`, emitting `out`. -/
def Leads (M : Machine σ ι ω) (s s' : σ) (out : List ω) : Prop :=
  ∃ es, M.follow s es = some (s', out)

theorem leads_of_step {s s' : σ} {e : ι} {out : List ω} (h : M.step s e = some (s', out)) :
    M.Leads s s' out := by
  refine ⟨[e], ?_⟩
  rw [follow_cons h rfl, List.append_nil]

theorem Leads.trans {s s' s'' : σ} {out out' : List ω} (h : M.Leads s s' out)
    (h' : M.Leads s' s'' out') : M.Leads s s'' (out ++ out') := by
  obtain ⟨es, hes⟩ := h
  obtain ⟨es', hes'⟩ := h'
  exact ⟨es ++ es', follow_append hes hes'⟩

theorem Leads.trans_silent {s s' s'' : σ} {out : List ω} (h : M.Leads s s' out)
    (h' : M.Leads s' s'' []) : M.Leads s s'' out := by
  have hleads := h.trans h'
  rwa [List.append_nil] at hleads

/-- If every step of `M` is matched, from related states, by steps of `N` with the same outputs,
then every run of `M` is matched by a run of `N` with the same outputs. -/
theorem Run.simulate {τ κ : Type*} {N : Machine τ κ ω} (R : σ → τ → Prop) (h0 : R M.init N.init)
    (hstep : ∀ {s t e s' out}, R s t → M.step s e = some (s', out) →
      ∃ t', N.Leads t t' out ∧ R s' t')
    (h : M.Run es s tr) : ∃ ks t, N.Run ks t tr ∧ R s t := by
  induction h with
  | init => exact ⟨[], N.init, .init, h0⟩
  | step _ _ hs ih =>
    obtain ⟨ks, t, hrun, hR⟩ := ih
    obtain ⟨t', ⟨ks', hfollow⟩, hR'⟩ := hstep hR hs
    exact ⟨ks ++ ks', t', hrun.follow hfollow, hR'⟩

end Machine
