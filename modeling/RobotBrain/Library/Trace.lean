import RobotBrain.Library.Machine

/-!
# Properties of traces that look back

A safety property of a trace says of every entry how it relates to the entries before it. `Each P`
states this for a relation `P` between the past and an entry; it can be evaluated, and it splits
along the trace. Often only the last entry of some kind matters among those before.

## Main definitions

* `Each P tr` — every entry of `tr` satisfies `P` relative to the entries before it.
* `NotAfter a b tr` — in `tr` no entry `b` comes after an entry `a`.
* `latest f tr` — the last value that `f` reads off an entry of `tr`.

## Main results

* `each_append`, `each_cons` — splitting a trace.
* `each_iff_forall_eq` — the property in terms of decompositions of the trace.
* `Machine.Reaches.each_iff` — a condition on the steps of a run that amounts to a property of the
  outputs of each step amounts to it along the run.
-/

variable {ω β : Type*}

/-- Every entry satisfies `P` relative to the entries before it. -/
def Each (P : List ω → ω → Prop) : List ω → Prop
  | [] => True
  | o :: tr => P [] o ∧ Each (fun past => P (o :: past)) tr

@[simp] theorem each_nil (P : List ω → ω → Prop) : Each P [] := trivial

@[simp] theorem each_cons {P : List ω → ω → Prop} {o : ω} {tr : List ω} :
    Each P (o :: tr) ↔ P [] o ∧ Each (fun past => P (o :: past)) tr :=
  Iff.rfl

theorem each_append {P : List ω → ω → Prop} {tr out : List ω} :
    Each P (tr ++ out) ↔ Each P tr ∧ Each (fun past => P (tr ++ past)) out := by
  induction tr generalizing P with
  | nil => simp
  | cons o tr ih =>
    simp only [List.cons_append, each_cons, ih, and_assoc]

theorem each_concat {P : List ω → ω → Prop} {tr : List ω} {o : ω} :
    Each P (tr ++ [o]) ↔ Each P tr ∧ P tr o := by
  rw [each_append, each_cons, List.append_nil, and_iff_left (each_nil _)]

theorem each_iff_forall_eq {P : List ω → ω → Prop} {tr : List ω} :
    Each P tr ↔ ∀ past o rest, tr = past ++ o :: rest → P past o := by
  constructor
  · rintro h past o rest rfl
    rw [List.append_cons, each_append, each_concat] at h
    exact h.1.2
  · intro h
    induction tr generalizing P with
    | nil => trivial
    | cons o tr ih =>
      refine ⟨h [] o tr rfl, ih fun past o' rest heq => ?_⟩
      exact h (o :: past) o' rest (by rw [heq]; rfl)

instance decidableEach (P : List ω → ω → Prop) [∀ past o, Decidable (P past o)] :
    ∀ tr, Decidable (Each P tr)
  | [] => isTrue trivial
  | o :: tr =>
    have : Decidable (Each (fun past => P (o :: past)) tr) := decidableEach _ tr
    inferInstanceAs (Decidable (P [] o ∧ _))

/-! ### Entries out of order -/

/-- No entry `b` comes after an entry `a`. -/
def NotAfter (a b : ω) : List ω → Prop :=
  Each fun past o => o = b → a ∉ past

instance [DecidableEq ω] (a b : ω) (tr : List ω) : Decidable (NotAfter a b tr) :=
  inferInstanceAs (Decidable (Each _ tr))

/-- Outputs of one kind are added to a trace. -/
theorem notAfter_append {a b : ω} {tr out : List ω} (hout : a ∈ out → b ∉ out) :
    NotAfter a b (tr ++ out) ↔ NotAfter a b tr ∧ (b ∈ out → a ∉ tr) := by
  rw [NotAfter, each_append]
  refine and_congr_right fun _ => ⟨fun h hb hmem => ?_, fun h => each_iff_forall_eq.mpr ?_⟩
  · obtain ⟨past, rest, heq⟩ := List.append_of_mem hb
    exact each_iff_forall_eq.mp h past b rest heq rfl (List.mem_append_left _ hmem)
  · rintro past o rest rfl rfl hmem
    have hb : o ∈ past ++ o :: rest := List.mem_append_right _ List.mem_cons_self
    rcases List.mem_append.mp hmem with hmem | hmem
    · exact h hb hmem
    · exact hout (List.mem_append_left _ hmem) hb

/-! ### The latest value of a kind -/

/-- The last value that `f` reads off an entry of the trace. -/
def latest (f : ω → Option β) (tr : List ω) : Option β :=
  (tr.filterMap f).getLast?

@[simp] theorem latest_nil (f : ω → Option β) : latest f [] = none := rfl

@[simp] theorem latest_append (f : ω → Option β) (tr out : List ω) :
    latest f (tr ++ out) = (latest f out).or (latest f tr) := by
  rw [latest, List.filterMap_append, List.getLast?_append]
  rfl

@[simp] theorem latest_cons (f : ω → Option β) (o : ω) (tr : List ω) :
    latest f (o :: tr) = (latest f tr).or (f o) := by
  rw [← List.singleton_append, latest_append]
  cases h : f o <;> simp [latest, h]

/-- Entries without a value do not change the latest one. -/
theorem latest_append_of_forall_eq_none {f : ω → Option β} {out : List ω}
    (hout : ∀ o ∈ out, f o = none) (tr : List ω) : latest f (tr ++ out) = latest f tr := by
  have hnone : latest f out = none := by
    rw [latest, List.filterMap_eq_nil_iff.mpr hout]
    rfl
  rw [latest_append, hnone, Option.none_or]

theorem getD_latest_append (f : ω → Option β) (tr out : List ω) (d : β) :
    (latest f (tr ++ out)).getD d = (latest f out).getD ((latest f tr).getD d) := by
  rw [latest_append]
  cases latest f out <;> rfl

theorem getD_latest_concat (f : ω → Option β) (tr : List ω) (o : ω) (d : β) :
    (latest f (tr ++ [o])).getD d = (f o).getD ((latest f tr).getD d) := by
  rw [getD_latest_append, latest_cons, latest_nil, Option.none_or]

/-! ### Traces of machines -/

/-- If at every step of a kind of run a condition on the step is equivalent to the property of the
outputs of the step, then the steps of such a run meet the condition exactly if its trace has the
property. -/
theorem Machine.Reaches.each_iff {σ ι : Type*} {M : Machine σ ι ω}
    {dom ok : σ → List ω → ι → Prop} {P : List ω → ω → Prop}
    (hstep : ∀ {es s tr e s' out}, M.Reaches dom es s tr → dom s tr e →
      M.step s e = some (s', out) → (ok s tr e ↔ Each (fun past => P (tr ++ past)) out))
    {es : List ι} {s : σ} {tr : List ω} (h : M.Reaches dom es s tr) :
    M.Reaches ok es s tr ↔ Each P tr := by
  induction h with
  | init => exact ⟨fun _ => trivial, fun _ => .init⟩
  | step h hdom hs ih =>
    rw [each_append, ← ih, ← hstep h hdom hs]
    constructor
    · intro h'
      obtain ⟨_, _, _, hprev, hok, -, -⟩ := reaches_concat.mp h'
      obtain ⟨rfl, rfl⟩ := h.unique hprev
      exact ⟨hprev, hok⟩
    · rintro ⟨h', hok⟩
      exact h'.step hok hs
