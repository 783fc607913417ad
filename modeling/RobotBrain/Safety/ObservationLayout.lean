import RobotBrain.Brain.Control
import RobotBrain.Infra.Config
import Mathlib.Data.List.Nodup

/-!
# The layout of the observation under a loaded configuration

`BuildObservation` writes three blocks of `num_joints` values at the fixed indices 9, 21 and 33, and
the clock at 45 and 46, into a buffer of `obs_dim` values. The number of joints and the size of the
buffer are separate entries of the configuration. `LoadConfig` checks the number of default
positions against the number of joints, and neither of the two against the layout.

## Main definitions

* `observationIndices` — the indices that are written, in order.
* `BrainConfig.LayoutSafe` — every value is written inside the buffer, to an index of its own.

## Main results

* `BrainConfig.layoutSafe_iff` — at most 12 joints and at least 47 values.
* `loadConfig_layoutSafe_iff` — the same for the configurations that are loaded.
-/

namespace RobotBrain

open ExtNum

variable {n : ℕ}

/-- The indices that `BuildObservation` writes for `n` joints. -/
def observationIndices (n : ℕ) : List ℕ :=
  List.range 9 ++ (List.range n).map (9 + ·) ++ (List.range n).map (21 + ·) ++
    (List.range n).map (33 + ·) ++ [45, 46]

theorem map_fst_observationWrites (cfg : BrainConfig n) (prop : Proprioception n)
    (velCmd : Velocity) (prevActions : Fin n → Scalar) (sinPhase cosPhase : Scalar) :
    (observationWrites cfg prop velCmd prevActions sinPhase cosPhase).map Prod.fst =
      observationIndices n := by
  have hrange : List.range n = (List.finRange n).map Fin.val := List.map_coe_finRange_eq_range.symm
  simp only [observationWrites, observationIndices, List.map_append, List.map_map, hrange,
    Function.comp_def, List.map_cons, List.map_nil]
  rfl

/-- The indices of a block. -/
theorem mem_map_range_add {start i : ℕ} :
    i ∈ (List.range n).map (start + ·) ↔ start ≤ i ∧ i < start + n := by
  rw [List.mem_map]
  constructor
  · rintro ⟨j, hj, rfl⟩
    rw [List.mem_range] at hj
    omega
  · rintro ⟨hlo, hhi⟩
    exact ⟨i - start, List.mem_range.mpr (by omega), by omega⟩

theorem mem_observationIndices {i : ℕ} : i ∈ observationIndices n ↔
    (((i < 9 ∨ (9 ≤ i ∧ i < 9 + n)) ∨ (21 ≤ i ∧ i < 21 + n)) ∨ (33 ≤ i ∧ i < 33 + n)) ∨
      i = 45 ∨ i = 46 := by
  simp only [observationIndices, List.mem_append, List.mem_range, mem_map_range_add,
    List.mem_cons, List.not_mem_nil, or_false]

/-- From 13 joints on, the last position and the first velocity have one index. -/
theorem nodup_observationIndices_iff : (observationIndices n).Nodup ↔ n ≤ 12 := by
  have hblock (start : ℕ) : ((List.range n).map (start + ·)).Nodup :=
    List.nodup_range.map (add_right_injective start)
  simp only [observationIndices, List.nodup_append, hblock, List.nodup_range, List.mem_append,
    List.mem_range, mem_map_range_add, List.mem_cons, List.not_mem_nil, or_false, true_and]
  constructor
  · rintro ⟨⟨⟨-, hvelocities⟩, -⟩, -⟩
    by_contra hn
    exact hvelocities 21 (Or.inr ⟨by omega, by omega⟩) 21 ⟨by omega, by omega⟩ rfl
  · intro hn
    refine ⟨⟨⟨?_, ?_⟩, ?_⟩, by simp, ?_⟩
    all_goals
      intro i hi j hj
      omega

/-- The clock is always written; the blocks stay below it up to 12 joints. -/
theorem lt_of_mem_observationIndices (hn : n ≤ 12) {i : ℕ} (hi : i ∈ observationIndices n) :
    i < 47 := by
  rw [mem_observationIndices] at hi
  omega

/-- For every frame, `BuildObservation` writes a value for each component, inside the buffer and at
an index of its own, so that every component can be read back. -/
structure BrainConfig.LayoutSafe (cfg : BrainConfig n) : Prop where
  components : ∀ prop velCmd prevActions sinPhase cosPhase,
    (observationWrites cfg prop velCmd prevActions sinPhase cosPhase).length =
      3 + 3 + 3 + 3 * n + 2
  inside : ∀ prop velCmd prevActions sinPhase cosPhase,
    ∀ w ∈ observationWrites cfg prop velCmd prevActions sinPhase cosPhase, w.1 < cfg.obsDim
  distinct : ∀ prop velCmd prevActions sinPhase cosPhase,
    ((observationWrites cfg prop velCmd prevActions sinPhase cosPhase).map Prod.fst).Nodup
  readBack : ∀ prop velCmd prevActions sinPhase cosPhase (buffer : List Scalar),
    buffer.length = cfg.obsDim →
      ∀ w ∈ observationWrites cfg prop velCmd prevActions sinPhase cosPhase,
        (writeAll (observationWrites cfg prop velCmd prevActions sinPhase cosPhase) buffer)[w.1]? =
          some w.2

/-- The layout is that of 12 joints and of 47 values. -/
theorem BrainConfig.layoutSafe_iff (cfg : BrainConfig n) :
    cfg.LayoutSafe ↔ n ≤ 12 ∧ 47 ≤ cfg.obsDim := by
  constructor
  · intro h
    have hinside := h.inside (upright cfg) (fun _ => fin 0) (fun _ => fin 0) (fin 0) (fin 1)
    have hdistinct := h.distinct (upright cfg) (fun _ => fin 0) (fun _ => fin 0) (fin 0) (fin 1)
    rw [map_fst_observationWrites, nodup_observationIndices_iff] at hdistinct
    have hclock := hinside (46, fin 1) (List.mem_append_right _ (by simp))
    exact ⟨hdistinct, hclock⟩
  · rintro ⟨hn, hdim⟩
    have hinside : ∀ prop velCmd prevActions sinPhase cosPhase,
        ∀ w ∈ observationWrites cfg prop velCmd prevActions sinPhase cosPhase,
          w.1 < cfg.obsDim := by
      intro prop velCmd prevActions sinPhase cosPhase w hw
      have hindex : w.1 ∈ observationIndices n :=
        map_fst_observationWrites cfg prop velCmd prevActions sinPhase cosPhase ▸
          List.mem_map_of_mem hw
      exact (lt_of_mem_observationIndices hn hindex).trans_le hdim
    have hdistinct : ∀ prop velCmd prevActions sinPhase cosPhase,
        ((observationWrites cfg prop velCmd prevActions sinPhase cosPhase).map Prod.fst).Nodup := by
      intro prop velCmd prevActions sinPhase cosPhase
      rw [map_fst_observationWrites]
      exact nodup_observationIndices_iff.mpr hn
    refine ⟨?_, hinside, hdistinct, ?_⟩
    · intro prop velCmd prevActions sinPhase cosPhase
      simp only [observationWrites, List.length_append, List.length_cons, List.length_nil,
        List.length_map, List.length_finRange]
      omega
    · intro prop velCmd prevActions sinPhase cosPhase buffer hbuffer w hw
      exact getElem?_writeAll (hdistinct _ _ _ _ _) hw (hbuffer ▸ hinside _ _ _ _ _ w hw)

/-- A configuration that is loaded has a safe layout if and only if it has at most 12 joints and
`obs_dim` is at least 47. -/
theorem loadConfig_layoutSafe_iff {Node : Type} {yaml : YamlLibrary Node}
    {file : Except YamlException Node} {c : AppConfig} (h : loadConfig yaml file = .ok c) :
    (c.brainConfig (wellFormed_of_loadConfig h)).LayoutSafe ↔ c.numJoints ≤ 12 ∧ 47 ≤ c.obsDim := by
  have hjoints := (wellFormed_of_loadConfig h).numJoints_nonneg
  rw [BrainConfig.layoutSafe_iff]
  show c.numJoints.toNat ≤ 12 ∧ 47 ≤ c.obsDim.toNat ↔ _
  omega

/-! ### Two files -/

/-- The nodes of a file with the section `ai_brain` and two sizes in it. -/
private inductive SizesNode
  | root (numJoints obsDim : ℤ)
  | section (numJoints obsDim : ℤ)
  | size (value : ℤ)
  | undefined

/-- The library on such a file. -/
private def sizesLibrary : YamlLibrary SizesNode where
  subscript
    | .root numJoints obsDim, "ai_brain" => .ok (.section numJoints obsDim)
    | .section numJoints _, "num_joints" => .ok (.size numJoints)
    | .section _ obsDim, "obs_dim" => .ok (.size obsDim)
    | .size _, _ => .error .badSubscript
    | _, _ => .ok .undefined
  isDefined
    | .undefined => false
    | _ => true
  asString _ fallback := fallback
  asInt
    | .size value, _ => value
    | _, fallback => fallback
  asInt64 _ fallback := fallback
  asFloat _ fallback := fallback
  asBool _ fallback := fallback
  floats _ := .error .badConversion

/-- The configuration of such a file. -/
private def sizesConfig (numJoints obsDim : ℤ) : AppConfig :=
  { numJoints := numJoints
    obsDim := obsDim
    defaultJointPositions := List.replicate numJoints.toNat (fin 0) }

theorem loadConfig_layoutSafe_shipped :
    ∃ h : loadConfig sizesLibrary (.ok (.root 12 47)) = .ok (sizesConfig 12 47),
      ((sizesConfig 12 47).brainConfig (wellFormed_of_loadConfig h)).LayoutSafe :=
  have h : loadConfig sizesLibrary (.ok (.root 12 47)) = .ok (sizesConfig 12 47) := by rfl
  ⟨h, (loadConfig_layoutSafe_iff h).mpr ⟨by decide, by decide⟩⟩

/-- With `obs_dim` 46 the file is accepted and the cosine of the clock is written behind the
buffer. -/
theorem exists_loadConfig_not_layoutSafe :
    ∃ h : loadConfig sizesLibrary (.ok (.root 12 46)) = .ok (sizesConfig 12 46),
      ¬((sizesConfig 12 46).brainConfig (wellFormed_of_loadConfig h)).LayoutSafe := by
  have h : loadConfig sizesLibrary (.ok (.root 12 46)) = .ok (sizesConfig 12 46) := by rfl
  refine ⟨h, fun hsafe => ?_⟩
  have hdim : 47 ≤ (46 : ℤ).toNat := ((BrainConfig.layoutSafe_iff _).mp hsafe).2
  exact absurd hdim (by decide)

end RobotBrain
