import RobotBrain.Brain.Control
import Mathlib.Data.List.DropRight

/-!
# The debouncing of falls

`DetectFall` reports a fall when the robot has been tilted for `fall_debounce_frames` frames in a
row, and then counts from zero again; so does a frame in which it is not tilted.

## Main definitions

* `detectFall`, `detectFalls` — one call and a sequence of calls.
* `tiltedRun` — the number of tilted frames in a row at the end of a sequence.

## Main results

* `fallCount_eq` — what the counter counts.
* `fall_debounce` — which calls report a fall.
-/

namespace RobotBrain

variable {n : ℕ}

/-- The test of `DetectFall`, false of a NaN. -/
def Tilted (cfg : BrainConfig n) (prop : Proprioception n) : Prop :=
  cfg.fallGravityThreshold < prop.gravityZ

instance (cfg : BrainConfig n) : DecidablePred (Tilted cfg) :=
  fun _ => inferInstanceAs (Decidable (_ < _))

/-- `AIBrain::DetectFall`: the result and `fall_debounce_count_`. -/
def detectFall (cfg : BrainConfig n) (prop : Proprioception n) (fallDebounceCount : ℤ) :
    Bool × ℤ :=
  if Tilted cfg prop then
    if cfg.fallDebounceFrames ≤ fallDebounceCount + 1 then (true, 0)
    else (false, fallDebounceCount + 1)
  else (false, 0)

/-- The results of calls, one after another. -/
def detectFalls (cfg : BrainConfig n) : ℤ → List (Proprioception n) → List Bool
  | _, [] => []
  | count, prop :: props =>
    (detectFall cfg prop count).1 :: detectFalls cfg (detectFall cfg prop count).2 props

/-- `fall_debounce_count_` after calls. -/
def fallCount (cfg : BrainConfig n) (count : ℤ) (props : List (Proprioception n)) : ℤ :=
  props.foldl (fun count prop => (detectFall cfg prop count).2) count

/-- The length of the longest run of tilted frames that ends with the last frame. -/
def tiltedRun (cfg : BrainConfig n) (props : List (Proprioception n)) : ℕ :=
  (props.rtakeWhile fun prop => Tilted cfg prop).length

section Calls

variable {cfg : BrainConfig n} {count : ℤ} {props : List (Proprioception n)}

theorem length_detectFalls (count : ℤ) (props : List (Proprioception n)) :
    (detectFalls cfg count props).length = props.length := by
  induction props generalizing count with
  | nil => rfl
  | cons prop props ih => rw [detectFalls, List.length_cons, List.length_cons, ih]

theorem detectFalls_append (count : ℤ) (props more : List (Proprioception n)) :
    detectFalls cfg count (props ++ more) =
      detectFalls cfg count props ++ detectFalls cfg (fallCount cfg count props) more := by
  induction props generalizing count with
  | nil => rfl
  | cons prop props ih =>
    rw [List.cons_append, detectFalls, detectFalls, ih]
    rfl

theorem fallCount_append (count : ℤ) (props more : List (Proprioception n)) :
    fallCount cfg count (props ++ more) = fallCount cfg (fallCount cfg count props) more :=
  List.foldl_append

theorem tiltedRun_concat (props : List (Proprioception n)) (prop : Proprioception n) :
    tiltedRun cfg (props ++ [prop]) = if Tilted cfg prop then tiltedRun cfg props + 1 else 0 := by
  unfold tiltedRun
  rw [List.rtakeWhile_concat]
  by_cases h : Tilted cfg prop
  · rw [if_pos (decide_eq_true h), if_pos h, List.length_append, List.length_singleton]
  · rw [if_neg (by simpa using h), if_neg h, List.length_nil]

variable {N : ℕ}

/-- A tilted frame takes the counter from one remainder modulo `N` to the next, and reports a fall
when that is zero. -/
theorem detectFall_of_tilted (hN : 1 ≤ N) (hframes : cfg.fallDebounceFrames = N)
    {prop : Proprioception n} (h : Tilted cfg prop) (run : ℕ) :
    detectFall cfg prop ((run % N : ℕ) : ℤ) =
      (decide (N ∣ run + 1), (((run + 1) % N : ℕ) : ℤ)) := by
  have hless : run % N < N := Nat.mod_lt run hN
  have hnext : (run + 1) % N = (run % N + 1) % N := (Nat.mod_add_mod run N 1).symm
  rw [detectFall, if_pos h, hframes]
  by_cases hlast : run % N + 1 = N
  · have hzero : (run + 1) % N = 0 := by rw [hnext, hlast, Nat.mod_self]
    rw [if_pos (by omega), decide_eq_true (Nat.dvd_of_mod_eq_zero hzero), hzero, Nat.cast_zero]
  · have hsucc : (run + 1) % N = run % N + 1 := by rw [hnext, Nat.mod_eq_of_lt (by omega)]
    have hnot : ¬ N ∣ run + 1 := by
      rw [Nat.dvd_iff_mod_eq_zero, hsucc]
      exact Nat.succ_ne_zero _
    rw [if_neg (by omega), decide_eq_false hnot, hsucc, Nat.cast_succ]

/-- The counter holds the length of the run at the end, modulo the number of frames. -/
theorem fallCount_eq (hN : 1 ≤ N) (hframes : cfg.fallDebounceFrames = N)
    (props : List (Proprioception n)) :
    fallCount cfg 0 props = ((tiltedRun cfg props % N : ℕ) : ℤ) := by
  induction props using List.reverseRecOn with
  | nil => exact congrArg Nat.cast (Nat.zero_mod N).symm
  | append_singleton props prop ih =>
    rw [fallCount_append, ih, tiltedRun_concat]
    show (detectFall cfg prop _).2 = _
    by_cases h : Tilted cfg prop
    · rw [detectFall_of_tilted hN hframes h, if_pos h]
    · rw [detectFall, if_neg h, if_neg h, Nat.zero_mod, Nat.cast_zero]

/-- A call reports a fall exactly if the run at its end is a positive multiple of `N`. -/
theorem detectFall_iff (hN : 1 ≤ N) (hframes : cfg.fallDebounceFrames = N)
    (props : List (Proprioception n)) (prop : Proprioception n) :
    (detectFall cfg prop (fallCount cfg 0 props)).1 = true ↔
      0 < tiltedRun cfg (props ++ [prop]) ∧ N ∣ tiltedRun cfg (props ++ [prop]) := by
  rw [fallCount_eq hN hframes, tiltedRun_concat]
  by_cases h : Tilted cfg prop
  · rw [detectFall_of_tilted hN hframes h, if_pos h, decide_eq_true_iff,
      and_iff_right (Nat.succ_pos _)]
  · rw [detectFall, if_neg h, if_neg h]
    simp

/-- Tilted frames after a run of the length `run` report a fall at every multiple of `N`. -/
theorem count_detectFalls (hN : 1 ≤ N) (hframes : cfg.fallDebounceFrames = N)
    (htilted : ∀ prop ∈ props, Tilted cfg prop) (run : ℕ) :
    run / N + (detectFalls cfg ((run % N : ℕ) : ℤ) props).count true =
      (run + props.length) / N := by
  induction props generalizing run with
  | nil => rfl
  | cons prop props ih =>
    rw [List.forall_mem_cons] at htilted
    have hnext := ih htilted.2 (run + 1)
    have hlen : run + (prop :: props).length = run + 1 + props.length := by
      rw [List.length_cons]
      omega
    rw [detectFalls, detectFall_of_tilted hN hframes htilted.1, List.count_cons, hlen, ← hnext,
      Nat.succ_div]
    simp only [beq_true, decide_eq_true_eq]
    omega

end Calls

/-- With `fall_debounce_frames` at least one, from a fresh counter:

* a call reports a fall exactly if the longest run of tilted frames that ends with its frame is a
  positive multiple of `fall_debounce_frames` long;
* over `L` tilted frames in a row that no tilted frame precedes, the calls report
  `L / fall_debounce_frames` falls. -/
theorem fall_debounce {cfg : BrainConfig n} {N : ℕ} (hN : 1 ≤ N)
    (hframes : cfg.fallDebounceFrames = N) (props : List (Proprioception n)) :
    (∀ (k : ℕ) (_ : k < props.length),
      (detectFalls cfg 0 props)[k]? = some true ↔
        0 < tiltedRun cfg (props.take (k + 1)) ∧ N ∣ tiltedRun cfg (props.take (k + 1))) ∧
      ∀ before run after, props = before ++ run ++ after → (∀ prop ∈ run, Tilted cfg prop) →
        tiltedRun cfg before = 0 →
        (((detectFalls cfg 0 props).drop before.length).take run.length).count true =
          run.length / N := by
  refine ⟨fun k hk => ?_, ?_⟩
  · have hsplit : props = props.take k ++ props[k] :: props.drop (k + 1) := by
      rw [← List.drop_eq_getElem_cons hk, List.take_append_drop]
    have hlen : (detectFalls cfg 0 (props.take k)).length = k := by
      rw [length_detectFalls, List.length_take_of_le hk.le]
    rw [List.take_succ_eq_append_getElem hk, ← detectFall_iff hN hframes]
    conv_lhs => rw [hsplit]
    rw [detectFalls_append, List.getElem?_append_right hlen.le, hlen, Nat.sub_self, detectFalls,
      List.getElem?_cons_zero, Option.some.injEq]
  · rintro before run after rfl htilted hfresh
    have hcount : fallCount cfg 0 before = ((0 % N : ℕ) : ℤ) := by
      rw [fallCount_eq hN hframes, hfresh]
    have hreports := count_detectFalls hN hframes htilted 0
    rw [Nat.zero_div, Nat.zero_add, Nat.zero_add, ← hcount] at hreports
    rw [List.append_assoc, detectFalls_append, detectFalls_append,
      List.drop_left' (length_detectFalls _ _), List.take_left' (length_detectFalls _ _), hreports]

/-- With `fall_debounce_frames = 3` seven tilted frames in a row report two falls. -/
theorem fall_debounce_three :
    let cfg : BrainConfig 12 := { shippedConfig with fallDebounceFrames := 3 }
    let props := upright cfg :: List.replicate 7 (fallen cfg)
    (((detectFalls cfg 0 props).drop 1).take 7).count true = 2 := by
  intro cfg props
  have hrun := (fall_debounce (N := 3) (by decide) (show cfg.fallDebounceFrames = 3 from rfl)
    props).2 [upright cfg] (List.replicate 7 (fallen cfg)) [] (List.append_nil _).symm
  rw [List.length_replicate] at hrun
  exact hrun (by decide +kernel) (by decide +kernel)

end RobotBrain
