import RobotBrain.Brain.Threads
import Mathlib.Algebra.Order.Group.Pointwise.Interval

/-!
# The velocity ramp

`RampVelocityCommand` moves `current_vel_cmd_` towards `velocity_cmd_`, on each axis by at most
`max_vel_ramp * dt`.

For positive time steps this is a slew limiter: it goes towards the target and not past it, stays
among zero and the targets seen so far, and reaches a target that is held after the calls whose
limits add up to the distance.

`ControlLoopStep` takes `dt` from the timestamps of two ticks, and 20 ms in place of a gap that is
zero or longer than half a second, or that has no positive timestamp before it. A gap that is
shorter than the 20 ms in place of it makes the ramp faster than `max_vel_ramp` per second; the
second half of this file says exactly when that shows.

## Main definitions

* `RampCall`, `rampCalls`, `rampReach` — calls of `RampVelocityCommand`.
* `RampTick`, `Brain.rampTicks` — control ticks that reach the ramp.
* `RatePerSecond`, `Brain.RampsOnTime` — the rate over all pairs of ticks, and the condition on a
  tick.

## Main results

* `velocity_ramp` — the law of the ramp for positive time steps.
* `ratePerSecond_iff` — the ticks after which the rate is kept.
* `Threads.ramp_of_run` — the ticks of a run of the three threads.
-/

namespace RobotBrain

open ExtNum

variable {n : ℕ} {H : Type*}

/-! ### Calls with positive time steps -/

/-- A call of `RampVelocityCommand`: a positive time step and the finite target that it reads. -/
structure RampCall where
  dt : ℚ
  target : Fin 3 → ℚ
  dt_pos : 0 < dt

/-- `velocity_cmd_` at a call. -/
def RampCall.velocityCmd (c : RampCall) : Velocity := fun axis => fin (c.target axis)

/-- `current_vel_cmd_` after the calls, from the value `current`. -/
def rampCalls (cfg : BrainConfig n) (current : Velocity) (calls : List RampCall) : Velocity :=
  calls.foldl (fun current c => rampVelocityCommand cfg (fin c.dt) c.velocityCmd current) current

/-- The sum of `max_vel_ramp * dt` over the calls. -/
def rampReach (cfg : BrainConfig n) (calls : List RampCall) : Scalar :=
  calls.foldr (fun c reach => cfg.maxVelRamp * fin c.dt + reach) (fin 0)

section Calls

variable {cfg : BrainConfig n} {axis : Fin 3}

theorem rampCalls_append (current : Velocity) (calls more : List RampCall) :
    rampCalls cfg current (calls ++ more) = rampCalls cfg (rampCalls cfg current calls) more :=
  List.foldl_append

/-- A call moves a finite value towards the target, not past it and within the limit. -/
theorem exists_rampCalls_singleton_eq (hramp : fin 0 ≤ cfg.maxVelRamp) (call : RampCall)
    {current : Velocity} {v : ℚ} (hv : current axis = fin v) :
    ∃ x, rampCalls cfg current [call] axis = fin x ∧ x ∈ Set.uIcc v (call.target axis) ∧
      fin |x - v| ≤ cfg.maxVelRamp * fin call.dt := by
  show ∃ x, slew (cfg.maxVelRamp * fin call.dt) (current axis) (fin (call.target axis)) = fin x ∧ _
  rw [hv]
  exact exists_slew_eq_mem_uIcc (zero_le_mul call.dt_pos hramp) v (call.target axis)

theorem zero_le_rampReach (hramp : fin 0 ≤ cfg.maxVelRamp) (calls : List RampCall) :
    fin 0 ≤ rampReach cfg calls := by
  induction calls with
  | nil => exact le_refl (0 : ℚ)
  | cons c calls ih => exact zero_le_add (zero_le_mul c.dt_pos hramp) ih

/-- The value stays among zero and the targets of the calls. -/
theorem exists_rampCalls_eq (hramp : fin 0 ≤ cfg.maxVelRamp) (calls : List RampCall)
    (axis : Fin 3) :
    ∃ v, rampCalls cfg (fun _ => fin 0) calls axis = fin v ∧
      (calls.map fun c => c.target axis).foldl min 0 ≤ v ∧
      v ≤ (calls.map fun c => c.target axis).foldl max 0 := by
  induction calls using List.reverseRecOn with
  | nil => exact ⟨0, rfl, le_rfl, le_rfl⟩
  | append_singleton calls call ih =>
    obtain ⟨v, hv, hmin, hmax⟩ := ih
    obtain ⟨x, hx, hmem, -⟩ := exists_rampCalls_singleton_eq hramp call hv
    rw [rampCalls_append, List.map_append, List.foldl_append, List.foldl_append]
    refine ⟨x, hx, ?_, ?_⟩
    · exact le_trans (min_le_min_right _ hmin) hmem.1
    · exact le_trans hmem.2 (max_le_max_right _ hmax)

/-- Calls with one target reach it exactly if their limits add up to the distance. -/
theorem rampCalls_eq_iff (hramp : fin 0 ≤ cfg.maxVelRamp) {t : ℚ} {calls : List RampCall}
    (htarget : ∀ c ∈ calls, c.target axis = t) {current : Velocity} {v : ℚ}
    (hv : current axis = fin v) :
    rampCalls cfg current calls axis = fin t ↔ fin |t - v| ≤ rampReach cfg calls := by
  induction calls generalizing current v with
  | nil =>
    show current axis = fin t ↔ |t - v| ≤ 0
    rw [hv, ExtNum.fin.injEq, abs_nonpos_iff, sub_eq_zero, eq_comm]
  | cons c calls ih =>
    rw [List.forall_mem_cons] at htarget
    obtain ⟨x, hx, -⟩ := exists_rampCalls_singleton_eq hramp c hv
    rw [← List.singleton_append, rampCalls_append, ih htarget.2 hx]
    refine abs_sub_le_iff_of_slew_eq (zero_le_mul c.dt_pos hramp) (zero_le_rampReach hramp calls) ?_
    rw [← hx, ← hv, ← htarget.1]
    rfl

/-- A target that is held is not left again. -/
theorem rampCalls_eq_of_forall_eq (hramp : fin 0 ≤ cfg.maxVelRamp) {t : ℚ} {calls : List RampCall}
    (htarget : ∀ c ∈ calls, c.target axis = t) {current : Velocity} (ht : current axis = fin t) :
    rampCalls cfg current calls axis = fin t := by
  rw [rampCalls_eq_iff hramp htarget ht, sub_self, abs_zero]
  exact zero_le_rampReach hramp calls

end Calls

/-- The law of the ramp, for every positive `max_vel_ramp`, on each axis, after any calls from the
initial value zero:

* the value stays between the minimum and the maximum of zero and the targets so far;
* a further call moves it by at most `max_vel_ramp * dt`, towards the target and not past it;
* if the target is held, the value equals it exactly when the sum of `max_vel_ramp * dt` has reached
  the distance, and stays there. -/
theorem velocity_ramp {cfg : BrainConfig n} (hramp : fin 0 < cfg.maxVelRamp)
    (calls : List RampCall) (axis : Fin 3) :
    ∃ v, rampCalls cfg (fun _ => fin 0) calls axis = fin v ∧
      ((calls.map fun c => c.target axis).foldl min 0 ≤ v ∧
        v ≤ (calls.map fun c => c.target axis).foldl max 0) ∧
      (∀ call, ∃ x, rampCalls cfg (fun _ => fin 0) (calls ++ [call]) axis = fin x ∧
        fin |x - v| ≤ cfg.maxVelRamp * fin call.dt ∧ x ∈ Set.uIcc v (call.target axis) ∧
        |call.target axis - x| ≤ |call.target axis - v| ∧
        0 ≤ (call.target axis - x) * (call.target axis - v)) ∧
      ∀ t held, (∀ c ∈ held, c.target axis = t) →
        (rampCalls cfg (fun _ => fin 0) (calls ++ held) axis = fin t ↔
          fin |t - v| ≤ rampReach cfg held) ∧
        ∀ more, (∀ c ∈ more, c.target axis = t) → fin |t - v| ≤ rampReach cfg held →
          rampCalls cfg (fun _ => fin 0) (calls ++ held ++ more) axis = fin t := by
  have hramp' : fin 0 ≤ cfg.maxVelRamp := fin_le_of_lt hramp
  obtain ⟨v, hv, hrange⟩ := exists_rampCalls_eq hramp' calls axis
  refine ⟨v, hv, hrange, fun call => ?_, fun t held hheld => ⟨?_, fun more hmore hreach => ?_⟩⟩
  · obtain ⟨x, hx, hmem, hstep⟩ := exists_rampCalls_singleton_eq hramp' call hv
    rw [rampCalls_append]
    exact ⟨x, hx, hstep, hmem, Set.abs_sub_right_of_mem_uIcc hmem,
      sub_mul_sub_nonneg_of_mem_uIcc hmem⟩
  · rw [rampCalls_append]
    exact rampCalls_eq_iff hramp' hheld hv
  · rw [rampCalls_append, rampCalls_append]
    exact rampCalls_eq_of_forall_eq hramp' hmore ((rampCalls_eq_iff hramp' hheld hv).mpr hreach)

/-- Towards a target of `0.025 m/s` that is held, in steps of `0.01`: the third call reaches it. -/
theorem velocity_ramp_held :
    let call : RampCall := ⟨1 / 50, fun _ => 1 / 40, by norm_num⟩
    rampCalls shippedConfig (fun _ => fin 0) (List.replicate 3 call) 0 = fin (1 / 40) := by
  intro call
  have hramp : fin 0 < shippedConfig.maxVelRamp := by decide +kernel
  obtain ⟨v, hv, -, -, hheld⟩ := velocity_ramp hramp [] 0
  obtain ⟨hreached, -⟩ := hheld (1 / 40) (List.replicate 3 call) (by decide +kernel)
  obtain rfl : (0 : ℚ) = v := ExtNum.fin.inj hv
  exact hreached.mpr (by decide +kernel)

/-! ### The rate over the ticks -/

/-- A control tick that reaches the ramp: its timestamp and the target that it reads. -/
structure RampTick where
  now : ℤ
  target : Velocity

/-- The time between two timestamps in seconds. -/
def secondsBetween (earlier later : ℤ) : ℚ := (later - earlier : ℤ) / 1000

theorem secondsBetween_add (t₁ t₂ t₃ : ℤ) :
    secondsBetween t₁ t₂ + secondsBetween t₂ t₃ = secondsBetween t₁ t₃ := by
  simp only [secondsBetween]
  push_cast
  ring

namespace Brain

variable {cfg : BrainConfig n} {b : Brain n H} {axis : Fin 3}

/-- The ramp of a tick, which finds its target in `velocity_cmd_`. -/
def rampTick (cfg : BrainConfig n) (b : Brain n H) (k : RampTick) : Brain n H :=
  { b with velocityCmd := k.target }.rampVelocity cfg k.now

/-- The ramps of the ticks, in order. -/
def rampTicks (cfg : BrainConfig n) (b : Brain n H) (ticks : List RampTick) : Brain n H :=
  ticks.foldl (rampTick cfg) b

/-- The time step of a tick is no longer than the gap: the gap is positive and a positive timestamp
precedes it, or it is at least the 20 ms that may stand in its place. -/
def TimelyAt (now : ℤ) (b : Brain n H) : Prop :=
  0 < b.lastControlMs ∧ b.lastControlMs < now ∨ b.lastControlMs + 20 ≤ now

/-- A tick keeps the rate: its time step is no longer than the gap, or on every axis the target is
so close that the rate allows to reach it in the gap. -/
def RampsOnTime (cfg : BrainConfig n) (k : RampTick) (b : Brain n H) : Prop :=
  b.TimelyAt k.now ∨ ∀ axis,
    (k.target axis - b.currentVelCmd axis).abs ≤
      cfg.maxVelRamp * fin (secondsBetween b.lastControlMs k.now)

theorem timeStep_le_secondsBetween {now : ℤ} (h : b.TimelyAt now) :
    b.timeStep now ≤ secondsBetween b.lastControlMs now := by
  have hgap : 0 < b.lastControlMs ∧ 1 ≤ now - b.lastControlMs ∨ 20 ≤ now - b.lastControlMs := by
    rcases h with ⟨hpos, hlt⟩ | hle <;> omega
  unfold timeStep secondsBetween
  generalize now - b.lastControlMs = g at hgap
  have hg : (0 < b.lastControlMs ∧ (1 : ℚ) ≤ g) ∨ (20 : ℚ) ≤ g := by exact_mod_cast hgap
  dsimp only
  split_ifs with hpos hbad
  · rcases hbad with hle | hlt
    · rcases hg with ⟨-, hg⟩ | hg <;> linarith
    · linarith
  · exact le_rfl
  · rcases hg with ⟨hpos', -⟩ | hg
    · exact absurd hpos' hpos
    · linarith
  · rcases hg with ⟨hpos', -⟩ | hg
    · exact absurd hpos' hpos
    · linarith

/-- Otherwise the time step is 20 ms, and longer than the gap. -/
theorem timeStep_of_not_timelyAt {now : ℤ} (h : ¬ b.TimelyAt now) (hle : b.lastControlMs ≤ now) :
    secondsBetween b.lastControlMs now < b.timeStep now := by
  have hgap : (0 < b.lastControlMs → now - b.lastControlMs = 0) ∧ now - b.lastControlMs < 20 := by
    unfold TimelyAt at h
    omega
  unfold timeStep secondsBetween
  generalize now - b.lastControlMs = g at hgap
  have hg : (g : ℚ) < 20 := by exact_mod_cast hgap.2
  dsimp only
  split_ifs with hpos hbad
  · linarith
  · rw [hgap.1 hpos] at hbad
    norm_num at hbad
  · linarith
  · linarith

/-- One tick moves a finite value by no more than the rate allows in the gap exactly if its time
step is no longer than the gap or the target is within the rate. -/
theorem exists_rampTick_eq {m : ℚ} (hm : 0 < m) (hramp : cfg.maxVelRamp = fin m) {k : RampTick}
    (hle : b.lastControlMs ≤ k.now) {c t : ℚ} (hc : b.currentVelCmd axis = fin c)
    (ht : k.target axis = fin t) :
    ∃ x, (b.rampTick cfg k).currentVelCmd axis = fin x ∧
      (|x - c| ≤ m * secondsBetween b.lastControlMs k.now ↔
        b.TimelyAt k.now ∨ |t - c| ≤ m * secondsBetween b.lastControlMs k.now) := by
  have hdt : 0 < b.timeStep k.now := b.timeStep_pos k.now
  have hlimit : 0 ≤ m * b.timeStep k.now := (mul_pos hm hdt).le
  refine ⟨slewStep (m * b.timeStep k.now) c t, ?_, ?_⟩
  · show slew (cfg.maxVelRamp * fin (b.timeStep k.now)) (b.currentVelCmd axis) (k.target axis) = _
    rw [hramp, hc, ht, fin_mul_fin, slew_fin]
  · rw [abs_slewStep_sub hlimit, min_le_iff, mul_le_mul_iff_right₀ hm]
    refine or_congr ⟨fun hdt' => ?_, timeStep_le_secondsBetween⟩ Iff.rfl
    by_contra hlate
    exact hdt'.not_gt (timeStep_of_not_timelyAt hlate hle)

/-- A tick keeps the rate over the gap before it exactly if it ramps on time. -/
theorem rampsOnTime_iff {m : ℚ} (hm : 0 < m) (hramp : cfg.maxVelRamp = fin m) {k : RampTick}
    (hle : b.lastControlMs ≤ k.now) (hb : ∀ axis, (b.currentVelCmd axis).IsFinite)
    (ht : ∀ axis, (k.target axis).IsFinite) : b.RampsOnTime cfg k ↔
      ∀ axis, ((b.rampTick cfg k).currentVelCmd axis - b.currentVelCmd axis).abs ≤
        cfg.maxVelRamp * fin (secondsBetween b.lastControlMs k.now) := by
  unfold RampsOnTime
  rw [← forall_or_left]
  refine forall_congr' fun axis => ?_
  obtain ⟨c, hc⟩ := (hb axis).exists_eq
  obtain ⟨t, ht⟩ := (ht axis).exists_eq
  obtain ⟨x, hx, hiff⟩ := exists_rampTick_eq hm hramp hle hc ht
  rw [hx, hc, ht, hramp, fin_mul_fin, fin_sub_fin, fin_sub_fin, abs_fin, abs_fin, fin_le_fin,
    fin_le_fin]
  exact hiff.symm

@[simp] theorem rampTick_lastControlMs (k : RampTick) :
    (b.rampTick cfg k).lastControlMs = k.now := rfl

theorem rampTicks_concat (ticks : List RampTick) (k : RampTick) :
    b.rampTicks cfg (ticks ++ [k]) = (b.rampTicks cfg ticks).rampTick cfg k := by
  rw [rampTicks, List.foldl_append]
  rfl

/-- Finite targets keep the value finite. -/
theorem rampTicks_isFinite {m : ℚ} (hramp : cfg.maxVelRamp = fin m)
    (hb : (b.currentVelCmd axis).IsFinite) {ticks : List RampTick}
    (hfinite : ∀ k ∈ ticks, (k.target axis).IsFinite) :
    ((b.rampTicks cfg ticks).currentVelCmd axis).IsFinite := by
  induction ticks using List.reverseRecOn with
  | nil => exact hb
  | append_singleton ticks k ih =>
    rw [List.forall_mem_append, List.forall_mem_singleton] at hfinite
    obtain ⟨c, hc⟩ := (ih hfinite.1).exists_eq
    obtain ⟨t, ht⟩ := hfinite.2.exists_eq
    rw [rampTicks_concat]
    show (slew (cfg.maxVelRamp * fin _) _ (k.target axis)).IsFinite
    rw [hramp, ht, hc]
    simp only [fin_mul_fin, slew_fin, isFinite_fin]

end Brain

/-- `current_vel_cmd_` after the tick with the index `i`. -/
def velocityAfter (cfg : BrainConfig n) (b : Brain n H) (ticks : List RampTick) (i : ℕ) :
    Velocity :=
  (b.rampTicks cfg (ticks.take (i + 1))).currentVelCmd

/-- Between any two ticks the value changes, on each axis, by at most `max_vel_ramp` per second. -/
def RatePerSecond (cfg : BrainConfig n) (b : Brain n H) (ticks : List RampTick) : Prop :=
  ∀ (i j : ℕ) (hi : i < ticks.length) (hj : j < ticks.length), i ≤ j → ∀ axis,
    (velocityAfter cfg b ticks j axis - velocityAfter cfg b ticks i axis).abs ≤
      cfg.maxVelRamp * fin (secondsBetween ticks[i].now ticks[j].now)

section Rate

variable {cfg : BrainConfig n} {b : Brain n H} {ticks : List RampTick}

theorem rampTicks_take_succ {i : ℕ} (hi : i < ticks.length) :
    b.rampTicks cfg (ticks.take (i + 1)) =
      (b.rampTicks cfg (ticks.take i)).rampTick cfg ticks[i] := by
  rw [List.take_succ_eq_append_getElem hi, Brain.rampTicks_concat]

/-- A rate that is kept from each tick to the next is kept between any two. -/
theorem ratePerSecond_of_forall_succ {m : ℚ} (hramp : cfg.maxVelRamp = fin m)
    (hfinite : ∀ i axis, (velocityAfter cfg b ticks i axis).IsFinite)
    (h : ∀ (i : ℕ) (hi : i + 1 < ticks.length) (axis : Fin 3),
      (velocityAfter cfg b ticks (i + 1) axis - velocityAfter cfg b ticks i axis).abs ≤
        cfg.maxVelRamp * fin (secondsBetween ticks[i].now ticks[i + 1].now)) :
    RatePerSecond cfg b ticks := by
  choose v hv using fun i axis => (hfinite i axis).exists_eq
  simp only [RatePerSecond, hv, hramp, fin_mul_fin, fin_sub_fin, abs_fin, fin_le_fin] at h ⊢
  intro i j hi hj hij axis
  induction j, hij using Nat.le_induction with
  | base =>
    rw [sub_self, abs_zero, secondsBetween, sub_self, Int.cast_zero, zero_div, mul_zero]
  | succ j hij ih =>
    calc |v (j + 1) axis - v i axis|
        ≤ |v (j + 1) axis - v j axis| + |v j axis - v i axis| := abs_sub_le _ _ _
      _ ≤ m * secondsBetween ticks[j].now ticks[j + 1].now +
          m * secondsBetween ticks[i].now ticks[j].now := add_le_add (h j hj axis) (ih (by omega))
      _ = m * secondsBetween ticks[i].now ticks[j + 1].now := by
        rw [← mul_add, add_comm, secondsBetween_add]

/-- For every nondecreasing sequence of timestamps and all finite targets, from any finite value:
the rate is kept between any two ticks exactly if every tick after the first ramps on time. -/
theorem ratePerSecond_iff {m : ℚ} (hm : 0 < m) (hramp : cfg.maxVelRamp = fin m)
    (hb : ∀ axis, (b.currentVelCmd axis).IsFinite)
    (hfinite : ∀ k ∈ ticks, ∀ axis, (k.target axis).IsFinite)
    (hsorted : ticks.Pairwise fun k k' => k.now ≤ k'.now) :
    RatePerSecond cfg b ticks ↔ ∀ (i : ℕ) (_ : i + 1 < ticks.length),
      (b.rampTicks cfg (ticks.take (i + 1))).RampsOnTime cfg ticks[i + 1] := by
  have hvalue (i : ℕ) (axis : Fin 3) : (velocityAfter cfg b ticks i axis).IsFinite :=
    Brain.rampTicks_isFinite hramp (hb axis) fun k hk => hfinite k (List.mem_of_mem_take hk) axis
  have hstep (i : ℕ) (hi : i + 1 < ticks.length) :
      (b.rampTicks cfg (ticks.take (i + 1))).RampsOnTime cfg ticks[i + 1] ↔ ∀ axis,
        (velocityAfter cfg b ticks (i + 1) axis - velocityAfter cfg b ticks i axis).abs ≤
          cfg.maxVelRamp * fin (secondsBetween ticks[i].now ticks[i + 1].now) := by
    have hi' : i < ticks.length := Nat.lt_of_succ_lt hi
    have hlast : (b.rampTicks cfg (ticks.take (i + 1))).lastControlMs = ticks[i].now := by
      rw [rampTicks_take_succ hi', Brain.rampTick_lastControlMs]
    have hle : ticks[i].now ≤ ticks[i + 1].now :=
      List.pairwise_iff_getElem.mp hsorted i (i + 1) hi' hi (Nat.lt_succ_self i)
    rw [← hlast] at hle
    rw [Brain.rampsOnTime_iff hm hramp hle (hvalue i) (hfinite _ (List.getElem_mem hi)), hlast,
      ← rampTicks_take_succ hi]
    rfl
  simp only [hstep]
  constructor
  · exact fun hrate i hi axis => hrate i (i + 1) (by omega) hi (Nat.le_succ i) axis
  · exact ratePerSecond_of_forall_succ hramp hvalue

/-- Ticks 20 ms apart keep the rate. -/
theorem ratePerSecond_regular :
    RatePerSecond shippedConfig (Brain.initial shippedConfig (constantPolicy 12 (fin 0)) 1000)
      [⟨1020, fun _ => fin 1⟩, ⟨1040, fun _ => fin 1⟩] := by
  have hramp : (0 : ℚ) < 1 / 2 := by norm_num
  refine (ratePerSecond_iff hramp rfl (fun _ => isFinite_fin 0) ?_ ?_).mpr fun i hi => ?_
  · decide
  · decide
  · have htimely : (0 : ℤ) < 1020 ∧ (1020 : ℤ) < 1040 := by decide
    obtain rfl : i = 0 := Nat.lt_one_iff.mp (Nat.lt_of_succ_lt_succ hi)
    exact Or.inl (Or.inl htimely)

/-- Two ticks within a millisecond: the second moves the value by `0.01` in no time. -/
theorem exists_ramp_too_fast :
    ∃ ticks : List RampTick, (∀ k ∈ ticks, ∀ axis, (k.target axis).IsFinite) ∧
      ticks.Pairwise (fun k k' => k.now ≤ k'.now) ∧
      ¬ RatePerSecond shippedConfig
        (Brain.initial shippedConfig (constantPolicy 12 (fin 0)) 1000) ticks := by
  refine ⟨[⟨1020, fun _ => fin 1⟩, ⟨1020, fun _ => fin 1⟩], by simp, by simp, fun h => ?_⟩
  have hstep := h 0 1 (by decide) (by decide) (by decide) 0
  revert hstep
  decide +kernel

end Rate

/-! ### The ticks of a run -/

namespace Threads

variable {cfg : BrainConfig n} {env : Environment n H}

/-- The two members that the ramp keeps between ticks. -/
def rampState (b : Brain n H) : ℤ × Velocity := (b.lastControlMs, b.currentVelCmd)

/-- A tick of the ramp depends on nothing else. -/
theorem rampState_rampTick {b b' : Brain n H} (h : rampState b = rampState b') (k : RampTick) :
    rampState (b.rampTick cfg k) = rampState (b'.rampTick cfg k) := by
  obtain ⟨hlast, hcurrent⟩ := Prod.mk.inj h
  simp only [rampState, Brain.rampTick, Brain.rampVelocity, Brain.timeStep, hlast, hcurrent]

/-- A record of the ticks that reach the ramp. -/
def recordRamp (s : Threads n H) (e : ThreadEvent n) (_ : Threads n H) (ticks : List RampTick) :
    List RampTick :=
  match e, s.control with
  | .control _, .rampVelocity now _ _ => ticks ++ [⟨now, s.brain.velocityCmd⟩]
  | _, _ => ticks

theorem RpcResult.rampState {now : ℤ} {b b' : Brain n H} {pc pc' : RpcPc} {out : List (Output n)}
    (h : RpcResult cfg env now b pc b' pc' out) : Threads.rampState b' = Threads.rampState b := by
  cases h <;> rfl

theorem WorkerResult.rampState {now : ℤ} {b b' : Brain n H} {pc pc' : WorkerPc n}
    {out : List (Output n)} (h : WorkerResult cfg env now b pc b' pc' out) :
    Threads.rampState b' = Threads.rampState b := by
  have hacquire : Threads.rampState (b.acquireBuffer cfg).2.2 = Threads.rampState b := by
    rw [Brain.acquireBuffer_brain]
    rfl
  cases h with
  | forwardThrew | forward => exact hacquire
  | releaseBuffer r =>
    rw [Brain.releaseBuffer_eq]
    rfl
  | _ => rfl

/-- Only a tick that reaches the ramp changes the two members. -/
theorem StepResult.rampState {s : Threads n H} {e : ThreadEvent n}
    {r : Threads n H × List (Output n)} (h : StepResult cfg env s e r) {ticks : List RampTick}
    {b : Brain n H} (hs : Threads.rampState s.brain = Threads.rampState (b.rampTicks cfg ticks)) :
    Threads.rampState r.1.brain =
      Threads.rampState (b.rampTicks cfg (recordRamp s e r.1 ticks)) := by
  cases h with
  | call | tick | dequeue => exact hs
  | rpc h => exact h.rampState.trans hs
  | worker h => exact h.rampState.trans hs
  | @control prop b' pc out h =>
    unfold recordRamp
    cases hpc : s.control with
    | rampVelocity now state p =>
      rw [hpc] at h
      cases h
      rw [Brain.rampTicks_concat]
      exact rampState_rampTick hs ⟨now, s.brain.velocityCmd⟩
    | _ =>
      rw [hpc] at h
      cases h <;> exact hs

/-- In every interleaving of the three threads `current_vel_cmd_` and `last_control_ms_` are what
the ticks that have reached the ramp make of their initial values. -/
theorem ramp_of_run {start : ℤ} {es : List (ThreadEvent n)} {s : Threads n H}
    {ticks : List RampTick} {tr : List (Output n)}
    (h : ((threads cfg env start).withRecord [] recordRamp).Run es (s, ticks) tr) :
    s.brain.currentVelCmd = ((Brain.initial cfg env start).rampTicks cfg ticks).currentVelCmd ∧
      s.brain.lastControlMs =
        ((Brain.initial cfg env start).rampTicks cfg ticks).lastControlMs := by
  have hstate : rampState s.brain =
      rampState ((Brain.initial cfg env start).rampTicks cfg ticks) := by
    refine h.invariant (fun s _ => rampState s.1.brain =
      rampState ((Brain.initial cfg env start).rampTicks cfg s.2)) rfl ?_
    rintro es ⟨s, ticks⟩ tr e s' out _ hI _ hs
    obtain ⟨s₁, out₁, hstep, heq⟩ := Machine.step_withRecord.mp hs
    obtain ⟨rfl, rfl⟩ := Prod.mk.inj heq
    exact (stepResult hstep).rampState hI
  obtain ⟨hlast, hcurrent⟩ := Prod.mk.inj hstate
  exact ⟨hcurrent, hlast⟩

end Threads

end RobotBrain
