import RobotBrain.Library.Backlog
import RobotBrain.Realtime.Schedule

/-!
# How late the realtime thread ticks

The thread sleeps until an absolute time, so that a tick that takes longer than the period delays
the ticks after it until there has been enough room to catch up. No tick is left out: the ticks that
are late follow each other without a pause. What a wake-up is late beyond its own latency is the
backlog of the ticks before it.

`clock_nanosleep` returns at once if the time is over.

## Main definitions

* `RtLoad` — the latency of every wake-up and the duration of every tick.
* `RtLoad.wakeUp`, `RtLoad.overrun` — when the thread wakes up, and what a tick takes beyond a
  period.

## Main results

* `RtLoad.wakeUp_eq` — the lateness of a wake-up.
* `realtime_lateness` — the jitter that the thread records, and when it is bounded.
-/

namespace RobotBrain

/-- The time as `clock_gettime` gives it. -/
def Timespec.ofNs (t : ℤ) : Timespec := ⟨t / 1000000000, t % 1000000000⟩

@[simp] theorem Timespec.total_ofNs (t : ℤ) : (Timespec.ofNs t).total = t := by
  unfold Timespec.total Timespec.ofNs
  dsimp only
  omega

theorem Timespec.fits_ofNs {t : ℤ} (hnonneg : 0 ≤ t) (h : InInt64 t) : (Timespec.ofNs t).Fits := by
  refine ⟨?_, by rwa [Timespec.total_ofNs]⟩
  unfold InInt64 Timespec.ofNs at *
  dsimp only
  omega

/-- In nanoseconds, how late the thread wakes up in every iteration, and how long the tick takes. -/
structure RtLoad where
  latency : ℕ → ℤ
  duration : ℕ → ℤ
  latency_nonneg : ∀ k, 0 ≤ latency k
  duration_nonneg : ∀ k, 0 ≤ duration k

namespace RtLoad

variable (load : RtLoad) (rateMs : ℤ) (start : Timespec)

/-- The instant at which the iteration with the number `k` wakes up. -/
def wakeUp : ℕ → ℤ
  | 0 => start.total + load.latency 0
  | k + 1 =>
    max (wakeUp k + load.duration k) (scheduled rateMs start (k + 1)) + load.latency (k + 1)

/-- What an iteration takes beyond a period. -/
def overrun (k : ℕ) : ℤ := load.latency k + load.duration k - rateMs * 1000000

/-- A wake-up is late by its latency and by the backlog of the iterations before it. -/
theorem wakeUp_eq (k : ℕ) : load.wakeUp rateMs start k =
    scheduled rateMs start k + (load.latency k + backlog (load.overrun rateMs) k) := by
  induction k with
  | zero => rw [wakeUp, scheduled_zero, backlog_zero, add_zero]
  | succ k ih =>
    rw [wakeUp, ih, scheduled_succ, backlog_succ, overrun]
    omega

theorem scheduled_le_wakeUp (k : ℕ) : scheduled rateMs start k ≤ load.wakeUp rateMs start k := by
  have hbacklog := backlog_nonneg (load.overrun rateMs) k
  have hlatency := load.latency_nonneg k
  rw [wakeUp_eq]
  omega

theorem wakeUp_mono {i k : ℕ} (h : i ≤ k) :
    load.wakeUp rateMs start i ≤ load.wakeUp rateMs start k := by
  induction k, h using Nat.le_induction with
  | base => exact le_rfl
  | succ k _ ih =>
    have hduration := load.duration_nonneg k
    have hlatency := load.latency_nonneg (k + 1)
    rw [wakeUp]
    omega

end RtLoad

/-- The jitter of a wake-up that is not early. -/
theorem jitterMs_of_le {now next : Timespec} (h : next.total ≤ now.total) :
    jitterMs now next = ((now.total - next.total : ℤ) : ℚ) / 1000000 := by
  have hnonneg : (0 : ℚ) ≤ ((now.total - next.total : ℤ) : ℚ) / 1000000 :=
    div_nonneg (by exact_mod_cast sub_nonneg.mpr h) (by norm_num)
  exact if_neg (not_lt.mpr hnonneg)

/-- The thread keeps its schedule, and the samples are the delays of the wake-ups. -/
theorem exists_rtThread_eq_samples {start : Timespec} (hstart : start.Normalised) {rateMs : ℤ}
    (hrate : 1 ≤ rateMs) (hperiod : InInt64 (rateMs * 1000000 + 999999999))
    (hsec : 0 ≤ start.tvSec) {now : ℕ → ℤ} {n : ℕ} (hnow : ∀ k < n, InInt64 (now k))
    (hsched : ∀ k < n, scheduled rateMs start k ≤ now k)
    (hend : InInt64 (scheduled rateMs start n)) :
    ∃ next, rtThread rateMs start ((List.range n).map fun k => .ofNs (now k)) =
        some ⟨next, .ofSamples ((List.range n).map fun k =>
          ((now k - scheduled rateMs start k : ℤ) : ℚ) / 1000000)⟩ ∧
      next.Normalised ∧ next.Fits ∧ next.total = scheduled rateMs start n := by
  have hfrom : ∀ k, 0 ≤ scheduled rateMs start k := fun k => by
    have hle := start_le_scheduled hrate start k
    unfold Timespec.total Timespec.Normalised at *
    omega
  induction n with
  | zero =>
    have hint : InInt64 (rateMs * 1000000) := by
      unfold InInt64 at hperiod ⊢
      omega
    have hsec' : InInt64 (start.tvSec * 1000000000) := by
      rw [scheduled_zero] at hend
      unfold InInt64 Timespec.total Timespec.Normalised at *
      omega
    rw [scheduled_zero] at hend ⊢
    refine ⟨start, ?_, hstart, ⟨hsec', hend⟩, rfl⟩
    rw [rtThread, int64_eq hint]
    rfl
  | succ n ih =>
    have hnext := hend
    rw [scheduled_succ] at hnext
    have hbefore : InInt64 (scheduled rateMs start n) := by
      have hle := hfrom n
      unfold InInt64 at *
      omega
    obtain ⟨next, hthread, hnorm, hfits, htotal⟩ := ih (fun k hk => hnow k (by omega))
      (fun k hk => hsched k (by omega)) hbefore
    have hn := hnow n n.lt_succ_self
    have hle := hsched n n.lt_succ_self
    have hdelay : InInt64 ((Timespec.ofNs (now n)).total - next.total) := by
      have hnonneg := hfrom n
      rw [Timespec.total_ofNs, htotal]
      unfold InInt64 at *
      omega
    have hfits' : (Timespec.ofNs (now n)).Fits :=
      Timespec.fits_ofNs ((hfrom n).trans hle) hn
    have hperiods : InInt64 (next.total + rateMs * 1000000) := htotal.symm ▸ hnext
    obtain ⟨next', hiter, hnorm', hfits', htotal'⟩ := RtThread.exists_iterate_eq
      (s := ⟨next, .ofSamples _⟩) (by omega) hperiod hnorm hfits hfits' hdelay hperiods
    refine ⟨next', ?_, hnorm', hfits', ?_⟩
    · have hjitter : jitterMs (.ofNs (now n)) next = _ :=
        jitterMs_of_le (by rw [Timespec.total_ofNs, htotal]; exact hle)
      rw [Timespec.total_ofNs, htotal] at hjitter
      rw [List.range_succ, List.map_append, List.map_singleton, rtThread_concat, hthread,
        Option.bind_some, hiter, hjitter, List.map_append, List.map_singleton,
        JitterStats.ofSamples_concat]
    · rw [htotal', htotal, scheduled_succ]

/-- What a window of iterations takes beyond its periods. -/
theorem RtLoad.sum_overrun (load : RtLoad) (rateMs : ℤ) {i k : ℕ} (h : i ≤ k) :
    ∑ j ∈ Finset.Ico i k, load.overrun rateMs j =
      ∑ j ∈ Finset.Ico i k, (load.latency j + load.duration j) -
        (k - i : ℤ) * (rateMs * 1000000) := by
  unfold RtLoad.overrun
  rw [Finset.sum_sub_distrib, Finset.sum_const, Nat.card_Ico, nsmul_eq_mul, Nat.cast_sub h]

/-- The jitter that the thread records for a wake-up is its latency and the backlog of the
iterations before it. The wake-ups are late by at most `w` beyond their latency if and only if every
window of consecutive iterations takes at most `w` longer than its periods. -/
theorem realtime_lateness (load : RtLoad) {start : Timespec} (hstart : start.Normalised)
    {rateMs : ℤ} (hrate : 1 ≤ rateMs) (hperiod : InInt64 (rateMs * 1000000 + 999999999))
    (hsec : 0 ≤ start.tvSec) {n : ℕ} (hend : InInt64 (load.wakeUp rateMs start n)) :
    (∃ s, rtThread rateMs start
        ((List.range n).map fun k => .ofNs (load.wakeUp rateMs start k)) = some s ∧
      s.jitterStats = .ofSamples ((List.range n).map fun k =>
        ((load.latency k + backlog (load.overrun rateMs) k : ℤ) : ℚ) / 1000000)) ∧
    ∀ w, (∀ k < n, load.wakeUp rateMs start k ≤
        scheduled rateMs start k + (load.latency k + w)) ↔
      ∀ k < n, ∀ i ≤ k, ∑ j ∈ Finset.Ico i k, (load.latency j + load.duration j) ≤
        (k - i : ℤ) * (rateMs * 1000000) + w := by
  have hfrom : ∀ k, 0 ≤ scheduled rateMs start k := fun k => by
    have hle := start_le_scheduled hrate start k
    unfold Timespec.total Timespec.Normalised at *
    omega
  have hrange : ∀ {t}, 0 ≤ t → t ≤ load.wakeUp rateMs start n → InInt64 t := fun h hle => by
    unfold InInt64 at *
    omega
  have hle := load.scheduled_le_wakeUp rateMs start
  constructor
  · obtain ⟨next, hthread, -⟩ := exists_rtThread_eq_samples hstart hrate hperiod hsec
      (fun k hk => hrange ((hfrom k).trans (hle k)) (load.wakeUp_mono rateMs start hk.le))
      (fun k _ => hle k) (hrange (hfrom n) (hle n))
    refine ⟨_, hthread, congrArg JitterStats.ofSamples (List.map_congr_left fun k _ => ?_)⟩
    rw [load.wakeUp_eq, add_sub_cancel_left]
  · intro w
    refine forall₂_congr fun k _ => ?_
    rw [load.wakeUp_eq, add_le_add_iff_left, add_le_add_iff_left, backlog_le_iff]
    refine forall₂_congr fun i hi => ?_
    rw [load.sum_overrun rateMs hi, sub_le_iff_le_add']

/-- A tick of 50 ms delays the two after it, in a schedule of 20 ms. -/
def slowTick : RtLoad where
  latency _ := 0
  duration k := if k = 0 then 50000000 else 1000000
  latency_nonneg _ := le_rfl
  duration_nonneg k := by split_ifs <;> decide

theorem realtime_lateness_slowTick :
    (∃ s, rtThread 20 ⟨7, 600000000⟩
        ((List.range 4).map fun k => .ofNs (slowTick.wakeUp 20 ⟨7, 600000000⟩ k)) = some s ∧
      s.jitterStats = .ofSamples ((List.range 4).map fun k =>
        ((slowTick.latency k + backlog (slowTick.overrun 20) k : ℤ) : ℚ) / 1000000)) ∧
    ∀ w, (∀ k < 4, slowTick.wakeUp 20 ⟨7, 600000000⟩ k ≤
        scheduled 20 ⟨7, 600000000⟩ k + (slowTick.latency k + w)) ↔
      ∀ k < 4, ∀ i ≤ k, ∑ j ∈ Finset.Ico i k, (slowTick.latency j + slowTick.duration j) ≤
        (k - i : ℤ) * (20 * 1000000) + w :=
  realtime_lateness slowTick (by decide) (by decide) (by decide) (by decide) (by decide)

end RobotBrain
