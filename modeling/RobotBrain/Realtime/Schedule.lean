import RobotBrain.Realtime.Jitter
import Mathlib.Algebra.Order.Ring.Rat
import Mathlib.Tactic.Positivity
import Mathlib.Tactic.Ring

/-!
# The schedule of the realtime thread

The thread of `RegisterRealtimeTick` sleeps until an absolute time, records how late it has woken
up, ticks, and advances the time by one period, carrying nanoseconds into seconds. The period may be
longer than a second.

Signed 64-bit arithmetic that overflows has no result here.

## Main definitions

* `Timespec`, `Timespec.carry` — the inner loop.
* `RtThread`, `RtThread.iterate`, `rtThread` — the outer loop.

## Main results

* `Timespec.carry_eq` — the inner loop ends, with the nanoseconds reduced modulo a second.
* `realtime_schedule` — the schedule does not drift.
-/

namespace RobotBrain

/-! ### Arithmetic of `int64_t` -/

/-- The value is in the range of `int64_t`. -/
def InInt64 (x : ℤ) : Prop := -9223372036854775808 ≤ x ∧ x < 9223372036854775808

instance : DecidablePred InInt64 := fun _ => inferInstanceAs (Decidable (_ ∧ _))

/-- The result of a signed 64-bit operation. -/
def int64 (x : ℤ) : Option ℤ := if InInt64 x then some x else none

theorem int64_eq {x : ℤ} (h : InInt64 x) : int64 x = some x := if_pos h

/-! ### Times -/

/-- `struct timespec`. -/
structure Timespec where
  tvSec : ℤ
  tvNsec : ℤ
  deriving DecidableEq

namespace Timespec

/-- The nanoseconds are less than a second. -/
def Normalised (t : Timespec) : Prop := 0 ≤ t.tvNsec ∧ t.tvNsec < 1000000000

instance (t : Timespec) : Decidable t.Normalised := inferInstanceAs (Decidable (_ ∧ _))

/-- The instant in nanoseconds. -/
def total (t : Timespec) : ℤ := t.tvSec * 1000000000 + t.tvNsec

/-- The instant in nanoseconds fits into 64 bits, and so does its part in seconds. -/
def Fits (t : Timespec) : Prop := InInt64 (t.tvSec * 1000000000) ∧ InInt64 t.total

instance (t : Timespec) : Decidable t.Fits := inferInstanceAs (Decidable (_ ∧ _))

/-- `tv_sec * 1000000000LL + tv_nsec`. -/
def toNs (t : Timespec) : Option ℤ :=
  (int64 (t.tvSec * 1000000000)).bind fun sec => int64 (sec + t.tvNsec)

theorem toNs_eq {t : Timespec} (h : t.Fits) : t.toNs = some t.total := by
  rw [toNs, int64_eq h.1]
  exact int64_eq h.2

/-- The inner loop: while there is a second in the nanoseconds, carry it. -/
def carry (t : Timespec) : Option Timespec :=
  if 1000000000 ≤ t.tvNsec then
    (int64 (t.tvSec + 1)).bind fun sec => carry ⟨sec, t.tvNsec - 1000000000⟩
  else some t
termination_by t.tvNsec.toNat
decreasing_by omega

/-- The inner loop ends. It carries as many seconds as there are in the nanoseconds, provided the
result fits into 64 bits. -/
theorem carry_eq {t : Timespec} (hnsec : 0 ≤ t.tvNsec) (hsec : InInt64 (t.tvSec * 1000000000))
    (htotal : InInt64 t.total) :
    t.carry = some ⟨t.tvSec + t.tvNsec / 1000000000, t.tvNsec % 1000000000⟩ := by
  induction t using carry.induct with
  | case1 t hle ih =>
    have hnext : InInt64 (t.tvSec + 1) := by
      unfold InInt64 total at *
      omega
    rw [carry, if_pos hle, int64_eq hnext, Option.bind_some, ih (t.tvSec + 1)]
    · congr 2
      · show t.tvSec + 1 + (t.tvNsec - 1000000000) / 1000000000 = _
        omega
      · show (t.tvNsec - 1000000000) % 1000000000 = _
        omega
    · show 0 ≤ t.tvNsec - 1000000000
      omega
    · show InInt64 ((t.tvSec + 1) * 1000000000)
      unfold InInt64 total at *
      omega
    · show InInt64 ((t.tvSec + 1) * 1000000000 + (t.tvNsec - 1000000000))
      unfold InInt64 total at *
      omega
  | case2 t hlt =>
    have hsec' : t.tvSec + t.tvNsec / 1000000000 = t.tvSec := by omega
    have hnsec' : t.tvNsec % 1000000000 = t.tvNsec := by omega
    rw [carry, if_neg hlt, hsec', hnsec']

/-- The inner loop normalises the time and keeps the instant. -/
theorem exists_carry_eq {t : Timespec} (hnsec : 0 ≤ t.tvNsec)
    (hsec : InInt64 (t.tvSec * 1000000000)) (htotal : InInt64 t.total) :
    ∃ t', t.carry = some t' ∧ t'.Normalised ∧ t'.total = t.total ∧
      InInt64 (t'.tvSec * 1000000000) := by
  refine ⟨_, carry_eq hnsec hsec htotal, ?_, ?_, ?_⟩
  · unfold Normalised
    dsimp only
    omega
  · unfold total
    dsimp only
    omega
  · unfold InInt64 total at *
    dsimp only
    omega

end Timespec

/-! ### The thread -/

/-- The locals of the thread and the statistics. -/
structure RtThread where
  next : Timespec
  jitterStats : JitterStats ℚ

/-- One iteration of the outer loop, which wakes up at the time `now`. -/
def RtThread.iterate (periodNs : ℤ) (s : RtThread) (now : Timespec) : Option RtThread := do
  let actualNs ← now.toNs
  let expectedNs ← s.next.toNs
  let delayNs ← int64 (actualNs - expectedNs)
  let jitterMs : ℚ := delayNs / 1000000
  let tvNsec ← int64 (s.next.tvNsec + periodNs)
  let next ← Timespec.carry ⟨s.next.tvSec, tvNsec⟩
  some ⟨next, s.jitterStats.updateJitter (if jitterMs < 0 then 0 else jitterMs)⟩

/-- The thread started at the time `start`, after iterations that wake up at the times `nows`. -/
def rtThread (rateMs : ℤ) (start : Timespec) (nows : List Timespec) : Option RtThread := do
  let periodNs ← int64 (rateMs * 1000000)
  nows.foldlM (RtThread.iterate periodNs) ⟨start, .initial⟩

/-- The instant of the iteration with the number `k`. -/
def scheduled (rateMs : ℤ) (start : Timespec) (k : ℕ) : ℤ := start.total + k * (rateMs * 1000000)

/-- The delay of a wake-up in milliseconds, as the thread records it. -/
def jitterMs (now next : Timespec) : ℚ :=
  let jitterMs : ℚ := (now.total - next.total : ℤ) / 1000000
  if jitterMs < 0 then 0 else jitterMs

theorem jitterMs_nonneg (now next : Timespec) : 0 ≤ jitterMs now next := by
  unfold jitterMs
  dsimp only
  split_ifs with h
  · exact le_rfl
  · exact not_lt.mp h

/-- One iteration advances the instant by the period, whenever it has woken up. -/
theorem RtThread.exists_iterate_eq {periodNs : ℤ} (hpos : 0 < periodNs)
    (hperiod : InInt64 (periodNs + 999999999)) {s : RtThread} (hnorm : s.next.Normalised)
    (hfits : s.next.Fits) {now : Timespec} (hnow : now.Fits)
    (hdelay : InInt64 (now.total - s.next.total)) (hnext : InInt64 (s.next.total + periodNs)) :
    ∃ next, s.iterate periodNs now =
        some ⟨next, s.jitterStats.updateJitter (jitterMs now s.next)⟩ ∧
      next.Normalised ∧ next.Fits ∧ next.total = s.next.total + periodNs := by
  obtain ⟨hnonneg, hless⟩ := hnorm
  have hnsec : InInt64 (s.next.tvNsec + periodNs) := by
    unfold InInt64 at hperiod ⊢
    omega
  have htotal : Timespec.total ⟨s.next.tvSec, s.next.tvNsec + periodNs⟩ =
      s.next.total + periodNs := by
    unfold Timespec.total
    dsimp only
    omega
  have hcarry : ∃ next, Timespec.carry ⟨s.next.tvSec, s.next.tvNsec + periodNs⟩ = some next ∧
      next.Normalised ∧
      next.total = Timespec.total ⟨s.next.tvSec, s.next.tvNsec + periodNs⟩ ∧
      InInt64 (next.tvSec * 1000000000) := by
    refine Timespec.exists_carry_eq ?_ hfits.1 ?_
    · show 0 ≤ s.next.tvNsec + periodNs
      omega
    · rw [htotal]
      exact hnext
  obtain ⟨next, hcarry, hnorm', htotal', hsec⟩ := hcarry
  rw [htotal] at htotal'
  refine ⟨next, ?_, hnorm', ⟨hsec, by rw [htotal']; exact hnext⟩, htotal'⟩
  simp only [iterate, Timespec.toNs_eq hnow, Timespec.toNs_eq hfits, int64_eq hdelay,
    int64_eq hnsec, hcarry, Option.bind_eq_bind, Option.bind_some]
  rfl

theorem rtThread_concat (rateMs : ℤ) (start : Timespec) (nows : List Timespec) (now : Timespec) :
    rtThread rateMs start (nows ++ [now]) =
      (rtThread rateMs start nows).bind fun s => s.iterate (rateMs * 1000000) now := by
  unfold rtThread int64
  split_ifs
  · simp only [Option.bind_eq_bind, Option.bind_some, List.foldlM_append, List.foldlM_cons,
      List.foldlM_nil, Option.pure_def, Option.bind_fun_some]
  · rfl

@[simp] theorem scheduled_zero (rateMs : ℤ) (start : Timespec) :
    scheduled rateMs start 0 = start.total := by
  rw [scheduled, Nat.cast_zero, zero_mul, add_zero]

theorem scheduled_succ (rateMs : ℤ) (start : Timespec) (k : ℕ) :
    scheduled rateMs start (k + 1) = scheduled rateMs start k + rateMs * 1000000 := by
  unfold scheduled
  push_cast
  ring

/-- The schedule does not go back. -/
theorem start_le_scheduled {rateMs : ℤ} (hrate : 1 ≤ rateMs) (start : Timespec) (k : ℕ) :
    start.total ≤ scheduled rateMs start k := by
  have hmul : 0 ≤ (k : ℤ) * (rateMs * 1000000) := by positivity
  unfold scheduled
  omega

/-- The thread keeps its schedule, and feeds samples that are not negative to the statistics. -/
theorem exists_rtThread_eq {start : Timespec} (hstart : start.Normalised) {rateMs : ℤ}
    (hrate : 1 ≤ rateMs) (hperiod : InInt64 (rateMs * 1000000 + 999999999))
    (hsec : InInt64 (start.tvSec * 1000000000)) {nows : List Timespec}
    (hnows : ∀ (k : ℕ) (_ : k < nows.length),
      nows[k].Fits ∧ InInt64 (nows[k].total - scheduled rateMs start k))
    (hend : InInt64 (scheduled rateMs start nows.length)) :
    ∃ next samples, rtThread rateMs start nows = some ⟨next, JitterStats.ofSamples samples⟩ ∧
      (next.Normalised ∧ next.Fits ∧ next.total = scheduled rateMs start nows.length) ∧
      samples.length = nows.length ∧ ∀ x ∈ samples, 0 ≤ x := by
  induction nows using List.reverseRecOn with
  | nil =>
    have hint : InInt64 (rateMs * 1000000) := by
      unfold InInt64 at hperiod ⊢
      omega
    rw [List.length_nil, scheduled_zero] at hend ⊢
    refine ⟨start, [], ?_, ⟨hstart, ⟨hsec, hend⟩, rfl⟩, rfl, List.forall_mem_nil _⟩
    rw [rtThread, int64_eq hint]
    rfl
  | append_singleton nows now ih =>
    rw [List.length_append, List.length_singleton] at hend ⊢
    -- the schedule has been in range so far
    have hbefore : InInt64 (scheduled rateMs start nows.length) := by
      have hle := start_le_scheduled hrate start nows.length
      rw [scheduled_succ] at hend
      unfold InInt64 Timespec.total Timespec.Normalised at *
      omega
    have hlast := hnows nows.length (by simp)
    rw [List.getElem_concat_length rfl] at hlast
    obtain ⟨next, samples, hthread, ⟨hnorm, hfits, htotal⟩, hlen, hnonneg⟩ :=
      ih (fun k hk => by
        have hget := hnows k (by simp; omega)
        rwa [List.getElem_append_left hk] at hget) hbefore
    have hnext : InInt64 (next.total + rateMs * 1000000) := by
      rw [htotal, ← scheduled_succ]
      exact hend
    obtain ⟨next', hiter, hnorm', hfits', htotal'⟩ := RtThread.exists_iterate_eq
      (s := ⟨next, JitterStats.ofSamples samples⟩) (by omega) hperiod hnorm hfits hlast.1
      (by rw [htotal]; exact hlast.2) hnext
    refine ⟨next', samples ++ [jitterMs now next], ?_, ⟨hnorm', hfits', ?_⟩, ?_, ?_⟩
    · rw [rtThread_concat, hthread, Option.bind_some, hiter, JitterStats.ofSamples_concat]
    · rw [htotal', htotal, scheduled_succ]
    · rw [List.length_append, hlen, List.length_singleton]
    · rw [List.forall_mem_append, List.forall_mem_singleton]
      exact ⟨hnonneg, jitterMs_nonneg now next⟩

/-- After `k` iterations the time is normalised and the instant is the start plus `k` periods,
whenever the thread has woken up, as long as the values fit into 64 bits. The inner loop has ended
every time, since the thread has got there. -/
theorem realtime_schedule {start : Timespec} (hstart : start.Normalised) {rateMs : ℤ}
    (hrate : 1 ≤ rateMs) (hperiod : InInt64 (rateMs * 1000000 + 999999999))
    (hsec : InInt64 (start.tvSec * 1000000000)) (nows : List Timespec)
    (hnows : ∀ (k : ℕ) (_ : k < nows.length),
      nows[k].Fits ∧ InInt64 (nows[k].total - scheduled rateMs start k))
    (hend : InInt64 (scheduled rateMs start nows.length)) :
    ∃ s, rtThread rateMs start nows = some s ∧ s.next.Normalised ∧
      s.next.total = start.total + nows.length * (rateMs * 1000000) := by
  obtain ⟨next, samples, hthread, ⟨hnorm, -, htotal⟩, -⟩ :=
    exists_rtThread_eq hstart hrate hperiod hsec hnows hend
  exact ⟨_, hthread, hnorm, htotal⟩

/-- A period of 1.5 seconds, and a tick that takes longer than that. -/
theorem realtime_schedule_late :
    ∃ s, rtThread 1500 ⟨7, 600000000⟩ [⟨7, 600000000⟩, ⟨11, 0⟩] = some s ∧ s.next.Normalised ∧
      s.next.total = 10600000000 :=
  realtime_schedule (by decide) (by decide) (by decide) (by decide) _ (by decide) (by decide)

end RobotBrain
