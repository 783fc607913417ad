import Mathlib.Algebra.GroupWithZero.Nat
import RobotBrain.Library.RingBuffer
import RobotBrain.Library.OrderStatistic

/-!
# Jitter statistics

The realtime thread feeds the delay of every wake-up to `UpdateJitter`, which keeps the last
`WINDOW` of them in a ring buffer, and the maximum of all. `GetJitterPercentiles` sorts a copy of
the part of the buffer that has been written and reads three ranks off it.

The samples are values of any linear order with a zero.

## Main definitions

* `JitterStats`, `JitterStats.updateJitter`, `JitterStats.getJitterPercentiles`.
* `JitterStats.ofSamples` — the statistics after some samples.

## Main results

* `jitter_statistics` — the buffer holds the window, and the percentiles are its order statistics.
-/

namespace RobotBrain

variable {α : Type*}

/-- `JitterStats::WINDOW`. -/
def JitterStats.window : ℕ := 1000

/-- The members of `JitterStats` that the samples change. -/
structure JitterStats (α : Type*) where
  /-- `ring_buffer`, `ring_idx` and `ring_count`. -/
  ring : RingBuffer α JitterStats.window
  maxMs : α

/-- What `GetJitterPercentiles` returns, in order. -/
structure JitterPercentiles (α : Type*) where
  p50 : α
  p95 : α
  p99 : α
  maxMs : α

namespace JitterStats

theorem window_pos : 0 < window := by decide

/-- The last `WINDOW` samples. -/
def recent (samples : List α) : List α := samples.drop (samples.length - window)

variable [LinearOrder α] [Zero α]

/-- The statistics before the first sample. -/
def initial : JitterStats α where
  ring := .empty window_pos 0
  maxMs := 0

/-- `RosNode::UpdateJitter`. -/
def updateJitter (s : JitterStats α) (jitterMs : α) : JitterStats α where
  ring := s.ring.push jitterMs
  maxMs := if s.maxMs < jitterMs then jitterMs else s.maxMs

/-- `RosNode::GetJitterPercentiles`; an index beyond the sorted copy gives none. -/
def getJitterPercentiles (s : JitterStats α) : Option (JitterPercentiles α) :=
  if s.ring.count = 0 then some ⟨0, 0, 0, 0⟩
  else
    let sorted := s.ring.contents.insertionSort (· ≤ ·)
    let n := sorted.length
    match sorted[n * 50 / 100]?, sorted[n * 95 / 100]?, sorted[n * 99 / 100]? with
    | some p50, some p95, some p99 => some ⟨p50, p95, p99, s.maxMs⟩
    | _, _, _ => none

/-- The statistics after the samples. -/
def ofSamples (samples : List α) : JitterStats α :=
  samples.foldl updateJitter initial

theorem ofSamples_concat (samples : List α) (x : α) :
    ofSamples (samples ++ [x]) = (ofSamples samples).updateJitter x := by
  rw [ofSamples, List.foldl_append]
  rfl

/-- The ring buffer is fed with the samples. -/
theorem ring_ofSamples (samples : List α) :
    (ofSamples samples).ring = (RingBuffer.empty window_pos 0).pushAll samples := by
  induction samples using List.reverseRecOn with
  | nil => rfl
  | append_singleton samples x ih =>
    rw [ofSamples_concat, RingBuffer.pushAll_concat, ← ih]
    rfl

/-! ### The maximum -/

theorem le_maxMs (samples : List α) : ∀ x ∈ samples, x ≤ (ofSamples samples).maxMs := by
  induction samples using List.reverseRecOn with
  | nil => exact List.forall_mem_nil _
  | append_singleton samples x ih =>
    rw [ofSamples_concat, List.forall_mem_append, List.forall_mem_singleton]
    unfold updateJitter
    dsimp only
    split_ifs with hlt
    · exact ⟨fun y hy => (ih y hy).trans hlt.le, le_rfl⟩
    · exact ⟨ih, not_lt.mp hlt⟩

theorem maxMs_eq_zero_or_mem (samples : List α) :
    (ofSamples samples).maxMs = 0 ∨ (ofSamples samples).maxMs ∈ samples := by
  induction samples using List.reverseRecOn with
  | nil => exact Or.inl rfl
  | append_singleton samples x ih =>
    rw [ofSamples_concat]
    unfold updateJitter
    dsimp only
    split_ifs
    · exact Or.inr (List.mem_append_right _ List.mem_cons_self)
    · exact ih.imp_right (List.mem_append_left _)

/-- Of samples that are not negative the maximum is one of them. -/
theorem maxMs_mem {samples : List α} (hnonneg : ∀ x ∈ samples, 0 ≤ x) (hne : samples ≠ []) :
    (ofSamples samples).maxMs ∈ samples := by
  rcases maxMs_eq_zero_or_mem samples with hzero | hmem
  · obtain ⟨x, hx⟩ := List.exists_mem_of_ne_nil samples hne
    have hle : x ≤ 0 := hzero ▸ le_maxMs samples x hx
    rw [hzero, ← le_antisymm hle (hnonneg x hx)]
    exact hx
  · exact hmem

/-! ### The percentiles -/

/-- A rank below all of the samples is in bounds. -/
theorem rank_lt {m percent : ℕ} (hm : 0 < m) (hpercent : percent < 100) :
    m * percent / 100 < m := by
  rw [Nat.div_lt_iff_lt_mul (by omega)]
  exact Nat.mul_lt_mul_of_pos_left hpercent hm

/-- With a sample the three indices are in bounds, and the values there are order statistics of the
contents of the buffer. -/
theorem exists_getJitterPercentiles_eq {s : JitterStats α} (hcount : 0 < s.ring.count) :
    ∃ p, s.getJitterPercentiles = some p ∧ p.maxMs = s.maxMs ∧
      IsOrderStatistic s.ring.contents (s.ring.count * 50 / 100) p.p50 ∧
      IsOrderStatistic s.ring.contents (s.ring.count * 95 / 100) p.p95 ∧
      IsOrderStatistic s.ring.contents (s.ring.count * 99 / 100) p.p99 := by
  have hlen : (s.ring.contents.insertionSort (· ≤ ·)).length = s.ring.count := by
    rw [List.length_insertionSort, RingBuffer.length_contents]
  have hstat {percent : ℕ} (hpercent : percent < 100) :
      ∃ x, (s.ring.contents.insertionSort (· ≤ ·))[s.ring.count * percent / 100]? = some x ∧
        IsOrderStatistic s.ring.contents (s.ring.count * percent / 100) x := by
    have hlt : s.ring.count * percent / 100 < (s.ring.contents.insertionSort (· ≤ ·)).length := by
      rw [hlen]
      exact rank_lt hcount hpercent
    exact ⟨_, List.getElem?_eq_getElem hlt, isOrderStatistic_insertionSort _ hlt⟩
  obtain ⟨p50, h50, hstat50⟩ := hstat (show 50 < 100 by decide)
  obtain ⟨p95, h95, hstat95⟩ := hstat (show 95 < 100 by decide)
  obtain ⟨p99, h99, hstat99⟩ := hstat (show 99 < 100 by decide)
  refine ⟨⟨p50, p95, p99, s.maxMs⟩, ?_, rfl, hstat50, hstat95, hstat99⟩
  rw [getJitterPercentiles, if_neg hcount.ne']
  simp only [hlen, h50, h95, h99]

end JitterStats

section Results

variable [LinearOrder α] [Zero α]

/-- After any samples that are not negative, with `m` for the number of samples or `WINDOW`,
whichever is less:

* `ring_count` is `m`, `ring_idx` is the number of samples modulo `WINDOW`, and the first `m` cells
  are a permutation of the last `m` samples;
* without a sample the percentiles are zero;
* otherwise `GetJitterPercentiles` stays within its sorted copy and returns the order statistics of
  the window with the ranks `m * 50 / 100`, `m * 95 / 100` and `m * 99 / 100` and the maximum of all
  samples, in increasing order. -/
theorem jitter_statistics (samples : List α) (hnonneg : ∀ x ∈ samples, 0 ≤ x) :
    (JitterStats.ofSamples samples).ring.count = min samples.length JitterStats.window ∧
      (JitterStats.ofSamples samples).ring.idx = samples.length % JitterStats.window ∧
      ((JitterStats.ofSamples samples).ring.cells.take
        (JitterStats.ofSamples samples).ring.count).Perm (JitterStats.recent samples) ∧
      (samples = [] →
        (JitterStats.ofSamples samples).getJitterPercentiles = some ⟨0, 0, 0, 0⟩) ∧
      (samples ≠ [] → ∃ p, (JitterStats.ofSamples samples).getJitterPercentiles = some p ∧
        IsOrderStatistic (JitterStats.recent samples)
          (min samples.length JitterStats.window * 50 / 100) p.p50 ∧
        IsOrderStatistic (JitterStats.recent samples)
          (min samples.length JitterStats.window * 95 / 100) p.p95 ∧
        IsOrderStatistic (JitterStats.recent samples)
          (min samples.length JitterStats.window * 99 / 100) p.p99 ∧
        (p.maxMs ∈ samples ∧ ∀ x ∈ samples, x ≤ p.maxMs) ∧
        p.p50 ≤ p.p95 ∧ p.p95 ≤ p.p99 ∧ p.p99 ≤ p.maxMs) := by
  have hcount : (JitterStats.ofSamples samples).ring.count =
      min samples.length JitterStats.window := by
    rw [JitterStats.ring_ofSamples, RingBuffer.count_pushAll]
  have hidx : (JitterStats.ofSamples samples).ring.idx = samples.length % JitterStats.window := by
    rw [JitterStats.ring_ofSamples, RingBuffer.idx_pushAll]
  have hperm : (JitterStats.ofSamples samples).ring.contents.Perm (JitterStats.recent samples) := by
    rw [JitterStats.ring_ofSamples]
    exact RingBuffer.contents_pushAll samples
  refine ⟨hcount, hidx, hperm, ?_, fun hne => ?_⟩
  · rintro rfl
    rfl
  · have hpos : 0 < (JitterStats.ofSamples samples).ring.count := by
      rw [hcount]
      exact lt_min (List.length_pos_of_ne_nil hne) JitterStats.window_pos
    obtain ⟨p, hp, hmax, h50, h95, h99⟩ := JitterStats.exists_getJitterPercentiles_eq hpos
    rw [hcount] at h50 h95 h99
    have hmem : p.p99 ∈ samples := List.drop_subset _ _ (hperm.mem_iff.mp h99.mem)
    refine ⟨p, hp, h50.of_perm hperm, h95.of_perm hperm, h99.of_perm hperm, ⟨?_, ?_⟩,
      h50.mono h95 ?_, h95.mono h99 ?_, ?_⟩
    · rw [hmax]
      exact JitterStats.maxMs_mem hnonneg hne
    · rw [hmax]
      exact JitterStats.le_maxMs samples
    · omega
    · omega
    · rw [hmax]
      exact JitterStats.le_maxMs samples _ hmem

/-- Of the three samples 3, 1 and 2 the median is 2 and the maximum 3. -/
theorem jitter_statistics_three :
    ∃ p, (JitterStats.ofSamples [3, 1, 2]).getJitterPercentiles = some p ∧
      IsOrderStatistic [3, 1, 2] 1 p.p50 ∧ IsOrderStatistic [3, 1, 2] 2 p.p99 ∧ p.maxMs = 3 := by
  obtain ⟨-, -, -, -, h⟩ := jitter_statistics [3, 1, 2] (by decide)
  obtain ⟨p, hp, h50, -, h99, ⟨hmem, hmax⟩, -⟩ := h (List.cons_ne_nil _ _)
  refine ⟨p, hp, h50, h99, ?_⟩
  have h3 : 3 ≤ p.maxMs := hmax 3 (by decide)
  have hle : ∀ x ∈ [3, 1, 2], x ≤ 3 := by decide
  exact le_antisymm (hle p.maxMs hmem) h3

end Results

end RobotBrain
