import Mathlib.Algebra.Order.Field.Basic
import Mathlib.Algebra.Order.Floor.Ring
import Mathlib.Data.Bool.Basic
import Mathlib.Tactic.Ring
import Mathlib.Tactic.Linarith

/-!
# Exact numbers with NaN and infinities

`ExtNum K` adjoins a NaN and two infinities to an ordered field `K`. Finite values are added,
multiplied and compared exactly, with no rounding and no overflow; a NaN or an infinity behaves
as IEEE 754 prescribes: `∞ - ∞`, `0 * ∞` and every operation on a NaN give a NaN, and every
comparison with a NaN is false. Signed zeros are not represented.

The type serves programs in floating point whose properties concern the order of the values and
the spreading of non-finite ones rather than rounding.

## Main definitions

* `ExtNum`, `ExtNum.IsFinite`, `ExtNum.isNan`, `ExtNum.isInf`.
* The operations `+`, `-`, `*`, `/`, `ExtNum.abs`, `ExtNum.copysign`, `ExtNum.fmod`, and the
  comparisons `<` and `≤`.
* `ExtNum.clamp` — the function of that name in the C++ library.

## Main results

* `ExtNum.IsFinite.add`, `ExtNum.IsFinite.sub`, `ExtNum.IsFinite.mul` — finite values are closed
  under the ring operations.
* `ExtNum.clamp_mem` — clamping a finite value to a nonempty interval lands in it.
-/

/-- The elements of `K`, two infinities and a NaN. -/
inductive ExtNum (K : Type*) where
  /-- A finite value. -/
  | fin (x : K)
  /-- `-∞` when `neg` is `true`, `+∞` otherwise. -/
  | inf (neg : Bool)
  /-- Not a number. -/
  | nan
  deriving DecidableEq

namespace ExtNum

variable {K : Type*}

/-! ### Classification -/

/-- A value that is neither a NaN nor an infinity. -/
def IsFinite : ExtNum K → Prop
  | fin _ => True
  | _ => False

instance : DecidablePred (@IsFinite K)
  | fin _ => .isTrue trivial
  | inf _ => .isFalse id
  | nan => .isFalse id

/-- `std::isnan`. -/
def isNan : ExtNum K → Bool
  | nan => true
  | _ => false

/-- `std::isinf`. -/
def isInf : ExtNum K → Bool
  | inf _ => true
  | _ => false

@[simp] theorem isFinite_fin (x : K) : (fin x).IsFinite := trivial

@[simp] theorem not_isFinite_inf (s : Bool) : ¬(inf s : ExtNum K).IsFinite := id

@[simp] theorem not_isFinite_nan : ¬(nan : ExtNum K).IsFinite := id

@[simp] theorem isNan_fin (x : K) : (fin x).isNan = false := rfl

@[simp] theorem isInf_fin (x : K) : (fin x).isInf = false := rfl

theorem isFinite_iff {a : ExtNum K} : a.IsFinite ↔ ∃ x, a = fin x := by
  cases a <;> simp

theorem IsFinite.exists_eq {a : ExtNum K} (h : a.IsFinite) : ∃ x, a = fin x :=
  isFinite_iff.mp h

/-- Apply a total function on `K`; a NaN or an infinity gives a NaN, as `std::sin` and `std::cos`
do. -/
def map (f : K → K) : ExtNum K → ExtNum K
  | fin x => fin (f x)
  | _ => nan

@[simp] theorem map_fin (f : K → K) (x : K) : map f (fin x) = fin (f x) := rfl

theorem map_eq_nan {f : K → K} {a : ExtNum K} (ha : ¬a.IsFinite) : map f a = nan := by
  cases a with
  | fin x => exact absurd (isFinite_fin x) ha
  | inf s | nan => rfl

@[simp] theorem map_nan (f : K → K) : map f nan = nan := rfl

/-! ### Arithmetic -/

section Ring

variable [Field K]

instance : Add (ExtNum K) where
  add
    | fin x, fin y => fin (x + y)
    | fin _, inf s => inf s
    | inf s, fin _ => inf s
    | inf s, inf t => if s = t then inf s else nan
    | _, _ => nan

instance : Neg (ExtNum K) where
  neg
    | fin x => fin (-x)
    | inf s => inf !s
    | nan => nan

instance : Sub (ExtNum K) where
  sub a b := a + -b

@[simp] theorem neg_fin (x : K) : (-fin x : ExtNum K) = fin (-x) := rfl

@[simp] theorem fin_add_fin (x y : K) : (fin x + fin y : ExtNum K) = fin (x + y) := rfl

@[simp] theorem fin_sub_fin (x y : K) : (fin x - fin y : ExtNum K) = fin (x - y) := by
  change fin (x + -y) = fin (x - y)
  rw [sub_eq_add_neg]

@[simp] theorem nan_sub (a : ExtNum K) : nan - a = nan := by
  cases a <;> rfl

@[simp] theorem sub_nan (a : ExtNum K) : a - nan = nan := by
  cases a <;> rfl

@[simp] theorem inf_sub_fin (s : Bool) (x : K) : (inf s - fin x : ExtNum K) = inf s := rfl

theorem IsFinite.add {a b : ExtNum K} (ha : a.IsFinite) (hb : b.IsFinite) : (a + b).IsFinite := by
  obtain ⟨x, rfl⟩ := ha.exists_eq
  obtain ⟨y, rfl⟩ := hb.exists_eq
  exact isFinite_fin (x + y)

theorem IsFinite.sub {a b : ExtNum K} (ha : a.IsFinite) (hb : b.IsFinite) : (a - b).IsFinite := by
  obtain ⟨x, rfl⟩ := ha.exists_eq
  obtain ⟨y, rfl⟩ := hb.exists_eq
  exact isFinite_fin (x + -y)

theorem IsFinite.sub_self {a : ExtNum K} (ha : a.IsFinite) : a - a = fin 0 := by
  obtain ⟨x, rfl⟩ := ha.exists_eq
  simp

end Ring

section OrderedRing

variable [Field K] [LinearOrder K]

instance : Mul (ExtNum K) where
  mul
    | fin x, fin y => fin (x * y)
    | fin x, inf s => if x = 0 then nan else inf (xor (decide (x < 0)) s)
    | inf s, fin x => if x = 0 then nan else inf (xor s (decide (x < 0)))
    | inf s, inf t => inf (xor s t)
    | _, _ => nan

instance : Div (ExtNum K) where
  div
    | fin x, fin y =>
      if y = 0 then (if x = 0 then nan else inf (decide (x < 0))) else fin (x / y)
    | fin _, inf _ => fin 0
    | inf s, fin y => inf (xor s (decide (y < 0)))
    | _, _ => nan

/-- `std::abs`. -/
def abs : ExtNum K → ExtNum K
  | fin x => fin |x|
  | inf _ => inf false
  | nan => nan

/-- The sign of a value; a NaN counts as positive. -/
def isNeg : ExtNum K → Bool
  | fin x => decide (x < 0)
  | inf s => s
  | nan => false

/-- `std::copysign`: the magnitude of `mag` with the sign of `sgn`. -/
def copysign (mag sgn : ExtNum K) : ExtNum K :=
  if sgn.isNeg then -mag.abs else mag.abs

@[simp] theorem fin_mul_fin (x y : K) : (fin x * fin y : ExtNum K) = fin (x * y) := rfl

theorem fin_div_fin (x : K) {y : K} (hy : y ≠ 0) : (fin x / fin y : ExtNum K) = fin (x / y) :=
  if_neg hy

@[simp] theorem nan_mul (a : ExtNum K) : nan * a = nan := by
  cases a <;> rfl

@[simp] theorem nan_div (a : ExtNum K) : nan / a = nan := by
  cases a <;> rfl

@[simp] theorem abs_fin (x : K) : abs (fin x) = fin |x| := rfl

theorem copysign_fin (x : K) (sgn : ExtNum K) :
    copysign (fin x) sgn = fin (if sgn.isNeg then -|x| else |x|) := by
  unfold copysign
  split <;> rfl

theorem IsFinite.mul {a b : ExtNum K} (ha : a.IsFinite) (hb : b.IsFinite) : (a * b).IsFinite := by
  obtain ⟨x, rfl⟩ := ha.exists_eq
  obtain ⟨y, rfl⟩ := hb.exists_eq
  exact isFinite_fin (x * y)

theorem IsFinite.copysign {a : ExtNum K} (ha : a.IsFinite) (b : ExtNum K) :
    (copysign a b).IsFinite := by
  obtain ⟨x, rfl⟩ := ha.exists_eq
  rw [copysign_fin]
  exact isFinite_fin _

end OrderedRing

/-! ### Comparisons -/

section Order

variable [LinearOrder K]

/-- The comparison `<`, false as soon as one side is a NaN. -/
protected def Lt : ExtNum K → ExtNum K → Prop
  | fin x, fin y => x < y
  | fin _, inf s => s = false
  | inf s, fin _ => s = true
  | inf s, inf t => s = true ∧ t = false
  | _, _ => False

/-- The comparison `<=`, false as soon as one side is a NaN. -/
protected def Le : ExtNum K → ExtNum K → Prop
  | fin x, fin y => x ≤ y
  | fin _, inf s => s = false
  | inf s, fin _ => s = true
  | inf s, inf t => s = true ∨ t = false
  | _, _ => False

instance : LT (ExtNum K) := ⟨ExtNum.Lt⟩

instance : LE (ExtNum K) := ⟨ExtNum.Le⟩

instance decidableLt : (a b : ExtNum K) → Decidable (a < b)
  | fin x, fin y => inferInstanceAs (Decidable (x < y))
  | fin _, inf s => inferInstanceAs (Decidable (s = false))
  | inf s, fin _ => inferInstanceAs (Decidable (s = true))
  | inf s, inf t => inferInstanceAs (Decidable (s = true ∧ t = false))
  | fin _, nan => .isFalse id
  | inf _, nan => .isFalse id
  | nan, fin _ => .isFalse id
  | nan, inf _ => .isFalse id
  | nan, nan => .isFalse id

instance decidableLe : (a b : ExtNum K) → Decidable (a ≤ b)
  | fin x, fin y => inferInstanceAs (Decidable (x ≤ y))
  | fin _, inf s => inferInstanceAs (Decidable (s = false))
  | inf s, fin _ => inferInstanceAs (Decidable (s = true))
  | inf s, inf t => inferInstanceAs (Decidable (s = true ∨ t = false))
  | fin _, nan => .isFalse id
  | inf _, nan => .isFalse id
  | nan, fin _ => .isFalse id
  | nan, inf _ => .isFalse id
  | nan, nan => .isFalse id

@[simp] theorem fin_lt_fin {x y : K} : (fin x : ExtNum K) < fin y ↔ x < y := Iff.rfl

@[simp] theorem fin_le_fin {x y : K} : (fin x : ExtNum K) ≤ fin y ↔ x ≤ y := Iff.rfl

@[simp] theorem inf_lt_fin {s : Bool} {x : K} : (inf s : ExtNum K) < fin x ↔ s = true := Iff.rfl

@[simp] theorem fin_lt_inf {s : Bool} {x : K} : (fin x : ExtNum K) < inf s ↔ s = false := Iff.rfl

@[simp] theorem fin_le_inf {s : Bool} {x : K} : (fin x : ExtNum K) ≤ inf s ↔ s = false := Iff.rfl

@[simp] theorem inf_le_fin {s : Bool} {x : K} : (inf s : ExtNum K) ≤ fin x ↔ s = true := Iff.rfl

@[simp] theorem not_nan_lt (a : ExtNum K) : ¬nan < a := by
  cases a <;> exact id

@[simp] theorem not_lt_nan (a : ExtNum K) : ¬a < nan := by
  cases a <;> exact id

@[simp] theorem not_posInf_lt (a : ExtNum K) : ¬inf false < a := by
  cases a with
  | fin x => exact Bool.false_ne_true
  | inf s => exact fun h => Bool.false_ne_true h.1
  | nan => exact id

/-- A value that is not below a finite one is a finite value above it, `+∞` or a NaN. -/
theorem not_lt_cases {a : ExtNum K} {c : K} (h : ¬a < fin c) :
    (∃ x, a = fin x ∧ c ≤ x) ∨ a = inf false ∨ a = nan := by
  cases a with
  | fin x => exact Or.inl ⟨x, rfl, not_lt.mp h⟩
  | inf s =>
    cases s with
    | false => exact Or.inr (Or.inl rfl)
    | true => exact absurd rfl h
  | nan => exact Or.inr (Or.inr rfl)

/-- A value that is at least a finite one is a finite value above it or `+∞`. -/
theorem le_cases {a : ExtNum K} {c : K} (h : fin c ≤ a) :
    (∃ x, a = fin x ∧ c ≤ x) ∨ a = inf false := by
  cases a with
  | fin x => exact Or.inl ⟨x, rfl, h⟩
  | inf s =>
    obtain rfl : s = false := h
    exact Or.inr rfl
  | nan => exact h.elim

theorem fin_le_of_lt {x : K} {a : ExtNum K} (h : fin x < a) : fin x ≤ a := by
  cases a with
  | fin y => exact (fin_lt_fin.mp h).le
  | inf s => exact h
  | nan => exact h

theorem fin_le_of_le {x y : K} {a : ExtNum K} (hxy : x ≤ y) (hy : fin y ≤ a) : fin x ≤ a := by
  cases a with
  | fin z => exact le_trans hxy hy
  | inf s => exact hy
  | nan => exact hy

/-- `std::clamp`. -/
def clamp (v lo hi : ExtNum K) : ExtNum K :=
  if v < lo then lo else if hi < v then hi else v

/-- Clamping gives a NaN only for a NaN: a bound is taken only if it has been compared. -/
theorem clamp_ne_nan {v : ExtNum K} (hv : v ≠ nan) (lo hi : ExtNum K) : clamp v lo hi ≠ nan := by
  unfold clamp
  split_ifs with hlo hhi
  · rintro rfl
    exact not_lt_nan v hlo
  · rintro rfl
    exact not_nan_lt v hhi
  · exact hv

end Order

variable [Field K] [LinearOrder K]

/-! ### Clamping -/

/-- Clamping a finite value between bounds that are a finite center plus or minus a nonnegative
radius gives a finite value within the radius. -/
theorem clamp_mem [IsStrictOrderedRing K] {r : ExtNum K} (hr : fin 0 ≤ r) (v c : K) :
    ∃ x, clamp (fin v) (fin c - r) (fin c + r) = fin x ∧ fin c - r ≤ fin x ∧ fin x ≤ fin c + r := by
  rcases le_cases hr with ⟨r, rfl, hr⟩ | rfl
  · simp only [clamp, fin_sub_fin, fin_add_fin, fin_lt_fin, fin_le_fin]
    split_ifs with h₁ h₂
    · exact ⟨_, rfl, le_rfl, by linarith⟩
    · exact ⟨_, rfl, by linarith, le_rfl⟩
    · exact ⟨_, rfl, not_lt.mp h₁, not_lt.mp h₂⟩
  · -- an infinite radius never moves the value
    have hlo : (fin c - inf false : ExtNum K) = inf true := rfl
    have hhi : (fin c + inf false : ExtNum K) = inf false := rfl
    refine ⟨v, ?_, rfl, rfl⟩
    rw [clamp, hlo, hhi, if_neg (by simp), if_neg (by simp)]

theorem posInf_mul_fin {k : K} (hk : 0 < k) : (inf false * fin k : ExtNum K) = inf false := by
  change (if k = 0 then nan else inf (xor false (decide (k < 0)))) = inf false
  rw [if_neg hk.ne', decide_eq_false (not_lt.mpr hk.le)]
  rfl

/-- Scaling by a positive finite factor keeps a value from falling below zero. -/
theorem not_mul_lt_zero [IsStrictOrderedRing K] {a : ExtNum K} {k : K} (hk : 0 < k)
    (ha : ¬a < fin 0) : ¬a * fin k < fin 0 := by
  rcases not_lt_cases ha with ⟨x, rfl, hx⟩ | rfl | rfl
  · exact not_lt.mpr (mul_nonneg hx hk.le)
  · rw [posInf_mul_fin hk]
    exact not_posInf_lt _
  · rw [nan_mul]
    exact not_nan_lt _

/-- Scaling by a positive finite factor keeps a value at least zero. -/
theorem zero_le_mul [IsStrictOrderedRing K] {a : ExtNum K} {k : K} (hk : 0 < k)
    (ha : fin 0 ≤ a) : fin 0 ≤ a * fin k := by
  rcases le_cases ha with ⟨x, rfl, hx⟩ | rfl
  · exact mul_nonneg hx hk.le
  · rw [posInf_mul_fin hk]
    rfl

theorem zero_le_add [IsStrictOrderedRing K] {a b : ExtNum K} (ha : fin 0 ≤ a) (hb : fin 0 ≤ b) :
    fin 0 ≤ a + b := by
  rcases le_cases ha with ⟨x, rfl, hx⟩ | rfl <;> rcases le_cases hb with ⟨y, rfl, hy⟩ | rfl
  · exact add_nonneg hx hy
  all_goals rfl

/-! ### Remainder -/

section Fmod

variable [FloorRing K]

/-- The integer part of `x`, rounded towards zero. -/
def truncate (x : K) : ℤ :=
  if 0 ≤ x then ⌊x⌋ else ⌈x⌉

/-- `std::fmod`: the remainder of `a / b`, the quotient rounded towards zero. -/
def fmod : ExtNum K → ExtNum K → ExtNum K
  | fin x, fin y => if y = 0 then nan else fin (x - truncate (x / y) * y)
  | fin x, inf _ => fin x
  | _, _ => nan

theorem fmod_fin_fin (x : K) {y : K} (hy : y ≠ 0) :
    fmod (fin x) (fin y) = fin (x - truncate (x / y) * y) :=
  if_neg hy

@[simp] theorem fmod_zero (x : K) : fmod (fin x) (fin 0) = nan :=
  if_pos rfl

end Fmod

end ExtNum
