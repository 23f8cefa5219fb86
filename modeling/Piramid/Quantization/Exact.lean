-- SUMMARY: The codec's numbers in exact arithmetic: rational numbers and the two infinities it folds from.
import Mathlib.Algebra.Order.Floor.Ring
import Mathlib.Algebra.Order.Ring.Rat
import Mathlib.Data.Rat.Floor
import Mathlib.Tactic.Linarith
import Piramid.Quantization.Codec

/-!
# Exact arithmetic

The operations of the codec without rounding. An operation that has no exact value
yields the value that is no number.
-/

/-- A number of the codec. -/
inductive Exact where
  | finite (q : ℚ)
  | infinity
  | negInfinity
  | nan
deriving DecidableEq

namespace Exact

/-- The nearest integer, and the one farther from zero where two are as near. -/
def roundHalfAway (q : ℚ) : ℤ := if 0 ≤ q then ⌊q + 1 / 2⌋ else ⌈q - 1 / 2⌉

/-- The integer part. -/
def truncate (q : ℚ) : ℤ := if 0 ≤ q then ⌊q⌋ else ⌈q⌉

/-- An operation on rational numbers. -/
def lift₂ (f : ℚ → ℚ → ℚ) : Exact → Exact → Exact
  | .finite a, .finite b => .finite (f a b)
  | _, _ => .nan

def div : Exact → Exact → Exact
  | .finite a, .finite b => if b = 0 then .nan else .finite (a / b)
  | _, _ => .nan

def lt : Exact → Exact → Bool
  | .finite a, .finite b => decide (a < b)
  | .negInfinity, .finite _ | .negInfinity, .infinity | .finite _, .infinity => true
  | _, _ => false

/-- `f32::min`, which leaves out what is no number. -/
def min : Exact → Exact → Exact
  | .nan, y => y
  | x, .nan => x
  | x, y => if lt y x then y else x

def max : Exact → Exact → Exact
  | .nan, y => y
  | x, .nan => x
  | x, y => if lt x y then y else x

def abs : Exact → Exact
  | .finite q => .finite |q|
  | .infinity | .negInfinity => .infinity
  | .nan => .nan

def round : Exact → Exact
  | .finite q => .finite (roundHalfAway q)
  | x => x

/-- `f32::clamp`. -/
def clamp (x lo hi : Exact) : Exact :=
  let x := if lt x lo then lo else x
  if lt hi x then hi else x

def toI8 : Exact → Int8
  | .finite q => Int8.ofInt (Max.max (-128) (Min.min (truncate q) 127))
  | .infinity => 127
  | .negInfinity => -128
  | .nan => 0

def toU8 : Exact → UInt8
  | .finite q => UInt8.ofNat (Max.max 0 (Min.min (truncate q) 255)).toNat
  | .infinity => 255
  | .negInfinity => 0
  | .nan => 0

/-- `f32::EPSILON`. -/
def ε : ℚ := 1 / 2 ^ 23

instance : Single Exact where
  infinity := .infinity
  negInfinity := .negInfinity
  epsilon := .finite ε
  ofInt i := .finite i
  add := lift₂ (· + ·)
  sub := lift₂ (· - ·)
  mul := lift₂ (· * ·)
  div := div
  min := min
  max := max
  abs := abs
  lt := lt
  round := round
  clamp := clamp
  toI8 := toI8
  toU8 := toU8

section

variable (a b : ℚ)

@[simp] theorem ofInt_eq (i : ℤ) : (Single.ofInt i : Exact) = finite i := rfl

@[simp] theorem epsilon_eq : (Single.epsilon : Exact) = finite ε := rfl

@[simp] theorem add_finite : Single.add (finite a) (finite b) = finite (a + b) := rfl

@[simp] theorem sub_finite : Single.sub (finite a) (finite b) = finite (a - b) := rfl

@[simp] theorem mul_finite : Single.mul (finite a) (finite b) = finite (a * b) := rfl

theorem div_finite {b : ℚ} (h : b ≠ 0) : Single.div (finite a) (finite b) = finite (a / b) :=
  if_neg h

@[simp] theorem abs_finite : Single.abs (finite a) = finite |a| := rfl

@[simp] theorem lt_finite : Single.lt (finite a) (finite b) = decide (a < b) := rfl

@[simp] theorem round_finite : Single.round (finite a) = finite (roundHalfAway a) := rfl

@[simp] theorem min_finite : Single.min (finite a) (finite b) = finite (Min.min a b) := by
  change (if lt (finite b) (finite a) then finite b else finite a) = _
  simp only [lt, decide_eq_true_eq]
  split
  · rename_i hlt
    rw [min_eq_right hlt.le]
  · rename_i hge
    rw [min_eq_left (not_lt.mp hge)]

@[simp] theorem max_finite : Single.max (finite a) (finite b) = finite (Max.max a b) := by
  change (if lt (finite a) (finite b) then finite b else finite a) = _
  simp only [lt, decide_eq_true_eq]
  split
  · rename_i hlt
    rw [max_eq_right hlt.le]
  · rename_i hge
    rw [max_eq_left (not_lt.mp hge)]

@[simp] theorem min_infinity : Single.min (Single.infinity : Exact) (finite a) = finite a := rfl

@[simp] theorem max_negInfinity : Single.max (Single.negInfinity : Exact) (finite a) = finite a := rfl

end

theorem ε_pos : 0 < ε := by
  unfold ε
  positivity

/-! ## Rounding -/

theorem abs_roundHalfAway_sub_le (q : ℚ) : |(roundHalfAway q : ℚ) - q| ≤ 1 / 2 := by
  unfold roundHalfAway
  rw [abs_le]
  split
  · have hle := Int.floor_le (q + 1 / 2)
    have hlt := Int.lt_floor_add_one (q + 1 / 2)
    constructor <;> linarith
  · have hle := Int.le_ceil (q - 1 / 2)
    have hlt := Int.ceil_lt_add_one (q - 1 / 2)
    constructor <;> linarith

/-- Rounding does not leave a range with integer ends. -/
theorem roundHalfAway_mem {q : ℚ} (lo hi : ℤ) (hlo : (lo : ℚ) ≤ q) (hhi : q ≤ hi) :
    lo ≤ roundHalfAway q ∧ roundHalfAway q ≤ hi := by
  have hnear := abs_le.mp (abs_roundHalfAway_sub_le q)
  constructor
  · by_contra hlt
    have hle : (roundHalfAway q : ℚ) ≤ lo - 1 := by exact_mod_cast Int.le_sub_one_of_lt (not_le.mp hlt)
    linarith
  · by_contra hlt
    have hle : (hi : ℚ) + 1 ≤ roundHalfAway q := by exact_mod_cast Int.add_one_le_of_lt (not_le.mp hlt)
    linarith

theorem truncate_intCast (i : ℤ) : truncate i = i := by
  unfold truncate
  split <;> simp

/-- An integer inside the bounds is not clamped. -/
theorem clamp_finite {q lo hi : ℚ} (hlo : lo ≤ q) (hhi : q ≤ hi) :
    Single.clamp (finite q) (finite lo) (finite hi) = finite q := by
  change (if lt (finite hi) (if lt (finite q) (finite lo) then finite lo else finite q)
    then finite hi else _) = _
  have hnlo : lt (finite q) (finite lo) = false := decide_eq_false (not_lt.mpr hlo)
  have hnhi : lt (finite hi) (finite q) = false := decide_eq_false (not_lt.mpr hhi)
  simp only [hnlo, hnhi, Bool.false_eq_true, if_false]

theorem toInt_toI8 {i : ℤ} (hlo : -127 ≤ i) (hhi : i ≤ 127) :
    (Single.toI8 (finite i)).toInt = i := by
  change (Int8.ofInt (Max.max (-128) (Min.min (truncate i) 127))).toInt = i
  rw [truncate_intCast, min_eq_left hhi, max_eq_right (by omega), Int8.toInt_ofInt_of_le]
  · omega
  · omega

theorem toNat_toU8 {i : ℤ} (hlo : 0 ≤ i) (hhi : i ≤ 255) :
    ((Single.toU8 (finite i)).toNat : ℤ) = i := by
  change ((UInt8.ofNat (Max.max 0 (Min.min (truncate i) 255)).toNat).toNat : ℤ) = i
  rw [truncate_intCast, min_eq_left hhi, max_eq_right hlo, UInt8.toNat_ofNat_of_lt']
  · omega
  · simp only [UInt8.size]
    omega

end Exact
