-- SUMMARY: 64-bit floats by their bits: how they compare, and how an integer is rounded to one.
import Mathlib.Data.Nat.Log
import Mathlib.Order.Defs.LinearOrder
import Mathlib.Tactic.Ring

/-!
# Binary64

A float is a sign and a magnitude, whose bits read as a number grow with the float.
The magnitudes above that of the infinity are NaN.
-/

namespace Binary64

/-- The bits without the sign. -/
def magnitude (x : BitVec 64) : Nat := x.toNat % 2 ^ 63

/-- The magnitude of the infinity. -/
def infinite : Nat := 0x7ff0000000000000

def isNan (x : BitVec 64) : Bool := decide (infinite < magnitude x)

/-- Where a float that is not NaN lies in the order. The two zeros lie in one place. -/
def key (x : BitVec 64) : Int := if x.toNat < 2 ^ 63 then magnitude x else -magnitude x

def partialCmp (x y : BitVec 64) : Option Ordering :=
  if isNan x || isNan y then none else some (compare (key x) (key y))

def eq (x y : BitVec 64) : Bool := partialCmp x y == some .eq

def lt (x y : BitVec 64) : Bool := partialCmp x y == some .lt

def gt (x y : BitVec 64) : Bool := partialCmp x y == some .gt

def le (x y : BitVec 64) : Bool := partialCmp x y == some .lt || partialCmp x y == some .eq

def ge (x y : BitVec 64) : Bool := partialCmp x y == some .gt || partialCmp x y == some .eq

section

variable {x y : BitVec 64}

theorem partialCmp_numbers (hx : isNan x = false) (hy : isNan y = false) :
    partialCmp x y = some (compare (key x) (key y)) := by
  unfold partialCmp
  rw [hx, hy]
  rfl

theorem partialCmp_nan (hy : isNan y = true) : partialCmp x y = none := by
  unfold partialCmp
  rw [hy, Bool.or_true]
  rfl

theorem partialCmp_swap (x y : BitVec 64) :
    partialCmp x y = (partialCmp y x).map Ordering.swap := by
  unfold partialCmp
  rw [Bool.or_comm]
  split
  · rfl
  · exact congrArg some (Std.OrientedCmp.eq_swap)

theorem eq_comm (x y : BitVec 64) : eq x y = eq y x := by
  unfold eq
  rw [partialCmp_swap]
  cases partialCmp y x with
  | none => rfl
  | some o => cases o <;> rfl

theorem eq_iff (hx : isNan x = false) (hy : isNan y = false) : eq x y = true ↔ key x = key y := by
  unfold eq
  rw [partialCmp_numbers hx hy]
  simp

theorem lt_iff (hx : isNan x = false) (hy : isNan y = false) : lt x y = true ↔ key x < key y := by
  unfold lt
  rw [partialCmp_numbers hx hy]
  simp [compare_lt_iff_lt]

end

/-! ## Integers as floats -/

/-- `n / d` rounded to the nearest number, and to the even one where two are as near. -/
def divNearest (n d : Nat) : Nat :=
  if 2 * (n % d) > d ∨ 2 * (n % d) = d ∧ n / d % 2 = 1 then n / d + 1 else n / d

theorem le_divNearest (n d : Nat) : n / d ≤ divNearest n d := by
  unfold divNearest
  split
  · exact Nat.le_succ _
  · exact le_rfl

theorem divNearest_le (n d : Nat) : divNearest n d ≤ n / d + 1 := by
  unfold divNearest
  split
  · exact le_rfl
  · exact Nat.le_succ _

theorem divNearest_mono {n m d : Nat} (h : n ≤ m) : divNearest n d ≤ divNearest m d := by
  have hdiv : n / d ≤ m / d := Nat.div_le_div_right h
  cases Nat.lt_or_eq_of_le hdiv with
  | inl hlt => exact (divNearest_le n d).trans (Nat.le_trans hlt (le_divNearest m d))
  | inr heq =>
      -- the quotients are the same, so the remainders are in order
      have hmod : n % d ≤ m % d := by
        have hn := Nat.div_add_mod n d
        have hm := Nat.div_add_mod m d
        rw [heq] at hn
        omega
      unfold divNearest
      rw [heq]
      split <;> split <;> omega

/-- The magnitude of the float next to `n`: the exponent counts from the bit `1022` above the
53 bits of the significand, whose leading bit carries into it. -/
def magnitudeOfNat (n : Nat) : Nat :=
  if n = 0 then 0
  else (Nat.log2 n + 1022) * 2 ^ 52 + divNearest (n * 2 ^ 52) (2 ^ Nat.log2 n)

/-- The significand is normal. -/
theorem significand_bounds {n : Nat} (h : n ≠ 0) :
    2 ^ 52 ≤ divNearest (n * 2 ^ 52) (2 ^ Nat.log2 n) ∧
      divNearest (n * 2 ^ 52) (2 ^ Nat.log2 n) ≤ 2 ^ 53 := by
  have hpos : 0 < 2 ^ Nat.log2 n := Nat.two_pow_pos _
  constructor
  · refine le_trans ?_ (le_divNearest _ _)
    rw [Nat.le_div_iff_mul_le hpos, Nat.mul_comm]
    exact Nat.mul_le_mul_right _ (Nat.log2_self_le h)
  · have hlt : n * 2 ^ 52 / 2 ^ Nat.log2 n < 2 ^ 53 := by
      rw [Nat.div_lt_iff_lt_mul hpos]
      calc n * 2 ^ 52 < 2 ^ (Nat.log2 n + 1) * 2 ^ 52 :=
            Nat.mul_lt_mul_of_pos_right Nat.lt_log2_self (Nat.two_pow_pos _)
        _ = 2 ^ 53 * 2 ^ Nat.log2 n := by rw [Nat.pow_succ]; ring
    exact (divNearest_le _ _).trans hlt

theorem magnitudeOfNat_mono {n m : Nat} (h : n ≤ m) : magnitudeOfNat n ≤ magnitudeOfNat m := by
  by_cases hn : n = 0
  · rw [hn]
    exact Nat.zero_le _
  have hm : m ≠ 0 := by omega
  have hlog : Nat.log2 n ≤ Nat.log2 m := by
    rw [Nat.log2_eq_log_two, Nat.log2_eq_log_two]
    exact Nat.log_mono_right h
  unfold magnitudeOfNat
  rw [if_neg hn, if_neg hm]
  cases Nat.lt_or_eq_of_le hlog with
  | inl hlt =>
      -- the significand of `n` reaches the next exponent at most
      have hexp : Nat.log2 n + 1 + 1022 ≤ Nat.log2 m + 1022 := Nat.add_le_add_right hlt _
      calc (Nat.log2 n + 1022) * 2 ^ 52 + divNearest (n * 2 ^ 52) (2 ^ Nat.log2 n)
        _ ≤ (Nat.log2 n + 1022) * 2 ^ 52 + 2 ^ 53 :=
            Nat.add_le_add_left (significand_bounds hn).2 _
        _ = (Nat.log2 n + 1 + 1022) * 2 ^ 52 + 2 ^ 52 := by ring
        _ ≤ (Nat.log2 m + 1022) * 2 ^ 52 + divNearest (m * 2 ^ 52) (2 ^ Nat.log2 m) :=
            Nat.add_le_add (Nat.mul_le_mul_right _ hexp) (significand_bounds hm).1
  | inr heq =>
      rw [heq]
      exact Nat.add_le_add_left (divNearest_mono (Nat.mul_le_mul_right _ h)) _

theorem magnitudeOfNat_lt {n : Nat} (h : n ≤ 2 ^ 63) : magnitudeOfNat n < infinite := by
  have hlog : magnitudeOfNat n ≤ magnitudeOfNat (2 ^ 63) := magnitudeOfNat_mono h
  have htop : magnitudeOfNat (2 ^ 63) < infinite := by
    unfold magnitudeOfNat
    rw [Nat.log2_two_pow]
    decide
  exact hlog.trans_lt htop

/-- `i as f64`. -/
def ofInt (i : Int) : BitVec 64 :=
  BitVec.ofNat 64 (magnitudeOfNat i.natAbs + if i < 0 then 2 ^ 63 else 0)

section

variable {i j : Int}

theorem toNat_ofInt (h : i.natAbs ≤ 2 ^ 63) :
    (ofInt i).toNat = magnitudeOfNat i.natAbs + if i < 0 then 2 ^ 63 else 0 := by
  have hlt := magnitudeOfNat_lt h
  unfold infinite at hlt
  unfold ofInt
  rw [BitVec.toNat_ofNat, Nat.mod_eq_of_lt]
  split <;> omega

theorem magnitude_ofInt (h : i.natAbs ≤ 2 ^ 63) :
    magnitude (ofInt i) = magnitudeOfNat i.natAbs := by
  have hlt := magnitudeOfNat_lt h
  unfold infinite at hlt
  unfold magnitude
  rw [toNat_ofInt h]
  split <;> omega

theorem isNan_ofInt (h : i.natAbs ≤ 2 ^ 63) : isNan (ofInt i) = false := by
  unfold isNan
  rw [magnitude_ofInt h]
  exact decide_eq_false (magnitudeOfNat_lt h).asymm

theorem key_ofInt (h : i.natAbs ≤ 2 ^ 63) :
    key (ofInt i) = if i < 0 then -(magnitudeOfNat i.natAbs : Int) else magnitudeOfNat i.natAbs := by
  have hlt := magnitudeOfNat_lt h
  unfold infinite at hlt
  unfold key
  rw [magnitude_ofInt h, toNat_ofInt h]
  split <;> split <;> omega

/-- Rounding keeps the order. -/
theorem key_ofInt_mono (hi : i.natAbs ≤ 2 ^ 63) (hj : j.natAbs ≤ 2 ^ 63) (h : i ≤ j) :
    key (ofInt i) ≤ key (ofInt j) := by
  rw [key_ofInt hi, key_ofInt hj]
  by_cases hneg : i < 0
  · rw [if_pos hneg]
    by_cases hneg' : j < 0
    · rw [if_pos hneg']
      have hmono : magnitudeOfNat j.natAbs ≤ magnitudeOfNat i.natAbs :=
        magnitudeOfNat_mono (by omega)
      omega
    · rw [if_neg hneg']
      omega
  · have hneg' : ¬j < 0 := by omega
    rw [if_neg hneg, if_neg hneg']
    have hmono : magnitudeOfNat i.natAbs ≤ magnitudeOfNat j.natAbs :=
      magnitudeOfNat_mono (by omega)
    omega

end

end Binary64
