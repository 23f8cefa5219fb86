-- SUMMARY: Lists as random-access files: reading a range, writing a range, changing the length.
import Mathlib.Data.List.Basic
import Mathlib.Tactic.Common

/-!
# Random access on a list

A file is the list of its cells. Writing past the end fills the gap with the
default cell, as a sparse file reads back.
-/

namespace Extent

variable {α : Type}

/-- The `len` cells from `off` on. -/
def slice (cells : List α) (off len : Nat) : List α :=
  (cells.drop off).take len

variable [Inhabited α]

/-- Cut the file at `n` cells, or fill it up to `n`. -/
def resize (cells : List α) (n : Nat) : List α :=
  cells.take n ++ List.replicate (n - cells.length) default

/-- Write `new` at `off`. -/
def overwrite (cells : List α) (off : Nat) (new : List α) : List α :=
  resize cells off ++ new ++ cells.drop (off + new.length)

@[simp] theorem length_resize (cells : List α) (n : Nat) : (resize cells n).length = n := by
  simp only [resize, List.length_append, List.length_take, List.length_replicate]
  omega

theorem length_overwrite (cells : List α) (off : Nat) (new : List α) :
    (overwrite cells off new).length = max cells.length (off + new.length) := by
  simp only [overwrite, List.length_append, length_resize, List.length_drop]
  omega

theorem take_resize {cells : List α} {n k : Nat} (hk : k ≤ n) (hlen : k ≤ cells.length) :
    (resize cells n).take k = cells.take k := by
  rw [resize, List.take_append_of_le_length (by simp only [List.length_take]; omega), List.take_take,
    Nat.min_eq_left hk]

theorem take_overwrite {cells new : List α} {off k : Nat} (hk : k ≤ off) (hlen : k ≤ cells.length) :
    (overwrite cells off new).take k = cells.take k := by
  rw [overwrite, List.append_assoc, List.take_append_of_le_length (by simpa using hk),
    take_resize hk hlen]

omit [Inhabited α] in
/-- A range read twice from files that agree up to its end reads the same. -/
theorem slice_congr {cells cells' : List α} {off len k : Nat} (hk : off + len ≤ k)
    (h : cells'.take k = cells.take k) : slice cells' off len = slice cells off len := by
  have key : ∀ xs : List α, slice xs off len = ((xs.take k).drop off).take len := by
    intro xs
    rw [slice, List.drop_take, List.take_take, Nat.min_eq_left (by omega)]
  rw [key, key, h]

/-- What was written reads back. -/
theorem slice_overwrite_self (cells new : List α) (off : Nat) :
    slice (overwrite cells off new) off new.length = new := by
  rw [slice, overwrite, List.append_assoc, List.drop_append_of_le_length (by simp),
    List.drop_of_length_le (by simp), List.nil_append, List.take_left]

end Extent
