-- SUMMARY: Lists cut into blocks of one length, of which the last one may be shorter.
import Mathlib.Algebra.BigOperators.Group.List.Basic
import Mathlib.Algebra.Order.Group.Nat
import Mathlib.Tactic.Common

/-!
# Blocks of a list

Block `b` of a list is what lies from `b * len` on, up to `len` elements. The blocks
that begin before the end make up the list.
-/

/-- `n / d`, rounded up. -/
def divCeil (n d : Nat) : Nat := (n + d - 1) / d

theorem lt_divCeil {n d b : Nat} (hd : 0 < d) : b < divCeil n d ↔ b * d < n := by
  unfold divCeil
  rw [Nat.lt_iff_add_one_le, Nat.le_div_iff_mul_le hd, Nat.add_mul]
  omega

/-- The blocks that begin before the end are the first ones. -/
theorem takeWhile_range_blocks (s dim : Nat) {len : Nat} (hlen : 0 < len) :
    ((List.range s).takeWhile fun b => b * len < dim) =
      List.range (min s (divCeil dim len)) := by
  induction s with
  | zero => simp
  | succ s ih =>
      by_cases hs : s < divCeil dim len
      · -- all blocks before `s` begin before it
        have hall : ∀ b ∈ List.range s, decide (b * len < dim) = true := by
          intro b hb
          refine decide_eq_true ((lt_divCeil hlen).mp ?_)
          exact (List.mem_range.mp hb).trans hs
        have hmin : min (s + 1) (divCeil dim len) = s + 1 := Nat.min_eq_left hs
        rw [List.range_succ, List.takeWhile_append_of_pos hall, hmin, List.range_succ]
        simp [(lt_divCeil hlen).mp hs]
      · have hnot : ¬s * len < dim := fun h => hs ((lt_divCeil hlen).mpr h)
        have hmin : min (s + 1) (divCeil dim len) = min s (divCeil dim len) := by omega
        rw [List.range_succ, List.takeWhile_append, hmin, ← ih]
        split
        · rename_i hwhole
          rw [List.takeWhile_cons, decide_eq_false hnot]
          simpa using ((List.takeWhile_prefix _).eq_of_length hwhole).symm
        · rfl

/-- A list goes through block by block. -/
theorem flatMap_range_blocks {α β : Type} (xs : List α) (g : Nat → α → β) {len : Nat}
    (hlen : 0 < len) (n : Nat) :
    ((List.range n).flatMap fun b => ((xs.drop (b * len)).take len).map (g b)) =
      (xs.take (n * len)).mapIdx fun i x => g (i / len) x := by
  induction n with
  | zero => simp
  | succ n ih =>
      have hsplit : xs.take ((n + 1) * len) = xs.take (n * len) ++ (xs.drop (n * len)).take len := by
        rw [Nat.add_mul, Nat.one_mul, List.take_add]
      rw [List.range_succ, List.flatMap_append, ih, hsplit, List.mapIdx_append]
      refine congrArg (_ ++ ·) ?_
      simp only [List.flatMap_cons, List.flatMap_nil, List.append_nil]
      refine List.ext_getElem (by simp) fun i hi hi' => ?_
      simp only [List.length_map, List.length_take, List.length_drop] at hi
      -- the block is not empty, so there is a whole number of blocks before it
      have hbefore : (xs.take (n * len)).length = n * len := by
        rw [List.length_take]
        omega
      have hdiv : (i + n * len) / len = n := by
        rw [Nat.add_mul_div_right _ _ hlen, Nat.div_eq_of_lt (by omega), Nat.zero_add]
      simp only [List.getElem_map, List.getElem_mapIdx, hbefore, hdiv]

theorem le_divCeil_mul (n : Nat) {d : Nat} (hd : 0 < d) : n ≤ divCeil n d * d := by
  by_contra hlt
  exact lt_irrefl _ ((lt_divCeil hd).mpr (not_le.mp hlt))

/-- The blocks of a list, as many as there are. -/
def chunks {α : Type} (len : Nat) (xs : List α) : List (List α) :=
  (List.range (divCeil xs.length len)).map fun b => (xs.drop (b * len)).take len

/-- The sums of the blocks add up to the sum of the list. -/
theorem sum_chunks {M : Type} [AddCommMonoid M] {len : Nat} (hlen : 0 < len) (xs : List M) :
    ((chunks len xs).map List.sum).sum = xs.sum := by
  have htake : ∀ n, ((List.range n).map fun b => ((xs.drop (b * len)).take len).sum).sum =
      (xs.take (n * len)).sum := by
    intro n
    induction n with
    | zero => simp
    | succ n ih => rw [List.range_succ, List.map_append, List.sum_append, ih, Nat.add_mul, Nat.one_mul,
        List.take_add, List.sum_append, List.map_singleton, List.sum_singleton]
  rw [chunks, List.map_map]
  refine (htake _).trans ?_
  rw [List.take_of_length_le (le_divCeil_mul _ hlen)]
