-- SUMMARY: Stable sorting with a comparison function that need not be that of a total order.
import Mathlib.Data.List.Sort
import Mathlib.Data.Fintype.Perm
import Mathlib.Tactic.Common

/-!
# Sorting a slice

With a total order, a stable sort leaves one list only. With any other comparison
function, a short slice is sorted by insertion all the same, from the left; what becomes
of a longer one is not specified, and the sort may panic.
-/

namespace SliceSort

variable {α : Type} (cmp : α → α → Ordering) (l : List α)

/-- On the elements of the list, `cmp` is the comparison of a total order. -/
def Total : Prop :=
  ∀ a ∈ l, ∀ b ∈ l, cmp b a = (cmp a b).swap ∧
    ∀ c ∈ l, cmp a b ≠ .gt → cmp b c ≠ .gt → cmp a c ≠ .gt

instance : Decidable (Total cmp l) := by
  unfold Total
  infer_instance

/-- Each element moves to the left past those that it is less than. -/
def insertLeft : List α := (l.reverse.insertionSort fun a b => cmp a b ≠ .lt).reverse

/-- The longest slice that is sorted by insertion. -/
def maxInsertion : Nat := 20

/-- `slice::sort_by`. Where nothing is specified, `disorder` says where each element of the
result comes from, or that the sort panics. -/
def sort (disorder : Option (Equiv.Perm (Fin l.length))) : Option (List α) :=
  if Total cmp l then some (l.insertionSort fun a b => cmp a b ≠ .gt)
  else if l.length ≤ maxInsertion then some (insertLeft cmp l)
  else disorder.map fun σ => List.ofFn fun i => l.get (σ i)

variable {cmp l} {disorder : Option (Equiv.Perm (Fin l.length))} {sorted : List α}

/-- A sort loses and invents nothing, whatever the comparison function. -/
theorem sort_perm (h : sort cmp l disorder = some sorted) : sorted.Perm l := by
  unfold sort at h
  split at h
  · cases h
    exact List.perm_insertionSort _ l
  split at h
  · cases h
    exact ((List.reverse_perm _).trans (List.perm_insertionSort _ _)).trans (List.reverse_perm l)
  · obtain ⟨σ, -, rfl⟩ := Option.map_eq_some_iff.mp h
    refine (Equiv.Perm.ofFn_comp_perm σ l.get).trans ?_
    rw [List.ofFn_get]

theorem sort_of_total (h : Total cmp l) :
    sort cmp l disorder = some (l.insertionSort fun a b => cmp a b ≠ .gt) := if_pos h

/-- Only a long slice without a total order makes a sort panic. -/
theorem sort_isSome_iff :
    (sort cmp l disorder).isSome ↔ Total cmp l ∨ l.length ≤ maxInsertion ∨ disorder.isSome := by
  unfold sort
  split
  · rename_i htotal
    exact iff_of_true rfl (.inl htotal)
  split
  · rename_i hshort
    exact iff_of_true rfl (.inr (.inl hshort))
  · rename_i hnot hlong
    rw [Option.isSome_map, or_iff_right hnot, or_iff_right hlong]

/-- Elements that compare as their keys do. -/
theorem total_of_key {κ : Type} [LinearOrder κ] {key : α → κ}
    (h : ∀ a ∈ l, ∀ b ∈ l, cmp a b = compare (key a) (key b)) : Total cmp l := by
  intro a ha b hb
  rw [h a ha b hb, h b hb a ha]
  refine ⟨Std.OrientedOrd.eq_swap, fun c hc => ?_⟩
  rw [h b hb c hc, h a ha c hc]
  simp only [ne_eq, compare_gt_iff_gt, not_lt]
  exact le_trans

end SliceSort
