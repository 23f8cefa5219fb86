-- SUMMARY: Sorting by scores, and which scores make a sort panic.
import Piramid.Base.Loop
import Piramid.Base.Ranking
import Piramid.Base.SliceSort
import Piramid.Compute

/-!
# Sorting by a score

A comparison that fails counts as equality, which makes no total order of scores with a
NaN among them.
-/

open Loop

/-- The panic of a sort that finds its comparisons to contradict each other. -/
def Fault.disorder : Fault :=
  .panic "user-provided comparison function does not correctly implement a total order"

section

variable [Floats] {α : Type}

/-- `x.partial_cmp(y).unwrap_or(Ordering::Equal)`, or `y` against `x`. -/
def SortOrder.cmp (order : SortOrder) (x y : F32) : Ordering :=
  match order with
  | .ascending => F32.cmp x y
  | .descending => F32.cmp y x

/-- `sort_by` of the scores that `key` takes. -/
def sortBy (order : SortOrder) (key : α → F32) (items : List α) : Except Fault (List α) :=
  match SliceSort.sort (fun a b => order.cmp (key a) (key b)) items
    (Floats.disorder order (items.map key) items.length) with
  | some sorted => .ok sorted
  | none => .error .disorder

/-- A sort by these scores returns: they are totally ordered, or few, or the sort does not
notice that they are not. -/
def Sortable (order : SortOrder) (scores : List F32) : Prop :=
  SliceSort.Total order.cmp scores ∨ scores.length ≤ SliceSort.maxInsertion ∨
    (Floats.disorder order scores scores.length).isSome

instance (order : SortOrder) (scores : List F32) : Decidable (Sortable order scores) := by
  unfold Sortable
  infer_instance

variable {order : SortOrder} {key : α → F32} {items sorted : List α}

theorem sortBy_perm (h : sortBy order key items = .ok sorted) : sorted.Perm items := by
  unfold sortBy at h
  split at h
  · rename_i hsort
    cases h
    exact SliceSort.sort_perm hsort
  · cases h

theorem sortBy_nil : sortBy order key [] = .ok [] := by
  have htotal : SliceSort.Total (fun a b : α => order.cmp (key a) (key b)) [] := by
    intro a ha
    cases ha
  unfold sortBy
  rw [SliceSort.sort_of_total htotal]
  rfl

theorem total_map_iff :
    SliceSort.Total order.cmp (items.map key) ↔
      SliceSort.Total (fun a b => order.cmp (key a) (key b)) items := by
  unfold SliceSort.Total
  simp only [List.forall_mem_map]

theorem sortBy_returns_iff :
    (∃ sorted, sortBy order key items = .ok sorted) ↔ Sortable order (items.map key) := by
  have hsome : Sortable order (items.map key) ↔
      (SliceSort.sort (fun a b => order.cmp (key a) (key b)) items
        (Floats.disorder order (items.map key) items.length)).isSome := by
    unfold Sortable
    rw [total_map_iff, List.length_map, SliceSort.sort_isSome_iff]
  rw [hsome]
  unfold sortBy
  split
  · rename_i sorted hsort
    rw [hsort]
    exact iff_of_true ⟨sorted, rfl⟩ rfl
  · rename_i hsort
    rw [hsort]
    exact iff_of_false (by simp) (by simp)

/-- Scores that compare as keys do are sorted by the keys. -/
theorem sortBy_sorted {κ : Type} [LinearOrder κ] {rank : α → κ}
    (hrank : ∀ a ∈ items, ∀ b ∈ items, order.cmp (key a) (key b) = compare (rank a) (rank b))
    (h : sortBy order key items = .ok sorted) : sorted.Pairwise fun a b => rank a ≤ rank b := by
  unfold sortBy at h
  rw [SliceSort.sort_of_total (SliceSort.total_of_key hrank)] at h
  cases h
  refine Ranking.sorted_by_key fun a ha b hb => ?_
  rw [hrank a ha b hb]
  exact compare_le_iff_le

theorem faults_sortBy {P : Fault → Prop} (h : P .disorder) (order : SortOrder) (key : α → F32)
    (items : List α) : Faults P (sortBy order key items) := by
  unfold sortBy
  split
  · exact .ok _
  · exact .error h

/-! ## Scores that can be sorted -/

/-- All scores of this kind can be sorted, however many there are. -/
def Sorts (order : SortOrder) (P : F32 → Prop) : Prop :=
  ∀ scores : List F32, (∀ x ∈ scores, P x) → Sortable order scores

variable {P : F32 → Prop}

theorem Sorts.returns (h : Sorts order P) (hitems : ∀ a ∈ items, P (key a)) :
    ∃ sorted, sortBy order key items = .ok sorted :=
  sortBy_returns_iff.mpr (h _ (List.forall_mem_map.mpr hitems))

/-- Numbers compare as their keys do, and none is a NaN. -/
theorem F32.Ordered.total (h : F32.Ordered P) {scores : List F32} (hscores : ∀ x ∈ scores, P x) :
    SliceSort.Total order.cmp scores := by
  obtain ⟨rank, hrank⟩ := h
  have hcmp : ∀ x ∈ scores, ∀ y ∈ scores, F32.cmp x y = compare (rank x) (rank y) := by
    intro x hx y hy
    rw [F32.cmp, hrank x y (hscores x hx) (hscores y hy), Option.getD_some]
  cases order with
  | ascending => exact SliceSort.total_of_key hcmp
  | descending =>
      have hdual : ∀ x ∈ scores, ∀ y ∈ scores, SortOrder.descending.cmp x y =
          compare (OrderDual.toDual (rank x)) (OrderDual.toDual (rank y)) :=
        fun x hx y hy => hcmp y hy x hx
      exact SliceSort.total_of_key hdual

theorem F32.Ordered.sorts (h : F32.Ordered P) : Sorts order P :=
  fun _ hscores => .inl (h.total hscores)

theorem F32.Ordered.sortBy_eq (h : F32.Ordered P) (hitems : ∀ a ∈ items, P (key a)) :
    sortBy order key items =
      .ok (items.insertionSort fun a b => order.cmp (key a) (key b) ≠ .gt) := by
  have hscores : SliceSort.Total order.cmp (items.map key) := h.total (List.forall_mem_map.mpr hitems)
  have htotal := total_map_iff.mp hscores
  unfold sortBy
  rw [SliceSort.sort_of_total htotal]

end
