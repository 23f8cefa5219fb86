-- SUMMARY: Points and centres: the cost at the cheapest centre, what the mean minimises, and when new centres are no worse.
import Mathlib.Algebra.BigOperators.Group.Finset.Basic
import Mathlib.Algebra.BigOperators.Group.Finset.Piecewise
import Mathlib.Algebra.Order.BigOperators.Group.Finset
import Mathlib.Algebra.Order.BigOperators.Group.List
import Mathlib.Algebra.Order.Field.Basic
import Mathlib.Data.List.GetD
import Mathlib.Tactic.FieldSimp
import Mathlib.Tactic.Linarith
import Mathlib.Tactic.Ring

/-!
# Inertia

Every point costs what it costs at the cheapest centre. Points that are placed at
their cheapest centre, and centres that are moved so that the points placed there
cost no more, make the total no larger. For squared distances the mean is such a move.
-/

namespace Inertia

/-! ## Points and centres -/

section

variable {P C K : Type} [AddCommMonoid K] [LinearOrder K] (cost : P → C → K)

/-- The cost of a point at the cheapest centre. -/
def least (centers : List C) (x : P) : K := ((centers.map (cost x)).min?).getD 0

/-- The cost of all points. -/
def total (centers : List C) (xs : List P) : K := (xs.map (least cost centers)).sum

/-- The cost of a point at the `j`-th centre. -/
def costAt (centers : List C) (j : Nat) (x : P) : K := (centers[j]?).elim 0 (cost x)

variable {cost} {centers centers' : List C} {x : P} {c : C} {j : Nat}

omit [LinearOrder K] in
theorem costAt_eq (h : centers[j]? = some c) : costAt cost centers j x = cost x c := by
  rw [costAt, h]
  rfl

theorem least_eq (hc : c ∈ centers) (hleast : ∀ c' ∈ centers, cost x c ≤ cost x c') :
    least cost centers x = cost x c := by
  have hmin : (centers.map (cost x)).min? = some (cost x c) := by
    rw [List.min?_eq_some_iff]
    refine ⟨List.mem_map_of_mem hc, fun b hb => ?_⟩
    obtain ⟨c', hc', rfl⟩ := List.mem_map.mp hb
    exact hleast c' hc'
  rw [least, hmin]
  rfl

theorem least_le (hc : c ∈ centers) : least cost centers x ≤ cost x c := by
  cases hmin : (centers.map (cost x)).min? with
  | none =>
      rw [List.min?_eq_none_iff] at hmin
      simp [List.map_eq_nil_iff.mp hmin] at hc
  | some m =>
      rw [least, hmin]
      exact (List.min?_eq_some_iff.mp hmin).2 _ (List.mem_map_of_mem hc)

omit [LinearOrder K] in
/-- A sum, part by part. -/
theorem sum_parts {k : Nat} (place : P → Nat) (f : P → K) {xs : List P}
    (h : ∀ x ∈ xs, place x < k) :
    ∑ j ∈ Finset.range k, ((xs.filter fun x => place x = j).map f).sum = (xs.map f).sum := by
  induction xs with
  | nil => simp
  | cons x xs ih =>
      have hhead : place x ∈ Finset.range k := Finset.mem_range.mpr (h x (by simp))
      have htail := ih fun x' hx' => h x' (by simp [hx'])
      have hsplit : ∀ j, (((x :: xs).filter fun x => place x = j).map f).sum =
          (if place x = j then f x else 0) + ((xs.filter fun x => place x = j).map f).sum := by
        intro j
        by_cases hj : place x = j
        · simp [hj]
        · simp [hj]
      simp only [hsplit, Finset.sum_add_distrib, htail, Finset.sum_ite_eq, hhead, if_true,
        List.map_cons, List.sum_cons]

/-- Each point is placed at a centre that is cheapest for it. -/
def Placed (cost : P → C → K) (centers : List C) (place : P → Nat) (xs : List P) : Prop :=
  ∀ x ∈ xs, ∃ c, centers[place x]? = some c ∧ ∀ c' ∈ centers, cost x c ≤ cost x c'

variable [IsOrderedAddMonoid K]

/-- New centres at which the points placed there cost no more make the total no larger. -/
theorem total_le {place : P → Nat} {xs : List P} (hplace : Placed cost centers place xs)
    (hlen : centers'.length = centers.length)
    (hmove : ∀ j < centers.length,
      ((xs.filter fun x => place x = j).map (costAt cost centers' j)).sum ≤
        ((xs.filter fun x => place x = j).map (costAt cost centers j)).sum) :
    total cost centers' xs ≤ total cost centers xs := by
  have hbound : ∀ x ∈ xs, place x < centers.length := by
    intro x hx
    obtain ⟨c, hc, -⟩ := hplace x hx
    exact (List.getElem?_eq_some_iff.mp hc).1
  have hparts : ∀ cs : List C, (xs.map fun x => costAt cost cs (place x) x).sum =
      ∑ j ∈ Finset.range centers.length,
        ((xs.filter fun x => place x = j).map (costAt cost cs j)).sum := by
    intro cs
    rw [← sum_parts place (fun x => costAt cost cs (place x) x) hbound]
    refine Finset.sum_congr rfl fun j _ => congrArg List.sum (List.map_congr_left fun x hx => ?_)
    rw [of_decide_eq_true (List.mem_filter.mp hx).2]
  calc total cost centers' xs
      ≤ (xs.map fun x => costAt cost centers' (place x) x).sum := by
        refine List.sum_le_sum fun x hx => ?_
        have hin : place x < centers'.length := hlen ▸ hbound x hx
        rw [costAt_eq (List.getElem?_eq_getElem hin)]
        exact least_le (List.getElem_mem hin)
    _ = ∑ j ∈ Finset.range centers.length,
          ((xs.filter fun x => place x = j).map (costAt cost centers' j)).sum := hparts centers'
    _ ≤ ∑ j ∈ Finset.range centers.length,
          ((xs.filter fun x => place x = j).map (costAt cost centers j)).sum :=
        Finset.sum_le_sum fun j hj => hmove j (Finset.mem_range.mp hj)
    _ = (xs.map fun x => costAt cost centers (place x) x).sum := (hparts centers).symm
    _ = total cost centers xs := by
        refine congrArg List.sum (List.map_congr_left fun x hx => ?_)
        obtain ⟨c, hc, hleast⟩ := hplace x hx
        rw [costAt_eq hc, least_eq (List.mem_of_getElem? hc) hleast]

end

/-! ## Means -/

section

variable {K : Type} [Field K]

/-- What squared differences add up to. -/
theorem sum_sq (xs : List K) (c : K) : (xs.map fun x => (x - c) * (x - c)).sum =
    (xs.map fun x => x * x).sum - 2 * c * xs.sum + xs.length * (c * c) := by
  induction xs with
  | nil => simp
  | cons x xs ih =>
      simp only [List.map_cons, List.sum_cons, ih, List.length_cons, Nat.cast_add, Nat.cast_one]
      ring

variable [LinearOrder K] [IsStrictOrderedRing K]

/-- The sum of squared differences is smallest at the mean. -/
theorem mean_minimises {xs : List K} (hne : xs ≠ []) (c : K) :
    (xs.map fun x => (x - xs.sum / xs.length) * (x - xs.sum / xs.length)).sum ≤
      (xs.map fun x => (x - c) * (x - c)).sum := by
  have hpos : (0 : K) < xs.length := Nat.cast_pos.mpr (List.length_pos_iff.mpr hne)
  have hmean : (xs.length : K) * (xs.sum / xs.length) = xs.sum := mul_div_cancel₀ _ hpos.ne'
  generalize xs.sum / (xs.length : K) = m at hmean
  -- the two sums are apart by the square of the way from the mean, once for each number
  have hapart : (xs.map fun x => (x - c) * (x - c)).sum =
      (xs.map fun x => (x - m) * (x - m)).sum + xs.length * ((m - c) * (m - c)) := by
    rw [sum_sq, sum_sq, ← hmean]
    ring
  have hway : 0 ≤ (xs.length : K) * ((m - c) * (m - c)) :=
    mul_nonneg hpos.le (mul_self_nonneg _)
  linarith

end

/-! ## Vectors -/

section

variable {K : Type} [Field K]

def squaredDistance (a b : List K) : K := (List.zipWith (fun x y => (x - y) * (x - y)) a b).sum

/-- The mean of vectors of `dim` components. -/
def vectorMean (dim : Nat) (vs : List (List K)) : List K :=
  (vs.foldl (List.zipWith (· + ·)) (List.replicate dim 0)).map (· / (vs.length : K))

theorem squaredDistance_eq {dim : Nat} {a b : List K} (ha : a.length = dim) (hb : b.length = dim) :
    squaredDistance a b =
      ∑ j ∈ Finset.range dim, (a.getD j 0 - b.getD j 0) * (a.getD j 0 - b.getD j 0) := by
  induction a generalizing b dim with
  | nil =>
      subst ha
      rfl
  | cons x a ih =>
      cases b with
      | nil => simp [← hb] at ha
      | cons y b =>
          obtain ⟨dim, rfl⟩ : ∃ n, dim = n + 1 := ⟨a.length, ha.symm⟩
          have hrest := ih (Nat.succ.inj ha) (Nat.succ.inj hb)
          have hcons : squaredDistance (x :: a) (y :: b) =
              (x - y) * (x - y) + squaredDistance a b := rfl
          rw [hcons, hrest, Finset.sum_range_succ', add_comm]
          rfl

theorem length_foldl_add {dim : Nat} {vs : List (List K)} (hvs : ∀ v ∈ vs, v.length = dim)
    {start : List K} (hstart : start.length = dim) :
    (vs.foldl (List.zipWith (· + ·)) start).length = dim := by
  induction vs generalizing start with
  | nil => exact hstart
  | cons v vs ih =>
      have hv : v.length = dim := hvs v (by simp)
      exact ih (fun v' hv' => hvs v' (by simp [hv'])) (by simp [hstart, hv])

/-- A component of a sum of vectors. -/
theorem getD_foldl_add {dim j : Nat} (hj : j < dim) {vs : List (List K)}
    (hvs : ∀ v ∈ vs, v.length = dim) {start : List K} (hstart : start.length = dim) :
    (vs.foldl (List.zipWith (· + ·)) start).getD j 0 =
      start.getD j 0 + (vs.map fun v => v.getD j 0).sum := by
  induction vs generalizing start with
  | nil => simp
  | cons v vs ih =>
      have hv : v.length = dim := hvs v (by simp)
      have hlen : (List.zipWith (· + ·) start v).length = dim := by simp [hstart, hv]
      have hadd : (List.zipWith (· + ·) start v).getD j 0 = start.getD j 0 + v.getD j 0 := by
        rw [List.getD_eq_getElem _ _ (hlen.symm ▸ hj), List.getElem_zipWith,
          List.getD_eq_getElem _ _ (hstart.symm ▸ hj), List.getD_eq_getElem _ _ (hv.symm ▸ hj)]
      rw [List.foldl_cons, ih (fun v' hv' => hvs v' (by simp [hv'])) hlen, hadd, List.map_cons,
        List.sum_cons, add_assoc]

theorem length_vectorMean {dim : Nat} {vs : List (List K)} (hvs : ∀ v ∈ vs, v.length = dim) :
    (vectorMean dim vs).length = dim := by
  rw [vectorMean, List.length_map]
  exact length_foldl_add hvs List.length_replicate

theorem getD_vectorMean {dim j : Nat} (hj : j < dim) {vs : List (List K)}
    (hvs : ∀ v ∈ vs, v.length = dim) :
    (vectorMean dim vs).getD j 0 = (vs.map fun v => v.getD j 0).sum / vs.length := by
  have hzeros : (List.replicate dim (0 : K)).length = dim := List.length_replicate
  have hzero : (List.replicate dim (0 : K)).getD j 0 = 0 := by
    rw [List.getD_eq_getElem _ _ (hzeros.symm ▸ hj), List.getElem_replicate]
  have hlen := length_foldl_add hvs hzeros
  have hsum := getD_foldl_add hj hvs hzeros
  rw [hzero, zero_add] at hsum
  unfold vectorMean
  generalize vs.foldl (List.zipWith (· + ·)) (List.replicate dim (0 : K)) = added at hlen hsum
  have hin : j < added.length := hlen.symm ▸ hj
  rw [List.getD_eq_getElem _ _ hin] at hsum
  rw [List.getD_eq_getElem _ _ (by rwa [List.length_map]), List.getElem_map, hsum]

/-- Components first, vectors second. -/
theorem sum_components {dim : Nat} (f : List K → Nat → K) (vs : List (List K)) :
    (vs.map fun v => ∑ j ∈ Finset.range dim, f v j).sum =
      ∑ j ∈ Finset.range dim, (vs.map fun v => f v j).sum := by
  induction vs with
  | nil => simp
  | cons v vs ih => simp only [List.map_cons, List.sum_cons, ih, Finset.sum_add_distrib]

variable [LinearOrder K] [IsStrictOrderedRing K]

theorem squaredDistance_nonneg (a b : List K) : 0 ≤ squaredDistance a b := by
  refine List.sum_nonneg fun d hd => ?_
  rw [← List.map_uncurry_zip_eq_zipWith] at hd
  obtain ⟨pair, -, rfl⟩ := List.mem_map.mp hd
  exact mul_self_nonneg _

/-- The sum of squared distances is smallest at the mean vector. -/
theorem vectorMean_minimises {dim : Nat} {vs : List (List K)} (hne : vs ≠ [])
    (hvs : ∀ v ∈ vs, v.length = dim) {c : List K} (hc : c.length = dim) :
    (vs.map fun v => squaredDistance v (vectorMean dim vs)).sum ≤
      (vs.map fun v => squaredDistance v c).sum := by
  have hparts : ∀ b : List K, b.length = dim → (vs.map fun v => squaredDistance v b).sum =
      ∑ j ∈ Finset.range dim,
        ((vs.map fun v => v.getD j 0).map fun x => (x - b.getD j 0) * (x - b.getD j 0)).sum := by
    intro b hb
    have hsq : (vs.map fun v => squaredDistance v b) = vs.map fun v =>
        ∑ j ∈ Finset.range dim, (v.getD j 0 - b.getD j 0) * (v.getD j 0 - b.getD j 0) :=
      List.map_congr_left fun v hv => squaredDistance_eq (hvs v hv) hb
    rw [hsq, sum_components]
    simp only [List.map_map, Function.comp_def]
  rw [hparts _ (length_vectorMean hvs), hparts c hc]
  refine Finset.sum_le_sum fun j hj => ?_
  have hcomponents : (vs.map fun v => v.getD j 0) ≠ [] := by simpa using hne
  have hmean := mean_minimises hcomponents (c.getD j 0)
  rw [List.length_map, ← getD_vectorMean (Finset.mem_range.mp hj) hvs] at hmean
  exact hmean

end

end Inertia
