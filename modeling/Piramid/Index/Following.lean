-- SUMMARY: Every id of an IVF index stays in the list its vector belongs in, unless it is inserted again with a vector for another list.
import Piramid.Index.Partition

/-!
# Lists that follow the vectors

An insertion puts an id into the list of the centroid with the highest score, and so does
clustering. An id that is in a list already is left where it is, whatever vector it is
inserted with.
-/

open Loop

namespace IvfIndex

section

variable [Floats]

/-- Every id in a list is in the one that its vector is put into. -/
def Follows (ix : IvfIndex) (vectors : HashMap Uuid Vector32) : Prop :=
  ∀ id i, ix.vectorToCluster.lookup id = some i →
    ∃ v, vectors.lookup id = some v ∧ ix.findNearestCentroid v = .ok i

/-- The id is in no list, or in the one that the vector is put into. -/
def Suits (ix : IvfIndex) (id : Uuid) (vector : Vector32) : Prop :=
  ∀ i, ix.vectorToCluster.lookup id = some i → ix.findNearestCentroid vector = .ok i

/-- The ids are inserted one after the other, each of them in no list at its turn or in the
one that its vector is put into. -/
def SuitsEach : List (Uuid × Vector32) → IvfIndex → HashMap Uuid Vector32 → Prop
  | [], _, _ => True
  | (id, v) :: entries, ix, vectors => ix.Suits id v ∧ ∀ order ix',
      ix.insert id v ⟨vectors.insert id v, order⟩ = .ok ix' → SuitsEach entries ix' (vectors.insert id v)

/-- A score that the vector has with some centroid. -/
def CentroidScore (ix : IvfIndex) (vector : Vector32) (x : F32) : Prop :=
  ∃ c ∈ ix.centroids, ix.config.metric.calculate vector c ix.config.mode = .ok x

/-- No centroid has a higher score with the vector than the `i`-th. -/
def Nearest (ix : IvfIndex) (vector : Vector32) (i : Nat) : Prop :=
  ∃ c x, ix.centroids[i]? = some c ∧ ix.config.metric.calculate vector c ix.config.mode = .ok x ∧
    ∀ y, ix.CentroidScore vector y → ¬F32.lt x y

/-! ## The highest score -/

/-- The last of the greatest scores is not less than the others. -/
theorem key_le_maxByScore {scores : List (Nat × F32)} {best : Nat × F32} {key : F32 → Int}
    (hkey : ∀ s ∈ scores, ∀ s' ∈ scores, F32.cmp s.2 s'.2 = compare (key s.2) (key s'.2))
    (hbest : maxByScore scores = some best) : ∀ s ∈ scores, key s.2 ≤ key best.2 := by
  have hfold : ∀ (ss : List (Nat × F32)) (b : Nat × F32), b ∈ scores → (∀ s ∈ ss, s ∈ scores) →
      ∀ s ∈ b :: ss, key s.2 ≤
        key (ss.foldl (fun best s => if F32.cmp best.2 s.2 = .gt then best else s) b).2 := by
    intro ss
    induction ss with
    | nil =>
        intro b _ _ s hs
        rw [List.mem_singleton.mp hs]
        exact le_refl _
    | cons s₀ ss ih =>
        intro b hb hss s hs
        have hs₀ := hss s₀ List.mem_cons_self
        have hrest : ∀ s ∈ ss, s ∈ scores := fun s hs => hss s (List.mem_cons_of_mem _ hs)
        rw [List.foldl_cons]
        by_cases hgt : F32.cmp b.2 s₀.2 = .gt
        · rw [if_pos hgt]
          have hkept := ih b hb hrest
          rw [hkey b hb s₀ hs₀, compare_gt_iff_gt] at hgt
          rcases List.mem_cons.mp hs with rfl | hs
          · exact hkept s List.mem_cons_self
          rcases List.mem_cons.mp hs with rfl | hs
          · exact le_trans (le_of_lt hgt) (hkept b List.mem_cons_self)
          · exact hkept s (List.mem_cons_of_mem _ hs)
        · rw [if_neg hgt]
          have hkept := ih s₀ hs₀ hrest
          rw [hkey b hb s₀ hs₀, compare_gt_iff_gt] at hgt
          rcases List.mem_cons.mp hs with rfl | hs
          · exact le_trans (not_lt.mp hgt) (hkept s₀ List.mem_cons_self)
          · exact hkept s hs
  cases scores with
  | nil => cases hbest
  | cons s ss =>
      cases hbest
      exact hfold ss s List.mem_cons_self fun s' hs' => List.mem_cons_of_mem _ hs'

variable {ix ix' : IvfIndex} {id : Uuid} {vector : Vector32} {vectors : HashMap Uuid Vector32}

/-- Where the scores are numbers, the highest is found. -/
theorem nearest_of_findNearestCentroid {i : Nat} (hcentroids : ix.centroids ≠ [])
    (hordered : F32.Ordered (ix.CentroidScore vector)) (h : ix.findNearestCentroid vector = .ok i) :
    ix.Nearest vector i := by
  obtain ⟨key, hkey⟩ := hordered
  unfold findNearestCentroid at h
  obtain ⟨scores, hscores, h⟩ := bind_eq_ok.mp h
  obtain ⟨hlen, hall⟩ := mapM_eq_ok hscores
  have hscored : ∀ s ∈ scores, ∃ c, ix.centroids[s.1]? = some c ∧
      ix.config.metric.calculate vector c ix.config.mode = .ok s.2 := by
    intro s hs
    obtain ⟨⟨c, j⟩, hc, hs⟩ := hall s hs
    obtain ⟨x, hx, hs⟩ := bind_eq_ok.mp hs
    cases hs
    exact ⟨c, List.mk_mem_zipIdx_iff_getElem?.mp hc, hx⟩
  have hcompare : ∀ s ∈ scores, ∀ s' ∈ scores, F32.cmp s.2 s'.2 = compare (key s.2) (key s'.2) := by
    intro s hs s' hs'
    obtain ⟨c, hc, hx⟩ := hscored s hs
    obtain ⟨c', hc', hx'⟩ := hscored s' hs'
    unfold F32.cmp
    rw [hkey s.2 s'.2 ⟨c, List.mem_of_getElem? hc, hx⟩ ⟨c', List.mem_of_getElem? hc', hx'⟩,
      Option.getD_some]
  cases hmax : maxByScore scores with
  | none =>
      cases scores with
      | nil =>
          rw [List.length_nil, List.length_zipIdx] at hlen
          exact absurd (List.length_eq_zero_iff.mp hlen.symm) hcentroids
      | cons s ss => cases hmax
  | some best =>
      rw [hmax] at h
      cases h
      obtain ⟨c, hc, hx⟩ := hscored best (mem_of_maxByScore hmax)
      refine ⟨c, best.2, hc, hx, fun y hy hlt => ?_⟩
      have hscore : ix.CentroidScore vector best.2 := ⟨c, List.mem_of_getElem? hc, hx⟩
      unfold F32.lt at hlt
      rw [hkey best.2 y hscore hy, decide_eq_true_eq, Option.some.injEq, compare_lt_iff_lt] at hlt
      obtain ⟨c', hc', hy'⟩ := hy
      obtain ⟨j, hj⟩ := List.mem_iff_getElem?.mp hc'
      obtain ⟨s, hs, hstep⟩ := mapM_covers hscores (List.mk_mem_zipIdx_iff_getElem?.mpr hj)
      obtain ⟨y', hy'', hstep⟩ := bind_eq_ok.mp hstep
      cases hstep
      rw [hy'] at hy''
      cases hy''
      exact absurd (key_le_maxByScore hcompare hmax (j, y) hs) (not_le.mpr hlt)

/-! ## Insertions and removals -/

/-- The nearest centroid is found among the centroids alone. -/
theorem findNearestCentroid_congr (hcentroids : ix'.centroids = ix.centroids)
    (hconfig : ix'.config = ix.config) (v : Vector32) :
    ix'.findNearestCentroid v = ix.findNearestCentroid v := by
  unfold findNearestCentroid
  rw [hcentroids, hconfig]

/-- Centroids that were made stay as they are. -/
theorem centroids_insert {reader : VectorReader} (hne : ix.centroids ≠ [])
    (hret : ix.insert id vector reader = .ok ix') :
    ix'.centroids = ix.centroids ∧ ix'.config = ix.config := by
  unfold IvfIndex.insert at hret
  split at hret
  · cases hret
    exact ⟨rfl, rfl⟩
  obtain ⟨i, -, hret⟩ := bind_eq_ok.mp hret
  split at hret
  · cases hret
    exact ⟨rfl, rfl⟩
  · cases hret
    exact ⟨rfl, rfl⟩

/-- Clustering puts every vector of the reader where it belongs. -/
theorem follows_buildClusters {reader : VectorReader} (hne : reader.len ≠ 0)
    (hret : ix.buildClusters reader = .ok ix') : ix'.Follows reader.vectors := by
  unfold buildClusters at hret
  rw [if_neg hne] at hret
  obtain ⟨ix₁, -, hret⟩ := bind_eq_ok.mp hret
  have hassigned := foldlM_keeps (fun (rest : List (Uuid × Vector32)) (ix₂ : IvfIndex) =>
    (∀ e ∈ rest, e ∈ reader.iter) ∧ ix₂.centroids = ix₁.centroids ∧ ix₂.config = ix₁.config ∧
      ix₂.Follows reader.vectors) ?_ ?_ hret
  · exact hassigned.2.2.2
  · rintro ⟨id, v⟩ rest ix₂ ix₃ ⟨hrest, hcentroids, hconfig, hfollows⟩ hstep
    unfold assign at hstep
    obtain ⟨i, hnearest, hstep⟩ := bind_eq_ok.mp hstep
    obtain ⟨lists, -, hstep⟩ := bind_eq_ok.mp hstep
    cases hstep
    refine ⟨fun e he => hrest e (List.mem_cons_of_mem _ he), hcentroids, hconfig, fun id' j hj => ?_⟩
    rw [HashMap.lookup_insert] at hj
    split at hj
    · rename_i heq
      cases hj
      rw [heq]
      exact ⟨v, (HashOrder.mem_entries _ _ _ _).mp (hrest (id, v) List.mem_cons_self), hnearest⟩
    · exact hfollows id' j hj
  · refine ⟨fun _ he => he, rfl, rfl, fun id i hi => ?_⟩
    rw [Finmap.lookup_empty] at hi
    cases hi

/-- The vector of one id is put into the reader, and the id is inserted. -/
theorem Follows.insert (h : ix.Follows vectors) (hsuits : ix.Suits id vector) {order : HashOrder Uuid}
    (hret : ix.insert id vector ⟨vectors.insert id vector, order⟩ = .ok ix') :
    ix'.Follows (vectors.insert id vector) := by
  have hput : ix.Follows (vectors.insert id vector) := by
    intro id' i hi
    rw [HashMap.lookup_insert]
    split
    · rename_i heq
      exact ⟨vector, rfl, hsuits i (heq ▸ hi)⟩
    · exact h id' i hi
  unfold IvfIndex.insert at hret
  split at hret
  · cases hret
    exact hput
  split at hret
  · simp only at hret
    split at hret
    · refine follows_buildClusters ?_ hret
      -- the reader has the vector that was put
      unfold VectorReader.len HashMap.len
      rw [HashMap.keys_insert]
      exact Finset.card_ne_zero_of_mem (Finset.mem_insert_self _ _)
    · cases hret
      exact hput
  · obtain ⟨i, hnearest, hret⟩ := bind_eq_ok.mp hret
    split at hret
    · cases hret
      exact hput
    · cases hret
      intro id' j hj
      rw [HashMap.lookup_insert] at hj
      split at hj
      · rename_i heq
        cases hj
        rw [heq]
        exact ⟨vector, Finmap.lookup_insert _, hnearest⟩
      · exact hput id' j hj

end

theorem lookup_remove (ix : IvfIndex) (id id' : Uuid) :
    (ix.remove id).vectorToCluster.lookup id' =
      if id' = id then none else ix.vectorToCluster.lookup id' := by
  unfold IvfIndex.remove
  simp only
  cases hlookup : ix.vectorToCluster.lookup id with
  | none =>
      by_cases heq : id' = id
      · rw [if_pos heq, heq]
        exact hlookup
      · rw [if_neg heq]
  | some i => exact HashMap.lookup_erase _ _ _

/-- An id is taken out of its list, and its vector may be another afterwards. -/
theorem Follows.remove [Floats] {ix : IvfIndex} {vectors vectors' : HashMap Uuid Vector32}
    (h : ix.Follows vectors) (id : Uuid)
    (hsame : ∀ id', id' ≠ id → vectors'.lookup id' = vectors.lookup id') :
    (ix.remove id).Follows vectors' := by
  intro id' i hi
  rw [lookup_remove] at hi
  split at hi
  · cases hi
  · rename_i hne
    obtain ⟨v, hv, hnearest⟩ := h id' i hi
    refine ⟨v, (hsame id' hne).trans hv, ?_⟩
    rw [findNearestCentroid_congr (centroids_remove ix id) (config_remove ix id)]
    exact hnearest

theorem suits_remove [Floats] (ix : IvfIndex) (id : Uuid) (vector : Vector32) :
    (ix.remove id).Suits id vector := by
  intro i hi
  rw [lookup_remove, if_pos rfl] at hi
  cases hi

end IvfIndex
