-- SUMMARY: k-means over any type of numbers: the clustering of the index as one case, and passes in exact arithmetic.
import Mathlib.Analysis.Real.Sqrt
import Piramid.Base.Inertia
import Piramid.Index.Ivf
import Piramid.Kernels
import Piramid.Reference.Env

/-!
# k-means

The loop of `build_clusters` over any numbers that it can be run on. On `f32` it is
the loop of the index. On real numbers no pass raises the inertia, whatever vectors
tie and whichever clusters are empty, so long as the kernel computes the distance.
-/

open Loop

namespace KMeans

/-- What k-means does with an `f32`. -/
class Number (K : Type) where
  zero : K
  add : K → K → K
  div : K → K → K
  ofUsize : Nat → K
  /-- `a.partial_cmp(b).unwrap_or(Ordering::Equal)`. -/
  cmp : K → K → Ordering
  lt : K → K → Bool
  /-- `0.99`. -/
  converged : K

/-! ## The loop -/

section

variable {K : Type} [Number K]

/-- `Iterator::max_by` on the scores: the last of the greatest. -/
def maxByScore : List (Nat × K) → Option (Nat × K)
  | [] => none
  | s :: ss => some (ss.foldl (fun best s => if Number.cmp best.2 s.2 = .gt then best else s) s)

def addInto (centroid vec : List K) : Except Fault (List K) :=
  if vec.length ≤ centroid.length then
    .ok (List.zipWith Number.add centroid vec ++ centroid.drop vec.length)
  else .error (.panic ("index out of bounds: the len is " ++ toString centroid.length ++
    " but the index is " ++ toString centroid.length))

def computeCentroid (dimensions : Nat) (cluster : List (Uuid × List K)) : Except Fault (List K) :=
  if cluster.isEmpty then .ok (List.replicate dimensions Number.zero)
  else do
    let centroid ← cluster.foldlM (fun centroid entry => addInto centroid entry.2)
      (List.replicate dimensions Number.zero)
    pure (centroid.map fun val => Number.div val (Number.ofUsize cluster.length))

-- `config.metric.calculate(.., config.mode)`
variable (calculate : List K → List K → Except Fault K)

def findNearestCentroid (centroids : List (List K)) (vector : List K) : Except Fault Nat := do
  let scores ← centroids.zipIdx.mapM fun (centroid, i) => do
    let score ← calculate vector centroid
    pure (i, score)
  pure (((maxByScore scores).map Prod.fst).getD 0)

def assignClusters (centroids : List (List K)) (vectorList : List (Uuid × List K))
    (numClusters : Nat) : Except Fault (List (List (Uuid × List K))) :=
  vectorList.foldlM (fun clusters entry => do
    let clusterId ← findNearestCentroid calculate centroids entry.2
    pushAt clusters clusterId entry) (List.replicate numClusters [])

/-- The update of one centroid in place, with the flag that says whether all are stable. -/
def updateCentroid (dimensions : Nat) (state : List (List K) × Bool)
    (cluster : List (Uuid × List K) × Nat) : Except Fault (List (List K) × Bool) :=
  let (centroids, converged) := state
  let (entries, i) := cluster
  if entries.isEmpty then .ok (centroids, converged)
  else do
    let newCentroid ← computeCentroid dimensions entries
    match centroids[i]? with
    | none => .error (.panic ("index out of bounds: the len is " ++
        toString centroids.length ++ " but the index is " ++ toString i))
    | some old =>
      let distance ← calculate old newCentroid
      pure (centroids.set i newCentroid, converged && !Number.lt distance Number.converged)

/-- One pass: assign, then update. -/
def pass (dimensions : Nat) (vectorList : List (Uuid × List K)) (numClusters : Nat)
    (centroids : List (List K)) : Except Fault (List (List K) × Bool) := do
  let clusters ← assignClusters calculate centroids vectorList numClusters
  clusters.zipIdx.foldlM (updateCentroid calculate dimensions) (centroids, true)

def iterate (dimensions : Nat) (vectorList : List (Uuid × List K)) (numClusters : Nat) :
    Nat → List (List K) → Except Fault (List (List K))
  | 0, centroids => .ok centroids
  | n + 1, centroids => do
    let (centroids, converged) ← pass calculate dimensions vectorList numClusters centroids
    if converged then .ok centroids else iterate dimensions vectorList numClusters n centroids

/-- The centroids that k-means begins with. -/
def initialCentroids (config : IvfConfig) (vectorList : List (Uuid × List K)) : List (List K) :=
  (vectorList.take (min config.numClusters vectorList.length)).map Prod.snd

/-- The centroids of `build_clusters`, which the lists it fills at the end do not change. -/
def buildClusters (config : IvfConfig) (vectorList : List (Uuid × List K)) :
    Except Fault (List (List K)) :=
  let dimensions := (vectorList.head?.map fun entry => entry.2.length).getD 0
  iterate calculate dimensions vectorList (min config.numClusters vectorList.length)
    config.maxIterations (initialCentroids config vectorList)

end

/-! ## The clustering of the index -/

section

variable [Floats]

instance : Number F32 where
  zero := F32.zero
  add := Floats.add
  div := Floats.div
  ofUsize := Floats.ofUsize
  cmp := F32.cmp
  lt := F32.lt
  converged := F32.converged

/-- The scores of an index. -/
def metricOf (ix : IvfIndex) (a b : Vector32) : Except Fault F32 :=
  ix.config.metric.calculate a b ix.config.mode

variable {ix : IvfIndex}

theorem findNearestCentroid_eq (vector : Vector32) :
    ix.findNearestCentroid vector = findNearestCentroid (metricOf ix) ix.centroids vector := by
  have hmax : (IvfIndex.maxByScore : List (Nat × F32) → _) = maxByScore := by
    funext scores
    cases scores with
    | nil => rfl
    | cons s ss => rfl
  rw [IvfIndex.findNearestCentroid, hmax]
  rfl

theorem computeCentroid_eq (cluster : List (Uuid × Vector32)) :
    ix.computeCentroid cluster = computeCentroid ix.dimensions cluster := by
  cases cluster with
  | nil => rfl
  | cons e es => rfl

/-- The index with other centroids. -/
def withCentroids (ix : IvfIndex) (centroids : List Vector32) : IvfIndex := { ix with centroids }

theorem updateCentroid_eq (centroids : List Vector32) (converged : Bool)
    (cluster : List (Uuid × Vector32) × Nat) :
    IvfIndex.updateCentroid (withCentroids ix centroids, converged) cluster =
      (updateCentroid (metricOf ix) ix.dimensions (centroids, converged) cluster).map
        fun st => (withCentroids ix st.1, st.2) := by
  obtain ⟨entries, i⟩ := cluster
  cases entries with
  | nil => rfl
  | cons e es =>
      simp only [IvfIndex.updateCentroid, updateCentroid, computeCentroid_eq, withCentroids,
        reduceCtorEq, if_false, List.isEmpty_cons, Bool.false_eq_true]
      cases computeCentroid ix.dimensions (e :: es) with
      | error fault => rfl
      | ok newCentroid =>
          cases hold : centroids[i]? with
          | none =>
              simp only [bind, Except.bind]
              rfl
          | some old =>
              have hscore : ix.config.metric.calculate old newCentroid ix.config.mode =
                  metricOf ix old newCentroid := rfl
              simp only [bind, Except.bind, hscore]
              cases metricOf ix old newCentroid with
              | error fault => rfl
              | ok distance => rfl

theorem updateCentroids_eq (ix : IvfIndex) (centroids : List Vector32) (converged : Bool)
    (clusters : List (List (Uuid × Vector32) × Nat)) :
    clusters.foldlM IvfIndex.updateCentroid (withCentroids ix centroids, converged) =
      (clusters.foldlM (updateCentroid (metricOf ix) ix.dimensions) (centroids, converged)).map
        fun st => (withCentroids ix st.1, st.2) := by
  induction clusters generalizing centroids converged with
  | nil => rfl
  | cons cluster clusters ih =>
      rw [List.foldlM_cons, List.foldlM_cons, updateCentroid_eq]
      cases updateCentroid (metricOf ix) ix.dimensions (centroids, converged) cluster with
      | error fault => rfl
      | ok st => exact ih st.1 st.2

/-- The iterations of the index are those of k-means on `f32`, with the scores of the index. -/
theorem iterate_eq (ix : IvfIndex) (vectorList : List (Uuid × Vector32))
    (numClusters iterations : Nat) (centroids : List Vector32) :
    IvfIndex.iterate vectorList numClusters iterations (withCentroids ix centroids) =
      (iterate (metricOf ix) ix.dimensions vectorList numClusters iterations centroids).map
        (withCentroids ix) := by
  induction iterations generalizing centroids with
  | zero => rfl
  | succ n ih =>
      have hassign : (withCentroids ix centroids).assignClusters vectorList numClusters =
          assignClusters (metricOf ix) centroids vectorList numClusters := by
        simp only [IvfIndex.assignClusters, findNearestCentroid_eq]
        rfl
      simp only [IvfIndex.iterate, iterate, pass, hassign]
      cases assignClusters (metricOf ix) centroids vectorList numClusters with
      | error fault => rfl
      | ok clusters =>
          have hupdate := updateCentroids_eq ix centroids true clusters.zipIdx
          simp only [bind, Except.bind, hupdate]
          cases clusters.zipIdx.foldlM (updateCentroid (metricOf ix) ix.dimensions)
              (centroids, true) with
          | error fault => rfl
          | ok st =>
              obtain ⟨centroids', converged⟩ := st
              cases converged with
              | true => rfl
              | false => exact ih centroids'

/-- The centroids of a built index are those of k-means on `f32`. -/
theorem buildClusters_eq {vectors : VectorReader} {ix' : IvfIndex} (hne : vectors.len ≠ 0)
    (hret : ix.buildClusters vectors = .ok ix') :
    buildClusters (metricOf ix) ix.config vectors.iter = .ok ix'.centroids := by
  have hlen : vectors.iter.length = vectors.len := HashOrder.length_entries _ _
  obtain ⟨first, rest, hlist⟩ : ∃ first rest, vectors.iter = first :: rest := by
    cases hlist : vectors.iter with
    | nil => simp [hlist, ← hlen] at hne
    | cons first rest => exact ⟨first, rest, rfl⟩
  rw [IvfIndex.buildClusters, if_neg hne] at hret
  obtain ⟨clustered, hiterate, hassign⟩ := bind_eq_ok.mp hret
  have hstart := iterate_eq { ix with dimensions := first.2.length } vectors.iter
    (min ix.config.numClusters vectors.iter.length) ix.config.maxIterations
    (initialCentroids ix.config vectors.iter)
  have hdimensions : (vectors.iter.head?.map fun entry => entry.2.length) = some first.2.length := by
    rw [hlist]
    rfl
  have hkept : ix'.centroids = clustered.centroids := by
    refine foldlM_keeps (fun _ (ix : IvfIndex) => ix.centroids = clustered.centroids) ?_ ?_ hassign
    · intro entry entries ix₁ ix₂ hcentroids hentry
      rw [IvfIndex.assign, bind_eq_ok] at hentry
      obtain ⟨clusterId, -, hentry⟩ := hentry
      rw [bind_eq_ok] at hentry
      obtain ⟨lists, -, hentry⟩ := hentry
      cases hentry
      exact hcentroids
    · rfl
  rw [hdimensions] at hiterate
  have hsame : iterate (metricOf ix) first.2.length vectors.iter
      (min ix.config.numClusters vectors.iter.length) ix.config.maxIterations
      (initialCentroids ix.config vectors.iter) = .ok clustered.centroids := by
    have hboth := hstart.symm.trans hiterate
    cases hkmeans : iterate (metricOf ix) first.2.length vectors.iter
        (min ix.config.numClusters vectors.iter.length) ix.config.maxIterations
        (initialCentroids ix.config vectors.iter) with
    | error fault =>
        have hfault := (congrArg (Except.map _) hkmeans).symm.trans hboth
        cases hfault
    | ok centroids =>
        have hok := (congrArg (Except.map _) hkmeans).symm.trans hboth
        cases hok
        rfl
  rw [buildClusters, hdimensions, hkept]
  exact hsame

end

/-! ## What a pass does -/

section

variable {K : Type} [Number K] {calculate : List K → List K → Except Fault K}

/-- Entries go where `place` says they go. -/
theorem assignClusters_eq {centroids : List (List K)} {vectorList : List (Uuid × List K)}
    {numClusters : Nat} (place : Uuid × List K → Nat)
    (hplace : ∀ entry ∈ vectorList,
      findNearestCentroid calculate centroids entry.2 = .ok (place entry) ∧ place entry < numClusters) :
    assignClusters calculate centroids vectorList numClusters =
      .ok ((List.range numClusters).map fun j => vectorList.filter fun entry => place entry = j) := by
  have hloop : ∀ (done rest : List (Uuid × List K)), (∀ entry ∈ rest, entry ∈ vectorList) →
      rest.foldlM (fun clusters entry => do
        let clusterId ← findNearestCentroid calculate centroids entry.2
        pushAt clusters clusterId entry)
        ((List.range numClusters).map fun j => done.filter fun entry => place entry = j) =
      .ok ((List.range numClusters).map fun j =>
        (done ++ rest).filter fun entry => place entry = j) := by
    intro done rest hrest
    induction rest generalizing done with
    | nil =>
        rw [List.append_nil]
        rfl
    | cons entry rest ih =>
        obtain ⟨hfind, hlt⟩ := hplace entry (hrest entry (by simp))
        have hpush : pushAt ((List.range numClusters).map fun j =>
            done.filter fun entry => place entry = j) (place entry) entry =
            .ok ((List.range numClusters).map fun j =>
              (done ++ [entry]).filter fun entry => place entry = j) := by
          rw [pushAt, if_pos (by simpa using hlt)]
          refine congrArg Except.ok (List.ext_getElem? fun j => ?_)
          rw [List.getElem?_modify, List.getElem?_map, List.getElem?_map]
          by_cases hin : j < numClusters
          · rw [List.getElem?_range hin]
            by_cases hj : place entry = j
            · simp [hj]
            · simp [hj]
          · simp [hin]
        rw [List.foldlM_cons, hfind]
        have hnext := ih (done ++ [entry]) fun e he => hrest e (by simp [he])
        rw [List.append_assoc] at hnext
        refine Eq.trans ?_ hnext
        change (pushAt _ (place entry) entry >>= _) = _
        rw [hpush]
        rfl
  have hstart := hloop [] vectorList fun _ => id
  have hempty : ((List.range numClusters).map fun j =>
      ([] : List (Uuid × List K)).filter fun entry => place entry = j) =
      List.replicate numClusters [] := by simp
  rw [hempty, List.nil_append] at hstart
  exact hstart

/-- What becomes of a centroid whose cluster is `cluster`, if `mean` is what its vectors average to. -/
def moved (mean : List (Uuid × List K) → List K) (cluster : List (Uuid × List K))
    (centroid : List K) : List K :=
  if cluster.isEmpty then centroid else mean cluster

/-- The update in place moves each centroid once. -/
theorem updateCentroids_moved {dim : Nat} {mean : List (Uuid × List K) → List K}
    (hcalculate : ∀ a b, a.length = dim → b.length = dim → ∃ score, calculate a b = .ok score)
    {clusters : List (List (Uuid × List K))}
    (hmean : ∀ cluster ∈ clusters, cluster ≠ [] →
      computeCentroid dim cluster = .ok (mean cluster) ∧ (mean cluster).length = dim)
    {centroids : List (List K)} (hdim : ∀ c ∈ centroids, c.length = dim) {i : Nat}
    (hlen : i + clusters.length ≤ centroids.length) (converged : Bool) :
    Returns (fun st => st.1.length = centroids.length ∧ (∀ c ∈ st.1, c.length = dim) ∧
      ∀ j, st.1[j]? = if i ≤ j then
        (centroids[j]?).map (moved mean ((clusters[j - i]?).getD [])) else centroids[j]?)
      ((clusters.zipIdx i).foldlM (updateCentroid calculate dim) (centroids, converged)) := by
  induction clusters generalizing centroids i converged with
  | nil =>
      refine .ok ⟨rfl, hdim, fun j => ?_⟩
      have hnothing : moved mean [] = id := rfl
      simp [hnothing]
  | cons cluster clusters ih =>
      have hi : i < centroids.length := by
        rw [List.length_cons] at hlen
        omega
      have hlength : (moved mean cluster centroids[i]).length = dim := by
        unfold moved
        split
        · exact hdim _ (List.getElem_mem hi)
        · rename_i hne
          exact (hmean cluster (by simp) (by simpa using hne)).2
      have hstep : ∃ flag, updateCentroid calculate dim (centroids, converged) (cluster, i) =
          .ok (centroids.set i (moved mean cluster centroids[i]), flag) := by
        by_cases hempty : cluster = []
        · subst hempty
          refine ⟨converged, ?_⟩
          have hsame : centroids.set i (moved mean [] centroids[i]) = centroids :=
            List.set_getElem_self hi
          rw [hsame]
          rfl
        · obtain ⟨hcentroid, hnew⟩ := hmean cluster (by simp) hempty
          obtain ⟨score, hscore⟩ := hcalculate centroids[i] (mean cluster)
            (hdim _ (List.getElem_mem hi)) hnew
          have hmoved : moved mean cluster centroids[i] = mean cluster := by
            rw [moved, if_neg (by simpa using hempty)]
          refine ⟨converged && !Number.lt score Number.converged, ?_⟩
          rw [hmoved]
          have hnot : ¬cluster.isEmpty = true := by simpa using hempty
          simp only [updateCentroid]
          rw [if_neg hnot, hcentroid]
          simp only [bind, Except.bind, List.getElem?_eq_getElem hi, hscore]
          rfl
      obtain ⟨flag, hstep⟩ := hstep
      have hdim' : ∀ c ∈ centroids.set i (moved mean cluster centroids[i]), c.length = dim := by
        intro c hc
        cases List.mem_or_eq_of_mem_set hc with
        | inl hold => exact hdim c hold
        | inr hnew => exact hnew ▸ hlength
      have hlen' : i + 1 + clusters.length ≤
          (centroids.set i (moved mean cluster centroids[i])).length := by
        rw [List.length_set]
        rw [List.length_cons] at hlen
        omega
      have hrest := ih (fun c hc => hmean c (by simp [hc])) hdim' hlen' flag
      rw [List.zipIdx_cons, List.foldlM_cons, hstep]
      refine hrest.mono fun st hst => ⟨hst.1.trans (List.length_set ..), hst.2.1, fun j => ?_⟩
      rw [hst.2.2 j]
      -- before the cluster, at it, and behind it
      obtain hlt | heq | hgt := lt_trichotomy j i
      · have hnot : ¬i ≤ j := by omega
        have hnot' : ¬i + 1 ≤ j := by omega
        rw [if_neg hnot, if_neg hnot', List.getElem?_set_ne (by omega)]
      · subst heq
        have hnot : ¬j + 1 ≤ j := by omega
        rw [if_neg hnot, if_pos le_rfl, Nat.sub_self, List.getElem?_set_self hi,
          List.getElem?_eq_getElem hi]
        rfl
      · have hle : i ≤ j := by omega
        have hle' : i + 1 ≤ j := by omega
        have hsub : j - i = j - (i + 1) + 1 := by omega
        rw [if_pos hle, if_pos hle', List.getElem?_set_ne (by omega), hsub,
          List.getElem?_cons_succ]

end

/-! ## Exact arithmetic -/

section

variable {K : Type} [Field K] [LinearOrder K]

/-- Numbers without rounding. -/
@[reducible] def exactNumber (K : Type) [Field K] [LinearOrder K] : Number K where
  zero := 0
  add x y := x + y
  div x y := x / y
  ofUsize n := n
  cmp x y := compare x y
  lt x y := decide (x < y)
  converged := 99 / 100

def squaredCost (entry : Uuid × List K) (centroid : List K) : K :=
  Inertia.squaredDistance entry.2 centroid

/-- The sum over all vectors of the squared distance to the nearest centroid. -/
def inertia (centroids : List (List K)) (vectorList : List (Uuid × List K)) : K :=
  Inertia.total squaredCost centroids vectorList

/-- Whether the bits that the binary kernels make of two components differ. -/
def hammingTerm (x y : K) : Nat :=
  let bitA := if 0 ≤ x then 1 else 0
  let bitB := if 0 ≤ y then 1 else 0
  if bitA ≠ bitB then 1 else 0

variable [Floats] (sqrt : K → K) (cpus : Nat) (splits : List K → List K → Kernel.Splits)

/-- `euclidean_distance`. -/
def euclideanDistance (mode : ExecutionMode) (a b : List K) : Except Fault K :=
  match mode.resolve with
  | .simd => sqrt <$> Kernel.euclideanDistanceSquaredSimd a b
  | .scalar => sqrt <$> Kernel.euclideanDistanceSquaredScalar a b
  | .parallel => sqrt <$> Kernel.euclideanDistanceSquaredParallel cpus (splits a b) a b
  | .binary => (fun hammingDistance : Nat => sqrt hammingDistance) <$>
      Kernel.checked (Kernel.sumLoop hammingTerm) a b
  | .jit => sqrt <$> Kernel.euclideanDistanceSquaredJit a b
  | .gpu => .error (.panic "GPU euclidean distance is not implemented")
  | .auto => .error (.panic ("internal error: entered unreachable code: " ++
      "ExecutionMode::Auto should resolve before dispatch"))

/-- `Metric::Euclidean.calculate`. -/
def euclideanScore (mode : ExecutionMode) (a b : List K) : Except Fault K := do
  let dist ← euclideanDistance sqrt cpus splits mode a b
  pure (1 / (1 + dist))

variable {sqrt cpus splits} {mode : ExecutionMode} {a b : List K}

/-- A kernel that computes the distance computes it exactly. -/
theorem euclideanDistance_eq (himplemented : mode.Implemented) (hmode : mode ≠ .binary)
    (hlen : a.length = b.length) :
    euclideanDistance sqrt cpus splits mode a b = .ok (sqrt (Inertia.squaredDistance a b)) := by
  have hsimd : Kernel.euclideanDistanceSquaredSimd a b = .ok (Inertia.squaredDistance a b) :=
    (Kernel.checked_eq hlen).trans (Kernel.simdLoop_eq Kernel.squaredTerm hlen)
  have hscalar : Kernel.euclideanDistanceSquaredScalar a b = .ok (Inertia.squaredDistance a b) :=
    (Kernel.checked_eq hlen).trans (Kernel.sumLoop_eq Kernel.squaredTerm hlen)
  unfold euclideanDistance
  cases mode with
  | auto =>
      cases hdetected : (Floats.simdDetected : Bool) with
      | true =>
          simp only [ExecutionMode.resolve, hdetected, if_true, hsimd]
          rfl
      | false =>
          simp only [ExecutionMode.resolve, hdetected, Bool.false_eq_true, if_false, hscalar]
          rfl
  | simd =>
      simp only [ExecutionMode.resolve, hsimd]
      rfl
  | scalar =>
      simp only [ExecutionMode.resolve, hscalar]
      rfl
  | gpu => exact absurd rfl himplemented
  | parallel =>
      have hparallel : Kernel.euclideanDistanceSquaredParallel cpus (splits a b) a b =
          .ok (Inertia.squaredDistance a b) :=
        (Kernel.checked_eq hlen).trans
          (Kernel.parallelLoop_eq Kernel.squaredTerm hlen cpus (splits a b))
      simp only [ExecutionMode.resolve, hparallel]
      rfl
  | binary => exact absurd rfl hmode
  | jit =>
      have hjit : Kernel.euclideanDistanceSquaredJit a b = .ok (Inertia.squaredDistance a b) :=
        (Kernel.checked_eq hlen).trans (Kernel.jitLoop_eq Kernel.squaredTerm hlen)
      simp only [ExecutionMode.resolve, hjit]
      rfl

theorem euclideanScore_eq (himplemented : mode.Implemented) (hmode : mode ≠ .binary)
    (hlen : a.length = b.length) :
    euclideanScore sqrt cpus splits mode a b =
      .ok (1 / (1 + sqrt (Inertia.squaredDistance a b))) := by
  rw [euclideanScore, euclideanDistance_eq himplemented hmode hlen]
  rfl

end

/-! ## A pass on real numbers -/

section

attribute [local instance] exactNumber

/-- `max_by` finds a greatest score. -/
theorem maxByScore_greatest {scores : List (Nat × ℝ)} (hne : scores ≠ []) :
    ∃ s ∈ scores, maxByScore scores = some s ∧ ∀ s' ∈ scores, s'.2 ≤ s.2 := by
  cases scores with
  | nil => exact absurd rfl hne
  | cons first rest =>
      have hloop : ∀ best : Nat × ℝ, ∃ s ∈ best :: rest,
          rest.foldl (fun best s => if Number.cmp best.2 s.2 = .gt then best else s) best = s ∧
            ∀ s' ∈ best :: rest, s'.2 ≤ s.2 := by
        clear hne
        induction rest with
        | nil => exact fun best => ⟨best, by simp, rfl, by simp⟩
        | cons s rest ih =>
            intro best
            by_cases hgt : s.2 < best.2
            · obtain ⟨t, hmem, hfold, hall⟩ := ih best
              have hcmp : Number.cmp best.2 s.2 = .gt := compare_gt_iff_gt.mpr hgt
              refine ⟨t, ?_, ?_, ?_⟩
              · cases List.mem_cons.mp hmem with
                | inl h => simp [h]
                | inr h => simp [h]
              · rw [List.foldl_cons, if_pos hcmp, hfold]
              · have hbest := hall best (by simp)
                intro s' hs'
                rw [List.mem_cons, List.mem_cons] at hs'
                obtain rfl | rfl | hs' := hs'
                · exact hbest
                · exact hgt.le.trans hbest
                · exact hall s' (by simp [hs'])
            · obtain ⟨t, hmem, hfold, hall⟩ := ih s
              have hcmp : ¬Number.cmp best.2 s.2 = .gt := fun h => hgt (compare_gt_iff_gt.mp h)
              refine ⟨t, List.mem_cons_of_mem _ hmem, ?_, ?_⟩
              · rw [List.foldl_cons, if_neg hcmp, hfold]
              · have hs := hall s (by simp)
                intro s' hs'
                rw [List.mem_cons, List.mem_cons] at hs'
                obtain rfl | rfl | hs' := hs'
                · exact (not_lt.mp hgt).trans hs
                · exact hs
                · exact hall s' (by simp [hs'])
      obtain ⟨s, hmem, hfold, hall⟩ := hloop first
      exact ⟨s, hmem, congrArg some hfold, hall⟩

/-- Of two scores the greater one is that of the nearer centroid. -/
theorem le_of_score_le {x y : ℝ} (hy : 0 ≤ y) (h : 1 / (1 + √y) ≤ 1 / (1 + √x)) : x ≤ y := by
  have hposx : 0 < 1 + √x := by positivity
  have hposy : 0 < 1 + √y := by positivity
  have hroots : 1 + √x ≤ 1 + √y := (one_div_le_one_div hposy hposx).mp h
  have hle : √x ≤ √y := le_of_add_le_add_left hroots
  exact (Real.sqrt_le_sqrt_iff hy).mp hle

/-- On vectors of `dim` components the scores are those of the exact distance. -/
def Scored (dim : Nat) (calculate : List ℝ → List ℝ → Except Fault ℝ) : Prop :=
  ∀ a b : List ℝ, a.length = dim → b.length = dim →
    calculate a b = .ok (1 / (1 + √(Inertia.squaredDistance a b)))

variable {dim : Nat} {calculate : List ℝ → List ℝ → Except Fault ℝ}

/-- The centroid that is found is a nearest one, whichever of those that tie it is. -/
theorem findNearestCentroid_nearest (hscored : Scored dim calculate) {centroids : List (List ℝ)}
    (hne : centroids ≠ []) (hdim : ∀ c ∈ centroids, c.length = dim) {vector : List ℝ}
    (hvector : vector.length = dim) :
    ∃ i c, findNearestCentroid calculate centroids vector = .ok i ∧ centroids[i]? = some c ∧
      ∀ c' ∈ centroids, Inertia.squaredDistance vector c ≤ Inertia.squaredDistance vector c' := by
  have hscores : (centroids.zipIdx.mapM fun (centroid, i) => do
      let score ← calculate vector centroid
      pure (i, score)) = .ok (centroids.zipIdx.map fun entry =>
        (entry.2, 1 / (1 + √(Inertia.squaredDistance vector entry.1)))) := by
    refine mapM_eq_map fun entry hentry => ?_
    change (calculate vector entry.1 >>= fun score => pure (entry.2, score)) = _
    rw [hscored vector entry.1 hvector (hdim _ (List.fst_mem_of_mem_zipIdx hentry))]
    rfl
  have hnonempty : (centroids.zipIdx.map fun entry =>
      (entry.2, 1 / (1 + √(Inertia.squaredDistance vector entry.1)))) ≠ [] := by
    simpa using hne
  obtain ⟨s, hmem, hmax, hall⟩ := maxByScore_greatest hnonempty
  obtain ⟨⟨c, i⟩, hentry, rfl⟩ := List.mem_map.mp hmem
  have hc : centroids[i]? = some c := List.mem_zipIdx_iff_getElem?.mp hentry
  refine ⟨i, c, ?_, hc, fun c' hc' => ?_⟩
  · rw [findNearestCentroid, hscores]
    change Except.ok (((maxByScore _).map Prod.fst).getD 0) = _
    rw [hmax]
    rfl
  · obtain ⟨j, hj⟩ := List.mem_iff_getElem?.mp hc'
    have hin : (c', j) ∈ centroids.zipIdx := List.mem_zipIdx_iff_getElem?.mpr hj
    have hother := hall _ (List.mem_map_of_mem hin)
    exact le_of_score_le (Inertia.squaredDistance_nonneg _ _) hother

/-- A centroid is the mean of its cluster. -/
theorem computeCentroid_mean {cluster : List (Uuid × List ℝ)} (hne : cluster ≠ [])
    (hdim : ∀ entry ∈ cluster, entry.2.length = dim) :
    computeCentroid dim cluster = .ok (Inertia.vectorMean dim (cluster.map Prod.snd)) := by
  have hloop : ∀ start : List ℝ, start.length = dim →
      cluster.foldlM (fun centroid entry => addInto centroid entry.2) start =
        .ok ((cluster.map Prod.snd).foldl (List.zipWith (· + ·)) start) := by
    clear hne
    induction cluster with
    | nil => exact fun _ _ => rfl
    | cons entry cluster ih =>
        intro start hstart
        have hentry : entry.2.length = dim := hdim entry (by simp)
        have hadd : addInto start entry.2 = .ok (List.zipWith (· + ·) start entry.2) := by
          rw [addInto, if_pos (by omega), List.drop_eq_nil_of_le (by omega), List.append_nil]
          rfl
        have hlen : (List.zipWith (· + ·) start entry.2).length = dim := by simp [hstart, hentry]
        rw [List.foldlM_cons, hadd]
        exact ih (fun e he => hdim e (by simp [he])) _ hlen
  rw [computeCentroid, if_neg (by simpa using hne)]
  have hstart := hloop (List.replicate dim 0) List.length_replicate
  change (cluster.foldlM (fun centroid entry => addInto centroid entry.2)
    (List.replicate dim 0) >>= _) = _
  rw [hstart]
  rw [Inertia.vectorMean, List.length_map]
  rfl

/-- A pass returns, and the inertia is no larger after it. -/
theorem pass_returns (hscored : Scored dim calculate) {vectorList : List (Uuid × List ℝ)}
    (hvectors : ∀ entry ∈ vectorList, entry.2.length = dim) {centroids : List (List ℝ)}
    (hne : centroids ≠ []) (hdim : ∀ c ∈ centroids, c.length = dim) :
    Returns (fun st => st.1.length = centroids.length ∧ (∀ c ∈ st.1, c.length = dim) ∧
        inertia st.1 vectorList ≤ inertia centroids vectorList)
      (pass calculate dim vectorList centroids.length centroids) := by
  let place (entry : Uuid × List ℝ) : Nat :=
    (findNearestCentroid calculate centroids entry.2).toOption.getD 0
  have hnearest : ∀ entry ∈ vectorList,
      findNearestCentroid calculate centroids entry.2 = .ok (place entry) ∧
        ∃ c, centroids[place entry]? = some c ∧ ∀ c' ∈ centroids,
          Inertia.squaredDistance entry.2 c ≤ Inertia.squaredDistance entry.2 c' := by
    intro entry hentry
    obtain ⟨i, c, hfind, hc, hleast⟩ :=
      findNearestCentroid_nearest hscored hne hdim (hvectors entry hentry)
    have hplace : place entry = i := by
      simp only [place, hfind]
      rfl
    exact ⟨hplace ▸ hfind, c, hplace ▸ hc, hleast⟩
  have hplace : ∀ entry ∈ vectorList,
      findNearestCentroid calculate centroids entry.2 = .ok (place entry) ∧
        place entry < centroids.length := by
    intro entry hentry
    obtain ⟨hfind, c, hc, -⟩ := hnearest entry hentry
    exact ⟨hfind, (List.getElem?_eq_some_iff.mp hc).1⟩
  have hassign := assignClusters_eq place hplace
  rw [pass, hassign]
  generalize hparts : (List.range centroids.length).map (fun j =>
    vectorList.filter fun entry => place entry = j) = clusters
  have hlength : clusters.length = centroids.length := by simp [← hparts]
  have hclusters : ∀ cluster ∈ clusters, ∀ entry ∈ cluster, entry.2.length = dim := by
    intro cluster hcluster entry hentry
    obtain ⟨j, -, rfl⟩ := List.mem_map.mp (hparts ▸ hcluster)
    exact hvectors entry (List.mem_of_mem_filter hentry)
  have hmean : ∀ cluster ∈ clusters, cluster ≠ [] →
      computeCentroid dim cluster = .ok (Inertia.vectorMean dim (cluster.map Prod.snd)) ∧
        (Inertia.vectorMean dim (cluster.map Prod.snd)).length = dim := by
    intro cluster hcluster hnonempty
    refine ⟨computeCentroid_mean hnonempty (hclusters cluster hcluster),
      Inertia.length_vectorMean fun v hv => ?_⟩
    obtain ⟨entry, hentry, rfl⟩ := List.mem_map.mp hv
    exact hclusters cluster hcluster entry hentry
  have hupdate := updateCentroids_moved (fun a b ha hb => ⟨_, hscored a b ha hb⟩) hmean hdim
    (i := 0) (by rw [Nat.zero_add, hlength]) true
  refine Returns.mono hupdate fun st hst => ⟨hst.1, hst.2.1, ?_⟩
  subst hparts
  have hplaced : Inertia.Placed squaredCost centroids place vectorList := fun entry hentry =>
    (hnearest entry hentry).2
  refine Inertia.total_le hplaced hst.1 ?_
  intro j hj
  -- the cluster of `j`, and what became of its centroid
  have hmoved := hst.2.2 j
  simp only [Nat.zero_le, if_true, Nat.sub_zero, List.getElem?_map, List.getElem?_range hj,
    Option.map_some, Option.getD_some, List.getElem?_eq_getElem hj] at hmoved
  by_cases hempty : (vectorList.filter fun entry => place entry = j) = []
  · rw [hempty]
    rfl
  · have hnonempty : (vectorList.filter fun entry => place entry = j).map Prod.snd ≠ [] := by
      simpa using hempty
    have hlengths : ∀ v ∈ (vectorList.filter fun entry => place entry = j).map Prod.snd,
        v.length = dim := by
      intro v hv
      obtain ⟨entry, hentry, rfl⟩ := List.mem_map.mp hv
      exact hvectors entry (List.mem_of_mem_filter hentry)
    have hmean := Inertia.vectorMean_minimises hnonempty hlengths (hdim _ (List.getElem_mem hj))
    rw [moved, if_neg (by simpa using hempty)] at hmoved
    simp only [List.map_map, Function.comp_def] at hmean
    have hafter : Inertia.costAt squaredCost st.1 j = (squaredCost · _) :=
      funext fun _ => Inertia.costAt_eq hmoved
    have hbefore : Inertia.costAt squaredCost centroids j = (squaredCost · _) :=
      funext fun _ => Inertia.costAt_eq (List.getElem?_eq_getElem hj)
    rw [hafter, hbefore]
    exact hmean

theorem iterate_returns (hscored : Scored dim calculate) {vectorList : List (Uuid × List ℝ)}
    (hvectors : ∀ entry ∈ vectorList, entry.2.length = dim) (iterations : Nat)
    {centroids : List (List ℝ)} (hne : centroids ≠ []) (hdim : ∀ c ∈ centroids, c.length = dim) :
    Returns (fun centroids' => inertia centroids' vectorList ≤ inertia centroids vectorList)
      (iterate calculate dim vectorList centroids.length iterations centroids) := by
  induction iterations generalizing centroids with
  | zero => exact .ok le_rfl
  | succ n ih =>
      rw [iterate]
      refine (pass_returns hscored hvectors hne hdim).bind ?_
      rintro ⟨centroids', converged⟩ ⟨hlen, hdim', hle⟩
      cases converged with
      | true => exact .ok hle
      | false =>
          have hlen' : centroids'.length = centroids.length := hlen
          have hne' : centroids' ≠ [] := by
            rw [← List.length_pos_iff, hlen', List.length_pos_iff]
            exact hne
          have hrest := ih hne' hdim'
          rw [hlen'] at hrest
          exact hrest.mono fun _ h => h.trans hle

/-- A kernel that fails fails the pass. -/
theorem pass_fails {fault : Fault} (hfail : ∀ a b, calculate a b = .error fault)
    {vectorList : List (Uuid × List ℝ)} (hvectors : vectorList ≠ []) {centroids : List (List ℝ)}
    (hne : centroids ≠ []) : pass calculate dim vectorList centroids.length centroids = .error fault := by
  obtain ⟨entry, entries, rfl⟩ := List.exists_cons_of_ne_nil hvectors
  obtain ⟨c, cs, rfl⟩ := List.exists_cons_of_ne_nil hne
  have hfind : findNearestCentroid calculate (c :: cs) entry.2 = .error fault := by
    simp only [findNearestCentroid, List.zipIdx_cons, List.mapM_cons, hfail]
    rfl
  rw [pass, assignClusters, List.foldlM_cons, hfind]
  rfl

variable [Floats]

theorem scored_euclideanScore {cpus : Nat} {splits : List ℝ → List ℝ → Kernel.Splits}
    {mode : ExecutionMode} (himplemented : mode.Implemented) (hmode : mode ≠ .binary) :
    Scored dim (euclideanScore Real.sqrt cpus splits mode) :=
  fun _ _ ha hb => euclideanScore_eq himplemented hmode (ha.trans hb.symm)

/-- For every kernel that computes the distance and all vectors of one length: no pass raises the
inertia, so that the inertia after k-means is at most that of the centroids it began with. -/
theorem inertia_never_rises (config : IvfConfig) (hmode : config.mode ≠ .binary)
    (hclusters : 1 ≤ config.numClusters) (cpus : Nat) (splits : List ℝ → List ℝ → Kernel.Splits)
    {vectorList : List (Uuid × List ℝ)} (hne : vectorList ≠ [])
    (hvectors : ∀ entry ∈ vectorList, entry.2.length = dim) :
    let calculate := euclideanScore Real.sqrt cpus splits config.mode
    (∀ centroids : List (List ℝ), centroids ≠ [] → (∀ c ∈ centroids, c.length = dim) →
      ∀ centroids' converged, pass calculate dim vectorList centroids.length centroids =
        .ok (centroids', converged) → inertia centroids' vectorList ≤ inertia centroids vectorList) ∧
    (∀ centroids, buildClusters calculate config vectorList = .ok centroids →
      inertia centroids vectorList ≤ inertia (initialCentroids config vectorList) vectorList) ∧
    (config.mode.Implemented → ∃ centroids, buildClusters calculate config vectorList = .ok centroids) := by
  intro calculate
  obtain ⟨first, rest, rfl⟩ := List.exists_cons_of_ne_nil hne
  have hdimensions : first.2.length = dim := hvectors first (by simp)
  have hinitial : (initialCentroids config (first :: rest)).length =
      min config.numClusters (first :: rest).length := by
    simp [initialCentroids]
  have hstart : initialCentroids config (first :: rest) ≠ [] := by
    rw [← List.length_pos_iff, hinitial, List.length_cons]
    omega
  have hlengths : ∀ c ∈ initialCentroids config (first :: rest), c.length = dim := by
    intro c hc
    obtain ⟨entry, hentry, rfl⟩ := List.mem_map.mp hc
    exact hvectors entry (List.mem_of_mem_take hentry)
  have hbuild : buildClusters calculate config (first :: rest) =
      iterate calculate dim (first :: rest) (initialCentroids config (first :: rest)).length
        config.maxIterations (initialCentroids config (first :: rest)) := by
    rw [buildClusters, hinitial, ← hdimensions]
    rfl
  rw [hbuild]
  by_cases himplemented : config.mode.Implemented
  · have hscored : Scored dim calculate := scored_euclideanScore himplemented hmode
    obtain ⟨built, hbuilt, hle⟩ := iterate_returns hscored hvectors config.maxIterations hstart hlengths
    refine ⟨fun centroids hcentroids hdim centroids' converged hpass => ?_, fun centroids h => ?_,
      fun _ => ⟨built, hbuilt⟩⟩
    · obtain ⟨st, hst, -, -, hstle⟩ := pass_returns hscored hvectors hcentroids hdim
      rw [hst] at hpass
      cases hpass
      exact hstle
    · rw [hbuilt] at h
      cases h
      exact hle
  · have hgpu : config.mode = .gpu := not_not.mp himplemented
    have hfail : ∀ a b, calculate a b = .error (.panic "GPU euclidean distance is not implemented") := by
      intro a b
      simp only [calculate, hgpu]
      rfl
    refine ⟨fun centroids hcentroids _ centroids' converged hpass => ?_, fun centroids h => ?_,
      fun h => absurd h himplemented⟩
    · rw [pass_fails hfail (by simp) hcentroids] at hpass
      cases hpass
    · cases hiterations : config.maxIterations with
      | zero =>
          rw [hiterations] at h
          cases h
          exact le_rfl
      | succ n =>
          rw [hiterations, iterate, pass_fails hfail (by simp) hstart] at h
          cases h

end

/-! Vectors on one line. -/

section

attribute [local instance] exactNumber Reference.floats

def twoOnALine : List (Uuid × List ℝ) := [(1, [0]), (2, [1])]

def unsplit (_ _ : List ℝ) : Kernel.Splits := .leaf

/-- Two clusters for the vectors, and the given kernels. -/
def twoClusters (mode : ExecutionMode) : IvfConfig := ⟨2, 1, 10, .euclidean, mode⟩

def threeOnALine : List (Uuid × List ℝ) := [(1, [0]), (2, [1]), (3, [3])]

theorem length_threeOnALine : ∀ entry ∈ threeOnALine, entry.2.length = 1 := by simp [threeOnALine]

theorem scored_scalar : Scored 1 (euclideanScore Real.sqrt 1 unsplit .scalar) :=
  scored_euclideanScore (by decide) (by decide)

/-- The first vector is nearer to one centroid, and the others to the other. -/
theorem nearest_threeOnALine (entry : Uuid × List ℝ) (hentry : entry ∈ threeOnALine) :
    findNearestCentroid (euclideanScore Real.sqrt 1 unsplit .scalar) [[0], [1]] entry.2 =
      .ok (if entry.1 = 1 then 0 else 1) ∧ (if entry.1 = 1 then 0 else 1) < 2 := by
  have hne : ([[0], [1]] : List (List ℝ)) ≠ [] := List.cons_ne_nil _ _
  obtain ⟨i, c, hfind, hc, hleast⟩ := findNearestCentroid_nearest scored_scalar hne (by simp)
    (length_threeOnALine entry hentry)
  have hfirst := hleast [0] (by simp)
  have hsecond := hleast [1] (by simp)
  rw [hfind]
  simp only [threeOnALine, List.mem_cons, List.not_mem_nil, or_false] at hentry
  match i, hc with
  | 0, hc =>
      cases hc
      rcases hentry with rfl | rfl | rfl
      · exact ⟨rfl, by decide⟩
      · norm_num [Inertia.squaredDistance] at hsecond
      · norm_num [Inertia.squaredDistance] at hsecond
  | 1, hc =>
      cases hc
      rcases hentry with rfl | rfl | rfl
      · norm_num [Inertia.squaredDistance] at hfirst
      · exact ⟨rfl, by decide⟩
      · exact ⟨rfl, by decide⟩

/-- The second centroid moves between its vectors. -/
theorem pass_threeOnALine :
    pass (euclideanScore Real.sqrt 1 unsplit .scalar) 1 threeOnALine 2 [[0], [1]] =
      .ok ([[0], [2]], false) := by
  rw [pass, assignClusters_eq (fun entry => if entry.1 = 1 then 0 else 1) nearest_threeOnALine]
  have hclusters : ((List.range 2).map fun j => threeOnALine.filter fun entry =>
      (if entry.1 = 1 then 0 else 1) = j) = [[(1, [0])], [(2, [1]), (3, [3])]] := by
    simp [List.range_succ, threeOnALine]
  have hstay : computeCentroid 1 [((1 : Uuid), [(0 : ℝ)])] = .ok [0] := by
    rw [computeCentroid_mean (by simp) (by simp)]
    simp [Inertia.vectorMean]
  have hmean : computeCentroid 1 [((2 : Uuid), [(1 : ℝ)]), (3, [3])] = .ok [2] := by
    rw [computeCentroid_mean (by simp) (by simp)]
    norm_num [Inertia.vectorMean]
  have hfirst : updateCentroid (euclideanScore Real.sqrt 1 unsplit .scalar) 1 ([[0], [1]], true)
      ([(1, [0])], 0) = .ok ([[0], [1]], true) := by
    have hold : ([[0], [1]] : List (List ℝ))[0]? = some [0] := rfl
    have hscore := scored_scalar [0] [0] rfl rfl
    have hstable : Number.lt (1 / (1 + √(Inertia.squaredDistance [0] [0])) : ℝ) Number.converged = false := by
      norm_num [Number.lt, Number.converged, Inertia.squaredDistance]
    simp only [updateCentroid, List.isEmpty_cons, Bool.false_eq_true, if_false, hstay, bind, Except.bind, hold,
      hscore, hstable]
    rfl
  have hsecond : updateCentroid (euclideanScore Real.sqrt 1 unsplit .scalar) 1 ([[0], [1]], true)
      ([(2, [1]), (3, [3])], 1) = .ok ([[0], [2]], false) := by
    have hold : ([[0], [1]] : List (List ℝ))[1]? = some [1] := rfl
    have hscore := scored_scalar [1] [2] rfl rfl
    have hmoved : Number.lt (1 / (1 + √(Inertia.squaredDistance [1] [2])) : ℝ) Number.converged = true := by
      norm_num [Number.lt, Number.converged, Inertia.squaredDistance]
    simp only [updateCentroid, List.isEmpty_cons, Bool.false_eq_true, if_false, hmean, bind, Except.bind, hold,
      hscore, hmoved]
    rfl
  rw [hclusters]
  simp only [bind, Except.bind, List.zipIdx_cons, List.zipIdx_nil, List.foldlM_cons, List.foldlM_nil,
    Nat.zero_add, hfirst, hsecond]
  rfl

/-- The first two of three vectors are the centroids to begin with, and the first pass halves the
inertia. -/
theorem scalar_never_rises :
    inertia (initialCentroids (twoClusters .scalar) threeOnALine) threeOnALine = 4 ∧
      pass (euclideanScore Real.sqrt 1 unsplit .scalar) 1 threeOnALine 2 [[0], [1]] =
        .ok ([[0], [2]], false) ∧
      inertia [[0], [2]] threeOnALine = 2 ∧ inertia [[0], [2]] threeOnALine ≤ inertia [[0], [1]] threeOnALine ∧
      ∃ centroids, buildClusters (euclideanScore Real.sqrt 1 unsplit .scalar) (twoClusters .scalar)
          threeOnALine = .ok centroids ∧
        inertia centroids threeOnALine ≤
          inertia (initialCentroids (twoClusters .scalar) threeOnALine) threeOnALine := by
  obtain ⟨hpass, hbuild, hreturns⟩ := inertia_never_rises (twoClusters .scalar) (by decide) (by decide) 1 unsplit
    (by simp [threeOnALine]) length_threeOnALine
  obtain ⟨centroids, hbuilt⟩ := hreturns (by decide)
  refine ⟨?_, pass_threeOnALine, ?_, hpass [[0], [1]] (by simp) (by simp) _ _ pass_threeOnALine, centroids, hbuilt,
    hbuild centroids hbuilt⟩
  · simp [initialCentroids, twoClusters, inertia, Inertia.total, Inertia.least, squaredCost, Inertia.squaredDistance,
      threeOnALine, List.min?]
    norm_num
  · simp [inertia, Inertia.total, Inertia.least, squaredCost, Inertia.squaredDistance, threeOnALine, List.min?]
    norm_num

/-- To the binary kernel both vectors look alike, and it takes one centroid away from its vector. -/
theorem binary_raises_inertia :
    initialCentroids (twoClusters .binary) twoOnALine = [[0], [1]] ∧
      buildClusters (euclideanScore Real.sqrt 1 unsplit .binary) (twoClusters .binary) twoOnALine =
        .ok [[0], [1 / 2]] ∧
      inertia [[0], [1]] twoOnALine < inertia [[0], [1 / 2]] twoOnALine := by
  have hscore : ∀ x y : ℝ, 0 ≤ x → 0 ≤ y →
      euclideanScore Real.sqrt 1 unsplit .binary [x] [y] = .ok 1 := by
    intro x y hx hy
    have hlen : [x].length = [y].length := rfl
    have hbits : Kernel.checked (Kernel.sumLoop hammingTerm) [x] [y] = .ok 0 := by
      rw [Kernel.checked_eq hlen, Kernel.sumLoop_eq hammingTerm hlen]
      simp [hammingTerm, hx, hy]
    have hroot : 1 / (1 + √((0 : ℕ) : ℝ)) = 1 := by simp
    simp only [euclideanScore, euclideanDistance, ExecutionMode.resolve, hbits]
    exact congrArg Except.ok hroot
  have hfind : ∀ x : ℝ, 0 ≤ x →
      findNearestCentroid (euclideanScore Real.sqrt 1 unsplit .binary) [[0], [1]] [x] = .ok 1 := by
    intro x hx
    have htie : Number.cmp (1 : ℝ) 1 ≠ .gt := by simp [Number.cmp]
    simp only [findNearestCentroid, List.zipIdx_cons, List.zipIdx_nil, List.mapM_cons, List.mapM_nil,
      hscore x 0 hx le_rfl, hscore x 1 hx zero_le_one]
    change Except.ok (((maxByScore [(0, (1 : ℝ)), (1, 1)]).map Prod.fst).getD 0) = _
    simp only [maxByScore, List.foldl_cons, List.foldl_nil, if_neg htie]
    rfl
  have hplace : ∀ entry ∈ twoOnALine, findNearestCentroid
      (euclideanScore Real.sqrt 1 unsplit .binary) [[0], [1]] entry.2 = .ok 1 ∧ 1 < 2 := by
    intro entry hentry
    simp only [twoOnALine, List.mem_cons, List.not_mem_nil, or_false] at hentry
    obtain rfl | rfl := hentry
    · exact ⟨hfind 0 le_rfl, by decide⟩
    · exact ⟨hfind 1 zero_le_one, by decide⟩
  have hassign := assignClusters_eq (fun _ => 1) hplace
  have hmean : computeCentroid 1 twoOnALine = .ok [1 / 2] := by
    rw [computeCentroid_mean (by simp [twoOnALine]) (by simp [twoOnALine])]
    simp [Inertia.vectorMean, twoOnALine]
  have hpass : pass (euclideanScore Real.sqrt 1 unsplit .binary) 1 twoOnALine 2 [[0], [1]] =
      .ok ([[0], [1 / 2]], true) := by
    have hstable : Number.lt (1 : ℝ) Number.converged = false := by
      simp only [Number.lt, Number.converged, decide_eq_false_iff_not]
      norm_num
    have hupdate : updateCentroid (euclideanScore Real.sqrt 1 unsplit .binary) 1 ([[0], [1]], true)
        (twoOnALine, 1) = .ok ([[0], [1 / 2]], true) := by
      have hsome : twoOnALine.isEmpty = false := rfl
      have hold : ([[0], [1]] : List (List ℝ))[1]? = some [1] := rfl
      simp only [updateCentroid, hsome, Bool.false_eq_true, if_false, hmean, bind, Except.bind, hold,
        hscore 1 (1 / 2) zero_le_one one_half_pos.le, hstable]
      rfl
    rw [pass, hassign]
    change (updateCentroid (euclideanScore Real.sqrt 1 unsplit .binary) 1 ([[0], [1]], true)
      (twoOnALine, 1) >>= pure) = _
    rw [hupdate]
    rfl
  have hinitial : initialCentroids (twoClusters .binary) twoOnALine = [[0], [1]] := by
    simp [initialCentroids, twoClusters, twoOnALine]
  refine ⟨hinitial, ?_, ?_⟩
  · have hiterate : buildClusters (euclideanScore Real.sqrt 1 unsplit .binary) (twoClusters .binary)
        twoOnALine = iterate (euclideanScore Real.sqrt 1 unsplit .binary) 1 twoOnALine 2 10
          (initialCentroids (twoClusters .binary) twoOnALine) := rfl
    rw [hiterate, hinitial, iterate, hpass]
    rfl
  · have hbefore : inertia [[0], [1]] twoOnALine = 0 := by
      simp [inertia, Inertia.total, Inertia.least, squaredCost, Inertia.squaredDistance, twoOnALine,
        List.min?]
    have hafter : inertia [[0], [1 / 2]] twoOnALine = 1 / 4 := by
      have hleast : min (1 : ℝ) ((1 - 2⁻¹) * (1 - 2⁻¹)) = 4⁻¹ := by norm_num
      simp [inertia, Inertia.total, Inertia.least, squaredCost, Inertia.squaredDistance, twoOnALine,
        List.min?, hleast]
    rw [hbefore, hafter]
    norm_num

end

end KMeans
