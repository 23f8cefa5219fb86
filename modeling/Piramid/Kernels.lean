-- SUMMARY: The distance kernels over a commutative ring: every variant computes the sums of the scalar one.
import Mathlib.Algebra.BigOperators.Group.List.Basic
import Mathlib.Algebra.Group.Prod
import Mathlib.Algebra.Ring.Int.Defs
import Mathlib.Tactic.Abel
import Piramid.Base.Blocks
import Piramid.Base.Loop
import Piramid.Error

/-!
# Kernels

A kernel adds up one term for each pair of components. The variants read the pairs
in another order and keep the sum in other places: in eight lanes, in unrolled
blocks, in chunks that are summed apart and reduced in any order.
-/

namespace Kernel

section

variable {R M : Type} [AddCommMonoid M]

/-! ## The loops -/

/-- `xs[i]`. -/
def index (xs : List R) (i : Nat) : Except Fault R :=
  match xs[i]? with
  | some x => .ok x
  | none => .error (.panic ("index out of bounds: the len is " ++ toString xs.length ++
      " but the index is " ++ toString i))

/-- The term of the `i`-th components. -/
def termAt (term : R → R → M) (a b : List R) (i : Nat) : Except Fault M := do
  let x ← index a i
  let y ← index b i
  pure (term x y)

/-- `sum += term(a[i], b[i])`. -/
def addAt (term : R → R → M) (a b : List R) (sum : M) (i : Nat) : Except Fault M := do
  let t ← termAt term a b i
  pure (sum + t)

/-- `for i in 0..a.len()`. -/
def sumLoop (term : R → R → M) (a b : List R) : Except Fault M :=
  (List.range a.length).foldlM (addAt term a b) 0

/-- Eight components from `offset` on. -/
def loadLanes (xs : List R) (offset : Nat) : Except Fault (List R) :=
  (List.range 8).mapM fun lane => index xs (offset + lane)

/-- One round of the vector loop: each lane adds its own term. -/
def addLanes (term : R → R → M) (a b : List R) (lanes : List M) (i : Nat) :
    Except Fault (List M) := do
  let va ← loadLanes a (i * 8)
  let vb ← loadLanes b (i * 8)
  pure (List.zipWith (· + ·) lanes (List.zipWith term va vb))

/-- The vector loop, the sum of the lanes, and the loop over the remainder. -/
def simdLoop (term : R → R → M) (a b : List R) : Except Fault M := do
  let len := a.length
  let chunks := len / 8
  let remainder := len % 8
  let lanes ← (List.range chunks).foldlM (addLanes term a b) (List.replicate 8 0)
  (List.range' (len - remainder) remainder).foldlM (addAt term a b) (lanes.foldl (· + ·) 0)

/-- `while i < dim { body; i += 8 }`. -/
def strideLoop (dim : Nat) (body : M → Nat → Except Fault M) (i : Nat) (sum : M) :
    Except Fault M :=
  if i < dim then do
    let sum ← body sum i
    strideLoop dim body (i + 8) sum
  else pure sum
termination_by dim - i

/-- Eight terms, one after the other. -/
def unrolledBody (term : R → R → M) (a b : List R) (sum : M) (i : Nat) : Except Fault M := do
  let sum ← addAt term a b sum i
  let sum ← addAt term a b sum (i + 1)
  let sum ← addAt term a b sum (i + 2)
  let sum ← addAt term a b sum (i + 3)
  let sum ← addAt term a b sum (i + 4)
  let sum ← addAt term a b sum (i + 5)
  let sum ← addAt term a b sum (i + 6)
  addAt term a b sum (i + 7)

/-- Eight terms, added up before the sum takes them. -/
def blockBody (term : R → R → M) (a b : List R) (sum : M) (i : Nat) : Except Fault M := do
  let t0 ← termAt term a b i
  let t1 ← termAt term a b (i + 1)
  let t2 ← termAt term a b (i + 2)
  let t3 ← termAt term a b (i + 3)
  let t4 ← termAt term a b (i + 4)
  let t5 ← termAt term a b (i + 5)
  let t6 ← termAt term a b (i + 6)
  let t7 ← termAt term a b (i + 7)
  pure (sum + (t0 + t1 + t2 + t3 + t4 + t5 + t6 + t7))

/-- As many terms as are left, up to eight. -/
def macroBody (dim : Nat) (term : R → R → M) (a b : List R) (sum : M) (i : Nat) : Except Fault M :=
  let unroll := Nat.min (dim - i) 8
  (List.range unroll).foldlM (fun sum j => addAt term a b sum (i + j)) sum

/-- How `rayon` splits the work of a reduction, which is not fixed. -/
inductive Splits where
  | leaf
  | split (left : Nat) (first second : Splits)

/-- Reduce the items part by part; each part begins with the identity. -/
def reduce : Splits → List M → M
  | .leaf, items => items.foldl (· + ·) 0
  | .split left first second, items =>
    reduce first (items.take left) + reduce second (items.drop left)

/-- The chunk size on a machine with `cpus` processors. -/
def chunkSize (len cpus : Nat) : Nat := Nat.max (len / cpus) 1024

/-- The chunks of both vectors, pair by pair, summed apart and reduced. -/
def parallelLoop (term : R → R → M) (cpus : Nat) (splits : Splits) (a b : List R) :
    Except Fault M := do
  let size := chunkSize a.length cpus
  let sums ← (List.zip (chunks size a) (chunks size b)).mapM fun pair => sumLoop term pair.1 pair.2
  pure (reduce splits sums)

/-- `assert_eq!(a.len(), b.len(), ..)`, and the loop behind it. -/
def checked {α : Type} (loop : List R → List R → Except Fault α) (a b : List R) : Except Fault α :=
  if a.length = b.length then loop a b else .error (.panic "Vectors must have same length")

end

/-! ## The kernels -/

section

variable {R : Type} [CommRing R]

/-- A term of the dot product. -/
def dotTerm (x y : R) : R := x * y

/-- A term of the squared Euclidean distance. -/
def squaredTerm (x y : R) : R :=
  let diff := x - y
  diff * diff

/-- What the three accumulators of the cosine similarity take: `dot`, `norm_a` and `norm_b`. -/
def cosineTerm (x y : R) : R × R × R := (x * y, x * x, y * y)

def dotProductScalar : List R → List R → Except Fault R := checked (sumLoop dotTerm)

def dotProductSimd : List R → List R → Except Fault R := checked (simdLoop dotTerm)

def dotProductJit : List R → List R → Except Fault R :=
  checked fun a b =>
    if a.length = 1536 then strideLoop 1536 (blockBody dotTerm a b) 0 0 else sumLoop dotTerm a b

def dotProductParallel (cpus : Nat) (splits : Splits) : List R → List R → Except Fault R :=
  checked (parallelLoop dotTerm cpus splits)

def euclideanDistanceSquaredScalar : List R → List R → Except Fault R :=
  checked (sumLoop squaredTerm)

def euclideanDistanceSquaredSimd : List R → List R → Except Fault R :=
  checked (simdLoop squaredTerm)

def euclideanDistanceSquaredJit : List R → List R → Except Fault R :=
  checked fun a b =>
    if a.length = 1536 then strideLoop 1536 (blockBody squaredTerm a b) 0 0
    else sumLoop squaredTerm a b

def euclideanDistanceSquaredParallel (cpus : Nat) (splits : Splits) :
    List R → List R → Except Fault R :=
  checked (parallelLoop squaredTerm cpus splits)

/-- The accumulators of `cosine_similarity_scalar`, and of its variants below. -/
def cosineSumsScalar : List R → List R → Except Fault (R × R × R) := checked (sumLoop cosineTerm)

def cosineSumsSimd : List R → List R → Except Fault (R × R × R) := checked (simdLoop cosineTerm)

/-- The dimensions that `jit_impl!` is used for. -/
def jitDimensions : List Nat := [128, 256, 384, 512, 768, 1024, 3072]

def cosineSumsJit : List R → List R → Except Fault (R × R × R) :=
  checked fun a b =>
    if a.length = 1536 then strideLoop 1536 (unrolledBody cosineTerm a b) 0 0
    else if a.length ∈ jitDimensions then
      strideLoop a.length (macroBody a.length cosineTerm a b) 0 0
    else sumLoop cosineTerm a b

def cosineSumsParallel (cpus : Nat) (splits : Splits) :
    List R → List R → Except Fault (R × R × R) :=
  checked (parallelLoop cosineTerm cpus splits)

end

/-! ## Every loop adds up the same terms -/

section

variable {R M : Type} [AddCommMonoid M]

/-- The sum of `n` terms from the `s`-th on. -/
def segment (terms : List M) (s n : Nat) : M := ((terms.drop s).take n).sum

theorem segment_zero (terms : List M) (s : Nat) : segment terms s 0 = 0 := rfl

theorem segment_add (terms : List M) (s n m : Nat) :
    segment terms s (n + m) = segment terms s n + segment terms (s + n) m := by
  rw [segment, List.take_add, List.sum_append, List.drop_drop]
  rfl

theorem segment_one {terms : List M} {s : Nat} (h : s < terms.length) :
    segment terms s 1 = terms[s] := by
  rw [segment, List.drop_eq_getElem_cons h, List.take_succ_cons, List.take_zero,
    List.sum_singleton]

/-- All terms there are. -/
theorem segment_all {terms : List M} {n : Nat} (h : terms.length ≤ n) :
    segment terms 0 n = terms.sum := by
  rw [segment, List.drop_zero, List.take_of_length_le h]

theorem index_eq {xs : List R} {i : Nat} (h : i < xs.length) : index xs i = .ok xs[i] := by
  unfold index
  rw [List.getElem?_eq_getElem h]

/-- A range of a list, element by element. -/
theorem mapM_index {xs : List R} {s n : Nat} (h : s + n ≤ xs.length) :
    (List.range' s n).mapM (index xs) = .ok ((xs.drop s).take n) := by
  induction n generalizing s with
  | zero => rfl
  | succ n ih =>
      have hs : s < xs.length := by omega
      have hnext : s + 1 + n ≤ xs.length := by omega
      rw [List.range'_succ, List.mapM_cons, index_eq hs, ih hnext, List.drop_eq_getElem_cons hs,
        List.take_succ_cons]
      rfl

theorem loadLanes_eq {xs : List R} {offset : Nat} (h : offset + 8 ≤ xs.length) :
    loadLanes xs offset = .ok ((xs.drop offset).take 8) := by
  have hlanes : List.range' offset 8 = (List.range 8).map (offset + ·) := List.range'_eq_map_range
  rw [← mapM_index h, hlanes, List.mapM_map]
  rfl

section

variable (term : R → R → M) {a b : List R} (hlen : a.length = b.length)

include hlen

omit [AddCommMonoid M] in
theorem length_terms : (List.zipWith term a b).length = a.length := by
  rw [List.length_zipWith, ← hlen, Nat.min_self]

theorem termAt_eq {i : Nat} (hi : i < a.length) :
    termAt term a b i = .ok (segment (List.zipWith term a b) i 1) := by
  have hterms : i < (List.zipWith term a b).length := by rwa [length_terms term hlen]
  rw [segment_one hterms, List.getElem_zipWith, termAt, index_eq hi, index_eq (hlen ▸ hi)]
  rfl

theorem addAt_eq (sum : M) {i : Nat} (hi : i < a.length) :
    addAt term a b sum i = .ok (sum + segment (List.zipWith term a b) i 1) := by
  rw [addAt, termAt_eq term hlen hi]
  rfl

/-- A loop over `n` indices from `s` on. -/
theorem foldlM_addAt (sum : M) {s n : Nat} (h : s + n ≤ a.length) :
    (List.range' s n).foldlM (addAt term a b) sum =
      .ok (sum + segment (List.zipWith term a b) s n) := by
  induction n generalizing s sum with
  | zero =>
      rw [segment_zero, add_zero]
      rfl
  | succ n ih =>
      have hs : s < a.length := by omega
      have hnext : s + 1 + n ≤ a.length := by omega
      have hrest := ih (sum + segment (List.zipWith term a b) s 1) hnext
      rw [List.range'_succ, List.foldlM_cons, addAt_eq term hlen sum hs]
      refine hrest.trans (congrArg Except.ok ?_)
      rw [Nat.add_comm n 1, segment_add, add_assoc]

theorem sumLoop_eq : sumLoop term a b = .ok (List.zipWith term a b).sum := by
  have hwhole : 0 + a.length ≤ a.length := by omega
  have hloop := foldlM_addAt term hlen 0 hwhole
  rw [zero_add, segment_all (length_terms term hlen).le] at hloop
  rw [sumLoop, List.range_eq_range']
  exact hloop

/-! ### Eight lanes -/

/-- A round of the vector loop adds eight terms to the sum of the lanes. -/
theorem addLanes_eq {lanes : List M} (hlanes : lanes.length = 8) {i : Nat}
    (hi : i * 8 + 8 ≤ a.length) :
    ∃ lanes', addLanes term a b lanes i = .ok lanes' ∧ lanes'.length = 8 ∧
      lanes'.sum = lanes.sum + segment (List.zipWith term a b) (i * 8) 8 := by
  have hzip : List.zipWith term ((a.drop (i * 8)).take 8) ((b.drop (i * 8)).take 8) =
      ((List.zipWith term a b).drop (i * 8)).take 8 := by
    rw [List.drop_zipWith, List.take_zipWith]
  have hround : addLanes term a b lanes i =
      .ok (List.zipWith (· + ·) lanes (((List.zipWith term a b).drop (i * 8)).take 8)) := by
    rw [addLanes, loadLanes_eq hi, loadLanes_eq (hlen ▸ hi), ← hzip]
    rfl
  have height : (((List.zipWith term a b).drop (i * 8)).take 8).length = 8 := by
    rw [List.length_take, List.length_drop, length_terms term hlen]
    omega
  refine ⟨_, hround, ?_, ?_⟩
  · rw [List.length_zipWith, hlanes, height]
    rfl
  · exact (List.sum_add_sum_eq_sum_zipWith_of_length_eq _ _ (hlanes.trans height.symm)).symm

/-- The sum of the lanes after `k` rounds. -/
theorem foldlM_addLanes {k : Nat} (h : k * 8 ≤ a.length) :
    ∃ lanes, (List.range k).foldlM (addLanes term a b) (List.replicate 8 0) = .ok lanes ∧
      lanes.length = 8 ∧ lanes.sum = segment (List.zipWith term a b) 0 (k * 8) := by
  induction k with
  | zero => exact ⟨_, rfl, by simp, by simp [segment_zero]⟩
  | succ k ih =>
      have hbefore : k * 8 ≤ a.length := by omega
      have hround : k * 8 + 8 ≤ a.length := by omega
      obtain ⟨lanes, hloop, hlanes, hsum⟩ := ih hbefore
      obtain ⟨lanes', hnext, hlanes', hsum'⟩ := addLanes_eq term hlen hlanes hround
      refine ⟨lanes', ?_, hlanes', ?_⟩
      · rw [List.range_succ, List.foldlM_append, hloop]
        refine Eq.trans ?_ (congrArg (· >>= pure) hnext)
        rfl
      · rw [hsum', hsum, Nat.add_mul, Nat.one_mul, segment_add, Nat.zero_add]

theorem simdLoop_eq : simdLoop term a b = .ok (List.zipWith term a b).sum := by
  have hsplit : a.length / 8 * 8 = a.length - a.length % 8 := by omega
  have hvector : a.length / 8 * 8 ≤ a.length := by omega
  have hremainder : a.length - a.length % 8 + a.length % 8 ≤ a.length := by omega
  obtain ⟨lanes, hloop, _, hsum⟩ := foldlM_addLanes term hlen hvector
  have hrest := foldlM_addAt term hlen lanes.sum hremainder
  have hadd := segment_add (List.zipWith term a b) 0 (a.length - a.length % 8) (a.length % 8)
  rw [Nat.zero_add] at hadd
  rw [simdLoop, hloop]
  change (List.range' (a.length - a.length % 8) (a.length % 8)).foldlM (addAt term a b)
    (lanes.foldl (· + ·) 0) = _
  rw [← List.sum_eq_foldl, hrest, hsum, hsplit, ← hadd, segment_all]
  rw [length_terms term hlen]
  omega

/-! ### Strides of eight -/

/-- A body that adds the terms of its stride. -/
def AddsStride (terms : List M) (dim : Nat) (body : M → Nat → Except Fault M) : Prop :=
  ∀ sum i, i < dim → 8 ∣ i → body sum i = .ok (sum + segment terms i (Nat.min (dim - i) 8))

omit hlen in
/-- A stride and what lies behind it. -/
theorem segment_stride (terms : List M) (dim i : Nat) :
    segment terms i (Nat.min (dim - i) 8) + segment terms (i + 8) (dim - (i + 8)) =
      segment terms i (dim - i) := by
  by_cases hlast : dim - i ≤ 8
  · have hmin : Nat.min (dim - i) 8 = dim - i := Nat.min_eq_left hlast
    have hdone : dim - (i + 8) = 0 := by omega
    rw [hmin, hdone, segment_zero, add_zero]
  · have hmin : Nat.min (dim - i) 8 = 8 := Nat.min_eq_right (by omega)
    have hmore : dim - i = 8 + (dim - (i + 8)) := by omega
    rw [hmin, hmore, segment_add]

omit hlen in
theorem strideLoop_eq {terms : List M} {dim : Nat} {body : M → Nat → Except Fault M}
    (h : AddsStride terms dim body) {i : Nat} (hi : 8 ∣ i) (sum : M) :
    strideLoop dim body i sum = .ok (sum + segment terms i (dim - i)) := by
  rw [strideLoop]
  split
  · rename_i hlt
    have hrest := strideLoop_eq h (Nat.dvd_add hi (dvd_refl 8))
      (sum + segment terms i (Nat.min (dim - i) 8))
    rw [h sum i hlt hi]
    refine hrest.trans (congrArg Except.ok ?_)
    rw [add_assoc, segment_stride]
  · rename_i hge
    have hdone : dim - i = 0 := by omega
    rw [hdone, segment_zero, add_zero]
    rfl
termination_by dim - i

theorem macroBody_adds :
    AddsStride (List.zipWith term a b) a.length (macroBody a.length term a b) := by
  intro sum i hi _
  have hinside : i + Nat.min (a.length - i) 8 ≤ a.length := by
    have hmin : Nat.min (a.length - i) 8 ≤ a.length - i := Nat.min_le_left _ _
    omega
  have hmap : List.range' i (Nat.min (a.length - i) 8) =
      (List.range (Nat.min (a.length - i) 8)).map (i + ·) := List.range'_eq_map_range
  rw [← foldlM_addAt term hlen sum hinside, hmap, List.foldlM_map]
  rfl

omit hlen in
/-- Eight strides of one are a stride of eight. -/
theorem segment_eight (terms : List M) (i : Nat) :
    segment terms i 8 = segment terms i 1 + segment terms (i + 1) 1 + segment terms (i + 2) 1 +
      segment terms (i + 3) 1 + segment terms (i + 4) 1 + segment terms (i + 5) 1 +
      segment terms (i + 6) 1 + segment terms (i + 7) 1 := by
  simp only [segment_add terms i 7 1, segment_add terms i 6 1, segment_add terms i 5 1,
    segment_add terms i 4 1, segment_add terms i 3 1, segment_add terms i 2 1,
    segment_add terms i 1 1]

/-- The unrolled bodies stay inside a vector whose length is a multiple of eight. -/
theorem unrolledBody_adds (hdim : 8 ∣ a.length) :
    AddsStride (List.zipWith term a b) a.length (unrolledBody term a b) := by
  intro sum i hi hdvd
  have hroom : i + 8 ≤ a.length := by omega
  have hmin : Nat.min (a.length - i) 8 = 8 := Nat.min_eq_right (by omega)
  have hrange : List.range' i 8 = [i, i + 1, i + 2, i + 3, i + 4, i + 5, i + 6, i + 7] := rfl
  rw [hmin, ← foldlM_addAt term hlen sum hroom, hrange]
  simp only [List.foldlM_cons, List.foldlM_nil, bind_pure]
  rfl

theorem blockBody_adds (hdim : 8 ∣ a.length) :
    AddsStride (List.zipWith term a b) a.length (blockBody term a b) := by
  intro sum i hi hdvd
  have hroom : i + 8 ≤ a.length := by omega
  have hmin : Nat.min (a.length - i) 8 = 8 := Nat.min_eq_right (by omega)
  have hterm := fun (j : Nat) (hj : j < 8) => termAt_eq term hlen (by omega : i + j < a.length)
  rw [hmin, segment_eight, blockBody, termAt_eq term hlen hi, hterm 1 (by decide),
    hterm 2 (by decide), hterm 3 (by decide), hterm 4 (by decide), hterm 5 (by decide),
    hterm 6 (by decide), hterm 7 (by decide)]
  rfl

/-! ### Chunks -/

omit hlen in
/-- A reduction adds up the items, however they are split. -/
theorem reduce_eq (splits : Splits) (items : List M) : reduce splits items = items.sum := by
  induction splits generalizing items with
  | leaf => exact List.sum_eq_foldl.symm
  | split left first second ihfirst ihsecond =>
      rw [reduce, ihfirst, ihsecond, ← List.sum_append, List.take_append_drop]

theorem parallelLoop_eq (cpus : Nat) (splits : Splits) :
    parallelLoop term cpus splits a b = .ok (List.zipWith term a b).sum := by
  have hsize : 0 < chunkSize a.length cpus := by
    have hleast : 1024 ≤ chunkSize a.length cpus := Nat.le_max_right _ _
    omega
  generalize hs : chunkSize a.length cpus = size at hsize
  -- the chunks of both vectors are cut at the same places
  have hpairs : List.zip (chunks size a) (chunks size b) =
      (List.range (divCeil a.length size)).map fun k =>
        ((a.drop (k * size)).take size, (b.drop (k * size)).take size) := by
    rw [chunks, chunks, ← hlen, List.zip_map']
  have hchunk : ∀ k, sumLoop term ((a.drop (k * size)).take size) ((b.drop (k * size)).take size) =
      .ok (((List.zipWith term a b).drop (k * size)).take size).sum := by
    intro k
    have hlength : ((a.drop (k * size)).take size).length =
        ((b.drop (k * size)).take size).length := by
      rw [List.length_take, List.length_take, List.length_drop, List.length_drop, hlen]
    rw [sumLoop_eq term hlength, List.drop_zipWith, List.take_zipWith]
  have hsums : (List.zip (chunks size a) (chunks size b)).mapM
      (fun pair => sumLoop term pair.1 pair.2) =
      .ok ((chunks size (List.zipWith term a b)).map List.sum) := by
    rw [hpairs, List.mapM_map, chunks, length_terms term hlen, List.map_map]
    exact Loop.mapM_eq_map fun k _ => hchunk k
  rw [parallelLoop, hs, hsums]
  change Except.ok (reduce splits ((chunks size (List.zipWith term a b)).map List.sum)) = _
  rw [reduce_eq, sum_chunks hsize]

end

end

/-! ## The kernels agree -/

section

variable {R : Type} [CommRing R]

omit [CommRing R] in
theorem checked_eq {α : Type} {loop : List R → List R → Except Fault α} {a b : List R}
    (hlen : a.length = b.length) : checked loop a b = loop a b :=
  if_pos hlen

omit [CommRing R] in
/-- A loop in strides of eight from the start adds up all terms. -/
theorem strideLoop_all {M : Type} [AddCommMonoid M] (term : R → R → M) {a b : List R}
    (hlen : a.length = b.length) {body : M → Nat → Except Fault M}
    (h : AddsStride (List.zipWith term a b) a.length body) :
    strideLoop a.length body 0 0 = .ok (List.zipWith term a b).sum := by
  rw [strideLoop_eq h ⟨0, rfl⟩ 0, zero_add, Nat.sub_zero, segment_all]
  exact (length_terms term hlen).le

/-- The loop of `dot_product_jit`, and of the squared Euclidean distance. -/
theorem jitLoop_eq (term : R → R → R) {a b : List R} (hlen : a.length = b.length) :
    (if a.length = 1536 then strideLoop 1536 (blockBody term a b) 0 0 else sumLoop term a b) =
      .ok (List.zipWith term a b).sum := by
  split
  · rename_i hdim
    have hdvd : 8 ∣ a.length := by
      rw [hdim]
      decide
    rw [← hdim]
    exact strideLoop_all term hlen (blockBody_adds term hlen hdvd)
  · exact sumLoop_eq term hlen

/-- On vectors of one length every variant of a kernel returns what the scalar one returns, on
any number of processors and however the reduction is split. -/
theorem variants_agree (a b : List R) (hlen : a.length = b.length) (cpus : Nat) (splits : Splits) :
    (∃ dot : R, dotProductScalar a b = .ok dot ∧ dotProductSimd a b = .ok dot ∧
      dotProductJit a b = .ok dot ∧ dotProductParallel cpus splits a b = .ok dot) ∧
    (∃ sumSq : R, euclideanDistanceSquaredScalar a b = .ok sumSq ∧
      euclideanDistanceSquaredSimd a b = .ok sumSq ∧
      euclideanDistanceSquaredJit a b = .ok sumSq ∧
      euclideanDistanceSquaredParallel cpus splits a b = .ok sumSq) ∧
    ∃ sums : R × R × R, cosineSumsScalar a b = .ok sums ∧ cosineSumsSimd a b = .ok sums ∧
      cosineSumsJit a b = .ok sums ∧ cosineSumsParallel cpus splits a b = .ok sums := by
  refine ⟨⟨(List.zipWith dotTerm a b).sum, ?_, ?_, ?_, ?_⟩,
    ⟨(List.zipWith squaredTerm a b).sum, ?_, ?_, ?_, ?_⟩,
    ⟨(List.zipWith cosineTerm a b).sum, ?_, ?_, ?_, ?_⟩⟩
  · exact (checked_eq hlen).trans (sumLoop_eq dotTerm hlen)
  · exact (checked_eq hlen).trans (simdLoop_eq dotTerm hlen)
  · exact (checked_eq hlen).trans (jitLoop_eq dotTerm hlen)
  · exact (checked_eq hlen).trans (parallelLoop_eq dotTerm hlen cpus splits)
  · exact (checked_eq hlen).trans (sumLoop_eq squaredTerm hlen)
  · exact (checked_eq hlen).trans (simdLoop_eq squaredTerm hlen)
  · exact (checked_eq hlen).trans (jitLoop_eq squaredTerm hlen)
  · exact (checked_eq hlen).trans (parallelLoop_eq squaredTerm hlen cpus splits)
  · exact (checked_eq hlen).trans (sumLoop_eq cosineTerm hlen)
  · exact (checked_eq hlen).trans (simdLoop_eq cosineTerm hlen)
  · refine (checked_eq hlen).trans ?_
    split
    · rename_i hdim
      have hdvd : 8 ∣ a.length := by
        rw [hdim]
        decide
      rw [← hdim]
      exact strideLoop_all cosineTerm hlen (unrolledBody_adds cosineTerm hlen hdvd)
    · split
      · exact strideLoop_all cosineTerm hlen (macroBody_adds cosineTerm hlen)
      · exact sumLoop_eq cosineTerm hlen
  · exact (checked_eq hlen).trans (parallelLoop_eq cosineTerm hlen cpus splits)

omit [CommRing R] in
/-- Vectors with the same components throughout. -/
theorem checked_replicate {M : Type} [AddCommMonoid M] (term : R → R → M) (n : Nat) (x y : R) :
    checked (sumLoop term) (List.replicate n x) (List.replicate n y) = .ok (n • term x y) := by
  have hlen : (List.replicate n x).length = (List.replicate n y).length := by
    rw [List.length_replicate, List.length_replicate]
  rw [checked_eq hlen, sumLoop_eq term hlen, List.zipWith_replicate', List.sum_replicate]

/-- A reduction in two parts, the first of one item. -/
def oneAndRest : Splits := .split 1 .leaf .leaf

/-- Nine components are a round of lanes and a remainder of one; 1536 are two chunks, and a dimension
that all three kernels are specialised for. -/
theorem nine_and_many_agree :
    (let a : List ℤ := [1, 2, 3, 4, 5, 6, 7, 8, -9]
      let b := [1, 1, 1, 1, 0, 1, 1, 1, 1]
      (dotProductScalar a b = .ok 22 ∧ dotProductSimd a b = .ok 22 ∧ dotProductJit a b = .ok 22 ∧
        dotProductParallel 4 oneAndRest a b = .ok 22) ∧
      (euclideanDistanceSquaredScalar a b = .ok 249 ∧ euclideanDistanceSquaredSimd a b = .ok 249 ∧
        euclideanDistanceSquaredJit a b = .ok 249 ∧
        euclideanDistanceSquaredParallel 4 oneAndRest a b = .ok 249) ∧
      cosineSumsScalar a b = .ok (22, 285, 8) ∧ cosineSumsSimd a b = .ok (22, 285, 8) ∧
        cosineSumsJit a b = .ok (22, 285, 8) ∧ cosineSumsParallel 4 oneAndRest a b = .ok (22, 285, 8)) ∧
    (let a : List ℤ := List.replicate 1536 3
      let b := List.replicate 1536 1
      (dotProductSimd a b = .ok 4608 ∧ dotProductJit a b = .ok 4608 ∧
        dotProductParallel 4 oneAndRest a b = .ok 4608) ∧
      (euclideanDistanceSquaredSimd a b = .ok 6144 ∧ euclideanDistanceSquaredJit a b = .ok 6144 ∧
        euclideanDistanceSquaredParallel 4 oneAndRest a b = .ok 6144) ∧
      cosineSumsSimd a b = .ok (4608, 13824, 1536) ∧ cosineSumsJit a b = .ok (4608, 13824, 1536) ∧
        cosineSumsParallel 4 oneAndRest a b = .ok (4608, 13824, 1536)) := by
  constructor
  · intro a b
    obtain ⟨⟨dot, hdot, hdots⟩, ⟨sumSq, hsumSq, hsumSqs⟩, sums, hsums, hsumss⟩ :=
      variants_agree a b rfl 4 oneAndRest
    have hvalues : dotProductScalar a b = .ok 22 ∧ euclideanDistanceSquaredScalar a b = .ok 249 ∧
        cosineSumsScalar a b = .ok (22, 285, 8) := by decide +kernel
    obtain rfl : dot = 22 := Except.ok.inj (hdot.symm.trans hvalues.1)
    obtain rfl : sumSq = 249 := Except.ok.inj (hsumSq.symm.trans hvalues.2.1)
    obtain rfl : sums = (22, 285, 8) := Except.ok.inj (hsums.symm.trans hvalues.2.2)
    exact ⟨⟨hdot, hdots⟩, ⟨hsumSq, hsumSqs⟩, hsums, hsumss⟩
  · intro a b
    have hlen : a.length = b.length := by rw [List.length_replicate, List.length_replicate]
    obtain ⟨⟨dot, hdot, hdots⟩, ⟨sumSq, hsumSq, hsumSqs⟩, sums, hsums, hsumss⟩ :=
      variants_agree a b hlen 4 oneAndRest
    have hvalues : 1536 • dotTerm (3 : ℤ) 1 = 4608 ∧ 1536 • squaredTerm (3 : ℤ) 1 = 6144 ∧
        1536 • cosineTerm (3 : ℤ) 1 = (4608, 13824, 1536) := by decide +kernel
    rw [dotProductScalar, checked_replicate, hvalues.1] at hdot
    rw [euclideanDistanceSquaredScalar, checked_replicate, hvalues.2.1] at hsumSq
    rw [cosineSumsScalar, checked_replicate, hvalues.2.2] at hsums
    cases hdot
    cases hsumSq
    cases hsums
    exact ⟨hdots, hsumSqs, hsumss⟩

end

end Kernel
