-- SUMMARY: Which accepted configurations give an index that no sequence of calls can bring to panic.
import Piramid.AppConfig
import Piramid.Index.Dimension
import Piramid.Reference.Env

/-!
# Indexes of accepted configurations

The calls are those of `dyn VectorIndex`, on vectors of one length and with a reader
that has what the index tracks. Numbers that the other modules take to be unbounded
are `usize` here: a list of layers has to be allocated.
-/

open Loop

/-! ## Calls -/

/-- Strictly between zero and one. -/
def F32.IsDraw (r : F32) : Prop := 0#32 < r ∧ r < F32.one

/-- `vec![Vec::new(); n]` does not exceed the largest allocation, at 24 bytes for each `Vec`. -/
def Allocatable (n : Nat) : Prop := n * 24 < 2 ^ 63

instance (n : Nat) : Decidable (Allocatable n) := inferInstanceAs (Decidable (_ < _))

section

variable [Floats]

/-- `insert`, where `layer + 1` is a `usize` and that many lists are allocated. -/
def HnswIndex.insertChecked (ix : HnswIndex) (id : Uuid) (vector : Vector32) (vectors : VectorReader)
    (r : F32) : Except Fault HnswIndex :=
  if ix.randomLayer r + 1 ≥ 2 ^ 64 then .error (.panic "attempt to add with overflow")
  else if ¬Allocatable (ix.randomLayer r + 1) then .error (.panic "capacity overflow")
  else ix.insert id vector vectors r

theorem HnswIndex.insertChecked_inserted {ix ix' : HnswIndex} {id : Uuid} {vector : Vector32}
    {vectors : VectorReader} {r : F32} (hret : ix.insertChecked id vector vectors r = .ok ix') :
    Inserted id (ix.randomLayer r) ix ix' := by
  unfold insertChecked at hret
  split at hret
  · cases hret
  · split at hret
    · cases hret
    · exact insert_inserted hret

theorem HnswIndex.insertChecked_of_allocatable {ix : HnswIndex} {id : Uuid} {vector : Vector32}
    {vectors : VectorReader} {r : F32} (h : Allocatable (ix.randomLayer r + 1)) :
    ix.insertChecked id vector vectors r = ix.insert id vector vectors r := by
  have hlt : ix.randomLayer r + 1 < 2 ^ 64 := by
    unfold Allocatable at h
    omega
  unfold insertChecked
  rw [if_neg (Nat.not_le.mpr hlt), if_neg (not_not.mpr h)]

/-- `create_index`, where `m * 2` is a `usize`. -/
def IndexConfig.build (config : IndexConfig) (numVectors : Nat) : Except Fault VectorIndex :=
  match config, config.selectType numVectors with
  | .auto _ _ sizes, .hnsw =>
    if sizes.hnswM * 2 ≥ 2 ^ 64 then .error (.panic "attempt to multiply with overflow")
    else .ok (config.createIndex numVectors)
  | _, _ => .ok (config.createIndex numVectors)

/-- A call of an index, with what is drawn and iterated over in it. -/
inductive IndexOp where
  | insert (id : Uuid) (vector : Vector32) (vectors : VectorReader) (r : F32)
  | search (query : Vector32) (k : Nat) (vectors : VectorReader) (quality : SearchConfig)
      (filter : Option (Metadata → Bool)) (metadatas : HashMap Uuid Metadata)
  | remove (id : Uuid) (order : HashOrder Uuid)

namespace IndexOp

/-- The index after a call. -/
def perform (ix : VectorIndex) : IndexOp → Except Fault VectorIndex
  | .insert id vector vectors r =>
    match ix with
    | .hnsw ix => .hnsw <$> ix.insertChecked id vector vectors r
    | ix => ix.insert id vector vectors r
  | .search query k vectors quality filter metadatas => do
    let _ ← ix.search query k vectors quality filter metadatas
    pure ix
  | .remove id order => pure (ix.remove id order)

/-- A vector of `dim` finite components, of which there is one. -/
structure WellFormed (dim : Nat) (vector : Vector32) : Prop where
  length : vector.length = dim
  nonempty : vector ≠ []
  finite : ∀ x ∈ vector, x.isFinite

/-- The reader has well-formed vectors, and one for each tracked id. -/
structure Reads (dim : Nat) (ix : VectorIndex) (vectors : VectorReader) : Prop where
  tracked : ∀ id ∈ ix.trackedIds, (vectors.get id).isSome
  wellFormed : ∀ id v, vectors.get id = some v → WellFormed dim v

/-- The arguments are as the callers have them. -/
def Admissible (dim : Nat) (ix : VectorIndex) : IndexOp → Prop
  | .insert _ vector vectors r => WellFormed dim vector ∧ Reads dim ix vectors ∧ r.IsDraw
  | .search query _ vectors _ _ _ => WellFormed dim query ∧ Reads dim ix vectors
  | .remove _ _ => True

/-- The scores that the call sorts by can be sorted. -/
def Sorts (ix : VectorIndex) : IndexOp → Prop
  | .insert id vector vectors _ => ix.SortsDistances vectors id vector
  | .search query _ vectors _ _ _ => ix.SortsScores vectors query
  | .remove _ _ => True

end IndexOp

/-- The indexes that calls can make of a new one. -/
inductive IndexReached (config : IndexConfig) (n dim : Nat) : VectorIndex → Prop
  | built {ix : VectorIndex} (h : config.build n = .ok ix) : IndexReached config n dim ix
  | performed {ix ix' : VectorIndex} {op : IndexOp} (h : IndexReached config n dim ix)
      (hop : op.Admissible dim ix) (hret : op.perform ix = .ok ix') : IndexReached config n dim ix'

/-- No call with scores that can be sorted panics or goes on forever, whatever was called
before. -/
structure IndexConfig.NeverPanics (config : IndexConfig) (n dim : Nat) : Prop where
  build : Faults Fault.IsError (config.build n)
  calls : ∀ ix, IndexReached config n dim ix → ∀ op : IndexOp, op.Admissible dim ix → op.Sorts ix →
    Faults Fault.IsError (op.perform ix)

/-! ## Configurations that are sound -/

/-- The layer of every draw can be allocated. -/
def Levels (ml : F32) : Prop :=
  ∀ r : F32, r.IsDraw →
    Allocatable (Floats.toUsize (Floats.floor (Floats.mul (Floats.neg (Floats.ln r)) ml)) + 1)

/-- What `validate` does not look at: the execution mode of the index, the clusters of
an IVF index, and the layers of a graph. -/
structure IndexConfig.Sound (config : IndexConfig) : Prop where
  mode : config.getMetricAndMode.2.Implemented
  clusters : ∀ numProbes maxIterations metric mode,
    config ≠ .ivf 0 numProbes maxIterations metric mode
  explicit : ∀ m mMax efConstruction efSearch ml metric mode,
    config = .hnsw m mMax efConstruction efSearch ml metric mode → Levels ml
  automatic : ∀ metric mode sizes, config = .auto metric mode sizes →
    sizes.hnswM * 2 < 2 ^ 64 ∧ Levels (Floats.div F32.one (Floats.ln (Floats.ofUsize sizes.hnswM)))

/-- Conventions of IEEE 754 and of casts. -/
class IeeeFloats : Prop where
  ofUsize_one : Floats.ofUsize 1 = F32.one
  ln_one : Floats.ln F32.one = F32.zero
  div_zero : Floats.div F32.one F32.zero = F32.infinity
  /-- The logarithm of a draw is negative. -/
  ln_draw : ∀ r : F32, r.IsDraw → Floats.mul (Floats.neg (Floats.ln r)) F32.infinity = F32.infinity
  floor_infinity : Floats.floor F32.infinity = F32.infinity
  /-- A cast to `usize` saturates. -/
  toUsize_infinity : Floats.toUsize F32.infinity = 2 ^ 64 - 1
  toUsize_max_ten : ∀ x : F32, 10 ≤ Floats.toUsize (Floats.max x F32.ten)

/-- With one neighbour for each node, `ml` is infinite. -/
theorem not_levels_of_m_one [IeeeFloats] :
    ¬Levels (Floats.div F32.one (Floats.ln (Floats.ofUsize 1))) := by
  intro h
  have hdraw : F32.IsDraw 0x3f000000#32 := by
    constructor
    · decide
    · decide
  have hlayer := h _ hdraw
  rw [IeeeFloats.ofUsize_one, IeeeFloats.ln_one, IeeeFloats.div_zero, IeeeFloats.ln_draw _ hdraw,
    IeeeFloats.floor_infinity, IeeeFloats.toUsize_infinity] at hlayer
  revert hlayer
  decide

/-! ## Sound configurations -/

namespace VectorIndex

/-- No call on vectors of `dim` components panics. -/
def Tame (dim : Nat) : VectorIndex → Prop
  | .flat ix => ix.config.mode.Implemented
  | .hnsw ix => ix.config.mode.Implemented ∧ Levels ix.config.ml
  | .ivf ix => ix.Ready dim

variable {dim : Nat} {ix ix' : VectorIndex}

theorem Tame.insert (h : ix.Tame dim) {id : Uuid} {vector : Vector32} {vectors : VectorReader} {r : F32}
    (hlen : vector.length = dim) (hv : vectors.Uniform dim) (hdraw : r.IsDraw)
    (hsorts : ix.SortsDistances vectors id vector) :
    Returns (fun _ => True) ((IndexOp.insert id vector vectors r).perform ix) := by
  cases ix with
  | flat ix => exact .ok trivial
  | hnsw ix =>
      have hfits : Allocatable (ix.randomLayer r + 1) := h.2 r hdraw
      refine Returns.map (P := fun _ => True) ?_ fun _ _ => trivial
      rw [HnswIndex.insertChecked_of_allocatable hfits]
      exact (HnswIndex.insert_returns h.1 (hlen ▸ hv) hsorts r).mono fun _ _ => trivial
  | ivf ix => exact (IvfIndex.insert_returns h hlen hv).map fun _ _ => trivial

theorem Tame.remove (h : ix.Tame dim) (id : Uuid) (order : HashOrder Uuid) :
    (ix.remove id order).Tame dim := by
  cases ix with
  | flat ix => exact h
  | hnsw ix =>
      unfold VectorIndex.remove Tame
      simp only [HnswIndex.config_remove]
      exact h
  | ivf ix => exact IvfIndex.Ready.remove h id

theorem Tame.search (h : ix.Tame dim) {query : Vector32} {k : Nat} {vectors : VectorReader}
    {quality : SearchConfig} {filter : Option (Metadata → Bool)} {metadatas : HashMap Uuid Metadata}
    (hlen : query.length = dim) (hv : vectors.Uniform dim) (hsorts : ix.SortsScores vectors query) :
    Faults Fault.IsError (ix.search query k vectors quality filter metadatas) := by
  subst hlen
  cases ix with
  | flat ix => exact FlatIndex.settles_search h hv hsorts
  | hnsw ix => exact HnswIndex.settles_search h.1 hv hsorts
  | ivf ix => exact IvfIndex.settles_search h.mode hv h.centroids hsorts

theorem Tame.settles (h : ix.Tame dim) {op : IndexOp} (hop : op.Admissible dim ix)
    (hsorts : op.Sorts ix) : Faults Fault.IsError (op.perform ix) := by
  cases op with
  | insert id vector vectors r =>
      obtain ⟨hvector, hreads, hdraw⟩ := hop
      have hv : vectors.Uniform dim := fun id v hv => (hreads.wellFormed id v hv).length
      exact (h.insert hvector.length hv hdraw hsorts).faults
  | search query k vectors quality filter metadatas =>
      obtain ⟨hquery, hreads⟩ := hop
      have hv : vectors.Uniform dim := fun id v hv => (hreads.wellFormed id v hv).length
      exact (h.search hquery.length hv hsorts).bind fun _ _ => .ok _
  | remove id order => exact .ok _

/-- Whatever was sorted, a call that returned leaves the settings as they are. -/
theorem Tame.perform (h : ix.Tame dim) {op : IndexOp} (hop : op.Admissible dim ix)
    (hret : op.perform ix = .ok ix') : ix'.Tame dim := by
  cases op with
  | insert id vector vectors r =>
      obtain ⟨hvector, hreads, -⟩ := hop
      have hv : vectors.Uniform dim := fun id v hv => (hreads.wellFormed id v hv).length
      cases ix with
      | flat ix =>
          cases hret
          change (ix.insert id).config.mode.Implemented
          unfold FlatIndex.insert
          split
          · exact h
          · exact h
      | hnsw ix =>
          obtain ⟨ix₁, hins, rfl⟩ := map_eq_ok.mp hret
          change ix₁.config.mode.Implemented ∧ Levels ix₁.config.ml
          rw [(HnswIndex.insertChecked_inserted hins).config]
          exact h
      | ivf ix =>
          have hinsert : Returns (IvfIndex.Ready dim) (ix.insert id vector vectors) :=
            IvfIndex.insert_returns h hvector.length hv
          obtain ⟨ix₁, hins, hready⟩ := hinsert
          change VectorIndex.ivf <$> ix.insert id vector vectors = _ at hret
          rw [hins] at hret
          cases hret
          exact hready
  | search query k vectors quality filter metadatas =>
      obtain ⟨ids, -, hret⟩ := bind_eq_ok.mp hret
      cases hret
      exact h
  | remove id order =>
      cases hret
      exact h.remove id order

end VectorIndex

theorem IndexReached.tame {config : IndexConfig} {n dim : Nat} {ix : VectorIndex}
    (h : IndexReached config n dim ix) (hbuilt : ∀ ix, config.build n = .ok ix → ix.Tame dim) :
    ix.Tame dim := by
  induction h with
  | built h => exact hbuilt _ h
  | performed _ hop hret ih => exact ih.perform hop hret

namespace IndexConfig

variable {config : IndexConfig} {n dim : Nat}

theorem build_eq_ok {ix : VectorIndex} (h : config.build n = .ok ix) : ix = config.createIndex n := by
  unfold build at h
  split at h
  · split at h
    · cases h
    · cases h
      rfl
  · cases h
    rfl

/-- An IVF index has clusters, unless its settings say there are none. -/
theorem Sound.clusters_pos [IeeeFloats] (h : config.Sound)
    (hvalid : ∀ metric mode sizes, config = .auto metric mode sizes → sizes.Valid) (n : Nat) :
    1 ≤ (config.ivfConfig n).numClusters := by
  have hauto : 1 ≤ (IvfConfig.auto n).numClusters := by
    have hten := IeeeFloats.toUsize_max_ten (Floats.sqrt (Floats.ofUsize n))
    unfold IvfConfig.auto
    simp only
    omega
  cases config with
  | auto metric mode sizes =>
      change 1 ≤ sizes.ivfNumClusters.getD (IvfConfig.auto n).numClusters
      cases hclusters : sizes.ivfNumClusters with
      | none => exact hauto
      | some numClusters =>
          have hne := (hvalid metric mode sizes rfl).clusters
          rw [hclusters] at hne
          exact Nat.one_le_iff_ne_zero.mpr fun heq => hne (congrArg some heq)
  | flat metric mode => exact hauto
  | hnsw m mMax efConstruction efSearch ml metric mode => exact hauto
  | ivf numClusters numProbes maxIterations metric mode =>
      refine Nat.one_le_iff_ne_zero.mpr fun heq => ?_
      have hzero : numClusters = 0 := heq
      exact h.clusters numProbes maxIterations metric mode (by rw [hzero])

theorem Sound.tame [IeeeFloats] (h : config.Sound)
    (hvalid : ∀ metric mode sizes, config = .auto metric mode sizes → sizes.Valid) (n dim : Nat) :
    (config.createIndex n).Tame dim := by
  have hmode := h.mode
  unfold createIndex
  split
  · exact hmode
  · rename_i hselect
    cases config with
    | auto metric mode sizes => exact ⟨hmode, (h.automatic metric mode sizes rfl).2⟩
    | flat metric mode => cases hselect
    | hnsw m mMax efConstruction efSearch ml metric mode =>
        exact ⟨hmode, h.explicit m mMax efConstruction efSearch ml metric mode rfl⟩
    | ivf numClusters numProbes maxIterations metric mode => cases hselect
  · refine ⟨?_, h.clusters_pos hvalid n, by simp [IvfIndex.new]⟩
    cases config with
    | auto metric mode sizes => exact hmode
    | flat metric mode => exact hmode
    | hnsw m mMax efConstruction efSearch ml metric mode => exact hmode
    | ivf numClusters numProbes maxIterations metric mode => exact hmode

theorem Sound.settles_build (h : config.Sound) (n : Nat) :
    Faults Fault.IsError (config.build n) := by
  cases config with
  | auto metric mode sizes =>
      have hsmall := (h.automatic metric mode sizes rfl).1
      unfold build
      split
      · rename_i heq _
        cases heq
        rw [if_neg (by omega)]
        exact .ok _
      · exact .ok _
  | flat metric mode => exact .ok _
  | hnsw m mMax efConstruction efSearch ml metric mode => exact .ok _
  | ivf numClusters numProbes maxIterations metric mode => exact .ok _

theorem Sound.neverPanics [IeeeFloats] (h : config.Sound)
    (hvalid : ∀ metric mode sizes, config = .auto metric mode sizes → sizes.Valid) (n dim : Nat) :
    config.NeverPanics n dim := by
  refine ⟨h.settles_build n, fun ix hix op hop hsorts => ?_⟩
  have htame : ix.Tame dim := by
    refine hix.tame fun ix hbuilt => ?_
    rw [build_eq_ok hbuilt]
    exact h.tame hvalid n dim
  exact htame.settles hop hsorts

end IndexConfig

/-! ## Configurations that are not -/

/-- A reader with the number one for each of `ids`. -/
def VectorReader.ones (ids : List Uuid) : VectorReader where
  vectors := HashMap.insertEach ∅ (ids.map fun id => (id, [F32.one]))
  order := Bincode.idOrder

namespace VectorReader

omit [Floats] in
theorem get_ones {ids : List Uuid} (hnodup : ids.Nodup) (id : Uuid) :
    (ones ids).get id = if id ∈ ids then some [F32.one] else none := by
  have hfst : (ids.map fun id => (id, [F32.one])).map Prod.fst = ids := by
    rw [List.map_map]
    exact List.map_id _
  unfold get ones
  split
  · rename_i hid
    refine HashMap.lookup_insertEach_of_mem (hfst.symm ▸ hnodup) ?_
    exact List.mem_map_of_mem hid
  · rename_i hid
    rw [HashMap.lookup_insertEach_of_not_mem (hfst.symm ▸ hid)]
    exact Finmap.lookup_empty id

omit [Floats] in
theorem len_ones {ids : List Uuid} (hnodup : ids.Nodup) : (ones ids).len = ids.length := by
  have hkeys : (ones ids).vectors.keys = ids.toFinset := by
    ext id
    rw [HashMap.mem_keys_iff, List.mem_toFinset]
    change (∃ v, (ones ids).get id = some v) ↔ _
    rw [get_ones hnodup]
    split
    · rename_i hid
      exact iff_of_true ⟨_, rfl⟩ hid
    · rename_i hid
      exact iff_of_false (fun ⟨v, hv⟩ => by cases hv) hid
  unfold len HashMap.len
  rw [hkeys, List.toFinset_card_of_nodup hnodup]

end VectorReader

namespace IndexOp

omit [Floats] in
theorem wellFormed_one : WellFormed 1 [F32.one] where
  length := rfl
  nonempty := List.cons_ne_nil _ _
  finite x hx := by
    rw [List.mem_singleton.mp hx]
    decide

omit [Floats] in
theorem reads_ones {ids : List Uuid} (hnodup : ids.Nodup) {ix : VectorIndex}
    (htracked : ∀ id ∈ ix.trackedIds, id ∈ ids) : Reads 1 ix (.ones ids) where
  tracked id hid := by
    rw [VectorReader.get_ones hnodup, if_pos (htracked id hid)]
    rfl
  wellFormed id v hv := by
    rw [VectorReader.get_ones hnodup] at hv
    split at hv
    · cases hv
      exact wellFormed_one
    · cases hv

end IndexOp

/-! ### A first insertion -/

/-- An insertion into a new index, with `ids` in the reader. -/
def IndexOp.first (ids : List Uuid) (r : F32) : IndexOp := .insert 0 [F32.one] (.ones ids) r

/-- A search after it. -/
def IndexOp.second (ids : List Uuid) : IndexOp := .search [F32.one] 1 (.ones ids) .default none ∅

namespace IvfIndex

variable {ix ix' : IvfIndex}

theorem fails_findNearestCentroid (ix : IvfIndex) (vector : Vector32) :
    Faults Fault.IsPanic (ix.findNearestCentroid vector) := by
  refine Faults.bind (.mapM fun centroid _ => ?_) fun _ _ => .ok _
  exact (Metric.panics_calculate _ _ _ _).bind fun _ _ => .ok _

omit [Floats] in
theorem fails_pushAt {α : Type} (lists : List (List α)) (i : Nat) (a : α) :
    Faults Fault.IsPanic (pushAt lists i a) := by
  unfold pushAt
  split
  · exact .ok _
  · exact .error ⟨_, rfl⟩

theorem fails_assign (ix : IvfIndex) (entry : Uuid × Vector32) :
    Faults Fault.IsPanic (ix.assign entry) := by
  refine (ix.fails_findNearestCentroid _).bind fun clusterId _ => ?_
  exact (fails_pushAt _ _ _).bind fun _ _ => .ok _

theorem fails_updateCentroid (state : IvfIndex × Bool) (cluster : List (Uuid × Vector32) × Nat) :
    Faults Fault.IsPanic (updateCentroid state cluster) := by
  unfold updateCentroid
  simp only
  split
  · exact .ok _
  refine Faults.bind ?_ fun newCentroid _ => ?_
  · unfold computeCentroid
    split
    · exact .ok _
    refine Faults.bind (.foldlM fun entry _ centroid => ?_) fun _ _ => .ok _
    unfold addInto
    split
    · exact .ok _
    · exact .error ⟨_, rfl⟩
  · split
    · exact .error ⟨_, rfl⟩
    · exact (Metric.panics_calculate _ _ _ _).bind fun _ _ => .ok _

theorem fails_iterate (vectorList : List (Uuid × Vector32)) (numClusters iterations : Nat)
    (ix : IvfIndex) : Faults Fault.IsPanic (iterate vectorList numClusters iterations ix) := by
  induction iterations generalizing ix with
  | zero => exact .ok _
  | succ iterations ih =>
      unfold iterate
      refine Faults.bind (.foldlM fun entry _ clusters => ?_) fun clusters _ => ?_
      · exact (ix.fails_findNearestCentroid _).bind fun _ _ => fails_pushAt _ _ _
      refine Faults.bind (.foldlM fun cluster _ state => fails_updateCentroid state cluster) ?_
      rintro ⟨ix, converged⟩ -
      simp only
      split
      · exact .ok _
      · exact ih _

/-- Nothing but a panic stops an insertion. -/
theorem fails_insert (ix : IvfIndex) (id : Uuid) (vector : Vector32) (vectors : VectorReader) :
    Faults Fault.IsPanic (ix.insert id vector vectors) := by
  unfold insert
  split
  · exact .ok _
  split
  · simp only
    split
    · unfold buildClusters
      split
      · exact .ok _
      · refine (fails_iterate _ _ _ _).bind fun ix _ => ?_
        exact .foldlM fun entry _ ix => ix.fails_assign entry
    · exact .ok _
  · refine (ix.fails_findNearestCentroid _).bind fun clusterId _ => ?_
    split
    · exact .ok _
    · exact .ok _

/-- Without clusters there is no list for the first vector. -/
theorem clusters_of_buildClusters {vectors : VectorReader} (hne : vectors.len ≠ 0)
    (h : ix.buildClusters vectors = .ok ix') : 0 < ix.config.numClusters := by
  unfold buildClusters at h
  rw [if_neg hne, bind_eq_ok] at h
  obtain ⟨ix₁, -, h⟩ := h
  have hlen := vectors.length_iter
  cases hiter : vectors.iter with
  | nil =>
      rw [hiter] at hlen
      exact absurd hlen.symm hne
  | cons entry entries =>
      rw [hiter, List.foldlM_cons, bind_eq_ok] at h
      obtain ⟨ix₂, hstep, -⟩ := h
      unfold assign at hstep
      rw [bind_eq_ok] at hstep
      obtain ⟨i, -, hstep⟩ := hstep
      rw [bind_eq_ok] at hstep
      obtain ⟨lists, hpush, -⟩ := hstep
      have hlt := (pushAt_eq_ok hpush).1
      rw [List.length_replicate] at hlt
      omega

theorem clusters_of_insert {id : Uuid} {vector : Vector32} {vectors : VectorReader}
    (hre : ix.Rebuilds id vectors) (h : ix.insert id vector vectors = .ok ix') :
    0 < ix.config.numClusters := by
  obtain ⟨hid, hcent, hlen, hne⟩ := hre
  rw [mem_trackedIds] at hid
  unfold insert at h
  rw [if_neg hid, if_pos hcent] at h
  simp only [ge_iff_le, hlen, if_true] at h
  have hbuild := clusters_of_buildClusters hne h
  exact hbuild

end IvfIndex

namespace IndexConfig

variable {config : IndexConfig} {n : Nat}

/-- A half is a draw. -/
def half : F32 := 0x3f000000#32

omit [Floats] in
theorem isDraw_half : half.IsDraw := by
  constructor
  · decide
  · decide

omit [Floats] in
theorem admissible_first {ids : List Uuid} (hnodup : ids.Nodup) {ix : VectorIndex}
    (hnew : ix.trackedIds = ∅) {r : F32} (hr : r.IsDraw) :
    (IndexOp.first ids r).Admissible 1 ix := by
  refine ⟨IndexOp.wellFormed_one, IndexOp.reads_ones hnodup fun id hid => ?_, hr⟩
  rw [hnew] at hid
  cases hid

/-- The first insertion compares nothing with a graph. -/
theorem sorts_first {ix : VectorIndex} (hbuild : config.build n = .ok ix) (ids : List Uuid) (r : F32) :
    (IndexOp.first ids r).Sorts ix := by
  rw [build_eq_ok hbuild]
  unfold createIndex
  split
  · trivial
  · intro hstart
    cases hstart
  · trivial

/-- The first insertion returns an index without a panic, and so does a search after it, if
no comparison returns. -/
theorem NeverPanics.first {ix : VectorIndex} (h : config.NeverPanics n 1)
    (hbuild : config.build n = .ok ix) (hnew : ix.trackedIds = ∅) {ids : List Uuid}
    (hnodup : ids.Nodup) {r : F32} (hr : r.IsDraw) :
    Faults Fault.IsError ((IndexOp.first ids r).perform ix) ∧
      ∀ ix', (IndexOp.first ids r).perform ix = .ok ix' → (∀ id ∈ ix'.trackedIds, id ∈ ids) →
        ¬ix'.mode.Implemented → Faults Fault.IsError ((IndexOp.second ids).perform ix') := by
  have hreached : IndexReached config n 1 ix := .built hbuild
  have hfirst := admissible_first hnodup hnew hr
  refine ⟨h.calls ix hreached _ hfirst (sorts_first hbuild ids r), fun ix' hret htracked hmode => ?_⟩
  exact h.calls ix' (hreached.performed hfirst hret) _
    ⟨IndexOp.wellFormed_one, IndexOp.reads_ones hnodup htracked⟩ (VectorIndex.sortsScores_of_gpu hmode)

/-- The layers of the draws of a graph can be allocated. -/
theorem NeverPanics.levels {hnsw : HnswConfig} (h : config.NeverPanics n 1)
    (hbuild : config.build n = .ok (.hnsw (.new hnsw))) : Levels hnsw.ml := by
  intro r hr
  by_contra hlarge
  have hfits : ¬Allocatable ((HnswIndex.new hnsw).randomLayer r + 1) := hlarge
  have hnew : (VectorIndex.hnsw (.new hnsw)).trackedIds = ∅ := rfl
  refine Panics.not_settled ?_ (h.first hbuild hnew List.nodup_nil hr).1
  refine Panics.bind (f := fun ix => pure (VectorIndex.hnsw ix)) ?_
  unfold HnswIndex.insertChecked
  split
  · exact ⟨_, rfl⟩
  · exact ⟨_, rfl⟩

/-! ### Its execution mode -/

theorem NeverPanics.flat_mode {flat : FlatConfig} (h : config.NeverPanics n 1)
    (hbuild : config.build n = .ok (.flat (.new flat))) : flat.mode.Implemented := by
  by_contra hmode
  have hnodup : [(0 : Uuid)].Nodup := List.nodup_singleton 0
  have hsecond := (h.first hbuild rfl hnodup isDraw_half).2 (.flat ⟨flat, [0]⟩) rfl
    (fun id hid => List.mem_toFinset.mp hid) hmode
  refine Panics.not_settled (Panics.bind ?_ _) hsecond
  have hids : (⟨flat, [0]⟩ : FlatIndex).vectorIds = [0] := rfl
  refine FlatIndex.search_panics hids (v := [F32.one]) ?_ (.inl hmode)
  rw [VectorReader.get_ones hnodup, if_pos (List.mem_singleton.mpr rfl)]

theorem NeverPanics.hnsw_mode {hnsw : HnswConfig} (h : config.NeverPanics n 1)
    (hbuild : config.build n = .ok (.hnsw (.new hnsw))) : hnsw.mode.Implemented := by
  by_contra hmode
  have hnodup : [(0 : Uuid)].Nodup := List.nodup_singleton 0
  have hfits : Allocatable ((HnswIndex.new hnsw).randomLayer half + 1) :=
    h.levels hbuild half isDraw_half
  have hret : ∃ ix', (HnswIndex.new hnsw).insertChecked 0 [F32.one] (.ones [0]) half = .ok ix' ∧
      ix'.config = hnsw ∧ ix'.startNode = some 0 ∧ ∀ id ∈ ix'.trackedIds, id ∈ [0] := by
    rw [HnswIndex.insertChecked_of_allocatable hfits]
    refine ⟨_, rfl, rfl, rfl, fun id hid => ?_⟩
    have hkey := (HnswIndex.mem_trackedIds.mp hid).1
    change id ∈ (∅ : HashMap Uuid HnswNode).insert 0 _ at hkey
    rw [Finmap.mem_insert] at hkey
    rcases hkey with heq | hnone
    · exact List.mem_singleton.mpr heq
    · exact absurd hnone Finmap.notMem_empty
  obtain ⟨ix', hret, hconfig, hstart, htracked⟩ := hret
  have hperform : (IndexOp.first [0] half).perform (.hnsw (.new hnsw)) = .ok (.hnsw ix') := by
    change VectorIndex.hnsw <$> _ = _
    rw [hret]
    rfl
  have hgpu : ¬(VectorIndex.hnsw ix').mode.Implemented := by
    change ¬ix'.config.mode.Implemented
    rw [hconfig]
    exact hmode
  have hsettles := (h.first hbuild rfl hnodup isDraw_half).2 _ hperform htracked hgpu
  refine Panics.not_settled (Panics.bind ?_ _) hsettles
  refine HnswIndex.search_panics (v := [F32.one]) hstart ?_ (.inl hgpu)
  rw [VectorReader.get_ones hnodup, if_pos (List.mem_singleton.mpr rfl)]

theorem NeverPanics.ivf_settings {ivf : IvfConfig} (h : config.NeverPanics n 1)
    (hbuild : config.build n = .ok (.ivf (.new ivf))) (hsize : ivf.numClusters < 2 ^ 64) :
    ivf.mode.Implemented ∧ 0 < ivf.numClusters := by
  let ids : List Uuid := (List.range (ivf.numClusters + 1)).map (BitVec.ofNat 128)
  have hnodup : ids.Nodup := by
    refine List.Nodup.map_on ?_ List.nodup_range
    intro i hi j hj heq
    rw [List.mem_range] at hi hj
    have hnat := congrArg BitVec.toNat heq
    rw [BitVec.toNat_ofNat, BitVec.toNat_ofNat, Nat.mod_eq_of_lt (by omega),
      Nat.mod_eq_of_lt (by omega)] at hnat
    exact hnat
  have hlen : (VectorReader.ones ids).len = ivf.numClusters + 1 := by
    rw [VectorReader.len_ones hnodup]
    simp [ids]
  obtain ⟨hfirst, hsecond⟩ := h.first hbuild rfl hnodup isDraw_half
  have hret : ∃ ix', (IvfIndex.new ivf).insert 0 [F32.one] (.ones ids) = .ok ix' := by
    refine ok_of_faults (Q := Fault.IsError) (IvfIndex.fails_insert _ _ _ _) ?_ ?_
    · intro e he
      refine hfirst e ?_
      change VectorIndex.ivf <$> _ = _
      rw [he]
      rfl
    · rintro e ⟨msg, rfl⟩ ⟨err, herr⟩
      cases herr
  obtain ⟨ix', hret⟩ := hret
  have hre : (IvfIndex.new ivf).Rebuilds 0 (.ones ids) := by
    refine ⟨?_, rfl, ?_, ?_⟩
    · exact Finset.notMem_empty 0
    · rw [hlen]
      exact Nat.le_succ _
    · rw [hlen]
      exact Nat.succ_ne_zero _
  refine ⟨?_, IvfIndex.clusters_of_insert hre hret⟩
  by_contra hmode
  obtain ⟨htracked, -, hcentroids, hconfig⟩ := IvfIndex.insert_rebuilds hre hret
  have hgpu : ¬ix'.config.mode.Implemented := by
    rw [hconfig]
    exact hmode
  have hperform : (IndexOp.first ids half).perform (.ivf (.new ivf)) = .ok (.ivf ix') := by
    change VectorIndex.ivf <$> _ = _
    rw [hret]
    rfl
  have hids : ∀ id ∈ (VectorIndex.ivf ix').trackedIds, id ∈ ids := by
    intro id hid
    have hkey : id ∈ ix'.trackedIds := hid
    rw [htracked, HashMap.mem_keys_iff] at hkey
    obtain ⟨v, hv⟩ := hkey
    have hget : (VectorReader.ones ids).get id = some v := hv
    rw [VectorReader.get_ones hnodup] at hget
    split at hget
    · assumption
    · cases hget
  obtain ⟨v, vs, hvs⟩ := List.exists_cons_of_ne_nil hcentroids
  refine Panics.not_settled (Panics.bind ?_ _) (hsecond _ hperform hids hgpu)
  exact IvfIndex.search_panics hvs (.inl hgpu)

/-! ### Back to the settings -/

/-- No explicit number of clusters exceeds a `usize`. -/
def Sized (config : IndexConfig) : Prop :=
  ∀ numClusters numProbes maxIterations metric mode,
    config = .ivf numClusters numProbes maxIterations metric mode → numClusters < 2 ^ 64

theorem sound_of_neverPanics (hsize : config.Sized)
    (hvalid : ∀ metric mode sizes, config = .auto metric mode sizes → sizes.Valid)
    (h : ∀ n, config.NeverPanics n 1) : config.Sound := by
  cases config with
  | auto metric mode sizes =>
      obtain ⟨hflat, hivf, -, -⟩ := hvalid metric mode sizes rfl
      have hsmall : (IndexConfig.auto metric mode sizes).selectType 0 = .flat := by
        unfold selectType
        simp only
        rw [if_pos hflat]
      have hlarge : (IndexConfig.auto metric mode sizes).selectType sizes.ivfMaxVectors = .hnsw := by
        unfold selectType
        simp only
        rw [if_neg (by omega), if_neg (by omega)]
      have hfits : sizes.hnswM * 2 < 2 ^ 64 := by
        by_contra hover
        refine Panics.not_settled ?_ (h sizes.ivfMaxVectors).build
        unfold build
        simp only [hlarge]
        rw [if_pos (by omega)]
        exact ⟨_, rfl⟩
      have hbuild : (IndexConfig.auto metric mode sizes).build 0 = .ok (.flat (.new ⟨metric, mode⟩)) := by
        unfold build createIndex
        simp only [hsmall]
        rfl
      have hgraph : (IndexConfig.auto metric mode sizes).build sizes.ivfMaxVectors =
          .ok (.hnsw (.new (IndexConfig.auto metric mode sizes).hnswConfig)) := by
        unfold build createIndex
        simp only [hlarge]
        rw [if_neg (by omega)]
      refine ⟨(h 0).flat_mode hbuild, ?_, ?_, ?_⟩
      · intro _ _ _ _ heq
        cases heq
      · intro _ _ _ _ _ _ _ heq
        cases heq
      · intro metric' mode' sizes' heq
        cases heq
        have hml : (IndexConfig.auto metric mode sizes).hnswConfig.ml =
          Floats.div F32.one (Floats.ln (Floats.ofUsize sizes.hnswM)) := rfl
        have hlevels := (h sizes.ivfMaxVectors).levels hgraph
        rw [hml] at hlevels
        exact ⟨hfits, hlevels⟩
  | flat metric mode =>
      have hbuild : (IndexConfig.flat metric mode).build 0 = .ok (.flat (.new ⟨metric, mode⟩)) := rfl
      refine ⟨(h 0).flat_mode hbuild, ?_, ?_, ?_⟩
      · intro _ _ _ _ heq
        cases heq
      · intro _ _ _ _ _ _ _ heq
        cases heq
      · intro _ _ _ heq
        cases heq
  | hnsw m mMax efConstruction efSearch ml metric mode =>
      let config := IndexConfig.hnsw m mMax efConstruction efSearch ml metric mode
      have hbuild : config.build 0 = .ok (.hnsw (.new config.hnswConfig)) := rfl
      refine ⟨(h 0).hnsw_mode hbuild, ?_, ?_, ?_⟩
      · intro _ _ _ _ heq
        cases heq
      · intro _ _ _ _ _ _ _ heq
        cases heq
        have hml : config.hnswConfig.ml = ml := rfl
        have hlevels := (h 0).levels hbuild
        rw [hml] at hlevels
        exact hlevels
      · intro _ _ _ heq
        cases heq
  | ivf numClusters numProbes maxIterations metric mode =>
      let config := IndexConfig.ivf numClusters numProbes maxIterations metric mode
      have hbuild : config.build 0 = .ok (.ivf (.new (config.ivfConfig 0))) := rfl
      obtain ⟨hmode, hpos⟩ := (h 0).ivf_settings hbuild (hsize _ _ _ _ _ rfl)
      refine ⟨hmode, ?_, ?_, ?_⟩
      · intro _ _ _ _ heq
        cases heq
        exact absurd hpos (lt_irrefl 0)
      · intro _ _ _ _ _ _ _ heq
        cases heq
      · intro _ _ _ heq
        cases heq

/-- Of an accepted configuration, the index never panics on scores that can be sorted exactly
if the settings are sound that `validate` does not look at. -/
theorem validated_index_never_panics_iff [IeeeFloats] {app : AppConfig}
    (hvalid : app.validate = .ok ()) (hsize : app.index.Sized) :
    (∀ n dim, app.index.NeverPanics n dim) ↔ app.index.Sound := by
  have hsizes := (AppConfig.of_validate hvalid).2
  constructor
  · intro h
    exact sound_of_neverPanics hsize hsizes fun n => h n 1
  · intro h n dim
    exact h.neverPanics hsizes n dim

end IndexConfig

end

/-! ## Two accepted configurations -/

section

open Reference

/-- The reference arithmetic, with the infinity and with a cast of ten. -/
@[reducible] def ieee : Floats :=
  { Reference.floats with
    mul := fun x y => if y = F32.infinity then F32.infinity else Reference.floats.mul x y
    div := fun x y => if y = F32.zero then F32.infinity else Reference.floats.div x y
    floor := fun x => if x = F32.infinity then F32.infinity else Reference.floats.floor x
    max := fun x y => if y = F32.ten then F32.ten else Reference.floats.max x y
    toUsize := fun x =>
      if x = F32.infinity then 2 ^ 64 - 1 else if x = F32.ten then 10 else Reference.floats.toUsize x }

attribute [local instance] ieee

instance ieeeFloats : IeeeFloats where
  ofUsize_one := by decide
  ln_one := by decide
  div_zero := by decide
  ln_draw r _ := if_pos rfl
  floor_infinity := by decide
  toUsize_infinity := by decide
  toUsize_max_ten x := by
    change 10 ≤ Floats.toUsize (if F32.ten = F32.ten then F32.ten else _)
    rw [if_pos rfl]
    decide

/-- The default configuration, but for the index. -/
def appConfig (index : IndexConfig) : AppConfig where
  index := index
  quantization := ⟨.none, .disabled, false, false, false, false⟩
  memory := ⟨1024 * 1024, true⟩
  wal := ⟨true, 1000, none, 100 * 1024 * 1024, false⟩
  execution := .auto
  gpuEnabled := false
  search := ⟨.default, none, ⟨16, 800, 1, 64, 1, 100⟩⟩
  limits := .unlimited
  cache := ⟨true, 1000, none⟩

/-- A flat index does not panic. -/
theorem flat_never_panics :
    (appConfig (.flat .cosine .auto)).validate = .ok () ∧
      ∀ n dim, (appConfig (.flat .cosine .auto)).index.NeverPanics n dim := by
  have hvalid : (appConfig (.flat .cosine .auto)).validate = .ok () := rfl
  have hsize : (appConfig (.flat .cosine .auto)).index.Sized := by
    intro _ _ _ _ _ heq
    cases heq
  refine ⟨hvalid, (IndexConfig.validated_index_never_panics_iff hvalid hsize).mpr ?_⟩
  refine ⟨?_, ?_, ?_, ?_⟩
  · decide
  · intro _ _ _ _ heq
    cases heq
  · intro _ _ _ _ _ _ _ heq
    cases heq
  · intro _ _ _ heq
    cases heq

/-- An IVF index without clusters panics on the first vector. -/
theorem no_clusters_panics :
    (appConfig (.ivf 0 1 10 .cosine .auto)).validate = .ok () ∧
      ∃ (ix : VectorIndex) (op : IndexOp),
        IndexReached (appConfig (.ivf 0 1 10 .cosine .auto)).index 0 1 ix ∧ op.Admissible 1 ix ∧
        op.Sorts ix ∧ op.perform ix = .error (.panic "index out of bounds: the len is 0 but the index is 0") := by
  have hpanics : (match (IndexOp.first [0] IndexConfig.half).perform
      ((appConfig (.ivf 0 1 10 .cosine .auto)).index.createIndex 0) with
      | .error (.panic msg) => some msg
      | _ => none) = some "index out of bounds: the len is 0 but the index is 0" := by
    decide +kernel
  refine ⟨rfl, (appConfig (.ivf 0 1 10 .cosine .auto)).index.createIndex 0,
    .first [0] IndexConfig.half, .built rfl, ?_, trivial, ?_⟩
  · exact IndexConfig.admissible_first (List.nodup_singleton 0)
      (IndexConfig.trackedIds_createIndex _ _) IndexConfig.isDraw_half
  · split at hpanics
    · rename_i msg heq
      rw [heq, Option.some.inj hpanics]
    · cases hpanics

end
