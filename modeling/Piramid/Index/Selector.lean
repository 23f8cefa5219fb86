-- SUMMARY: The index of a collection, whichever type it is, and how a configuration selects it.
import Piramid.Index.Flat
import Piramid.Index.Inserting
import Piramid.Index.Ivf

/-!
# The vector index

`Box<dyn VectorIndex>` is one of three, and so is the `SerializableIndex` that is
stored, which holds the same data.
-/

open Loop

/-- `index::IndexType`. -/
inductive IndexType where
  | flat | hnsw | ivf
deriving DecidableEq

/-- `dyn index::VectorIndex`. -/
inductive VectorIndex where
  | flat (ix : FlatIndex)
  | hnsw (ix : HnswIndex)
  | ivf (ix : IvfIndex)

namespace VectorIndex

def indexType : VectorIndex → IndexType
  | .flat _ => .flat
  | .hnsw _ => .hnsw
  | .ivf _ => .ivf

/-- `insert`, with the random number a layer is drawn from. -/
def insert [Floats] (ix : VectorIndex) (id : Uuid) (vector : Vector32) (vectors : VectorReader)
    (r : F32) : Except Fault VectorIndex :=
  match ix with
  | .flat ix => .ok (.flat (ix.insert id))
  | .hnsw ix => .hnsw <$> ix.insert id vector vectors r
  | .ivf ix => .ivf <$> ix.insert id vector vectors

/-- `remove`, with the order in which the nodes of a graph are iterated. -/
def remove (ix : VectorIndex) (id : Uuid) (order : HashOrder Uuid) : VectorIndex :=
  match ix with
  | .flat ix => .flat (ix.remove id)
  | .hnsw ix => .hnsw (ix.remove id order)
  | .ivf ix => .ivf (ix.remove id)

/-- `search`. Only a graph looks at the filter. -/
def search [Floats] (ix : VectorIndex) (query : Vector32) (k : Nat) (vectors : VectorReader)
    (quality : SearchConfig) (filter : Option (Metadata → Bool))
    (metadatas : HashMap Uuid Metadata) : Except Fault (List Uuid) :=
  match ix with
  | .flat ix => ix.search query k vectors
  | .hnsw ix =>
    ix.search query k (max (quality.ef.getD ix.config.efSearch) k) vectors filter metadatas
  | .ivf ix => ix.search query k vectors quality

/-- The ids a search can return: those of the flat list, the pending and assigned
ids of an IVF index, the live nodes of an HNSW graph. -/
def trackedIds : VectorIndex → Finset Uuid
  | .flat ix => ix.trackedIds
  | .hnsw ix => ix.trackedIds
  | .ivf ix => ix.trackedIds

theorem trackedIds_remove (ix : VectorIndex) (id : Uuid) (order : HashOrder Uuid) :
    (ix.remove id order).trackedIds = ix.trackedIds.erase id := by
  cases ix with
  | flat ix => exact ix.trackedIds_remove id
  | hnsw ix => exact ix.trackedIds_remove id order
  | ivf ix => exact ix.trackedIds_remove id

@[simp] theorem indexType_remove (ix : VectorIndex) (id : Uuid) (order : HashOrder Uuid) :
    (ix.remove id order).indexType = ix.indexType := by
  cases ix <;> rfl

theorem insert_eq_ivf [Floats] {ix : VectorIndex} {id : Uuid} {vector : Vector32}
    {vectors : VectorReader} {r : F32} {ix' : IvfIndex} (h : ix.insert id vector vectors r = .ok (.ivf ix')) :
    ∃ ix₀, ix = .ivf ix₀ ∧ ix₀.insert id vector vectors = .ok ix' := by
  cases ix with
  | flat ix => cases h
  | hnsw ix =>
      obtain ⟨_, -, heq⟩ := map_eq_ok.mp h
      cases heq
  | ivf ix =>
      obtain ⟨_, hinsert, heq⟩ := map_eq_ok.mp h
      cases heq
      exact ⟨ix, rfl, hinsert⟩

theorem remove_eq_ivf {ix : VectorIndex} {id : Uuid} {order : HashOrder Uuid} {ix' : IvfIndex}
    (h : ix.remove id order = .ivf ix') : ∃ ix₀, ix = .ivf ix₀ ∧ ix' = ix₀.remove id := by
  cases ix with
  | flat ix => cases h
  | hnsw ix => cases h
  | ivf ix =>
      cases h
      exact ⟨ix, rfl, rfl⟩

/-- The index scores vectors of `dim` components without a panic. -/
def Ready (dim : Nat) : VectorIndex → Prop
  | .flat _ => True
  | .hnsw ix => ix.config.mode.Implemented
  | .ivf ix => ix.Ready dim

/-- A graph that is not empty can sort by the distances that an insertion comes to. -/
def SortsDistances [Floats] (ix : VectorIndex) (vectors : VectorReader) (id : Uuid)
    (vector : Vector32) : Prop :=
  match ix with
  | .hnsw ix => ix.startNode.isSome → ix.SortsDistances vectors id vector
  | _ => True

theorem Ready.insert [Floats] {dim : Nat} {ix : VectorIndex} (h : ix.Ready dim) {id : Uuid}
    {vector : Vector32} (hlen : vector.length = dim) {vectors : VectorReader}
    (hv : vectors.Uniform dim) (hsorts : ix.SortsDistances vectors id vector) (r : F32) :
    Returns (Ready dim) (ix.insert id vector vectors r) := by
  cases ix with
  | flat ix => exact .ok trivial
  | hnsw ix =>
      refine (HnswIndex.insert_returns h (hlen ▸ hv) hsorts r).map fun ix' hix' => ?_
      rw [Ready, hix'.config]
      exact h
  | ivf ix => exact (IvfIndex.insert_returns h hlen hv).map fun _ hix' => hix'

theorem Ready.remove {dim : Nat} {ix : VectorIndex} (h : ix.Ready dim) (id : Uuid)
    (order : HashOrder Uuid) : (ix.remove id order).Ready dim := by
  cases ix with
  | flat ix => trivial
  | hnsw ix =>
      rw [VectorIndex.remove, Ready, HnswIndex.config_remove]
      exact h
  | ivf ix => exact IvfIndex.Ready.remove h id

end VectorIndex

/-! ## Selection -/

namespace IndexConfig

def selectType (config : IndexConfig) (numVectors : Nat) : IndexType :=
  match config with
  | .auto _ _ sizes =>
    if numVectors < sizes.flatMaxVectors then .flat
    else if numVectors < sizes.ivfMaxVectors then .ivf
    else .hnsw
  | .flat .. => .flat
  | .hnsw .. => .hnsw
  | .ivf .. => .ivf

def getMetricAndMode : IndexConfig → Metric × ExecutionMode
  | .auto metric mode _ => (metric, mode)
  | .flat metric mode => (metric, mode)
  | .hnsw _ _ _ _ _ metric mode => (metric, mode)
  | .ivf _ _ _ metric mode => (metric, mode)

/-- `AutoIndexConfig::default`. -/
def defaultAuto : AutoIndexConfig where
  flatMaxVectors := 10000
  ivfMaxVectors := 100000
  ivfNumClusters := none
  ivfNumProbes := none
  ivfMaxIterations := 10
  hnswM := 16
  hnswEfConstruction := 200
  hnswEfSearch := 200

def autoConfig : IndexConfig → AutoIndexConfig
  | .auto _ _ sizes => sizes
  | _ => defaultAuto

variable [Floats]

/-- The HNSW settings of `create_index`. -/
def hnswConfig (config : IndexConfig) : HnswConfig :=
  match config with
  | .hnsw m mMax efConstruction efSearch ml metric mode =>
    { m, mMax, efConstruction, efSearch := if efSearch = 0 then efConstruction else efSearch,
      ml, metric, mode }
  | _ =>
    let (metric, mode) := config.getMetricAndMode
    let sizes := config.autoConfig
    { m := sizes.hnswM, mMax := sizes.hnswM * 2, efConstruction := sizes.hnswEfConstruction,
      efSearch := sizes.hnswEfSearch,
      ml := Floats.div F32.one (Floats.ln (Floats.ofUsize sizes.hnswM)), metric, mode }

/-- The IVF settings of `create_index`. -/
def ivfConfig (config : IndexConfig) (numVectors : Nat) : IvfConfig :=
  match config with
  | .ivf numClusters numProbes maxIterations metric mode =>
    { numClusters, numProbes, maxIterations, metric, mode }
  | _ =>
    let (metric, mode) := config.getMetricAndMode
    let sizes := config.autoConfig
    let byCount := IvfConfig.auto numVectors
    { numClusters := sizes.ivfNumClusters.getD byCount.numClusters
      numProbes := sizes.ivfNumProbes.getD byCount.numProbes
      maxIterations := sizes.ivfMaxIterations, metric, mode }

def createIndex (config : IndexConfig) (numVectors : Nat) : VectorIndex :=
  match config.selectType numVectors with
  | .flat =>
    let (metric, mode) := config.getMetricAndMode
    .flat (.new ⟨metric, mode⟩)
  | .hnsw => .hnsw (.new config.hnswConfig)
  | .ivf => .ivf (.new (config.ivfConfig numVectors))

/-- The execution mode is implemented, and an IVF index of any size has at least
one cluster. -/
structure Usable (config : IndexConfig) : Prop where
  mode : config.getMetricAndMode.2.Implemented
  clusters : ∀ n, config.selectType n = .ivf → 1 ≤ (config.ivfConfig n).numClusters

theorem Usable.ready {config : IndexConfig} (h : config.Usable) (dim n : Nat) :
    (config.createIndex n).Ready dim := by
  rw [createIndex]
  split
  · trivial
  · have := h.mode
    cases config <;> exact this
  · rename_i htype
    refine ⟨?_, h.clusters n htype, by simp [IvfIndex.new]⟩
    have := h.mode
    cases config <;> exact this

@[simp] theorem trackedIds_createIndex (config : IndexConfig) (n : Nat) :
    (config.createIndex n).trackedIds = ∅ := by
  rw [createIndex]
  split <;> rfl

end IndexConfig
