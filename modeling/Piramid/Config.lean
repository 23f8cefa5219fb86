-- SUMMARY: The configuration of a collection, as far as its operations read it.
import Piramid.Compute

/-!
# Configuration

Settings that no modelled function reads are left out: the budget and the
adaptive tuning of a search, quantization, parallelism, hardware and logging.
-/

/-- `config::WalConfig`. -/
structure WalConfig where
  enabled : Bool
  checkpointFrequency : Nat
  checkpointIntervalSecs : Option Nat
  maxLogSize : Nat
  syncOnWrite : Bool
deriving DecidableEq

/-- `config::LimitsConfig`. -/
structure LimitsConfig where
  maxVectors : Option Nat
  maxBytes : Option Nat
  maxVectorBytes : Option Nat
deriving DecidableEq

/-- `LimitsConfig::default`: no limits. -/
def LimitsConfig.unlimited : LimitsConfig := ⟨none, none, none⟩

/-- `config::MemoryConfig`. -/
structure MemoryConfig where
  initialMmapSize : Nat
  useMmap : Bool
deriving DecidableEq

/-- `config::CacheConfig`. -/
structure CacheConfig where
  enabled : Bool
  maxSize : Nat
  maxBytes : Option Nat
deriving DecidableEq

/-- `config::SearchConfig`. -/
structure SearchConfig where
  ef : Option Nat
  nprobe : Option Nat
  filterOverfetch : Nat
deriving DecidableEq

/-- `SearchConfig::default`. -/
def SearchConfig.default : SearchConfig := ⟨none, none, 10⟩

/-! ## Indexes -/

/-- `index::flat::FlatConfig`. -/
structure FlatConfig where
  metric : Metric
  mode : ExecutionMode
deriving DecidableEq

/-- `index::hnsw::HnswConfig`. -/
structure HnswConfig where
  m : Nat
  mMax : Nat
  efConstruction : Nat
  efSearch : Nat
  ml : F32
  metric : Metric
  mode : ExecutionMode
deriving DecidableEq

/-- `index::ivf::IvfConfig`. -/
structure IvfConfig where
  numClusters : Nat
  numProbes : Nat
  maxIterations : Nat
  metric : Metric
  mode : ExecutionMode
deriving DecidableEq

/-- `IvfConfig::auto`. -/
def IvfConfig.auto [Floats] (numVectors : Nat) : IvfConfig :=
  let numClusters :=
    Floats.toUsize (Floats.max (Floats.sqrt (Floats.ofUsize numVectors)) F32.ten)
  let numProbes := Floats.toUsize
    (Floats.min (Floats.max (Floats.mul (Floats.ofUsize numClusters) F32.tenth) F32.one) F32.ten)
  { numClusters, numProbes, maxIterations := 10, metric := .cosine, mode := .auto }

/-- `index::AutoIndexConfig`. -/
structure AutoIndexConfig where
  flatMaxVectors : Nat
  ivfMaxVectors : Nat
  ivfNumClusters : Option Nat
  ivfNumProbes : Option Nat
  ivfMaxIterations : Nat
  hnswM : Nat
  hnswEfConstruction : Nat
  hnswEfSearch : Nat
deriving DecidableEq

/-- `index::IndexConfig`. -/
inductive IndexConfig where
  | auto (metric : Metric) (mode : ExecutionMode) (auto : AutoIndexConfig)
  | flat (metric : Metric) (mode : ExecutionMode)
  | hnsw (m mMax efConstruction efSearch : Nat) (ml : F32) (metric : Metric) (mode : ExecutionMode)
  | ivf (numClusters numProbes maxIterations : Nat) (metric : Metric) (mode : ExecutionMode)
deriving DecidableEq

/-- `config::CollectionConfig`. -/
structure CollectionConfig where
  index : IndexConfig
  memory : MemoryConfig
  wal : WalConfig
  limits : LimitsConfig
  cache : CacheConfig
  search : SearchConfig := .default
  execution : ExecutionMode := .auto
deriving DecidableEq
