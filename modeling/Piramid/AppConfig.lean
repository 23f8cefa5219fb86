-- SUMMARY: The configuration of the server, and the checks it has to pass when the server starts.
import Piramid.Index.Selector

/-!
# The configuration of the server

Fields that neither `validate` nor a collection reads are left out: parallelism,
logging, and of quantization and hardware what is not checked.
-/

/-- `config::QuantizationLevel`. -/
inductive QuantizationLevel where
  | none | int8 | int4 | float16
  | pq (subquantizers : Nat)
deriving DecidableEq

/-- `config::QuantizationStage`. -/
inductive QuantizationStage where
  | disabled | storage | index | queryPreSearch | resultPostSearch
deriving DecidableEq

/-- `config::QuantizationConfig`. -/
structure QuantizationConfig where
  level : QuantizationLevel
  stage : QuantizationStage
  storageEnabled : Bool
  indexEnabled : Bool
  queryEnabled : Bool
  resultEnabled : Bool
deriving DecidableEq

/-- `config::AdaptiveTuningConfig`. -/
structure AdaptiveTuningConfig where
  minEf : Nat
  maxEf : Nat
  minNprobe : Nat
  maxNprobe : Nat
  minFilterOverfetch : Nat
  maxFilterOverfetch : Nat
deriving DecidableEq

/-- `config::SearchConfig`, with the parts that only `validate` reads. -/
structure SearchSettings extends SearchConfig where
  recallTarget : Option F32
  adaptive : AdaptiveTuningConfig
deriving DecidableEq

/-- `config::AppConfig`. -/
structure AppConfig where
  index : IndexConfig
  quantization : QuantizationConfig
  memory : MemoryConfig
  wal : WalConfig
  execution : ExecutionMode
  gpuEnabled : Bool
  search : SearchSettings
  limits : LimitsConfig
  cache : CacheConfig
deriving DecidableEq

/-- One check of `validate`. -/
def reject (b : Bool) (msg : String) : Except String Unit := if b then .error msg else .ok ()

/-- `validate_auto_index`. -/
def validateAutoIndex (auto : AutoIndexConfig) : Except String Unit := do
  reject (auto.flatMaxVectors = 0) "INDEX auto flat_max_vectors must be > 0"
  reject (auto.ivfMaxVectors ≤ auto.flatMaxVectors)
    "INDEX auto ivf_max_vectors must be greater than flat_max_vectors"
  reject (auto.ivfNumClusters = some 0) "INDEX auto ivf_num_clusters must be > 0 when set"
  reject (auto.ivfNumProbes = some 0) "INDEX auto ivf_num_probes must be > 0 when set"
  reject (auto.ivfMaxIterations = 0) "INDEX auto ivf_max_iterations must be > 0"
  reject (auto.hnswM = 0) "INDEX auto hnsw_m must be > 0"
  reject (auto.hnswEfConstruction = 0 || auto.hnswEfSearch = 0) "INDEX auto HNSW ef values must be > 0"

/-- The operator `<=`. -/
def F32.le [Floats] (a b : F32) : Bool :=
  Floats.partialCmp a b = some .lt || Floats.partialCmp a b = some .eq

/-- `(0.0..=1.0).contains(&x)`. -/
def F32.inUnitInterval [Floats] (x : F32) : Bool := zero.le x && x.le one

namespace AppConfig

variable [Floats]

/-- The check of the index. Only the settings of `IndexConfig::Auto` are looked at. -/
def validateIndex : IndexConfig → Except String Unit
  | .auto _ _ auto => validateAutoIndex auto
  | .flat .. | .hnsw .. | .ivf .. => .ok ()

def validate (config : AppConfig) : Except String Unit := do
  reject (config.execution = .gpu) "EXECUTION_MODE gpu is not implemented"
  reject (config.quantization.level = .int4 || config.quantization.level = .float16)
    "Configured quantization level is not implemented"
  reject (config.wal.enabled && config.wal.checkpointFrequency = 0)
    "WAL checkpoint_frequency must be > 0 when WAL is enabled"
  reject (config.search.filterOverfetch = 0) "SEARCH filter_overfetch must be >= 1"
  reject (config.search.recallTarget.any fun target => !target.inUnitInterval)
    "SEARCH budget recall_target must be between 0.0 and 1.0"
  reject (config.search.adaptive.minEf = 0 ||
      config.search.adaptive.maxEf < config.search.adaptive.minEf)
    "SEARCH adaptive ef range is invalid"
  reject (config.search.adaptive.minNprobe = 0 ||
      config.search.adaptive.maxNprobe < config.search.adaptive.minNprobe)
    "SEARCH adaptive nprobe range is invalid"
  reject (config.search.adaptive.minFilterOverfetch = 0 ||
      config.search.adaptive.maxFilterOverfetch < config.search.adaptive.minFilterOverfetch)
    "SEARCH adaptive filter_overfetch range is invalid"
  reject (config.memory.useMmap && config.memory.initialMmapSize = 0)
    "MEMORY initial_mmap_size must be > 0 when mmap is enabled"
  validateIndex config.index
  reject (config.quantization.level = .none && config.quantization.stage ≠ .disabled)
    "QUANTIZATION stage must be disabled when level is none"
  reject (config.quantization.level = .none && (config.quantization.storageEnabled ||
      config.quantization.indexEnabled || config.quantization.queryEnabled ||
      config.quantization.resultEnabled))
    "QUANTIZATION enabled flags require a non-none level"
  reject (config.gpuEnabled && config.execution = .scalar)
    "HARDWARE gpu_enabled conflicts with scalar execution mode"

omit [Floats] in
/-- `to_collection_config`. -/
def toCollectionConfig (config : AppConfig) : CollectionConfig where
  index := config.index
  memory := config.memory
  wal := config.wal
  limits := config.limits
  cache := config.cache
  search := config.search.toSearchConfig
  execution := config.execution

end AppConfig

/-! ## What the checks let through -/

/-- What `validate_auto_index` makes sure of. -/
structure AutoIndexConfig.Valid (auto : AutoIndexConfig) : Prop where
  flat : 0 < auto.flatMaxVectors
  ivf : auto.flatMaxVectors < auto.ivfMaxVectors
  clusters : auto.ivfNumClusters ≠ some 0
  m : 0 < auto.hnswM

theorem reject_eq_ok {b : Bool} {msg : String} : reject b msg = .ok () ↔ b = false := by
  unfold reject
  cases b with
  | false => simp
  | true => simp

open Loop in
theorem valid_of_validateAutoIndex {auto : AutoIndexConfig}
    (h : validateAutoIndex auto = .ok ()) : auto.Valid := by
  unfold validateAutoIndex at h
  obtain ⟨hflat, h⟩ := bind_unit_eq_ok.mp h
  obtain ⟨hivf, h⟩ := bind_unit_eq_ok.mp h
  obtain ⟨hclusters, h⟩ := bind_unit_eq_ok.mp h
  obtain ⟨-, h⟩ := bind_unit_eq_ok.mp h
  obtain ⟨-, h⟩ := bind_unit_eq_ok.mp h
  obtain ⟨hm, -⟩ := bind_unit_eq_ok.mp h
  rw [reject_eq_ok, decide_eq_false_iff_not] at hflat hivf hclusters hm
  exact ⟨Nat.pos_of_ne_zero hflat, Nat.lt_of_not_le hivf, hclusters, Nat.pos_of_ne_zero hm⟩

namespace AppConfig

variable [Floats] {config : AppConfig}

open Loop in
/-- An accepted configuration has an execution mode with kernels, and valid automatic
settings if its index is chosen by them. -/
theorem of_validate (h : config.validate = .ok ()) :
    config.execution.Implemented ∧
      ∀ metric mode auto, config.index = .auto metric mode auto → auto.Valid := by
  unfold validate at h
  obtain ⟨hexecution, h⟩ := bind_unit_eq_ok.mp h
  obtain ⟨-, h⟩ := bind_unit_eq_ok.mp h
  obtain ⟨-, h⟩ := bind_unit_eq_ok.mp h
  obtain ⟨-, h⟩ := bind_unit_eq_ok.mp h
  obtain ⟨-, h⟩ := bind_unit_eq_ok.mp h
  obtain ⟨-, h⟩ := bind_unit_eq_ok.mp h
  obtain ⟨-, h⟩ := bind_unit_eq_ok.mp h
  obtain ⟨-, h⟩ := bind_unit_eq_ok.mp h
  obtain ⟨-, h⟩ := bind_unit_eq_ok.mp h
  obtain ⟨hindex, -⟩ := bind_unit_eq_ok.mp h
  rw [reject_eq_ok, decide_eq_false_iff_not] at hexecution
  refine ⟨hexecution, fun metric mode auto hauto => ?_⟩
  rw [hauto] at hindex
  exact valid_of_validateAutoIndex hindex

end AppConfig
