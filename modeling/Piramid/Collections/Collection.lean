-- SUMMARY: An open collection: its state, reading documents, rebuilding the cache and the vector index.
import Piramid.Cache
import Piramid.Storage.RecordStore
import Piramid.Storage.Wal

/-!
# Collections

An operation runs on a session: the collection in memory, and how often it has
drawn from the environment.
-/

/-- `collections::CheckpointManager`. -/
structure CheckpointManager where
  wal : Wal
  operationCount : Nat
  lastCheckpointTs : Option Nat

namespace CheckpointManager

def new (wal : Wal) : CheckpointManager := ⟨wal, 0, none⟩

/-- `should_checkpoint`: count an operation, and say whether a checkpoint is due. -/
def shouldCheckpoint (checkpoint : CheckpointManager) (cfg : WalConfig) :
    Bool × CheckpointManager :=
  if !cfg.enabled then (false, checkpoint)
  else
    let count := checkpoint.operationCount + 1
    (decide (count ≥ cfg.checkpointFrequency), { checkpoint with operationCount := count })

def resetCounter (checkpoint : CheckpointManager) : CheckpointManager :=
  { checkpoint with operationCount := 0 }

end CheckpointManager

/-- `collections::Collection`. -/
structure Collection where
  recordStore : RecordStore
  index : OffsetIndex
  vectorIndex : VectorIndex
  cache : CacheManager
  config : CollectionConfig
  metadata : CollectionMetadata
  path : String
  checkpoint : CheckpointManager

structure Session where
  coll : Collection
  draws : Nat

instance : Counting Session := ⟨Session.draws, fun s => { s with draws := s.draws + 1 }⟩

/-- Operations on an open collection. -/
abbrev CollM (α : Type) : Type := Io Session α

/-- The collection. -/
def self : CollM Collection := Prog.asks Session.coll

/-- Assign to fields of the collection. -/
def update (f : Collection → Collection) : CollM Unit :=
  Prog.modify fun s => { s with coll := f s.coll }

namespace Collection

def count (c : Collection) : Nat := c.index.len

variable [Env]

/-- `operations::get`, on disk `d`. -/
def get (c : Collection) (d : Disk) (id : Uuid) : Except Fault (Option Document) :=
  match c.index.lookup id with
  | none => .ok none
  | some pointer => some <$> c.recordStore.readDocument d pointer

/-- `get_all`. -/
def getAll (c : Collection) (d : Disk) (order : HashOrder Uuid) : Except Fault (List Document) := do
  let entries ← (order.enum c.index.keys).mapM (c.get d)
  pure (entries.filterMap id)

/-- `metadata.update_vector_count(index.len())`. -/
def updateVectorCount : CollM Unit := do
  let chance ← draw
  update fun c => { c with metadata := c.metadata.updateVectorCount c.index.len chance.now }

/-! ## Cache maintenance -/

/-- One id of `cache_maintenance::rebuild`. -/
def cacheDocument (c : Collection) (d : Disk) (cache : CacheManager) (id : Uuid) :
    Except Fault CacheManager := do
  match ← c.get d id with
  | none => pure cache
  | some entry =>
    let vector ← entry.tryGetVector
    pure ((cache.putVector id vector).putMetadata id entry.metadata)

/-- `cache_maintenance::rebuild`. -/
def rebuildVectorCache : CollM Unit := do
  let chance ← draw
  let c ← self
  let d ← Prog.device
  let cache ← Prog.ofExcept
    ((chance.order.enum c.index.keys).foldlM (c.cacheDocument d) (.new c.config.cache))
  update fun c => { c with cache }

/-- `cache_maintenance::ensure_consistent`. -/
def ensureConsistent : CollM Unit := do
  let c ← self
  if c.cache.vectors.len ≠ c.index.len then rebuildVectorCache
  else do
    let chance ← draw
    let missing := (chance.order.enum c.index.keys).find? (· ∉ c.cache.vectors)
    Prog.when missing.isSome rebuildVectorCache

/-! ## The vector index -/

/-- `vector_index.insert(id, vector, &cache)`. -/
def indexVector (id : Uuid) (vector : Vector32) : CollM Unit := do
  let chance ← draw
  let c ← self
  let vectorIndex ← Prog.ofExcept
    (c.vectorIndex.insert id vector (c.cache.reader chance.order) chance.random)
  update fun c => { c with vectorIndex }

/-- The vectors of the documents the offset index points to. -/
def collectVectors (store : RecordStore) (d : Disk) (entries : List (Uuid × EntryPointer)) :
    Except Fault (HashMap Uuid Vector32) :=
  entries.foldlM (fun vectors entry => do
    let doc ← store.readDocument d entry.2
    let vector ← doc.tryGetVector
    pure (vectors.insert entry.1 vector)) ∅

/-- Insert vectors into an index one by one, with all of them as the reader. -/
def insertAll {σ : Type} [Counting σ] (vectors : HashMap Uuid Vector32) :
    List (Uuid × Vector32) → VectorIndex → Io σ VectorIndex
  | [], vectorIndex => pure vectorIndex
  | (id, vector) :: entries, vectorIndex => do
    let chance ← draw
    let vectorIndex ← Prog.ofExcept
      (vectorIndex.insert id vector ⟨vectors, chance.order⟩ chance.random)
    insertAll vectors entries vectorIndex

/-- Fill `vectorIndex` from the stored documents: `rebuild_vector_index` of the
builder, and the body of `rebuild_index`. -/
def rebuildVectorIndex {σ : Type} [Counting σ] (vectorIndex : VectorIndex) (index : OffsetIndex)
    (store : RecordStore) : Io σ VectorIndex := do
  let chance ← draw
  let d ← Prog.device
  let vectors ← Prog.ofExcept (collectVectors store d (chance.order.entries index))
  let chance ← draw
  insertAll vectors (chance.order.entries vectors) vectorIndex

/-- `rebuild_index`. -/
def rebuildIndex : CollM Unit := do
  let c ← self
  let newIndex ← rebuildVectorIndex (c.config.index.createIndex c.index.len) c.index c.recordStore
  update fun c => { c with vectorIndex := newIndex }
  rebuildVectorCache
  saveVectorIndex newIndex

end Collection
