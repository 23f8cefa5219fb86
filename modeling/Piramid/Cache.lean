-- SUMMARY: The cache of a collection: every vector, and the metadata of the most recent documents.
import Piramid.Config
import Piramid.Index.Reader

/-- `cache::CacheManager`. -/
structure CacheManager where
  config : CacheConfig
  vectors : HashMap Uuid Vector32
  metadata : HashMap Uuid Metadata
  metadataOrder : List Uuid

namespace CacheManager

def new (config : CacheConfig) : CacheManager where
  config := config
  vectors := ∅
  metadata := ∅
  metadataOrder := []

def putVector (cache : CacheManager) (id : Uuid) (vector : Vector32) : CacheManager :=
  { cache with vectors := cache.vectors.insert id vector }

/-- Drop the oldest entries while there are more than `maxSize`. -/
def evict (maxSize : Nat) : List Uuid → HashMap Uuid Metadata → List Uuid × HashMap Uuid Metadata
  | [], metadata => ([], metadata)
  | id :: ids, metadata =>
    if metadata.len > maxSize then evict maxSize ids (metadata.erase id)
    else (id :: ids, metadata)

def enforceItemLimit (cache : CacheManager) : CacheManager :=
  if cache.config.maxSize = 0 then { cache with metadata := ∅, metadataOrder := [] }
  else
    let (metadataOrder, metadata) := evict cache.config.maxSize cache.metadataOrder cache.metadata
    { cache with metadata, metadataOrder }

def putMetadata (cache : CacheManager) (id : Uuid) (metadata : Metadata) : CacheManager :=
  if !cache.config.enabled then cache
  else enforceItemLimit { cache with
    metadataOrder := cache.metadataOrder.filter (· ≠ id) ++ [id]
    metadata := cache.metadata.insert id metadata }

def remove (cache : CacheManager) (id : Uuid) (removeVector : Bool) : CacheManager :=
  { cache with
    vectors := if removeVector then cache.vectors.erase id else cache.vectors
    metadata := cache.metadata.erase id
    metadataOrder := cache.metadataOrder.filter (· ≠ id) }

/-- `clear_metadata`, but for the number of bytes it frees. -/
def clearMetadata (cache : CacheManager) : CacheManager :=
  { cache with metadata := ∅, metadataOrder := [] }

def clearAll (cache : CacheManager) : CacheManager :=
  { cache with vectors := ∅, metadata := ∅, metadataOrder := [] }

/-- The cache as the `VectorReader` of an index. -/
def reader (cache : CacheManager) (order : HashOrder Uuid) : VectorReader := ⟨cache.vectors, order⟩

@[simp] theorem vectors_putVector (cache : CacheManager) (id : Uuid) (vector : Vector32) :
    (cache.putVector id vector).vectors = cache.vectors.insert id vector := rfl

@[simp] theorem vectors_putMetadata (cache : CacheManager) (id : Uuid) (metadata : Metadata) :
    (cache.putMetadata id metadata).vectors = cache.vectors := by
  rw [putMetadata]
  split
  · rfl
  · rw [enforceItemLimit]
    split <;> rfl

@[simp] theorem vectors_remove (cache : CacheManager) (id : Uuid) (removeVector : Bool) :
    (cache.remove id removeVector).vectors =
      if removeVector then cache.vectors.erase id else cache.vectors := rfl

end CacheManager
