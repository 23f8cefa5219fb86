-- SUMMARY: Compaction: copying the live documents to a new data file and replacing the old one.
import Piramid.Collections.Checkpoint

namespace Collection

/-- `compact::CompactStats`. -/
structure CompactStats where
  originalEntries : Nat
  compactedEntries : Nat

/-- What `compact` builds while it copies. -/
structure Compaction where
  tempStore : RecordStore
  newIndex : OffsetIndex
  newVectors : HashMap Uuid Vector32
  newVectorIndex : VectorIndex
  newMetadata : CollectionMetadata

variable [Env]

def copyDocument (st : Compaction) (doc : Document) : CollM Compaction := do
  let vector := doc.getVector
  let (pointer, tempStore) ← st.tempStore.append (RecordStore.encodeDocument doc)
  let newVectors := st.newVectors.insert doc.id vector
  let chance ← draw
  let newVectorIndex ← Prog.ofExcept
    (st.newVectorIndex.insert doc.id vector ⟨newVectors, chance.order⟩ chance.random)
  pure {
    tempStore
    newIndex := st.newIndex.insert doc.id pointer
    newVectors
    newVectorIndex
    newMetadata := st.newMetadata.setDimensions vector.length }

def copyDocuments : List Document → Compaction → CollM Compaction
  | [], st => pure st
  | doc :: docs, st => do
    let st ← copyDocument st doc
    copyDocuments docs st

/-- `compact`, up to the replacement of the data file. -/
def writeCompacted : CollM (CollectionMetadata × Compaction) := do
  let chance ← draw
  let c ← self
  let d ← Prog.device
  let docs ← Prog.ofExcept (c.getAll d chance.order)
  Prog.when (d .compactTmp).isSome (Prog.emit (.remove .compactTmp))
  let tempStore ← RecordStore.openFile .compactTmp c.config ∅
  let st ← copyDocuments docs {
    tempStore
    newIndex := ∅
    newVectors := ∅
    newVectorIndex := c.config.index.createIndex docs.length
    newMetadata := c.metadata.updateVectorCount 0 chance.now }
  let chance ← draw
  st.tempStore.sync
  pure (st.newMetadata.updateVectorCount st.newIndex.len chance.now, st)

/-- `compact`, once the data file is replaced. -/
def adoptCompacted (newMetadata : CollectionMetadata) (st : Compaction) : CollM Unit := do
  let c ← self
  let recordStore ← RecordStore.openFile .data c.config st.newIndex
  update fun c => { c with
    recordStore
    index := st.newIndex
    vectorIndex := st.newVectorIndex
    metadata := newMetadata
    cache := c.cache.clearAll }
  rebuildVectorCache
  saveIndex st.newIndex
  saveVectorIndex st.newVectorIndex
  saveMetadata newMetadata
  c.checkpoint.wal.rotate

def compact : CollM CompactStats := do
  let c ← self
  let (newMetadata, st) ← writeCompacted
  Prog.emit (.rename .compactTmp .data)
  adoptCompacted newMetadata st
  pure ⟨c.index.len, st.newIndex.len⟩

end Collection
