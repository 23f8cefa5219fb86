-- SUMMARY: The operations on documents: limits, inserts, deletes, updates.
import Piramid.Collections.Checkpoint

/-!
# Operations

Each operation is the sequence of steps of the source, in its order: what is
logged, checked, stored and indexed first decides what a failure or a crash in
between leaves behind.
-/

namespace Collection

/-! ## Limits -/

/-- The check of `max_vectors`, for `added` more documents. -/
def checkVectors (limits : LimitsConfig) (exceeded : Nat → Bool) : Except Fault Unit :=
  match limits.maxVectors with
  | some maxVecs =>
    if exceeded maxVecs then .error (.invalidRequest "Collection max vectors reached") else .ok ()
  | none => .ok ()

def checkBytes (limits : LimitsConfig) (required : Nat) : Except Fault Unit :=
  match limits.maxBytes with
  | some maxBytes =>
    if required > maxBytes then .error (.invalidRequest "Collection max size reached") else .ok ()
  | none => .ok ()

def checkEntryBytes (limits : LimitsConfig) (entryBytes : Nat) : Except Fault Unit :=
  match limits.maxVectorBytes with
  | some maxVecBytes =>
    if entryBytes > maxVecBytes then .error (.invalidRequest "Vector exceeds max allowed size")
    else .ok ()
  | none => .ok ()

/-- `limits::enforce_single`. -/
def enforceSingle (c : Collection) (entryBytes : Nat) : Except Fault Unit := do
  checkVectors c.config.limits fun maxVecs => decide (c.count ≥ maxVecs)
  checkBytes c.config.limits (c.recordStore.usedBytes + entryBytes)
  checkEntryBytes c.config.limits entryBytes

/-- `limits::enforce_batch`. -/
def enforceBatch (c : Collection) (totalEntries totalBytes : Nat) (maxEntryBytes : Option Nat) :
    Except Fault Unit := do
  checkVectors c.config.limits fun maxVecs => decide (c.count + totalEntries > maxVecs)
  checkBytes c.config.limits (c.recordStore.usedBytes + totalBytes)
  match maxEntryBytes with
  | some maxVecBytes =>
    if maxVecBytes > 0 then checkEntryBytes c.config.limits maxVecBytes else .ok ()
  | none => .ok ()

/-! ## Writing -/

variable [Env]

/-- `checkpoint.wal.log(&mut entry)`. -/
def logEntry (entry : WalEntry) : CollM Unit := do
  let c ← self
  let wal ← c.checkpoint.wal.log entry
  update fun c => { c with checkpoint := { c.checkpoint with wal } }

/-- `record_store.append(&bytes)`. -/
def appendRecord (bytes : Bytes) : CollM EntryPointer := do
  let c ← self
  let (pointer, recordStore) ← c.recordStore.append bytes
  update fun c => { c with recordStore }
  pure pointer

/-- `metadata.set_dimensions(n)`. -/
def setDimensions (n : Nat) : CollM Unit :=
  update fun c => { c with metadata := c.metadata.setDimensions n }

/-- `if let Some(expected_dim) = metadata.dimensions { validate_dimensions(..)? }`. -/
def checkDimensions (vector : Vector32) : CollM Unit := do
  let c ← self
  match c.metadata.dimensions with
  | some expectedDim => Prog.ofExcept (validateDimensions vector expectedDim)
  | none => pure ()

/-- The same with `else { metadata.set_dimensions(n) }`, as `update_vector` has it. -/
def checkOrSetDimensions (vector : Vector32) : CollM Unit := do
  let c ← self
  match c.metadata.dimensions with
  | some expectedDim => Prog.ofExcept (validateDimensions vector expectedDim)
  | none => setDimensions vector.length

def insertInternal (entry : Document) : CollM Uuid := do
  let rawVec := entry.getVector
  let bytes := RecordStore.encodeDocument entry
  let c ← self
  Prog.ofExcept (c.enforceSingle bytes.length)
  let indexEntry ← appendRecord bytes
  update fun c => { c with index := c.index.insert entry.id indexEntry }
  setDimensions rawVec.length
  checkDimensions rawVec
  update fun c => { c with
    cache := (c.cache.putVector entry.id rawVec).putMetadata entry.id entry.metadata }
  indexVector entry.id rawVec
  updateVectorCount
  pure entry.id

def deleteInternal (id : Uuid) : CollM Unit := do
  let chance ← draw
  update fun c =>
    let vectorIndex := c.vectorIndex.remove id chance.order
    { c with
      index := c.index.erase id
      vectorIndex
      -- the graph may still route through the vectors of its tombstones
      cache := c.cache.remove id (vectorIndex.indexType ≠ .hnsw) }
  updateVectorCount

def insert (entry : Document) : CollM Uuid := do
  logEntry (.insert entry 0)
  let id ← insertInternal entry
  trackOperation
  pure id

/-- Install the pointers of a batch in the offset index. -/
def installPointers (index : OffsetIndex) (entries : List (Uuid × EntryPointer)) : OffsetIndex :=
  entries.foldl (fun index entry => index.insert entry.1 entry.2) index

/-- The last loop of `insert_batch`, for one document. -/
def indexBatched (entry : Document) : CollM PUnit := do
  setDimensions entry.vector.length
  checkDimensions entry.vector
  update fun c => { c with
    cache := (c.cache.putMetadata entry.id entry.metadata).putVector entry.id entry.vector }
  indexVector entry.id entry.vector

def insertBatch (entries : List Document) : CollM (List Uuid) := do
  entries.forM fun entry => logEntry (.insert entry 0)
  let serialized := entries.map fun entry => (entry.id, RecordStore.encodeDocument entry)
  let sizes := serialized.map fun entry => entry.2.length
  let c ← self
  Prog.ofExcept (c.enforceBatch serialized.length sizes.sum sizes.max?)
  let (pointers, recordStore) ← c.recordStore.appendBatch serialized
  update fun c => { c with
    recordStore
    index := installPointers c.index ((serialized.map Prod.fst).zip pointers) }
  trackOperation
  entries.forM indexBatched
  updateVectorCount
  pure (entries.map Document.id)

def upsert (entry : Document) : CollM Uuid := do
  let bytes := RecordStore.encodeDocument entry
  let c ← self
  Prog.ofExcept (c.enforceSingle bytes.length)
  if entry.id ∈ c.index then do
    logEntry (.update entry 0)
    deleteInternal entry.id
    let id ← insertInternal entry
    trackOperation
    pure id
  else insert entry

def delete (id : Uuid) : CollM Bool := do
  let c ← self
  if id ∈ c.index then do
    logEntry (.delete id 0)
    deleteInternal id
    trackOperation
    pure true
  else pure false

/-- The first loop of `delete_batch`. -/
def logDelete (id : Uuid) : CollM PUnit := do
  let c ← self
  Prog.when (id ∈ c.index) (logEntry (.delete id 0))

/-- The second loop of `delete_batch`, which counts what it deletes. -/
def deleteEach : List Uuid → Nat → CollM Nat
  | [], deletedCount => pure deletedCount
  | id :: ids, deletedCount => do
    let c ← self
    if id ∈ c.index then do
      deleteInternal id
      deleteEach ids (deletedCount + 1)
    else deleteEach ids deletedCount

def deleteBatch (ids : List Uuid) : CollM Nat := do
  ids.forM logDelete
  let deletedCount ← deleteEach ids 0
  Prog.when (deletedCount > 0) trackOperation
  pure deletedCount

/-- `get(storage, id)?`. -/
def fetch (id : Uuid) : CollM (Option Document) := do
  let c ← self
  let d ← Prog.device
  Prog.ofExcept (c.get d id)

def updateMetadata (id : Uuid) (metadata : Metadata) : CollM Bool := do
  match ← fetch id with
  | none => pure false
  | some entry =>
    let entry := { entry with metadata }
    logEntry (.update { entry with id } 0)
    let bytes := RecordStore.encodeDocument entry
    let c ← self
    Prog.ofExcept (c.enforceSingle bytes.length)
    let indexEntry ← appendRecord bytes
    update fun c => { c with
      index := c.index.insert id indexEntry
      cache := c.cache.putMetadata id metadata }
    updateVectorCount
    trackOperation
    pure true

def updateVector (id : Uuid) (vector : Vector32) : CollM Bool := do
  match ← fetch id with
  | none => pure false
  | some entry =>
    let entry := { entry with vector }
    logEntry (.update { entry with id } 0)
    checkOrSetDimensions vector
    let bytes := RecordStore.encodeDocument entry
    let c ← self
    Prog.ofExcept (c.enforceSingle bytes.length)
    let indexEntry ← appendRecord bytes
    let chance ← draw
    update fun c => { c with
      index := c.index.insert id indexEntry
      cache := (c.cache.putVector id vector).putMetadata id entry.metadata
      vectorIndex := c.vectorIndex.remove id chance.order }
    indexVector id vector
    updateVectorCount
    trackOperation
    pure true

end Collection
