-- SUMMARY: Opening a collection: loading the files, replaying the log, recovering what is missing.
import Piramid.Collections.Operations

namespace CollectionBuilder

open Collection

/-- The part of a file name before its last dot. -/
def stem (name : List Char) : List Char :=
  match name.reverse.dropWhile (· ≠ '.') with
  | [] | [_] => name
  | _ :: before => before.reverse

/-- `Path::new(path).file_stem()`, or `unknown`. -/
def collectionName (path : String) : String :=
  let components := (path.toList.splitOn '/').filter fun part => part ≠ [] ∧ part ≠ ['.']
  match components.getLast? with
  | none | some ['.', '.'] => "unknown"
  | some name => String.ofList (stem name)

variable [Env]

/-- One entry of `replay_wal`. -/
def replayEntry (entry : WalEntry) : CollM PUnit :=
  match entry with
  | .insert doc _ => do
    let _ ← insertInternal doc
    pure ⟨⟩
  | .update doc _ => do
    deleteInternal doc.id
    let _ ← insertInternal doc
    pure ⟨⟩
  | .delete id _ => deleteInternal id
  | .checkpoint _ _ => pure ⟨⟩

def replayWal (entries : List WalEntry) : CollM PUnit := entries.forM replayEntry

/-- The replay branch of `open`. -/
def recover (entries : List WalEntry) : CollM Unit := do
  replayWal entries
  rebuildVectorCache
  checkpointNow

/-- Run an operation on a collection that is still being opened. -/
def onCollection (c : Collection) (p : CollM Unit) : Io Nat Collection := do
  let (_, s) ← Prog.embed (fun draws => ⟨c, draws⟩) Session.draws p
  pure s.coll

/-- The number of the last entry that needs no replay. -/
def loadMinSeq (config : CollectionConfig) : Io Nat Nat :=
  if config.wal.enabled then Wal.loadWalMeta else pure 0

def openWal (config : CollectionConfig) (nextSeq : Nat) : Io Nat Wal :=
  if config.wal.enabled then Wal.new nextSeq else pure (Wal.disabled nextSeq)

def loadWalEntries (config : CollectionConfig) (wal : Wal) (minSeq : Nat) :
    Io Nat (List WalEntry) :=
  if config.wal.enabled then wal.replay minSeq else pure []

/-- The metadata to open with: what was saved, or that of a new collection. -/
def initialMetadata (path : String) (loaded : Option CollectionMetadata) (count now : Nat) :
    CollectionMetadata :=
  match loaded with
  | some metadata => metadata.updateVectorCount count now
  | none => .new (collectionName path) now

/-- The collection as it is loaded, before anything is replayed, and whether the
vector index was there. -/
def loadCollection (path : String) (config : CollectionConfig) :
    Io Nat (Collection × Bool × List WalEntry) := do
  let index ← loadIndex path
  let recordStore ← RecordStore.openFile .data config index
  let chance ← draw
  let loadedMetadata ← loadMetadata
  let loadedVectorIndex ← loadVectorIndex
  let minSeq ← loadMinSeq config
  let wal ← openWal config (minSeq + 1)
  let walEntries ← loadWalEntries config wal minSeq
  let c : Collection := {
    recordStore, index
    vectorIndex := loadedVectorIndex.getD (config.index.createIndex index.len)
    cache := .new config.cache
    config
    metadata := initialMetadata path loadedMetadata index.len chance.now
    path
    checkpoint := .new wal }
  pure (c, loadedVectorIndex.isNone, walEntries)

/-- Without a log to replay, a vector index that is missing is rebuilt. -/
def restoreVectorIndex (c : Collection) (vectorIndexMissing : Bool) : Io Nat VectorIndex :=
  if c.index.len ≠ 0 ∧ vectorIndexMissing then
    rebuildVectorIndex c.vectorIndex c.index c.recordStore
  else pure c.vectorIndex

/-- `CollectionBuilder::open`. -/
def openCollection (path : String) (config : CollectionConfig) : Io Nat Collection := do
  let (c, vectorIndexMissing, walEntries) ← loadCollection path config
  if !walEntries.isEmpty then onCollection c (recover walEntries)
  else do
    let vectorIndex ← restoreVectorIndex c vectorIndexMissing
    onCollection { c with vectorIndex } rebuildVectorCache

end CollectionBuilder
