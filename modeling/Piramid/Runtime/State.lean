-- SUMMARY: The state that all requests share: the loaded collections behind their handles, the flags of the server, the rebuilds.
import Piramid.Base.Family
import Piramid.Collections.Call
import Piramid.Collections.Manager
import Piramid.Embeddings.Types
import Piramid.Server.Names

/-!
# The shared state

One request is served at a time, and rebuilds in the background run between two requests. The
files of each collection are one disk of a family. A collection lives as long as something holds
its handle, also after it has left the map of loaded collections.
-/

inductive RebuildState where
  | running | completed | failed
deriving DecidableEq

/-- `RebuildJobStatus`, without the time that the job took. -/
structure RebuildJobStatus where
  status : RebuildState
  startedAt : Nat
  finishedAt : Option Nat
  error : Option String

/-- A job that `spawn_blocking` was given, which has not ended. -/
structure RebuildTask where
  collection : String
  handle : CollectionHandle
  startedAt : Nat

/-- `runtime::AppState`, with its collection manager, the collections behind the handles and the
jobs in the background. -/
structure AppState where
  collections : HashMap String CollectionHandle
  heap : HashMap CollectionHandle Collection
  nextHandle : CollectionHandle
  draws : Nat
  shuttingDown : Bool
  readOnly : Bool
  rebuildJobs : HashMap String RebuildJobStatus
  tasks : List RebuildTask

/-- The configuration that the server was started with. -/
structure ServerConfig where
  dataDir : String
  /-- `app_config.to_collection_config()`. -/
  collection : CollectionConfig
  diskMinFreeBytes : Option Nat
  diskReadonlyOnLowSpace : Bool

/-- What a request finds around it. -/
structure Surroundings where
  /-- `disk_free_bytes`: what `statvfs` says. -/
  diskFreeBytes : Except Fault (Option Nat)
  /-- What the calls of `Uuid::new_v4` give, in order. -/
  newV4 : Nat → Uuid
  /-- In seconds. -/
  now : Nat
  /-- The order of the map of loaded collections. -/
  names : HashOrder String
  /-- The order of the offset index of a collection. -/
  ids : HashOrder Uuid
  /-- The order of a metadata object. -/
  fields : HashOrder String
  /-- What the calls of `embedder.embed` give, in order, if there is an embedder. -/
  embedder : Option (Nat → String → Except PiramidError EmbeddingResponse)

/-- `helpers::VECTOR_NOT_FOUND`. -/
def VECTOR_NOT_FOUND : String := "Vector not found"

/-- `helpers::EMBEDDING_NOT_CONFIGURED`. -/
def EMBEDDING_NOT_CONFIGURED : String := "Embedding service not configured"

/-- `ServerError::NotFound(msg).into()`. -/
def Fault.notFound (msg : String) : Fault := .error (.server (.notFound msg))

def Fault.shuttingDown : Fault := .serviceUnavailable "Server is shutting down"

/-- What a service does: to the shared state, and to the files of the collections. -/
abbrev ServiceM (α : Type) : Type := Prog (Family String Disk) (String × Effect) Fault AppState α

namespace AppState

/-- `AppState::new`, after `draws` draws of the processes before. -/
def new (draws : Nat) : AppState := ⟨∅, ∅, 0, draws, false, false, ∅, []⟩

/-- `self.collections.insert(name, handle)`, of a collection that was just opened. -/
def register (st : AppState) (name : String) (c : Collection) : AppState :=
  { st with
    collections := st.collections.insert name st.nextHandle
    heap := st.heap.insert st.nextHandle c
    nextHandle := st.nextHandle + 1 }

/-- `collection_manager.remove(name)`. The collection stays with those who hold it. -/
def unregister (st : AppState) (name : String) : AppState :=
  { st with collections := st.collections.erase name }

end AppState

namespace Service

def state : ServiceM AppState := Prog.asks id

def modify (f : AppState → AppState) : ServiceM Unit := Prog.modify f

/-- `ensure_available`. -/
def ensureAvailable : ServiceM Unit := do
  let st ← state
  if st.shuttingDown then Prog.fault .shuttingDown else pure ()

/-- `ensure_write_allowed`. -/
def ensureWriteAllowed (config : ServerConfig) (w : Surroundings) : ServiceM Unit := do
  let st ← state
  if st.shuttingDown then Prog.fault .shuttingDown
  else if st.readOnly then
    Prog.fault (.serviceUnavailable "Server is in read-only mode due to low disk space")
  else
    match config.diskMinFreeBytes with
    | none => pure ()
    | some minFree =>
      match ← Prog.ofExcept w.diskFreeBytes with
      | none => pure ()
      | some free =>
        if free < minFree ∧ config.diskReadonlyOnLowSpace = true then do
          modify fun st => { st with readOnly := true }
          Prog.fault (.serviceUnavailable "Low disk space; write operations disabled")
        else pure ()

/-- `enforce_cache_budget`, called by a request that holds the lock of its collection. With a budget
in force it asks for the locks of all loaded collections, and waits for that one. -/
def enforceCacheBudget (config : ServerConfig) : ServiceM Unit :=
  if config.collection.cache.enabled = true ∧ config.collection.cache.maxBytes.isSome then
    Prog.fault .diverge
  else pure ()

/-! ## The collection manager -/

section

variable [Env]

def openAndRegister (config : ServerConfig) (name : String) : ServiceM CollectionHandle := do
  let collection ← Prog.focus name AppState.draws (fun draws st => { st with draws })
    (CollectionBuilder.openCollection (collectionPath config.dataDir name) config.collection)
  let st ← state
  modify fun st => st.register name collection
  pure st.nextHandle

/-- `collection_manager.get_existing`. -/
def findExisting (config : ServerConfig) (name : String) : ServiceM CollectionHandle := do
  let st ← state
  match st.collections.lookup name with
  | some h => pure h
  | none => do
    let disks ← Prog.device
    if (disks name .data).isSome then openAndRegister config name
    else Prog.fault (.notFound "Collection not found")

/-- `get_existing_collection`. -/
def getExistingCollection (config : ServerConfig) (name : String) : ServiceM CollectionHandle := do
  ensureAvailable
  findExisting config name

/-- `get_or_create_collection`. -/
def getOrCreateCollection (config : ServerConfig) (name : String) : ServiceM CollectionHandle := do
  ensureAvailable
  let st ← state
  match st.collections.lookup name with
  | some h => pure h
  | none => openAndRegister config name

end

/-- The collection behind a handle, which is there as long as the handle is held. -/
def behind (h : CollectionHandle) : ServiceM Collection := do
  let st ← state
  match st.heap.lookup h with
  | some c => pure c
  | none => Prog.fault (.panic "no collection behind the handle")

/-- An operation under the write lock of a collection. -/
def underWrite {α : Type} (name : String) (h : CollectionHandle) (op : CollM α) : ServiceM α := do
  let c ← behind h
  Prog.focus name (fun st : AppState => ⟨c, st.draws⟩)
    (fun s st => { st with heap := st.heap.insert h s.coll, draws := s.draws }) op

/-- What can be read under the read lock of a collection. -/
def underRead {α : Type} (name : String) (h : CollectionHandle) (read : Collection → Disk → Except Fault α) :
    ServiceM α := do
  let c ← behind h
  let disks ← Prog.device
  Prog.ofExcept (read c (disks name))

end Service
