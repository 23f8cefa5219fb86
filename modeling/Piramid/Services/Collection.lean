-- SUMMARY: The services on collections: creating, deleting, compacting, and rebuilding in the background.
import Piramid.Base.Relational
import Piramid.Services.Vector

/-!
# The collection services

A rebuild is handed to the background with the handle of its collection, and its status is kept
under the name. Deleting a collection takes it out of the map and removes its files one by one; it
looks at no rebuild.
-/

def RebuildState.display : RebuildState → String
  | .running => "running"
  | .completed => "completed"
  | .failed => "failed"

/-- What the displayed error of a job is; a panic leaves no status. -/
def Fault.display? : Fault → Option String
  | .error e => some e.display
  | .panic _ | .diverge => none

namespace AppState

/-- `rebuild_jobs.insert`, and the job that `spawn_blocking` is given. -/
def startRebuild (st : AppState) (collection : String) (handle : CollectionHandle) (now : Nat) : AppState :=
  { st with
    rebuildJobs := st.rebuildJobs.insert collection ⟨.running, now, none, none⟩
    tasks := st.tasks ++ [⟨collection, handle, now⟩] }

def finishRebuild (st : AppState) (task : RebuildTask) (status : RebuildState) (now : Nat)
    (error : Option String) : AppState :=
  { st with rebuildJobs := st.rebuildJobs.insert task.collection ⟨status, task.startedAt, some now, error⟩ }

end AppState

namespace Service

/-- `collection_info`. -/
def collectionInfo (name : String) (c : Collection) : CollectionInfo where
  name := name
  count := c.count
  createdAt := some c.metadata.createdAt
  updatedAt := some c.metadata.updatedAt
  dimensions := c.metadata.dimensions

def rebuildStatus (job : RebuildJobStatus) : RebuildIndexStatusResponse where
  status := job.status.display
  startedAt := some job.startedAt
  finishedAt := job.finishedAt
  error := job.error

/-- The files that `delete_collection` removes, in its order. -/
def deletedFiles : List CollFile := [.data, .index, .metadata, .vecindex, .wal, .walMeta]

/-- The loop of `list_collections`. -/
def collectionInfos : List (String × CollectionHandle) → ServiceM (List CollectionInfo)
  | [] => pure []
  | (name, handle) :: entries => do
    let info ← underRead name handle fun c _ => .ok (collectionInfo name c)
    let infos ← collectionInfos entries
    pure (info :: infos)

variable [Env] [UnicodeTables] (config : ServerConfig) (w : Surroundings) (collection : String)

/-- `list_collections`. -/
def listCollections : ServiceM Response := do
  ensureAvailable
  let st ← state
  let infos ← collectionInfos (w.names.entries st.collections)
  pure (.collections infos)

/-- `create_collection`. It asks neither for free space nor for the read-only mode. -/
def createCollection : ServiceM Response := do
  ensureAvailable
  Prog.ofExcept (validateCollectionName collection)
  let handle ← getOrCreateCollection config collection
  let info ← underRead collection handle fun c _ => .ok (collectionInfo collection c)
  pure (.collection info)

/-- `get_collection`. -/
def getCollection : ServiceM Response := do
  ensureAvailable
  let handle ← getExistingCollection config collection
  let info ← underRead collection handle fun c _ => .ok (collectionInfo collection c)
  pure (.collection info)

/-- `collection_count`. -/
def collectionCount : ServiceM Response := do
  ensureAvailable
  let handle ← getExistingCollection config collection
  let n ← underRead collection handle fun c _ => .ok c.count
  pure (.count n)

/-- `delete_collection`. Only a collection that is loaded is deleted. -/
def deleteCollection : ServiceM Response := do
  ensureAvailable
  let st ← state
  let existed := (st.collections.lookup collection).isSome
  modify (·.unregister collection)
  Prog.when (existed = true) (deletedFiles.forM fun f => Prog.emit (collection, .remove f))
  pure (.deleted existed)

/-- `compact_collection`. -/
def compactCollection : ServiceM Response := do
  ensureAvailable
  let handle ← getExistingCollection config collection
  let _ ← underWrite collection handle Collection.compact
  pure (.rebuilt true)

/-- `rebuild_index`. -/
def rebuildIndex : ServiceM Response := do
  ensureAvailable
  let handle ← getExistingCollection config collection
  modify (·.startRebuild collection handle w.now)
  pure (.rebuilt true)

/-- `rebuild_index_status`. -/
def rebuildIndexStatus : ServiceM Response := do
  ensureAvailable
  let st ← state
  match st.rebuildJobs.lookup collection with
  | none => Prog.fault (.notFound "No rebuild job found for this collection")
  | some job => pure (.rebuildStatus (rebuildStatus job))

/-- The job that `rebuild_index` hands to `spawn_blocking`. -/
def runTask (task : RebuildTask) : ServiceM Unit := do
  match ← Prog.attempt (underWrite task.collection task.handle Collection.rebuildIndex) with
  | .ok () => modify (·.finishRebuild task .completed w.now none)
  | .error e =>
    match e.display? with
    | some message => modify (·.finishRebuild task .failed w.now (some message))
    | none => Prog.fault e

end Service
