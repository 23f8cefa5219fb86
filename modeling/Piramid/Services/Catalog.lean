-- SUMMARY: What the services are for: a catalog of tables, and the answers it gives.
import Piramid.Base.Invariant
import Piramid.Collections.Ledger
import Piramid.Services.Collection
import Piramid.Services.Embedding

/-!
# The catalog

A table of documents for each collection that exists. The requests are answered from the tables
alone, by programs that create, update and drop tables: there are no files, handles, indexes or
caches. A crash leaves some of the updates that a request makes.
-/

/-- The tables of the collections that exist. -/
abbrev Tables : Type := HashMap String Table

inductive CatalogEffect where
  | create (name : String)
  | update (name : String) (u : DocUpdate)
  | drop (name : String)

namespace Tables

/-- The table of a collection, empty if there is none. -/
def table (ts : Tables) (name : String) : Table := (ts.lookup name).getD ∅

def apply (ts : Tables) : CatalogEffect → Tables
  | .create name => ts.insert name ∅
  | .update name u => ts.insert name ((ts.table name).update u)
  | .drop name => ts.erase name

end Tables

instance : Device Tables CatalogEffect := ⟨fun e ts => ts.apply e⟩

/-- What is kept of a process besides the tables: which collections it has loaded, its flags, and
the rebuilds. -/
structure CatalogState where
  loaded : Finset String
  shuttingDown : Bool
  readOnly : Bool
  rebuildJobs : HashMap String RebuildJobStatus
  /-- The collections that are being rebuilt, and since when. -/
  tasks : List (String × Nat)

abbrev CatalogM (α : Type) : Type := Prog Tables CatalogEffect Fault CatalogState α

/-- What a response says, but for what is only told about a collection: its timestamps and
its dimensions. -/
def CollectionInfo.summary (info : CollectionInfo) : CollectionInfo :=
  { info with createdAt := none, updatedAt := none, dimensions := none }

def Response.summary : Response → Response
  | .collections infos => .collections (infos.map CollectionInfo.summary)
  | .collection info => .collection info.summary
  | response => response

namespace Catalog

/-- A process that has just started. -/
def start : CatalogState := ⟨∅, false, false, ∅, []⟩

def ensureAvailable : CatalogM Unit := do
  let shuttingDown ← Prog.asks CatalogState.shuttingDown
  if shuttingDown then Prog.fault .shuttingDown else pure ()

def ensureWriteAllowed (config : ServerConfig) (w : Surroundings) : CatalogM Unit := do
  let st ← Prog.asks id
  if st.shuttingDown then Prog.fault .shuttingDown
  else if st.readOnly then
    Prog.fault (.serviceUnavailable "Server is in read-only mode due to low disk space")
  else
    match config.diskMinFreeBytes with
    | none => pure ()
    | some minFree =>
      match ← Prog.ofExcept w.diskFreeBytes with
      | none => pure ()
      | some free =>
        if free < minFree ∧ config.diskReadonlyOnLowSpace = true then do
          Prog.modify fun st => { st with readOnly := true }
          Prog.fault (.serviceUnavailable "Low disk space; write operations disabled")
        else pure ()

def load (name : String) : CatalogM Unit := Prog.modify fun st => { st with loaded := insert name st.loaded }

def getExisting (name : String) : CatalogM Unit := do
  ensureAvailable
  let ts ← Prog.device
  if name ∈ ts then load name else Prog.fault (.notFound "Collection not found")

def getOrCreate (name : String) : CatalogM Unit := do
  ensureAvailable
  let ts ← Prog.device
  Prog.emitAll (if name ∈ ts then [] else [.create name])
  load name

/-- The table of a collection. -/
def table (name : String) : CatalogM Table := do
  let ts ← Prog.device
  pure (ts.table name)

def carryOut (name : String) (us : List DocUpdate) : CatalogM Unit := Prog.emitAll (us.map (.update name))

def put (doc : Document) : DocUpdate := .put doc.id doc

def info (name : String) (t : Table) : CollectionInfo := ⟨name, t.len, none, none, none⟩

/-! ## Answers -/

section

variable (config : ServerConfig) (w : Surroundings) (name : String)

def listCollections : CatalogM Response := do
  ensureAvailable
  let loaded ← Prog.asks CatalogState.loaded
  let ts ← Prog.device
  pure (.collections ((w.names.enum loaded).map fun name => info name (ts.table name)))

def createCollection [UnicodeTables] : CatalogM Response := do
  ensureAvailable
  Prog.ofExcept (validateCollectionName name)
  getOrCreate name
  let t ← table name
  pure (.collection (info name t))

def getCollection : CatalogM Response := do
  ensureAvailable
  getExisting name
  let t ← table name
  pure (.collection (info name t))

def collectionCount : CatalogM Response := do
  ensureAvailable
  getExisting name
  let t ← table name
  pure (.count t.len)

def deleteCollection : CatalogM Response := do
  ensureAvailable
  let loaded ← Prog.asks CatalogState.loaded
  Prog.modify fun st => { st with loaded := st.loaded.erase name }
  Prog.emitAll (if name ∈ loaded then [.drop name] else [])
  pure (.deleted (name ∈ loaded))

def compactCollection : CatalogM Response := do
  ensureAvailable
  getExisting name
  pure (.rebuilt true)

def rebuildIndex : CatalogM Response := do
  ensureAvailable
  getExisting name
  Prog.modify fun st => { st with
    rebuildJobs := st.rebuildJobs.insert name ⟨.running, w.now, none, none⟩
    tasks := st.tasks ++ [(name, w.now)] }
  pure (.rebuilt true)

def rebuildIndexStatus : CatalogM Response := do
  ensureAvailable
  let st ← Prog.asks id
  match st.rebuildJobs.lookup name with
  | none => Prog.fault (.notFound "No rebuild job found for this collection")
  | some job => pure (.rebuildStatus (Service.rebuildStatus job))

/-- A rebuild comes to its end, and the table is what it was. -/
def runTask (task : String × Nat) : CatalogM Unit :=
  Prog.modify fun st => { st with
    rebuildJobs := st.rebuildJobs.insert task.1 ⟨.completed, task.2, some w.now, none⟩ }

variable [Env] [UnicodeTables] [UuidText]

def insertVector (req : InsertRequest) : CatalogM Response := do
  ensureAvailable
  ensureWriteAllowed config w
  Prog.ofExcept (validateCollectionName name)
  getOrCreate name
  match req.vector, req.vectors with
  | some _, none =>
    let entry ← Prog.ofExcept (Service.buildSingleEntry w req)
    carryOut name [put entry]
    pure (.inserted entry.id.display)
  | none, some _ =>
    let entries ← Prog.ofExcept (Service.buildBatchEntries w req)
    carryOut name (entries.map put)
    pure (.insertedMulti (entries.map fun entry => entry.id.display) ((req.texts.map List.length).getD 0))
  | some _, some _ => Prog.fault (.invalidRequest "Provide either vector or vectors, not both")
  | none, none => Prog.fault (.invalidRequest "No vectors provided")

def getVector (id : String) : CatalogM Response := do
  ensureAvailable
  getExisting name
  let uuid ← Prog.ofExcept (Service.parseId id)
  let t ← table name
  match t.lookup uuid with
  | none => Prog.fault (.notFound VECTOR_NOT_FOUND)
  | some entry =>
    let vector ← Prog.ofExcept (Service.vectorResponse w entry)
    pure (.vector vector)

def listVectors (params : ListVectorsQuery) : CatalogM Response := do
  ensureAvailable
  getExisting name
  let t ← table name
  let entries := (w.ids.enum t.keys).filterMap t.lookup
  let vectors ← Prog.ofExcept
    (((entries.drop params.offset).take params.limit).mapM (Service.vectorResponse w))
  pure (.vectors vectors)

def deleteVector (id : String) : CatalogM Response := do
  ensureAvailable
  ensureWriteAllowed config w
  getExisting name
  let uuid ← Prog.ofExcept (Service.parseId id)
  let t ← table name
  carryOut name [.del uuid]
  pure (.deleted (uuid ∈ t))

def deleteVectors (ids : List String) : CatalogM Response := do
  ensureAvailable
  ensureWriteAllowed config w
  Prog.ofExcept (validateCollectionName name)
  Prog.ofExcept (validateBatchSize ids.length maxBatchSize "Delete")
  getExisting name
  let uuids ← Prog.ofExcept (Service.parseIds ids)
  let t ← table name
  carryOut name ((uuids.filter fun id => (t.lookup id).isSome).map .del)
  pure (.deletedMulti (uuids.toFinset ∩ t.keys).card)

def upsertVector (req : UpsertRequest) : CatalogM Response := do
  ensureAvailable
  ensureWriteAllowed config w
  Prog.ofExcept (validateCollectionName name)
  Prog.ofExcept (validateText req.text)
  Prog.ofExcept (validateVector req.vector)
  getOrCreate name
  let id ← Prog.ofExcept (Service.upsertId w req.id)
  let t ← table name
  carryOut name [put (Service.upsertEntry w req id)]
  pure (.upserted id.display (t.lookup id).isNone)

def embedText (req : EmbedRequest) : CatalogM Response := do
  ensureAvailable
  ensureWriteAllowed config w
  getOrCreate name
  let embed ← Prog.ofExcept (Service.embedder w)
  match req.text, req.texts with
  | some text, none =>
    let response ← Prog.ofExcept (Service.embedOne embed 0 text)
    let entry := Service.embeddedEntry w 0 response text req.metadata
    carryOut name [put entry]
    pure (.embedded entry.id.display response.embedding response.tokens)
  | none, some texts =>
    if texts = [] then Prog.fault (.invalidRequest "texts cannot be empty")
    else do
      let responses ← Prog.ofExcept (Service.embedEach embed texts)
      let entries := Service.embeddedEntries w req texts responses
      carryOut name (entries.map put)
      let total := Service.totalTokens responses
      pure (.embeddedMulti (entries.map fun entry => entry.id.display)
        (responses.map EmbeddingResponse.embedding) (if total > 0 then some total else none))
  | some _, some _ => Prog.fault (.invalidRequest "Provide either text or texts, not both")
  | none, none => Prog.fault (.invalidRequest "No text provided")

end

/-! ## What creates and updates no table -/

section

open Prog

variable {I : Tables → Prop} {config : ServerConfig} {w : Surroundings} {name : String}

theorem keeps_ensureAvailable : Keeps I ensureAvailable := .bind (.asks _) fun _ => .ite (.fault _) (.pure _)

theorem keeps_ensureWriteAllowed : Keeps I (ensureWriteAllowed config w) := by
  refine .bind (.asks _) fun st => .ite (.fault _) (.ite (.fault _) ?_)
  cases config.diskMinFreeBytes with
  | none => exact .pure _
  | some minFree =>
      refine .bind (.ofExcept _) fun free => ?_
      cases free with
      | none => exact .pure _
      | some free => exact .ite (.bind (.modify _) fun _ => .fault _) (.pure _)

theorem keeps_getExisting : Keeps I (getExisting name) :=
  .bind keeps_ensureAvailable fun _ => .bind .device fun _ => .ite (.modify _) (.fault _)

theorem keeps_table : Keeps I (table name) := .bind .device fun _ => .pure _

end

end Catalog
