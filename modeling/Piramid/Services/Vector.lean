-- SUMMARY: The services on the vectors of a collection: what a request is checked for, and what it then does.
import Piramid.Runtime.State
import Piramid.Server.Metadata
import Piramid.Server.Queries

/-!
# The vector services

Requests to insert, read and delete vectors. The checks come in the order of the source: some of
them only after the collection was looked up, or created.
-/

/-- What is not fixed here: `Uuid::parse_str`. -/
class UuidText where
  parseStr : String → Option Uuid

/-- `server::types::InsertRequest`. -/
structure InsertRequest where
  vector : Option Vector32
  vectors : Option (List Vector32)
  text : Option String
  texts : Option (List String)
  metadata : HashMap String JsonValue
  metadataList : List (HashMap String JsonValue)
  normalize : Bool

/-- `server::types::UpsertRequest`. -/
structure UpsertRequest where
  id : Option String
  vector : Vector32
  text : String
  metadata : HashMap String JsonValue
  normalize : Bool

/-- `server::types::ListVectorsQuery`. -/
structure ListVectorsQuery where
  limit : Nat
  offset : Nat

/-- `server::types::EmbedRequest`. -/
structure EmbedRequest where
  text : Option String
  texts : Option (List String)
  metadata : HashMap String JsonValue
  metadataList : List (HashMap String JsonValue)

/-- `server::types::CollectionInfo`. -/
structure CollectionInfo where
  name : String
  count : Nat
  createdAt : Option Nat
  updatedAt : Option Nat
  dimensions : Option Nat

/-- `server::types::VectorResponse`. -/
structure VectorResponse where
  id : String
  vector : Vector32
  text : String
  metadata : HashMap String JsonValue

/-- `server::types::RebuildIndexStatusResponse`, without the time that the job took. -/
structure RebuildIndexStatusResponse where
  status : String
  startedAt : Option Nat
  finishedAt : Option Nat
  error : Option String

/-- The response types of the services, without latencies. -/
inductive Response where
  | collections (collections : List CollectionInfo)
  | collection (info : CollectionInfo)
  /-- `InsertResponse`. -/
  | inserted (id : String)
  /-- `MultiInsertResponse`. -/
  | insertedMulti (ids : List String) (count : Nat)
  /-- `UpsertResponse`. -/
  | upserted (id : String) (created : Bool)
  | vector (vector : VectorResponse)
  | vectors (vectors : List VectorResponse)
  /-- `DeleteResponse`. -/
  | deleted (deleted : Bool)
  /-- `MultiDeleteResponse`. -/
  | deletedMulti (deletedCount : Nat)
  | count (count : Nat)
  /-- `EmbedResponse`. -/
  | embedded (id : String) (embedding : Vector32) (tokens : Option Nat)
  /-- `MultiEmbedResponse`. -/
  | embeddedMulti (ids : List String) (embeddings : List Vector32) (totalTokens : Option Nat)
  | hits (results : SearchResultsResponse)
  /-- `RebuildIndexResponse`. -/
  | rebuilt (success : Bool)
  | rebuildStatus (status : RebuildIndexStatusResponse)

/-! ## Checks and conversions -/

def validateText (text : String) : Except Fault Unit :=
  if text = "" then .error (.invalidRequest "Text cannot be empty")
  else if text.utf8ByteSize > 1000000 then
    .error (.invalidRequest ("Text too large: " ++ toString text.utf8ByteSize ++ " bytes (max 1MB)"))
  else .ok ()

def normalizeVector [Floats] (vector : Vector32) : Vector32 :=
  let magnitude := Floats.sqrt ((vector.map fun x => Floats.mul x x).foldl Floats.add F32.zero)
  if Floats.partialCmp magnitude F32.zero = some .eq ∨ magnitude.isNan = true ∨
      magnitude.isInfinite = true then
    List.replicate vector.length F32.zero
  else vector.map fun x => Floats.div x magnitude

/-- `ok_or_else`. -/
def required {α : Type} (x : Option α) (msg : String) : Except Fault α :=
  match x with
  | some a => .ok a
  | none => .error (.invalidRequest msg)

namespace Service

section

variable [Floats]

def normalized (normalize : Bool) (vector : Vector32) : Vector32 :=
  if normalize then normalizeVector vector else vector

def buildSingleEntry (w : Surroundings) (req : InsertRequest) : Except Fault Document := do
  let text ← required req.text "text is required for single insert"
  validateText text
  let vector ← required req.vector "vector is required for single insert"
  validateVector vector
  pure {
    id := w.newV4 0
    vector := normalized req.normalize vector
    text
    metadata := jsonToMetadata w.fields req.metadata }

/-- The documents of a batch, each with the metadata in its place of the list, if there is one. -/
def batchEntries (w : Surroundings) (req : InsertRequest) (vectors : List Vector32)
    (texts : List String) : List Document :=
  (vectors.zip texts).mapIdx fun i (vector, text) => {
    id := w.newV4 i
    vector := normalized req.normalize vector
    text
    metadata := jsonToMetadata w.fields (req.metadataList.getD i ∅) }

def buildBatchEntries (w : Surroundings) (req : InsertRequest) : Except Fault (List Document) := do
  let vectors ← required req.vectors "vectors are required for batch insert"
  let texts ← required req.texts "texts are required for batch insert"
  validateBatchSize vectors.length maxBatchSize "Insert"
  if vectors.length ≠ texts.length then .error (.invalidRequest "vectors and texts length mismatch")
  else do
    validateVectors vectors
    texts.forM validateText
    pure (batchEntries w req vectors texts)

end

def vectorResponse (w : Surroundings) (entry : Document) : Except Fault VectorResponse := do
  let vector ← entry.tryGetVector
  pure {
    id := entry.id.display
    vector
    text := entry.text
    metadata := metadataToJson w.fields entry.metadata }

/-- `Uuid::parse_str` of the id in a path. -/
def parseId [UuidText] (id : String) : Except Fault Uuid := required (UuidText.parseStr id) "Invalid UUID"

def parseIds [UuidText] (ids : List String) : Except Fault (List Uuid) :=
  ids.mapM fun id => required (UuidText.parseStr id) ("Invalid UUID: " ++ id)

/-- The id of an upsert: the one of the request, or a new one. -/
def upsertId [UuidText] (w : Surroundings) (id : Option String) : Except Fault Uuid :=
  match id with
  | some id => parseId id
  | none => .ok (w.newV4 0)

def upsertEntry [Floats] (w : Surroundings) (req : UpsertRequest) (id : Uuid) : Document where
  id := id
  vector := normalized req.normalize req.vector
  text := req.text
  metadata := jsonToMetadata w.fields req.metadata

/-! ## Services -/

variable [Env] [UnicodeTables] [UuidText] (config : ServerConfig) (w : Surroundings) (collection : String)

/-- `insert_vector`. The collection is created before the documents are checked. -/
def insertVector (req : InsertRequest) : ServiceM Response := do
  ensureAvailable
  ensureWriteAllowed config w
  Prog.ofExcept (validateCollectionName collection)
  let handle ← getOrCreateCollection config collection
  match req.vector, req.vectors with
  | some _, none =>
    let entry ← Prog.ofExcept (buildSingleEntry w req)
    let id ← underWrite collection handle (Collection.insert entry)
    enforceCacheBudget config
    pure (.inserted id.display)
  | none, some _ =>
    let entries ← Prog.ofExcept (buildBatchEntries w req)
    let ids ← underWrite collection handle (Collection.insertBatch entries)
    enforceCacheBudget config
    pure (.insertedMulti (ids.map Uuid.display) ((req.texts.map List.length).getD 0))
  | some _, some _ => Prog.fault (.invalidRequest "Provide either vector or vectors, not both")
  | none, none => Prog.fault (.invalidRequest "No vectors provided")

/-- `get_vector`. -/
def getVector (id : String) : ServiceM Response := do
  ensureAvailable
  let handle ← getExistingCollection config collection
  let uuid ← Prog.ofExcept (parseId id)
  match ← underRead collection handle (fun c d => c.get d uuid) with
  | none => Prog.fault (.notFound VECTOR_NOT_FOUND)
  | some entry =>
    let vector ← Prog.ofExcept (vectorResponse w entry)
    pure (.vector vector)

/-- `list_vectors`. -/
def listVectors (params : ListVectorsQuery) : ServiceM Response := do
  ensureAvailable
  let handle ← getExistingCollection config collection
  let entries ← underRead collection handle (fun c d => c.getAll d w.ids)
  let vectors ← Prog.ofExcept (((entries.drop params.offset).take params.limit).mapM (vectorResponse w))
  pure (.vectors vectors)

/-- `delete_vector`. -/
def deleteVector (id : String) : ServiceM Response := do
  ensureAvailable
  ensureWriteAllowed config w
  let handle ← getExistingCollection config collection
  let uuid ← Prog.ofExcept (parseId id)
  let deleted ← underWrite collection handle (Collection.delete uuid)
  pure (.deleted deleted)

/-- `delete_vectors`. -/
def deleteVectors (ids : List String) : ServiceM Response := do
  ensureAvailable
  ensureWriteAllowed config w
  Prog.ofExcept (validateCollectionName collection)
  Prog.ofExcept (validateBatchSize ids.length maxBatchSize "Delete")
  let handle ← getExistingCollection config collection
  let uuids ← Prog.ofExcept (parseIds ids)
  let deletedCount ← underWrite collection handle (Collection.deleteBatch uuids)
  pure (.deletedMulti deletedCount)

/-- `upsert_vector`. The collection is created before the id is parsed. -/
def upsertVector (req : UpsertRequest) : ServiceM Response := do
  ensureAvailable
  ensureWriteAllowed config w
  Prog.ofExcept (validateCollectionName collection)
  Prog.ofExcept (validateText req.text)
  Prog.ofExcept (validateVector req.vector)
  let handle ← getOrCreateCollection config collection
  let id ← Prog.ofExcept (upsertId w req.id)
  let existing ← underRead collection handle (fun c d => c.get d id)
  let _ ← underWrite collection handle (Collection.upsert (upsertEntry w req id))
  enforceCacheBudget config
  pure (.upserted id.display existing.isNone)

end Service
