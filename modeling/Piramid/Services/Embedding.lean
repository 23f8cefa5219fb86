-- SUMMARY: The services that store texts with their embeddings, and those that search.
import Piramid.Services.Vector

/-!
# The embedding and the search services

A text is embedded before the lock of its collection is taken, and the collection is created before
that. A search looks its collection up, and only reads it.
-/

/-- The lists of hits, one for each query. -/
def SearchResultsResponse.lists : SearchResultsResponse → List (List HitResponse)
  | .single results => [results]
  | .multi results => results

namespace QueryRequest

/-- What is checked before the collection is looked up. -/
def precheck [UnicodeTables] (name : String) : QueryRequest → Except Fault Unit
  | .search _ => validateCollectionName name
  | .rangeSearch req => do
    validateCollectionName name
    validateVector req.vector
  | .textSearch _ => .ok ()

end QueryRequest

namespace Service

/-- `state.embedder.as_ref()`. -/
def embedder (w : Surroundings) : Except Fault (Nat → String → Except PiramidError EmbeddingResponse) :=
  match w.embedder with
  | none => .error (.serviceUnavailable EMBEDDING_NOT_CONFIGURED)
  | some embed => .ok embed

def embeddedEntry (w : Surroundings) (i : Nat) (response : EmbeddingResponse) (text : String)
    (metadata : HashMap String JsonValue) : Document where
  id := w.newV4 i
  vector := response.embedding
  text := text
  metadata := jsonToMetadata w.fields metadata

/-- `embedder.embed(text).await?`. -/
def embedOne (embed : Nat → String → Except PiramidError EmbeddingResponse) (i : Nat) (text : String) :
    Except Fault EmbeddingResponse :=
  (embed i text).mapError Fault.error

/-- The embeddings of all texts, up to the first error. -/
def embedEach (embed : Nat → String → Except PiramidError EmbeddingResponse) (texts : List String) :
    Except Fault (List EmbeddingResponse) :=
  texts.zipIdx.mapM fun (text, i) => embedOne embed i text

def embeddedEntries (w : Surroundings) (req : EmbedRequest) (texts : List String)
    (responses : List EmbeddingResponse) : List Document :=
  (responses.zip texts).mapIdx fun i (response, text) =>
    embeddedEntry w i response text (req.metadataList.getD i ∅)

/-- The sum of the reported tokens, a `u32` that saturates. -/
def totalTokens (responses : List EmbeddingResponse) : Nat :=
  responses.foldl (fun total response =>
    match response.tokens with
    | some tokens => min (total + tokens) (2 ^ 32 - 1)
    | none => total) 0

variable [Env] [UnicodeTables] (config : ServerConfig) (w : Surroundings) (collection : String)

/-- `embed_text`. -/
def embedText (req : EmbedRequest) : ServiceM Response := do
  ensureAvailable
  ensureWriteAllowed config w
  let handle ← getOrCreateCollection config collection
  let embed ← Prog.ofExcept (embedder w)
  match req.text, req.texts with
  | some text, none =>
    let response ← Prog.ofExcept (embedOne embed 0 text)
    let id ← underWrite collection handle
      (Collection.insert (embeddedEntry w 0 response text req.metadata))
    enforceCacheBudget config
    pure (.embedded id.display response.embedding response.tokens)
  | none, some texts =>
    if texts = [] then Prog.fault (.invalidRequest "texts cannot be empty")
    else do
      let responses ← Prog.ofExcept (embedEach embed texts)
      let ids ← underWrite collection handle
        (Collection.insertBatch (embeddedEntries w req texts responses))
      enforceCacheBudget config
      let total := totalTokens responses
      pure (.embeddedMulti (ids.map Uuid.display) (responses.map EmbeddingResponse.embedding)
        (if total > 0 then some total else none))
  | some _, some _ => Prog.fault (.invalidRequest "Provide either text or texts, not both")
  | none, none => Prog.fault (.invalidRequest "No text provided")

/-- What a query finds of the shared state, once its collection is there. -/
def queryState (w : Surroundings) (c : Collection) (d : Disk) : QueryState where
  shuttingDown := false
  getExisting := fun _ => .ok (c, d)
  embedder := w.embedder.map fun embed text => (embed 0 text).map EmbeddingResponse.embedding

/-- What the services that search do first. -/
def locate (r : QueryRequest) : ServiceM CollectionHandle := do
  ensureAvailable
  Prog.ofExcept (r.precheck collection)
  getExistingCollection config collection

/-- `search_vectors`, `range_search_vectors` and `search_by_text`. -/
def query [Lowercase] (r : QueryRequest) : ServiceM Response := do
  let handle ← locate config collection r
  let results ← underRead collection handle fun c d => r.serve (queryState w c d) w.ids collection
  pure (.hits results)

end Service
