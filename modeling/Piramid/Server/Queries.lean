-- SUMMARY: The services that search a collection: the checks of a request, and whether the search behind them can panic.
import Piramid.Collections.Answers
import Piramid.Collections.Dimension
import Piramid.Server.Names

/-!
# Queries

A request is checked for what can be seen from it alone: the vector is not empty and
finite, the metric and the preset have a known name. Then the collection is searched.
-/

open Loop

namespace F32

/-- `f32::is_nan`. -/
def isNan (x : F32) : Bool := x &&& infinity == infinity && x &&& 0x007fffff#32 != 0

/-- `f32::is_infinite`. -/
def isInfinite (x : F32) : Bool := x &&& 0x7fffffff#32 == infinity

end F32

/-! ## Checks -/

/-- One component of `validate_vector`. -/
def validateComponent (component : F32 × Nat) : Except Fault Unit :=
  let (value, i) := component
  if value.isNan then .error (.invalidRequest ("Vector contains NaN at index " ++ toString i))
  else if value.isInfinite then
    .error (.invalidRequest ("Vector contains Infinity at index " ++ toString i))
  else .ok ()

def validateVector (vector : Vector32) : Except Fault Unit :=
  if vector = [] then .error (.invalidRequest "Vector cannot be empty")
  else vector.zipIdx.forM validateComponent

/-- `map_err`, as `validate_vectors` has it. -/
def atIndex (i : Nat) : Except Fault Unit → Except Fault Unit
  | .error (.error e) =>
    .error (.invalidRequest ("Vector at index " ++ toString i ++ ": " ++ e.display))
  | x => x

def validateVectors (vectors : List Vector32) : Except Fault Unit :=
  vectors.zipIdx.forM fun (vector, i) => atIndex i (validateVector vector)

def validateBatchSize (size maxSize : Nat) (operation : String) : Except Fault Unit :=
  if size = 0 then .error (.invalidRequest (operation ++ " batch cannot be empty"))
  else if size > maxSize then
    .error (.invalidRequest (operation ++ " batch too large: " ++ toString size ++ " items (max " ++
      toString maxSize ++ ")"))
  else .ok ()

def maxBatchSize : Nat := 10000

def parseMetric : Option String → Except Fault Metric
  | none | some "cosine" => .ok .cosine
  | some "euclidean" => .ok .euclidean
  | some "dot" | some "dot_product" => .ok .dotProduct
  | some other => .error (.invalidRequest ("Unknown metric '" ++ other ++
      "'. Expected cosine, euclidean, dot, or dot_product"))

/-- What is not fixed here: `str::to_lowercase`. -/
class Lowercase where
  toLowercase : String → String

/-- The preset of a request, if it has one. -/
def applyPreset [Lowercase] (cfg : SearchConfig) : Option String → Except Fault SearchConfig
  | none => .ok cfg
  | some preset =>
    match Lowercase.toLowercase preset with
    | "fast" => .ok { cfg with ef := some 50, nprobe := some 1 }
    | "high" => .ok { cfg with ef := some 400, nprobe := some 20 }
    | other => .error (.invalidRequest ("Unknown search preset '" ++ other ++
        "'. Expected fast or high"))

def applySearchOverrides [Lowercase] (base : SearchConfig) (reqEf reqNprobe reqOverfetch : Option Nat)
    (preset : Option String) : Except Fault SearchConfig := do
  let cfg ← applyPreset base preset
  pure {
    ef := reqEf <|> cfg.ef
    nprobe := reqNprobe <|> cfg.nprobe
    filterOverfetch := (reqOverfetch.map fun overfetch => max overfetch 1).getD cfg.filterOverfetch }

/-! ### No check panics -/

theorem settles_validateVector (vector : Vector32) :
    Faults Fault.IsError (validateVector vector) := by
  unfold validateVector
  split
  · exact .error ⟨_, rfl⟩
  · refine .forM fun component _ => ?_
    obtain ⟨value, i⟩ := component
    unfold validateComponent
    simp only
    split
    · exact .error ⟨_, rfl⟩
    · split
      · exact .error ⟨_, rfl⟩
      · exact .ok _

theorem settles_validateVectors (vectors : List Vector32) :
    Faults Fault.IsError (validateVectors vectors) := by
  refine .forM fun entry _ => ?_
  have hvector := settles_validateVector entry.1
  simp only
  unfold atIndex
  split
  · exact .error ⟨_, rfl⟩
  · exact hvector

theorem settles_validateBatchSize (size maxSize : Nat) (operation : String) :
    Faults Fault.IsError (validateBatchSize size maxSize operation) := by
  unfold validateBatchSize
  split
  · exact .error ⟨_, rfl⟩
  · split
    · exact .error ⟨_, rfl⟩
    · exact .ok _

theorem settles_validateCollectionName [UnicodeTables] (name : String) :
    Faults Fault.IsError (validateCollectionName name) := by
  unfold validateCollectionName
  split
  · exact .error ⟨_, rfl⟩
  · split
    · exact .error ⟨_, rfl⟩
    · split
      · exact .error ⟨_, rfl⟩
      · exact .ok _

theorem settles_parseMetric (metric : Option String) : Faults Fault.IsError (parseMetric metric) := by
  unfold parseMetric
  split
  · exact .ok _
  · exact .ok _
  · exact .ok _
  · exact .ok _
  · exact .ok _
  · exact .error ⟨_, rfl⟩

theorem settles_applySearchOverrides [Lowercase] (base : SearchConfig) (ef nprobe overfetch : Option Nat)
    (preset : Option String) :
    Faults Fault.IsError (applySearchOverrides base ef nprobe overfetch preset) := by
  refine Faults.bind ?_ fun _ _ => .ok _
  unfold applyPreset
  split
  · exact .ok _
  · split
    · exact .ok _
    · exact .ok _
    · exact .error ⟨_, rfl⟩

/-- A step of a service that is also one of its checks. That the checked queries satisfy `R` is
enough, and that they satisfy `N` is needed where `E` holds. -/
theorem settles_step {α β : Type} {E : Prop} {R N : Vector32 → Prop} {x : Except Fault α}
    {f : α → Except Fault β} {g : α → Except Fault (List Vector32)} (hx : Faults Fault.IsError x)
    (h : ∀ a, x = .ok a →
      ((∀ queries, g a = .ok queries → ∀ query ∈ queries, R query) → Faults Fault.IsError (f a)) ∧
        (E → Faults Fault.IsError (f a) → ∀ queries, g a = .ok queries → ∀ query ∈ queries, N query)) :
    ((∀ queries, (x >>= g) = .ok queries → ∀ query ∈ queries, R query) →
        Faults Fault.IsError (x >>= f)) ∧
      (E → Faults Fault.IsError (x >>= f) →
        ∀ queries, (x >>= g) = .ok queries → ∀ query ∈ queries, N query) := by
  rw [Faults.bind_iff hx]
  constructor
  · intro hR a ha
    exact (h a ha).1 fun queries hqueries => hR queries (bind_eq_ok.mpr ⟨a, ha, hqueries⟩)
  · intro hE hsettles queries hqueries
    obtain ⟨a, ha, hqueries⟩ := bind_eq_ok.mp hqueries
    exact (h a ha).2 hE (hsettles a ha) queries hqueries

/-! ## Services -/

/-- `server::types::HitResponse`. -/
structure HitResponse where
  id : String
  score : F32
  text : String
  metadata : Metadata

def hitToResponse (hit : Hit) : HitResponse := ⟨hit.id.display, hit.score, hit.text, hit.metadata⟩

/-- `SearchResultsResponse`, without the latency. -/
inductive SearchResultsResponse where
  | single (results : List HitResponse)
  | multi (results : List (List HitResponse))

/-- `server::types::SearchRequest`. -/
structure SearchRequest where
  vector : Option Vector32
  vectors : Option (List Vector32)
  k : Nat
  metric : Option String
  ef : Option Nat
  nprobe : Option Nat
  overfetch : Option Nat
  preset : Option String

/-- `server::types::RangeSearchRequest`. -/
structure RangeSearchRequest where
  vector : Vector32
  minScore : F32
  metric : Option String
  k : Nat
  ef : Option Nat
  nprobe : Option Nat
  overfetch : Option Nat
  preset : Option String

/-- `server::types::TextSearchRequest`. -/
structure TextSearchRequest where
  query : String
  k : Nat
  metric : Option String
  ef : Option Nat
  nprobe : Option Nat
  overfetch : Option Nat
  preset : Option String

/-- What the three services use of `SharedState`. -/
structure QueryState where
  shuttingDown : Bool
  /-- `collection_manager.get_existing`: the collection, and its files. -/
  getExisting : String → Except Fault (Collection × Disk)
  /-- `embedder.embed`: the embedding of a text, or an `Err`. -/
  embedder : Option (String → Except PiramidError Vector32)

namespace QueryState

/-- `ensure_available`. -/
def ensureAvailable (st : QueryState) : Except Fault Unit :=
  if st.shuttingDown then .error (.serviceUnavailable "Server is shutting down") else .ok ()

/-- `get_existing_collection`. -/
def getExistingCollection (st : QueryState) (name : String) : Except Fault (Collection × Disk) :=
  if st.shuttingDown then .error (.serviceUnavailable "Server is shutting down")
  else st.getExisting name

/-- `embedder.embed(&text).await?`, if there is an embedder. -/
def embed (st : QueryState) (text : String) : Except Fault Vector32 :=
  match st.embedder with
  | none => .error (.serviceUnavailable "Embedding service not configured")
  | some embed => (embed text).mapError Fault.error

variable {st : QueryState}

theorem settles_ensureAvailable (st : QueryState) :
    Faults Fault.IsError st.ensureAvailable := by
  unfold ensureAvailable
  split
  · exact .error ⟨_, rfl⟩
  · exact .ok _

theorem settles_embed (st : QueryState) (text : String) :
    Faults Fault.IsError (st.embed text) := by
  unfold embed
  split
  · exact .error ⟨_, rfl⟩
  · rename_i embed _
    cases embed text with
    | error e => exact .error ⟨_, rfl⟩
    | ok embedding => exact .ok _

theorem getExistingCollection_eq {name : String} {found : Collection × Disk}
    (hfind : st.getExisting name = .ok found)
    (havailable : st.ensureAvailable = .ok ()) : st.getExistingCollection name = .ok found := by
  unfold getExistingCollection
  unfold ensureAvailable at havailable
  split at havailable
  · cases havailable
  · rename_i hup
    rw [if_neg hup]
    exact hfind

end QueryState

section

variable [Env] [UnicodeTables] [Lowercase]

/-- The parameters that all three services search with. -/
def Collection.requestParams (c : Collection) (overfetch : Option Nat)
    (effectiveSearch : SearchConfig) : SearchParams :=
  ⟨c.config.execution, none, overfetch, some effectiveSearch⟩

/-- `search_vectors`. -/
def searchVectors (st : QueryState) (order : HashOrder Uuid) (name : String) (req : SearchRequest) :
    Except Fault SearchResultsResponse := do
  st.ensureAvailable
  validateCollectionName name
  let (c, d) ← st.getExistingCollection name
  let metric ← parseMetric req.metric
  let effectiveSearch ← applySearchOverrides c.config.search req.ef req.nprobe req.overfetch req.preset
  match req.vector, req.vectors with
  | some vector, none =>
    validateVector vector
    let results ← c.search d order vector req.k metric (c.requestParams req.overfetch effectiveSearch)
    pure (.single (results.map hitToResponse))
  | none, some queries =>
    validateBatchSize queries.length maxBatchSize "Search"
    validateVectors queries
    let results ← c.searchBatchCollection d order queries req.k metric
      (c.requestParams req.overfetch effectiveSearch)
    pure (.multi (results.map (·.map hitToResponse)))
  | some _, some _ => .error (.invalidRequest "Provide either vector or vectors, not both")
  | none, none => .error (.invalidRequest "No search vector(s) provided")

/-- `range_search_vectors`. -/
def rangeSearchVectors (st : QueryState) (order : HashOrder Uuid) (name : String)
    (req : RangeSearchRequest) : Except Fault SearchResultsResponse := do
  st.ensureAvailable
  validateCollectionName name
  validateVector req.vector
  let (c, d) ← st.getExistingCollection name
  let metric ← parseMetric req.metric
  let effectiveSearch ← applySearchOverrides c.config.search req.ef req.nprobe req.overfetch req.preset
  let results ← c.search d order req.vector req.k metric
    (c.requestParams req.overfetch effectiveSearch)
  pure (.single ((results.filter fun hit => hit.score.ge req.minScore).map hitToResponse))

/-- `search_by_text`. What the embedder returns is not checked. -/
def searchByText (st : QueryState) (order : HashOrder Uuid) (name : String)
    (req : TextSearchRequest) : Except Fault SearchResultsResponse := do
  st.ensureAvailable
  let (c, d) ← st.getExistingCollection name
  let embedding ← st.embed req.query
  let metric ← parseMetric req.metric
  let effectiveSearch ← applySearchOverrides c.config.search req.ef req.nprobe req.overfetch req.preset
  let results ← c.search d order embedding req.k metric (c.requestParams req.overfetch effectiveSearch)
  pure (.single (results.map hitToResponse))

/-- A request to one of the three. -/
inductive QueryRequest where
  | search (req : SearchRequest)
  | rangeSearch (req : RangeSearchRequest)
  | textSearch (req : TextSearchRequest)

def QueryRequest.serve (st : QueryState) (order : HashOrder Uuid) (name : String) :
    QueryRequest → Except Fault SearchResultsResponse
  | .search req => searchVectors st order name req
  | .rangeSearch req => rangeSearchVectors st order name req
  | .textSearch req => searchByText st order name req

/-! ## Checked requests -/

/-- The queries of `search_vectors`, if they pass the checks. -/
def SearchRequest.queries (req : SearchRequest) : Except Fault (List Vector32) :=
  match req.vector, req.vectors with
  | some vector, none => do
    validateVector vector
    pure [vector]
  | none, some queries => do
    validateBatchSize queries.length maxBatchSize "Search"
    validateVectors queries
    pure queries
  | some _, some _ => .error (.invalidRequest "Provide either vector or vectors, not both")
  | none, none => .error (.invalidRequest "No search vector(s) provided")

/-- The queries that a request comes to search the collection for, if all checks let it. -/
def QueryRequest.checked (st : QueryState) (name : String) (c : Collection) :
    QueryRequest → Except Fault (List Vector32)
  | .search req => do
    st.ensureAvailable
    validateCollectionName name
    let _ ← parseMetric req.metric
    let _ ← applySearchOverrides c.config.search req.ef req.nprobe req.overfetch req.preset
    req.queries
  | .rangeSearch req => do
    st.ensureAvailable
    validateCollectionName name
    validateVector req.vector
    let _ ← parseMetric req.metric
    let _ ← applySearchOverrides c.config.search req.ef req.nprobe req.overfetch req.preset
    pure [req.vector]
  | .textSearch req => do
    st.ensureAvailable
    let embedding ← st.embed req.query
    let _ ← parseMetric req.metric
    let _ ← applySearchOverrides c.config.search req.ef req.nprobe req.overfetch req.preset
    pure [embedding]

/-! ## When a request can panic -/

variable {st : QueryState} {order : HashOrder Uuid} {name : String} {c : Collection} {d : Disk}
  {t : Table} {dim : Nat}

/-- A collection whose parts agree, with vectors of one length. -/
def Collection.Regular (c : Collection) (d : Disk) : Prop :=
  ∃ t dim, Coherent c d t ∧ c.Shaped dim

/-- The collection can compare the query with its vectors, and sort by the scores. -/
def Collection.Handles (c : Collection) (d : Disk) (order : HashOrder Uuid) (query : Vector32) : Prop :=
  c.Takes d query ∧ c.Sorts order query

/-- The same, as far as every search shows it: which scores a graph or an IVF index sorts
depends on the search. -/
def Collection.Handled (c : Collection) (d : Disk) (order : HashOrder Uuid) (query : Vector32) : Prop :=
  c.Takes d query ∧ (c.vectorIndex.indexType = .flat → c.Sorts order query)

omit [UnicodeTables] [Lowercase] in
/-- The last step of the services: one search with the parameters of the request. -/
theorem settles_one (hexec : c.config.execution.Implemented) {query : Vector32} {k : Nat}
    {metric : Metric} {overfetch : Option Nat} {cfg : SearchConfig}
    (f : List Hit → SearchResultsResponse) :
    ((∀ queries, (.ok [query] : Except Fault (List Vector32)) = .ok queries →
        ∀ query ∈ queries, c.Handles d order query) →
      Faults Fault.IsError (c.search d order query k metric (c.requestParams overfetch cfg) >>=
        fun results => pure (f results))) ∧
    (c.Regular d →
      Faults Fault.IsError (c.search d order query k metric (c.requestParams overfetch cfg) >>=
        fun results => pure (f results)) →
      ∀ queries, (.ok [query] : Except Fault (List Vector32)) = .ok queries →
        ∀ query ∈ queries, c.Handled d order query) := by
  have hmode : (c.searchParams (c.requestParams overfetch cfg)).mode.Implemented := by
    unfold Collection.searchParams Collection.requestParams
    split
    · exact hexec
    · exact hexec
  constructor
  · intro hhandles
    obtain ⟨htakes, hsorts⟩ := hhandles _ rfl query (by simp)
    exact (htakes.settles_search hsorts hmode rfl).bind fun _ _ => .ok _
  · rintro ⟨t, dim, hcoh, hshaped⟩ hsettles queries hqueries
    cases hqueries
    intro query' hquery'
    rw [List.mem_singleton.mp hquery']
    exact hcoh.answered_of_settles hshaped rfl hsettles.of_bind

omit [UnicodeTables] [Lowercase] in
/-- The last step of a batch. -/
theorem settles_many (hexec : c.config.execution.Implemented) {queries : List Vector32} {k : Nat}
    {metric : Metric} {overfetch : Option Nat} {cfg : SearchConfig}
    (f : List (List Hit) → SearchResultsResponse) :
    ((∀ queries', (.ok queries : Except Fault (List Vector32)) = .ok queries' →
        ∀ query ∈ queries', c.Handles d order query) →
      Faults Fault.IsError (c.searchBatchCollection d order queries k metric
        (c.requestParams overfetch cfg) >>= fun results => pure (f results))) ∧
    (c.Regular d →
      Faults Fault.IsError (c.searchBatchCollection d order queries k metric
        (c.requestParams overfetch cfg) >>= fun results => pure (f results)) →
      ∀ queries', (.ok queries : Except Fault (List Vector32)) = .ok queries' →
        ∀ query ∈ queries', c.Handled d order query) := by
  constructor
  · intro hhandles
    refine Faults.bind (.mapM fun query hquery => ?_) fun _ _ => .ok _
    obtain ⟨htakes, hsorts⟩ := hhandles _ rfl query hquery
    exact htakes.settles_search hsorts hexec rfl
  · rintro ⟨t, dim, hcoh, hshaped⟩ hsettles queries' hqueries
    cases hqueries
    exact hcoh.answered_of_settles_batch hshaped rfl hsettles.of_bind

/-- A query can panic the server: a request returns or fails with an `Err` if the collection can
answer all queries that pass its checks, and where the parts of the collection agree and its
vectors have one length, only if it can take them, and if a flat index can sort by their scores. -/
theorem request_settles_iff (hfind : st.getExisting name = .ok (c, d))
    (hexec : c.config.execution.Implemented) (req : QueryRequest) :
    ((∀ queries, req.checked st name c = .ok queries → ∀ query ∈ queries, c.Handles d order query) →
      Faults Fault.IsError (req.serve st order name)) ∧
    (c.Regular d → Faults Fault.IsError (req.serve st order name) →
      ∀ queries, req.checked st name c = .ok queries → ∀ query ∈ queries, c.Handled d order query) := by
  cases req with
  | search req =>
      refine settles_step st.settles_ensureAvailable fun _ hup => ?_
      refine settles_step (settles_validateCollectionName name) fun _ _ => ?_
      rw [QueryState.getExistingCollection_eq hfind hup]
      refine settles_step (settles_parseMetric req.metric) fun metric _ => ?_
      refine settles_step (settles_applySearchOverrides _ _ _ _ _) fun cfg _ => ?_
      unfold SearchRequest.queries
      cases req.vector with
      | none =>
          cases req.vectors with
          | none => exact ⟨fun _ => .error ⟨_, rfl⟩, fun _ _ queries h => by cases h⟩
          | some queries =>
              refine settles_step (settles_validateBatchSize _ _ _) fun _ _ => ?_
              refine settles_step (settles_validateVectors queries) fun _ _ => ?_
              exact settles_many hexec _
      | some vector =>
          cases req.vectors with
          | none =>
              refine settles_step (settles_validateVector vector) fun _ _ => ?_
              exact settles_one hexec _
          | some queries => exact ⟨fun _ => .error ⟨_, rfl⟩, fun _ _ queries h => by cases h⟩
  | rangeSearch req =>
      refine settles_step st.settles_ensureAvailable fun _ hup => ?_
      refine settles_step (settles_validateCollectionName name) fun _ _ => ?_
      refine settles_step (settles_validateVector req.vector) fun _ _ => ?_
      rw [QueryState.getExistingCollection_eq hfind hup]
      refine settles_step (settles_parseMetric req.metric) fun metric _ => ?_
      refine settles_step (settles_applySearchOverrides _ _ _ _ _) fun cfg _ => ?_
      exact settles_one hexec _
  | textSearch req =>
      refine settles_step st.settles_ensureAvailable fun _ hup => ?_
      rw [QueryState.getExistingCollection_eq hfind hup]
      refine settles_step (st.settles_embed req.query) fun embedding _ => ?_
      refine settles_step (settles_parseMetric req.metric) fun metric _ => ?_
      refine settles_step (settles_applySearchOverrides _ _ _ _ _) fun cfg _ => ?_
      exact settles_one hexec _

end

/-! ## A query of another length -/

section

attribute [local instance] Reference.flat

open Reference Prog

/-- No letters but those of ASCII. -/
local instance asciiTables : UnicodeTables := ⟨fun _ => false⟩

local instance asciiLowercase : Lowercase := ⟨String.toLower⟩

/-- A server with the collection of `dotted`. -/
def dottedState (out : List Reply × Session) : QueryState :=
  ⟨false, fun _ => .ok (out.2.coll, dotted.final 0 Disk.empty), none⟩

def queryFor (vector : Vector32) : SearchRequest := ⟨some vector, none, 2, none, none, none, none, none⟩

def panicMessage {α : Type} : Except Fault α → Option String
  | .error (.panic msg) => some msg
  | _ => none

theorem panics_of_message {α : Type} {x : Except Fault α} {msg : String}
    (h : panicMessage x = some msg) : x = .error (.panic msg) := by
  unfold panicMessage at h
  split at h
  · cases h
    rfl
  · cases h

theorem dotted_reached {out : List Reply × Session} (hrun : (dotted 0 Disk.empty).result = .ok out) :
    Reached "c" (config (.flat .dotProduct .auto) .unlimited 1000) out.2
      (dotted.final 0 Disk.empty) (Table.run ∅ oneAndTwo) := by
  have hfits : Table.Fits ∅ oneAndTwo := by
    refine ⟨?_, ?_, trivial⟩
    all_goals decide +kernel
  obtain ⟨replies, s⟩ := out
  exact reached_session hfits (runs_of_ok hrun)

theorem dotted_shaped {out : List Reply × Session} {t : Table}
    (h : Coherent out.2.coll (dotted.final 0 Disk.empty) t)
    (hflat : out.2.coll.vectorIndex = .flat dottedIndex)
    (hdim : ∀ id doc, t.lookup id = some doc → doc.vector.length = 1) : out.2.coll.Shaped 1 := by
  constructor
  · intro id v hv
    have hkey : id ∈ t.keys := by
      rw [← h.cached.keys_vectors (by rw [hflat]; decide)]
      exact (HashMap.mem_keys_iff _ _).mpr ⟨v, hv⟩
    obtain ⟨doc, hdoc⟩ := (HashMap.mem_keys_iff t id).mp hkey
    rw [h.cached.mirrors.vectors id doc hdoc] at hv
    rw [← Option.some.inj hv]
    exact hdim id doc hdoc
  · rw [hflat]
    intro v hv
    cases hv

/-- A query of the length of the vectors does not panic. -/
theorem query_of_dimension_settles :
    ∃ out, (dotted 0 Disk.empty).result = .ok out ∧
      Faults Fault.IsError ((QueryRequest.search (queryFor [F32.one])).serve (dottedState out)
        Bincode.idOrder "c") := by
  obtain ⟨out, hrun, hflat, hexecution, -⟩ := dotted_returns
  refine ⟨out, hrun, (request_settles_iff rfl ?_ (.search (queryFor [F32.one]))).1 ?_⟩
  · rw [hexecution]
    decide
  · have hcoh := (dotted_reached hrun).coherent
    have hchecked : (QueryRequest.search (queryFor [F32.one])).checked (dottedState out) "c"
        out.2.coll = .ok [[F32.one]] := rfl
    intro queries hqueries query hquery
    rw [hchecked] at hqueries
    cases hqueries
    rw [List.mem_singleton.mp hquery]
    refine ⟨hcoh.takes (dotted_shaped hcoh hflat dotted_dim) ?_, .inr ?_⟩
    · rw [hflat]
      decide
    · rw [hflat]
      exact VectorReader.sortsScores_of_few (by decide)

/-- A longer one does. -/
theorem longer_query_panics :
    ∃ out t, (dotted 0 Disk.empty).result = .ok out ∧
      Reached "c" (config (.flat .dotProduct .auto) .unlimited 1000) out.2
        (dotted.final 0 Disk.empty) t ∧
      validateVector [F32.one, F32.one] = .ok () ∧
      searchVectors (dottedState out) Bincode.idOrder "c" (queryFor [F32.one, F32.one]) =
        .error (.panic "Vectors must have same length") := by
  have hpanics : (dotted 0 Disk.empty).result.toOption.map (fun out =>
      panicMessage (searchVectors (dottedState out) Bincode.idOrder "c"
        (queryFor [F32.one, F32.one]))) = some (some "Vectors must have same length") := by
    decide +kernel
  cases hrun : (dotted 0 Disk.empty).result with
  | error e =>
      rw [hrun] at hpanics
      cases hpanics
  | ok out =>
      rw [hrun] at hpanics
      exact ⟨out, _, rfl, dotted_reached hrun, rfl, panics_of_message (Option.some.inj hpanics)⟩

end
