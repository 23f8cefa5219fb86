-- SUMMARY: Searching a collection: the ids an index selects, the hits they become, and filtering.
import Piramid.Collections.Collection

/-!
# Search

A filter is the predicate it applies to metadata. The index selects ids by its own
metric; the hits are scored by the metric of the request, and sorted only if there
is a filter.
-/

/-- `search::Hit`. -/
structure Hit where
  id : Uuid
  score : F32
  text : String
  vector : Vector32
  metadata : Metadata

/-- `search::SearchParams`. -/
structure SearchParams where
  mode : ExecutionMode
  filter : Option (Metadata → Bool)
  filterOverfetchOverride : Option Nat
  searchConfigOverride : Option SearchConfig

/-- `usize::saturating_mul`. -/
def saturatingMul (a b : Nat) : Nat := min (a * b) (2 ^ 64 - 1)

namespace Collection

/-- `utils::sort_and_truncate`. -/
def sortAndTruncate [Floats] (results : List Hit) (k : Nat) : Except Fault (List Hit) := do
  let sorted ← sortBy .descending Hit.score results
  pure (sorted.take k)

variable [Env]

/-- The hit for an id that the index returned. -/
def hit (c : Collection) (d : Disk) (query : Vector32) (metric : Metric) (mode : ExecutionMode)
    (id : Uuid) : Except Fault Hit := do
  match ← c.get d id with
  | none => .error (.searchFailed ("index returned missing document " ++ id.display))
  | some entry =>
    let vec ← entry.tryGetVector
    let score ← metric.calculate query vec mode
    pure ⟨id, score, entry.text, vec, entry.metadata⟩

/-- How many ids the index is asked for. -/
def searchK (k : Nat) (params : SearchParams) (effectiveSearch : SearchConfig) : Nat :=
  let baseOverfetch := max effectiveSearch.filterOverfetch 1
  let expansion := max (params.filterOverfetchOverride.getD baseOverfetch) 1
  if params.filter.isSome then saturatingMul k expansion else k

/-- `search_collection`. -/
def searchCollection (c : Collection) (d : Disk) (order : HashOrder Uuid) (query : Vector32)
    (k : Nat) (metric : Metric) (params : SearchParams) : Except Fault (List Hit) := do
  let effectiveSearch := params.searchConfigOverride.getD c.config.search
  let neighborIds ← c.vectorIndex.search query (searchK k params effectiveSearch)
    (c.cache.reader order) effectiveSearch params.filter c.cache.metadata
  let results ← neighborIds.mapM (c.hit d query metric params.mode)
  match params.filter with
  | some filter => sortAndTruncate (results.filter fun hit => filter hit.metadata) k
  | none => pure results

/-- The defaults that `Collection::search` fills in. -/
def searchParams (c : Collection) (params : SearchParams) : SearchParams where
  mode := if params.mode = .auto then c.config.execution else params.mode
  filter := params.filter
  filterOverfetchOverride :=
    some (params.filterOverfetchOverride.getD c.config.search.filterOverfetch)
  searchConfigOverride := params.searchConfigOverride

/-- `Collection::search`. -/
def search (c : Collection) (d : Disk) (order : HashOrder Uuid) (query : Vector32) (k : Nat)
    (metric : Metric) (params : SearchParams) : Except Fault (List Hit) :=
  c.searchCollection d order query k metric (c.searchParams params)

/-- `search_batch_collection`, one query after the other. -/
def searchBatchCollection (c : Collection) (d : Disk) (order : HashOrder Uuid)
    (queries : List Vector32) (k : Nat) (metric : Metric) (params : SearchParams) :
    Except Fault (List (List Hit)) :=
  queries.mapM fun query => c.searchCollection d order query k metric params

end Collection
