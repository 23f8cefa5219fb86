-- SUMMARY: What a search may be told: documents of the table as it is, with the scores of their vectors.
import Piramid.Collections.Hits
import Piramid.Services.Steps

/-!
# Queries

An index says which documents a search finds, and no two kinds of index find the same ones. What the
hits show is read from the collection: the catalog allows every list of documents of the table that
is no longer than asked for, each document with its own text, metadata and score.
-/

open Device Prog Loop SnapshotLog

/-! ## What is asked for, and what may be answered -/

namespace QueryRequest

/-- The number of hits asked for. -/
def k : QueryRequest → Nat
  | .search req => req.k
  | .rangeSearch req => req.k
  | .textSearch req => req.k

def metric? : QueryRequest → Option String
  | .search req => req.metric
  | .rangeSearch req => req.metric
  | .textSearch req => req.metric

/-- The vectors that are searched for. -/
def vectors (w : Surroundings) : QueryRequest → Except Fault (List Vector32)
  | .search req => req.queries
  | .rangeSearch req => .ok [req.vector]
  | .textSearch req => do
    let embed ← Service.embedder w
    let response ← Service.embedOne embed 0 req.query
    pure [response.embedding]

/-- A range search leaves out hits below its score. -/
def Wants [Floats] (r : QueryRequest) (hit : HitResponse) : Prop :=
  ∀ req, r = .rangeSearch req → hit.score.ge req.minScore

end QueryRequest

section

variable [Env]

/-- The hit shows a document of the table, and how its vector scores. -/
def Table.Shows (t : Table) (metric : Metric) (mode : ExecutionMode) (query : Vector32) (hit : HitResponse) :
    Prop :=
  ∃ id doc, t.lookup id = some doc ∧ hit.id = id.display ∧ hit.text = doc.text ∧
    hit.metadata = doc.metadata ∧ metric.calculate query doc.vector mode = .ok hit.score

/-- What a query may be told about a table: a list for each vector. -/
def QueryRequest.Told (mode : ExecutionMode) (w : Surroundings) (t : Table) (r : QueryRequest)
    (results : SearchResultsResponse) : Prop :=
  ∃ vectors metric, r.vectors w = .ok vectors ∧ parseMetric r.metric? = .ok metric ∧
    List.Forall₂ (fun query hits => hits.length ≤ r.k ∧
      ∀ hit ∈ hits, t.Shows metric mode query hit ∧ r.Wants hit) vectors results.lists

end

namespace Catalog

/-- What comes before the search: the checks, and loading the collection. -/
def prepare [UnicodeTables] (name : String) (r : QueryRequest) : CatalogM Unit := do
  ensureAvailable
  Prog.ofExcept (r.precheck name)
  getExisting name

/-- The reply to a query: why it is refused, or that the search failed, or documents of the table. -/
def MayReply [Env] [UnicodeTables] (config : ServerConfig) (w : Surroundings) (name : String)
    (r : QueryRequest) (cs : CatalogState) (ts : Tables) (reply : Except Fault Response) : Prop :=
  match (prepare name r cs ts).result with
  | .error e => reply = .error e
  | .ok () => ∀ response, reply = .ok response → ∃ results, response = .hits results ∧
      r.Told config.collection.execution w (ts.table name) results

end Catalog

theorem Catalog.keeps_prepare [UnicodeTables] {I : Tables → Prop} {name : String} {r : QueryRequest} :
    Keeps I (Catalog.prepare name r) :=
  .bind keeps_ensureAvailable fun _ => .bind (.ofExcept _) fun _ => keeps_getExisting

theorem Catalog.MayReply.summary [Env] [UnicodeTables] {config : ServerConfig} {w : Surroundings}
    {name : String} {r : QueryRequest} {cs : CatalogState} {ts : Tables} {response : Response}
    (h : Catalog.MayReply config w name r cs ts (.ok response)) : response.summary = response := by
  unfold Catalog.MayReply at h
  split at h
  · cases h
  · obtain ⟨results, rfl, -⟩ := h response rfl
    rfl

/-- A list of hits is one that the table allows. -/
theorem Catalog.MayReply.told [Env] [UnicodeTables] {config : ServerConfig} {w : Surroundings}
    {name : String} {r : QueryRequest} {cs : CatalogState} {ts : Tables} {results : SearchResultsResponse}
    (h : Catalog.MayReply config w name r cs ts (.ok (.hits results))) :
    r.Told config.collection.execution w (ts.table name) results := by
  unfold Catalog.MayReply at h
  split at h
  · cases h
  · obtain ⟨_, heq, htold⟩ := h _ rfl
    cases heq
    exact htold

/-! ## The hits of a collection -/

section

variable [Floats] {query : Vector32} {vectors : VectorReader} {ids : List Uuid} {k : Nat}

/-- An index returns at most as many ids as it is asked for. -/
theorem VectorIndex.search_length_le {ix : VectorIndex} {quality : SearchConfig}
    {filter : Option (Metadata → Bool)} {metadatas : HashMap Uuid Metadata}
    (h : ix.search query k vectors quality filter metadatas = .ok ids) : ids.length ≤ k := by
  cases ix with
  | flat ix =>
      change ix.search query k vectors = .ok ids at h
      obtain ⟨scored, -, h⟩ := bind_eq_ok.mp h
      obtain ⟨ranked, -, h⟩ := bind_eq_ok.mp h
      cases h
      exact length_ranked ranked
  | hnsw ix => exact (HnswIndex.nodup_search h).2
  | ivf ix =>
      change ix.search query k vectors quality = .ok ids at h
      unfold IvfIndex.search at h
      split at h
      · cases h
      · obtain ⟨_, -, h⟩ := bind_eq_ok.mp h
        obtain ⟨_, -, h⟩ := bind_eq_ok.mp h
        obtain ⟨_, -, h⟩ := bind_eq_ok.mp h
        obtain ⟨ranked, -, h⟩ := bind_eq_ok.mp h
        cases h
        exact length_ranked ranked

end

section

variable [Env] {config : ServerConfig} {dom : VectorDomain} {c : Collection} {t : Table} {d : Disk}
  {order : HashOrder Uuid} {query : Vector32} {k : Nat} {metric : Metric} {hits : List Hit}

theorem Open.config_eq (h : Open config dom c (some t) d) : c.config = config.collection := by
  obtain ⟨g, hserving⟩ := h.serving
  exact hserving.live.memory.config

/-- A search without a filter shows documents of the table. -/
theorem Open.searched (h : Open config dom c (some t) d) {params : SearchParams} (hfilter : params.filter = none)
    (hret : c.searchCollection d order query k metric params = .ok hits) :
    hits.length ≤ k ∧ ∀ hit ∈ hits, t.Shows metric params.mode query (hitToResponse hit) := by
  unfold Collection.searchCollection at hret
  obtain ⟨ids, hids, hret⟩ := bind_eq_ok.mp hret
  obtain ⟨results, hresults, hret⟩ := bind_eq_ok.mp hret
  rw [hfilter] at hret
  cases hret
  obtain ⟨hlen, hhits⟩ := mapM_eq_ok hresults
  have hk : Collection.searchK k params (params.searchConfigOverride.getD c.config.search) = k := by
    unfold Collection.searchK
    simp [hfilter]
  refine ⟨?_, fun hit hhit => ?_⟩
  · rw [hlen, ← hk]
    exact VectorIndex.search_length_le hids
  · obtain ⟨id, -, hid⟩ := hhits hit hhit
    obtain ⟨rfl, doc, hdoc⟩ := Collection.reports_of_hit hid
    have hlive := hdoc.live
    rw [h.get] at hlive
    exact ⟨hit.id, doc, Except.ok.inj hlive, rfl, hdoc.text, hdoc.metadata, hdoc.score⟩

omit [Env] in
/-- The parameters of a request, with the defaults filled in. -/
theorem mode_requestParams (c : Collection) (overfetch : Option Nat) (cfg : SearchConfig) :
    (c.searchParams (c.requestParams overfetch cfg)).mode = c.config.execution := by
  unfold Collection.searchParams Collection.requestParams
  simp

variable {w : Surroundings} {name : String} {results : SearchResultsResponse}

/-- The hits of one search, as they are sent. -/
theorem Open.sent (h : Open config dom c (some t) d) {r : QueryRequest} {params : SearchParams}
    (hfilter : params.filter = none) (hmode : params.mode = config.collection.execution)
    (hret : c.searchCollection d order query r.k metric params = .ok hits)
    {sent : List Hit} (hsub : sent.Sublist hits) (hwants : ∀ hit ∈ sent, r.Wants (hitToResponse hit)) :
    (sent.map hitToResponse).length ≤ r.k ∧ ∀ hit ∈ sent.map hitToResponse,
      t.Shows metric config.collection.execution query hit ∧ r.Wants hit := by
  obtain ⟨hlen, hshows⟩ := h.searched hfilter hret
  rw [hmode] at hshows
  refine ⟨?_, fun hit hhit => ?_⟩
  · rw [List.length_map]
    exact hsub.length_le.trans hlen
  · obtain ⟨hit, hin, rfl⟩ := List.mem_map.mp hhit
    exact ⟨hshows hit (hsub.subset hin), hwants hit hin⟩

omit [Env] in
/-- The vector that a text search searches for. -/
theorem vectors_of_embed {req : TextSearchRequest} {embedding : Vector32}
    (h : (Service.queryState w c d).embed req.query = .ok embedding) :
    (QueryRequest.textSearch req).vectors w = .ok [embedding] := by
  unfold QueryState.embed Service.queryState at h
  unfold QueryRequest.vectors Service.embedder
  cases hembedder : w.embedder with
  | none =>
      rw [hembedder] at h
      cases h
  | some embed =>
      rw [hembedder] at h
      cases hresponse : embed 0 req.query with
      | error e =>
          simp only [Option.map_some, hresponse] at h
          cases h
      | ok response =>
          simp only [Option.map_some, hresponse] at h
          cases h
          change (embed 0 req.query).mapError Fault.error >>= (fun response =>
            pure [response.embedding]) = _
          rw [hresponse]
          rfl

/-- One search, with the defaults of `Collection::search` filled in. -/
theorem Open.searchSent (h : Open config dom c (some t) d) {r : QueryRequest} {overfetch : Option Nat}
    {cfg : SearchConfig} (hret : c.search d order query r.k metric (c.requestParams overfetch cfg) = .ok hits)
    {sent : List Hit} (hsub : sent.Sublist hits) (hwants : ∀ hit ∈ sent, r.Wants (hitToResponse hit)) :
    (sent.map hitToResponse).length ≤ r.k ∧ ∀ hit ∈ sent.map hitToResponse,
      t.Shows metric config.collection.execution query hit ∧ r.Wants hit := by
  have hmode : (c.searchParams (c.requestParams overfetch cfg)).mode = config.collection.execution := by
    rw [mode_requestParams, h.config_eq]
  exact h.sent rfl hmode hret hsub hwants

variable [Lowercase]

theorem Open.searchByText_told (h : Open config dom c (some t) d) {req : TextSearchRequest}
    (hret : searchByText (Service.queryState w c d) order name req = .ok results) :
    (QueryRequest.textSearch req).Told config.collection.execution w t results := by
  unfold searchByText at hret
  obtain ⟨_, -, hret⟩ := bind_eq_ok.mp hret
  obtain ⟨_, hfound, hret⟩ := bind_eq_ok.mp hret
  cases hfound
  obtain ⟨embedding, hembedding, hret⟩ := bind_eq_ok.mp hret
  obtain ⟨metric, hmetric, hret⟩ := bind_eq_ok.mp hret
  obtain ⟨cfg, -, hret⟩ := bind_eq_ok.mp hret
  obtain ⟨hits, hhits, hret⟩ := bind_eq_ok.mp hret
  cases hret
  refine ⟨[embedding], metric, vectors_of_embed hembedding, hmetric, .cons ?_ .nil⟩
  exact h.searchSent (r := .textSearch req) hhits (List.Sublist.refl _) fun _ _ => nofun

variable [UnicodeTables]

theorem Open.searchVectors_told (h : Open config dom c (some t) d) {req : SearchRequest}
    (hret : searchVectors (Service.queryState w c d) order name req = .ok results) :
    (QueryRequest.search req).Told config.collection.execution w t results := by
  unfold searchVectors at hret
  obtain ⟨_, -, hret⟩ := bind_eq_ok.mp hret
  obtain ⟨_, -, hret⟩ := bind_eq_ok.mp hret
  obtain ⟨_, hfound, hret⟩ := bind_eq_ok.mp hret
  cases hfound
  obtain ⟨metric, hmetric, hret⟩ := bind_eq_ok.mp hret
  obtain ⟨cfg, -, hret⟩ := bind_eq_ok.mp hret
  simp only [QueryRequest.Told, QueryRequest.vectors, SearchRequest.queries]
  cases hvector : req.vector with
  | none =>
      cases hvectors : req.vectors with
      | none =>
          rw [hvector, hvectors] at hret
          cases hret
      | some queries =>
          rw [hvector, hvectors] at hret
          obtain ⟨_, hsize, hret⟩ := bind_eq_ok.mp hret
          obtain ⟨_, hvalid, hret⟩ := bind_eq_ok.mp hret
          obtain ⟨found, hfound, hret⟩ := bind_eq_ok.mp hret
          cases hret
          have heach : List.Forall₂ (fun query hits => c.searchCollection d order query req.k metric
              (c.requestParams req.overfetch cfg) = .ok hits) queries found := forall₂_of_mapM hfound
          refine ⟨queries, metric, ?_, hmetric, ?_⟩
          · simp only [hsize, hvalid]
            rfl
          · refine List.forall₂_map_right_iff.mpr (heach.imp fun query hits hhits => ?_)
            exact h.sent (r := .search req) rfl (h.config_eq ▸ rfl) hhits (List.Sublist.refl _)
              fun _ _ => nofun
  | some vector =>
      cases hvectors : req.vectors with
      | none =>
          rw [hvector, hvectors] at hret
          obtain ⟨_, hvalid, hret⟩ := bind_eq_ok.mp hret
          obtain ⟨hits, hhits, hret⟩ := bind_eq_ok.mp hret
          cases hret
          refine ⟨[vector], metric, ?_, hmetric, .cons ?_ .nil⟩
          · simp only [hvalid]
            rfl
          · exact h.searchSent (r := .search req) hhits (List.Sublist.refl _) fun _ _ => nofun
      | some queries =>
          rw [hvector, hvectors] at hret
          cases hret

theorem Open.rangeSearchVectors_told (h : Open config dom c (some t) d) {req : RangeSearchRequest}
    (hret : rangeSearchVectors (Service.queryState w c d) order name req = .ok results) :
    (QueryRequest.rangeSearch req).Told config.collection.execution w t results := by
  unfold rangeSearchVectors at hret
  obtain ⟨_, -, hret⟩ := bind_eq_ok.mp hret
  obtain ⟨_, -, hret⟩ := bind_eq_ok.mp hret
  obtain ⟨_, -, hret⟩ := bind_eq_ok.mp hret
  obtain ⟨_, hfound, hret⟩ := bind_eq_ok.mp hret
  cases hfound
  obtain ⟨metric, hmetric, hret⟩ := bind_eq_ok.mp hret
  obtain ⟨cfg, -, hret⟩ := bind_eq_ok.mp hret
  obtain ⟨hits, hhits, hret⟩ := bind_eq_ok.mp hret
  cases hret
  refine ⟨[req.vector], metric, rfl, hmetric, .cons ?_ .nil⟩
  refine h.searchSent (r := .rangeSearch req) hhits List.filter_sublist fun hit hhit req' hreq => ?_
  cases hreq
  exact (List.mem_filter.mp hhit).2

/-- What the three services answer from a collection that is open. -/
theorem Open.told (h : Open config dom c (some t) d) {r : QueryRequest}
    (hret : r.serve (Service.queryState w c d) order name = .ok results) :
    r.Told config.collection.execution w t results := by
  cases r with
  | search req => exact h.searchVectors_told hret
  | rangeSearch req => exact h.rangeSearchVectors_told hret
  | textSearch req => exact h.searchByText_told hret

end

/-! ## The services -/

section

variable [Env] [LawfulEnv] [BareEntries] [UnicodeTables] {config : ServerConfig}
  {doms : String → VectorDomain} {st : AppState} {disks : Family String Disk} {cs : CatalogState}
  {ts : Tables} {w : Surroundings} {name : String} {r : QueryRequest}

/-- The catalog finds no collection where the server finds none, and tells the same of it. -/
theorem Service.matches_locate (hconfig : config.Serviceable doms) (h : Stands config doms st disks cs ts) :
    Matches (locate config name r) (Catalog.prepare name r) (KeptAll doms)
      (fun handle st' disks' _ cs' ts' => Found config doms name handle st' disks' cs' ts')
      (Refused config doms) st disks cs ts :=
  matches_bind (matches_ensureAvailable h (matches_bind (matches_check h fun _ _ =>
    matches_getExisting hconfig h)))

/-- A query is told what the catalog allows. No table changes. -/
theorem Service.wp_query [Lowercase] (hconfig : config.Serviceable doms) (h : Stands config doms st disks cs ts) :
    wp (query config w name r) (fun disks' => KeptAll doms disks' ts)
      (fun response st' disks' => Stands config doms st' disks' (Catalog.prepare name r cs ts).state ts ∧
        Catalog.MayReply config w name r cs ts (.ok response))
      (fun e st' disks' => Stands config doms st' disks' (Catalog.prepare name r cs ts).state ts ∧
        Catalog.MayReply config w name r cs ts (.error e)) st disks := by
  have hfinal : (Catalog.prepare name r).final cs ts = ts :=
    (Catalog.keeps_prepare (I := (· = ts))).final rfl
  unfold Catalog.MayReply
  refine wp_bind.mpr (wp_mono (matches_locate hconfig h) ?_ ?_ ?_)
  · rintro disks' ⟨j, hkept⟩
    have hcrash : (Catalog.prepare name r).crash j cs ts = ts :=
      (Catalog.keeps_prepare (I := (· = ts))).crash rfl j
    rw [hcrash] at hkept
    exact hkept
  · rintro handle st' disks' ⟨⟨⟩, hok, hfound⟩
    rw [hfinal] at hfound
    obtain ⟨c, hc, hopen⟩ := found_open hfound
    rw [hok]
    refine wp_bind.mpr (wp_bind.mpr (wp_bind.mpr (wp_asks.mpr ?_)))
    rw [id, hc]
    refine wp_pure.mpr (wp_bind.mpr (wp_device.mpr (wp_ofExcept.mpr ⟨fun results hresults => ?_, fun e _ => ?_⟩)))
    · refine wp_pure.mpr ⟨hfound.stands, fun response hresponse => ?_⟩
      cases hresponse
      exact ⟨results, rfl, hopen.told hresults⟩
    · exact ⟨hfound.stands, nofun⟩
  · rintro e st' disks' ⟨e', he', rfl, hstands⟩
    rw [hfinal] at hstands
    rw [he']
    exact ⟨hstands, rfl⟩

end
