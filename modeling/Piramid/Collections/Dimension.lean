-- SUMMARY: Which queries a collection can be searched for without a panic, whatever is in it.
import Piramid.Collections.Reopen
import Piramid.Index.Dimension
import Piramid.Index.Distinct

/-!
# The length of a query to a collection

The index compares the query with cached vectors and with centroids, and the hits are
scored with stored vectors. No search compares the length of the query with the
dimension of the collection. With vectors and queries of one length, it is the sorts by
score that are left to panic.
-/

open Loop

section

variable [Env] {c : Collection} {d : Disk} {t : Table} {query : Vector32} {k dim : Nat}
  {metric : Metric} {params : SearchParams} {order : HashOrder Uuid}

namespace Collection

/-- All that a search can compare the query with has its length. -/
structure Matches (c : Collection) (d : Disk) (query : Vector32) : Prop where
  mode : c.vectorIndex.mode.Implemented
  cached : ∀ id v, c.cache.vectors.lookup id = some v → v.length = query.length
  centroids : ∀ v ∈ c.vectorIndex.centroids, v.length = query.length
  stored : ∀ id doc, c.get d id = .ok (some doc) → doc.vector.length = query.length

/-- A search has nothing to compare the query with, or nothing of another length. -/
def Takes (c : Collection) (d : Disk) (query : Vector32) : Prop :=
  c.vectorIndex.Idle ∨ c.Matches d query

/-- A search has nothing to compare the query with, or can sort by the scores that it comes to. -/
def Sorts (c : Collection) (order : HashOrder Uuid) (query : Vector32) : Prop :=
  c.vectorIndex.Idle ∨ c.vectorIndex.SortsScores (c.cache.reader order) query

/-- Different documents can be sorted by their scores, if there is a filter and it lets them
pass. -/
def SortsHits (c : Collection) (d : Disk) (query : Vector32) (metric : Metric)
    (params : SearchParams) : Prop :=
  ∀ filter, params.filter = some filter → ∀ ids : List Uuid, ids.Nodup →
    ∀ results, ids.mapM (c.hit d query metric params.mode) = .ok results →
      Sortable .descending ((results.filter fun hit => filter hit.metadata).map Hit.score)

/-- All vectors and centroids have one length. -/
structure Shaped (c : Collection) (dim : Nat) : Prop where
  cached : ∀ id v, c.cache.vectors.lookup id = some v → v.length = dim
  centroids : ∀ v ∈ c.vectorIndex.centroids, v.length = dim

/-! ## Queries that are taken -/

theorem settles_get (c : Collection) (d : Disk) (id : Uuid) :
    Faults Fault.IsError (c.get d id) := by
  unfold get
  split
  · exact .ok _
  · refine Faults.map ?_
    unfold RecordStore.readDocument
    split
    · exact .error ⟨_, rfl⟩
    · split
      · exact .error ⟨_, rfl⟩
      · exact .ok _

theorem settles_hit (hmode : params.mode.Implemented) {id : Uuid}
    (hstored : ∀ doc, c.get d id = .ok (some doc) → doc.vector.length = query.length) :
    Faults Fault.IsError (c.hit d query metric params.mode id) := by
  unfold hit
  refine (c.settles_get d id).bind fun found hfound => ?_
  cases found with
  | none => exact .error ⟨_, rfl⟩
  | some doc =>
      obtain ⟨x, hx⟩ := metric.calculate_ok hmode (hstored doc hfound).symm
      change Faults _ (metric.calculate query doc.vector params.mode >>= _)
      rw [hx]
      exact .ok _

omit [Env] in
theorem settles_sortAndTruncate [Floats] {results : List Hit}
    (h : Sortable .descending (results.map Hit.score)) (k : Nat) :
    Faults Fault.IsError (sortAndTruncate results k) := by
  obtain ⟨sorted, hsorted⟩ := sortBy_returns_iff.mpr h
  unfold sortAndTruncate
  rw [hsorted]
  exact .ok _

omit [Env] in
theorem sortAndTruncate_nil [Floats] (k : Nat) : sortAndTruncate [] k = .ok [] := by
  unfold sortAndTruncate
  rw [sortBy_nil]
  exact congrArg Except.ok List.take_nil

/-- Any collection, whether its parts agree or not. -/
theorem Takes.settles_hits (h : c.Takes d query) (hsorts : c.Sorts order query)
    (hmode : params.mode.Implemented) {quality : SearchConfig}
    {finish : List Hit → Except Fault (List Hit)}
    (hfinish : ∀ ids, c.vectorIndex.search query k (c.cache.reader order) quality params.filter
        c.cache.metadata = .ok ids →
      ∀ results, ids.mapM (c.hit d query metric params.mode) = .ok results →
        Faults Fault.IsError (finish results)) :
    Faults Fault.IsError (do
      let ids ← c.vectorIndex.search query k (c.cache.reader order) quality params.filter c.cache.metadata
      let results ← ids.mapM (c.hit d query metric params.mode)
      finish results) := by
  by_cases hidle : c.vectorIndex.Idle
  · refine (VectorIndex.settles_idle hidle).bind fun ids hids => ?_
    have hnone := VectorIndex.search_idle hidle hids
    subst hnone
    exact hfinish [] hids [] rfl
  · have hmatches := h.resolve_left hidle
    have hcached : (c.cache.reader order).Uniform query.length := hmatches.cached
    refine (VectorIndex.settles_search hmatches.mode hcached hmatches.centroids
      (hsorts.resolve_left hidle)).bind fun ids hids => ?_
    refine Faults.bind (.mapM fun id _ => ?_) fun results hresults => hfinish ids hids results hresults
    exact settles_hit hmode (hmatches.stored id)

/-- Without a filter the hits are not sorted. -/
theorem Takes.settles_search (h : c.Takes d query) (hsorts : c.Sorts order query)
    (hmode : params.mode.Implemented) (hfilter : params.filter = none) :
    Faults Fault.IsError (c.searchCollection d order query k metric params) := by
  unfold searchCollection
  refine h.settles_hits hsorts hmode fun ids _ results _ => ?_
  rw [hfilter]
  exact .ok _

end Collection

/-! ## The other queries -/

namespace Coherent

theorem cached_tracked (h : Coherent c d t) :
    ∀ id ∈ c.vectorIndex.trackedIds, ((c.cache.reader order).get id).isSome := by
  intro id hid
  rw [h.cached.tracked] at hid
  obtain ⟨doc, hdoc⟩ := (HashMap.mem_keys_iff t id).mp hid
  exact Option.isSome_iff_exists.mpr ⟨_, h.cached.mirrors.vectors id doc hdoc⟩

/-- With anything to compare the query with, only a comparison or a sort can fail. -/
theorem fails_search (h : Coherent c d t) (hidle : ¬c.vectorIndex.Idle) :
    Faults Fault.IsPanic (c.searchCollection d order query k metric params) := by
  unfold Collection.searchCollection
  refine (VectorIndex.fails_search h.cached.intact hidle h.cached_tracked).bind fun ids hids => ?_
  refine Faults.bind (.mapM fun id hid => ?_) fun results _ => ?_
  · have htracked := VectorIndex.search_tracked h.cached.intact hids id hid
    rw [h.cached.tracked] at htracked
    obtain ⟨doc, hdoc⟩ := (HashMap.mem_keys_iff t id).mp htracked
    unfold Collection.hit
    rw [h.held.get, hdoc]
    exact (metric.panics_calculate _ _ _).bind fun _ _ => .ok _
  · split
    · exact (faults_sortBy Fault.isPanic_disorder _ _ _).bind fun _ _ => .ok _
    · exact .ok _

theorem returns_of_settles (h : Coherent c d t) (hidle : ¬c.vectorIndex.Idle)
    (hsettles : Faults Fault.IsError (c.searchCollection d order query k metric params)) :
    ∃ hits, c.searchCollection d order query k metric params = .ok hits := by
  refine ok_of_faults hsettles (h.fails_search hidle) ?_
  rintro e ⟨err, rfl⟩ ⟨msg, hmsg⟩
  cases hmsg

theorem returns_search (h : Coherent c d t) (hidle : ¬c.vectorIndex.Idle) (htakes : c.Takes d query)
    (hsorts : c.Sorts order query) (hhits : c.SortsHits d query metric params)
    (hmode : params.mode.Implemented) :
    ∃ hits, c.searchCollection d order query k metric params = .ok hits := by
  refine h.returns_of_settles hidle (htakes.settles_hits hsorts hmode fun ids hids results hresults => ?_)
  split
  · rename_i filter hfilter
    have hnodup := (VectorIndex.nodup_search h.cached.intact hids).1
    exact Collection.settles_sortAndTruncate (hhits filter hfilter ids hnodup results hresults) k
  · exact .ok _

/-- Where all vectors have one length, a query of that length is taken. -/
theorem takes (h : Coherent c d t) (hshaped : c.Shaped query.length)
    (hmode : c.vectorIndex.mode.Implemented) : c.Takes d query := by
  refine .inr ⟨hmode, hshaped.cached, hshaped.centroids, fun id doc hget => ?_⟩
  rw [h.held.get] at hget
  have hdoc : t.lookup id = some doc := Except.ok.inj hget
  exact hshaped.cached id doc.vector (h.cached.mirrors.vectors id doc hdoc)

theorem search_panics (h : Coherent c d t) (hshaped : c.Shaped dim) (htakes : ¬c.Takes d query)
    (hfilter : params.filter = none) :
    Panics (c.searchCollection d order query k metric params) := by
  have hidle : ¬c.vectorIndex.Idle := fun hidle => htakes (.inl hidle)
  have hwrong : ¬c.vectorIndex.mode.Implemented ∨ query.length ≠ dim := by
    by_contra hnot
    obtain ⟨hmode, hlen⟩ := not_or.mp hnot
    rw [Decidable.not_not] at hmode hlen
    exact htakes (h.takes (hlen ▸ hshaped) hmode)
  unfold Collection.searchCollection
  rw [hfilter]
  exact (VectorIndex.search_panics h.cached.intact h.cached_tracked hidle hshaped.cached
    hshaped.centroids hwrong).bind _

/-- A flat index that returns has sorted the scores of all its ids. -/
theorem sorts_of_search {hits : List Hit} (hflat : c.vectorIndex.indexType = .flat)
    (hret : c.searchCollection d order query k metric params = .ok hits) : c.Sorts order query := by
  obtain ⟨ids, hids, -⟩ := bind_eq_ok.mp hret
  refine .inr ?_
  cases hix : c.vectorIndex with
  | flat ix =>
      rw [hix] at hids
      exact FlatIndex.sortsScores_of_search hids
  | hnsw ix =>
      rw [hix] at hflat
      cases hflat
  | ivf ix =>
      rw [hix] at hflat
      cases hflat

/-- A query that the collection takes, with scores that can be sorted. Whether they can is settled
by the search itself in a flat index, which scores all its ids. -/
theorem answered_of_settles (h : Coherent c d t) (hshaped : c.Shaped dim) (hfilter : params.filter = none)
    (hsettles : Faults Fault.IsError (c.searchCollection d order query k metric params)) :
    c.Takes d query ∧ (c.vectorIndex.indexType = .flat → c.Sorts order query) := by
  constructor
  · by_contra htakes
    exact (h.search_panics hshaped htakes hfilter).not_settled hsettles
  · intro hflat
    by_cases hidle : c.vectorIndex.Idle
    · exact .inl hidle
    · obtain ⟨hits, hret⟩ := h.returns_of_settles hidle hsettles
      exact sorts_of_search hflat hret

/-- The first query of a batch that is not taken is reached. -/
theorem answered_of_settles_batch (h : Coherent c d t) (hshaped : c.Shaped dim)
    (hfilter : params.filter = none) {queries : List Vector32}
    (hsettles : Faults Fault.IsError (c.searchBatchCollection d order queries k metric params)) :
    ∀ query ∈ queries,
      c.Takes d query ∧ (c.vectorIndex.indexType = .flat → c.Sorts order query) := by
  by_cases hidle : c.vectorIndex.Idle
  · exact fun query _ => ⟨.inl hidle, fun _ => .inl hidle⟩
  unfold Collection.searchBatchCollection at hsettles
  induction queries with
  | nil => simp
  | cons query queries ih =>
      rw [List.mapM_cons] at hsettles
      have hfirst := hsettles.of_bind
      obtain ⟨hits, hhits⟩ := h.returns_of_settles hidle hfirst
      rw [Faults.bind_iff hfirst] at hsettles
      exact List.forall_mem_cons.mpr
        ⟨h.answered_of_settles hshaped hfilter hfirst, ih (hsettles hits hhits).of_bind⟩

end Coherent

end
