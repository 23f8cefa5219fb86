-- SUMMARY: Which queries a search can compare with the vectors of an index and sort by, and what it does with the others.
import Piramid.Index.Reach

/-!
# The length of a query

Every kernel asserts that its two vectors have one length. A search compares the
query with vectors of the reader and with centroids, and does not look at lengths
before. Nor does it look at the scores before it sorts by them.
-/

open Loop

/-- An `Err`: neither a panic nor a call that does not end. -/
def Fault.IsError (e : Fault) : Prop := ∃ err, e = .error err

namespace Loop

variable {α β : Type}

/-- The computation ends with a panic. -/
def Panics (x : Except Fault α) : Prop := ∃ msg, x = .error (.panic msg)

theorem Panics.bind {x : Except Fault α} (h : Panics x) (f : α → Except Fault β) :
    Panics (x >>= f) := by
  obtain ⟨msg, rfl⟩ := h
  exact ⟨msg, rfl⟩

theorem Panics.not_settled {x : Except Fault α} (h : Panics x) : ¬Faults Fault.IsError x := by
  obtain ⟨msg, rfl⟩ := h
  intro hsettled
  obtain ⟨err, herr⟩ := hsettled _ rfl
  cases herr

end Loop

section

variable [Floats] {query : Vector32} {vectors : VectorReader} {dim : Nat}

theorem Compute.dispatch_panics {name : String} {kernel : ExecutionMode → Vector32 → Vector32 → F32}
    {a b : Vector32} {mode : ExecutionMode} (h : ¬mode.Implemented ∨ a.length ≠ b.length) :
    Panics (dispatch name kernel a b mode) := by
  unfold dispatch
  split
  · exact ⟨_, rfl⟩
  · rename_i hresolved
    rcases h with hmode | hlen
    · rw [Decidable.not_not.mp hmode] at hresolved
      exact absurd rfl hresolved
    · rw [if_neg hlen]
      exact ⟨_, rfl⟩

theorem Metric.calculate_panics (metric : Metric) {a b : Vector32} {mode : ExecutionMode}
    (h : ¬mode.Implemented ∨ a.length ≠ b.length) : Panics (metric.calculate a b mode) := by
  cases metric with
  | cosine => exact Compute.dispatch_panics h
  | dotProduct => exact Compute.dispatch_panics h
  | euclidean => exact (Compute.dispatch_panics h).bind _

namespace VectorReader

variable {name : String} {metric : Metric} {mode : ExecutionMode} {id : Uuid}

theorem settles_score (hmode : mode.Implemented)
    (hlen : ∀ v, vectors.get id = some v → v.length = query.length) :
    Faults Fault.IsError (vectors.score name metric mode query id) := by
  unfold score
  split
  · exact .error ⟨_, rfl⟩
  · rename_i v hv
    obtain ⟨x, hx⟩ := metric.calculate_ok hmode (hlen v hv).symm
    simp only [hx]
    exact .ok _

theorem fails_score (hid : (vectors.get id).isSome) :
    Faults Fault.IsPanic (vectors.score name metric mode query id) := by
  obtain ⟨v, hv⟩ := Option.isSome_iff_exists.mp hid
  unfold score
  rw [hv]
  exact (metric.panics_calculate _ _ _).bind fun _ _ => .ok _

theorem score_panics {v : Vector32} (hv : vectors.get id = some v)
    (h : ¬mode.Implemented ∨ query.length ≠ v.length) :
    Panics (vectors.score name metric mode query id) := by
  unfold score
  rw [hv]
  exact (metric.calculate_panics h).bind _

end VectorReader

theorem panics_sortByScore {α : Type} (scored : List (α × F32)) :
    Faults Fault.IsPanic (sortByScore scored) :=
  faults_sortBy Fault.isPanic_disorder _ _ scored

theorem settles_sortByScore {α : Type} {scored : List (α × F32)}
    (h : Sortable .descending (scored.map Prod.snd)) : Faults Fault.IsError (sortByScore scored) := by
  obtain ⟨sorted, hsorted⟩ := sortBy_returns_iff.mpr h
  unfold sortByScore
  rw [hsorted]
  exact .ok _

/-- A search can sort the scores of these ids. -/
def VectorReader.SortsScores (vectors : VectorReader) (name : String) (metric : Metric)
    (mode : ExecutionMode) (query : Vector32) (ids : List Uuid) : Prop :=
  ∀ scored, ids.mapM (vectors.score name metric mode query) = .ok scored →
    Sortable .descending (scored.map Prod.snd)

/-- A short list is sorted whatever the scores are. -/
theorem VectorReader.sortsScores_of_few {name : String} {metric : Metric} {mode : ExecutionMode}
    {ids : List Uuid} (h : ids.length ≤ SliceSort.maxInsertion) :
    vectors.SortsScores name metric mode query ids := by
  intro scored hscored
  refine .inr (.inl ?_)
  rw [List.length_map, (mapM_eq_ok hscored).1]
  exact h

/-- Without kernels, there are no scores. -/
theorem VectorReader.sortsScores_of_gpu {name : String} {metric : Metric} {mode : ExecutionMode}
    (hmode : ¬mode.Implemented) (ids : List Uuid) :
    vectors.SortsScores name metric mode query ids := by
  intro scored hscored
  cases ids with
  | nil =>
      cases hscored
      exact .inr (.inl (Nat.zero_le _))
  | cons id ids =>
      rw [List.mapM_cons] at hscored
      obtain ⟨entry, hentry, -⟩ := bind_eq_ok.mp hscored
      cases hget : vectors.get id with
      | none =>
          unfold score at hentry
          rw [hget] at hentry
          cases hentry
      | some v =>
          have hpanics : Panics (vectors.score name metric mode query id) :=
            score_panics hget (.inl hmode)
          obtain ⟨msg, hmsg⟩ := hpanics
          rw [hmsg] at hentry
          cases hentry

/-! ## Flat -/

namespace FlatIndex

variable {ix : FlatIndex} {k : Nat}

/-- The scores of the listed ids can be sorted. -/
def SortsScores (ix : FlatIndex) (vectors : VectorReader) (query : Vector32) : Prop :=
  vectors.SortsScores "Flat" ix.config.metric ix.config.mode query ix.vectorIds

theorem settles_search (hmode : ix.config.mode.Implemented) (hv : vectors.Uniform query.length)
    (hsorts : ix.SortsScores vectors query) :
    Faults Fault.IsError (ix.search query k vectors) := by
  unfold search
  refine Faults.bind (.mapM fun id _ => ?_) fun scored hscored => ?_
  · exact VectorReader.settles_score hmode (hv id)
  · exact (settles_sortByScore (hsorts scored hscored)).bind fun _ _ => .ok _

/-- A search that returns has sorted the scores. -/
theorem sortsScores_of_search {ids : List Uuid} (hret : ix.search query k vectors = .ok ids) :
    ix.SortsScores vectors query := by
  intro scored hscored
  unfold search at hret
  obtain ⟨scored', hscored', hret⟩ := bind_eq_ok.mp hret
  obtain ⟨sorted, hsorted, -⟩ := bind_eq_ok.mp hret
  cases hscored.symm.trans hscored'
  exact sortBy_returns_iff.mp ⟨sorted, hsorted⟩

theorem search_nil (hids : ix.vectorIds = []) : ix.search query k vectors = .ok [] := by
  unfold search sortByScore
  rw [hids]
  change (sortBy .descending Prod.snd ([] : List (Uuid × F32)) >>= _) = _
  rw [sortBy_nil]
  exact congrArg Except.ok (congrArg (List.map Prod.fst) List.take_nil)

theorem search_panics {id : Uuid} {ids : List Uuid} {v : Vector32} (hids : ix.vectorIds = id :: ids)
    (hv : vectors.get id = some v) (h : ¬ix.config.mode.Implemented ∨ query.length ≠ v.length) :
    Panics (ix.search query k vectors) := by
  unfold search
  rw [hids, List.mapM_cons]
  exact ((VectorReader.score_panics hv h).bind _).bind _

/-- Where no vector is missing, nothing but a comparison or a sort can fail. -/
theorem fails_search (hvectors : ∀ id ∈ ix.vectorIds, (vectors.get id).isSome) :
    Faults Fault.IsPanic (ix.search query k vectors) := by
  unfold search
  refine Faults.bind (.mapM fun id hid => ?_) fun scored _ => ?_
  · exact VectorReader.fails_score (hvectors id hid)
  · exact (panics_sortByScore scored).bind fun _ _ => .ok _

end FlatIndex

/-! ## HNSW -/

namespace HnswIndex

variable {ix : HnswIndex} {context : SearchContext} {filter : Option (Metadata → Bool)}
  {metadatas : HashMap Uuid Metadata} {k ef : Nat}

theorem distance_panics (ix : HnswIndex) {a b : Vector32}
    (h : ¬ix.config.mode.Implemented ∨ a.length ≠ b.length) : Panics (ix.distance a b) := by
  unfold distance
  split
  · exact (Metric.calculate_panics _ h).bind _
  · exact (Metric.calculate_panics _ h).bind _
  · exact Metric.calculate_panics _ h

theorem settles_search (hmode : ix.config.mode.Implemented) (hv : vectors.Uniform query.length)
    (hsorts : ix.SortsFound vectors query) :
    Faults Fault.IsError (ix.search query k ef vectors filter metadatas) := by
  unfold search
  split
  · exact .ok _
  rename_i ep _
  split
  · exact .error ⟨_, rfl⟩
  have hlayer : ∀ {entry : List Uuid}, entry.Nodup → ∀ n level, Returns (fun ids : List Uuid => ids.Nodup)
      (ix.searchLayer query entry n level ⟨vectors, filter, metadatas⟩) := fun hentry n level =>
    (HnswIndex.searchLayer_returns hmode hv hsorts hentry n level).mono fun _ hids => hids.2
  have hdescend := foldlM_returns
    (f := fun nearest lc => ix.searchLayer query nearest 1 lc ⟨vectors, filter, metadatas⟩)
    (fun _ (nearest : List Uuid) => nearest.Nodup) (l := (List.range' 1 ix.topLayer).reverse)
    (b := [ep])
    (fun lc _ nearest hentry => hlayer hentry 1 lc)
    (List.nodup_singleton ep)
  have hsearch : Returns (fun _ => True) (do
      let currentNearest ← (List.range' 1 ix.topLayer).reverse.foldlM
        (fun nearest lc => ix.searchLayer query nearest 1 lc ⟨vectors, filter, metadatas⟩) [ep]
      let currentNearest ← ix.searchLayer query currentNearest (max ef k) 0
        ⟨vectors, filter, metadatas⟩
      pure ((currentNearest.filter fun id => !ix.isTombstone id).take k)) := by
    refine Returns.bind hdescend fun entry hentry => ?_
    exact (hlayer hentry (max ef k) 0).bind fun _ _ => .ok trivial
  exact hsearch.faults

/-- A layer search without a filter compares the query with its first entry point. -/
theorem searchLayer_panics {ep : Uuid} {v : Vector32} {numClosest level : Nat}
    (hv : vectors.get ep = some v) (h : ¬ix.config.mode.Implemented ∨ query.length ≠ v.length) :
    Panics (ix.searchLayer query [ep] numClosest level ⟨vectors, none, metadatas⟩) := by
  unfold searchLayer traverseLayer
  rw [List.foldlM_cons]
  refine Panics.bind (Panics.bind (Panics.bind ?_ _) _) _
  unfold enterAt
  simp only [hv]
  exact (ix.distance_panics h).bind _

theorem search_panics {ep : Uuid} {v : Vector32} (hstart : ix.startNode = some ep)
    (hv : vectors.get ep = some v) (h : ¬ix.config.mode.Implemented ∨ query.length ≠ v.length) :
    Panics (ix.search query k ef vectors none metadatas) := by
  unfold search
  rw [hstart]
  simp only [hv, Option.isNone_some, Bool.false_eq_true, if_false]
  cases hlayers : (List.range' 1 ix.topLayer).reverse with
  | nil => exact (searchLayer_panics hv h).bind _
  | cons lc layers =>
      rw [List.foldlM_cons]
      exact ((searchLayer_panics hv h).bind _).bind _

theorem ends_traverseLayer {P : Fault → Prop} (hdist : ∀ a b, Faults P (ix.distance a b))
    (entryPoints : List Uuid) (numClosest level : Nat) :
    Faults P (ix.traverseLayer query entryPoints numClosest level context) := by
  unfold traverseLayer
  refine Faults.bind (.foldlM fun ep _ st => faults_enterAt hdist ep) fun st hloop => ?_
  refine ends_exploreLayer hdist ?_
  have hlen := work_entered hloop
  have hcard : (context.vectors.vectors.keys \ st.visited).card ≤ context.vectors.len :=
    Finset.card_le_card Finset.sdiff_subset
  unfold work
  simp only [List.length_nil] at hlen ⊢
  omega

theorem ends_searchLayer {P : Fault → Prop} (hdist : ∀ a b, Faults P (ix.distance a b))
    (hdisorder : P .disorder) (entryPoints : List Uuid) (numClosest level : Nat) :
    Faults P (ix.searchLayer query entryPoints numClosest level context) := by
  unfold searchLayer
  refine (ends_traverseLayer hdist entryPoints numClosest level).bind fun st _ => ?_
  exact (faults_sortBy hdisorder _ _ _).bind fun _ _ => .ok _

theorem fails_searchLayer (entryPoints : List Uuid) (numClosest level : Nat) :
    Faults Fault.IsPanic (ix.searchLayer query entryPoints numClosest level context) :=
  ends_searchLayer ix.panics_distance Fault.isPanic_disorder entryPoints numClosest level

theorem fails_search (hentered : ix.Entered)
    (hvectors : ∀ id ∈ ix.trackedIds, (vectors.get id).isSome) :
    Faults Fault.IsPanic (ix.search query k ef vectors filter metadatas) := by
  unfold search
  split
  · exact .ok _
  rename_i ep hstart
  split
  · rename_i hnone
    have hsome := hvectors ep (hentered ep hstart)
    rw [Option.isNone_iff_eq_none.mp hnone] at hsome
    cases hsome
  refine Faults.bind (.foldlM fun lc _ entry => fails_searchLayer _ _ _) fun entry _ => ?_
  exact (fails_searchLayer _ _ _).bind fun _ _ => .ok _

end HnswIndex

/-! ## IVF -/

namespace IvfIndex

variable {ix : IvfIndex} {k : Nat} {quality : SearchConfig}

/-- Every centroid gets one score. -/
theorem places_scoreCentroids {scores : List (Nat × F32)} (hret : ix.scoreCentroids query = .ok scores) :
    scores.map Prod.fst = List.range' 0 ix.centroids.length := by
  have hplaces : ∀ (entries : List (Vector32 × Nat)) (scores : List (Nat × F32)),
      (entries.mapM fun entry => do
        let score ← ix.config.metric.calculate query entry.1 ix.config.mode
        pure (entry.2, score)) = Except.ok scores → scores.map Prod.fst = entries.map Prod.snd := by
    intro entries
    induction entries with
    | nil =>
        intro scores h
        cases h
        rfl
    | cons entry entries ih =>
        intro scores h
        rw [List.mapM_cons] at h
        obtain ⟨first, hfirst, h⟩ := bind_eq_ok.mp h
        obtain ⟨rest, hrest, h⟩ := bind_eq_ok.mp h
        obtain ⟨score, -, hfirst⟩ := bind_eq_ok.mp hfirst
        cases h
        cases hfirst
        rw [List.map_cons, ih rest hrest, List.map_cons]
  rw [hplaces _ _ hret, List.zipIdx_map_snd]

omit [Floats] in
/-- Probing lists by their places in order. -/
theorem flatMap_range (lists : List (List Uuid)) (n : Nat) :
    (List.range n).flatMap (fun i => (lists[i]?).getD []) = (lists.take n).flatten := by
  induction n generalizing lists with
  | zero => simp
  | succ n ih =>
      cases lists with
      | nil => simp
      | cons l lists =>
          rw [List.range_succ_eq_map, List.flatMap_cons, List.flatMap_map, List.take_succ_cons,
            List.flatten_cons]
          exact congrArg (l ++ ·) (ih lists)

/-- A search probes no list twice. -/
theorem probe_subperm {scores centroids : List (Nat × F32)} (hscores : ix.scoreCentroids query = .ok scores)
    (hranked : sortByScore scores = .ok centroids) (nprobe : Nat) :
    (ix.probe centroids nprobe).Subperm ix.invertedLists.flatten := by
  let list := fun i : Nat => (ix.invertedLists[i]?).getD []
  have hall : (scores.flatMap fun entry => list entry.1) =
      (ix.invertedLists.take ix.centroids.length).flatten := by
    have hmap : (scores.flatMap fun entry => list entry.1) = (scores.map Prod.fst).flatMap list := by
      rw [List.flatMap_map]
    rw [hmap, places_scoreCentroids hscores, ← List.range_eq_range']
    exact flatMap_range _ _
  have hprobed : (ix.probe centroids nprobe).Subperm (scores.flatMap fun entry => list entry.1) := by
    have hsub : (ix.probe centroids nprobe).Sublist (centroids.flatMap fun entry => list entry.1) :=
      (List.take_sublist nprobe centroids).flatMap _
    exact hsub.subperm.trans ((sortBy_perm hranked).flatMap_right _).subperm
  rw [hall] at hprobed
  exact hprobed.trans (List.take_sublist _ _).flatten.subperm

/-- The scores of the centroids can be sorted, and so can those of the ids in whichever lists
are probed. -/
structure SortsScores (ix : IvfIndex) (vectors : VectorReader) (query : Vector32) : Prop where
  centroids : ∀ scores, ix.scoreCentroids query = .ok scores →
    Sortable .descending (scores.map Prod.snd)
  listed : ∀ ids : List Uuid, ids.Subperm ix.invertedLists.flatten →
    vectors.SortsScores "IVF" ix.config.metric ix.config.mode query ids

theorem settles_search (hmode : ix.config.mode.Implemented) (hv : vectors.Uniform query.length)
    (hcentroids : ∀ v ∈ ix.centroids, v.length = query.length)
    (hsorts : ix.SortsScores vectors query) :
    Faults Fault.IsError (ix.search query k vectors quality) := by
  unfold search
  split
  · exact .error ⟨_, rfl⟩
  refine Faults.bind (.mapM fun entry hentry => ?_) fun scores hscores => ?_
  · have hmem : entry.1 ∈ ix.centroids := List.fst_mem_of_mem_zipIdx hentry
    obtain ⟨x, hx⟩ := ix.config.metric.calculate_ok hmode (hcentroids entry.1 hmem).symm
    simp only [hx]
    exact .ok _
  refine (settles_sortByScore (hsorts.centroids scores hscores)).bind fun centroids hranked => ?_
  refine Faults.bind (.mapM fun id _ => ?_) fun scored hscored => ?_
  · exact VectorReader.settles_score hmode (hv id)
  · have hprobe := probe_subperm hscores hranked (quality.nprobe.getD ix.config.numProbes)
    exact (settles_sortByScore (hsorts.listed _ hprobe scored hscored)).bind fun _ _ => .ok _

theorem search_panics {v : Vector32} {vs : List Vector32} (hcentroids : ix.centroids = v :: vs)
    (h : ¬ix.config.mode.Implemented ∨ query.length ≠ v.length) :
    Panics (ix.search query k vectors quality) := by
  unfold search
  rw [if_neg (hcentroids ▸ List.cons_ne_nil v vs)]
  refine Panics.bind ?_ _
  unfold scoreCentroids
  rw [hcentroids, List.zipIdx_cons, List.mapM_cons]
  exact ((Metric.calculate_panics _ h).bind _).bind _

theorem fails_search (hassigned : ix.Assigned) (hcentroids : ix.centroids ≠ [])
    (hvectors : ∀ id ∈ ix.trackedIds, (vectors.get id).isSome) :
    Faults Fault.IsPanic (ix.search query k vectors quality) := by
  unfold search
  rw [if_neg hcentroids]
  refine Faults.bind (.mapM fun centroid _ => ?_) fun scores _ => ?_
  · exact (Metric.panics_calculate _ _ _ _).bind fun _ _ => .ok _
  refine (panics_sortByScore scores).bind fun centroids _ => ?_
  refine Faults.bind (.mapM fun id hid => ?_) fun scored _ => ?_
  · exact VectorReader.fails_score (hvectors id (mem_of_probe hassigned hid))
  · exact (panics_sortByScore scored).bind fun _ _ => .ok _

end IvfIndex

/-! ## Any index -/

namespace VectorIndex

/-- The index has nothing that a search compares the query with. -/
def Idle : VectorIndex → Prop
  | .flat ix => ix.vectorIds = []
  | .hnsw ix => ix.startNode = none
  | .ivf ix => ix.centroids = []

/-- The execution mode of the index. -/
def mode : VectorIndex → ExecutionMode
  | .flat ix => ix.config.mode
  | .hnsw ix => ix.config.mode
  | .ivf ix => ix.config.mode

def centroids : VectorIndex → List Vector32
  | .flat _ | .hnsw _ => []
  | .ivf ix => ix.centroids

variable {ix : VectorIndex} {k : Nat} {quality : SearchConfig} {filter : Option (Metadata → Bool)}
  {metadatas : HashMap Uuid Metadata}

omit [Floats] in
theorem Idle.centroids (h : ix.Idle) : ix.centroids = [] := by
  cases ix with
  | flat ix => rfl
  | hnsw ix => rfl
  | ivf ix => exact h

/-- A search can sort by the scores, or the distances, that it comes to. -/
def SortsScores (ix : VectorIndex) (vectors : VectorReader) (query : Vector32) : Prop :=
  match ix with
  | .flat ix => ix.SortsScores vectors query
  | .hnsw ix => ix.SortsFound vectors query
  | .ivf ix => ix.SortsScores vectors query

/-- Nothing is sorted where no comparison returns. -/
theorem sortsScores_of_gpu (hmode : ¬ix.mode.Implemented) : ix.SortsScores vectors query := by
  cases ix with
  | flat ix => exact VectorReader.sortsScores_of_gpu hmode _
  | hnsw ix =>
      intro cs _ hrated
      cases cs with
      | nil => exact .inr (.inl (Nat.zero_le _))
      | cons c cs =>
          obtain ⟨v, -, hdist⟩ := (hrated c List.mem_cons_self).measured
          exact absurd (.ok _) (hdist ▸ ix.distance_panics (.inl hmode)).not_settled
  | ivf ix =>
      refine ⟨fun scores hscores => ?_, fun ids _ => VectorReader.sortsScores_of_gpu hmode ids⟩
      unfold IvfIndex.scoreCentroids at hscores
      cases hcentroids : ix.centroids with
      | nil =>
          rw [hcentroids] at hscores
          cases hscores
          exact .inr (.inl (Nat.zero_le _))
      | cons v vs =>
          rw [hcentroids, List.zipIdx_cons, List.mapM_cons] at hscores
          have hpanics : Panics (ix.config.metric.calculate query v ix.config.mode) :=
            Metric.calculate_panics _ (.inl hmode)
          obtain ⟨msg, hmsg⟩ := hpanics
          simp only [hmsg] at hscores
          cases hscores

/-- A query of the length of all vectors and centroids. -/
theorem settles_search (hmode : ix.mode.Implemented) (hv : vectors.Uniform query.length)
    (hcentroids : ∀ v ∈ ix.centroids, v.length = query.length)
    (hsorts : ix.SortsScores vectors query) :
    Faults Fault.IsError (ix.search query k vectors quality filter metadatas) := by
  cases ix with
  | flat ix => exact FlatIndex.settles_search hmode hv hsorts
  | hnsw ix => exact HnswIndex.settles_search hmode hv hsorts
  | ivf ix => exact IvfIndex.settles_search hmode hv hcentroids hsorts

theorem settles_idle (hidle : ix.Idle) :
    Faults Fault.IsError (ix.search query k vectors quality filter metadatas) := by
  cases ix with
  | flat ix =>
      have hids : ix.vectorIds = [] := hidle
      change Faults _ (ix.search query k vectors)
      rw [FlatIndex.search_nil hids]
      exact .ok _
  | hnsw ix =>
      have hstart : ix.startNode = none := hidle
      change Faults _ (ix.search query k (max (quality.ef.getD ix.config.efSearch) k) vectors filter
        metadatas)
      unfold HnswIndex.search
      rw [hstart]
      exact .ok _
  | ivf ix =>
      have hcentroids : ix.centroids = [] := hidle
      change Faults _ (ix.search query k vectors quality)
      unfold IvfIndex.search
      rw [if_pos hcentroids]
      exact .error ⟨_, rfl⟩

theorem search_idle (hidle : ix.Idle) {ids : List Uuid}
    (hret : ix.search query k vectors quality filter metadatas = .ok ids) : ids = [] := by
  cases ix with
  | flat ix =>
      have hids : ix.vectorIds = [] := hidle
      change ix.search query k vectors = _ at hret
      rw [FlatIndex.search_nil hids] at hret
      cases hret
      rfl
  | hnsw ix =>
      have hstart : ix.startNode = none := hidle
      change ix.search query k (max (quality.ef.getD ix.config.efSearch) k) vectors filter
        metadatas = _ at hret
      unfold HnswIndex.search at hret
      rw [hstart] at hret
      cases hret
      rfl
  | ivf ix =>
      have hcentroids : ix.centroids = [] := hidle
      change ix.search query k vectors quality = _ at hret
      unfold IvfIndex.search at hret
      rw [if_pos hcentroids] at hret
      cases hret

/-- Only an IVF index has to be built before it is searched. -/
theorem returns_idle (hidle : ix.Idle) (htype : ix.indexType ≠ .ivf) :
    ix.search query k vectors quality filter metadatas = .ok [] := by
  cases ix with
  | flat ix =>
      have hids : ix.vectorIds = [] := hidle
      exact FlatIndex.search_nil hids
  | hnsw ix =>
      have hstart : ix.startNode = none := hidle
      change ix.search query k (max (quality.ef.getD ix.config.efSearch) k) vectors filter
        metadatas = _
      unfold HnswIndex.search
      rw [hstart]
  | ivf ix => exact absurd rfl htype

theorem fails_search (hintact : ix.Intact) (hidle : ¬ix.Idle)
    (hvectors : ∀ id ∈ ix.trackedIds, (vectors.get id).isSome) :
    Faults Fault.IsPanic (ix.search query k vectors quality filter metadatas) := by
  cases ix with
  | flat ix => exact FlatIndex.fails_search fun id hid => hvectors id (List.mem_toFinset.mpr hid)
  | hnsw ix => exact HnswIndex.fails_search hintact.1 hvectors
  | ivf ix => exact IvfIndex.fails_search hintact.2.assigned hidle hvectors

/-- Any other query, where all vectors and centroids have one length. -/
theorem search_panics (hintact : ix.Intact)
    (hcached : ∀ id ∈ ix.trackedIds, (vectors.get id).isSome) (hidle : ¬ix.Idle)
    (hv : vectors.Uniform dim) (hcentroids : ∀ v ∈ ix.centroids, v.length = dim)
    (h : ¬ix.mode.Implemented ∨ query.length ≠ dim) :
    Panics (ix.search query k vectors quality none metadatas) := by
  cases ix with
  | flat ix =>
      obtain ⟨id, ids, hids⟩ := List.exists_cons_of_ne_nil hidle
      have hid : id ∈ (VectorIndex.flat ix).trackedIds := by
        refine List.mem_toFinset.mpr ?_
        rw [hids]
        exact List.mem_cons_self
      obtain ⟨v, hget⟩ := Option.isSome_iff_exists.mp (hcached id hid)
      exact FlatIndex.search_panics hids hget (hv id v hget ▸ h)
  | hnsw ix =>
      obtain ⟨ep, hstart⟩ := Option.ne_none_iff_exists'.mp hidle
      obtain ⟨v, hget⟩ := Option.isSome_iff_exists.mp (hcached ep (hintact.1 ep hstart))
      exact HnswIndex.search_panics hstart hget (hv ep v hget ▸ h)
  | ivf ix =>
      have hcentroids : ∀ v ∈ ix.centroids, v.length = dim := hcentroids
      obtain ⟨v, vs, hvs⟩ := List.exists_cons_of_ne_nil hidle
      have hlen : v.length = dim := by
        refine hcentroids v ?_
        rw [hvs]
        exact List.mem_cons_self
      exact IvfIndex.search_panics hvs (hlen ▸ h)

end VectorIndex

end
