-- SUMMARY: What a search of an index returns, and which of its errors an intact index rules out.
import Piramid.Index.Intact

/-!
# Searching an index

A search of an intact index returns ids that it tracks. If the reader has their
vectors, it never fails for want of one.
-/

open Loop

section

variable [Floats] {query : Vector32} {vectors : VectorReader}

/-- Not one of the errors of a search that comes across a missing vector or document. -/
def Fault.Benign (e : Fault) : Prop := ∀ msg, e ≠ .searchFailed msg

/-- A panic. -/
def Fault.IsPanic (e : Fault) : Prop := ∃ msg, e = .panic msg

omit [Floats] in
theorem Fault.IsPanic.benign {e : Fault} (h : e.IsPanic) : e.Benign := by
  obtain ⟨msg, rfl⟩ := h
  intro msg' h
  cases h

omit [Floats] in
theorem Fault.isPanic_disorder : Fault.disorder.IsPanic := ⟨_, rfl⟩

theorem faults_sortByScore {α : Type} (scored : List (α × F32)) :
    Faults Fault.Benign (sortByScore scored) :=
  faults_sortBy Fault.isPanic_disorder.benign _ _ scored

/-- The kernels can only panic. -/
theorem Metric.panics_calculate (metric : Metric) (a b : Vector32) (mode : ExecutionMode) :
    Faults Fault.IsPanic (metric.calculate a b mode) := by
  have hdispatch : ∀ name kernel, Faults Fault.IsPanic (Compute.dispatch name kernel a b mode) := by
    intro name kernel
    unfold Compute.dispatch
    split
    · exact .error ⟨_, rfl⟩
    · split
      · exact .ok _
      · exact .error ⟨_, rfl⟩
  cases metric with
  | cosine => exact hdispatch _ _
  | dotProduct => exact hdispatch _ _
  | euclidean => exact (hdispatch _ _).bind fun _ _ => .ok _

theorem Metric.faults_calculate (metric : Metric) (a b : Vector32) (mode : ExecutionMode) :
    Faults Fault.Benign (metric.calculate a b mode) :=
  (metric.panics_calculate a b mode).mono fun _ => Fault.IsPanic.benign

/-! ## Lists of scored ids -/

theorem VectorReader.faults_score {name : String} {metric : Metric} {mode : ExecutionMode}
    {id : Uuid} (hid : (vectors.get id).isSome) :
    Faults Fault.Benign (vectors.score name metric mode query id) := by
  unfold VectorReader.score
  split
  · rename_i hnone
    rw [hnone] at hid
    cases hid
  · exact (metric.faults_calculate _ _ _).bind fun _ _ => .ok _

theorem VectorReader.fst_of_score {name : String} {metric : Metric} {mode : ExecutionMode}
    {id : Uuid} {scored : Uuid × F32} (h : vectors.score name metric mode query id = .ok scored) :
    scored.1 = id := by
  unfold VectorReader.score at h
  split at h
  · cases h
  · rw [bind_eq_ok] at h
    obtain ⟨score, -, h⟩ := h
    cases h
    rfl

/-- The best of the scored ids are among the ids. -/
theorem VectorReader.mem_of_ranked {name : String} {metric : Metric} {mode : ExecutionMode}
    {ids : List Uuid} {scored ranked : List (Uuid × F32)}
    (h : ids.mapM (vectors.score name metric mode query) = .ok scored)
    (hranked : sortByScore scored = .ok ranked) {k : Nat} {id : Uuid}
    (hid : id ∈ (ranked.take k).map Prod.fst) : id ∈ ids := by
  obtain ⟨e, he, rfl⟩ := List.mem_map.mp hid
  have hmem := (sortBy_perm hranked).mem_iff.mp (List.mem_of_mem_take he)
  obtain ⟨id, hid, hscore⟩ := (mapM_eq_ok h).2 e hmem
  rw [VectorReader.fst_of_score hscore]
  exact hid

/-! ## HNSW -/

namespace HnswIndex

variable {ix : HnswIndex} {context : SearchContext}

theorem panics_distance (ix : HnswIndex) (a b : Vector32) :
    Faults Fault.IsPanic (ix.distance a b) := by
  unfold distance
  split
  · exact (Metric.panics_calculate _ _ _ _).bind fun _ _ => .ok _
  · exact (Metric.panics_calculate _ _ _ _).bind fun _ _ => .ok _
  · exact Metric.panics_calculate _ _ _ _

theorem faults_distance (ix : HnswIndex) (a b : Vector32) :
    Faults Fault.Benign (ix.distance a b) :=
  (ix.panics_distance a b).mono fun _ => Fault.IsPanic.benign

section

variable {P : Fault → Prop} {st : LayerSearch} {numClosest level : Nat}

theorem faults_enterAt (hdist : ∀ a b, Faults P (ix.distance a b)) (ep : Uuid) :
    Faults P (ix.enterAt query context st ep) := by
  unfold enterAt
  split
  · exact .ok _
  split
  · exact .ok _
  exact (hdist _ _).bind fun _ _ => .ok _

theorem faults_visitNeighbor (hdist : ∀ a b, Faults P (ix.distance a b)) (id : Uuid) :
    Faults P (ix.visitNeighbor query numClosest context st id) := by
  unfold visitNeighbor
  split
  · exact .ok _
  simp only
  split
  · exact .ok _
  split
  · exact .ok _
  refine (hdist _ _).bind fun dist _ => ?_
  split
  · split
    · exact .ok _
    · exact .ok _
  · exact .ok _

theorem faults_exploreLayer (hdist : ∀ a b, Faults P (ix.distance a b)) (hdiverge : P .diverge)
    (fuel : Nat) : Faults P (ix.exploreLayer query numClosest level context fuel st) := by
  induction fuel generalizing st with
  | zero => exact .error hdiverge
  | succ fuel ih =>
      unfold exploreLayer
      split
      · exact .ok _
      split
      · exact .ok _
      exact Faults.bind (.foldlM fun id _ st => faults_visitNeighbor hdist id) fun st _ => ih

/-- A layer search fails as a comparison or a sort does, unless it does not end. -/
theorem faults_searchLayer (hdist : ∀ a b, Faults P (ix.distance a b)) (hdiverge : P .diverge)
    (hdisorder : P .disorder) (entryPoints : List Uuid) :
    Faults P (ix.searchLayer query entryPoints numClosest level context) := by
  unfold searchLayer traverseLayer
  refine Faults.bind (.bind (.foldlM fun ep _ st => faults_enterAt hdist ep) fun st _ => ?_) fun st _ => ?_
  · exact faults_exploreLayer hdist hdiverge _
  · exact (faults_sortBy hdisorder _ _ _).bind fun _ _ => .ok _

end

theorem benign_searchLayer (entryPoints : List Uuid) (numClosest level : Nat) :
    Faults Fault.Benign (ix.searchLayer query entryPoints numClosest level context) := by
  refine faults_searchLayer ix.faults_distance ?_ Fault.isPanic_disorder.benign entryPoints
  intro msg h
  cases h

variable {k ef : Nat} {filter : Option (Metadata → Bool)} {metadatas : HashMap Uuid Metadata}

theorem search_tracked (hentered : ix.Entered) (hwired : ix.Wired) {ids : List Uuid}
    (hret : ix.search query k ef vectors filter metadatas = .ok ids) :
    ∀ id ∈ ids, id ∈ ix.trackedIds := by
  unfold search at hret
  split at hret
  · cases hret
    simp
  rename_i ep hstart
  split at hret
  · cases hret
  rw [bind_eq_ok] at hret
  obtain ⟨entry, hdescend, hret⟩ := hret
  rw [bind_eq_ok] at hret
  obtain ⟨nearest, hsearch, hret⟩ := hret
  cases hret
  have hentry : ∀ ep ∈ entry, ep ∈ ix.nodes.keys := by
    refine foldlM_keeps (fun _ entry => ∀ ep ∈ entry, ep ∈ ix.nodes.keys) ?_ ?_ hdescend
    · intro lc _ entry entry' hentry hstep ep hep
      exact (searchLayer_within (P := (· ∈ ix.nodes.keys)) (fun id => hwired id lc) hentry hstep
        ep hep).1
    · intro ep' hep'
      rw [List.mem_singleton.mp hep', Finmap.mem_keys]
      exact (mem_trackedIds.mp (hentered ep hstart)).1
  intro id hid
  obtain ⟨hnode, hfound⟩ := searchLayer_within (P := (· ∈ ix.nodes.keys)) (fun id => hwired id 0)
    hentry hsearch id (List.mem_of_mem_filter (List.mem_of_mem_take hid))
  exact mem_trackedIds.mpr ⟨Finmap.mem_keys.mp hnode, hfound.2⟩

theorem faults_search (hentered : ix.Entered)
    (hvectors : ∀ id ∈ ix.trackedIds, (vectors.get id).isSome) :
    Faults Fault.Benign (ix.search query k ef vectors filter metadatas) := by
  unfold search
  split
  · exact .ok _
  rename_i ep hstart
  split
  · rename_i hnone
    have hsome := hvectors ep (hentered ep hstart)
    rw [Option.isNone_iff_eq_none.mp hnone] at hsome
    cases hsome
  refine Faults.bind (.foldlM fun lc _ entry => benign_searchLayer _ _ _) fun entry _ => ?_
  exact (benign_searchLayer _ _ _).bind fun _ _ => .ok _

end HnswIndex

/-! ## IVF -/

namespace IvfIndex

variable {ix : IvfIndex}

omit [Floats] in
theorem mem_of_probe (h : ix.Assigned) {scores : List (Nat × F32)} {nprobe : Nat} {id : Uuid}
    (hid : id ∈ ix.probe scores nprobe) : id ∈ ix.trackedIds := by
  obtain ⟨⟨i, score⟩, -, hlist⟩ := List.mem_flatMap.mp hid
  cases hl : ix.invertedLists[i]? with
  | none => simp [hl] at hlist
  | some l =>
      rw [hl] at hlist
      rw [trackedIds, Finset.mem_union]
      exact .inr ((HashMap.mem_keys_iff _ _).mpr ⟨i, h i l hl id hlist⟩)

variable {k : Nat} {quality : SearchConfig}

theorem search_tracked (h : ix.Assigned) {ids : List Uuid}
    (hret : ix.search query k vectors quality = .ok ids) : ∀ id ∈ ids, id ∈ ix.trackedIds := by
  unfold search at hret
  split at hret
  · cases hret
  obtain ⟨scores, -, hret⟩ := bind_eq_ok.mp hret
  obtain ⟨centroids, -, hret⟩ := bind_eq_ok.mp hret
  obtain ⟨scored, hscored, hret⟩ := bind_eq_ok.mp hret
  obtain ⟨ranked, hranked, hret⟩ := bind_eq_ok.mp hret
  cases hret
  intro id hid
  exact mem_of_probe h (VectorReader.mem_of_ranked hscored hranked hid)

theorem faults_search (h : ix.Assigned)
    (hvectors : ∀ id ∈ ix.trackedIds, (vectors.get id).isSome) :
    Faults Fault.Benign (ix.search query k vectors quality) := by
  unfold search
  split
  · refine .error ?_
    intro msg h
    cases h
  refine Faults.bind (.mapM fun centroid _ => ?_) fun scores _ => ?_
  · exact (Metric.faults_calculate _ _ _ _).bind fun _ _ => .ok _
  refine (faults_sortByScore scores).bind fun centroids _ => ?_
  refine Faults.bind (.mapM fun id hid => ?_) fun scored _ => ?_
  · exact VectorReader.faults_score (hvectors id (mem_of_probe h hid))
  · exact (faults_sortByScore scored).bind fun _ _ => .ok _

end IvfIndex

/-! ## Any index -/

namespace VectorIndex

variable {ix : VectorIndex} {k : Nat} {quality : SearchConfig}
  {filter : Option (Metadata → Bool)} {metadatas : HashMap Uuid Metadata}

theorem search_tracked (h : ix.Intact) {ids : List Uuid}
    (hret : ix.search query k vectors quality filter metadatas = .ok ids) :
    ∀ id ∈ ids, id ∈ ix.trackedIds := by
  cases ix with
  | flat ix =>
      unfold VectorIndex.search FlatIndex.search at hret
      obtain ⟨scored, hscored, hret⟩ := bind_eq_ok.mp hret
      obtain ⟨ranked, hranked, hret⟩ := bind_eq_ok.mp hret
      cases hret
      intro id hid
      exact List.mem_toFinset.mpr (VectorReader.mem_of_ranked hscored hranked hid)
  | hnsw ix => exact HnswIndex.search_tracked h.1 h.2 hret
  | ivf ix => exact IvfIndex.search_tracked h.2.assigned hret

/-- A search does not fail for want of a vector that the reader has. -/
theorem faults_search (h : ix.Intact) (hvectors : ∀ id ∈ ix.trackedIds, (vectors.get id).isSome) :
    Faults Fault.Benign (ix.search query k vectors quality filter metadatas) := by
  cases ix with
  | flat ix =>
      refine Faults.bind (.mapM fun id hid => ?_) fun scored _ => ?_
      · exact VectorReader.faults_score (hvectors id (List.mem_toFinset.mpr hid))
      · exact (faults_sortByScore scored).bind fun _ _ => .ok _
  | hnsw ix => exact HnswIndex.faults_search h.1 hvectors
  | ivf ix => exact IvfIndex.faults_search h.2.assigned hvectors

end VectorIndex

end
