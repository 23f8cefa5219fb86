-- SUMMARY: An IVF index that probes all its clusters gives the scores that a flat index gives.
import Piramid.Index.Distinct
import Piramid.Index.Partition
import Piramid.Index.Validated

/-!
# Probing every cluster

The two indexes score the same ids in different orders: cluster by cluster, and in the
order they were inserted in. Sorting leaves nothing of that but the order among equal scores.
-/

open Loop

section

variable [Floats] {vectors : VectorReader} {metric : Metric} {mode : ExecutionMode} {query : Vector32}

namespace VectorReader

/-- The two ids have the same score, as numbers. -/
def Ties (vectors : VectorReader) (metric : Metric) (mode : ExecutionMode) (query : Vector32)
    (a b : Uuid) : Prop :=
  ∃ x y, vectors.Scores metric mode query a x ∧ vectors.Scores metric mode query b y ∧
    Floats.partialCmp x y = some .eq

/-! ## Sorting scored ids -/

/-- The score of an id, if it has one. -/
def scoreOf (vectors : VectorReader) (metric : Metric) (mode : ExecutionMode) (query : Vector32)
    (id : Uuid) : F32 :=
  (((vectors.get id).bind fun v => (metric.calculate query v mode).toOption)).getD F32.zero

theorem Scores.scoreOf_eq {id : Uuid} {x : F32} (h : vectors.Scores metric mode query id x) :
    vectors.scoreOf metric mode query id = x := by
  obtain ⟨v, hv, hx⟩ := h
  unfold scoreOf
  rw [hv, Option.bind_some, hx]
  rfl

/-- Scoring pairs each id with its score. -/
theorem scored_eq_map {name : String} {ids : List Uuid} {scored : List (Uuid × F32)}
    (h : ids.mapM (vectors.score name metric mode query) = .ok scored) :
    scored = ids.map fun id => (id, vectors.scoreOf metric mode query id) := by
  refine mapM_ok_eq_map h fun id _ entry hentry => ?_
  have hscores := scores_of_score hentry
  have hid := fst_of_score hentry
  rw [← hid, hscores.scoreOf_eq]

/-- Scored ids with ordered scores are sorted by the keys of the scores. -/
theorem sorted_scored {name : String} {ids : List Uuid} {scored : List (Uuid × F32)} {key : F32 → Int}
    (hkey : ∀ x y, (∃ id, vectors.Scores metric mode query id x) →
      (∃ id, vectors.Scores metric mode query id y) →
        Floats.partialCmp x y = some (compare (key x) (key y)))
    (h : ids.mapM (vectors.score name metric mode query) = .ok scored)
    {ranked : List (Uuid × F32)} (hranked : sortByScore scored = .ok ranked) :
    (∀ e ∈ ranked, vectors.Scores metric mode query e.1 e.2) ∧
      ranked.Pairwise fun e e' => OrderDual.toDual (key e.2) ≤ OrderDual.toDual (key e'.2) := by
  have hscores : ∀ e ∈ scored, vectors.Scores metric mode query e.1 e.2 := by
    intro e he
    obtain ⟨id, -, hscore⟩ := (mapM_eq_ok h).2 e he
    exact scores_of_score hscore
  refine ⟨fun e he => hscores e ((sortBy_perm hranked).mem_iff.mp he), ?_⟩
  refine sortBy_sorted (fun e he e' he' => ?_) hranked
  unfold SortOrder.cmp F32.cmp
  simp only
  rw [hkey e'.2 e.2 ⟨e'.1, hscores e' he'⟩ ⟨e.1, hscores e he⟩, Option.getD_some]
  rfl

/-- The best of the same ids, scored in two orders. -/
theorem ties_ranked (hordered : vectors.Ordered metric mode query) {name name' : String}
    {ids ids' : List Uuid} {scored scored' : List (Uuid × F32)} (hperm : ids.Perm ids')
    (h : ids.mapM (vectors.score name metric mode query) = .ok scored)
    (h' : ids'.mapM (vectors.score name' metric mode query) = .ok scored')
    {ranked ranked' : List (Uuid × F32)} (hranked : sortByScore scored = .ok ranked)
    (hranked' : sortByScore scored' = .ok ranked') (k : Nat) :
    List.Forall₂ (vectors.Ties metric mode query) ((ranked.take k).map Prod.fst)
      ((ranked'.take k).map Prod.fst) := by
  obtain ⟨key, hkey⟩ := hordered
  obtain ⟨hscores, hsorted⟩ := sorted_scored hkey h hranked
  obtain ⟨hscores', hsorted'⟩ := sorted_scored hkey h' hranked'
  have hscored : scored.Perm scored' := by
    rw [scored_eq_map h, scored_eq_map h']
    exact hperm.map _
  have hsort : ranked.Perm ranked' :=
    (sortBy_perm hranked).trans (hscored.trans (sortBy_perm hranked').symm)
  have hkeys := Ranking.sorted_keys_eq hsorted hsorted' hsort
  have htop := congrArg (List.take k) hkeys
  rw [← List.map_take, ← List.map_take] at htop
  have hsame : List.Forall₂ (fun e e' : Uuid × F32 =>
      OrderDual.toDual (key e.2) = OrderDual.toDual (key e'.2)) (ranked.take k)
      (ranked'.take k) := by
    rw [← List.forall₂_eq_eq_eq, List.forall₂_map_left_iff, List.forall₂_map_right_iff] at htop
    exact htop
  rw [List.forall₂_map_left_iff, List.forall₂_map_right_iff]
  obtain ⟨hlen, hpairs⟩ := List.forall₂_iff_zip.mp hsame
  refine List.forall₂_iff_zip.mpr ⟨hlen, fun {e e'} hmem => ?_⟩
  obtain ⟨he, he'⟩ := List.of_mem_zip hmem
  have hx := hscores e (List.mem_of_mem_take he)
  have hy := hscores' e' (List.mem_of_mem_take he')
  refine ⟨e.2, e'.2, hx, hy, ?_⟩
  rw [hkey e.2 e'.2 ⟨e.1, hx⟩ ⟨e'.1, hy⟩, compare_eq_iff_eq.mpr]
  exact OrderDual.toDual_inj.mp (hpairs hmem)

end VectorReader

/-! ## All the lists -/

namespace IvfIndex

variable {ix ix' : IvfIndex} {nprobe : Nat} {config : IvfConfig} {dim : Nat}

/-- With all clusters probed, every assigned id is come across. -/
theorem mem_probe_all (h : ix.Filed) {scores centroids : List (Nat × F32)}
    (hscores : ix.scoreCentroids query = .ok scores) (hsorted : sortByScore scores = .ok centroids)
    (hprobes : ix.centroids.length ≤ nprobe) {id : Uuid} :
    id ∈ ix.probe centroids nprobe ↔ id ∈ ix.vectorToCluster.keys := by
  have hplaces := places_scoreCentroids hscores
  have hall : centroids.take nprobe = centroids := by
    have hlen := congrArg List.length hplaces
    rw [List.length_map, List.length_range'] at hlen
    refine List.take_of_length_le ?_
    rw [(sortBy_perm hsorted).length_eq, hlen]
    exact hprobes
  unfold probe
  rw [hall, List.mem_flatMap, HashMap.mem_keys_iff]
  constructor
  · rintro ⟨entry, -, hid⟩
    cases hlist : ix.invertedLists[entry.1]? with
    | none =>
        rw [hlist] at hid
        cases hid
    | some l =>
        rw [hlist] at hid
        exact ⟨entry.1, h.parted.assigned entry.1 l hlist id hid⟩
  · rintro ⟨i, hi⟩
    obtain ⟨l, hlist, hid⟩ := h.complete id i hi
    have hlt : i < ix.centroids.length := by
      rw [← h.listed]
      exact (List.getElem?_eq_some_iff.mp hlist).1
    have hplace : i ∈ scores.map Prod.fst := by
      rw [hplaces, List.mem_range'_1]
      exact ⟨Nat.zero_le i, by omega⟩
    obtain ⟨entry, hentry, rfl⟩ := List.mem_map.mp hplace
    refine ⟨entry, (sortBy_perm hsorted).mem_iff.mpr hentry, ?_⟩
    rw [hlist]
    exact hid

/-- A nearest centroid is found by comparing vectors. -/
theorem implemented_of_findNearestCentroid {vector : Vector32} {i : Nat} (hne : ix.centroids ≠ [])
    (hret : ix.findNearestCentroid vector = .ok i) : ix.config.mode.Implemented := by
  unfold findNearestCentroid at hret
  obtain ⟨scores, hscores, -⟩ := bind_eq_ok.mp hret
  obtain ⟨c, cs, hcs⟩ := List.exists_cons_of_ne_nil hne
  rw [hcs, List.zipIdx_cons, List.mapM_cons] at hscores
  obtain ⟨entry, hentry, -⟩ := bind_eq_ok.mp hscores
  obtain ⟨x, hx, -⟩ := bind_eq_ok.mp hentry
  by_contra hmode
  obtain ⟨msg, hpanics⟩ := Metric.calculate_panics ix.config.metric (.inl hmode)
  rw [hpanics] at hx
  cases hx

theorem implemented_of_buildClusters (hne : vectors.len ≠ 0) (hret : ix.buildClusters vectors = .ok ix') :
    ix.config.mode.Implemented := by
  obtain ⟨-, -, hcentroids, -⟩ := buildClusters_tracks hne hret
  unfold buildClusters at hret
  rw [if_neg hne] at hret
  obtain ⟨ix₁, hiter, hret⟩ := bind_eq_ok.mp hret
  have hconfig : ix₁.config = ix.config := (iterate_keeps hiter).1
  have hkept := foldlM_keeps (fun rest (ix₂ : IvfIndex) => ix₂.centroids = ix₁.centroids ∧
    ix₂.config = ix.config ∧ (rest = vectors.iter ∨ ix₁.centroids = [] ∨ ix.config.mode.Implemented))
    ?_ ?_ hret
  · obtain ⟨hsame, -, hnil | hnone | hmode⟩ := hkept
    · have hlen := vectors.length_iter
      rw [← hnil] at hlen
      exact absurd hlen.symm hne
    · exact absurd (hsame.trans hnone) hcentroids
    · exact hmode
  · rintro entry rest ix₂ ix₃ ⟨hsame, hconfig₂, -⟩ hstep
    unfold assign at hstep
    obtain ⟨i, hnearest, hstep⟩ := bind_eq_ok.mp hstep
    obtain ⟨lists, -, hstep⟩ := bind_eq_ok.mp hstep
    cases hstep
    refine ⟨hsame, hconfig₂, .inr ?_⟩
    by_cases hnone : ix₁.centroids = []
    · exact .inl hnone
    · rw [← hsame] at hnone
      exact .inr (hconfig₂ ▸ implemented_of_findNearestCentroid hnone hnearest)
  · exact ⟨rfl, hconfig, .inl rfl⟩

/-- Settings with which centroids can be made. -/
def Clusters (config : IvfConfig) : Prop := config.mode.Implemented ∧ 1 ≤ config.numClusters

/-- An index gets its centroids from a clustering. -/
theorem clusters_of_centroids {id : Uuid} {vector : Vector32} (hlisted : ix.Listed)
    (hold : ix.centroids ≠ [] → Clusters ix.config) (hne : ix'.centroids ≠ [])
    (hret : ix.insert id vector vectors = .ok ix') : Clusters ix.config := by
  by_cases hre : ix.Rebuilds id vectors
  · have hclusters := clusters_of_insert hre hret
    obtain ⟨hid, hcentroids, hsize, hlen⟩ := hre
    rw [mem_trackedIds] at hid
    rw [insert, if_neg hid, if_pos hcentroids] at hret
    simp only [ge_iff_le, hsize, if_true] at hret
    have himplemented := implemented_of_buildClusters hlen hret
    exact ⟨himplemented, hclusters⟩
  · obtain ⟨-, -, hsame, -⟩ := insert_tracks hre hlisted hret
    exact hold fun hnone => hne (hsame.mpr hnone)

/-! ## Both indexes -/

/-- An IVF index and a flat index after the same insertions and removals, with the vectors
of the ids they track. The reader of an insertion has these vectors and the new one. -/
inductive Twins (config : IvfConfig) (dim : Nat) : IvfIndex → FlatIndex → HashMap Uuid Vector32 → Prop
  | new : Twins config dim (.new config) (.new ⟨config.metric, config.mode⟩) ∅
  | inserted {ix ix' : IvfIndex} {flat : FlatIndex} {tracked : HashMap Uuid Vector32} {id : Uuid}
      {vector : Vector32} (h : Twins config dim ix flat tracked) (hlen : vector.length = dim)
      (order : HashOrder Uuid)
      (hret : ix.insert id vector ⟨tracked.insert id vector, order⟩ = .ok ix') :
      Twins config dim ix' (flat.insert id) (tracked.insert id vector)
  | removed {ix : IvfIndex} {flat : FlatIndex} {tracked : HashMap Uuid Vector32}
      (h : Twins config dim ix flat tracked) (id : Uuid) :
      Twins config dim (ix.remove id) (flat.remove id) (tracked.erase id)

variable {flat : FlatIndex} {tracked : HashMap Uuid Vector32}

theorem config_insert {id : Uuid} {vector : Vector32} (hlisted : ix.Listed)
    (hret : ix.insert id vector vectors = .ok ix') : ix'.config = ix.config := by
  by_cases hre : ix.Rebuilds id vectors
  · obtain ⟨-, -, -, hconfig⟩ := insert_rebuilds hre hret
    exact hconfig
  · obtain ⟨-, -, -, hconfig⟩ := insert_tracks hre hlisted hret
    exact hconfig

/-- What insertions and removals keep of the two. -/
structure Paired (config : IvfConfig) (dim : Nat) (ix : IvfIndex) (flat : FlatIndex)
    (tracked : HashMap Uuid Vector32) : Prop where
  run : Run config dim ix tracked.keys
  ivfConfig : ix.config = config
  flatConfig : flat.config = ⟨config.metric, config.mode⟩
  flatIds : flat.trackedIds = tracked.keys
  nodup : flat.vectorIds.Nodup
  lengths : ∀ id v, tracked.lookup id = some v → v.length = dim
  clusters : ix.centroids ≠ [] → Clusters config

theorem Twins.paired (h : Twins config dim ix flat tracked) : Paired config dim ix flat tracked := by
  induction h with
  | new =>
      refine ⟨.new, rfl, rfl, rfl, List.nodup_nil, fun id v hv => ?_, fun hne => absurd rfl hne⟩
      rw [Finmap.lookup_empty] at hv
      cases hv
  | @inserted ix ix' flat tracked id vector _ hlen order hret ih =>
      have hlengths : ∀ id' v, (tracked.insert id vector).lookup id' = some v → v.length = dim := by
        intro id' v hv
        rw [HashMap.lookup_insert] at hv
        split at hv
        · cases hv
          exact hlen
        · exact ih.lengths id' v hv
      have hkeys : (tracked.insert id vector).keys = Insert.insert id tracked.keys :=
        HashMap.keys_insert _ _ _
      have hlisted : ix.Listed := ih.run.filed.1.listed
      exact {
        run := by
          have hv : VectorReader.Uniform dim ⟨tracked.insert id vector, order⟩ := hlengths
          rw [hkeys]
          exact .inserted ih.run hlen hkeys hv hret
        ivfConfig := (config_insert hlisted hret).trans ih.ivfConfig
        flatConfig := by
          rw [← ih.flatConfig]
          unfold FlatIndex.insert
          split
          · rfl
          · rfl
        flatIds := by rw [FlatIndex.trackedIds_insert, ih.flatIds, hkeys]
        nodup := FlatIndex.nodup_insert ih.nodup id
        lengths := hlengths
        clusters := fun hne => by
          have hclusters := clusters_of_centroids hlisted (ih.ivfConfig.symm ▸ ih.clusters) hne hret
          rwa [ih.ivfConfig] at hclusters }
  | removed _ id ih =>
      exact {
        run := by
          rw [Finmap.keys_erase]
          exact .removed ih.run id
        ivfConfig := (config_remove _ id).trans ih.ivfConfig
        flatConfig := ih.flatConfig
        flatIds := by rw [FlatIndex.trackedIds_remove, ih.flatIds, Finmap.keys_erase]
        nodup := ih.nodup.filter _
        lengths := fun id' v hv => by
          rw [HashMap.lookup_erase] at hv
          split at hv
          · cases hv
          · exact ih.lengths id' v hv
        clusters := fun hne => by
          rw [centroids_remove] at hne
          exact ih.clusters hne }

/-- The scores of the centroids compare as numbers do. -/
def CentroidsOrdered (ix : IvfIndex) (query : Vector32) : Prop :=
  F32.Ordered fun x => ∃ v ∈ ix.centroids, ix.config.metric.calculate query v ix.config.mode = .ok x

theorem CentroidsOrdered.sortable (h : ix.CentroidsOrdered query) {scores : List (Nat × F32)}
    (hscores : ix.scoreCentroids query = .ok scores) : Sortable .descending (scores.map Prod.snd) := by
  refine .inl (F32.Ordered.total h (List.forall_mem_map.mpr fun e he => ?_))
  obtain ⟨centroid, hcentroid, hscore⟩ := (mapM_eq_ok hscores).2 e he
  obtain ⟨x, hx, hscore⟩ := bind_eq_ok.mp hscore
  cases hscore
  exact ⟨centroid.1, List.fst_mem_of_mem_zipIdx hcentroid, hx⟩

/-- Where an IVF index has centroids and probes all of them, it finds as many ids as a flat
index does, and with the same scores. -/
theorem probing_all_matches_flat (h : Twins config dim ix flat tracked) (hne : ix.centroids ≠ [])
    (order : HashOrder Uuid) (hlen : query.length = dim)
    (hordered : VectorReader.Ordered ⟨tracked, order⟩ config.metric config.mode query)
    (hcentroids : ix.CentroidsOrdered query)
    {quality : SearchConfig} (hprobes : ix.centroids.length ≤ quality.nprobe.getD config.numProbes)
    (k : Nat) :
    ∃ ids ids', ix.search query k ⟨tracked, order⟩ quality = .ok ids ∧
      flat.search query k ⟨tracked, order⟩ = .ok ids' ∧ ids.length = ids'.length ∧
      List.Forall₂ (VectorReader.Ties ⟨tracked, order⟩ config.metric config.mode query) ids ids' := by
  have hpaired := h.paired
  obtain ⟨hmode, hclusters⟩ := hpaired.clusters hne
  obtain ⟨hfiled, htracked⟩ := hpaired.run.filed
  subst hlen
  have huniform : VectorReader.Uniform query.length ⟨tracked, order⟩ := hpaired.lengths
  have hvectors : ∀ id ∈ tracked.keys, ((⟨tracked, order⟩ : VectorReader).get id).isSome := fun id hid =>
    Option.isSome_iff_exists.mpr ((HashMap.mem_keys_iff tracked id).mp hid)
  -- both searches return
  have hivf : ∃ ids, ix.search query k ⟨tracked, order⟩ quality = .ok ids := by
    refine ok_of_faults (settles_search ?_ huniform ?_ ⟨?_, ?_⟩)
      (fails_search hfiled.parted.assigned hne ?_) ?_
    · exact hpaired.ivfConfig ▸ hmode
    · exact (hpaired.run.ready hmode hclusters).centroids
    · exact fun scores hscores => hcentroids.sortable hscores
    · rw [hpaired.ivfConfig]
      exact fun ids _ => hordered.sortsScores "IVF" ids
    · exact fun id hid => hvectors id (htracked ▸ hid)
    · rintro e ⟨err, rfl⟩ ⟨msg, hmsg⟩
      cases hmsg
  have hflat : ∃ ids, flat.search query k ⟨tracked, order⟩ = .ok ids := by
    refine ok_of_faults (FlatIndex.settles_search ?_ huniform ?_) (FlatIndex.fails_search ?_) ?_
    · exact hpaired.flatConfig ▸ hmode
    · unfold FlatIndex.SortsScores
      rw [hpaired.flatConfig]
      exact hordered.sortsScores "Flat" flat.vectorIds
    · exact fun id hid => hvectors id (hpaired.flatIds ▸ List.mem_toFinset.mpr hid)
    · rintro e ⟨err, rfl⟩ ⟨msg, hmsg⟩
      cases hmsg
  obtain ⟨ids, hids⟩ := hivf
  obtain ⟨ids', hids'⟩ := hflat
  have hsame : List.Forall₂ (VectorReader.Ties ⟨tracked, order⟩ config.metric config.mode query) ids ids' := by
    unfold IvfIndex.search at hids
    rw [if_neg hne, hpaired.ivfConfig] at hids
    obtain ⟨scores, hscores, hids⟩ := bind_eq_ok.mp hids
    obtain ⟨centroids, hsorted, hids⟩ := bind_eq_ok.mp hids
    obtain ⟨scored, hscored, hids⟩ := bind_eq_ok.mp hids
    obtain ⟨ranked, hranked, hids⟩ := bind_eq_ok.mp hids
    cases hids
    unfold FlatIndex.search at hids'
    rw [hpaired.flatConfig] at hids'
    obtain ⟨scored', hscored', hids'⟩ := bind_eq_ok.mp hids'
    obtain ⟨ranked', hranked', hids'⟩ := bind_eq_ok.mp hids'
    cases hids'
    have hplaces : (centroids.map Prod.fst).Nodup :=
      ((sortBy_perm hsorted).map Prod.fst).nodup_iff.mpr (nodup_scoreCentroids hscores)
    refine VectorReader.ties_ranked hordered ?_ hscored hscored' hranked hranked' k
    refine List.perm_of_nodup_nodup_toFinset_eq ?_ hpaired.nodup ?_
    · exact nodup_probe hfiled.parted hplaces _
    · ext id
      rw [List.mem_toFinset, mem_probe_all hfiled hscores hsorted hprobes]
      have hmem : id ∈ flat.trackedIds ↔ id ∈ ix.trackedIds := by rw [hpaired.flatIds, htracked]
      rw [show flat.vectorIds.toFinset = flat.trackedIds from rfl, hmem]
      unfold trackedIds
      rw [hfiled.settled hne, Finset.empty_union]
  exact ⟨ids, ids', hids, hids', hsame.length_eq, hsame⟩

end IvfIndex

end

/-! ## Two clusters of one vector each -/

section

attribute [local instance] Reference.floats

open Reference

def euclideanClusters : IvfConfig := ⟨2, 1, 1, .euclidean, .auto⟩

/-- The index of the two vectors of `nearAndFar`. -/
def clusterEach : Except Fault IvfIndex := do
  let near : HashMap Uuid Vector32 := Finmap.insert 0 [F32.one] ∅
  let ix ← (IvfIndex.new euclideanClusters).insert 0 [F32.one] ⟨near, Bincode.idOrder⟩
  ix.insert 1 [two] ⟨near.insert 1 [two], Bincode.idOrder⟩

/-- Probed both, the two clusters give the scores of a flat index. -/
theorem both_clusters_match_flat :
    ∃ (ix : IvfIndex) (ids ids' : List Uuid), clusterEach = .ok ix ∧ ix.centroids.length = 2 ∧
      ix.search [F32.one] 2 (.ofEntries nearAndFar) { SearchConfig.default with nprobe := some 2 } = .ok ids ∧
      FlatIndex.search ⟨⟨.euclidean, .auto⟩, [0, 1]⟩ [F32.one] 2 (.ofEntries nearAndFar) = .ok ids' ∧
      List.Forall₂ (VectorReader.Ties (.ofEntries nearAndFar) .euclidean .auto [F32.one]) ids ids' := by
  have heval : clusterEach.toOption.map (fun ix =>
      ix.centroids.map fun v =>
        (ix.config.metric.calculate [F32.one] v ix.config.mode).toOption) =
        some [some F32.one, some half] := by
    decide +kernel
  obtain ⟨ix, hix, hscores⟩ := ok_of_map heval
  have hlen : ix.centroids.length = 2 := by
    have hlen := congrArg List.length hscores
    rwa [List.length_map] at hlen
  have hordered : ix.CentroidsOrdered [F32.one] := by
    have hscore : ∀ x, (∃ v ∈ ix.centroids,
        ix.config.metric.calculate [F32.one] v ix.config.mode = .ok x) → x = F32.one ∨ x = half := by
      rintro x ⟨v, hv, hx⟩
      have hmem := List.mem_map_of_mem
        (f := fun v => (ix.config.metric.calculate [F32.one] v ix.config.mode).toOption) hv
      rw [hscores, hx] at hmem
      simpa [Except.toOption] using hmem
    refine ⟨fun x => if x = F32.one then 1 else 0, fun x y hx hy => ?_⟩
    rcases hscore x hx with rfl | rfl
    · rcases hscore y hy with rfl | rfl
      · decide
      · decide
    · rcases hscore y hy with rfl | rfl
      · decide
      · decide
  obtain ⟨ix₁, hfirst, hsecond⟩ := bind_eq_ok.mp hix
  have htwins₁ : IvfIndex.Twins euclideanClusters 1 ix₁ ⟨⟨.euclidean, .auto⟩, [0]⟩
      (Finmap.insert 0 [F32.one] ∅) :=
    .inserted .new rfl Bincode.idOrder hfirst
  have htwins : IvfIndex.Twins euclideanClusters 1 ix ⟨⟨.euclidean, .auto⟩, [0, 1]⟩
      (VectorReader.ofEntries nearAndFar).vectors :=
    .inserted htwins₁ rfl Bincode.idOrder hsecond
  have hne : ix.centroids ≠ [] := List.ne_nil_of_length_pos (by rw [hlen]; decide)
  have hprobes : ix.centroids.length ≤
      ({ SearchConfig.default with nprobe := some 2 } : SearchConfig).nprobe.getD
        euclideanClusters.numProbes := le_of_eq hlen
  obtain ⟨ids, ids', hids, hids', -, hties⟩ :=
    IvfIndex.probing_all_matches_flat htwins hne Bincode.idOrder rfl ordered_nearAndFar hordered hprobes 2
  exact ⟨ix, ids, ids', hix, hlen, hids, hids', hties⟩

end
