-- SUMMARY: What an insertion into a graph sorts, and when it returns.
import Piramid.Index.Hnsw

/-!
# Insertion into a graph

An insertion sorts the nodes that a layer search retains, none of them twice, and the
neighbour lists that its edges make too long. Beside a comparison, these sorts are what
can make it panic.
-/

open BinaryHeap Loop

namespace HnswIndex

section

variable [Floats] {ix ix' : HnswIndex} {context : SearchContext} {query : Vector32}
  {entryPoints ids : List Uuid} {numClosest level : Nat}

/-! ## No node twice -/

/-- The retained nodes are distinct, and all of them have been visited. -/
structure Single (st : LayerSearch) : Prop where
  nodup : (st.nearest.map SearchCandidate.id).Nodup
  visited : ∀ c ∈ st.nearest, c.id ∈ st.visited

omit [Floats] in
/-- A node that has not been visited is retained. -/
theorem Single.push {st st' : LayerSearch} (h : Single st) {c : SearchCandidate}
    (hnew : c.id ∉ st.visited) (hvisited : st'.visited = Insert.insert c.id st.visited)
    (hnearest : st'.nearest.Subperm (c :: st.nearest)) : Single st' := by
  constructor
  · have hcons : ((c :: st.nearest).map SearchCandidate.id).Nodup := by
      refine List.nodup_cons.mpr ⟨fun hmem => ?_, h.nodup⟩
      obtain ⟨c', hc', hid⟩ := List.mem_map.mp hmem
      exact hnew (hid ▸ h.visited c' hc')
    obtain ⟨kept, hperm, hsub⟩ := hnearest
    exact (hperm.map SearchCandidate.id).nodup_iff.mp (hcons.sublist (hsub.map SearchCandidate.id))
  · intro c' hc'
    rw [hvisited]
    rcases List.mem_cons.mp (hnearest.subset hc') with rfl | hc'
    · exact Finset.mem_insert_self _ _
    · exact Finset.mem_insert_of_mem (h.visited c' hc')

omit [Floats] in
/-- A node is visited and not retained. -/
theorem Single.skip {st st' : LayerSearch} (h : Single st) (hvisited : st.visited ⊆ st'.visited)
    (hnearest : st'.nearest = st.nearest) : Single st' := by
  refine ⟨hnearest ▸ h.nodup, fun c hc => hvisited (h.visited c ?_)⟩
  rw [← hnearest]
  exact hc

theorem Single.enterAt {st st' : LayerSearch} {ep : Uuid} (h : Single st) (hnew : ep ∉ st.visited)
    (hret : ix.enterAt query context st ep = .ok st') :
    Single st' ∧ st'.visited ⊆ Insert.insert ep st.visited := by
  unfold HnswIndex.enterAt at hret
  split at hret
  · cases hret
    exact ⟨h, Finset.subset_insert _ _⟩
  split at hret
  · cases hret
    exact ⟨h, Finset.subset_insert _ _⟩
  obtain ⟨dist, -, hret⟩ := bind_eq_ok.mp hret
  cases hret
  refine ⟨?_, Finset.Subset.refl _⟩
  cases hdead : ix.isTombstone ep with
  | true => exact h.skip (Finset.subset_insert _ _) rfl
  | false => exact h.push (c := ⟨ep, dist⟩) hnew rfl (push_perm _ _).subperm

theorem Single.visitNeighbor {st st' : LayerSearch} {n : Uuid} (h : Single st)
    (hret : ix.visitNeighbor query numClosest context st n = .ok st') : Single st' := by
  unfold HnswIndex.visitNeighbor at hret
  split at hret
  · cases hret
    exact h
  rename_i hnew
  have hmarked : Single { st with visited := Insert.insert n st.visited } :=
    h.skip (Finset.subset_insert _ _) rfl
  simp only at hret
  split at hret
  · cases hret
    exact hmarked
  split at hret
  · cases hret
    exact hmarked
  obtain ⟨dist, -, hret⟩ := bind_eq_ok.mp hret
  split at hret
  · split at hret
    · cases hret
      exact hmarked.skip (Finset.Subset.refl _) rfl
    · cases hret
      exact h.push (c := ⟨n, dist⟩) hnew rfl (pushNearest_subperm _ _ _)
  · cases hret
    exact hmarked

theorem Single.exploreLayer {fuel : Nat} {st st' : LayerSearch} (h : Single st)
    (hret : ix.exploreLayer query numClosest level context fuel st = .ok st') : Single st' := by
  induction fuel generalizing st with
  | zero => cases hret
  | succ fuel ih =>
      unfold HnswIndex.exploreLayer at hret
      split at hret
      · cases hret
        exact h
      split at hret
      · cases hret
        exact ⟨h.nodup, h.visited⟩
      obtain ⟨st₁, hloop, hret⟩ := bind_eq_ok.mp hret
      refine ih ?_ hret
      refine foldlM_keeps (fun _ st => Single st) ?_ ?_ hloop
      · exact fun _ _ _ _ hst hstep => hst.visitNeighbor hstep
      · exact ⟨h.nodup, h.visited⟩

/-- The entry points are distinct, so the nodes that a traversal retains are. -/
theorem single_traverseLayer {st : LayerSearch} (hentry : entryPoints.Nodup)
    (hret : ix.traverseLayer query entryPoints numClosest level context = .ok st) : Single st := by
  unfold traverseLayer at hret
  obtain ⟨st₁, henter, hret⟩ := bind_eq_ok.mp hret
  have hentered := foldlM_keeps (fun rest (st : LayerSearch) =>
    Single st ∧ rest.Nodup ∧ ∀ ep ∈ rest, ep ∉ st.visited) ?_ ?_ henter
  · have hst : Single { st₁ with furthestDistance := furthest st₁.nearest } :=
      ⟨hentered.1.nodup, hentered.1.visited⟩
    exact hst.exploreLayer hret
  · rintro ep rest st st' ⟨hst, heps, hnew⟩ hstep
    obtain ⟨hep, heps⟩ := List.nodup_cons.mp heps
    obtain ⟨hst', hvisited⟩ := hst.enterAt (hnew ep List.mem_cons_self) hstep
    refine ⟨hst', heps, fun ep' hep' hmem => ?_⟩
    rcases Finset.mem_insert.mp (hvisited hmem) with rfl | hmem
    · exact hep hep'
    · exact hnew ep' (List.mem_cons_of_mem _ hep') hmem
  · exact ⟨⟨List.nodup_nil, fun c hc => by cases hc⟩, hentry, fun ep _ => Finset.notMem_empty ep⟩

theorem nodup_searchLayer (hentry : entryPoints.Nodup)
    (hret : ix.searchLayer query entryPoints numClosest level context = .ok ids) : ids.Nodup := by
  obtain ⟨st, htraverse, hperm⟩ := searchLayer_ok hret
  exact hperm.nodup_iff.mpr (single_traverseLayer hentry htraverse).nodup

/-! ## A layer search returns -/

/-- Whichever live nodes a search retains, it can sort them by their distances. -/
def SortsFound (ix : HnswIndex) (vectors : VectorReader) (query : Vector32) : Prop :=
  ∀ cs : List SearchCandidate, (cs.map SearchCandidate.id).Nodup →
    (∀ c ∈ cs, ix.Rated vectors query c) → Sortable .ascending (cs.map SearchCandidate.distance)

/-- A layer search returns live ids that have a vector, none of them twice. -/
theorem searchLayer_returns (hmode : ix.config.mode.Implemented)
    (hv : context.vectors.Uniform query.length) (hsorts : ix.SortsFound context.vectors query)
    (hentry : entryPoints.Nodup) (numClosest level : Nat) :
    Returns (fun ids => (∀ id ∈ ids, ix.Found context.vectors id) ∧ ids.Nodup)
      (ix.searchLayer query entryPoints numClosest level context) := by
  obtain ⟨st, htraverse, hsound⟩ := traverseLayer_returns hmode hv entryPoints numClosest level
  have hnodup := (single_traverseLayer hentry htraverse).nodup
  obtain ⟨result, hresult⟩ := sortBy_returns_iff.mpr (hsorts st.nearest hnodup hsound)
  have hperm := sortBy_perm hresult
  rw [searchLayer, htraverse]
  change Returns _ (sortBy .ascending SearchCandidate.distance st.nearest >>= _)
  rw [hresult]
  refine .ok ⟨?_, (hperm.map SearchCandidate.id).nodup_iff.mpr hnodup⟩
  intro id hid
  obtain ⟨c, hc, rfl⟩ := List.mem_map.mp hid
  exact (hsound c (hperm.mem_iff.mp hc)).found

/-! ## The neighbours that are chosen -/

/-- The candidates that are ranked are the live ones with a vector. -/
theorem ranked_sublist {candidates : List Uuid} {ranked : List (Uuid × F32)}
    (hret : candidates.foldlM (ix.rankNeighbor vectors query) [] = .ok ranked) :
    (ranked.map Prod.fst).Sublist (candidates.filter fun n => !ix.isTombstone n) := by
  have hkeep := foldlM_keeps (fun rest (ranked : List (Uuid × F32)) =>
    (ranked.map Prod.fst ++ rest.filter fun n => !ix.isTombstone n).Sublist
      (candidates.filter fun n => !ix.isTombstone n)) ?_ (.refl _) hret
  · rw [List.filter_nil, List.append_nil] at hkeep
    exact hkeep
  · intro n rest ranked ranked' hsub hstep
    have hskip : (ranked.map Prod.fst ++ rest.filter fun n => !ix.isTombstone n).Sublist
        (ranked.map Prod.fst ++ (n :: rest).filter fun n => !ix.isTombstone n) :=
      ((List.sublist_cons_self n rest).filter _).append_left _
    unfold rankNeighbor at hstep
    split at hstep
    · cases hstep
      exact hskip.trans hsub
    rename_i hlive
    split at hstep
    · cases hstep
      exact hskip.trans hsub
    obtain ⟨dist, -, hstep⟩ := bind_eq_ok.mp hstep
    cases hstep
    rw [List.filter_cons_of_pos (by simpa using hlive)] at hsub
    simpa using hsub

theorem ranked_rated {candidates : List Uuid} {vectors : VectorReader} {ranked : List (Uuid × F32)}
    (hret : candidates.foldlM (ix.rankNeighbor vectors query) [] = .ok ranked) :
    ∀ e ∈ ranked, ix.Rated vectors query ⟨e.1, e.2⟩ := by
  refine foldlM_keeps (fun _ (ranked : List (Uuid × F32)) =>
    ∀ e ∈ ranked, ix.Rated vectors query ⟨e.1, e.2⟩) ?_ (by simp) hret
  intro n rest ranked ranked' hranked hstep
  unfold rankNeighbor at hstep
  split at hstep
  · cases hstep
    exact hranked
  rename_i hlive
  split at hstep
  · cases hstep
    exact hranked
  rename_i vec hget
  obtain ⟨dist, hdist, hstep⟩ := bind_eq_ok.mp hstep
  cases hstep
  intro e he
  rcases List.mem_append.mp he with hold | hnew
  · exact hranked e hold
  · rw [List.mem_singleton.mp hnew]
    exact ⟨⟨vec, hget, hdist⟩, by simpa using hlive⟩

/-- Where some candidates are left out, so are the removed ones. -/
theorem selectNeighbors_subperm {candidates ns : List Uuid} {m : Nat} {vectors : VectorReader}
    (hlong : candidates.length > m)
    (hret : ix.selectNeighbors candidates m vectors query = .ok ns) :
    ns.Subperm (candidates.filter fun n => !ix.isTombstone n) := by
  obtain ⟨hshort, -⟩ | ⟨-, ranked, sorted, hrank, hsort, rfl⟩ := selectNeighbors_ok hret
  · exact absurd hlong (Nat.not_lt.mpr hshort)
  · have hperm := (sortBy_perm hsort).map Prod.fst
    exact ((List.take_sublist m _).map Prod.fst).subperm.trans
      (hperm.subperm.trans (ranked_sublist hrank).subperm)

theorem selectNeighbors_nodup {candidates ns : List Uuid} {m : Nat} {vectors : VectorReader}
    (h : candidates.Nodup) (hret : ix.selectNeighbors candidates m vectors query = .ok ns) :
    ns.Nodup := by
  by_cases hlong : candidates.length > m
  · obtain ⟨kept, hperm, hsub⟩ := selectNeighbors_subperm hlong hret
    exact hperm.nodup_iff.mp ((h.filter _).sublist hsub)
  · obtain ⟨-, rfl⟩ | ⟨hlt, -⟩ := selectNeighbors_ok hret
    · exact h
    · exact absurd hlt hlong

/-- The live nodes of a list can be sorted by their distances from `query`. -/
def SortsRanked (ix : HnswIndex) (vectors : VectorReader) (query : Vector32)
    (candidates : List Uuid) : Prop :=
  ∀ ranked, candidates.foldlM (ix.rankNeighbor vectors query) [] = .ok ranked →
    Sortable .ascending (ranked.map Prod.snd)

theorem SortsFound.sortsRanked {vectors : VectorReader} (h : ix.SortsFound vectors query)
    {candidates : List Uuid} (hnodup : candidates.Nodup) :
    ix.SortsRanked vectors query candidates := by
  intro ranked hrank
  have hids := (hnodup.filter _).sublist (ranked_sublist hrank)
  have hcs := h (ranked.map fun e => ⟨e.1, e.2⟩) ?_ ?_
  · rwa [List.map_map] at hcs
  · rwa [List.map_map]
  · exact List.forall_mem_map.mpr (ranked_rated hrank)

theorem selectNeighbors_returns (hmode : ix.config.mode.Implemented) {vectors : VectorReader}
    (hv : vectors.Uniform query.length) {candidates : List Uuid}
    (hsorts : ix.SortsRanked vectors query candidates) (m : Nat) :
    Returns (fun ns => ∀ id ∈ ns, id ∈ candidates)
      (ix.selectNeighbors candidates m vectors query) := by
  rw [selectNeighbors]
  split
  · exact .ok fun _ => id
  have hrank := foldlM_returns (f := ix.rankNeighbor vectors query)
    (fun rest (ranked : List (Uuid × F32)) => (∀ id ∈ rest, id ∈ candidates) ∧
      ∀ e ∈ ranked, e.1 ∈ candidates)
    (l := candidates) (b := []) ?_ ?_
  · obtain ⟨ranked, hranked, -, hmem⟩ := hrank
    obtain ⟨sorted, hsorted⟩ := sortBy_returns_iff.mpr (hsorts ranked hranked)
    have hperm := sortBy_perm hsorted
    simp only [hranked]
    change Returns _ (sortBy .ascending Prod.snd ranked >>= _)
    rw [hsorted]
    refine .ok fun id hid => ?_
    obtain ⟨e, he, rfl⟩ := List.mem_map.mp hid
    exact hmem e (hperm.mem_iff.mp (List.mem_of_mem_take he))
  · rintro id rest ranked ⟨hrest, hmem⟩
    obtain ⟨hid, hrest⟩ := List.forall_mem_cons.mp hrest
    rw [rankNeighbor]
    split
    · exact .ok ⟨hrest, hmem⟩
    split
    · exact .ok ⟨hrest, hmem⟩
    · rename_i vec hget
      obtain ⟨dist, hdist, -⟩ := distance_returns hmode (hv id vec hget).symm
      rw [hdist]
      refine .ok ⟨hrest, fun e he => ?_⟩
      rcases List.mem_append.mp he with hold | hnew
      · exact hmem e hold
      · rw [List.mem_singleton.mp hnew]
        exact hid
  · exact ⟨fun _ => id, by simp⟩

/-! ## Edges -/

omit [Floats] in
/-- Replacing a list keeps the others. -/
theorem neighborsAt_setConnections {n : Uuid} {node : HnswNode} (hnode : ix.nodes.lookup n = some node)
    {layer : Nat} (hlayer : layer < node.connections.length) (ns : List Uuid) (n' : Uuid) (l : Nat) :
    (ix.setConnections n node layer ns).neighborsAt n' l =
      if n' = n ∧ l = layer then ns else ix.neighborsAt n' l := by
  unfold neighborsAt setConnections
  rw [HashMap.lookup_insert]
  by_cases hn : n' = n
  · rw [if_pos hn, hn, hnode, Option.bind_some, Option.bind_some, List.getElem?_set]
    by_cases hl : layer = l
    · rw [if_pos hl, if_pos (hl ▸ hlayer), if_pos ⟨rfl, hl.symm⟩]
      rfl
    · rw [if_neg hl, if_neg fun h => hl h.2.symm]
  · rw [if_neg hn, if_neg fun h => hn h.1]


omit [Floats] in
/-- The second of two lists written at the same place stays. -/
theorem setConnections_twice (id : Uuid) (node : HnswNode) (layer : Nat) (ns ns' : List Uuid) :
    (ix.setConnections id node layer ns).setConnections id node layer ns' =
      ix.setConnections id node layer ns' := by
  unfold setConnections
  simp only [Finmap.insert_insert]

variable {vectors : VectorReader} {id neighborId : Uuid} {layer m : Nat}

omit [Floats] in
theorem neighborsAt_eq {node : HnswNode} (hnode : ix.nodes.lookup neighborId = some node)
    {connections : List Uuid} (hconn : node.connections[layer]? = some connections) :
    ix.neighborsAt neighborId layer = connections := by
  unfold neighborsAt
  rw [hnode, Option.bind_some, hconn]
  rfl

/-- An edge back to the new node goes into one list. -/
theorem neighborsAt_linkNeighbor (hret : linkNeighbor id layer m vectors ix neighborId = .ok ix')
    {n : Uuid} {l : Nat} (hother : ¬(n = neighborId ∧ l = layer)) :
    ix'.neighborsAt n l = ix.neighborsAt n l := by
  unfold linkNeighbor at hret
  split at hret
  · cases hret
    rfl
  rename_i node hnode
  split at hret
  · cases hret
    rfl
  rename_i connections hconn
  have hlayer : layer < node.connections.length := (List.getElem?_eq_some_iff.mp hconn).1
  simp only at hret
  split at hret
  · split at hret
    · cases hret
    obtain ⟨pruned, -, hret⟩ := bind_eq_ok.mp hret
    cases hret
    rw [setConnections_twice, neighborsAt_setConnections hnode hlayer, if_neg hother]
  · cases hret
    rw [neighborsAt_setConnections hnode hlayer, if_neg hother]

theorem Rewired.rankNeighbor (h : Rewired ix ix') : ix'.rankNeighbor = ix.rankNeighbor := by
  funext vectors query ranked n
  unfold HnswIndex.rankNeighbor HnswIndex.distance
  rw [h.config, h.tombstone]

theorem Rewired.sortsRanked (h : Rewired ix ix') : ix'.SortsRanked = ix.SortsRanked := by
  unfold SortsRanked
  rw [h.rankNeighbor]

theorem Rewired.sortsFound (h : Rewired ix ix') : ix'.SortsFound = ix.SortsFound := by
  have hrated : ix'.Rated = ix.Rated := by
    funext vectors query c
    refine propext ⟨fun hc => ⟨?_, ?_⟩, fun hc => ⟨?_, ?_⟩⟩
    · have hmeasured := hc.measured
      unfold HnswIndex.distance at hmeasured ⊢
      rwa [h.config] at hmeasured
    · exact h.tombstone c.id ▸ hc.live
    · have hmeasured := hc.measured
      unfold HnswIndex.distance at hmeasured ⊢
      rwa [h.config]
    · exact (h.tombstone c.id).trans hc.live
  unfold SortsFound
  rw [hrated]

/-! ## An insertion returns -/

/-- The lists of neighbours at a layer can be sorted with the new node among them. -/
def SortsLists (ix : HnswIndex) (vectors : VectorReader) (id : Uuid) (layer : Nat) : Prop :=
  ∀ n v, vectors.get n = some v → ix.SortsRanked vectors v (ix.neighborsAt n layer ++ [id])

/-- The insertion of `id` can sort by the distances that it comes to. -/
structure SortsDistances (ix : HnswIndex) (vectors : VectorReader) (id : Uuid) (vector : Vector32) :
    Prop where
  found : ix.SortsFound vectors vector
  lists : ∀ layer, ix.SortsLists vectors id layer

/-- Few vectors can always be sorted, and so can short lists. -/
theorem sortsDistances_of_few {vector : Vector32} (hfew : vectors.len ≤ SliceSort.maxInsertion)
    (hshort : ∀ n layer, (ix.neighborsAt n layer).length < SliceSort.maxInsertion) :
    ix.SortsDistances vectors id vector := by
  constructor
  · intro cs hnodup hrated
    refine .inr (.inl ?_)
    have hkeys : (cs.map SearchCandidate.id).toFinset ⊆ vectors.vectors.keys := by
      intro n hn
      obtain ⟨c, hc, rfl⟩ := List.mem_map.mp (List.mem_toFinset.mp hn)
      obtain ⟨v, hv, -⟩ := (hrated c hc).measured
      exact (HashMap.mem_keys_iff _ _).mpr ⟨v, hv⟩
    have hcard := Finset.card_le_card hkeys
    rw [List.toFinset_card_of_nodup hnodup, List.length_map] at hcard
    rw [List.length_map]
    exact hcard.trans hfew
  · intro layer n v _ ranked hrank
    refine .inr (.inl ?_)
    have hlen := ((ranked_sublist hrank).trans List.filter_sublist).length_le
    rw [List.length_map, List.length_append, List.length_singleton] at hlen
    rw [List.length_map]
    exact hlen.trans (hshort n layer)

theorem linkNeighbor_returns {dim : Nat} (hmode : ix.config.mode.Implemented)
    (hv : vectors.Uniform dim) (hget : (vectors.get neighborId).isSome)
    (hsorts : ∀ v, vectors.get neighborId = some v →
      ix.SortsRanked vectors v (ix.neighborsAt neighborId layer ++ [id])) (m : Nat) :
    Returns (Rewired ix) (linkNeighbor id layer m vectors ix neighborId) := by
  suffices hret : Returns (fun _ => True) (linkNeighbor id layer m vectors ix neighborId) by
    obtain ⟨ix', hix', -⟩ := hret
    exact ⟨ix', hix', linkNeighbor_rewired hix'⟩
  rw [linkNeighbor]
  split
  · exact .ok trivial
  rename_i neighbor hnode
  split
  · exact .ok trivial
  rename_i connections hconn
  have hlinked := rewired_setConnections hnode rfl layer (connections ++ [id])
  simp only
  split
  · obtain ⟨vec, hvec⟩ := Option.isSome_iff_exists.mp hget
    have hlist := hsorts vec hvec
    rw [neighborsAt_eq hnode hconn, ← hlinked.sortsRanked] at hlist
    have huniform : vectors.Uniform vec.length := by
      rw [hv neighborId vec hvec]
      exact hv
    simp only [hvec]
    exact (selectNeighbors_returns (hlinked.config ▸ hmode) huniform hlist m).bind
      fun pruned _ => .ok trivial
  · exact .ok trivial

theorem connectLayer_returns {st : Insertion} (hmode : st.index.config.mode.Implemented)
    {vector : Vector32} (hv : vectors.Uniform vector.length)
    (hfound : st.index.SortsFound vectors vector) (hlists : st.index.SortsLists vectors id layer)
    (hentry : st.currentEntry.Nodup) :
    Returns (fun st' => Rewired st.index st'.index ∧ st'.currentEntry.Nodup ∧
        ∀ n l, l ≠ layer → st'.index.neighborsAt n l = st.index.neighborsAt n l)
      (connectLayer id vector vectors st layer) := by
  rw [connectLayer]
  refine Returns.bind (searchLayer_returns hmode hv hfound hentry _ _) ?_
  rintro entry ⟨hlive, hdistinct⟩
  have hselect := selectNeighbors_returns hmode hv (hfound.sortsRanked hdistinct)
    (if layer = 0 then st.index.config.mMax else st.index.config.m)
  obtain ⟨ns, hns, hsub⟩ := hselect
  have hnodup := selectNeighbors_nodup hdistinct hns
  refine Returns.bind (P := fun ns' => ns' = ns) ⟨ns, hns, rfl⟩ ?_
  rintro ns' rfl
  -- no list is read after an edge has been added to it
  have hloop := foldlM_returns (f := linkNeighbor id layer
      (if layer = 0 then st.index.config.mMax else st.index.config.m) vectors)
    (fun rest (ix : HnswIndex) => rest.Nodup ∧ (∀ n ∈ rest, n ∈ ns') ∧ Rewired st.index ix ∧
      (∀ n ∈ rest, ix.neighborsAt n layer = st.index.neighborsAt n layer) ∧
      ∀ n l, l ≠ layer → ix.neighborsAt n l = st.index.neighborsAt n l)
    (l := ns') (b := st.index) ?_ ?_
  · refine Returns.bind hloop ?_
    rintro ix ⟨-, -, hrewired, -, hothers⟩
    exact .ok ⟨hrewired, hdistinct, hothers⟩
  · rintro n rest ix ⟨hrest, hmem, hrewired, hsame, hothers⟩
    obtain ⟨hn, hrest⟩ := List.nodup_cons.mp hrest
    have hget := (hlive n (hsub n (hmem n List.mem_cons_self))).1
    have hlist : ∀ v, vectors.get n = some v →
        ix.SortsRanked vectors v (ix.neighborsAt n layer ++ [id]) := by
      rw [hsame n List.mem_cons_self, hrewired.sortsRanked]
      exact hlists n
    obtain ⟨ix', hret, hlinked⟩ := linkNeighbor_returns (hrewired.config ▸ hmode) hv hget hlist
      (if layer = 0 then st.index.config.mMax else st.index.config.m)
    refine ⟨ix', hret, hrest, fun n' hn' => hmem n' (List.mem_cons_of_mem _ hn'),
      hrewired.trans hlinked, fun n' hn' => ?_, fun n' l hl => ?_⟩
    · rw [neighborsAt_linkNeighbor hret fun h => hn (h.1 ▸ hn')]
      exact hsame n' (List.mem_cons_of_mem _ hn')
    · rw [neighborsAt_linkNeighbor hret fun h => hl h.2]
      exact hothers n' l hl
  · exact ⟨hnodup, fun _ hn => hn, .refl _, fun _ _ => rfl, fun _ _ _ => rfl⟩

/-- Into an empty graph nothing is compared, and nothing is sorted. -/
theorem insert_returns (hmode : ix.config.mode.Implemented) {vector : Vector32}
    (hv : vectors.Uniform vector.length)
    (hsorts : ix.startNode.isSome → ix.SortsDistances vectors id vector) (r : F32) :
    Returns (Inserted id (ix.randomLayer r) ix) (ix.insert id vector vectors r) := by
  suffices hret : Returns (fun _ => True) (ix.insert id vector vectors r) by
    obtain ⟨ix', hix', -⟩ := hret
    exact ⟨ix', hix', insert_inserted hix'⟩
  rw [insert]
  simp only
  split
  · exact .ok trivial
  rename_i start hstart
  obtain ⟨hfound, hlists⟩ := hsorts (by rw [hstart]; rfl)
  have hdescend := foldlM_returns
    (f := fun entry lc => ix.searchLayer vector entry 1 lc ⟨vectors, none, ∅⟩)
    (fun _ (entry : List Uuid) => entry.Nodup)
    (l := (List.range' (ix.randomLayer r + 1)
      (ix.maxLevel - (ix.randomLayer r : Int)).toNat).reverse) (b := [start])
    (fun lc _ entry hentry =>
      (searchLayer_returns hmode hv hfound hentry 1 lc).mono fun _ hids => hids.2)
    (List.nodup_singleton start)
  refine hdescend.bind fun entry hentry => ?_
  -- every layer is connected once, with the lists that the graph had
  have hconnect := foldlM_returns (f := connectLayer id vector vectors)
    (fun rest (st : Insertion) => rest.Nodup ∧ Rewired ix st.index ∧ st.currentEntry.Nodup ∧
      ∀ n, ∀ layer ∈ rest, st.index.neighborsAt n layer = ix.neighborsAt n layer)
    (l := (List.range (ix.randomLayer r + 1)).reverse)
    (b := ⟨ix, entry, List.replicate (ix.randomLayer r + 1) []⟩) ?_ ?_
  · refine Returns.bind hconnect fun st _ => ?_
    split
    · exact .ok trivial
    · exact .ok trivial
  · rintro layer rest st ⟨hrest, hrewired, hentry, hsame⟩
    obtain ⟨hlayer, hrest⟩ := List.nodup_cons.mp hrest
    have hlist : st.index.SortsLists vectors id layer := by
      intro n v hget
      rw [hsame n layer List.mem_cons_self, hrewired.sortsRanked]
      exact hlists layer n v hget
    refine (connectLayer_returns (hrewired.config ▸ hmode) hv (hrewired.sortsFound ▸ hfound) hlist
      hentry).mono ?_
    rintro st' ⟨hst', hentry', hothers⟩
    refine ⟨hrest, hrewired.trans hst', hentry', fun n l hl => ?_⟩
    rw [hothers n l fun heq => hlayer (heq ▸ hl)]
    exact hsame n l (List.mem_cons_of_mem _ hl)
  · exact ⟨List.nodup_reverse.mpr List.nodup_range, .refl ix, hentry, fun _ _ _ => rfl⟩

end

end HnswIndex
