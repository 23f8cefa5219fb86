-- SUMMARY: What insertions that return and removals keep of an index: which ids it tracks, and that its parts agree.
import Piramid.Index.Selector

/-!
# Indexes that are intact

An index is intact if a search only comes across ids that it tracks. An insertion
adds its id to those, or tracks what the reader holds.
-/

open BinaryHeap Loop

/-! ## HNSW -/

namespace HnswIndex

/-- The entry point is live. -/
def Entered (ix : HnswIndex) : Prop := ∀ s, ix.startNode = some s → s ∈ ix.trackedIds

variable {ix ix' : HnswIndex} {id : Uuid}

theorem Entered.inserted (h : ix.Entered) {layer : Nat} (hins : Inserted id layer ix ix') :
    ix'.Entered := by
  intro s hs
  rw [hins.trackedIds, Finset.mem_insert]
  rw [hins.startNode] at hs
  split at hs
  · exact .inl (Option.some.inj hs).symm
  · exact .inr (h s hs)

/-- The graph once a removal has chosen the entry point anew. -/
theorem entered_live (ix : HnswIndex) (order : HashOrder Uuid) (maxLevel : Int) :
    Entered { ix with
      startNode := (((order.entries ix.nodes).filter fun entry => !entry.2.tombstone).head?).map
        Prod.fst
      maxLevel } := by
  intro s hs
  obtain ⟨⟨s', node⟩, hhead, rfl⟩ := Option.map_eq_some_iff.mp hs
  have hmem := List.mem_of_mem_head? hhead
  rw [List.mem_filter, HashOrder.mem_entries] at hmem
  obtain ⟨hnode, hlive⟩ := hmem
  refine mem_trackedIds.mpr ⟨Finmap.mem_iff.mpr ⟨node, hnode⟩, ?_⟩
  simpa [isTombstone, hnode] using hlive

theorem Entered.remove (h : ix.Entered) (id : Uuid) (order : HashOrder Uuid) :
    (ix.remove id order).Entered := by
  rw [HnswIndex.remove]
  split
  · exact h
  simp only
  split
  · exact entered_live _ _ _
  · rename_i hstart
    have hmark : (ix.markTombstone id).startNode = ix.startNode := by
      rw [markTombstone]
      split <;> rfl
    intro s hs
    rw [trackedIds_markTombstone, Finset.mem_erase]
    refine ⟨fun heq => hstart (heq ▸ hs), h s ?_⟩
    rw [← hmark]
    exact hs

/-! ### Edges -/

section
variable [Floats] {ix ix' : HnswIndex} {vectors : VectorReader} {context : SearchContext} {query : Vector32}
  {P : Uuid → Prop}

/-- Everything in `nearest` satisfies `P`, is live and has a vector. -/
def Within (ix : HnswIndex) (vectors : VectorReader) (P : Uuid → Prop) (st : LayerSearch) : Prop :=
  ∀ c ∈ st.nearest, P c.id ∧ ix.Found vectors c.id

theorem enterAt_within {st st' : LayerSearch} {ep : Uuid} (hst : ix.Within context.vectors P st)
    (hep : P ep) (hret : ix.enterAt query context st ep = .ok st') :
    ix.Within context.vectors P st' := by
  unfold enterAt at hret
  split at hret
  · cases hret
    exact hst
  rename_i epVector hget
  split at hret
  · cases hret
    exact hst
  rw [bind_eq_ok] at hret
  obtain ⟨dist, -, hret⟩ := hret
  obtain rfl := Except.ok.inj hret
  intro c hc
  cases hdead : ix.isTombstone ep with
  | true =>
      simp only [hdead, if_true] at hc
      exact hst c hc
  | false =>
      simp only [hdead, Bool.false_eq_true, if_false, mem_push] at hc
      rcases hc with rfl | hc
      · exact ⟨hep, by simp [hget], hdead⟩
      · exact hst c hc

theorem visitNeighbor_within {st st' : LayerSearch} {neighborId : Uuid} {numClosest : Nat}
    (hst : ix.Within context.vectors P st) (hneighbor : P neighborId)
    (hret : ix.visitNeighbor query numClosest context st neighborId = .ok st') :
    ix.Within context.vectors P st' := by
  unfold visitNeighbor at hret
  split at hret
  · cases hret
    exact hst
  simp only at hret
  split at hret
  · cases hret
    exact hst
  rename_i neighborVector hget
  split at hret
  · cases hret
    exact hst
  rw [bind_eq_ok] at hret
  obtain ⟨dist, -, hret⟩ := hret
  split at hret
  · split at hret
    · cases hret
      exact hst
    · rename_i hdead
      cases hret
      intro c hc
      rcases mem_pushNearest hc with rfl | hc
      · exact ⟨hneighbor, by simp [hget], by simpa using hdead⟩
      · exact hst c hc
  · cases hret
    exact hst

theorem exploreLayer_within {numClosest level fuel : Nat} {st st' : LayerSearch}
    (hedges : ∀ id, ∀ n ∈ ix.neighborsAt id level, P n) (hst : ix.Within context.vectors P st)
    (hret : ix.exploreLayer query numClosest level context fuel st = .ok st') :
    ix.Within context.vectors P st' := by
  induction fuel generalizing st with
  | zero => cases hret
  | succ fuel ih =>
      unfold exploreLayer at hret
      split at hret
      · cases hret
        exact hst
      split at hret
      · cases hret
        exact hst
      rename_i candidate rest _ _
      rw [bind_eq_ok] at hret
      obtain ⟨st₁, hloop, hret⟩ := hret
      refine ih ?_ hret
      refine (foldlM_keeps (fun ns (st : LayerSearch) => (∀ n ∈ ns, P n) ∧
        ix.Within context.vectors P st) ?_ ?_ hloop).2
      · rintro n ns st₂ st₃ ⟨hns, hst₂⟩ hstep
        exact ⟨fun n' hn' => hns n' (by simp [hn']), visitNeighbor_within hst₂ (hns n (by simp)) hstep⟩
      · exact ⟨hedges candidate.id, hst⟩

/-- A layer search that returns only finds live ids with a vector, and only such that
its entry points and the edges lead to. -/
theorem searchLayer_within {entryPoints ids : List Uuid} {numClosest level : Nat}
    (hedges : ∀ id, ∀ n ∈ ix.neighborsAt id level, P n) (hentry : ∀ ep ∈ entryPoints, P ep)
    (hret : ix.searchLayer query entryPoints numClosest level context = .ok ids) :
    ∀ id ∈ ids, P id ∧ ix.Found context.vectors id := by
  obtain ⟨st₂, htraverse, hperm⟩ := searchLayer_ok hret
  obtain ⟨st₁, henter, hexplore⟩ := bind_eq_ok.mp htraverse
  have hst₁ : ix.Within context.vectors P st₁ := by
    refine (foldlM_keeps (fun eps (st : LayerSearch) => (∀ ep ∈ eps, P ep) ∧
      ix.Within context.vectors P st) ?_ ?_ henter).2
    · rintro ep eps st st' ⟨heps, hst⟩ hstep
      exact ⟨fun ep' hep' => heps ep' (by simp [hep']), enterAt_within hst (heps ep (by simp)) hstep⟩
    · exact ⟨hentry, fun c hc => by cases hc⟩
  have hst₂ : ix.Within context.vectors P st₂ := by
    refine exploreLayer_within hedges ?_ hexplore
    exact hst₁
  intro id hid
  obtain ⟨c, hc, rfl⟩ := List.mem_map.mp (hperm.mem_iff.mp hid)
  exact hst₂ c hc

theorem selectNeighbors_subset {candidates ns : List Uuid} {m : Nat}
    (hret : ix.selectNeighbors candidates m vectors query = .ok ns) : ∀ n ∈ ns, n ∈ candidates := by
  rcases selectNeighbors_ok hret with ⟨-, rfl⟩ | ⟨-, ranked, sorted, hrank, hsort, rfl⟩
  · exact fun n => id
  have hkeep := foldlM_keeps (fun rest (ranked : List (Uuid × F32)) =>
    (∀ id ∈ rest, id ∈ candidates) ∧ ∀ e ∈ ranked, e.1 ∈ candidates) ?_ ⟨fun _ => id, by simp⟩ hrank
  · intro n hn
    obtain ⟨e, he, rfl⟩ := List.mem_map.mp hn
    exact hkeep.2 e ((sortBy_perm hsort).mem_iff.mp (List.mem_of_mem_take he))
  · rintro id rest ranked ranked' ⟨hrest, hranked⟩ hstep
    refine ⟨fun id' hid' => hrest id' (by simp [hid']), ?_⟩
    unfold rankNeighbor at hstep
    split at hstep
    · cases hstep
      exact hranked
    split at hstep
    · cases hstep
      exact hranked
    rw [bind_eq_ok] at hstep
    obtain ⟨dist, -, hstep⟩ := hstep
    cases hstep
    intro e he
    rcases List.mem_append.mp he with he | he
    · exact hranked e he
    · rw [List.mem_singleton.mp he]
      exact hrest id (by simp)

/-- Every edge leads to an id that satisfies `P`. -/
def Edges (P : Uuid → Prop) (ix : HnswIndex) : Prop :=
  ∀ id level, ∀ n ∈ ix.neighborsAt id level, P n

/-- Every edge leads to an id that satisfies `P` of the layer of the edge. -/
def EdgesAt (P : Nat → Uuid → Prop) (ix : HnswIndex) : Prop :=
  ∀ id level, ∀ n ∈ ix.neighborsAt id level, P level n

variable {P : Nat → Uuid → Prop}

omit [Floats] in
theorem EdgesAt.node (h : ix.EdgesAt P) {id : Uuid} {node : HnswNode}
    (hnode : ix.nodes.lookup id = some node) (layer : Nat) :
    ∀ n ∈ (node.connections[layer]?).getD [], P layer n := by
  intro n hn
  refine h id layer n ?_
  unfold neighborsAt
  rw [hnode]
  exact hn

omit [Floats] in
/-- A node with its lists, one of them replaced. -/
theorem EdgesAt.setConnections (h : ix.EdgesAt P) {id : Uuid} {node : HnswNode} {layer : Nat}
    {ns : List Uuid} (hnode : ∀ layer : Nat, ∀ n ∈ (node.connections[layer]?).getD [], P layer n)
    (hns : ∀ n ∈ ns, P layer n) : (ix.setConnections id node layer ns).EdgesAt P := by
  intro id' level n hn
  unfold neighborsAt HnswIndex.setConnections at hn
  rw [HashMap.lookup_insert] at hn
  split at hn
  · simp only [Option.bind_some, List.getElem?_set] at hn
    split at hn
    · rename_i heq
      split at hn
      · exact heq ▸ hns n hn
      · cases hn
    · exact hnode level n hn
  · exact h id' level n hn

theorem linkNeighbor_edges {id neighborId : Uuid} {layer m : Nat} (h : ix.EdgesAt P) (hid : P layer id)
    (hret : linkNeighbor id layer m vectors ix neighborId = .ok ix') : ix'.EdgesAt P := by
  unfold linkNeighbor at hret
  split at hret
  · cases hret
    exact h
  rename_i neighbor hnode
  split at hret
  · cases hret
    exact h
  rename_i connections hconn
  have hlinked : ∀ n ∈ connections ++ [id], P layer n := by
    intro n hn
    rcases List.mem_append.mp hn with hn | hn
    · refine h.node hnode layer n ?_
      rw [hconn]
      exact hn
    · exact List.mem_singleton.mp hn ▸ hid
  have hset : (ix.setConnections neighborId neighbor layer (connections ++ [id])).EdgesAt P :=
    h.setConnections (h.node hnode) hlinked
  simp only at hret
  split at hret
  · split at hret
    · cases hret
    rw [bind_eq_ok] at hret
    obtain ⟨pruned, hpruned, hret⟩ := hret
    cases hret
    exact hset.setConnections (h.node hnode) fun n hn =>
      hlinked n (selectNeighbors_subset hpruned n hn)
  · cases hret
    exact hset

theorem connectLayer_edges {id : Uuid} {vector : Vector32} {st st' : Insertion} {layer : Nat}
    (h : st.index.EdgesAt P) (hid : P layer id) (hentry : ∀ ep ∈ st.currentEntry, P layer ep)
    (hpending : ∀ level ns, st.pendingConnections[level]? = some ns → ∀ n ∈ ns, P level n)
    (hret : connectLayer id vector vectors st layer = .ok st') :
    st'.index.EdgesAt P ∧ (∀ ep ∈ st'.currentEntry, P layer ep) ∧
      ∀ level ns, st'.pendingConnections[level]? = some ns → ∀ n ∈ ns, P level n := by
  rw [connectLayer, bind_eq_ok] at hret
  obtain ⟨entry, hsearch, hret⟩ := hret
  rw [bind_eq_ok] at hret
  obtain ⟨neighbors, hselect, hret⟩ := hret
  rw [bind_eq_ok] at hret
  obtain ⟨index, hloop, hret⟩ := hret
  cases hret
  have hentry' : ∀ ep ∈ entry, P layer ep := fun ep hep =>
    (searchLayer_within (fun id => h id layer) hentry hsearch ep hep).1
  refine ⟨?_, hentry', ?_⟩
  · exact foldlM_keeps (fun _ ix => ix.EdgesAt P)
      (fun _ _ _ _ hix hstep => linkNeighbor_edges hix hid hstep) h hloop
  · intro level ns hns n hn
    rw [List.getElem?_set] at hns
    split at hns
    · rename_i heq
      split at hns
      · cases hns
        exact heq ▸ hentry' n (selectNeighbors_subset hselect n hn)
      · cases hns
    · exact hpending level ns hns n hn

/-- An insertion only adds edges to the nodes there are and to the new one. What holds of
an edge is to hold of one at any layer below. -/
theorem insert_edgesAt {id : Uuid} {vector : Vector32} {r : F32} (h : ix.EdgesAt P)
    (hdown : ∀ {level level' : Nat} {n : Uuid}, level ≤ level' → P level' n → P level n)
    (hstart : ∀ s, ix.startNode = some s → P (ix.randomLayer r) s) (hid : P (ix.randomLayer r) id)
    (hret : ix.insert id vector vectors r = .ok ix') : ix'.EdgesAt P := by
  have hnode : ∀ {ix : HnswIndex} {pending : List (List Uuid)}, ix.EdgesAt P →
      (∀ level ns, pending[level]? = some ns → ∀ n ∈ ns, P level n) →
      EdgesAt P { ix with nodes := ix.nodes.insert id ⟨pending, false⟩ } := by
    intro ix pending hix hpending id' level n hn
    unfold neighborsAt at hn
    rw [HashMap.lookup_insert] at hn
    split at hn
    · rw [Option.bind_some] at hn
      cases hlist : pending[level]? with
      | none => simp [hlist] at hn
      | some ns => exact hpending level ns hlist n (by simpa [hlist] using hn)
    · exact hix id' level n hn
  have hempty : ∀ n level ns, (List.replicate n ([] : List Uuid))[level]? = some ns →
      ∀ n ∈ ns, P level n := by
    intro n level ns hns n' hn'
    rw [List.eq_of_mem_replicate (List.mem_of_getElem? hns)] at hn'
    cases hn'
  rw [insert] at hret
  simp only at hret
  split at hret
  · cases hret
    exact hnode h (hempty _)
  rename_i start hsome
  rw [bind_eq_ok] at hret
  obtain ⟨entry, hdescend, hret⟩ := hret
  rw [bind_eq_ok] at hret
  obtain ⟨st, hconnect, hret⟩ := hret
  have hentry : ∀ ep ∈ entry, P (ix.randomLayer r) ep := by
    refine (foldlM_keeps (fun rest entry => (∀ lc ∈ rest, ix.randomLayer r ≤ lc) ∧
      ∀ ep ∈ entry, P (ix.randomLayer r) ep) ?_ ⟨?_, ?_⟩ hdescend).2
    · rintro lc rest entry entry' ⟨hrest, hentry⟩ hstep
      refine ⟨fun lc' hlc' => hrest lc' (List.mem_cons_of_mem _ hlc'), fun ep hep => ?_⟩
      have habove : ∀ id, ∀ n ∈ ix.neighborsAt id lc, P (ix.randomLayer r) n := fun id n hn =>
        hdown (hrest lc List.mem_cons_self) (h id lc n hn)
      exact (searchLayer_within habove hentry hstep ep hep).1
    · intro lc hlc
      rw [List.mem_reverse, List.mem_range'_1] at hlc
      omega
    · exact fun ep hep => List.mem_singleton.mp hep ▸ hstart start hsome
  -- the layers come highest first
  have hst := foldlM_keeps (fun rest (st : Insertion) => rest.Pairwise (· > ·) ∧ st.index.EdgesAt P ∧
      (∀ lc ∈ rest, lc ≤ ix.randomLayer r) ∧ (∀ lc ∈ rest, ∀ ep ∈ st.currentEntry, P lc ep) ∧
      ∀ level ns, st.pendingConnections[level]? = some ns → ∀ n ∈ ns, P level n) ?_ ?_ hconnect
  · split at hret
    · cases hret
      exact hnode hst.2.1 hst.2.2.2.2
    · cases hret
      exact hnode hst.2.1 hst.2.2.2.2
  · rintro lc rest st st' ⟨hsorted, hedges, hlow, hentries, hpending⟩ hstep
    obtain ⟨hfirst, hsorted⟩ := List.pairwise_cons.mp hsorted
    obtain ⟨hedges', hentry', hpending'⟩ := connectLayer_edges hedges
      (hdown (hlow lc List.mem_cons_self) hid) (hentries lc List.mem_cons_self) hpending hstep
    refine ⟨hsorted, hedges', fun lc' hlc' => hlow lc' (List.mem_cons_of_mem _ hlc'),
      fun lc' hlc' ep hep => ?_, hpending'⟩
    exact hdown (le_of_lt (hfirst lc' hlc')) (hentry' ep hep)
  · have hrange : ∀ lc ∈ (List.range (ix.randomLayer r + 1)).reverse, lc ≤ ix.randomLayer r := by
      intro lc hlc
      rw [List.mem_reverse, List.mem_range] at hlc
      omega
    refine ⟨List.pairwise_reverse.mpr List.pairwise_lt_range, h, hrange, ?_, hempty _⟩
    exact fun lc hlc ep hep => hdown (hrange lc hlc) (hentry ep hep)

theorem insert_edges {P : Uuid → Prop} {id : Uuid} {vector : Vector32} {r : F32} (h : ix.Edges P)
    (hstart : ∀ s, ix.startNode = some s → P s) (hid : P id)
    (hret : ix.insert id vector vectors r = .ok ix') : ix'.Edges P :=
  insert_edgesAt (P := fun _ => P) h (fun _ hn => hn) hstart hid hret

end

/-- Every edge leads to a node. -/
def Wired (ix : HnswIndex) : Prop := ix.Edges (· ∈ ix.nodes.keys)

theorem Wired.insert [Floats] {vector : Vector32} {vectors : VectorReader} {r : F32} (h : ix.Wired)
    (hentered : ix.Entered) (hret : ix.insert id vector vectors r = .ok ix') : ix'.Wired := by
  have hkeys := (insert_inserted hret).keys
  unfold Wired
  rw [hkeys]
  refine insert_edges (P := (· ∈ Insert.insert id ix.nodes.keys)) ?_ ?_ ?_ hret
  · intro id' level n hn
    exact Finset.mem_insert_of_mem (h id' level n hn)
  · intro s hs
    exact Finset.mem_insert_of_mem (Finmap.mem_keys.mpr (mem_trackedIds.mp (hentered s hs)).1)
  · exact Finset.mem_insert_self _ _

theorem Wired.markTombstone (h : ix.Wired) (id : Uuid) : (ix.markTombstone id).Wired := by
  unfold HnswIndex.markTombstone
  cases hnode : ix.nodes.lookup id with
  | none => exact h
  | some node =>
      intro id' level n hn
      rw [HashMap.keys_insert]
      unfold neighborsAt at hn
      rw [HashMap.lookup_insert] at hn
      split at hn
      · exact Finset.mem_insert_of_mem (EdgesAt.node (P := fun _ n => n ∈ ix.nodes.keys) h hnode level n hn)
      · exact Finset.mem_insert_of_mem (h id' level n hn)

theorem Wired.remove (h : ix.Wired) (id : Uuid) (order : HashOrder Uuid) :
    (ix.remove id order).Wired := by
  unfold HnswIndex.remove
  split
  · exact h
  simp only
  split
  · exact h.markTombstone id
  · exact h.markTombstone id

end HnswIndex

/-! ## IVF -/

namespace IvfIndex

/-- An id in a list is assigned to it. -/
def Assigned (ix : IvfIndex) : Prop :=
  ∀ i l, ix.invertedLists[i]? = some l → ∀ id ∈ l, ix.vectorToCluster.lookup id = some i

/-- No id is twice in the lists. -/
structure Parted (ix : IvfIndex) : Prop where
  assigned : ix.Assigned
  nodup : ∀ l ∈ ix.invertedLists, l.Nodup

variable {ix ix' : IvfIndex} {id : Uuid}

/-- A new id is in no list. -/
theorem Assigned.not_mem (h : ix.Assigned) (hid : id ∉ ix.vectorToCluster.keys) {l : List Uuid}
    (hl : l ∈ ix.invertedLists) : id ∉ l := by
  obtain ⟨i, hi⟩ := List.mem_iff_getElem?.mp hl
  exact fun hmem => hid ((HashMap.mem_keys_iff _ _).mpr ⟨i, h i l hi id hmem⟩)

/-- A new id goes into a list. -/
theorem Assigned.push (h : ix.Assigned) (hid : id ∉ ix.vectorToCluster.keys) (i : Nat) :
    Assigned { ix with
      invertedLists := ix.invertedLists.modify i (· ++ [id])
      vectorToCluster := ix.vectorToCluster.insert id i } := by
  have hold : ∀ id' j, ix.vectorToCluster.lookup id' = some j →
      (ix.vectorToCluster.insert id i).lookup id' = some j := by
    intro id' j hj
    have hne : id' ≠ id := by
      intro heq
      exact hid ((HashMap.mem_keys_iff _ _).mpr ⟨j, heq ▸ hj⟩)
    rw [HashMap.lookup_insert, if_neg hne]
    exact hj
  intro j l hl id' hid'
  rw [List.getElem?_modify, Option.map_eq_map, Option.map_eq_some_iff] at hl
  obtain ⟨l', hl', rfl⟩ := hl
  by_cases hij : i = j
  · rw [if_pos hij] at hid'
    rcases List.mem_append.mp hid' with hmem | hmem
    · exact hold id' j (h j l' hl' id' hmem)
    · rw [List.mem_singleton.mp hmem, HashMap.lookup_insert, if_pos rfl, hij]
  · rw [if_neg hij] at hid'
    exact hold id' j (h j l' hl' id' hid')

theorem Parted.push (h : ix.Parted) (hid : id ∉ ix.vectorToCluster.keys) (i : Nat) :
    Parted { ix with
      invertedLists := ix.invertedLists.modify i (· ++ [id])
      vectorToCluster := ix.vectorToCluster.insert id i } := by
  refine ⟨h.assigned.push hid i, fun l hl => ?_⟩
  obtain ⟨j, hj⟩ := List.mem_iff_getElem?.mp hl
  rw [List.getElem?_modify, Option.map_eq_map, Option.map_eq_some_iff] at hj
  obtain ⟨l', hl', rfl⟩ := hj
  have hmem := List.mem_of_getElem? hl'
  split
  · refine List.nodup_append'.mpr ⟨h.nodup l' hmem, List.nodup_singleton id, ?_⟩
    exact List.disjoint_singleton.mpr (h.assigned.not_mem hid hmem)
  · exact h.nodup l' hmem

section

variable [Floats]

theorem Parted.assign (h : ix.Parted) {entry : Uuid × Vector32}
    (hid : entry.1 ∉ ix.vectorToCluster.keys) (hret : ix.assign entry = .ok ix') :
    ix'.Parted ∧ ix'.vectorToCluster.keys = Insert.insert entry.1 ix.vectorToCluster.keys := by
  rw [IvfIndex.assign, bind_eq_ok] at hret
  obtain ⟨i, -, hret⟩ := hret
  rw [bind_eq_ok] at hret
  obtain ⟨lists, hpush, hret⟩ := hret
  cases hret
  rw [pushAt] at hpush
  split at hpush
  · cases hpush
    exact ⟨h.push hid i, HashMap.keys_insert _ _ _⟩
  · cases hpush

theorem parted_buildClusters {vectors : VectorReader} (h : ix.Parted)
    (hret : ix.buildClusters vectors = .ok ix') : ix'.Parted := by
  rw [buildClusters] at hret
  split at hret
  · cases hret
    exact h
  rw [bind_eq_ok] at hret
  obtain ⟨ix₁, -, hret⟩ := hret
  have hnodup : (vectors.iter.map Prod.fst).Nodup := by
    unfold VectorReader.iter
    rw [HashOrder.map_fst_entries]
    exact vectors.order.nodup _
  refine (foldlM_keeps (fun (rest : List (Uuid × Vector32)) (ix₂ : IvfIndex) => ix₂.Parted ∧
      (rest.map Prod.fst).Nodup ∧ ∀ id ∈ rest.map Prod.fst, id ∉ ix₂.vectorToCluster.keys)
    ?_ ?_ hret).1
  · rintro entry rest ix₂ ix₃ ⟨hix₂, hrest, hfresh⟩ hstep
    rw [List.map_cons, List.nodup_cons] at hrest
    obtain ⟨hix₃, hkeys⟩ := hix₂.assign (hfresh entry.1 (by simp)) hstep
    refine ⟨hix₃, hrest.2, ?_⟩
    intro id hid
    rw [hkeys, Finset.mem_insert, not_or]
    exact ⟨fun heq => hrest.1 (heq ▸ hid), hfresh id (by simp [hid])⟩
  · refine ⟨⟨?_, ?_⟩, hnodup, by simp⟩
    · intro i l hl id hid
      rw [List.getElem?_replicate] at hl
      split at hl
      · cases hl
        cases hid
      · cases hl
    · intro l hl
      rw [List.eq_of_mem_replicate hl]
      exact List.nodup_nil

theorem Parted.insert (h : ix.Parted) {vector : Vector32} {vectors : VectorReader}
    (hret : ix.insert id vector vectors = .ok ix') : ix'.Parted := by
  rw [IvfIndex.insert] at hret
  split at hret
  · cases hret
    exact h
  rename_i hid
  split at hret
  · simp only at hret
    have hpending : IvfIndex.Parted { ix with
        pendingVectors := Insert.insert id ix.pendingVectors } := ⟨h.assigned, h.nodup⟩
    split at hret
    · exact parted_buildClusters hpending hret
    · cases hret
      exact hpending
  rw [bind_eq_ok] at hret
  obtain ⟨i, -, hret⟩ := hret
  split at hret
  · cases hret
    exact h
  · cases hret
    refine h.push ?_ i
    rw [Finmap.mem_keys]
    exact fun hmem => hid (.inl hmem)

end

theorem Assigned.remove (h : ix.Assigned) (id : Uuid) : (ix.remove id).Assigned := by
  unfold IvfIndex.remove
  simp only
  cases hlookup : ix.vectorToCluster.lookup id with
  | none => exact h
  | some i =>
      intro j l hl id' hid'
      simp only [List.getElem?_modify, Option.map_eq_map, Option.map_eq_some_iff] at hl
      obtain ⟨l', hl', rfl⟩ := hl
      by_cases hij : i = j
      · rw [if_pos hij, List.mem_filter, decide_eq_true_eq] at hid'
        rw [HashMap.lookup_erase, if_neg hid'.2]
        exact h j l' hl' id' hid'.1
      · rw [if_neg hij] at hid'
        have hold := h j l' hl' id' hid'
        have hne : id' ≠ id := by
          intro heq
          rw [heq, hlookup, Option.some.injEq] at hold
          exact hij hold
        rw [HashMap.lookup_erase, if_neg hne]
        exact hold

theorem Parted.remove (h : ix.Parted) (id : Uuid) : (ix.remove id).Parted := by
  refine ⟨h.assigned.remove id, fun l hl => ?_⟩
  unfold IvfIndex.remove at hl
  simp only at hl
  cases hlookup : ix.vectorToCluster.lookup id with
  | none =>
      rw [hlookup] at hl
      exact h.nodup l hl
  | some i =>
      rw [hlookup] at hl
      obtain ⟨j, hj⟩ := List.mem_iff_getElem?.mp hl
      simp only [List.getElem?_modify, Option.map_eq_map, Option.map_eq_some_iff] at hj
      obtain ⟨l', hl', rfl⟩ := hj
      have hnodup := h.nodup l' (List.mem_of_getElem? hl')
      split
      · exact hnodup.filter _
      · exact hnodup

end IvfIndex

/-! ## Any index -/

namespace VectorIndex

/-- A search only comes across tracked ids, and comes across each once. -/
def Intact : VectorIndex → Prop
  | .flat ix => ix.vectorIds.Nodup
  | .hnsw ix => ix.Entered ∧ ix.Wired
  | .ivf ix => ix.Listed ∧ ix.Parted

variable {ix ix' : VectorIndex} {id : Uuid}

theorem Intact.remove (h : ix.Intact) (id : Uuid) (order : HashOrder Uuid) :
    (ix.remove id order).Intact := by
  cases ix with
  | flat ix => exact List.Nodup.filter _ h
  | hnsw ix => exact ⟨h.1.remove id order, h.2.remove id order⟩
  | ivf ix => exact ⟨IvfIndex.listed_remove h.1 id, h.2.remove id⟩

/-- An insertion adds its id to the tracked ones. Only an IVF index may instead track
all that the reader holds. -/
structure Inserted (ix : VectorIndex) (id : Uuid) (vectors : VectorReader) (ix' : VectorIndex) :
    Prop where
  intact : ix'.Intact
  indexType : ix'.indexType = ix.indexType
  tracks : ix'.trackedIds = Insert.insert id ix.trackedIds ∨
    ix.indexType ≠ .hnsw ∧ ix'.trackedIds = vectors.vectors.keys

theorem Intact.insert [Floats] (h : ix.Intact) {vector : Vector32} {vectors : VectorReader} {r : F32}
    (hret : ix.insert id vector vectors r = .ok ix') : Inserted ix id vectors ix' := by
  cases ix with
  | flat ix =>
      cases hret
      exact ⟨FlatIndex.nodup_insert h id, rfl, .inl (ix.trackedIds_insert id)⟩
  | hnsw ix =>
      obtain ⟨ix₁, hins, rfl⟩ := map_eq_ok.mp hret
      have hinserted := HnswIndex.insert_inserted hins
      exact ⟨⟨h.1.inserted hinserted, h.2.insert h.1 hins⟩, rfl, .inl hinserted.trackedIds⟩
  | ivf ix =>
      obtain ⟨ix₁, hins, rfl⟩ := map_eq_ok.mp hret
      by_cases hre : ix.Rebuilds id vectors
      · obtain ⟨htracked, hlisted, -, -⟩ := IvfIndex.insert_rebuilds hre hins
        exact ⟨⟨hlisted, h.2.insert hins⟩, rfl, .inr ⟨by simp [VectorIndex.indexType], htracked⟩⟩
      · obtain ⟨htracked, hlisted, -, -⟩ := IvfIndex.insert_tracks hre h.1 hins
        exact ⟨⟨hlisted, h.2.insert hins⟩, rfl, .inl htracked⟩

end VectorIndex

theorem IndexConfig.intact_createIndex [Floats] (config : IndexConfig) (n : Nat) :
    (config.createIndex n).Intact := by
  unfold IndexConfig.createIndex
  split
  · exact List.nodup_nil
  · refine ⟨fun s hs => ?_, fun id level n hn => ?_⟩
    · cases hs
    · simp [HnswIndex.new, HnswIndex.neighborsAt] at hn
  · refine ⟨rfl, ⟨fun i l hl => ?_, fun l hl => ?_⟩⟩
    · cases hl
    · cases hl
