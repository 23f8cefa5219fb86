-- SUMMARY: The graph that insertions and removals build is safe: its edges lead to nodes, its lists are short, and its entry point is live.
import Piramid.Index.Validated

/-!
# Safety of the graph

The graphs are those that insertions and removals make of an empty one. Neither an
insertion, nor a search, nor the statistics can fail on them for what is in the graph.
-/

open Loop

/-- `index::hnsw::HnswStats`. -/
structure HnswStats where
  totalNodes : Nat
  maxLayer : Int
  layerSizes : List Nat
  tombstones : Nat
  avgConnections : F32
  memoryUsageBytes : Nat

/-- The most neighbours a node has at a layer. -/
def HnswConfig.degree (config : HnswConfig) (layer : Nat) : Nat :=
  if layer = 0 then config.mMax else config.m

/-- What a comparison of two vectors panics with. -/
def Fault.comparisons : List Fault :=
  [.panic "Vectors must have same length", .panic "GPU cosine similarity is not implemented",
    .panic "GPU euclidean distance is not implemented", .panic "GPU dot product is not implemented"]

/-- What `Option::unwrap` panics with. -/
def Fault.unwrapNone : Fault := .panic "called Option::unwrap() on a None value"

namespace HnswIndex

/-! ## Statistics -/

/-- What `stats` counts. -/
structure Counts where
  totalNodes : Nat
  tombstones : Nat
  layerSizes : List Nat
  totalConnections : Nat

def Counts.add (counts : Counts) (node : HnswNode) : Counts :=
  if node.tombstone then { counts with tombstones := counts.tombstones + 1 }
  else { counts with
    totalNodes := counts.totalNodes + 1
    layerSizes := counts.layerSizes.mapIdx fun layer size =>
      if layer < node.connections.length then size + 1 else size
    totalConnections := counts.totalConnections + (node.connections.map List.length).sum }

/-- `stats`. An entry of the map of nodes has 48 bytes, an id 16, and a `usize` 8. -/
def stats [Floats] (ix : HnswIndex) (order : HashOrder Uuid) : Except Fault HnswStats :=
  let nodes := (order.entries ix.nodes).map Prod.snd
  let layers := ((ix.maxLevel + 1) % 2 ^ 64).toNat
  if layers * 8 ≥ 2 ^ 63 then .error (.panic "capacity overflow")
  else
    let counts := nodes.foldl Counts.add ⟨0, 0, List.replicate layers 0, 0⟩
    .ok {
      totalNodes := counts.totalNodes
      maxLayer := ix.maxLevel
      layerSizes := counts.layerSizes
      tombstones := counts.tombstones
      avgConnections :=
        if counts.totalNodes > 0 then
          Floats.div (Floats.ofUsize counts.totalConnections) (Floats.ofUsize counts.totalNodes)
        else F32.zero
      memoryUsageBytes := ix.nodes.len * 48 +
        (nodes.map fun node => (node.connections.map fun ns => ns.length * 16).sum).sum }

/-! ## Graphs -/

section

variable [Floats]

/-- The graphs that can be made of a new one, where the reader has the vector of every
live node and of the one that is inserted. -/
inductive Built (config : HnswConfig) : HnswIndex → Prop
  | new : Built config (.new config)
  | inserted {ix ix' : HnswIndex} {id : Uuid} {vector : Vector32} {vectors : VectorReader} {r : F32}
      (h : Built config ix) (hlive : ∀ id' ∈ ix.trackedIds, (vectors.get id').isSome)
      (hid : (vectors.get id).isSome) (hret : ix.insertChecked id vector vectors r = .ok ix') :
      Built config ix'
  | removed {ix : HnswIndex} (h : Built config ix) (id : Uuid) (order : HashOrder Uuid) :
      Built config (ix.remove id order)

end

/-- Every list leads to nodes and is short, and the entry point is a live node unless
there is none. -/
structure Safe (ix : HnswIndex) : Prop where
  edges : ∀ id node, ix.nodes.lookup id = some node → ∀ ns ∈ node.connections, ∀ n ∈ ns, n ∈ ix.nodes
  degrees : ∀ id node, ix.nodes.lookup id = some node → ∀ layer ns,
    node.connections[layer]? = some ns → ns.length ≤ ix.config.degree layer
  vacant : ix.startNode = none ↔ ix.trackedIds = ∅
  entered : ∀ s, ix.startNode = some s → s ∈ ix.trackedIds ∧ 0 ≤ ix.maxLevel

/-! ## The lists of a node -/

/-- The node has a list, its lists are short, and they could be allocated. -/
structure Fits (config : HnswConfig) (connections : List (List Uuid)) : Prop where
  degrees : ∀ layer ns, connections[layer]? = some ns → ns.length ≤ config.degree layer
  nonempty : 1 ≤ connections.length
  allocatable : Allocatable connections.length

/-- Every node fits. -/
def Fitting (ix : HnswIndex) : Prop :=
  ∀ id node, ix.nodes.lookup id = some node → Fits ix.config node.connections

variable {ix ix' : HnswIndex} {config : HnswConfig}

theorem Fits.set {connections : List (List Uuid)} (h : Fits config connections) {layer : Nat}
    {ns : List Uuid} (hns : ns.length ≤ config.degree layer) :
    Fits config (connections.set layer ns) := by
  refine ⟨?_, ?_, ?_⟩
  · intro layer' ns' hns'
    rw [List.getElem?_set] at hns'
    split at hns'
    · rename_i heq
      split at hns'
      · cases hns'
        exact heq ▸ hns
      · cases hns'
    · exact h.degrees layer' ns' hns'
  · rw [List.length_set]
    exact h.nonempty
  · rw [List.length_set]
    exact h.allocatable

theorem fits_replicate {layer : Nat} (h : Allocatable (layer + 1)) :
    Fits config (List.replicate (layer + 1) []) := by
  refine ⟨?_, ?_, ?_⟩
  · intro layer' ns hns
    rw [List.eq_of_mem_replicate (List.mem_of_getElem? hns)]
    exact Nat.zero_le _
  · rw [List.length_replicate]
    exact Nat.le_add_left 1 layer
  · rw [List.length_replicate]
    exact h

theorem Fitting.length_neighborsAt (h : ix.Fitting) (n : Uuid) (layer : Nat) :
    (ix.neighborsAt n layer).length ≤ ix.config.degree layer := by
  unfold neighborsAt
  cases hnode : ix.nodes.lookup n with
  | none => exact Nat.zero_le _
  | some node =>
      rw [Option.bind_some]
      cases hconn : node.connections[layer]? with
      | none => exact Nat.zero_le _
      | some ns => exact (h n node hnode).degrees layer ns hconn

/-- A node that is put into the graph. -/
theorem Fitting.insertNode (h : ix.Fitting) (id : Uuid) {node : HnswNode}
    (hnode : Fits ix.config node.connections) :
    Fitting { ix with nodes := ix.nodes.insert id node } := by
  intro id' node' hlookup
  rw [HashMap.lookup_insert] at hlookup
  split at hlookup
  · cases hlookup
    exact hnode
  · exact h id' node' hlookup

theorem Fitting.markTombstone (h : ix.Fitting) (id : Uuid) : (ix.markTombstone id).Fitting := by
  unfold HnswIndex.markTombstone
  cases hnode : ix.nodes.lookup id with
  | none => exact h
  | some node => exact h.insertNode id (h id node hnode)

theorem Fitting.remove (h : ix.Fitting) (id : Uuid) (order : HashOrder Uuid) :
    (ix.remove id order).Fitting := by
  unfold HnswIndex.remove
  split
  · exact h
  simp only
  split
  · exact h.markTombstone id
  · exact h.markTombstone id

section

variable [Floats] {vectors : VectorReader}

theorem selectNeighbors_length {candidates ns : List Uuid} {m : Nat} {query : Vector32}
    (hret : ix.selectNeighbors candidates m vectors query = .ok ns) : ns.length ≤ m := by
  unfold selectNeighbors at hret
  split at hret
  · rename_i hle
    cases hret
    exact hle
  · obtain ⟨ranked, -, hret⟩ := bind_eq_ok.mp hret
    obtain ⟨sorted, -, hret⟩ := bind_eq_ok.mp hret
    cases hret
    rw [List.length_map, List.length_take]
    exact Nat.min_le_left _ _

theorem Fitting.linkNeighbor (h : ix.Fitting) {id neighborId : Uuid} {layer : Nat}
    (hret : HnswIndex.linkNeighbor id layer (ix.config.degree layer) vectors ix neighborId = .ok ix') :
    ix'.Fitting := by
  unfold HnswIndex.linkNeighbor at hret
  split at hret
  · cases hret
    exact h
  rename_i neighbor hnode
  split at hret
  · cases hret
    exact h
  rename_i connections hconn
  have hset : ∀ ns : List Uuid, ns.length ≤ ix.config.degree layer →
      (ix.setConnections neighborId neighbor layer ns).Fitting := by
    intro ns hns
    exact h.insertNode neighborId ((h neighborId neighbor hnode).set hns)
  simp only at hret
  split at hret
  · split at hret
    · cases hret
    obtain ⟨pruned, hpruned, hret⟩ := bind_eq_ok.mp hret
    cases hret
    rw [setConnections_twice]
    exact hset pruned (selectNeighbors_length hpruned)
  · rename_i hshort
    cases hret
    exact hset _ (Nat.le_of_not_gt hshort)

theorem Fitting.connectLayer {id : Uuid} {vector : Vector32} {st st' : Insertion} {layer : Nat}
    (h : st.index.Fitting) (hpending : Fits st.index.config st.pendingConnections)
    (hret : HnswIndex.connectLayer id vector vectors st layer = .ok st') :
    st'.index.Fitting ∧ Fits st.index.config st'.pendingConnections := by
  unfold HnswIndex.connectLayer at hret
  obtain ⟨entry, -, hret⟩ := bind_eq_ok.mp hret
  obtain ⟨neighbors, hselect, hret⟩ := bind_eq_ok.mp hret
  obtain ⟨index, hloop, hret⟩ := bind_eq_ok.mp hret
  cases hret
  refine ⟨?_, hpending.set (selectNeighbors_length hselect)⟩
  have hkeep : index.Fitting ∧ index.config = st.index.config := by
    refine foldlM_keeps (fun _ ix => ix.Fitting ∧ ix.config = st.index.config) ?_ ⟨h, rfl⟩ hloop
    intro n _ ix ix' hix hstep
    obtain ⟨hfit, hconfig⟩ := hix
    have hdegree : (if layer = 0 then st.index.config.mMax else st.index.config.m) =
        ix.config.degree layer := by
      rw [hconfig]
      rfl
    rw [hdegree] at hstep
    exact ⟨hfit.linkNeighbor hstep, (linkNeighbor_rewired hstep).config.trans hconfig⟩
  exact hkeep.1

theorem Fitting.insert (h : ix.Fitting) {id : Uuid} {vector : Vector32} {r : F32}
    (hlayer : Allocatable (ix.randomLayer r + 1))
    (hret : ix.insert id vector vectors r = .ok ix') : ix'.Fitting := by
  unfold HnswIndex.insert at hret
  simp only at hret
  split at hret
  · cases hret
    exact h.insertNode id (fits_replicate hlayer)
  obtain ⟨entry, -, hret⟩ := bind_eq_ok.mp hret
  obtain ⟨st, hconnect, hret⟩ := bind_eq_ok.mp hret
  have hst : st.index.config = ix.config ∧ st.index.Fitting ∧
      Fits st.index.config st.pendingConnections := by
    refine foldlM_keeps (fun _ (st : Insertion) => st.index.config = ix.config ∧ st.index.Fitting ∧
      Fits st.index.config st.pendingConnections) ?_ ⟨rfl, h, fits_replicate hlayer⟩ hconnect
    intro layer _ st st' hst hstep
    obtain ⟨hconfig, hfit, hpending⟩ := hst
    have hsame := (connectLayer_rewired hstep).config
    obtain ⟨hfit', hpending'⟩ := hfit.connectLayer hpending hstep
    refine ⟨hsame.trans hconfig, hfit', ?_⟩
    rw [hsame]
    exact hpending'
  have hnode : Fitting { st.index with
      nodes := st.index.nodes.insert id ⟨st.pendingConnections, false⟩ } :=
    hst.2.1.insertNode id hst.2.2
  split at hret
  · cases hret
    exact hnode
  · cases hret
    exact hnode

end

/-! ## The entry point -/

/-- The entry point is none if there is no live node, and the layers are as many as
could be allocated. -/
structure Topped (ix : HnswIndex) : Prop where
  vacant : ix.startNode = none ↔ ix.trackedIds = ∅
  nonneg : ∀ s, ix.startNode = some s → 0 ≤ ix.maxLevel
  levels : ∃ n : Nat, ix.maxLevel + 1 = n ∧ Allocatable n

theorem Topped.inserted (h : ix.Topped) {id : Uuid} {layer : Nat} (hlayer : Allocatable (layer + 1))
    (hins : Inserted id layer ix ix') : ix'.Topped := by
  have hstart := hins.startNode
  have hmax := hins.maxLevel
  have hnonempty : ix'.trackedIds ≠ ∅ := by
    rw [hins.trackedIds]
    exact Finset.insert_ne_empty _ _
  by_cases hnew : ix.startNode = none ∨ (layer : Int) > ix.maxLevel
  · rw [if_pos hnew] at hstart hmax
    refine ⟨?_, ?_, layer + 1, ?_, hlayer⟩
    · rw [hstart]
      exact iff_of_false (by simp) hnonempty
    · intro s _
      rw [hmax]
      exact Int.natCast_nonneg layer
    · rw [hmax]
      rfl
  · rw [if_neg hnew] at hstart hmax
    rw [not_or] at hnew
    refine ⟨?_, ?_, ?_⟩
    · rw [hstart]
      exact iff_of_false hnew.1 hnonempty
    · intro s hs
      rw [hstart] at hs
      rw [hmax]
      exact h.nonneg s hs
    · rw [hmax]
      exact h.levels

/-- The layers above the lowest, when the entry point is chosen anew. -/
theorem levels_max (entries : List (Uuid × HnswNode))
    (h : ∀ entry ∈ entries, 1 ≤ entry.2.connections.length ∧
      Allocatable entry.2.connections.length) :
    (entries ≠ [] →
      0 ≤ ((entries.map fun entry => (entry.2.connections.length : Int) - 1).max?).getD (-1)) ∧
    ∃ n : Nat, ((entries.map fun entry =>
      (entry.2.connections.length : Int) - 1).max?).getD (-1) + 1 = n ∧ Allocatable n := by
  cases hmax : (entries.map fun entry => (entry.2.connections.length : Int) - 1).max? with
  | none =>
      rw [List.max?_eq_none_iff, List.map_eq_nil_iff] at hmax
      exact ⟨fun hne => absurd hmax hne, 0, rfl, by decide⟩
  | some level =>
      obtain ⟨entry, hentry, rfl⟩ := List.mem_map.mp (List.max?_mem hmax)
      obtain ⟨hpos, halloc⟩ := h entry hentry
      rw [Option.getD_some]
      exact ⟨fun _ => by omega, entry.2.connections.length, by omega, halloc⟩

theorem Topped.remove (h : ix.Topped) (hentered : ix.Entered) (hfit : ix.Fitting) (id : Uuid)
    (order : HashOrder Uuid) :
    (ix.remove id order).Topped := by
  have hmark : (ix.markTombstone id).startNode = ix.startNode ∧
      (ix.markTombstone id).maxLevel = ix.maxLevel := by
    unfold HnswIndex.markTombstone
    split
    · exact ⟨rfl, rfl⟩
    · exact ⟨rfl, rfl⟩
  have htracked := trackedIds_remove ix id order
  unfold HnswIndex.remove at htracked ⊢
  split
  · exact h
  rename_i hnode
  rw [if_neg hnode] at htracked
  simp only at htracked ⊢
  split
  · -- the entry point is removed, and another chosen
    rename_i hstart
    rw [if_pos hstart] at htracked
    generalize hlive : ((order.entries (ix.markTombstone id).nodes).filter
      fun entry => !entry.2.tombstone) = live at htracked ⊢
    have hmem : ∀ entry, entry ∈ live ↔ (ix.markTombstone id).nodes.lookup entry.1 = some entry.2 ∧
        entry.2.tombstone = false := by
      intro entry
      obtain ⟨id', node⟩ := entry
      rw [← hlive, List.mem_filter, HashOrder.mem_entries, Bool.not_eq_true']
    have hlevels := levels_max live fun entry hentry => by
      have hfits := hfit.markTombstone id entry.1 entry.2 ((hmem entry).mp hentry).1
      exact ⟨hfits.nonempty, hfits.allocatable⟩
    refine ⟨?_, ?_, hlevels.2⟩
    · change (live.head?).map Prod.fst = none ↔ (ix.markTombstone id).trackedIds = ∅
      rw [Option.map_eq_none_iff, List.head?_eq_none_iff, List.eq_nil_iff_forall_not_mem,
        Finset.eq_empty_iff_forall_notMem]
      constructor
      · intro hnone id' hid'
        obtain ⟨hin, hdead⟩ := mem_trackedIds.mp hid'
        obtain ⟨node, hlookup⟩ := Finmap.mem_iff.mp hin
        refine hnone (id', node) ((hmem _).mpr ⟨hlookup, ?_⟩)
        simpa [isTombstone, hlookup] using hdead
      · intro hempty entry hentry
        obtain ⟨hlookup, hdead⟩ := (hmem entry).mp hentry
        refine hempty entry.1 (mem_trackedIds.mpr ⟨Finmap.mem_iff.mpr ⟨entry.2, hlookup⟩, ?_⟩)
        simpa [isTombstone, hlookup] using hdead
    · intro s hs
      refine hlevels.1 ?_
      rintro rfl
      cases hs
  · rename_i hstart
    rw [if_neg hstart] at htracked
    rw [hmark.1] at hstart
    refine ⟨?_, ?_, ?_⟩
    · rw [hmark.1, htracked]
      constructor
      · intro hnone
        rw [h.vacant.mp hnone, Finset.erase_empty]
      · intro herase
        cases hs : ix.startNode with
        | none => rfl
        | some s =>
            -- the entry point would be left
            have hleft : s ∈ ix.trackedIds.erase id :=
              Finset.mem_erase.mpr ⟨fun heq => hstart (heq ▸ hs), hentered s hs⟩
            rw [herase] at hleft
            exact absurd hleft (Finset.notMem_empty s)
    · intro s hs
      rw [hmark.1] at hs
      rw [hmark.2]
      exact h.nonneg s hs
    · rw [hmark.2]
      exact h.levels

/-! ## Every graph is safe -/

theorem wired_node {id : Uuid} {node : HnswNode} (h : ix.Wired)
    (hnode : ix.nodes.lookup id = some node) : ∀ ns ∈ node.connections, ∀ n ∈ ns, n ∈ ix.nodes := by
  intro ns hns n hn
  obtain ⟨layer, hlayer⟩ := List.mem_iff_getElem?.mp hns
  refine Finmap.mem_keys.mp (EdgesAt.node (P := fun _ n => n ∈ ix.nodes.keys) h hnode layer n ?_)
  rw [hlayer]
  exact hn

/-- What insertions and removals keep. -/
structure Grown (config : HnswConfig) (ix : HnswIndex) : Prop where
  config : ix.config = config
  entered : ix.Entered
  wired : ix.Wired
  fitting : ix.Fitting
  topped : ix.Topped

theorem Grown.safe (h : Grown config ix) : ix.Safe where
  edges _ _ hnode := wired_node h.wired hnode
  degrees id node hnode := (h.fitting id node hnode).degrees
  vacant := h.topped.vacant
  entered s hs := ⟨h.entered s hs, h.topped.nonneg s hs⟩

theorem grown_new (config : HnswConfig) : Grown config (.new config) where
  config := rfl
  entered s hs := by cases hs
  wired id level n hn := by simp [HnswIndex.new, neighborsAt] at hn
  fitting id node hnode := by
    rw [HnswIndex.new, Finmap.lookup_empty] at hnode
    cases hnode
  topped := by
    refine ⟨iff_of_true rfl rfl, fun s hs => ?_, 0, rfl, by decide⟩
    cases hs

theorem Grown.remove (h : Grown config ix) (id : Uuid) (order : HashOrder Uuid) :
    Grown config (ix.remove id order) where
  config := (config_remove ix id order).trans h.config
  entered := h.entered.remove id order
  wired := h.wired.remove id order
  fitting := h.fitting.remove id order
  topped := h.topped.remove h.entered h.fitting id order

section

variable [Floats] {vectors : VectorReader}

/-- An insertion that returned had its layers allocated. -/
theorem insertChecked_eq_ok {id : Uuid} {vector : Vector32} {r : F32}
    (hret : ix.insertChecked id vector vectors r = .ok ix') :
    Allocatable (ix.randomLayer r + 1) ∧ ix.insert id vector vectors r = .ok ix' := by
  unfold insertChecked at hret
  split at hret
  · cases hret
  · split at hret
    · cases hret
    · rename_i halloc
      exact ⟨not_not.mp halloc, hret⟩

theorem Grown.insert (h : Grown config ix) {id : Uuid} {vector : Vector32} {r : F32}
    (hret : ix.insertChecked id vector vectors r = .ok ix') : Grown config ix' := by
  obtain ⟨hlayer, hret⟩ := insertChecked_eq_ok hret
  have hins := insert_inserted hret
  exact {
    config := hins.config.trans h.config
    entered := h.entered.inserted hins
    wired := h.wired.insert h.entered hret
    fitting := h.fitting.insert hlayer hret
    topped := h.topped.inserted hlayer hins }

theorem Built.grown (h : Built config ix) : Grown config ix := by
  induction h with
  | new => exact grown_new config
  | inserted _ _ _ hret ih => exact ih.insert hret
  | removed _ id order ih => exact ih.remove id order

/-! ## What can fail on a graph -/

theorem comparisons_distance (a b : Vector32) : Faults (· ∈ Fault.comparisons) (ix.distance a b) := by
  have hdispatch : ∀ name kernel, .panic ("GPU " ++ name ++ " is not implemented") ∈ Fault.comparisons →
      Faults (· ∈ Fault.comparisons) (Compute.dispatch name kernel a b ix.config.mode) := by
    intro name kernel hname
    unfold Compute.dispatch
    split
    · exact .error hname
    · split
      · exact .ok _
      · exact .error List.mem_cons_self
  have hcosine := hdispatch "cosine similarity" Floats.cosineKernel (by decide)
  have heuclidean := hdispatch "euclidean distance" Floats.euclideanKernel (by decide)
  have hdot := hdispatch "dot product" Floats.dotKernel (by decide)
  unfold distance
  cases ix.config.metric with
  | cosine => exact hcosine.bind fun _ _ => .ok _
  | dotProduct => exact hdot.bind fun _ _ => .ok _
  | euclidean => exact heuclidean.bind fun _ _ => .ok _

/-- No comparison unwraps anything. -/
theorem unwraps_distance (a b : Vector32) :
    Faults (· ≠ Fault.unwrapNone) (ix.distance a b) := by
  refine (comparisons_distance a b).mono fun e he heq => ?_
  rw [heq] at he
  exact absurd he (by decide)

section

variable {P : Fault → Prop}

theorem distance_congr (h : ix'.config = ix.config) (a b : Vector32) :
    ix'.distance a b = ix.distance a b := by
  unfold distance
  rw [h]

theorem ends_selectNeighbors (hdist : ∀ a b, Faults P (ix.distance a b)) (hdisorder : P .disorder)
    (candidates : List Uuid) (m : Nat) (query : Vector32) :
    Faults P (ix.selectNeighbors candidates m vectors query) := by
  unfold selectNeighbors
  split
  · exact .ok _
  refine Faults.bind (.foldlM fun id _ ranked => ?_) fun ranked _ => ?_
  swap
  · exact (faults_sortBy hdisorder _ _ ranked).bind fun _ _ => .ok _
  unfold rankNeighbor
  split
  · exact .ok _
  split
  · exact .ok _
  · exact (hdist _ _).bind fun _ _ => .ok _

/-- A neighbour that is linked needs its vector. -/
theorem ends_linkNeighbor (hdist : ∀ a b, Faults P (ix.distance a b)) (hdisorder : P .disorder)
    {id neighborId : Uuid} {layer m : Nat} (hget : (vectors.get neighborId).isSome) :
    Faults P (linkNeighbor id layer m vectors ix neighborId) := by
  unfold linkNeighbor
  split
  · exact .ok _
  split
  · exact .ok _
  simp only
  split
  · obtain ⟨vec, hvec⟩ := Option.isSome_iff_exists.mp hget
    simp only [hvec]
    have hsame : ∀ ix' : HnswIndex, ix'.config = ix.config → ∀ a b, Faults P (ix'.distance a b) := by
      intro ix' hconfig a b
      rw [distance_congr hconfig]
      exact hdist a b
    refine (ends_selectNeighbors (hsame _ ?_) hdisorder _ _ _).bind fun _ _ => .ok _
    rfl
  · exact .ok _

/-- A layer search finds ids with vectors, and only these are linked. -/
theorem ends_connectLayer {st : Insertion} (hdist : ∀ a b, Faults P (st.index.distance a b))
    (hdisorder : P .disorder) (id : Uuid) (vector : Vector32) (layer : Nat) :
    Faults P (connectLayer id vector vectors st layer) := by
  unfold connectLayer
  refine (ends_searchLayer hdist hdisorder _ _ _).bind fun entry hsearch => ?_
  refine (ends_selectNeighbors hdist hdisorder _ _ _).bind fun neighbors hselect => ?_
  have hfound : ∀ n ∈ neighbors, (vectors.get n).isSome := by
    intro n hn
    have hin := searchLayer_within (P := fun _ => True) (fun _ _ _ => trivial) (fun _ _ => trivial)
      hsearch n (selectNeighbors_subset hselect n hn)
    exact hin.2.1
  refine Faults.bind ?_ fun _ _ => .ok _
  refine .foldlM_of (fun ix => ix.config = st.index.config) ?_ ?_ rfl
  · intro n hn ix hconfig
    have hsame : ∀ a b, Faults P (ix.distance a b) := by
      intro a b
      rw [distance_congr hconfig]
      exact hdist a b
    exact ends_linkNeighbor hsame hdisorder (hfound n hn)
  · exact fun n _ ix ix' hconfig hstep => (linkNeighbor_rewired hstep).config.trans hconfig

/-- An insertion of a layer that can be allocated fails as a comparison or a sort does. -/
theorem ends_insert (hdist : ∀ a b, Faults P (ix.distance a b)) (hdisorder : P .disorder) (id : Uuid)
    (vector : Vector32) (r : F32) :
    Faults P (ix.insert id vector vectors r) := by
  unfold HnswIndex.insert
  simp only
  split
  · exact .ok _
  refine Faults.bind (.foldlM fun lc _ entry => ends_searchLayer hdist hdisorder _ _ _) fun entry _ => ?_
  refine Faults.bind ?_ fun st _ => ?_
  · refine .foldlM_of (fun st => st.index.config = ix.config) ?_ ?_ rfl
    · intro layer _ st hconfig
      have hsame : ∀ a b, Faults P (st.index.distance a b) := by
        intro a b
        rw [distance_congr hconfig]
        exact hdist a b
      exact ends_connectLayer hsame hdisorder id vector layer
    · exact fun layer _ st st' hconfig hstep => (connectLayer_rewired hstep).config.trans hconfig
  · split
    · exact .ok _
    · exact .ok _

end

theorem unwraps_insertChecked {id : Uuid} {vector : Vector32} {r : F32} :
    Faults (· ≠ Fault.unwrapNone) (ix.insertChecked id vector vectors r) := by
  have hother : ∀ msg, msg ≠ "called Option::unwrap() on a None value" →
      Fault.panic msg ≠ Fault.unwrapNone := by
    intro msg hmsg heq
    injection heq with heq
    exact hmsg heq
  unfold insertChecked
  split
  · exact .error (hother _ (by decide))
  split
  · exact .error (hother _ (by decide))
  · exact ends_insert unwraps_distance (hother _ (by decide)) id vector r

omit [Floats] in
/-- The number of the highest layer, where there is one. -/
theorem Topped.topLayer (h : ix.Topped) {s : Uuid} (hs : ix.startNode = some s) :
    (ix.topLayer : Int) = ix.maxLevel := by
  obtain ⟨n, hn, halloc⟩ := h.levels
  have hnonneg := h.nonneg s hs
  unfold HnswIndex.topLayer
  unfold Allocatable at halloc
  omega

theorem Topped.stats (h : ix.Topped) (order : HashOrder Uuid) :
    Returns (fun _ => True) (ix.stats order) := by
  obtain ⟨n, hn, halloc⟩ := h.levels
  have hlayers : ((ix.maxLevel + 1) % 2 ^ 64).toNat = n := by
    unfold Allocatable at halloc
    omega
  unfold HnswIndex.stats
  unfold Allocatable at halloc
  simp only [hlayers]
  rw [if_neg (by omega)]
  exact .ok trivial

/-- In every graph the lists lead to nodes and are short, and the entry point is a live
node unless there is none. So an insertion finds the vectors it unwraps, a search starts
at the highest layer, and the statistics can be allocated. -/
theorem built_safe (h : Built config ix) :
    ix.Safe ∧
    (∀ id vector vectors r,
      Faults (· ≠ Fault.unwrapNone) (ix.insertChecked id vector vectors r)) ∧
    (∀ s, ix.startNode = some s → (ix.topLayer : Int) = ix.maxLevel) ∧
    ∀ order, ∃ stats, ix.stats order = .ok stats := by
  have hgrown := h.grown
  refine ⟨hgrown.safe, ?_, ?_, ?_⟩
  · intro id vector vectors r
    exact unwraps_insertChecked
  · intro s hs
    exact hgrown.topped.topLayer hs
  · intro order
    obtain ⟨stats, hstats, -⟩ := hgrown.topped.stats order
    exact ⟨stats, hstats⟩

end

end HnswIndex

/-! ## Graphs of given vectors -/

/-- A reader of the given vectors. -/
def VectorReader.ofEntries (entries : List (Uuid × Vector32)) : VectorReader where
  vectors := HashMap.insertEach ∅ entries
  order := Bincode.idOrder

theorem VectorReader.get_ofEntries {entries : List (Uuid × Vector32)}
    (hnodup : (entries.map Prod.fst).Nodup) {id : Uuid} (hid : id ∈ entries.map Prod.fst) :
    ((VectorReader.ofEntries entries).get id).isSome := by
  obtain ⟨⟨id, v⟩, he, rfl⟩ := List.mem_map.mp hid
  unfold get ofEntries
  rw [HashMap.lookup_insertEach_of_mem hnodup he]
  rfl

namespace HnswIndex

section

variable [Floats] {ix ix' : HnswIndex} {config : HnswConfig} {entries : List (Uuid × Vector32)}

/-- Insert the given vectors one after the other, with the same draw. -/
def insertEach (config : HnswConfig) (entries : List (Uuid × Vector32)) (r : F32) :
    Except Fault HnswIndex :=
  entries.foldlM (fun ix entry => ix.insertChecked entry.1 entry.2 (.ofEntries entries) r)
    (.new config)

theorem built_insertEach {r : F32} (hnodup : (entries.map Prod.fst).Nodup)
    (hret : insertEach config entries r = .ok ix) : Built config ix := by
  have hkeep := foldlM_keeps (fun (rest : List (Uuid × Vector32)) (ix : HnswIndex) =>
    (∀ entry ∈ rest, entry.1 ∈ entries.map Prod.fst) ∧ Built config ix ∧
      ∀ id ∈ ix.trackedIds, id ∈ entries.map Prod.fst) ?_ ?_ hret
  · exact hkeep.2.1
  · rintro entry rest ix ix' ⟨hrest, hbuilt, htracked⟩ hstep
    have hentry := hrest entry (by simp)
    refine ⟨fun e he => hrest e (by simp [he]), ?_, ?_⟩
    · refine .inserted hbuilt (fun id hid => ?_) (VectorReader.get_ofEntries hnodup hentry) hstep
      exact VectorReader.get_ofEntries hnodup (htracked id hid)
    · intro id hid
      rw [(insert_inserted (insertChecked_eq_ok hstep).2).trackedIds, Finset.mem_insert] at hid
      rcases hid with rfl | hid
      · exact hentry
      · exact htracked id hid
  · refine ⟨fun entry he => List.mem_map_of_mem he, .new, fun id hid => ?_⟩
    exact absurd hid (Finset.notMem_empty id)

end

/-! ## A graph that loses its entry point -/

section

attribute [local instance] Reference.floats

/-- At most two neighbours for each node, and distances from the dot product. -/
def dotConfig : HnswConfig := ⟨2, 2, 1, 1, F32.one, .dotProduct, .auto⟩

/-- The second of two nodes becomes the entry point when the first is removed. -/
theorem second_node_safe :
    ∃ ix : HnswIndex, Built dotConfig ix ∧ ix.trackedIds = {1} ∧ ix.Safe := by
  have hret : (insertEach dotConfig [(0, [F32.one]), (1, [F32.one])] Reference.half).toOption.map
      (fun ix => (ix.remove 0 Bincode.idOrder).trackedIds) = some {1} := by
    decide +kernel
  obtain ⟨ix, hix, hids⟩ := ok_of_map hret
  have hbuilt := (built_insertEach (by decide) hix).removed 0 Bincode.idOrder
  exact ⟨_, hbuilt, hids, (built_safe hbuilt).1⟩

end

end HnswIndex
