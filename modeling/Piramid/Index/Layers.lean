-- SUMMARY: The layers of the nodes of a graph, and the insertions and removals under which every edge stays between nodes of its layer.
import Piramid.Index.Graph

/-!
# Layers of the graph

A node has one list for each layer from the lowest to the one that was drawn for it. The
entry point is to be a node of the highest layer, and the neighbours in a list of some
layer are to be nodes of that layer.
-/

open Loop

/-! ## Runs -/

/-- An insertion or a removal, with what is drawn and iterated over in it. -/
inductive GraphOp where
  | insert (id : Uuid) (vector : Vector32) (vectors : VectorReader) (r : F32)
  | remove (id : Uuid) (order : HashOrder Uuid)

namespace GraphOp

def perform [Floats] (ix : HnswIndex) : GraphOp → Except Fault HnswIndex
  | .insert id vector vectors r => ix.insertChecked id vector vectors r
  | .remove id order => pure (ix.remove id order)

/-- Only ids that are not live are inserted. -/
def Admissible (ix : HnswIndex) : GraphOp → Prop
  | .insert id _ _ _ => id ∉ ix.trackedIds
  | .remove _ _ => True

instance (ix : HnswIndex) : (op : GraphOp) → Decidable (op.Admissible ix)
  | .insert id _ _ _ => inferInstanceAs (Decidable (id ∉ ix.trackedIds))
  | .remove _ _ => inferInstanceAs (Decidable True)

end GraphOp

namespace HnswIndex

/-- The graphs that can be made of a new one with calls that satisfy `P` of the graph they
meet. -/
inductive Run [Floats] (config : HnswConfig) (P : HnswIndex → GraphOp → Prop) : HnswIndex → Prop
  | new : Run config P (.new config)
  | performed {ix ix' : HnswIndex} (op : GraphOp) (h : Run config P ix) (hop : op.Admissible ix)
      (hP : P ix op) (hret : op.perform ix = .ok ix') : Run config P ix'

/-! ## Layers -/

/-- How many layers the node with id `id` has. -/
def levels (ix : HnswIndex) (id : Uuid) : Nat :=
  ((ix.nodes.lookup id).map fun node => node.connections.length).getD 0

/-- The entry point has all layers, no live node has more, and the edges of a layer lead to
nodes that have it. -/
structure Layered (ix : HnswIndex) : Prop where
  top : ∀ s, ix.startNode = some s → (ix.levels s : Int) = ix.maxLevel + 1
  highest : ix.startNode ≠ none → ∀ id ∈ ix.trackedIds, (ix.levels id : Int) ≤ ix.maxLevel + 1
  edges : ix.EdgesAt fun layer id => layer < ix.levels id

variable {ix ix' : HnswIndex}

theorem levels_of_lookup {id : Uuid} {node : HnswNode} (h : ix.nodes.lookup id = some node) :
    ix.levels id = node.connections.length := by
  unfold levels
  rw [h]
  rfl

/-- Only lists are replaced. -/
theorem levels_setConnections {id : Uuid} {old node : HnswNode} (hold : ix.nodes.lookup id = some old)
    (hlen : node.connections.length = old.connections.length) (layer : Nat) (ns : List Uuid) :
    (ix.setConnections id node layer ns).levels = ix.levels := by
  funext id'
  unfold levels setConnections
  rw [HashMap.lookup_insert]
  split
  · rename_i heq
    rw [heq, hold, Option.map_some, Option.map_some, List.length_set, hlen]
  · rfl

theorem levels_markTombstone (ix : HnswIndex) (id : Uuid) : (ix.markTombstone id).levels = ix.levels := by
  unfold markTombstone
  split
  · rfl
  · rename_i node hnode
    funext id'
    unfold levels
    simp only [HashMap.lookup_insert]
    split
    · rename_i heq
      rw [heq, hnode]
      rfl
    · rfl

theorem neighborsAt_markTombstone (ix : HnswIndex) (id : Uuid) :
    (ix.markTombstone id).neighborsAt = ix.neighborsAt := by
  unfold markTombstone
  split
  · rfl
  · rename_i node hnode
    funext id' layer
    unfold neighborsAt
    simp only [HashMap.lookup_insert]
    split
    · rename_i heq
      rw [heq, hnode]
      rfl
    · rfl

theorem levels_remove (ix : HnswIndex) (id : Uuid) (order : HashOrder Uuid) :
    (ix.remove id order).levels = ix.levels := by
  unfold HnswIndex.remove
  split
  · rfl
  · simp only
    split
    · exact levels_markTombstone ix id
    · exact levels_markTombstone ix id

theorem neighborsAt_remove (ix : HnswIndex) (id : Uuid) (order : HashOrder Uuid) :
    (ix.remove id order).neighborsAt = ix.neighborsAt := by
  unfold HnswIndex.remove
  split
  · rfl
  · simp only
    split
    · exact neighborsAt_markTombstone ix id
    · exact neighborsAt_markTombstone ix id

section

variable [Floats] {vectors : VectorReader} {id : Uuid} {vector : Vector32} {r : F32}

theorem levels_linkNeighbor {neighborId : Uuid} {layer m : Nat}
    (hret : linkNeighbor id layer m vectors ix neighborId = .ok ix') : ix'.levels = ix.levels := by
  unfold linkNeighbor at hret
  split at hret
  · cases hret
    rfl
  rename_i neighbor hnode
  split at hret
  · cases hret
    rfl
  rename_i connections hconn
  have hlinked := levels_setConnections hnode rfl layer (connections ++ [id])
  simp only at hret
  split at hret
  · split at hret
    · cases hret
    obtain ⟨pruned, -, hret⟩ := bind_eq_ok.mp hret
    cases hret
    rw [setConnections_twice]
    exact levels_setConnections hnode rfl layer pruned
  · cases hret
    exact hlinked

theorem levels_connectLayer {st st' : Insertion} {layer : Nat}
    (hret : connectLayer id vector vectors st layer = .ok st') :
    st'.index.levels = st.index.levels ∧
      st'.pendingConnections.length = st.pendingConnections.length := by
  unfold connectLayer at hret
  obtain ⟨entry, -, hret⟩ := bind_eq_ok.mp hret
  obtain ⟨neighbors, -, hret⟩ := bind_eq_ok.mp hret
  obtain ⟨index, hloop, hret⟩ := bind_eq_ok.mp hret
  cases hret
  refine ⟨?_, List.length_set⟩
  exact foldlM_keeps (fun _ (ix : HnswIndex) => ix.levels = st.index.levels)
    (fun _ _ _ _ hix hstep => (levels_linkNeighbor hstep).trans hix) rfl hloop

/-- The new node has the layers that were drawn, and the others have theirs. -/
theorem levels_insert (hret : ix.insert id vector vectors r = .ok ix') :
    ∀ id', ix'.levels id' = if id' = id then ix.randomLayer r + 1 else ix.levels id' := by
  have hnode : ∀ (nodes : HashMap Uuid HnswNode) (connections : List (List Uuid)) (id' : Uuid),
      connections.length = ix.randomLayer r + 1 →
      levels { ix with nodes := nodes.insert id ⟨connections, false⟩ } id' =
        if id' = id then ix.randomLayer r + 1 else levels { ix with nodes } id' := by
    intro nodes connections id' hlen
    unfold levels
    simp only [HashMap.lookup_insert]
    split
    · rw [Option.map_some, Option.getD_some, hlen]
    · rfl
  intro id'
  unfold HnswIndex.insert at hret
  simp only at hret
  split at hret
  · cases hret
    exact hnode ix.nodes _ id' List.length_replicate
  obtain ⟨entry, -, hret⟩ := bind_eq_ok.mp hret
  obtain ⟨st, hconnect, hret⟩ := bind_eq_ok.mp hret
  have hst := foldlM_keeps (fun _ (st : Insertion) => st.index.levels = ix.levels ∧
      st.pendingConnections.length = ix.randomLayer r + 1) ?_ ⟨rfl, List.length_replicate⟩ hconnect
  · have hsame : levels { ix with nodes := st.index.nodes } = ix.levels := hst.1
    have hnew := hnode st.index.nodes st.pendingConnections id' hst.2
    rw [hsame] at hnew
    split at hret
    · cases hret
      exact hnew
    · cases hret
      exact hnew
  · rintro layer rest st st' ⟨hlevels, hlen⟩ hstep
    obtain ⟨hlevels', hlen'⟩ := levels_connectLayer hstep
    exact ⟨hlevels'.trans hlevels, hlen'.trans hlen⟩

/-! ## Calls that keep the layers -/

/-- The entry point that a removal of `id` chooses. -/
def nextStart (ix : HnswIndex) (id : Uuid) (order : HashOrder Uuid) : Option Uuid :=
  (((order.entries (ix.markTombstone id).nodes).filter fun entry => !entry.2.tombstone).head?).map Prod.fst

/-- An insertion into a graph is not above all its layers, and the node has every layer at
which an edge is left to a removed node with its id. Where the entry point is removed, no
other live node has more layers than the next one. -/
def KeepsLayers (ix : HnswIndex) : GraphOp → Prop
  | .insert id _ _ r =>
    (ix.startNode ≠ none → (ix.randomLayer r : Int) ≤ ix.maxLevel) ∧
      ∀ n layer, id ∈ ix.neighborsAt n layer → layer ≤ ix.randomLayer r
  | .remove id order =>
    ix.startNode = some id → ∀ s, ix.nextStart id order = some s →
      ∀ id' ∈ ix.trackedIds.erase id, ix.levels id' ≤ ix.levels s

variable {config : HnswConfig} {P : HnswIndex → GraphOp → Prop}

/-- No edge leads to a node that was never there. -/
theorem keeps_fresh (hgrown : Grown config ix) (hid : id ∉ ix.nodes.keys)
    (hlow : ix.startNode ≠ none → (ix.randomLayer r : Int) ≤ ix.maxLevel) :
    ix.KeepsLayers (.insert id vector vectors r) :=
  ⟨hlow, fun n layer hn => absurd (hgrown.wired n layer id hn) hid⟩

theorem Layered.insert (h : ix.Layered) (hgrown : Grown config ix) (hid : id ∉ ix.trackedIds)
    (hkeeps : ix.KeepsLayers (.insert id vector vectors r))
    (hret : ix.insert id vector vectors r = .ok ix') : ix'.Layered := by
  obtain ⟨hlow, hstale⟩ := hkeeps
  have hlevels := levels_insert hret
  have hins := insert_inserted hret
  have hne : ∀ s, ix.startNode = some s → s ≠ id := by
    rintro s hs rfl
    exact hid (hgrown.entered s hs)
  have hedges : ix'.EdgesAt fun layer n => layer < if n = id then ix.randomLayer r + 1 else ix.levels n := by
    refine insert_edgesAt ?_ (fun hle hlt => lt_of_le_of_lt hle hlt) ?_ ?_ hret
    · intro n layer v hv
      have hlt : layer < ix.levels v := h.edges n layer v hv
      change layer < if v = id then ix.randomLayer r + 1 else ix.levels v
      split
      · rename_i heq
        exact Nat.lt_succ_of_le (hstale n layer (heq ▸ hv))
      · exact hlt
    · intro s hs
      rw [if_neg (hne s hs)]
      have htop := h.top s hs
      have hle := hlow (by rw [hs]; exact Option.some_ne_none s)
      omega
    · rw [if_pos rfl]
      exact Nat.lt_succ_self _
  have hedges' : ix'.EdgesAt fun layer n => layer < ix'.levels n := by
    intro n layer v hv
    rw [hlevels v]
    exact hedges n layer v hv
  cases hstart : ix.startNode with
  | none =>
      have hempty : ix.trackedIds = ∅ := hgrown.topped.vacant.mp hstart
      have hmax : ix'.maxLevel = ix.randomLayer r := by
        rw [hins.maxLevel, if_pos (.inl hstart)]
      refine ⟨fun s hs => ?_, fun _ id' hid' => ?_, hedges'⟩
      · rw [hins.startNode, if_pos (.inl hstart)] at hs
        cases hs
        rw [hlevels id, if_pos rfl, hmax]
        rfl
      · rw [hins.trackedIds, hempty, insert_empty_eq, Finset.mem_singleton] at hid'
        rw [hlevels id', if_pos hid', hmax]
        exact le_refl _
  | some start =>
      have hle := hlow (by rw [hstart]; exact Option.some_ne_none start)
      have hsame : ¬(ix.startNode = none ∨ (ix.randomLayer r : Int) > ix.maxLevel) := by
        rw [hstart]
        simp only [reduceCtorEq, false_or, not_lt, gt_iff_lt]
        exact hle
      have hmax : ix'.maxLevel = ix.maxLevel := by rw [hins.maxLevel, if_neg hsame]
      refine ⟨fun s hs => ?_, fun _ id' hid' => ?_, hedges'⟩
      · rw [hins.startNode, if_neg hsame] at hs
        rw [hlevels s, if_neg (hne s hs), hmax]
        exact h.top s hs
      · rw [hins.trackedIds, Finset.mem_insert] at hid'
        rw [hlevels id', hmax]
        split
        · push_cast
          omega
        · rename_i hother
          exact h.highest (by rw [hstart]; exact Option.some_ne_none start) id' (hid'.resolve_left hother)

omit [Floats] in
/-- The nodes among which a removal of `id` chooses the next entry point. -/
theorem mem_live {order : HashOrder Uuid} {entry : Uuid × HnswNode} :
    entry ∈ (order.entries (ix.markTombstone id).nodes).filter (fun entry => !entry.2.tombstone) ↔
      entry.1 ∈ ix.trackedIds.erase id ∧ (ix.markTombstone id).nodes.lookup entry.1 = some entry.2 := by
  obtain ⟨id', node⟩ := entry
  rw [List.mem_filter, HashOrder.mem_entries, ← trackedIds_markTombstone, mem_trackedIds,
    Bool.not_eq_true']
  constructor
  · rintro ⟨hlookup, hdead⟩
    refine ⟨⟨Finmap.mem_iff.mpr ⟨node, hlookup⟩, ?_⟩, hlookup⟩
    simpa [isTombstone, hlookup] using hdead
  · rintro ⟨⟨-, hdead⟩, hlookup⟩
    refine ⟨hlookup, ?_⟩
    simpa [isTombstone, hlookup] using hdead

theorem Layered.remove (h : ix.Layered) {order : HashOrder Uuid}
    (hkeeps : ix.KeepsLayers (.remove id order)) : (ix.remove id order).Layered := by
  have hlevels := levels_remove ix id order
  have hedges : (ix.remove id order).EdgesAt fun layer n => layer < (ix.remove id order).levels n := by
    intro n layer v hv
    rw [neighborsAt_remove] at hv
    rw [hlevels]
    exact h.edges n layer v hv
  have htracked := trackedIds_remove ix id order
  have hmark : (ix.markTombstone id).startNode = ix.startNode ∧
      (ix.markTombstone id).maxLevel = ix.maxLevel := by
    unfold markTombstone
    split
    · exact ⟨rfl, rfl⟩
    · exact ⟨rfl, rfl⟩
  suffices htop : (∀ s, (ix.remove id order).startNode = some s →
        (ix.levels s : Int) = (ix.remove id order).maxLevel + 1) ∧
      ((ix.remove id order).startNode ≠ none → ∀ id' ∈ ix.trackedIds.erase id,
        (ix.levels id' : Int) ≤ (ix.remove id order).maxLevel + 1) by
    refine ⟨?_, ?_, hedges⟩
    · rw [hlevels]
      exact htop.1
    · rw [hlevels, htracked]
      exact htop.2
  clear hedges hlevels htracked
  unfold HnswIndex.remove
  split
  · exact ⟨h.top, fun hne id' hid' => h.highest hne id' (Finset.mem_of_mem_erase hid')⟩
  simp only
  split
  · -- the entry point is removed: the next one has the most layers among the live nodes
    rename_i hstart
    rw [hmark.1] at hstart
    have hmost := hkeeps hstart
    have hlen : ∀ entry ∈ (order.entries (ix.markTombstone id).nodes).filter
        (fun entry => !entry.2.tombstone), entry.2.connections.length = ix.levels entry.1 := by
      intro entry hentry
      rw [← levels_markTombstone ix id]
      exact (levels_of_lookup (mem_live.mp hentry).2).symm
    unfold nextStart at hmost
    generalize hlive : (order.entries (ix.markTombstone id).nodes).filter
      (fun entry => !entry.2.tombstone) = live at hmost hlen ⊢
    cases live with
    | nil =>
        refine ⟨fun s hs => ?_, fun hne => absurd rfl hne⟩
        cases hs
    | cons first rest =>
        have hmost' : ∀ id' ∈ ix.trackedIds.erase id, ix.levels id' ≤ ix.levels first.1 :=
          hmost first.1 rfl
        have hmax : ((first :: rest).map fun entry => (entry.2.connections.length : Int) - 1).max? =
            some ((ix.levels first.1 : Int) - 1) := by
          rw [List.max?_eq_some_iff]
          constructor
          · refine List.mem_map.mpr ⟨first, List.mem_cons_self, ?_⟩
            rw [hlen first List.mem_cons_self]
          · intro level hlevel
            obtain ⟨entry, hentry, rfl⟩ := List.mem_map.mp hlevel
            have hin := hmost' entry.1 (mem_live.mp (hlive ▸ hentry)).1
            rw [hlen entry hentry]
            exact sub_le_sub_right (Int.ofNat_le.mpr hin) 1
        rw [hmax, Option.getD_some]
        refine ⟨fun s hs => ?_, fun _ id' hid' => ?_⟩
        · cases hs
          exact (sub_add_cancel _ _).symm
        · rw [sub_add_cancel]
          exact Int.ofNat_le.mpr (hmost' id' hid')
  · rw [hmark.1, hmark.2]
    exact ⟨h.top, fun hne id' hid' => h.highest hne id' (Finset.mem_of_mem_erase hid')⟩

theorem Run.layered (h : Run config KeepsLayers ix) : Grown config ix ∧ ix.Layered := by
  induction h with
  | new =>
      refine ⟨grown_new config, fun s hs => ?_, fun hne => absurd rfl hne, fun id layer n hn => ?_⟩
      · cases hs
      · simp [HnswIndex.new, neighborsAt] at hn
  | @performed ix ix' op _ hop hkeeps hret ih =>
      obtain ⟨hgrown, hlayered⟩ := ih
      cases op with
      | insert id vector vectors r =>
          have hinsert := (insertChecked_eq_ok hret).2
          exact ⟨hgrown.insert hret, hlayered.insert hgrown hop hkeeps hinsert⟩
      | remove id order =>
          cases hret
          exact ⟨hgrown.remove id order, hlayered.remove hkeeps⟩

/-- As long as every call keeps the layers, the descent starts at the top of the graph, and
every edge stays in its layer. -/
theorem run_layered (h : Run config KeepsLayers ix) : ix.Layered := h.layered.2

/-- The calls one after the other, if only ids that are not live are inserted. -/
def performAll (config : HnswConfig) (ops : List GraphOp) : Except Fault HnswIndex :=
  ops.foldlM (fun ix op => if op.Admissible ix then op.perform ix else .error .diverge) (.new config)

theorem run_performAll {ops : List GraphOp} (hret : performAll config ops = .ok ix) :
    Run config (fun _ _ => True) ix := by
  refine foldlM_keeps (fun _ ix => Run config (fun _ _ => True) ix) ?_ .new hret
  intro op _ ix ix' hrun hstep
  split at hstep
  · rename_i hop
    exact .performed op hrun hop trivial hstep
  · cases hstep

end

/-! ## A node above the others -/

section

attribute [local instance] Reference.floats

/-- One node on the lowest layer, and one that is drawn for the layer above it. -/
def raised : List GraphOp :=
  let vectors := VectorReader.ones [0, 1]
  [.insert 0 [F32.one] vectors Reference.half, .insert 1 [F32.one] vectors Reference.quarter]

/-- The second node has an edge on the upper layer to the first, which is not there. -/
theorem raised_not_layered :
    ∃ ix : HnswIndex, Run dotConfig (fun _ _ => True) ix ∧ ¬ix.Layered := by
  have hret : (performAll dotConfig raised).toOption.map
      (fun ix => (ix.neighborsAt 1 1, ix.levels 0)) = some ([0], 1) := by
    decide +kernel
  obtain ⟨ix, hix, hseen⟩ := ok_of_map hret
  obtain ⟨hneighbors, hlevels⟩ := Prod.mk.inj hseen
  refine ⟨ix, run_performAll hix, fun hlayered => ?_⟩
  have hedge : 1 < ix.levels 0 := hlayered.edges 1 1 0 (by rw [hneighbors]; exact List.mem_singleton_self 0)
  rw [hlevels] at hedge
  exact lt_irrefl 1 hedge

/-- Where the first is drawn for the upper layer, it can be removed again. -/
theorem lowered_layered :
    ∃ ix : HnswIndex, Run dotConfig KeepsLayers ix ∧ ix.levels 0 = 2 ∧ ix.Layered := by
  have hret : (((HnswIndex.new dotConfig).insertChecked 0 [F32.one] (.ones [0, 1]) Reference.quarter >>=
      fun ix => ix.insertChecked 1 [F32.one] (.ones [0, 1]) Reference.half).toOption.map fun ix =>
        (ix.nextStart 0 Bincode.idOrder, ix.trackedIds, ix.levels 0)) = some (some 1, {0, 1}, 2) := by
    decide +kernel
  obtain ⟨ix, hix, hseen⟩ := ok_of_map hret
  obtain ⟨hnext, hseen⟩ := Prod.mk.inj hseen
  obtain ⟨htracked, hlevels⟩ := Prod.mk.inj hseen
  obtain ⟨first, hfirst, hsecond⟩ := bind_eq_ok.mp hix
  have hins := insert_inserted (insertChecked_eq_ok hfirst).2
  have hkeys : first.nodes.keys = {0} := by
    rw [hins.keys]
    rfl
  have hmax : first.maxLevel = 1 := by
    rw [hins.maxLevel, if_pos (.inl rfl)]
    decide +kernel
  -- the first node goes to the upper layer, the second below it
  have hrun : Run dotConfig KeepsLayers first := by
    refine .performed (.insert 0 [F32.one] (.ones [0, 1]) Reference.quarter) .new ?_ ?_ hfirst
    · exact Finset.notMem_empty 0
    · exact keeps_fresh (grown_new dotConfig) (Finset.notMem_empty 0) fun hne => absurd rfl hne
  have hrun' : Run dotConfig KeepsLayers ix := by
    refine .performed (.insert 1 [F32.one] (.ones [0, 1]) Reference.half) hrun ?_ ?_ hsecond
    · intro hin
      have hnode := Finmap.mem_keys.mpr (mem_trackedIds.mp hin).1
      rw [hkeys] at hnode
      exact absurd hnode (by decide)
    · refine keeps_fresh hrun.layered.1 (by rw [hkeys]; decide) fun _ => ?_
      rw [hmax, randomLayer, hins.config]
      decide +kernel
  have hremove : ix.KeepsLayers (.remove 0 Bincode.idOrder) := by
    intro _ s hs id' hid'
    rw [hnext] at hs
    cases hs
    rw [htracked] at hid'
    have hone : id' = 1 := by simpa using hid'
    rw [hone]
  have hrun'' : Run dotConfig KeepsLayers (ix.remove 0 Bincode.idOrder) :=
    .performed (.remove 0 Bincode.idOrder) hrun' trivial hremove rfl
  refine ⟨_, hrun'', ?_, run_layered hrun''⟩
  rw [levels_remove]
  exact hlevels

end

end HnswIndex
