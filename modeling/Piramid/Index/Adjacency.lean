-- SUMMARY: The lists of a graph are sets as long as no insertion connects its node to one that still lists the id.
import Piramid.Index.Distinct
import Piramid.Index.Layers

/-!
# Adjacency lists

A removal leaves the edges to the removed node. An insertion of the same id pushes the id
onto the list of every neighbour it chooses, whether the list has the id or not. A list that
is then too long is pruned, and loses the id in both places.
-/

open Loop

namespace HnswIndex

/-- No list has an id twice, and no node lists itself. -/
structure Simple (ix : HnswIndex) : Prop where
  nodup : ∀ id layer, (ix.neighborsAt id layer).Nodup
  irrefl : ∀ id layer, id ∉ ix.neighborsAt id layer

section

variable [Floats] {ix ix' : HnswIndex} {vectors : VectorReader} {context : SearchContext}
  {id : Uuid} {vector query : Vector32} {r : F32}

/-! ## What a search reads of a graph -/

/-- Two graphs that a search of a layer does not tell apart. -/
structure Alike (level : Nat) (ix ix' : HnswIndex) : Prop where
  config : ix'.config = ix.config
  tombstone : ∀ id, ix'.isTombstone id = ix.isTombstone id
  neighbors : ∀ id, ix'.neighborsAt id level = ix.neighborsAt id level

variable {level : Nat}

theorem Alike.exploreLayer (h : Alike level ix ix') (numClosest fuel : Nat) (st : LayerSearch) :
    ix'.exploreLayer query numClosest level context fuel st =
      ix.exploreLayer query numClosest level context fuel st := by
  have hvisit : ix'.visitNeighbor query numClosest context = ix.visitNeighbor query numClosest context := by
    funext st n
    unfold visitNeighbor
    simp only [distance_congr h.config, h.tombstone]
  induction fuel generalizing st with
  | zero => rfl
  | succ fuel ih =>
      unfold HnswIndex.exploreLayer
      simp only [hvisit, h.neighbors, ih]

theorem Alike.searchLayer (h : Alike level ix ix') (entryPoints : List Uuid) (numClosest : Nat) :
    ix'.searchLayer query entryPoints numClosest level context =
      ix.searchLayer query entryPoints numClosest level context := by
  have henter : ix'.enterAt query context = ix.enterAt query context := by
    funext st ep
    unfold enterAt
    simp only [distance_congr h.config, h.tombstone]
  unfold HnswIndex.searchLayer traverseLayer
  simp only [henter, h.exploreLayer]

theorem Alike.selectNeighbors (h : Alike level ix ix') (candidates : List Uuid) (m : Nat) :
    ix'.selectNeighbors candidates m vectors query = ix.selectNeighbors candidates m vectors query := by
  have hrank : ix'.rankNeighbor vectors query = ix.rankNeighbor vectors query := by
    funext ranked n
    unfold rankNeighbor
    simp only [distance_congr h.config, h.tombstone]
  unfold HnswIndex.selectNeighbors
  rw [hrank]

/-! ## New edges -/

/-- A neighbour is linked to the new node. Where it lists the id already, the list is full,
and pruned. -/
theorem Simple.linkNeighbor (h : ix.Simple) {n : Uuid} {layer m : Nat} (hne : n ≠ id)
    (hstale : id ∈ ix.neighborsAt n layer → ix.isTombstone id = true ∧ m ≤ (ix.neighborsAt n layer).length)
    (hret : HnswIndex.linkNeighbor id layer m vectors ix n = .ok ix') :
    ix'.Simple ∧ ∀ n' l, ¬(n' = n ∧ l = layer) → ix'.neighborsAt n' l = ix.neighborsAt n' l := by
  unfold HnswIndex.linkNeighbor at hret
  split at hret
  · cases hret
    exact ⟨h, fun _ _ _ => rfl⟩
  rename_i node hnode
  split at hret
  · cases hret
    exact ⟨h, fun _ _ _ => rfl⟩
  rename_i connections hconn
  have hlist : ix.neighborsAt n layer = connections := by
    unfold neighborsAt
    rw [hnode, Option.bind_some, hconn]
    rfl
  have hself : n ∉ connections := hlist ▸ h.irrefl n layer
  have hnodup : connections.Nodup := hlist ▸ h.nodup n layer
  rw [hlist] at hstale
  have hlayer : layer < node.connections.length := (List.getElem?_eq_some_iff.mp hconn).1
  have hset := neighborsAt_setConnections hnode hlayer
  -- a list that is a set and does not have the node itself may be put in the place
  have hput : ∀ ns : List Uuid, ns.Nodup → n ∉ ns → (ix.setConnections n node layer ns).Simple ∧
      ∀ n' l, ¬(n' = n ∧ l = layer) →
        (ix.setConnections n node layer ns).neighborsAt n' l = ix.neighborsAt n' l := by
    intro ns hns hn
    refine ⟨⟨fun n' l => ?_, fun n' l => ?_⟩, fun n' l hother => by rw [hset, if_neg hother]⟩
    · rw [hset]
      split
      · exact hns
      · exact h.nodup n' l
    · rw [hset]
      split
      · rename_i heq
        rw [heq.1]
        exact hn
      · exact h.irrefl n' l
  have hnew : id ∉ connections → (connections ++ [id]).Nodup := by
    intro hin
    refine List.nodup_append.mpr ⟨hnodup, List.nodup_singleton id, fun a ha b hb => ?_⟩
    rw [List.mem_singleton.mp hb]
    exact fun heq => hin (heq ▸ ha)
  have hpushed : n ∉ connections ++ [id] := by
    rw [List.mem_append, List.mem_singleton]
    exact not_or.mpr ⟨hself, hne⟩
  simp only at hret
  split at hret
  · rename_i hlong
    split at hret
    · cases hret
    obtain ⟨pruned, hpruned, hret⟩ := bind_eq_ok.mp hret
    cases hret
    rw [setConnections_twice]
    have hsub := selectNeighbors_subset hpruned
    refine hput pruned ?_ fun hn => hpushed (hsub n hn)
    have htomb := (rewired_setConnections hnode rfl layer (connections ++ [id])).tombstone
    obtain ⟨kept, hperm, hkept⟩ := selectNeighbors_subperm hlong hpruned
    refine hperm.nodup_iff.mp (List.Nodup.sublist hkept ?_)
    simp only [htomb, List.filter_append]
    by_cases hin : id ∈ connections
    · -- both places of the id are gone
      rw [List.filter_cons_of_neg (by simpa using (hstale hin).1), List.filter_nil, List.append_nil]
      exact hnodup.filter _
    · rw [← List.filter_append]
      exact (hnew hin).filter _
  · rename_i hshort
    cases hret
    refine hput (connections ++ [id]) (hnew fun hin => ?_) hpushed
    have hfull := (hstale hin).2
    rw [List.length_append, List.length_singleton] at hshort
    exact hshort (Nat.lt_succ_of_le hfull)

/-! ## Insertions that keep the lists sets -/

/-- Wherever the insertion of `id` connects its node on the way down the layers, from the
given entry points, a neighbour does not list the id yet or has a full list. -/
def Unlisted (ix : HnswIndex) (id : Uuid) (vector : Vector32) (vectors : VectorReader) :
    List Nat → List Uuid → Prop
  | [], _ => True
  | layer :: layers, entryPoints =>
    ∀ entry ns, ix.searchLayer vector entryPoints ix.config.efConstruction layer ⟨vectors, none, ∅⟩ =
        .ok entry → ix.selectNeighbors entry (ix.config.degree layer) vectors vector = .ok ns →
      (∀ n ∈ ns, id ∈ ix.neighborsAt n layer →
        ix.config.degree layer ≤ (ix.neighborsAt n layer).length) ∧
      ix.Unlisted id vector vectors layers entry

/-- An insertion connects its node to none that lists the id in a list with room for one
more. -/
def KeepsSets (ix : HnswIndex) : GraphOp → Prop
  | .insert id vector vectors r =>
    ∀ start entry, ix.startNode = some start →
      (List.range' (ix.randomLayer r + 1) (ix.maxLevel - (ix.randomLayer r : Int)).toNat).reverse.foldlM
        (fun entry lc => ix.searchLayer vector entry 1 lc ⟨vectors, none, ∅⟩) [start] = .ok entry →
      ix.Unlisted id vector vectors (List.range (ix.randomLayer r + 1)).reverse entry
  | .remove _ _ => True

/-- What is kept of the graph `ix` while `id` is inserted, with the layers to come. -/
structure Connecting (ix : HnswIndex) (id : Uuid) (vector : Vector32) (vectors : VectorReader)
    (layers : List Nat) (st : Insertion) : Prop where
  nodup : layers.Nodup
  rewired : Rewired ix st.index
  same : ∀ n, ∀ layer ∈ layers, st.index.neighborsAt n layer = ix.neighborsAt n layer
  simple : st.index.Simple
  live : ∀ n ∈ st.currentEntry, n ∈ ix.trackedIds
  distinct : st.currentEntry.Nodup
  pending : ∀ ns ∈ st.pendingConnections, ns.Nodup ∧ id ∉ ns
  unlisted : ix.Unlisted id vector vectors layers st.currentEntry

/-- The results of a layer search are live where the entry points are nodes. -/
theorem searchLayer_tracked {entryPoints ids : List Uuid} {numClosest : Nat} (hwired : ix.Wired)
    (hentry : ∀ ep ∈ entryPoints, ep ∈ ix.trackedIds)
    (hret : ix.searchLayer query entryPoints numClosest level context = .ok ids) :
    ∀ n ∈ ids, n ∈ ix.trackedIds := by
  intro n hn
  have hkeys : ∀ ep ∈ entryPoints, ep ∈ ix.nodes.keys := fun ep hep =>
    Finmap.mem_keys.mpr (mem_trackedIds.mp (hentry ep hep)).1
  obtain ⟨hnode, hfound⟩ := searchLayer_within (P := (· ∈ ix.nodes.keys))
    (fun id => hwired id level) hkeys hret n hn
  exact mem_trackedIds.mpr ⟨Finmap.mem_keys.mp hnode, hfound.2⟩

variable {layer : Nat} {layers : List Nat} {st st' : Insertion}

theorem Connecting.step (h : Connecting ix id vector vectors (layer :: layers) st) (hwired : ix.Wired)
    (hid : id ∉ ix.trackedIds) (hret : connectLayer id vector vectors st layer = .ok st') :
    Connecting ix id vector vectors layers st' := by
  obtain ⟨hlayer, hlayers⟩ := List.nodup_cons.mp h.nodup
  have hconfig := h.rewired.config
  have halike : Alike layer ix st.index :=
    ⟨hconfig, h.rewired.tombstone, fun n => h.same n layer List.mem_cons_self⟩
  unfold connectLayer at hret
  obtain ⟨entry, hsearch, hret⟩ := bind_eq_ok.mp hret
  obtain ⟨ns, hselect, hret⟩ := bind_eq_ok.mp hret
  obtain ⟨index, hloop, hret⟩ := bind_eq_ok.mp hret
  cases hret
  rw [halike.searchLayer, hconfig] at hsearch
  rw [halike.selectNeighbors, hconfig] at hselect
  rw [hconfig] at hloop
  obtain ⟨hfull, hunlisted⟩ := h.unlisted entry ns hsearch hselect
  have hlive := searchLayer_tracked hwired h.live hsearch
  have hdistinct := nodup_searchLayer h.distinct hsearch
  have hchosen : ∀ n ∈ ns, n ≠ id := by
    rintro n hn rfl
    exact hid (hlive n (selectNeighbors_subset hselect n hn))
  -- an id that is still listed belongs to a removed node
  have hdead : ∀ n, id ∈ ix.neighborsAt n layer → ix.isTombstone id = true := by
    intro n hn
    have hnode : id ∈ ix.nodes := Finmap.mem_keys.mp (hwired n layer id hn)
    by_contra hlive
    exact hid (mem_trackedIds.mpr ⟨hnode, Bool.eq_false_of_not_eq_true hlive⟩)
  have hlinked := foldlM_keeps (fun rest (ix₁ : HnswIndex) => rest.Nodup ∧ (∀ n ∈ rest, n ∈ ns) ∧
      Rewired ix ix₁ ∧ ix₁.Simple ∧
      (∀ n ∈ rest, ix₁.neighborsAt n layer = ix.neighborsAt n layer) ∧
      ∀ n l, l ≠ layer → ix₁.neighborsAt n l = st.index.neighborsAt n l) ?_ ?_ hloop
  · obtain ⟨-, -, hrewired, hsimple, -, hothers⟩ := hlinked
    refine ⟨hlayers, hrewired, fun n l hl => ?_, hsimple, hlive, hdistinct, ?_, hunlisted⟩
    · rw [hothers n l fun heq => hlayer (heq ▸ hl)]
      exact h.same n l (List.mem_cons_of_mem _ hl)
    · intro ns' hns'
      rcases List.mem_or_eq_of_mem_set hns' with hold | rfl
      · exact h.pending ns' hold
      · exact ⟨selectNeighbors_nodup hdistinct hselect, fun hin => hchosen id hin rfl⟩
  · rintro n rest ix₁ ix₂ ⟨hrest, hmem, hrewired, hsimple, hsame, hothers⟩ hstep
    obtain ⟨hn, hrest⟩ := List.nodup_cons.mp hrest
    have hin := hmem n List.mem_cons_self
    have hlist := hsame n List.mem_cons_self
    have hstale : id ∈ ix₁.neighborsAt n layer → ix₁.isTombstone id = true ∧
        ix.config.degree layer ≤ (ix₁.neighborsAt n layer).length := by
      rw [hlist, hrewired.tombstone]
      exact fun hold => ⟨hdead n hold, hfull n hin hold⟩
    obtain ⟨hsimple', hframe⟩ := hsimple.linkNeighbor (hchosen n hin) hstale hstep
    refine ⟨hrest, fun n' hn' => hmem n' (List.mem_cons_of_mem _ hn'),
      hrewired.trans (linkNeighbor_rewired hstep), hsimple', fun n' hn' => ?_, fun n' l hl => ?_⟩
    · rw [hframe n' layer fun heq => hn (heq.1 ▸ hn')]
      exact hsame n' (List.mem_cons_of_mem _ hn')
    · rw [hframe n' l fun heq => hl heq.2]
      exact hothers n' l hl
  · exact ⟨selectNeighbors_nodup hdistinct hselect, fun _ hn => hn, h.rewired, h.simple,
      fun n _ => h.same n layer List.mem_cons_self, fun _ _ _ => rfl⟩

omit [Floats] in
/-- A node is put into the graph with its lists. -/
theorem Simple.insertNode (h : ix.Simple) {pending : List (List Uuid)}
    (hpending : ∀ ns ∈ pending, ns.Nodup ∧ id ∉ ns) :
    Simple { ix with nodes := ix.nodes.insert id ⟨pending, false⟩ } := by
  have hlists : ∀ n l, neighborsAt { ix with nodes := ix.nodes.insert id ⟨pending, false⟩ } n l =
      if n = id then (pending[l]?).getD [] else ix.neighborsAt n l := by
    intro n l
    unfold neighborsAt
    rw [HashMap.lookup_insert]
    split
    · rfl
    · rfl
  have hown : ∀ l : Nat, ((pending[l]?).getD []).Nodup ∧ id ∉ (pending[l]?).getD [] := by
    intro l
    cases hlist : pending[l]? with
    | none => exact ⟨List.nodup_nil, List.not_mem_nil⟩
    | some ns => exact hpending ns (List.mem_of_getElem? hlist)
  constructor
  · intro n l
    rw [hlists]
    split
    · exact (hown l).1
    · exact h.nodup n l
  · intro n l
    rw [hlists]
    split
    · rename_i heq
      rw [heq]
      exact (hown l).2
    · exact h.irrefl n l

theorem Simple.insert {config : HnswConfig} (h : ix.Simple) (hgrown : Grown config ix)
    (hid : id ∉ ix.trackedIds) (hkeeps : ix.KeepsSets (.insert id vector vectors r))
    (hret : ix.insert id vector vectors r = .ok ix') : ix'.Simple := by
  have hempty : ∀ (n : Nat), ∀ ns ∈ List.replicate n ([] : List Uuid), ns.Nodup ∧ id ∉ ns := by
    intro n ns hns
    rw [List.eq_of_mem_replicate hns]
    exact ⟨List.nodup_nil, List.not_mem_nil⟩
  unfold HnswIndex.insert at hret
  simp only at hret
  split at hret
  · cases hret
    have hnode := h.insertNode (hempty (ix.randomLayer r + 1))
    exact ⟨hnode.nodup, hnode.irrefl⟩
  rename_i start hstart
  obtain ⟨entry, hdescend, hret⟩ := bind_eq_ok.mp hret
  obtain ⟨st, hconnect, hret⟩ := bind_eq_ok.mp hret
  have hentry : (∀ n ∈ entry, n ∈ ix.trackedIds) ∧ entry.Nodup := by
    refine foldlM_keeps (fun _ entry => (∀ n ∈ entry, n ∈ ix.trackedIds) ∧ entry.Nodup) ?_ ?_ hdescend
    · rintro lc rest entry entry' ⟨hlive, hdistinct⟩ hstep
      exact ⟨searchLayer_tracked hgrown.wired hlive hstep, nodup_searchLayer hdistinct hstep⟩
    · refine ⟨fun n hn => ?_, List.nodup_singleton start⟩
      rw [List.mem_singleton.mp hn]
      exact hgrown.entered start hstart
  have hconnecting := foldlM_keeps (Connecting ix id vector vectors)
    (fun _ _ _ _ hst hstep => hst.step hgrown.wired hid hstep) ?_ hconnect
  · have hnode := hconnecting.simple.insertNode hconnecting.pending
    split at hret
    · cases hret
      exact ⟨hnode.nodup, hnode.irrefl⟩
    · cases hret
      exact hnode
  · exact ⟨List.nodup_reverse.mpr List.nodup_range, .refl ix, fun _ _ _ => rfl, h, hentry.1, hentry.2,
      hempty _, hkeeps start entry hstart hdescend⟩

omit [Floats] in
theorem Simple.remove (h : ix.Simple) (id : Uuid) (order : HashOrder Uuid) : (ix.remove id order).Simple := by
  constructor
  · rw [neighborsAt_remove]
    exact h.nodup
  · rw [neighborsAt_remove]
    exact h.irrefl

variable {config : HnswConfig}

theorem Run.simple (h : Run config KeepsSets ix) : Grown config ix ∧ ix.Simple := by
  induction h with
  | new =>
      refine ⟨grown_new config, fun n l => ?_, fun n l hn => ?_⟩
      · simp [HnswIndex.new, neighborsAt]
      · simp [HnswIndex.new, neighborsAt] at hn
  | @performed ix ix' op _ hop hkeeps hret ih =>
      obtain ⟨hgrown, hsimple⟩ := ih
      cases op with
      | insert id vector vectors r =>
          have hinsert := (insertChecked_eq_ok hret).2
          exact ⟨hgrown.insert hret, hsimple.insert hgrown hop hkeeps hinsert⟩
      | remove id order =>
          cases hret
          exact ⟨hgrown.remove id order, hsimple.remove id order⟩

/-- It is enough that the lists with the id are full, wherever the search leads. -/
theorem Unlisted.of_full {layers : List Nat} (hfull : ∀ n ∈ ix.nodes.keys, ∀ layer ∈ layers,
      id ∈ ix.neighborsAt n layer → ix.config.degree layer ≤ (ix.neighborsAt n layer).length)
    (entryPoints : List Uuid) : ix.Unlisted id vector vectors layers entryPoints := by
  induction layers generalizing entryPoints with
  | nil => trivial
  | cons layer layers ih =>
      intro entry ns _ _
      refine ⟨fun n _ hlisted => ?_, ih (fun n hn l hl => hfull n hn l (List.mem_cons_of_mem _ hl)) entry⟩
      by_cases hn : n ∈ ix.nodes.keys
      · exact hfull n hn layer List.mem_cons_self hlisted
      · have hnone : ix.nodes.lookup n = none := (HashMap.not_mem_keys_iff _ _).mp hn
        simp [neighborsAt, hnone] at hlisted

/-- No list has an id that was never there. -/
theorem Unlisted.fresh (hwired : ix.Wired) (hid : id ∉ ix.nodes.keys) (layers : List Nat)
    (entryPoints : List Uuid) : ix.Unlisted id vector vectors layers entryPoints :=
  .of_full (fun n _ layer _ hn => absurd (hwired n layer id hn) hid) entryPoints

/-- Insertions of different ids keep the lists. -/
theorem run_insertEach {entries : List (Uuid × Vector32)} (hnodup : (entries.map Prod.fst).Nodup)
    (hret : insertEach config entries r = .ok ix) : Run config KeepsSets ix := by
  refine (foldlM_keeps (fun (rest : List (Uuid × Vector32)) (ix : HnswIndex) =>
    (rest.map Prod.fst).Nodup ∧ (∀ entry ∈ rest, entry.1 ∉ ix.nodes.keys) ∧ Run config KeepsSets ix)
    ?_ ⟨hnodup, fun entry _ => Finset.notMem_empty _, .new⟩ hret).2.2
  rintro entry rest ix ix' ⟨hrest, hnew, hrun⟩ hstep
  obtain ⟨hentry, hrest⟩ := List.nodup_cons.mp hrest
  have hfresh := hnew entry List.mem_cons_self
  refine ⟨hrest, fun entry' hentry' => ?_, ?_⟩
  · rw [(insert_inserted (insertChecked_eq_ok hstep).2).keys, Finset.mem_insert]
    refine not_or.mpr ⟨fun heq => hentry ?_, hnew entry' (List.mem_cons_of_mem _ hentry')⟩
    exact heq ▸ List.mem_map_of_mem hentry'
  · refine .performed (.insert entry.1 entry.2 (.ofEntries entries) r) hrun ?_ ?_ hstep
    · exact fun hin => hfresh (Finmap.mem_keys.mpr (mem_trackedIds.mp hin).1)
    · exact fun _ entryPoints _ _ => Unlisted.fresh hrun.simple.1.wired hfresh _ entryPoints

/-- The lists stay sets, and without the node itself, as long as every insertion keeps them. -/
theorem run_simple (h : Run config KeepsSets ix) : ix.Simple := h.simple.2

end

/-! ## A node that comes back -/

section

attribute [local instance] Reference.floats

/-- The second of two nodes is removed, and inserted again with another vector. -/
def replaced : List GraphOp :=
  let vectors := VectorReader.ones [0, 1]
  let vectors' := VectorReader.ofEntries [(0, [F32.one]), (1, [Reference.two])]
  [.insert 0 [F32.one] vectors Reference.half, .insert 1 [F32.one] vectors Reference.half,
    .remove 1 Bincode.idOrder, .insert 1 [Reference.two] vectors' Reference.half]

/-- The first then lists the second twice. -/
theorem replaced_not_simple :
    ∃ ix : HnswIndex, Run dotConfig (fun _ _ => True) ix ∧ ¬ix.Simple := by
  have hret : (performAll dotConfig replaced).toOption.map (fun ix => ix.neighborsAt 0 0) =
      some [1, 1] := by
    decide +kernel
  obtain ⟨ix, hix, hlist⟩ := ok_of_map hret
  refine ⟨ix, run_performAll hix, fun hsimple => ?_⟩
  have hnodup := hsimple.nodup 0 0
  rw [hlist] at hnodup
  exact absurd hnodup (by decide)

def threeOnes : List (Uuid × Vector32) := [(0, [F32.one]), (1, [F32.one]), (2, [F32.one])]

/-- Where the list of the first is full, it is pruned when the second comes back, and loses it. -/
theorem returned_simple :
    ∃ ix : HnswIndex, Run dotConfig KeepsSets ix ∧ ix.isTombstone 1 = false ∧
      ix.neighborsAt 0 0 = [2] ∧ ix.neighborsAt 1 0 = [0] ∧ ix.Simple := by
  have hret : (insertEach dotConfig threeOnes Reference.half >>=
      fun ix => (ix.remove 1 Bincode.idOrder).insertChecked 1 [Reference.two]
        (.ofEntries [(0, [F32.one]), (1, [Reference.two]), (2, [F32.one])]) Reference.half).toOption.map
        (fun ix => (ix.isTombstone 1, ix.neighborsAt 0 0, ix.neighborsAt 1 0)) = some (false, [2], [0]) := by
    decide +kernel
  obtain ⟨ix', hix', hseen⟩ := ok_of_map hret
  obtain ⟨hlive, hseen⟩ := Prod.mk.inj hseen
  obtain ⟨ix, hix, hreturn⟩ := bind_eq_ok.mp hix'
  have hbefore : (insertEach dotConfig threeOnes Reference.half).toOption.map
      (fun ix => ((ix.remove 1 Bincode.idOrder).trackedIds, (ix.remove 1 Bincode.idOrder).nodes.keys,
        [0, 1, 2].map fun n => ix.neighborsAt n 0)) = some ({0, 2}, {0, 1, 2}, [[1, 2], [0], [0]]) := by
    decide +kernel
  rw [hix] at hbefore
  simp only [Except.toOption, Option.map_some, Option.some.injEq, Prod.mk.injEq, List.map_cons, List.map_nil,
    List.cons.injEq, and_true] at hbefore
  obtain ⟨htracked, hkeys, hfirst, hsecond, hthird⟩ := hbefore
  have hrun : Run dotConfig KeepsSets (ix.remove 1 Bincode.idOrder) :=
    .performed (.remove 1 Bincode.idOrder) (run_insertEach (by decide) hix) trivial trivial rfl
  have hrun' : Run dotConfig KeepsSets ix' := by
    refine .performed (.insert 1 [Reference.two] _ Reference.half) hrun ?_ ?_ hreturn
    · change 1 ∉ (ix.remove 1 Bincode.idOrder).trackedIds
      rw [htracked]
      decide
    · intro _ entryPoints _ _
      have hlayer : (ix.remove 1 Bincode.idOrder).randomLayer Reference.half = 0 := by
        rw [randomLayer, hrun.simple.1.config]
        decide +kernel
      rw [hlayer]
      refine .of_full (fun n hn layer hin hlisted => ?_) entryPoints
      obtain rfl : layer = 0 := by simpa using hin
      rw [neighborsAt_remove] at hlisted ⊢
      rw [hkeys] at hn
      rw [hrun.simple.1.config]
      have hn : n = 0 ∨ n = 1 ∨ n = 2 := by simpa using hn
      rcases hn with rfl | rfl | rfl
      · rw [hfirst]
        decide
      · rw [hsecond] at hlisted
        exact absurd hlisted (by decide)
      · rw [hthird] at hlisted
        exact absurd hlisted (by decide)
  exact ⟨ix', hrun', hlive, (Prod.mk.inj hseen).1, (Prod.mk.inj hseen).2, run_simple hrun'⟩

end

end HnswIndex
