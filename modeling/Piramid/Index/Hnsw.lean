-- SUMMARY: The HNSW index: layer search, insertion and removal, what an insertion rewires, and the ids it tracks.
import Piramid.Base.BinaryHeap
import Piramid.Base.Loop
import Piramid.Config
import Piramid.Index.Reader

/-!
# The HNSW index

A removed node stays in the graph with a tombstone. Both heaps of a layer search
order candidates by `SearchCandidate::cmp`, which is reversed: the greatest
candidate is the closest one.
-/

open BinaryHeap Loop

structure HnswNode where
  /-- The neighbours at each layer, layer 0 first. -/
  connections : List (List Uuid)
  tombstone : Bool

/-- `index::hnsw::HnswIndex`. -/
structure HnswIndex where
  config : HnswConfig
  nodes : HashMap Uuid HnswNode
  maxLevel : Int
  startNode : Option Uuid

structure SearchCandidate where
  id : Uuid
  distance : F32

structure SearchContext where
  vectors : VectorReader
  filter : Option (Metadata → Bool)
  metadatas : HashMap Uuid Metadata

/-- The filter lets a search visit `id`. -/
def SearchContext.admits (context : SearchContext) (id : Uuid) : Bool :=
  match context.filter, context.metadatas.lookup id with
  | some f, some md => f md
  | _, _ => true

/-! ## Heaps of candidates -/

section

variable [Floats]

/-- `Ord::cmp`, with the arguments the other way round. -/
def SearchCandidate.cmp (self other : SearchCandidate) : Ordering :=
  F32.cmp other.distance self.distance

/-- `self <= other`. -/
def SearchCandidate.le (self other : SearchCandidate) : Bool := self.cmp other ≠ .gt

end

/-- The state of `search_layer`. -/
structure LayerSearch where
  visited : Finset Uuid
  candidates : List SearchCandidate
  nearest : List SearchCandidate
  furthestDistance : F32

namespace HnswIndex

def new (config : HnswConfig) : HnswIndex where
  config := config
  nodes := ∅
  maxLevel := -1
  startNode := none

def isTombstone (ix : HnswIndex) (id : Uuid) : Bool :=
  ((ix.nodes.lookup id).map HnswNode.tombstone).getD false

def markTombstone (ix : HnswIndex) (id : Uuid) : HnswIndex :=
  match ix.nodes.lookup id with
  | none => ix
  | some node => { ix with nodes := ix.nodes.insert id { node with tombstone := true } }

/-- `node.connections[layer] = neighbors`. -/
def setConnections (ix : HnswIndex) (id : Uuid) (node : HnswNode) (layer : Nat)
    (neighbors : List Uuid) : HnswIndex :=
  { ix with nodes :=
      ix.nodes.insert id { node with connections := node.connections.set layer neighbors } }

section

variable [Floats]

/-- The layer of a new node, from the random number `r` that is drawn. -/
def randomLayer (ix : HnswIndex) (r : F32) : Nat :=
  Floats.toUsize (Floats.floor (Floats.mul (Floats.neg (Floats.ln r)) ix.config.ml))

def distance (ix : HnswIndex) (a b : Vector32) : Except Fault F32 :=
  match ix.config.metric with
  | .cosine | .dotProduct => do
    let score ← ix.config.metric.calculate a b ix.config.mode
    pure (Floats.sub F32.one score)
  | .euclidean => ix.config.metric.calculate a b ix.config.mode

/-! ## Layer search -/

/-- One entry point of a layer search. -/
def enterAt (ix : HnswIndex) (query : Vector32) (context : SearchContext) (st : LayerSearch)
    (ep : Uuid) : Except Fault LayerSearch :=
  match context.vectors.get ep with
  | none => .ok st
  | some epVector =>
    if !context.admits ep then .ok st
    else do
      let dist ← ix.distance query epVector
      pure { st with
        candidates := push SearchCandidate.le st.candidates ⟨ep, dist⟩
        nearest :=
          if ix.isTombstone ep then st.nearest else push SearchCandidate.le st.nearest ⟨ep, dist⟩
        visited := Insert.insert ep st.visited }

def furthest (nearest : List SearchCandidate) : F32 :=
  ((peek nearest).map SearchCandidate.distance).getD F32.infinity

/-- `nearest.push(c)`, and `nearest.pop()` if that made it too long. -/
def pushNearest (numClosest : Nat) (c : SearchCandidate) (nearest : List SearchCandidate) :
    List SearchCandidate :=
  let nearest := push SearchCandidate.le nearest c
  if nearest.length > numClosest then ((pop SearchCandidate.le nearest).map Prod.snd).getD []
  else nearest

/-- One neighbour of the candidate being explored. -/
def visitNeighbor (ix : HnswIndex) (query : Vector32) (numClosest : Nat) (context : SearchContext)
    (st : LayerSearch) (neighborId : Uuid) : Except Fault LayerSearch :=
  if neighborId ∈ st.visited then .ok st
  else
    let st := { st with visited := Insert.insert neighborId st.visited }
    match context.vectors.get neighborId with
    | none => .ok st
    | some neighborVector =>
      if !context.admits neighborId then .ok st
      else do
        let dist ← ix.distance query neighborVector
        if F32.lt dist st.furthestDistance ∨ st.nearest.length < numClosest then
          let st := { st with candidates := push SearchCandidate.le st.candidates ⟨neighborId, dist⟩ }
          if ix.isTombstone neighborId then pure st
          else
            let nearest := pushNearest numClosest ⟨neighborId, dist⟩ st.nearest
            pure { st with nearest, furthestDistance := furthest nearest }
        else pure st

/-- The neighbours of a node at a layer. -/
def neighborsAt (ix : HnswIndex) (id : Uuid) (level : Nat) : List Uuid :=
  ((ix.nodes.lookup id).bind fun node => node.connections[level]?).getD []

/-- The loop over the candidates. It stops before the fuel does: see
`exploreLayer_returns`. -/
def exploreLayer (ix : HnswIndex) (query : Vector32) (numClosest level : Nat)
    (context : SearchContext) : Nat → LayerSearch → Except Fault LayerSearch
  | 0, _ => .error .diverge
  | fuel + 1, st =>
    match pop SearchCandidate.le st.candidates with
    | none => .ok st
    | some (candidate, rest) =>
      if F32.gt candidate.distance st.furthestDistance then .ok { st with candidates := rest }
      else do
        let st ← (ix.neighborsAt candidate.id level).foldlM
          (ix.visitNeighbor query numClosest context) { st with candidates := rest }
        exploreLayer ix query numClosest level context fuel st

/-- The candidates that a search of the layer retains. -/
def traverseLayer (ix : HnswIndex) (query : Vector32) (entryPoints : List Uuid)
    (numClosest level : Nat) (context : SearchContext) : Except Fault LayerSearch := do
  let st ← entryPoints.foldlM (ix.enterAt query context) ⟨∅, [], [], F32.infinity⟩
  ix.exploreLayer query numClosest level context (entryPoints.length + context.vectors.len + 1)
    { st with furthestDistance := furthest st.nearest }

def searchLayer (ix : HnswIndex) (query : Vector32) (entryPoints : List Uuid)
    (numClosest level : Nat) (context : SearchContext) : Except Fault (List Uuid) := do
  let st ← ix.traverseLayer query entryPoints numClosest level context
  let result ← sortBy .ascending SearchCandidate.distance st.nearest
  pure (result.map SearchCandidate.id)

/-! ## Insertion and removal -/

/-- The distance of a candidate neighbour, if it is live and has a vector. -/
def rankNeighbor (ix : HnswIndex) (vectors : VectorReader) (query : Vector32)
    (ranked : List (Uuid × F32)) (id : Uuid) : Except Fault (List (Uuid × F32)) :=
  if ix.isTombstone id then .ok ranked
  else
    match vectors.get id with
    | none => .ok ranked
    | some vec => do
      let dist ← ix.distance query vec
      pure (ranked ++ [(id, dist)])

def selectNeighbors (ix : HnswIndex) (candidates : List Uuid) (m : Nat) (vectors : VectorReader)
    (query : Vector32) : Except Fault (List Uuid) :=
  if candidates.length ≤ m then .ok candidates
  else do
    let distances ← candidates.foldlM (ix.rankNeighbor vectors query) []
    let sorted ← sortBy .ascending Prod.snd distances
    pure ((sorted.take m).map Prod.fst)

/-- The edge from a neighbour back to the new node `id`, pruned if the neighbour
then has more than `m`. -/
def linkNeighbor (id : Uuid) (layer m : Nat) (vectors : VectorReader) (ix : HnswIndex)
    (neighborId : Uuid) : Except Fault HnswIndex :=
  match ix.nodes.lookup neighborId with
  | none => .ok ix
  | some neighbor =>
    match neighbor.connections[layer]? with
    | none => .ok ix
    | some connections =>
      let ix := ix.setConnections neighborId neighbor layer (connections ++ [id])
      if (connections ++ [id]).length > m then
        match vectors.get neighborId with
        | none => .error (.panic "called Option::unwrap() on a None value")
        | some neighborVec => do
          let pruned ← ix.selectNeighbors (connections ++ [id]) m vectors neighborVec
          pure (ix.setConnections neighborId neighbor layer pruned)
      else .ok ix

/-- An insertion on its way down the layers. -/
structure Insertion where
  index : HnswIndex
  currentEntry : List Uuid
  pendingConnections : List (List Uuid)

/-- Search one layer and connect the new node there. -/
def connectLayer (id : Uuid) (vector : Vector32) (vectors : VectorReader) (st : Insertion)
    (layer : Nat) : Except Fault Insertion := do
  let currentEntry ← st.index.searchLayer vector st.currentEntry st.index.config.efConstruction
    layer ⟨vectors, none, ∅⟩
  let m := if layer = 0 then st.index.config.mMax else st.index.config.m
  let neighbors ← st.index.selectNeighbors currentEntry m vectors vector
  let index ← neighbors.foldlM (linkNeighbor id layer m vectors) st.index
  pure ⟨index, currentEntry, st.pendingConnections.set layer neighbors⟩

def insert (ix : HnswIndex) (id : Uuid) (vector : Vector32) (vectors : VectorReader) (r : F32) :
    Except Fault HnswIndex :=
  let layer := ix.randomLayer r
  match ix.startNode with
  | none => .ok { ix with
      startNode := some id
      maxLevel := layer
      nodes := ix.nodes.insert id ⟨List.replicate (layer + 1) [], false⟩ }
  | some start => do
    -- the layers above the new node's, highest first
    let currentEntry ← (List.range' (layer + 1) (ix.maxLevel - layer).toNat).reverse.foldlM
      (fun entry lc => ix.searchLayer vector entry 1 lc ⟨vectors, none, ∅⟩) [start]
    let st ← (List.range (layer + 1)).reverse.foldlM (connectLayer id vector vectors)
      ⟨ix, currentEntry, List.replicate (layer + 1) []⟩
    let ix := { st.index with nodes := st.index.nodes.insert id ⟨st.pendingConnections, false⟩ }
    if (layer : Int) > ix.maxLevel then pure { ix with maxLevel := layer, startNode := some id }
    else pure ix

end

/-- Removal. A new entry point is the first live node in the order the map is
iterated in. -/
def remove (ix : HnswIndex) (id : Uuid) (order : HashOrder Uuid) : HnswIndex :=
  if id ∉ ix.nodes then ix
  else
    let ix := ix.markTombstone id
    if ix.startNode = some id then
      let live := (order.entries ix.nodes).filter fun entry => !entry.2.tombstone
      { ix with
        startNode := live.head?.map Prod.fst
        maxLevel := ((live.map fun entry => (entry.2.connections.length : Int) - 1).max?).getD (-1) }
    else ix

section

variable [Floats]

/-- `max_level as usize`. -/
def topLayer (ix : HnswIndex) : Nat := (ix.maxLevel % 2 ^ 64).toNat

def search (ix : HnswIndex) (query : Vector32) (k ef : Nat) (vectors : VectorReader)
    (filter : Option (Metadata → Bool)) (metadatas : HashMap Uuid Metadata) :
    Except Fault (List Uuid) :=
  match ix.startNode with
  | none => .ok []
  | some ep =>
    if (vectors.get ep).isNone then
      .error (.searchFailed ("HNSW entry point " ++ ep.display ++ " is missing from vector storage"))
    else do
      let currentNearest ← (List.range' 1 ix.topLayer).reverse.foldlM
        (fun nearest lc => ix.searchLayer query nearest 1 lc ⟨vectors, filter, metadatas⟩) [ep]
      let currentNearest ← ix.searchLayer query currentNearest (max ef k) 0
        ⟨vectors, filter, metadatas⟩
      pure ((currentNearest.filter fun id => !ix.isTombstone id).take k)

end

/-- The ids of the live nodes. -/
def trackedIds (ix : HnswIndex) : Finset Uuid := ix.nodes.keys.filter fun id => !ix.isTombstone id

/-- A layer search may return `id`. -/
def Found (ix : HnswIndex) (vectors : VectorReader) (id : Uuid) : Prop :=
  (vectors.get id).isSome ∧ ix.isTombstone id = false

end HnswIndex

/-! ## A layer search returns -/

section

variable [Floats]

/-- Dropping a candidate that was pushed leaves one of the others. -/
theorem pushNearest_subperm (numClosest : Nat) (c : SearchCandidate) (nearest : List SearchCandidate) :
    (HnswIndex.pushNearest numClosest c nearest).Subperm (c :: nearest) := by
  have hperm : (push SearchCandidate.le nearest c).Perm (c :: nearest) := push_perm nearest c
  unfold HnswIndex.pushNearest
  simp only
  split
  · cases hp : pop SearchCandidate.le (push SearchCandidate.le nearest c) with
    | none => simp
    | some popped =>
        obtain ⟨best, rest⟩ := popped
        have hrest : (best :: rest).Perm (c :: nearest) := (pop_perm hp).symm.trans hperm
        simp only [Option.map_some, Option.getD_some]
        exact (List.sublist_cons_self best rest).subperm.trans hrest.subperm
  · exact hperm.subperm

theorem mem_pushNearest {numClosest : Nat} {c x : SearchCandidate} {nearest : List SearchCandidate}
    (hx : x ∈ HnswIndex.pushNearest numClosest c nearest) : x = c ∨ x ∈ nearest :=
  List.mem_cons.mp ((pushNearest_subperm numClosest c nearest).subset hx)

namespace HnswIndex

variable {dim : Nat} {ix : HnswIndex} {context : SearchContext} {query : Vector32}

/-- A layer search returns what the traversal retains, in some order. -/
theorem searchLayer_ok {entryPoints ids : List Uuid} {numClosest level : Nat}
    (h : ix.searchLayer query entryPoints numClosest level context = .ok ids) :
    ∃ st, ix.traverseLayer query entryPoints numClosest level context = .ok st ∧
      ids.Perm (st.nearest.map SearchCandidate.id) := by
  obtain ⟨st, htraverse, h⟩ := bind_eq_ok.mp h
  obtain ⟨result, hsort, h⟩ := bind_eq_ok.mp h
  cases h
  exact ⟨st, htraverse, (sortBy_perm hsort).map SearchCandidate.id⟩

theorem selectNeighbors_ok {candidates ns : List Uuid} {m : Nat} {vectors : VectorReader}
    (h : ix.selectNeighbors candidates m vectors query = .ok ns) :
    candidates.length ≤ m ∧ ns = candidates ∨
      m < candidates.length ∧ ∃ ranked sorted,
        candidates.foldlM (ix.rankNeighbor vectors query) [] = .ok ranked ∧
          sortBy .ascending Prod.snd ranked = .ok sorted ∧ ns = (sorted.take m).map Prod.fst := by
  unfold selectNeighbors at h
  split at h
  · rename_i hle
    cases h
    exact .inl ⟨hle, rfl⟩
  · rename_i hlt
    obtain ⟨ranked, hranked, h⟩ := bind_eq_ok.mp h
    obtain ⟨sorted, hsorted, h⟩ := bind_eq_ok.mp h
    cases h
    exact .inr ⟨Nat.lt_of_not_le hlt, ranked, sorted, hranked, hsorted, rfl⟩

theorem distance_returns (hmode : ix.config.mode.Implemented) {a b : Vector32}
    (hlen : a.length = b.length) : Returns (fun _ => True) (ix.distance a b) := by
  obtain ⟨x, hx⟩ := ix.config.metric.calculate_ok hmode hlen
  rw [distance]
  split
  · exact ⟨_, by rw [hx]; rfl, trivial⟩
  · exact ⟨_, by rw [hx]; rfl, trivial⟩
  · exact ⟨_, hx, trivial⟩

/-- A candidate for a live node, at its distance. -/
structure Rated (ix : HnswIndex) (vectors : VectorReader) (query : Vector32) (c : SearchCandidate) :
    Prop where
  measured : ∃ v, vectors.get c.id = some v ∧ ix.distance query v = .ok c.distance
  live : ix.isTombstone c.id = false

theorem Rated.found {vectors : VectorReader} {c : SearchCandidate} (h : ix.Rated vectors query c) :
    ix.Found vectors c.id := by
  obtain ⟨v, hv, -⟩ := h.measured
  exact ⟨by simp [hv], h.live⟩

/-- Everything in `nearest` may be returned. -/
def Sound (ix : HnswIndex) (vectors : VectorReader) (query : Vector32) (st : LayerSearch) : Prop :=
  ∀ c ∈ st.nearest, ix.Rated vectors query c

/-- A bound on the candidates still to be popped: those waiting, and one for
each vector not visited. -/
def work (vectors : VectorReader) (st : LayerSearch) : Nat :=
  st.candidates.length + (vectors.vectors.keys \ st.visited).card

theorem enterAt_returns (hmode : ix.config.mode.Implemented)
    (hv : context.vectors.Uniform query.length) {st : LayerSearch} {ep : Uuid}
    (hst : ix.Sound context.vectors query st) :
    Returns (fun st' => ix.Sound context.vectors query st' ∧
        st'.candidates.length ≤ st.candidates.length + 1)
      (ix.enterAt query context st ep) := by
  rw [enterAt]
  split
  · exact .ok ⟨hst, Nat.le_succ _⟩
  rename_i epVector hget
  split
  · exact .ok ⟨hst, Nat.le_succ _⟩
  obtain ⟨dist, hdist, -⟩ := distance_returns hmode (hv ep epVector hget).symm
  rw [hdist]
  refine .ok ?_
  cases hdead : ix.isTombstone ep with
  | true => exact ⟨by simpa [Sound, hdead] using hst, by simp⟩
  | false =>
      refine ⟨?_, by simp⟩
      intro c hc
      simp only [Bool.false_eq_true, if_false] at hc
      cases mem_push.mp hc with
      | inl heq => exact heq ▸ ⟨⟨epVector, hget, hdist⟩, hdead⟩
      | inr hmem => exact hst c hmem

theorem visitNeighbor_returns (hmode : ix.config.mode.Implemented)
    (hv : context.vectors.Uniform query.length) {st : LayerSearch} {neighborId : Uuid}
    {numClosest : Nat} (hst : ix.Sound context.vectors query st) :
    Returns (fun st' => ix.Sound context.vectors query st' ∧
        work context.vectors st' ≤ work context.vectors st)
      (ix.visitNeighbor query numClosest context st neighborId) := by
  rw [visitNeighbor]
  split
  · exact .ok ⟨hst, le_rfl⟩
  rename_i hfresh
  have hle : (context.vectors.vectors.keys \ Insert.insert neighborId st.visited).card ≤
      (context.vectors.vectors.keys \ st.visited).card :=
    Finset.card_le_card (Finset.sdiff_subset_sdiff le_rfl (Finset.subset_insert _ _))
  simp only
  split
  · exact .ok ⟨hst, by simp only [work]; omega⟩
  rename_i neighborVector hget
  have hlt : (context.vectors.vectors.keys \ Insert.insert neighborId st.visited).card <
      (context.vectors.vectors.keys \ st.visited).card := by
    apply Finset.card_lt_card
    refine Finset.ssubset_iff_of_subset (Finset.sdiff_subset_sdiff le_rfl
      (Finset.subset_insert _ _)) |>.mpr ⟨neighborId, ?_, by simp⟩
    have hkey : neighborId ∈ context.vectors.vectors.keys :=
      (HashMap.mem_keys_iff _ _).mpr ⟨neighborVector, hget⟩
    simp [hkey, hfresh]
  split
  · exact .ok ⟨hst, by simp only [work]; omega⟩
  obtain ⟨dist, hdist, -⟩ := distance_returns hmode (hv neighborId neighborVector hget).symm
  rw [hdist]
  change Returns _ (if _ then _ else _)
  split
  · split
    · exact .ok ⟨hst, by simp only [work, length_push]; omega⟩
    · rename_i hdead
      refine .ok ⟨?_, by simp only [work, length_push]; omega⟩
      intro c hc
      cases mem_pushNearest hc with
      | inl heq => exact heq ▸ ⟨⟨neighborVector, hget, hdist⟩, by simpa using hdead⟩
      | inr hmem => exact hst c hmem
  · exact .ok ⟨hst, by simp only [work]; omega⟩

theorem exploreLayer_returns (hmode : ix.config.mode.Implemented)
    (hv : context.vectors.Uniform query.length) {numClosest level fuel : Nat} {st : LayerSearch}
    (hst : ix.Sound context.vectors query st) (hfuel : work context.vectors st < fuel) :
    Returns (ix.Sound context.vectors query)
      (ix.exploreLayer query numClosest level context fuel st) := by
  induction fuel generalizing st with
  | zero => omega
  | succ fuel ih =>
      rw [exploreLayer]
      split
      · exact .ok hst
      rename_i candidate rest hpop
      split
      · exact .ok hst
      have hlen := (pop_perm hpop).length_eq
      have hloop := foldlM_returns (f := ix.visitNeighbor query numClosest context)
        (fun _ (st' : LayerSearch) => ix.Sound context.vectors query st' ∧
          work context.vectors st' < fuel)
        (l := ix.neighborsAt candidate.id level) (b := { st with candidates := rest }) ?_ ?_
      · exact hloop.bind fun st₁ hst₁ => ih hst₁.1 hst₁.2
      · rintro neighborId ids st₁ ⟨hsound, hwork⟩
        exact (visitNeighbor_returns hmode hv hsound).mono fun st₂ hst₂ =>
          ⟨hst₂.1, hst₂.2.trans_lt hwork⟩
      · refine ⟨hst, ?_⟩
        simp only [work, List.length_cons] at hfuel hlen ⊢
        omega

/-- A traversal returns, and retains live candidates. -/
theorem traverseLayer_returns (hmode : ix.config.mode.Implemented)
    (hv : context.vectors.Uniform query.length) (entryPoints : List Uuid)
    (numClosest level : Nat) :
    Returns (ix.Sound context.vectors query)
      (ix.traverseLayer query entryPoints numClosest level context) := by
  rw [traverseLayer]
  have henter := foldlM_returns (f := ix.enterAt query context)
    (fun rest (st : LayerSearch) => ix.Sound context.vectors query st ∧
      st.candidates.length + rest.length ≤ entryPoints.length)
    (l := entryPoints) (b := ⟨∅, [], [], F32.infinity⟩) ?_ ?_
  · refine henter.bind ?_
    rintro st ⟨hsound, hlen⟩
    have hfuel : work context.vectors { st with furthestDistance := furthest st.nearest } <
        entryPoints.length + context.vectors.len + 1 := by
      have hcard : (context.vectors.vectors.keys \ st.visited).card ≤ context.vectors.len :=
        Finset.card_le_card Finset.sdiff_subset
      simp only [work, List.length_nil] at hlen ⊢
      omega
    exact exploreLayer_returns hmode hv hsound hfuel
  · rintro ep rest st ⟨hsound, hlen⟩
    refine (enterAt_returns hmode hv hsound).mono fun st' hst' => ⟨hst'.1, ?_⟩
    have hstep := hst'.2
    simp only [List.length_cons] at hlen
    omega
  · exact ⟨by simp [Sound], by simp⟩

end HnswIndex

end

/-! ## Insertion rewires only -/

namespace HnswIndex

variable {ix ix' ix'' : HnswIndex}

/-- The two graphs differ in their edges only. -/
structure Rewired (ix ix' : HnswIndex) : Prop where
  config : ix'.config = ix.config
  startNode : ix'.startNode = ix.startNode
  maxLevel : ix'.maxLevel = ix.maxLevel
  keys : ix'.nodes.keys = ix.nodes.keys
  tombstone : ∀ id, ix'.isTombstone id = ix.isTombstone id

theorem Rewired.refl (ix : HnswIndex) : Rewired ix ix := ⟨rfl, rfl, rfl, rfl, fun _ => rfl⟩

theorem Rewired.trans (h : Rewired ix ix') (h' : Rewired ix' ix'') : Rewired ix ix'' where
  config := h'.config.trans h.config
  startNode := h'.startNode.trans h.startNode
  maxLevel := h'.maxLevel.trans h.maxLevel
  keys := h'.keys.trans h.keys
  tombstone id := (h'.tombstone id).trans (h.tombstone id)

theorem rewired_setConnections {id : Uuid} {old node : HnswNode}
    (hold : ix.nodes.lookup id = some old) (htomb : node.tombstone = old.tombstone) (layer : Nat)
    (neighbors : List Uuid) : Rewired ix (ix.setConnections id node layer neighbors) := by
  refine ⟨rfl, rfl, rfl, ?_, ?_⟩
  · rw [setConnections, HashMap.keys_insert, Finset.insert_eq_of_mem]
    exact (HashMap.mem_keys_iff _ _).mpr ⟨old, hold⟩
  · intro id'
    simp only [isTombstone, setConnections, HashMap.lookup_insert]
    split
    · rename_i heq
      rw [heq, hold]
      exact htomb
    · rfl

section

variable [Floats] {vectors : VectorReader} {dim : Nat}

theorem linkNeighbor_rewired {id neighborId : Uuid} {layer m : Nat}
    (h : linkNeighbor id layer m vectors ix neighborId = .ok ix') : Rewired ix ix' := by
  rw [linkNeighbor] at h
  split at h
  · cases h
    exact .refl ix
  rename_i neighbor hnode
  split at h
  · cases h
    exact .refl ix
  rename_i connections _
  have hlinked := rewired_setConnections hnode rfl layer (connections ++ [id])
  simp only at h
  split at h
  · split at h
    · cases h
    rw [bind_eq_ok] at h
    obtain ⟨pruned, -, h⟩ := h
    cases h
    have hnode' : (ix.setConnections neighborId neighbor layer (connections ++ [id])).nodes.lookup
        neighborId = some { neighbor with
          connections := neighbor.connections.set layer (connections ++ [id]) } := by
      simp [setConnections]
    have htomb : neighbor.tombstone = ({ neighbor with
        connections := neighbor.connections.set layer (connections ++ [id]) } : HnswNode).tombstone := rfl
    exact hlinked.trans (rewired_setConnections hnode' htomb layer pruned)
  · cases h
    exact hlinked

theorem connectLayer_rewired {id : Uuid} {vector : Vector32} {st st' : Insertion} {layer : Nat}
    (h : connectLayer id vector vectors st layer = .ok st') : Rewired st.index st'.index := by
  rw [connectLayer, bind_eq_ok] at h
  obtain ⟨entry, -, h⟩ := h
  rw [bind_eq_ok] at h
  obtain ⟨neighbors, -, h⟩ := h
  rw [bind_eq_ok] at h
  obtain ⟨index, hloop, h⟩ := h
  cases h
  exact foldlM_keeps (fun _ ix => Rewired st.index ix)
    (fun _ _ _ _ hst hstep => hst.trans (linkNeighbor_rewired hstep)) (.refl _) hloop

/-- What an insertion that returned did to the graph, its edges aside. -/
structure Inserted (id : Uuid) (layer : Nat) (ix ix' : HnswIndex) : Prop where
  config : ix'.config = ix.config
  keys : ix'.nodes.keys = Insert.insert id ix.nodes.keys
  tombstone : ∀ id', ix'.isTombstone id' = (if id' = id then false else ix.isTombstone id')
  startNode : ix'.startNode =
    if ix.startNode = none ∨ (layer : Int) > ix.maxLevel then some id else ix.startNode
  maxLevel : ix'.maxLevel =
    if ix.startNode = none ∨ (layer : Int) > ix.maxLevel then (layer : Int) else ix.maxLevel

omit [Floats] in
theorem isTombstone_insertNode (nodes : HashMap Uuid HnswNode) (id id' : Uuid)
    (connections : List (List Uuid)) :
    isTombstone { ix with nodes := nodes.insert id ⟨connections, false⟩ } id' =
      (if id' = id then false else isTombstone { ix with nodes := nodes } id') := by
  simp only [isTombstone, HashMap.lookup_insert]
  split <;> rfl

theorem insert_inserted {id : Uuid} {vector : Vector32} {r : F32}
    (h : ix.insert id vector vectors r = .ok ix') : Inserted id (ix.randomLayer r) ix ix' := by
  rw [insert] at h
  simp only at h
  split at h
  · rename_i hstart
    cases h
    refine ⟨rfl, HashMap.keys_insert _ _ _, fun id' => ?_, by simp [hstart], by simp [hstart]⟩
    exact isTombstone_insertNode _ _ _ _
  rename_i start hstart
  rw [bind_eq_ok] at h
  obtain ⟨entry, -, h⟩ := h
  rw [bind_eq_ok] at h
  obtain ⟨st, hconnect, h⟩ := h
  have hst : Rewired ix st.index := foldlM_keeps (fun _ (st : Insertion) => Rewired ix st.index)
    (fun _ _ _ _ hst hstep => hst.trans (connectLayer_rewired hstep)) (.refl ix) hconnect
  have hkeys : (st.index.nodes.insert id ⟨st.pendingConnections, false⟩).keys =
      Insert.insert id ix.nodes.keys := by
    rw [HashMap.keys_insert, hst.keys]
  have htomb : ∀ id', isTombstone { st.index with
      nodes := st.index.nodes.insert id ⟨st.pendingConnections, false⟩ } id' =
        (if id' = id then false else ix.isTombstone id') := by
    intro id'
    rw [isTombstone_insertNode]
    split
    · rfl
    · exact hst.tombstone id'
  split at h
  · rename_i habove
    rw [hst.maxLevel] at habove
    cases h
    exact ⟨hst.config, hkeys, htomb, by simp [habove], by simp [habove]⟩
  · rename_i hbelow
    rw [hst.maxLevel] at hbelow
    cases h
    exact ⟨hst.config, hkeys, htomb, by simp [hstart, hst.startNode, hbelow],
      by simp [hstart, hst.maxLevel, hbelow]⟩

end

/-! ## Tracked ids -/

theorem mem_trackedIds {id : Uuid} :
    id ∈ ix.trackedIds ↔ id ∈ ix.nodes ∧ ix.isTombstone id = false := by
  rw [trackedIds, Finset.mem_filter, Finmap.mem_keys, Bool.not_eq_true']

theorem Inserted.trackedIds {id : Uuid} {layer : Nat} (h : Inserted id layer ix ix') :
    ix'.trackedIds = Insert.insert id ix.trackedIds := by
  ext id'
  have hkeys : id' ∈ ix'.nodes ↔ id' = id ∨ id' ∈ ix.nodes := by
    rw [← Finmap.mem_keys, h.keys, Finset.mem_insert, Finmap.mem_keys]
  rw [mem_trackedIds, hkeys, h.tombstone, Finset.mem_insert, mem_trackedIds]
  by_cases heq : id' = id <;> simp [heq]

theorem trackedIds_markTombstone (ix : HnswIndex) (id : Uuid) :
    (ix.markTombstone id).trackedIds = ix.trackedIds.erase id := by
  ext id'
  rw [Finset.mem_erase, mem_trackedIds, mem_trackedIds, markTombstone]
  cases hnode : ix.nodes.lookup id with
  | none =>
      have hnot : id ∉ ix.nodes := Finmap.lookup_eq_none.mp hnode
      constructor
      · rintro ⟨hmem, htomb⟩
        exact ⟨fun heq => hnot (heq ▸ hmem), hmem, htomb⟩
      · exact fun h => h.2
  | some node =>
      have hin : id ∈ ix.nodes := Finmap.mem_iff.mpr ⟨node, hnode⟩
      simp only [Finmap.mem_insert, isTombstone, HashMap.lookup_insert]
      by_cases heq : id' = id
      · simp [heq]
      · simp [heq]

theorem trackedIds_remove (ix : HnswIndex) (id : Uuid) (order : HashOrder Uuid) :
    (ix.remove id order).trackedIds = ix.trackedIds.erase id := by
  rw [remove]
  split
  · rename_i hnot
    refine (Finset.erase_eq_of_notMem fun hmem => hnot ?_).symm
    exact (mem_trackedIds.mp hmem).1
  · simp only
    split
    · exact trackedIds_markTombstone ix id
    · exact trackedIds_markTombstone ix id

@[simp] theorem config_remove (ix : HnswIndex) (id : Uuid) (order : HashOrder Uuid) :
    (ix.remove id order).config = ix.config := by
  have hmark : (ix.markTombstone id).config = ix.config := by
    rw [markTombstone]
    split <;> rfl
  rw [remove]
  split
  · rfl
  · simp only
    split <;> exact hmark

end HnswIndex
