-- SUMMARY: A layer search with room for every node is a best-first traversal that stops at the closest live node it has seen.
import Piramid.Base.BestFirst
import Piramid.Index.Retention

/-!
# Layer searches that keep every node

The bound of a layer search comes from the top of a heap whose order is reversed: it is
the distance of the closest node retained, not of the furthest. With room for every node
nothing is dropped, so the search is a best-first traversal up to that bound.
-/

open BestFirst BinaryHeap Loop

namespace HnswIndex

section

variable [Floats]

/-- The nodes with vectors have a distance, the distances are ordered, and none is beyond
infinity. -/
structure Measured (ix : HnswIndex) (query : Vector32) (vectors : VectorReader) (dist : Uuid → F32)
    (key : Uuid → Int) : Prop where
  distance : ∀ id v, id ∈ ix.nodes → vectors.get id = some v → ix.distance query v = .ok (dist id)
  ordered : ∀ a b, a ∈ ix.nodes → b ∈ ix.nodes → (vectors.get a).isSome → (vectors.get b).isSome →
    Floats.partialCmp (dist a) (dist b) = some (compare (key a) (key b))
  bounded : ∀ a, a ∈ ix.nodes → (vectors.get a).isSome → F32.gt (dist a) F32.infinity = false

end

/-- The edges of a layer between nodes with vectors. -/
def terrain (ix : HnswIndex) (vectors : VectorReader) (key : Uuid → Int) (level : Nat) :
    Terrain Uuid Int where
  next id := (ix.neighborsAt id level).filter fun n => (vectors.get n).isSome
  distance := key
  live id := !ix.isTombstone id

/-- A candidate for a node with a vector, at its distance. -/
structure Known (ix : HnswIndex) (vectors : VectorReader) (dist : Uuid → F32) (c : SearchCandidate) :
    Prop where
  node : c.id ∈ ix.nodes
  vector : (vectors.get c.id).isSome
  distance : c.distance = dist c.id

section

variable [Floats]

/-- The nodes seen are those visited that have vectors, and the live ones are retained. -/
structure Retained (ix : HnswIndex) (vectors : VectorReader) (dist : Uuid → F32) (st : LayerSearch)
    (seen : Finset Uuid) : Prop where
  visited : ∀ id, id ∈ seen ↔ id ∈ st.visited ∧ (vectors.get id).isSome
  nodes : ∀ id ∈ seen, id ∈ ix.nodes
  nearest : ∀ id, id ∈ st.nearest.map SearchCandidate.id ↔ id ∈ seen ∧ ix.isTombstone id = false
  nodup : (st.nearest.map SearchCandidate.id).Nodup
  known : ∀ c ∈ st.nearest, ix.Known vectors dist c
  heap : IsHeap SearchCandidate.le st.nearest

/-- The layer search is as far as the traversal: the candidates are the nodes that wait. -/
structure Mirrors (ix : HnswIndex) (vectors : VectorReader) (dist : Uuid → F32) (st : LayerSearch)
    (f : Front Uuid) : Prop where
  retained : ix.Retained vectors dist st f.seen
  explored : ∀ id ∈ f.explored, id ∈ f.seen
  waiting : ∀ id, id ∈ st.candidates.map SearchCandidate.id ↔ f.Waits id
  nodup : (st.candidates.map SearchCandidate.id).Nodup
  candidates : ∀ c ∈ st.candidates, ix.Known vectors dist c
  heap : IsHeap SearchCandidate.le st.candidates

end

section

variable [Floats] {ix : HnswIndex} {query : Vector32} {vectors : VectorReader} {dist : Uuid → F32}
  {key : Uuid → Int} {metadatas : HashMap Uuid Metadata} {st st' : LayerSearch} {f : Front Uuid}
  {seen : Finset Uuid} {numClosest level : Nat} {id : Uuid} {c d : SearchCandidate}

/-! ## The heaps -/

theorem Measured.gt_iff (h : ix.Measured query vectors dist key) (hc : ix.Known vectors dist c)
    (hd : ix.Known vectors dist d) : F32.gt c.distance d.distance ↔ key d.id < key c.id := by
  unfold F32.gt
  rw [hc.distance, hd.distance, h.ordered c.id d.id hc.node hd.node hc.vector hd.vector,
    decide_eq_true_iff, Option.some.injEq, compare_gt_iff_gt]

/-- The heaps have the closest candidate on top. -/
theorem Measured.cmp_iff (h : ix.Measured query vectors dist key) (hc : ix.Known vectors dist c)
    (hd : ix.Known vectors dist d) : c.cmp d = .gt ↔ key c.id < key d.id := by
  unfold SearchCandidate.cmp F32.cmp
  rw [hc.distance, hd.distance, h.ordered d.id c.id hd.node hc.node hd.vector hc.vector,
    Option.getD_some, compare_gt_iff_gt]

theorem Measured.le_iff (h : ix.Measured query vectors dist key) (hc : ix.Known vectors dist c)
    (hd : ix.Known vectors dist d) : c.le d = true ↔ key d.id ≤ key c.id := by
  rw [SearchCandidate.le, decide_eq_true_iff, Ne, h.cmp_iff hc hd, not_lt]

theorem Measured.orderedOn (h : ix.Measured query vectors dist key) :
    OrderedOn SearchCandidate.le (ix.Known vectors dist) where
  total c d hc hd := by
    rw [h.le_iff hc hd, h.le_iff hd hc]
    exact le_total _ _
  trans c d e hc hd he hcd hde := by
    rw [h.le_iff hc hd] at hcd
    rw [h.le_iff hd he] at hde
    rw [h.le_iff hc he]
    exact le_trans hde hcd

/-- The candidate on top is as close as any. -/
theorem Measured.closest_peek (h : ix.Measured query vectors dist key) {heap : List SearchCandidate}
    (hheap : IsHeap SearchCandidate.le heap) (hknown : ∀ c ∈ heap, ix.Known vectors dist c)
    (htop : peek heap = some c) : ∀ d ∈ heap, key c.id ≤ key d.id := by
  intro d hd
  rw [← h.le_iff (hknown d hd) (hknown c (mem_peek htop))]
  exact hheap.le_peek h.orderedOn hknown htop d hd

/-- The bound is the distance of the closest node that is retained. -/
theorem Measured.beyond_iff (h : ix.Measured query vectors dist key) (level : Nat)
    (hst : ix.Retained vectors dist st seen) (hc : ix.Known vectors dist c) :
    F32.gt c.distance (furthest st.nearest) ↔
      ∃ y ∈ seen, (ix.terrain vectors key level).live y ∧ key y < key c.id := by
  have hlive : ∀ y, y ∈ seen ∧ (ix.terrain vectors key level).live y ↔
      y ∈ st.nearest.map SearchCandidate.id := by
    intro y
    rw [hst.nearest]
    simp only [terrain, Bool.not_eq_true']
  unfold furthest
  cases htop : peek st.nearest with
  | none =>
      have hempty : st.nearest = [] := List.head?_eq_none_iff.mp htop
      rw [Option.map_none, Option.getD_none, hc.distance, h.bounded c.id hc.node hc.vector]
      refine iff_of_false (by simp) ?_
      rintro ⟨y, hy, hylive, -⟩
      have hmem := (hlive y).mp ⟨hy, hylive⟩
      rw [hempty] at hmem
      cases hmem
  | some best =>
      have hmem : best ∈ st.nearest := mem_peek htop
      rw [Option.map_some, Option.getD_some, h.gt_iff hc (hst.known best hmem)]
      constructor
      · intro hlt
        obtain ⟨hseen, hbest⟩ := (hlive best.id).mpr (List.mem_map_of_mem hmem)
        exact ⟨best.id, hseen, hbest, hlt⟩
      · rintro ⟨y, hy, hylive, hlt⟩
        obtain ⟨d, hd, rfl⟩ := List.mem_map.mp ((hlive y).mp ⟨hy, hylive⟩)
        exact lt_of_le_of_lt (h.closest_peek hst.heap hst.known htop d hd) hlt

/-! ## The steps of the search -/

theorem Retained.length_lt (h : ix.Retained vectors dist st seen) (hid : id ∈ ix.nodes)
    (hnew : id ∉ seen) : st.nearest.length < ix.nodes.len := by
  have hsub : (st.nearest.map SearchCandidate.id).toFinset ⊆ ix.nodes.keys.erase id := by
    intro id' hid'
    have hseen := ((h.nearest id').mp (List.mem_toFinset.mp hid')).1
    refine Finset.mem_erase.mpr ⟨fun heq => hnew (heq ▸ hseen), ?_⟩
    exact Finmap.mem_keys.mpr (h.nodes id' hseen)
  have hcard := Finset.card_le_card hsub
  rw [List.toFinset_card_of_nodup h.nodup, List.length_map] at hcard
  exact lt_of_le_of_lt hcard (Finset.card_erase_lt_of_mem (Finmap.mem_keys.mpr hid))

/-- A node with a vector is visited, and retained if it is live. -/
theorem Retained.visit (h : ix.Retained vectors dist st seen) (hm : ix.Measured query vectors dist key)
    (hid : id ∈ ix.nodes) (hvector : (vectors.get id).isSome) (hnew : id ∉ seen)
    (hvisited : st'.visited = Insert.insert id st.visited)
    (hnearest : st'.nearest =
      if ix.isTombstone id then st.nearest else push SearchCandidate.le st.nearest ⟨id, dist id⟩) :
    ix.Retained vectors dist st' (Insert.insert id seen) := by
  have hpush : ((push SearchCandidate.le st.nearest ⟨id, dist id⟩).map SearchCandidate.id).Perm
      (id :: st.nearest.map SearchCandidate.id) :=
    (push_perm st.nearest ⟨id, dist id⟩).map SearchCandidate.id
  have hnodup : (id :: st.nearest.map SearchCandidate.id).Nodup :=
    List.nodup_cons.mpr ⟨fun hmem => hnew ((h.nearest id).mp hmem).1, h.nodup⟩
  refine ⟨?_, ?_, ?_, ?_, ?_, ?_⟩
  · intro id'
    rw [hvisited, Finset.mem_insert, Finset.mem_insert, h.visited]
    constructor
    · rintro (rfl | ⟨hmem, hvec⟩)
      · exact ⟨.inl rfl, hvector⟩
      · exact ⟨.inr hmem, hvec⟩
    · rintro ⟨rfl | hmem, hvec⟩
      · exact .inl rfl
      · exact .inr ⟨hmem, hvec⟩
  · intro id' hid'
    rcases Finset.mem_insert.mp hid' with rfl | hmem
    · exact hid
    · exact h.nodes id' hmem
  · intro id'
    rw [hnearest]
    cases hdead : ix.isTombstone id with
    | true =>
        rw [if_pos rfl, h.nearest, Finset.mem_insert]
        constructor
        · rintro ⟨hmem, hlive⟩
          exact ⟨.inr hmem, hlive⟩
        · rintro ⟨rfl | hmem, hlive⟩
          · rw [hdead] at hlive
            cases hlive
          · exact ⟨hmem, hlive⟩
    | false =>
        rw [if_neg (by simp), hpush.mem_iff, List.mem_cons, h.nearest, Finset.mem_insert]
        constructor
        · rintro (rfl | ⟨hmem, hlive⟩)
          · exact ⟨.inl rfl, hdead⟩
          · exact ⟨.inr hmem, hlive⟩
        · rintro ⟨rfl | hmem, hlive⟩
          · exact .inl rfl
          · exact .inr ⟨hmem, hlive⟩
  · rw [hnearest]
    split
    · exact h.nodup
    · exact hpush.nodup_iff.mpr hnodup
  · intro c hc
    rw [hnearest] at hc
    split at hc
    · exact h.known c hc
    · rcases mem_push.mp hc with rfl | hc
      · exact ⟨hid, hvector, rfl⟩
      · exact h.known c hc
  · rw [hnearest]
    split
    · exact h.heap
    · exact h.heap.push hm.orderedOn h.known ⟨hid, hvector, rfl⟩

/-- A layer search and a traversal, when a node with a vector is seen. -/
theorem Mirrors.see (h : ix.Mirrors vectors dist st f) (hm : ix.Measured query vectors dist key)
    (hid : id ∈ ix.nodes) (hvector : (vectors.get id).isSome) (hnew : id ∉ f.seen)
    (hnearest : st'.nearest =
      if ix.isTombstone id then st.nearest else push SearchCandidate.le st.nearest ⟨id, dist id⟩)
    (hvisited : st'.visited = Insert.insert id st.visited)
    (hcandidates : st'.candidates = push SearchCandidate.le st.candidates ⟨id, dist id⟩) :
    ix.Mirrors vectors dist st' (f.see id) := by
  have hpush : (st'.candidates.map SearchCandidate.id).Perm (id :: st.candidates.map SearchCandidate.id) := by
    rw [hcandidates]
    exact (push_perm st.candidates ⟨id, dist id⟩).map SearchCandidate.id
  refine ⟨h.retained.visit hm hid hvector hnew hvisited hnearest, ?_, ?_, ?_, ?_, ?_⟩
  · intro id' hid'
    exact Finset.mem_insert_of_mem (h.explored id' hid')
  · intro id'
    rw [hpush.mem_iff, List.mem_cons, h.waiting, Front.Waits, Front.Waits, Front.see, Finset.mem_insert]
    constructor
    · rintro (rfl | ⟨hseen, hnot⟩)
      · exact ⟨.inl rfl, fun hexplored => hnew (h.explored _ hexplored)⟩
      · exact ⟨.inr hseen, hnot⟩
    · rintro ⟨rfl | hseen, hnot⟩
      · exact .inl rfl
      · exact .inr ⟨hseen, hnot⟩
  · rw [hpush.nodup_iff, List.nodup_cons, h.waiting]
    exact ⟨fun hwaits => hnew hwaits.1, h.nodup⟩
  · intro c hc
    rw [hcandidates] at hc
    rcases mem_push.mp hc with rfl | hc
    · exact ⟨hid, hvector, rfl⟩
    · exact h.candidates c hc
  · rw [hcandidates]
    exact h.heap.push hm.orderedOn h.candidates ⟨hid, hvector, rfl⟩

/-- The candidate on top is taken to be explored. -/
theorem Mirrors.take (h : ix.Mirrors vectors dist st f) (hm : ix.Measured query vectors dist key)
    {rest : List SearchCandidate} (hpop : pop SearchCandidate.le st.candidates = some (c, rest)) :
    ix.Mirrors vectors dist { st with candidates := rest }
      { f with explored := Insert.insert c.id f.explored } := by
  have hperm := pop_perm hpop
  have hids : (st.candidates.map SearchCandidate.id).Perm (c.id :: rest.map SearchCandidate.id) :=
    hperm.map SearchCandidate.id
  obtain ⟨hnot, hnodup⟩ := List.nodup_cons.mp (hids.nodup_iff.mp h.nodup)
  have hwaits := (h.waiting c.id).mp (hids.mem_iff.mpr (by simp))
  refine ⟨⟨h.retained.visited, h.retained.nodes, h.retained.nearest, h.retained.nodup, h.retained.known,
    h.retained.heap⟩, ?_, ?_, hnodup, ?_, h.heap.pop hm.orderedOn h.candidates hpop⟩
  · intro id hid
    rcases Finset.mem_insert.mp hid with rfl | hid
    · exact hwaits.1
    · exact h.explored id hid
  · intro id
    have hid := h.waiting id
    rw [hids.mem_iff, List.mem_cons] at hid
    rw [Front.Waits, Finset.mem_insert, not_or]
    constructor
    · intro hmem
      obtain ⟨hseen, hunexplored⟩ := hid.mp (.inr hmem)
      exact ⟨hseen, fun heq => hnot (heq ▸ hmem), hunexplored⟩
    · rintro ⟨hseen, hne, hunexplored⟩
      exact (hid.mpr ⟨hseen, hunexplored⟩).resolve_left hne
  · intro d hd
    exact h.candidates d (hperm.mem_iff.mpr (List.mem_cons_of_mem c hd))

theorem Mirrors.enterAt (h : ix.Mirrors vectors dist st f)
    (hm : ix.Measured query vectors dist key) (hid : id ∈ ix.nodes)
    (hvector : (vectors.get id).isSome) (hnew : id ∉ f.seen) :
    Returns (fun st' => ix.Mirrors vectors dist st' (f.see id))
      (ix.enterAt query ⟨vectors, none, metadatas⟩ st id) := by
  obtain ⟨v, hv⟩ := Option.isSome_iff_exists.mp hvector
  unfold HnswIndex.enterAt
  simp only [hv, hm.distance id v hid hv]
  exact .ok (h.see hm hid hvector hnew rfl rfl rfl)

/-- A traversal sees `id` if it has a vector. -/
def seeVector (vectors : VectorReader) (f : Front Uuid) (id : Uuid) : Front Uuid :=
  if (vectors.get id).isSome then f.see id else f

/-- A node is visited. -/
theorem Mirrors.visitNeighbor (h : ix.Mirrors vectors dist st f)
    (hfurthest : st.furthestDistance = furthest st.nearest)
    (hm : ix.Measured query vectors dist key) (hbeam : ix.nodes.len ≤ numClosest)
    (hid : id ∈ ix.nodes) :
    Returns (fun st' => ix.Mirrors vectors dist st' (seeVector vectors f id) ∧
        st'.furthestDistance = furthest st'.nearest)
      (ix.visitNeighbor query numClosest ⟨vectors, none, metadatas⟩ st id) := by
  unfold HnswIndex.visitNeighbor
  by_cases hvisited : id ∈ st.visited
  · rw [if_pos hvisited]
    refine .ok ⟨?_, hfurthest⟩
    unfold seeVector
    split
    · rename_i hvector
      have hseen : id ∈ f.seen := (h.retained.visited id).mpr ⟨hvisited, hvector⟩
      rw [Front.see, Finset.insert_eq_of_mem hseen]
      exact h
    · exact h
  rw [if_neg hvisited]
  have hnew : id ∉ f.seen := fun hseen => hvisited ((h.retained.visited id).mp hseen).1
  cases hv : vectors.get id with
  | none =>
      have hsee : seeVector vectors f id = f := if_neg (by simp [hv])
      rw [hsee]
      refine .ok ⟨⟨?_, h.explored, h.waiting, h.nodup, h.candidates, h.heap⟩, hfurthest⟩
      refine ⟨?_, h.retained.nodes, h.retained.nearest, h.retained.nodup, h.retained.known, h.retained.heap⟩
      intro id'
      rw [h.retained.visited, Finset.mem_insert]
      refine and_congr_left fun hvector => (or_iff_right ?_).symm
      rintro rfl
      rw [hv] at hvector
      cases hvector
  | some v =>
      have hvector : (vectors.get id).isSome := by
        rw [hv]
        rfl
      have hsee : seeVector vectors f id = f.see id := if_pos hvector
      have hroom : st.nearest.length < numClosest :=
        lt_of_lt_of_le (h.retained.length_lt hid hnew) hbeam
      have hpush : pushNearest numClosest ⟨id, dist id⟩ st.nearest =
          push SearchCandidate.le st.nearest ⟨id, dist id⟩ :=
        if_neg (by rw [length_push]; omega)
      rw [hsee]
      simp only [hm.distance id v hid hv, SearchContext.admits, Bool.not_true, Bool.false_eq_true,
        if_false, bind, Except.bind, hroom, or_true, if_true]
      cases hdead : ix.isTombstone id with
      | true => exact .ok ⟨h.see hm hid hvector hnew (by rw [hdead]; rfl) rfl rfl, hfurthest⟩
      | false =>
          rw [if_neg (by simp), hpush]
          exact .ok ⟨h.see hm hid hvector hnew (by rw [hdead]; rfl) rfl rfl, rfl⟩

/-- The neighbours of a node are visited. -/
theorem Mirrors.visitNeighbors (h : ix.Mirrors vectors dist st f)
    (metadatas : HashMap Uuid Metadata) (hfurthest : st.furthestDistance = furthest st.nearest)
    (hm : ix.Measured query vectors dist key) (hbeam : ix.nodes.len ≤ numClosest) {ns : List Uuid}
    (hns : ∀ n ∈ ns, n ∈ ix.nodes) :
    Returns (fun st' => ix.Mirrors vectors dist st'
        ((ns.filter fun n => (vectors.get n).isSome).foldl Front.see f) ∧
        st'.furthestDistance = furthest st'.nearest)
      (ns.foldlM (ix.visitNeighbor query numClosest ⟨vectors, none, metadatas⟩) st) := by
  rw [List.foldl_filter]
  change Returns (fun st' => ix.Mirrors vectors dist st' (ns.foldl (seeVector vectors) f) ∧
    st'.furthestDistance = furthest st'.nearest) _
  induction ns generalizing st f with
  | nil => exact .ok ⟨h, hfurthest⟩
  | cons n ns ih =>
      rw [List.foldlM_cons, List.foldl_cons]
      refine (h.visitNeighbor hfurthest hm hbeam (hns n (by simp))).bind ?_
      intro st' hst'
      exact ih hst'.1 hst'.2 fun n' hn' => hns n' (by simp [hn'])

/-! ## The whole search -/

/-- The loop ends with what the traversal has seen when it stops. -/
theorem Mirrors.exploreLayer (h : ix.Mirrors vectors dist st f) (level : Nat)
    (metadatas : HashMap Uuid Metadata) (hfurthest : st.furthestDistance = furthest st.nearest)
    (hm : ix.Measured query vectors dist key) (hbeam : ix.nodes.len ≤ numClosest) (hwired : ix.Wired)
    {fuel : Nat} (hfuel : work vectors st < fuel) :
    Returns (fun st' => ∃ g : Front Uuid, f.Walks (ix.terrain vectors key level) g ∧
        g.Stopped (ix.terrain vectors key level) ∧ ix.Retained vectors dist st' g.seen)
      (ix.exploreLayer query numClosest level ⟨vectors, none, metadatas⟩ fuel st) := by
  induction fuel generalizing st f with
  | zero => omega
  | succ fuel ih =>
      unfold HnswIndex.exploreLayer
      cases hpop : pop SearchCandidate.le st.candidates with
      | none =>
          have hempty : st.candidates = [] := pop_eq_none.mp hpop
          refine .ok ⟨f, .refl, fun u hu => ?_, h.retained⟩
          have hmem := (h.waiting u).mpr hu
          rw [hempty] at hmem
          cases hmem
      | some popped =>
          obtain ⟨candidate, rest⟩ := popped
          obtain ⟨htop, hperm⟩ := pop_eq_some hpop
          have hmem : candidate ∈ st.candidates := mem_peek htop
          have hknown : ix.Known vectors dist candidate := h.candidates candidate hmem
          have hclosest : ∀ y, f.Waits y → key candidate.id ≤ key y := by
            intro y hy
            obtain ⟨d, hd, rfl⟩ := List.mem_map.mp ((h.waiting y).mpr hy)
            exact hm.closest_peek h.heap h.candidates htop d hd
          have hbound := hm.beyond_iff level h.retained hknown
          rw [← hfurthest] at hbound
          simp only
          split
          · rename_i hgt
            obtain ⟨y, hy, hlive, hlt⟩ := hbound.mp hgt
            refine .ok ⟨f, .refl, fun u hu => ⟨y, hy, hlive, lt_of_lt_of_le hlt (hclosest u hu)⟩, ?_⟩
            exact ⟨h.retained.visited, h.retained.nodes, h.retained.nearest, h.retained.nodup,
              h.retained.known, h.retained.heap⟩
          · rename_i hle
            have hready : f.Ready (ix.terrain vectors key level) candidate.id := by
              refine ⟨(h.waiting candidate.id).mp (List.mem_map_of_mem hmem), hclosest, ?_⟩
              intro y hy hlive
              exact not_lt.mp fun hlt => hle (hbound.mpr ⟨y, hy, hlive, hlt⟩)
            have hneighbors : ∀ n ∈ ix.neighborsAt candidate.id level, n ∈ ix.nodes :=
              fun n hn => Finmap.mem_keys.mp (hwired candidate.id level n hn)
            obtain ⟨st₁, hloop, hst₁, hfurthest₁⟩ :=
              (h.take hm hpop).visitNeighbors metadatas hfurthest hm hbeam hneighbors
            have hless := work_explored hpop hloop
            rw [hloop]
            refine (ih hst₁ hfurthest₁ (by simp only at hless; omega)).mono ?_
            rintro st₂ ⟨g, hwalk, hstopped, hst₂⟩
            exact ⟨g, .head ⟨candidate.id, hready, rfl⟩ hwalk, hstopped, hst₂⟩

/-- The layer search finds the live nodes that the edges of the layer lead to from the
entry points, closest first. -/
def Exhaustive (ix : HnswIndex) (query : Vector32) (entryPoints : List Uuid)
    (numClosest level : Nat) (vectors : VectorReader) (metadatas : HashMap Uuid Metadata)
    (dist : Uuid → F32) (key : Uuid → Int) : Prop :=
  ∃ ids, ix.searchLayer query entryPoints numClosest level ⟨vectors, none, metadatas⟩ = .ok ids ∧
    ids.Nodup ∧ (ids.Pairwise fun a b => ¬F32.gt (dist a) (dist b)) ∧
    ∀ id, id ∈ ids ↔ ix.isTombstone id = false ∧ (ix.terrain vectors key level).Reaches entryPoints id

variable {entryPoints : List Uuid}

theorem mirrors_enter (metadatas : HashMap Uuid Metadata)
    (hm : ix.Measured query vectors dist key) (hnodup : entryPoints.Nodup)
    (hentry : ∀ ep ∈ entryPoints, ep ∈ ix.nodes ∧ (vectors.get ep).isSome) :
    Returns (fun st => ix.Mirrors vectors dist st (Front.enter entryPoints))
      (entryPoints.foldlM (ix.enterAt query ⟨vectors, none, metadatas⟩) ⟨∅, [], [], F32.infinity⟩) := by
  have hloop : ∀ (eps : List Uuid) (st : LayerSearch) (f : Front Uuid), eps.Nodup →
      (∀ ep ∈ eps, ep ∈ ix.nodes ∧ (vectors.get ep).isSome ∧ ep ∉ f.seen) →
      ix.Mirrors vectors dist st f →
      Returns (fun st => ix.Mirrors vectors dist st (eps.foldl Front.see f))
        (eps.foldlM (ix.enterAt query ⟨vectors, none, metadatas⟩) st) := by
    intro eps
    induction eps with
    | nil => exact fun st f _ _ h => .ok h
    | cons ep eps ih =>
        intro st f hnodup heps h
        obtain ⟨hnot, hnodup⟩ := List.nodup_cons.mp hnodup
        obtain ⟨hnode, hvector, hnew⟩ := heps ep (by simp)
        rw [List.foldlM_cons, List.foldl_cons]
        refine (h.enterAt hm hnode hvector hnew).bind fun st' hst' => ih st' _ hnodup ?_ hst'
        intro ep' hep'
        obtain ⟨hnode', hvector', hnew'⟩ := heps ep' (by simp [hep'])
        refine ⟨hnode', hvector', ?_⟩
        rw [Front.see, Finset.mem_insert, not_or]
        exact ⟨fun heq => hnot (heq ▸ hep'), hnew'⟩
  refine hloop entryPoints _ _ hnodup (fun ep hep => ?_) ?_
  · obtain ⟨hnode, hvector⟩ := hentry ep hep
    exact ⟨hnode, hvector, by simp⟩
  · exact ⟨⟨by simp, by simp, by simp, by simp, by simp, isHeap_nil⟩, by simp, by simp [Front.Waits],
      by simp, by simp, isHeap_nil⟩

/-- Candidates with distances are sorted by them. -/
theorem Measured.sorted_nearest (h : ix.Measured query vectors dist key) {cs : List SearchCandidate}
    (hknown : ∀ c ∈ cs, ix.Known vectors dist c) :
    Returns (fun sorted => sorted.Perm cs ∧
        (sorted.map SearchCandidate.id).Pairwise fun a b => ¬F32.gt (dist a) (dist b))
      (sortBy .ascending SearchCandidate.distance cs) := by
  have hcmp : ∀ c ∈ cs, ∀ d ∈ cs, SortOrder.ascending.cmp c.distance d.distance =
      compare (key c.id) (key d.id) := by
    intro c hc d hd
    have hc := hknown c hc
    have hd := hknown d hd
    rw [SortOrder.cmp, F32.cmp, hc.distance, hd.distance,
      h.ordered c.id d.id hc.node hd.node hc.vector hd.vector, Option.getD_some]
  obtain ⟨sorted, hsorted⟩ := sortBy_returns_iff.mpr
    (.inl (total_map_iff.mpr (SliceSort.total_of_key hcmp)) : Sortable .ascending (cs.map SearchCandidate.distance))
  have hperm := sortBy_perm hsorted
  refine ⟨sorted, hsorted, hperm, List.pairwise_map.mpr ?_⟩
  refine (sortBy_sorted hcmp hsorted).imp_of_mem fun {c d} hc hd hcd => ?_
  have hc := hknown c (hperm.mem_iff.mp hc)
  have hd := hknown d (hperm.mem_iff.mp hd)
  rw [← hc.distance, ← hd.distance, h.gt_iff hc hd]
  exact not_lt.mpr hcd

/-- The search ends where a traversal stops, with the live nodes that it has seen. -/
theorem searchLayer_traverses (level : Nat) (metadatas : HashMap Uuid Metadata) (hwired : ix.Wired)
    (hm : ix.Measured query vectors dist key) (hnodup : entryPoints.Nodup)
    (hentry : ∀ ep ∈ entryPoints, ep ∈ ix.nodes ∧ (vectors.get ep).isSome)
    (hbeam : ix.nodes.len ≤ numClosest) :
    Returns (fun ids => ids.Nodup ∧ (ids.Pairwise fun a b => ¬F32.gt (dist a) (dist b)) ∧
        ∃ g : Front Uuid, Front.Walks (ix.terrain vectors key level) (.enter entryPoints) g ∧
          g.Stopped (ix.terrain vectors key level) ∧
          ∀ id, id ∈ ids ↔ id ∈ g.seen ∧ ix.isTombstone id = false)
      (ix.searchLayer query entryPoints numClosest level ⟨vectors, none, metadatas⟩) := by
  unfold searchLayer traverseLayer
  obtain ⟨st, henter, hst⟩ := mirrors_enter metadatas hm hnodup hentry
  rw [henter]
  have hwork : work vectors { st with furthestDistance := furthest st.nearest } <
      entryPoints.length + vectors.len + 1 := by
    have hlen := work_entered henter
    have hcard : (vectors.vectors.keys \ st.visited).card ≤ vectors.len :=
      Finset.card_le_card Finset.sdiff_subset
    unfold work
    simp only [List.length_nil] at hlen ⊢
    omega
  have hst₀ : ix.Mirrors vectors dist { st with furthestDistance := furthest st.nearest }
      (Front.enter entryPoints) :=
    ⟨⟨hst.retained.visited, hst.retained.nodes, hst.retained.nearest, hst.retained.nodup,
      hst.retained.known, hst.retained.heap⟩, hst.explored, hst.waiting, hst.nodup, hst.candidates,
      hst.heap⟩
  have hexplore := hst₀.exploreLayer level metadatas rfl hm hbeam hwired hwork
  refine hexplore.bind ?_
  rintro st' ⟨g, hwalk, hstopped, hst'⟩
  refine (hm.sorted_nearest hst'.known).bind ?_
  rintro sorted ⟨hperm, hsorted⟩
  have hids : (sorted.map SearchCandidate.id).Perm (st'.nearest.map SearchCandidate.id) :=
    hperm.map SearchCandidate.id
  refine .ok ⟨hids.nodup_iff.mpr hst'.nodup, hsorted, g, hwalk, hstopped, ?_⟩
  intro id
  rw [hids.mem_iff]
  exact hst'.nearest id

/-- Every live node that can be reached lies open. -/
def AllOpen (ix : HnswIndex) (entryPoints : List Uuid) (level : Nat) (vectors : VectorReader)
    (key : Uuid → Int) (aside : List Uuid → Uuid → Prop) : Prop :=
  ∀ id, ix.isTombstone id = false → (ix.terrain vectors key level).Reaches entryPoints id →
    (ix.terrain vectors key level).Open entryPoints aside id

/-- With room for every node, a layer search is exhaustive if every live node that can be
reached has a way on which no live node closer than a node of the way is met before it, and
only if. Where distances are equal, the heap may yield either node first: the search is
exhaustive if whatever the heap may yield before a stretch of the way is counted as met before
it, and only if this is so with what it must yield before the stretch. -/
theorem searchLayer_exhaustive_iff (hwired : ix.Wired) (hm : ix.Measured query vectors dist key)
    (hnodup : entryPoints.Nodup)
    (hentry : ∀ ep ∈ entryPoints, ep ∈ ix.nodes ∧ (vectors.get ep).isSome)
    (hbeam : ix.nodes.len ≤ numClosest) :
    let t := ix.terrain vectors key level
    (ix.AllOpen entryPoints level vectors key t.besides →
        ix.Exhaustive query entryPoints numClosest level vectors metadatas dist key) ∧
      (ix.Exhaustive query entryPoints numClosest level vectors metadatas dist key →
        ix.AllOpen entryPoints level vectors key t.nearer) ∧
      (t.Untied entryPoints →
        (ix.Exhaustive query entryPoints numClosest level vectors metadatas dist key ↔
          ix.AllOpen entryPoints level vectors key t.nearer)) := by
  intro t
  obtain ⟨ids, hret, hids, hsorted, g, hwalk, hstopped, hmem⟩ :=
    searchLayer_traverses level metadatas hwired hm hnodup hentry hbeam
  have hsuff : ix.AllOpen entryPoints level vectors key t.besides →
      ix.Exhaustive query entryPoints numClosest level vectors metadatas dist key := by
    intro hopen
    refine ⟨ids, hret, hids, hsorted, fun id => ?_⟩
    rw [hmem]
    constructor
    · rintro ⟨hid, hlive⟩
      exact ⟨hlive, hwalk.closed.reached id hid⟩
    · rintro ⟨hlive, hreach⟩
      exact ⟨hwalk.sees hstopped (hopen id hlive hreach), hlive⟩
  have hnec : ix.Exhaustive query entryPoints numClosest level vectors metadatas dist key →
      ix.AllOpen entryPoints level vectors key t.nearer := by
    rintro ⟨ids', hret', -, -, hall⟩ id hlive hreach
    rw [hret] at hret'
    cases hret'
    exact hwalk.open ((hmem id).mp ((hall id).mpr ⟨hlive, hreach⟩)).1
  refine ⟨hsuff, hnec, fun huntied => ⟨hnec, fun hopen => hsuff fun id hlive hreach => ?_⟩⟩
  exact (hopen id hlive hreach).besides huntied

end

/-! ## A live node behind the bound -/

section

attribute [local instance] Reference.floats

/-- The second is at distance 0 from a query for 1, the others at distance 1. -/
def starEntries : List (Uuid × Vector32) := [(0, [F32.zero]), (1, [F32.one]), (2, [F32.zero])]

def starDistance (id : Uuid) : F32 := if id = 1 then F32.zero else F32.one

def starKey (id : Uuid) : Int := if id = 1 then 0 else 1

/-- The first node is next to the others, and removed. -/
def starGraph : Except Fault HnswIndex := do
  let ix ← insertEach dotConfig starEntries Reference.half
  pure (ix.remove 0 Bincode.idOrder)

theorem star_graph :
    ∃ ix : HnswIndex, Built dotConfig ix ∧ ix.nodes.keys = {0, 1, 2} ∧ ix.isTombstone 2 = false ∧
      0 ∈ ix.neighborsAt 1 0 ∧ 2 ∈ ix.neighborsAt 0 0 ∧
      ix.searchLayer [F32.one] [1] 3 0 ⟨.ofEntries starEntries, none, ∅⟩ = .ok [1] := by
  have hseen : starGraph.toOption.map (fun ix => (ix.nodes.keys, ix.isTombstone 2,
      decide (0 ∈ ix.neighborsAt 1 0 ∧ 2 ∈ ix.neighborsAt 0 0),
      (ix.searchLayer [F32.one] [1] 3 0 ⟨.ofEntries starEntries, none, ∅⟩).toOption)) =
        some ({0, 1, 2}, false, true, some [1]) := by
    decide +kernel
  obtain ⟨ix, hret, hseen⟩ := ok_of_map hseen
  simp only [Prod.mk.injEq, decide_eq_true_eq] at hseen
  obtain ⟨hkeys, hlive, ⟨hfirst, hsecond⟩, hsearch⟩ := hseen
  obtain ⟨ids, hsearch, rfl⟩ := ok_of_map (f := id) (by rw [Option.map_id]; exact hsearch)
  obtain ⟨ix₀, hix₀, hret⟩ := bind_eq_ok.mp hret
  injection hret with hret
  refine ⟨ix, ?_, hkeys, hlive, hfirst, hsecond, hsearch⟩
  rw [← hret]
  exact (built_insertEach (by decide) hix₀).removed 0 Bincode.idOrder

theorem star_measured {ix : HnswIndex} (hconfig : ix.config = dotConfig)
    (hkeys : ix.nodes.keys = {0, 1, 2}) :
    ix.Measured [F32.one] (.ofEntries starEntries) starDistance starKey := by
  have hnode : ∀ id, id ∈ ix.nodes → id = 0 ∨ id = 1 ∨ id = 2 := by
    intro id hid
    rw [← Finmap.mem_keys, hkeys] at hid
    simpa using hid
  have hcompare : ∀ a b, Floats.partialCmp (starDistance a) (starDistance b) =
      some (compare (starKey a) (starKey b)) := by
    intro a b
    unfold starDistance starKey
    split
    · split
      · decide
      · decide
    · split
      · decide
      · decide
  refine ⟨?_, fun a b _ _ _ _ => hcompare a b, fun a _ _ => ?_⟩
  · intro id v hid hv
    unfold distance
    rw [hconfig]
    rcases hnode id hid with rfl | rfl | rfl
    · have hget : (VectorReader.ofEntries starEntries).get 0 = some [F32.zero] := by decide +kernel
      rw [hget] at hv
      cases hv
      decide +kernel
    · have hget : (VectorReader.ofEntries starEntries).get 1 = some [F32.one] := by decide +kernel
      rw [hget] at hv
      cases hv
      decide +kernel
    · have hget : (VectorReader.ofEntries starEntries).get 2 = some [F32.zero] := by decide +kernel
      rw [hget] at hv
      cases hv
      decide +kernel
  · unfold starDistance
    split
    · decide
    · decide

/-- A live node behind the removed one is not found, since that one is farther than the
entry point. -/
theorem live_node_missed :
    ∃ ix : HnswIndex, Built dotConfig ix ∧
      ix.Measured [F32.one] (.ofEntries starEntries) starDistance starKey ∧ ix.nodes.len ≤ 3 ∧
      (1 ∈ ix.nodes ∧ ((VectorReader.ofEntries starEntries).get 1).isSome) ∧
      ¬ix.Exhaustive [F32.one] [1] 3 0 (.ofEntries starEntries) ∅ starDistance starKey := by
  obtain ⟨ix, hbuilt, hkeys, hlive, hfirst, hsecond, hsearch⟩ := star_graph
  have hnode : 1 ∈ ix.nodes := by
    rw [← Finmap.mem_keys, hkeys]
    decide
  refine ⟨ix, hbuilt, star_measured hbuilt.grown.config hkeys, ?_, ⟨hnode, by decide +kernel⟩, ?_⟩
  · unfold HashMap.len
    rw [hkeys]
    decide
  rintro ⟨ids, hret, -, -, hall⟩
  rw [hsearch] at hret
  cases hret
  have hreach : (ix.terrain (.ofEntries starEntries) starKey 0).Reaches [1] 2 := by
    have hstart : (ix.terrain (.ofEntries starEntries) starKey 0).Reaches [1] 1 := .start (by simp)
    have hnext : ∀ {id n : Uuid}, n ∈ ix.neighborsAt id 0 →
        ((VectorReader.ofEntries starEntries).get n).isSome →
        n ∈ (ix.terrain (.ofEntries starEntries) starKey 0).next id :=
      fun hn hvector => List.mem_filter.mpr ⟨hn, hvector⟩
    have hremoved : (ix.terrain (.ofEntries starEntries) starKey 0).Reaches [1] 0 :=
      .next hstart trivial (hnext hfirst (by decide +kernel))
    exact .next hremoved trivial (hnext hsecond (by decide +kernel))
  have hmem := (hall 2).mpr ⟨hlive, hreach⟩
  revert hmem
  decide

/-! ## Live nodes behind a removed one -/

def lineConfig : HnswConfig := ⟨1, 1, 10, 10, F32.one, .dotProduct, .auto⟩

/-- Their distances from a query for 1 are 1, 0 and -1. -/
def lineEntries : List (Uuid × Vector32) :=
  [(0, [F32.zero]), (1, [F32.one]), (2, [Reference.two])]

def lineDistance (id : Uuid) : F32 :=
  if id = 0 then F32.one else if id = 1 then F32.zero else Reference.neg F32.one

def lineKey (id : Uuid) : Int := if id = 0 then 1 else if id = 1 then 0 else -1

/-- Each node is next to the one before it, and the first one is removed. -/
def lineGraph : Except Fault HnswIndex := do
  let ix ← insertEach lineConfig lineEntries Reference.half
  pure (ix.remove 0 Bincode.idOrder)

theorem line_graph :
    ∃ ix : HnswIndex, Built lineConfig ix ∧ ix.nodes.keys = {0, 1, 2} ∧ ix.isTombstone 0 = true ∧
      ix.neighborsAt 0 0 = [1] ∧ ix.neighborsAt 1 0 = [2] ∧ ix.neighborsAt 2 0 = [1] := by
  have hseen : lineGraph.toOption.map (fun ix => (ix.nodes.keys, ix.isTombstone 0, ix.neighborsAt 0 0,
      ix.neighborsAt 1 0, ix.neighborsAt 2 0)) = some ({0, 1, 2}, true, [1], [2], [1]) := by
    decide +kernel
  obtain ⟨ix, hret, hseen⟩ := ok_of_map hseen
  simp only [Prod.mk.injEq] at hseen
  obtain ⟨hkeys, hdead, hfirst, hsecond, hthird⟩ := hseen
  obtain ⟨ix₀, hix₀, hret⟩ := bind_eq_ok.mp hret
  injection hret with hret
  refine ⟨ix, ?_, hkeys, hdead, hfirst, hsecond, hthird⟩
  rw [← hret]
  exact (built_insertEach (by decide) hix₀).removed 0 Bincode.idOrder

/-- The nodes of the line. -/
theorem line_nodes {ix : HnswIndex} (hkeys : ix.nodes.keys = {0, 1, 2}) {id : Uuid} (hid : id ∈ ix.nodes) :
    id = 0 ∨ id = 1 ∨ id = 2 := by
  rw [← Finmap.mem_keys, hkeys] at hid
  simpa using hid

theorem line_measured {ix : HnswIndex} (hconfig : ix.config = lineConfig)
    (hkeys : ix.nodes.keys = {0, 1, 2}) :
    ix.Measured [F32.one] (.ofEntries lineEntries) lineDistance lineKey := by
  have hfirst : (VectorReader.ofEntries lineEntries).get 0 = some [F32.zero] := by decide +kernel
  have hsecond : (VectorReader.ofEntries lineEntries).get 1 = some [F32.one] := by decide +kernel
  have hthird : (VectorReader.ofEntries lineEntries).get 2 = some [Reference.two] := by decide +kernel
  refine ⟨?_, ?_, ?_⟩
  · intro id v hid hv
    unfold distance
    rw [hconfig]
    rcases line_nodes hkeys hid with rfl | rfl | rfl
    · rw [hfirst] at hv
      cases hv
      decide +kernel
    · rw [hsecond] at hv
      cases hv
      decide +kernel
    · rw [hthird] at hv
      cases hv
      decide +kernel
  · intro a b ha hb _ _
    rcases line_nodes hkeys ha with rfl | rfl | rfl
    all_goals rcases line_nodes hkeys hb with rfl | rfl | rfl
    all_goals decide
  · intro a ha _
    rcases line_nodes hkeys ha with rfl | rfl | rfl
    all_goals decide

/-- The distances fall along the line, so the way to its end is clear. -/
theorem line_clear {t : Terrain Uuid Int} (hdistance : t.distance = lineKey) (hnext : t.next 0 = [1]) :
    t.Clear [0] t.nearer [1, 0] := by
  -- nothing but the first node is met before a stretch that goes back to the entry
  have hentry : ∀ {stretch : List Uuid} {w : Uuid}, stretch ⊆ [0, 1] →
      t.Leads (· ∈ [0]) (t.nearer stretch) w → w = 0 := by
    intro stretch w hstretch hleads
    induction hleads with
    | start hw => exact List.mem_singleton.mp hw
    | next _ hx _ ih =>
        obtain ⟨p, hp, hlt⟩ := hx
        rw [ih, hdistance] at hlt
        rcases List.mem_cons.mp (hstretch hp) with rfl | hp
        · exact absurd hlt (by decide)
        · rw [List.mem_singleton.mp hp] at hlt
          exact absurd hlt (by decide)
  intro u stretch back hsuffix w hw hlt hleads
  rcases List.suffix_cons_iff.mp hsuffix with heq | hsuffix
  · obtain ⟨rfl, hsplit⟩ := List.cons.inj heq
    rcases List.append_eq_singleton_iff.mp hsplit with ⟨rfl, rfl⟩ | ⟨rfl, rfl⟩
    · have hsecond : w = 1 := by
        clear hlt hw
        induction hleads with
        | start hw =>
            change _ ∈ t.next 0 at hw
            rw [hnext] at hw
            exact List.mem_singleton.mp hw
        | next hx hnear _ ih =>
            obtain ⟨p, hp, hlt⟩ := hnear
            rw [ih, List.mem_singleton.mp hp] at hlt
            exact absurd hlt (lt_irrefl _)
      rw [hsecond] at hlt
      exact absurd hlt (lt_irrefl _)
    · rw [hentry (by simp) hleads, hdistance] at hlt
      exact absurd hlt (by decide)
  · rcases List.suffix_cons_iff.mp hsuffix with heq | hsuffix
    · obtain ⟨rfl, hsplit⟩ := List.cons.inj heq
      obtain ⟨rfl, rfl⟩ := List.append_eq_nil_iff.mp hsplit
      rw [hentry (by simp) hleads] at hlt
      exact absurd hlt (lt_irrefl _)
    · exact absurd (List.suffix_nil.mp hsuffix) (by simp)

/-- From the removed node, both live ones are found: the distances fall along the line. -/
theorem line_explored :
    ∃ ix : HnswIndex, Built lineConfig ix ∧ ix.isTombstone 0 = true ∧
      (ix.terrain (.ofEntries lineEntries) lineKey 0).Reaches [0] 2 ∧
      ix.Exhaustive [F32.one] [0] 3 0 (.ofEntries lineEntries) ∅ lineDistance lineKey := by
  obtain ⟨ix, hbuilt, hkeys, hdead, hfirst, hsecond, hthird⟩ := line_graph
  have hnext₀ : (ix.terrain (.ofEntries lineEntries) lineKey 0).next 0 = [1] := by
    simp only [terrain, hfirst]
    decide +kernel
  have hnext₁ : (ix.terrain (.ofEntries lineEntries) lineKey 0).next 1 = [2] := by
    simp only [terrain, hsecond]
    decide +kernel
  have hnext₂ : (ix.terrain (.ofEntries lineEntries) lineKey 0).next 2 = [1] := by
    simp only [terrain, hthird]
    decide +kernel
  have hreached : ∀ id, (ix.terrain (.ofEntries lineEntries) lineKey 0).Reaches [0] id →
      id = 0 ∨ id = 1 ∨ id = 2 := by
    intro id hid
    induction hid with
    | start hid => exact .inl (List.mem_singleton.mp hid)
    | next _ _ hid ih =>
        rcases ih with rfl | rfl | rfl
        · rw [hnext₀] at hid
          exact .inr (.inl (List.mem_singleton.mp hid))
        · rw [hnext₁] at hid
          exact .inr (.inr (List.mem_singleton.mp hid))
        · rw [hnext₂] at hid
          exact .inr (.inl (List.mem_singleton.mp hid))
  have huntied : (ix.terrain (.ofEntries lineEntries) lineKey 0).Untied [0] := by
    intro x y hx hy heq
    change lineKey x = lineKey y at heq
    rcases hreached x hx with rfl | rfl | rfl
    all_goals rcases hreached y hy with rfl | rfl | rfl
    all_goals revert heq; decide
  have hway : (ix.terrain (.ofEntries lineEntries) lineKey 0).Way [0] [1, 0] 2 := by
    refine ⟨?_, ?_, List.mem_singleton_self 0⟩
    · rw [hnext₁]
      exact List.mem_singleton_self 2
    · rw [hnext₀]
      exact List.mem_singleton_self 1
  have hclear := line_clear (t := ix.terrain (.ofEntries lineEntries) lineKey 0) rfl hnext₀
  refine ⟨ix, hbuilt, hdead, hway.reaches.1, ?_⟩
  have hentry : ∀ ep ∈ [0], ep ∈ ix.nodes ∧ ((VectorReader.ofEntries lineEntries).get ep).isSome := by
    intro ep hep
    rw [List.mem_singleton.mp hep, ← Finmap.mem_keys, hkeys]
    exact ⟨by decide, by decide +kernel⟩
  have hbeam : ix.nodes.len ≤ 3 := by
    unfold HashMap.len
    rw [hkeys]
    decide
  refine Iff.mpr ((searchLayer_exhaustive_iff hbuilt.grown.wired (line_measured hbuilt.grown.config hkeys)
    (by decide) hentry hbeam).2.2 huntied) fun id hlive hid => ?_
  rcases hreached id hid with rfl | rfl | rfl
  · rw [hdead] at hlive
    cases hlive
  · exact ⟨[0], hway.2, hclear.tail⟩
  · exact ⟨[1, 0], hway, hclear⟩

end

end HnswIndex
