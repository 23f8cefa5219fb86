-- SUMMARY: A search of a graph with a filter, compared with the same search without: they agree until a node fails the filter.
import Piramid.Index.Retention

/-!
# Filters in a search of a graph

A node that fails the filter is neither returned nor passed through. So a search with a
filter does what the search without it does for as long as it comes across matching nodes
only.
-/

open Loop

namespace HnswIndex

section

variable [Floats] {ix : HnswIndex} {query : Vector32} {vectors : VectorReader}
  {metadatas : HashMap Uuid Metadata} {filter : Metadata → Bool} {numClosest level fuel k ef : Nat}
  {st st' : LayerSearch} {entryPoints ids : List Uuid}

/-- The node the search is about to come to passes the filter, if it is looked at. -/
def Stage.Passes (context : SearchContext) : Stage → Prop
  | .entering (ep :: _) _ => (context.vectors.get ep).isSome → context.admits ep
  | .visiting (n :: _) st => n ∉ st.visited → (context.vectors.get n).isSome → context.admits n
  | _ => True

/-- The entry points of the layers of a search without a filter. -/
inductive Descends (ix : HnswIndex) (query : Vector32) (vectors : VectorReader)
    (metadatas : HashMap Uuid Metadata) : Nat → List Uuid → Prop
  | top {ep : Uuid} (h : ix.startNode = some ep) :
      Descends ix query vectors metadatas ix.topLayer [ep]
  | down {level : Nat} {entry entry' : List Uuid}
      (h : Descends ix query vectors metadatas (level + 1) entry)
      (hret : ix.searchLayer query entry 1 (level + 1) ⟨vectors, none, metadatas⟩ = .ok entry') :
      Descends ix query vectors metadatas level entry'

/-- How many nodes the search keeps at a layer. -/
def beam (k ef level : Nat) : Nat := if level = 0 then max ef k else 1

/-- The search without the filter comes across no node that fails it. -/
def Unhindered (ix : HnswIndex) (query : Vector32) (k ef : Nat) (vectors : VectorReader)
    (filter : Metadata → Bool) (metadatas : HashMap Uuid Metadata) : Prop :=
  ∀ level entry, ix.Descends query vectors metadatas level entry →
    ∀ s, ix.Runs query entry (beam k ef level) level ⟨vectors, none, metadatas⟩ s →
      s.Passes ⟨vectors, some filter, metadatas⟩

/-- The search with the filter returns as many ids as the search without it returns that
match the filter. -/
def NoWorse (ix : HnswIndex) (query : Vector32) (k ef : Nat) (vectors : VectorReader)
    (filter : Metadata → Bool) (metadatas : HashMap Uuid Metadata) : Prop :=
  ∀ ids, ix.search query k ef vectors none metadatas = .ok ids →
    ∃ ids', ix.search query k ef vectors (some filter) metadatas = .ok ids' ∧
      (ids.filter fun id => SearchContext.admits ⟨vectors, some filter, metadatas⟩ id).length ≤
        ids'.length

/-- A filter that the entry point passes, and each node that an edge leads to, hinders no search. -/
theorem unhindered_of_occurs
    (h : ∀ id, ix.Occurs id → SearchContext.admits ⟨vectors, some filter, metadatas⟩ id = true) :
    ix.Unhindered query k ef vectors filter metadatas := by
  have hentry : ∀ {level : Nat} {entry : List Uuid}, ix.Descends query vectors metadatas level entry →
      ∀ ep ∈ entry, ix.Occurs ep := by
    intro level entry hentry
    induction hentry with
    | top hstart => exact fun ep hep => .inl (List.mem_singleton.mp hep ▸ hstart)
    | down _ hret ih => exact occurs_searchLayer ih hret
  intro level entry hdescends s hruns
  have hpending := (hruns.occurs (hentry hdescends)).1
  cases s with
  | entering eps st =>
      cases eps with
      | nil => trivial
      | cons ep eps => exact fun _ => h ep (hpending ep List.mem_cons_self)
  | visiting ns st =>
      cases ns with
      | nil => trivial
      | cons n ns => exact fun _ _ => h n (hpending n List.mem_cons_self)
  | done st => trivial

/-! ## Searches that the filter does not touch -/

theorem enterAt_passes {ep : Uuid} {eps : List Uuid}
    (h : (Stage.entering (ep :: eps) st).Passes ⟨vectors, some filter, metadatas⟩) :
    ix.enterAt query ⟨vectors, some filter, metadatas⟩ st ep =
      ix.enterAt query ⟨vectors, none, metadatas⟩ st ep := by
  unfold enterAt
  cases hv : vectors.get ep with
  | none => rfl
  | some v =>
      have hadmits : SearchContext.admits ⟨vectors, some filter, metadatas⟩ ep = true :=
        h (by simp [hv])
      simp only [hadmits]
      rfl

theorem visitNeighbor_passes {n : Uuid} {ns : List Uuid}
    (h : (Stage.visiting (n :: ns) st).Passes ⟨vectors, some filter, metadatas⟩) :
    ix.visitNeighbor query numClosest ⟨vectors, some filter, metadatas⟩ st n =
      ix.visitNeighbor query numClosest ⟨vectors, none, metadatas⟩ st n := by
  unfold visitNeighbor
  by_cases hvisited : n ∈ st.visited
  · rw [if_pos hvisited, if_pos hvisited]
  rw [if_neg hvisited, if_neg hvisited]
  cases hv : vectors.get n with
  | none => rfl
  | some v =>
      have hadmits : SearchContext.admits ⟨vectors, some filter, metadatas⟩ n = true :=
        h hvisited (by simp [hv])
      simp only [hadmits]
      rfl

theorem visitNeighbors_passes {ns : List Uuid}
    (h : ∀ s, Relation.ReflTransGen (ix.Step query numClosest level ⟨vectors, none, metadatas⟩)
      (.visiting ns st) s → s.Passes ⟨vectors, some filter, metadatas⟩) :
    ns.foldlM (ix.visitNeighbor query numClosest ⟨vectors, some filter, metadatas⟩) st =
      ns.foldlM (ix.visitNeighbor query numClosest ⟨vectors, none, metadatas⟩) st := by
  induction ns generalizing st with
  | nil => rfl
  | cons n ns ih =>
      rw [List.foldlM_cons, List.foldlM_cons, visitNeighbor_passes (h _ .refl)]
      cases hvisit : ix.visitNeighbor query numClosest ⟨vectors, none, metadatas⟩ st n with
      | error e => rfl
      | ok st' => exact ih fun s hs => h s (.head (.visit hvisit) hs)

theorem exploreLayer_passes
    (h : ∀ s, Relation.ReflTransGen (ix.Step query numClosest level ⟨vectors, none, metadatas⟩)
      (.visiting [] st) s → s.Passes ⟨vectors, some filter, metadatas⟩) :
    ix.exploreLayer query numClosest level ⟨vectors, some filter, metadatas⟩ fuel st =
      ix.exploreLayer query numClosest level ⟨vectors, none, metadatas⟩ fuel st := by
  induction fuel generalizing st with
  | zero => rfl
  | succ fuel ih =>
      unfold exploreLayer
      split
      · rfl
      rename_i candidate rest hpop
      split
      · rfl
      rename_i hbound
      have hrest : ∀ s, Relation.ReflTransGen
          (ix.Step query numClosest level ⟨vectors, none, metadatas⟩)
          (.visiting (ix.neighborsAt candidate.id level) { st with candidates := rest }) s →
          s.Passes ⟨vectors, some filter, metadatas⟩ :=
        fun s hs => h s (.head (.explore hpop hbound) hs)
      rw [visitNeighbors_passes hrest]
      cases hloop : (ix.neighborsAt candidate.id level).foldlM
          (ix.visitNeighbor query numClosest ⟨vectors, none, metadatas⟩)
          { st with candidates := rest } with
      | error e => rfl
      | ok st' => exact ih fun s hs => hrest s ((runs_visits hloop).trans hs)

theorem enterEach_passes
    (h : ∀ s, Relation.ReflTransGen (ix.Step query numClosest level ⟨vectors, none, metadatas⟩)
      (.entering entryPoints st) s → s.Passes ⟨vectors, some filter, metadatas⟩) :
    entryPoints.foldlM (ix.enterAt query ⟨vectors, some filter, metadatas⟩) st =
      entryPoints.foldlM (ix.enterAt query ⟨vectors, none, metadatas⟩) st := by
  induction entryPoints generalizing st with
  | nil => rfl
  | cons ep eps ih =>
      rw [List.foldlM_cons, List.foldlM_cons, enterAt_passes (h _ .refl)]
      cases henter : ix.enterAt query ⟨vectors, none, metadatas⟩ st ep with
      | error e => rfl
      | ok st' => exact ih fun s hs => h s (.head (.enter henter) hs)

theorem traverseLayer_passes
    (h : ∀ s, ix.Runs query entryPoints numClosest level ⟨vectors, none, metadatas⟩ s →
      s.Passes ⟨vectors, some filter, metadatas⟩) :
    ix.traverseLayer query entryPoints numClosest level ⟨vectors, some filter, metadatas⟩ =
      ix.traverseLayer query entryPoints numClosest level ⟨vectors, none, metadatas⟩ := by
  unfold traverseLayer
  rw [enterEach_passes h]
  cases henter : entryPoints.foldlM (ix.enterAt query ⟨vectors, none, metadatas⟩)
      ⟨∅, [], [], F32.infinity⟩ with
  | error e => rfl
  | ok st =>
      have hexplore : ∀ fuel : Nat,
          ix.exploreLayer query numClosest level ⟨vectors, some filter, metadatas⟩ fuel
              { st with furthestDistance := furthest st.nearest } =
            ix.exploreLayer query numClosest level ⟨vectors, none, metadatas⟩ fuel
              { st with furthestDistance := furthest st.nearest } := by
        intro fuel
        exact exploreLayer_passes fun s hs => h s ((runs_enters henter).trans (.head .entered hs))
      simp only [bind, Except.bind, hexplore]

theorem searchLayer_passes
    (h : ∀ s, ix.Runs query entryPoints numClosest level ⟨vectors, none, metadatas⟩ s →
      s.Passes ⟨vectors, some filter, metadatas⟩) :
    ix.searchLayer query entryPoints numClosest level ⟨vectors, some filter, metadatas⟩ =
      ix.searchLayer query entryPoints numClosest level ⟨vectors, none, metadatas⟩ := by
  unfold searchLayer
  rw [traverseLayer_passes h]

/-- The way down through the layers, and the entry points it leaves for the lowest. -/
theorem descend_passes (h : ix.Unhindered query k ef vectors filter metadatas) {level : Nat}
    {entry : List Uuid} (hentry : ix.Descends query vectors metadatas level entry) :
    (List.range' 1 level).reverse.foldlM
        (fun nearest lc => ix.searchLayer query nearest 1 lc ⟨vectors, some filter, metadatas⟩) entry =
      (List.range' 1 level).reverse.foldlM
        (fun nearest lc => ix.searchLayer query nearest 1 lc ⟨vectors, none, metadatas⟩) entry ∧
    ∀ entry', (List.range' 1 level).reverse.foldlM
        (fun nearest lc => ix.searchLayer query nearest 1 lc ⟨vectors, none, metadatas⟩) entry =
          .ok entry' → ix.Descends query vectors metadatas 0 entry' := by
  induction level generalizing entry with
  | zero =>
      refine ⟨rfl, fun entry' hret => ?_⟩
      cases hret
      exact hentry
  | succ level ih =>
      have hlayers : (List.range' 1 (level + 1)).reverse =
          (level + 1) :: (List.range' 1 level).reverse := by
        rw [List.range'_1_concat, List.reverse_append, Nat.add_comm 1 level]
        rfl
      have hsame : ix.searchLayer query entry 1 (level + 1) ⟨vectors, some filter, metadatas⟩ =
          ix.searchLayer query entry 1 (level + 1) ⟨vectors, none, metadatas⟩ := by
        refine searchLayer_passes fun s hs => h (level + 1) entry hentry s ?_
        exact hs
      rw [hlayers, List.foldlM_cons, List.foldlM_cons, hsame]
      cases hret : ix.searchLayer query entry 1 (level + 1) ⟨vectors, none, metadatas⟩ with
      | error e => exact ⟨rfl, fun entry' hret' => by cases hret'⟩
      | ok entry₁ => exact ih (.down hentry hret)

theorem search_passes (h : ix.Unhindered query k ef vectors filter metadatas) :
    ix.search query k ef vectors (some filter) metadatas = ix.search query k ef vectors none metadatas := by
  unfold search
  split
  · rfl
  rename_i ep hstart
  split
  · rfl
  obtain ⟨hsame, hlowest⟩ := descend_passes h (.top hstart)
  rw [hsame]
  cases hret : (List.range' 1 ix.topLayer).reverse.foldlM
      (fun nearest lc => ix.searchLayer query nearest 1 lc ⟨vectors, none, metadatas⟩) [ep] with
  | error e => rfl
  | ok entry =>
      have hbottom : ix.searchLayer query entry (max ef k) 0 ⟨vectors, some filter, metadatas⟩ =
          ix.searchLayer query entry (max ef k) 0 ⟨vectors, none, metadatas⟩ :=
        searchLayer_passes fun s hs => h 0 entry (hlowest entry hret) s hs
      simp only [bind, Except.bind, hbottom]

/-! ## Entry points that the filter excludes -/

/-- A layer search finds nothing if the filter excludes all its entry points. -/
theorem searchLayer_excluded {context : SearchContext}
    (h : ∀ ep ∈ entryPoints, context.admits ep = false) :
    ix.searchLayer query entryPoints numClosest level context = .ok [] := by
  have henter : entryPoints.foldlM (ix.enterAt query context) ⟨∅, [], [], F32.infinity⟩ =
      .ok ⟨∅, [], [], F32.infinity⟩ := by
    induction entryPoints with
    | nil => rfl
    | cons ep eps ih =>
        have hskip : ix.enterAt query context ⟨∅, [], [], F32.infinity⟩ ep =
            .ok ⟨∅, [], [], F32.infinity⟩ := by
          unfold enterAt
          split
          · rfl
          · rw [h ep (by simp)]
            rfl
        rw [List.foldlM_cons, hskip]
        exact ih fun ep' hep' => h ep' (by simp [hep'])
  have htraverse : ∃ furthestDistance,
      ix.traverseLayer query entryPoints numClosest level context =
        .ok ⟨∅, [], [], furthestDistance⟩ := by
    unfold traverseLayer
    rw [henter]
    exact ⟨_, rfl⟩
  obtain ⟨furthestDistance, htraverse⟩ := htraverse
  have hsort : sortBy .ascending SearchCandidate.distance [] = .ok [] := sortBy_nil
  unfold searchLayer
  rw [htraverse]
  simp only [bind, Except.bind, hsort]
  rfl

/-- A search whose entry point fails the filter finds nothing. -/
theorem search_excluded {ep : Uuid} (hstart : ix.startNode = some ep)
    (hvector : (vectors.get ep).isSome)
    (hfails : SearchContext.admits ⟨vectors, some filter, metadatas⟩ ep = false) :
    ix.search query k ef vectors (some filter) metadatas = .ok [] := by
  have hdescend : ∀ (layers : List Nat) (entry : List Uuid),
      (∀ ep ∈ entry, SearchContext.admits ⟨vectors, some filter, metadatas⟩ ep = false) →
      ∃ entry', layers.foldlM (fun nearest lc =>
          ix.searchLayer query nearest 1 lc ⟨vectors, some filter, metadatas⟩) entry = .ok entry' ∧
        ∀ ep ∈ entry', SearchContext.admits ⟨vectors, some filter, metadatas⟩ ep = false := by
    intro layers
    induction layers with
    | nil => exact fun entry hentry => ⟨entry, rfl, hentry⟩
    | cons lc layers ih =>
        intro entry hentry
        rw [List.foldlM_cons, searchLayer_excluded hentry]
        exact ih [] (by simp)
  obtain ⟨entry, hentry, hexcluded⟩ := hdescend (List.range' 1 ix.topLayer).reverse [ep] fun ep' hep' => by
    rw [List.mem_singleton.mp hep']
    exact hfails
  obtain ⟨v, hv⟩ := Option.isSome_iff_exists.mp hvector
  unfold search
  rw [hstart]
  simp only [hv, Option.isNone_some, Bool.false_eq_true, if_false, hentry, bind, Except.bind,
    searchLayer_excluded hexcluded, List.filter_nil, List.take_nil]
  rfl

/-- As long as the search without the filter comes across matching nodes only, the filter
takes nothing away. If the entry point fails it, nothing is found. -/
theorem search_filter_no_worse
    (hreads : ∀ id, id ∈ ix.nodes → (vectors.get id).isSome) (hentered : ix.Entered) :
    (ix.Unhindered query k ef vectors filter metadatas →
      ix.NoWorse query k ef vectors filter metadatas) ∧
    ∀ ep, ix.startNode = some ep →
      SearchContext.admits ⟨vectors, some filter, metadatas⟩ ep = false →
      (ix.NoWorse query k ef vectors filter metadatas ↔
        ∀ ids, ix.search query k ef vectors none metadatas = .ok ids →
          ∀ id ∈ ids, SearchContext.admits ⟨vectors, some filter, metadatas⟩ id = false) := by
  refine ⟨?_, ?_⟩
  · intro h ids hret
    refine ⟨ids, ?_, List.length_filter_le _ _⟩
    rw [search_passes h]
    exact hret
  · intro ep hstart hfails
    have hnode : ep ∈ ix.nodes := (mem_trackedIds.mp (hentered ep hstart)).1
    have hempty : ix.search query k ef vectors (some filter) metadatas = .ok [] :=
      search_excluded hstart (hreads ep hnode) hfails
    constructor
    · intro h ids hret id hid
      obtain ⟨ids', hret', hlen⟩ := h ids hret
      rw [hempty] at hret'
      cases hret'
      rw [List.length_nil, Nat.le_zero, List.length_eq_zero_iff, List.filter_eq_nil_iff] at hlen
      exact Bool.eq_false_iff.mpr (hlen id hid)
    · intro h ids hret
      refine ⟨[], hempty, ?_⟩
      rw [List.filter_eq_nil_iff.mpr fun id hid => by rw [h ids hret id hid]; exact Bool.false_ne_true]

end

/-! ## A match behind an entry point that does not match -/

section

attribute [local instance] Reference.floats

/-- The metadata of the far node is empty, that of the near one has a tag. -/
def tags : HashMap Uuid Metadata :=
  HashMap.insertEach ∅ [(0, ∅), (1, HashMap.insertEach ∅ [("tag", .boolean true)])]

def tagged (metadata : Metadata) : Bool := (metadata.lookup "tag").isSome

/-- The near node matches and is found, but not with the filter. -/
theorem match_behind_entry_point :
    ∃ ix : HnswIndex, Built dotConfig ix ∧
      (∀ id, id ∈ ix.nodes → ((VectorReader.ofEntries farAndNear).get id).isSome ∧ id ∈ tags) ∧
      ¬ix.NoWorse [F32.one] 2 1 (.ofEntries farAndNear) tagged tags := by
  have hseen : (insertEach dotConfig farAndNear Reference.half).toOption.map (fun ix =>
      (ix.nodes.keys,
        (ix.search [F32.one] 2 1 (.ofEntries farAndNear) none tags).toOption,
        (ix.search [F32.one] 2 1 (.ofEntries farAndNear) (some tagged) tags).toOption)) =
        some ({0, 1}, some [1, 0], some []) := by
    decide +kernel
  obtain ⟨ix, hix, hseen⟩ := ok_of_map hseen
  simp only [Prod.mk.injEq] at hseen
  obtain ⟨hkeys, hfound, hfiltered⟩ := hseen
  obtain ⟨ids, hfound, rfl⟩ := ok_of_map (f := id) (by rw [Option.map_id]; exact hfound)
  obtain ⟨ids', hfiltered, rfl⟩ := ok_of_map (f := id) (by rw [Option.map_id]; exact hfiltered)
  refine ⟨ix, built_insertEach (by decide) hix, ?_, fun h => ?_⟩
  · intro id hid
    rw [← Finmap.mem_keys, hkeys, Finset.mem_insert, Finset.mem_singleton] at hid
    rcases hid with rfl | rfl
    · decide +kernel
    · decide +kernel
  · obtain ⟨ids', hret, hlen⟩ := h _ hfound
    rw [hfiltered] at hret
    cases hret
    revert hlen
    decide +kernel

/-- Three nodes with the tag are at distance 0 from a query for 1, and one without it at distance 1. -/
def taggedAndNot : List (Uuid × Vector32) :=
  [(0, [F32.one]), (1, [F32.one]), (2, [F32.one]), (3, [F32.zero])]

def taggedOnly : HashMap Uuid Metadata :=
  let tag : Metadata := HashMap.insertEach ∅ [("tag", .boolean true)]
  HashMap.insertEach ∅ [(0, tag), (1, tag), (2, tag), (3, ∅)]

/-- The entry point has dropped its edge to the node without the tag, which fails the filter: the search
does not come across it, and the filter takes nothing away. -/
theorem rejected_node_not_met :
    ∃ ix : HnswIndex, Built dotConfig ix ∧ 3 ∈ ix.trackedIds ∧
      SearchContext.admits ⟨.ofEntries taggedAndNot, some tagged, taggedOnly⟩ 3 = false ∧
      ix.NoWorse [F32.one] 2 2 (.ofEntries taggedAndNot) tagged taggedOnly := by
  have hseen : (insertEach dotConfig taggedAndNot Reference.half).toOption.map (fun ix =>
      (ix.nodes.keys, ix.trackedIds, ix.startNode)) = some ({0, 1, 2, 3}, {0, 1, 2, 3}, some 0) := by
    decide +kernel
  have hedges : (insertEach dotConfig taggedAndNot Reference.half).toOption.map (fun ix =>
      [0, 1, 2, 3].map fun n => ((ix.nodes.lookup n).map HnswNode.connections).getD []) =
        some [[[1, 2]], [[0]], [[0]], [[0]]] := by
    decide +kernel
  obtain ⟨ix, hix, hseen⟩ := ok_of_map hseen
  rw [hix] at hedges
  simp only [Prod.mk.injEq] at hseen
  simp only [Except.toOption, Option.map_some, Option.some.injEq, List.map_cons, List.map_nil,
    List.cons.injEq, and_true] at hedges
  obtain ⟨hkeys, htracked, hstart⟩ := hseen
  obtain ⟨h₀, h₁, h₂, h₃⟩ := hedges
  have hbuilt := built_insertEach (by decide) hix
  have hmem : ∀ id, id ∈ ix.nodes → id = 0 ∨ id = 1 ∨ id = 2 ∨ id = 3 := by
    intro id hid
    rw [← Finmap.mem_keys, hkeys] at hid
    simpa only [Finset.mem_insert, Finset.mem_singleton] using hid
  have hreads : ∀ id, id ∈ ix.nodes → ((VectorReader.ofEntries taggedAndNot).get id).isSome := by
    intro id hid
    rcases hmem id hid with rfl | rfl | rfl | rfl
    · decide +kernel
    · decide +kernel
    · decide +kernel
    · decide +kernel
  have hlists : ∀ n, ((ix.nodes.lookup n).map HnswNode.connections).getD [] ∈
      [[], [[1, 2]], [[(0 : Uuid)]]] := by
    intro n
    cases hn : ix.nodes.lookup n with
    | none => decide
    | some node =>
        have hnode : n ∈ ix.nodes := Finmap.lookup_isSome.mp (by rw [hn]; rfl)
        rw [← hn]
        rcases hmem n hnode with rfl | rfl | rfl | rfl
        · rw [h₀]
          decide
        · rw [h₁]
          decide
        · rw [h₂]
          decide
        · rw [h₃]
          decide
  have hoccurs : ∀ id, ix.Occurs id → id = 0 ∨ id = 1 ∨ id = 2 := by
    rintro id (hid | ⟨n, level, hid⟩)
    · rw [hstart] at hid
      exact .inl (Option.some.inj hid).symm
    · have hconnections : id ∈ ((((ix.nodes.lookup n).map HnswNode.connections).getD [])[level]?).getD [] := by
        unfold neighborsAt at hid
        cases hn : ix.nodes.lookup n with
        | none => simp [hn] at hid
        | some node => simpa [hn] using hid
      have hlist := hlists n
      generalize ((ix.nodes.lookup n).map HnswNode.connections).getD [] = lists at hconnections hlist
      simp only [List.mem_cons, List.not_mem_nil, or_false] at hlist
      rcases hlist with rfl | rfl | rfl
      · simp at hconnections
      · cases level with
        | zero => exact .inr (by simpa using hconnections)
        | succ level => simp at hconnections
      · cases level with
        | zero => exact .inl (List.mem_singleton.mp hconnections)
        | succ level => simp at hconnections
  refine ⟨ix, hbuilt, by rw [htracked]; decide, by decide +kernel,
    (search_filter_no_worse hreads hbuilt.grown.entered).1 (unhindered_of_occurs fun id hid => ?_)⟩
  rcases hoccurs id hid with rfl | rfl | rfl
  · decide +kernel
  · decide +kernel
  · decide +kernel

end

end HnswIndex
