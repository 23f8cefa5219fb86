-- SUMMARY: Which nodes a layer search retains: step by step, and when they are the closest it has evaluated.
import Mathlib.Logic.Relation
import Piramid.Base.Ranking
import Piramid.Index.Graph

/-!
# What a layer search retains

A layer search goes in steps: it enters at a point, explores the closest candidate, or
visits a neighbour of the candidate it explores. Both heaps yield the closest candidate
first, so the retained node that makes room for another is the closest one, and the bound
is the least of the retained distances.
-/

open BinaryHeap Loop

namespace HnswIndex

/-- Where a layer search is: at its entry points, at the neighbours of a node, or done. -/
inductive Stage where
  | entering (entryPoints : List Uuid) (st : LayerSearch)
  | visiting (neighbors : List Uuid) (st : LayerSearch)
  | done (st : LayerSearch)

section

variable [Floats]

/-- The steps of `search_layer`. -/
inductive Step (ix : HnswIndex) (query : Vector32) (numClosest level : Nat) (context : SearchContext) :
    Stage → Stage → Prop
  | enter {ep : Uuid} {eps : List Uuid} {st st' : LayerSearch}
      (h : ix.enterAt query context st ep = .ok st') :
      Step ix query numClosest level context (.entering (ep :: eps) st) (.entering eps st')
  | entered {st : LayerSearch} :
      Step ix query numClosest level context (.entering [] st)
        (.visiting [] { st with furthestDistance := furthest st.nearest })
  | visit {n : Uuid} {ns : List Uuid} {st st' : LayerSearch}
      (h : ix.visitNeighbor query numClosest context st n = .ok st') :
      Step ix query numClosest level context (.visiting (n :: ns) st) (.visiting ns st')
  | explore {st : LayerSearch} {candidate : SearchCandidate} {rest : List SearchCandidate}
      (hpop : pop SearchCandidate.le st.candidates = some (candidate, rest))
      (hbound : ¬F32.gt candidate.distance st.furthestDistance) :
      Step ix query numClosest level context (.visiting [] st)
        (.visiting (ix.neighborsAt candidate.id level) { st with candidates := rest })
  | cut {st : LayerSearch} {candidate : SearchCandidate} {rest : List SearchCandidate}
      (hpop : pop SearchCandidate.le st.candidates = some (candidate, rest))
      (hbound : F32.gt candidate.distance st.furthestDistance) :
      Step ix query numClosest level context (.visiting [] st) (.done { st with candidates := rest })
  | exhaust {st : LayerSearch} (hpop : pop SearchCandidate.le st.candidates = none) :
      Step ix query numClosest level context (.visiting [] st) (.done st)

/-- A layer search begins at its entry points. -/
def Stage.start (entryPoints : List Uuid) : Stage := .entering entryPoints ⟨∅, [], [], F32.infinity⟩

/-- The stages that a layer search comes to. -/
def Runs (ix : HnswIndex) (query : Vector32) (entryPoints : List Uuid) (numClosest level : Nat)
    (context : SearchContext) : Stage → Prop :=
  Relation.ReflTransGen (ix.Step query numClosest level context) (.start entryPoints)

/-! ## What is evaluated, and what is retained -/

/-- `id` is a live node that the filter lets through, and `dist` is its distance. -/
structure Scores (ix : HnswIndex) (query : Vector32) (context : SearchContext) (id : Uuid)
    (dist : F32) : Prop where
  live : ix.isTombstone id = false
  admitted : context.admits id
  distance : ∃ v, context.vectors.get id = some v ∧ ix.distance query v = .ok dist

/-- The distance of `id` has been computed. -/
def Evaluated (ix : HnswIndex) (query : Vector32) (context : SearchContext) (st : LayerSearch)
    (id : Uuid) (dist : F32) : Prop :=
  id ∈ st.visited ∧ ix.Scores query context id dist

/-- The nodes retained are the closest of those evaluated, as many as there is room for, and
the bound is the largest of their distances. -/
structure Retains (ix : HnswIndex) (query : Vector32) (numClosest : Nat) (context : SearchContext)
    (st : LayerSearch) : Prop where
  evaluated : ∀ c ∈ st.nearest, ix.Evaluated query context st c.id c.distance
  full : ∀ id dist, ix.Evaluated query context st id dist →
    id ∉ st.nearest.map SearchCandidate.id → numClosest ≤ st.nearest.length
  closest : ∀ id dist, ix.Evaluated query context st id dist →
    id ∉ st.nearest.map SearchCandidate.id → ∀ c ∈ st.nearest, ¬F32.lt dist c.distance
  largest : ∀ c ∈ st.nearest, c.distance ≠ st.furthestDistance →
    ¬F32.lt st.furthestDistance c.distance
  attained : st.nearest ≠ [] → ∃ c ∈ st.nearest, c.distance = st.furthestDistance

/-- The property of a stage; there is no bound before the entry points are through. -/
def Stage.Retains (ix : HnswIndex) (query : Vector32) (numClosest : Nat) (context : SearchContext) :
    Stage → Prop
  | .entering _ _ => True
  | .visiting _ st => ix.Retains query numClosest context st
  | .done st => ix.Retains query numClosest context st

/-- The node to be evaluated next is as far as those retained, or there is no room for it
and it is no closer than they are. -/
def Stage.Even (ix : HnswIndex) (query : Vector32) (numClosest : Nat) (context : SearchContext) :
    Stage → Prop
  | .entering (ep :: _) st => ∀ dist, ix.Scores query context ep dist →
      ∀ c ∈ st.nearest, ¬F32.lt dist c.distance ∧ ¬F32.lt c.distance dist
  | .visiting (n :: _) st => n ∉ st.visited → ∀ dist, ix.Scores query context n dist →
      ∀ c ∈ st.nearest, ¬F32.lt dist c.distance ∧
        (st.nearest.length < numClosest → ¬F32.lt c.distance dist)
  | _ => True

/-! ## The steps are those of the code -/

variable {ix : HnswIndex} {query : Vector32} {context : SearchContext} {numClosest level : Nat}
  {st st' : LayerSearch} {entryPoints : List Uuid}

theorem runs_visits {ns : List Uuid}
    (hret : ns.foldlM (ix.visitNeighbor query numClosest context) st = .ok st') :
    Relation.ReflTransGen (ix.Step query numClosest level context) (.visiting ns st)
      (.visiting [] st') := by
  induction ns generalizing st with
  | nil =>
      cases hret
      exact .refl
  | cons n ns ih =>
      rw [List.foldlM_cons] at hret
      obtain ⟨st₁, hvisit, hret⟩ := bind_eq_ok.mp hret
      exact .head (.visit hvisit) (ih hret)

theorem runs_explores {fuel : Nat}
    (hret : ix.exploreLayer query numClosest level context fuel st = .ok st') :
    Relation.ReflTransGen (ix.Step query numClosest level context) (.visiting [] st) (.done st') := by
  induction fuel generalizing st with
  | zero => cases hret
  | succ fuel ih =>
      unfold exploreLayer at hret
      split at hret
      · rename_i hpop
        cases hret
        exact .single (.exhaust hpop)
      rename_i candidate rest hpop
      split at hret
      · rename_i hbound
        cases hret
        exact .single (.cut hpop hbound)
      · rename_i hbound
        obtain ⟨st₁, hloop, hret⟩ := bind_eq_ok.mp hret
        exact .head (.explore hpop hbound) ((runs_visits hloop).trans (ih hret))

theorem runs_enters {eps : List Uuid} (hret : eps.foldlM (ix.enterAt query context) st = .ok st') :
    Relation.ReflTransGen (ix.Step query numClosest level context) (.entering eps st)
      (.entering [] st') := by
  induction eps generalizing st with
  | nil =>
      cases hret
      exact .refl
  | cons ep eps ih =>
      rw [List.foldlM_cons] at hret
      obtain ⟨st₁, henter, hret⟩ := bind_eq_ok.mp hret
      exact .head (.enter henter) (ih hret)

/-- A layer search returns what is retained at its last stage, sorted by the distances. -/
theorem searchLayer_runs {ids : List Uuid}
    (hret : ix.searchLayer query entryPoints numClosest level context = .ok ids) :
    ∃ st sorted, ix.Runs query entryPoints numClosest level context (.done st) ∧
      sortBy .ascending SearchCandidate.distance st.nearest = .ok sorted ∧
      ids = sorted.map SearchCandidate.id := by
  unfold searchLayer traverseLayer at hret
  obtain ⟨st, htraverse, hret⟩ := bind_eq_ok.mp hret
  obtain ⟨st₁, henter, hexplore⟩ := bind_eq_ok.mp htraverse
  obtain ⟨sorted, hsorted, hret⟩ := bind_eq_ok.mp hret
  cases hret
  refine ⟨st, sorted, ?_, hsorted, rfl⟩
  exact (runs_enters henter).trans (.head .entered (runs_explores hexplore))

/-! ## A search stays in the graph -/

/-- The state of a layer search at a stage. -/
def Stage.state : Stage → LayerSearch
  | .entering _ st => st
  | .visiting _ st => st
  | .done st => st

/-- `id` is the entry point of the graph, or an edge leads to it. -/
def Occurs (ix : HnswIndex) (id : Uuid) : Prop :=
  ix.startNode = some id ∨ ∃ n level, id ∈ ix.neighborsAt n level

/-- The ids that a layer search still comes to at a stage. -/
def Stage.pending : Stage → List Uuid
  | .entering eps _ => eps
  | .visiting ns _ => ns
  | .done _ => []

theorem mem_nearest_enterAt {st st' : LayerSearch} {ep : Uuid}
    (hret : ix.enterAt query context st ep = .ok st') {c : SearchCandidate} (hc : c ∈ st'.nearest) :
    c.id = ep ∨ c ∈ st.nearest := by
  unfold enterAt at hret
  split at hret
  · cases hret
    exact .inr hc
  split at hret
  · cases hret
    exact .inr hc
  obtain ⟨dist, -, hret⟩ := bind_eq_ok.mp hret
  cases hret
  simp only at hc
  split at hc
  · exact .inr hc
  · rcases mem_push.mp hc with rfl | hc
    · exact .inl rfl
    · exact .inr hc

theorem mem_nearest_visitNeighbor {st st' : LayerSearch} {n : Uuid}
    (hret : ix.visitNeighbor query numClosest context st n = .ok st') {c : SearchCandidate}
    (hc : c ∈ st'.nearest) : c.id = n ∨ c ∈ st.nearest := by
  unfold visitNeighbor at hret
  split at hret
  · cases hret
    exact .inr hc
  simp only at hret
  split at hret
  · cases hret
    exact .inr hc
  split at hret
  · cases hret
    exact .inr hc
  obtain ⟨dist, -, hret⟩ := bind_eq_ok.mp hret
  split at hret
  · split at hret
    · cases hret
      exact .inr hc
    · cases hret
      rcases mem_pushNearest hc with rfl | hc
      · exact .inl rfl
      · exact .inr hc
  · cases hret
    exact .inr hc

/-- A search that begins in the graph stays in it. -/
theorem Runs.occurs (hentry : ∀ ep ∈ entryPoints, ix.Occurs ep) {s : Stage}
    (h : ix.Runs query entryPoints numClosest level context s) :
    (∀ id ∈ s.pending, ix.Occurs id) ∧ ∀ c ∈ s.state.nearest, ix.Occurs c.id := by
  induction h with
  | refl => exact ⟨hentry, fun c hc => by cases hc⟩
  | tail _ hstep ih =>
      obtain ⟨hpending, hnearest⟩ := ih
      cases hstep with
      | enter hret =>
          refine ⟨fun id hid => hpending id (List.mem_cons_of_mem _ hid), fun c hc => ?_⟩
          rcases mem_nearest_enterAt hret hc with heq | hc
          · rw [heq]
            exact hpending _ List.mem_cons_self
          · exact hnearest c hc
      | entered => exact ⟨fun id hid => (by cases hid), hnearest⟩
      | visit hret =>
          refine ⟨fun id hid => hpending id (List.mem_cons_of_mem _ hid), fun c hc => ?_⟩
          rcases mem_nearest_visitNeighbor hret hc with heq | hc
          · rw [heq]
            exact hpending _ List.mem_cons_self
          · exact hnearest c hc
      | explore hpop hbound => exact ⟨fun id hid => .inr ⟨_, _, hid⟩, hnearest⟩
      | cut hpop hbound => exact ⟨fun id hid => (by cases hid), hnearest⟩
      | exhaust hpop => exact ⟨fun id hid => (by cases hid), hnearest⟩

/-- What a layer search returns is in the graph. -/
theorem occurs_searchLayer (hentry : ∀ ep ∈ entryPoints, ix.Occurs ep)
    {ids : List Uuid} (hret : ix.searchLayer query entryPoints numClosest level context = .ok ids) :
    ∀ id ∈ ids, ix.Occurs id := by
  obtain ⟨st, sorted, hruns, hsorted, rfl⟩ := searchLayer_runs hret
  intro id hid
  obtain ⟨c, hc, rfl⟩ := List.mem_map.mp hid
  exact (hruns.occurs hentry).2 c ((sortBy_perm hsorted).mem_iff.mp hc)

/-! ## What a step evaluates -/

theorem Scores.distance_eq {id : Uuid} {v : Vector32} {dist dist' : F32}
    (h : ix.Scores query context id dist) (hv : context.vectors.get id = some v)
    (hdist : ix.distance query v = .ok dist') : dist = dist' := by
  obtain ⟨v', hv', hdist'⟩ := h.distance
  rw [hv] at hv'
  cases hv'
  rw [hdist] at hdist'
  cases hdist'
  rfl

/-- A visited node that does not score leaves nothing to evaluate. -/
theorem evaluated_insert_iff {n : Uuid} (hn : ∀ dist, ¬ix.Scores query context n dist)
    (hvisited : st'.visited = Insert.insert n st.visited) {id : Uuid} {dist : F32} :
    ix.Evaluated query context st' id dist ↔ ix.Evaluated query context st id dist := by
  unfold Evaluated
  rw [hvisited, Finset.mem_insert]
  refine and_congr_left fun hscores => or_iff_right ?_
  rintro rfl
  exact hn dist hscores

omit [Floats] in
theorem furthest_mem {nearest : List SearchCandidate} (h : nearest ≠ []) :
    ∃ c ∈ nearest, c.distance = furthest nearest := by
  cases htop : peek nearest with
  | none => exact absurd (List.head?_eq_none_iff.mp htop) h
  | some best =>
      refine ⟨best, mem_peek htop, ?_⟩
      unfold furthest
      rw [htop]
      rfl

/-- Of the retained nodes none is closer than another, and they are all that were
evaluated unless there is no room for more. -/
structure Held (ix : HnswIndex) (query : Vector32) (numClosest : Nat) (context : SearchContext)
    (st : LayerSearch) : Prop where
  evaluated : ∀ c ∈ st.nearest, ix.Evaluated query context st c.id c.distance
  full : ∀ id dist, ix.Evaluated query context st id dist →
    id ∉ st.nearest.map SearchCandidate.id → numClosest ≤ st.nearest.length
  closest : ∀ id dist, ix.Evaluated query context st id dist →
    id ∉ st.nearest.map SearchCandidate.id → ∀ c ∈ st.nearest, ¬F32.lt dist c.distance
  level : st.nearest.Pairwise fun c d => ¬F32.lt c.distance d.distance ∧ ¬F32.lt d.distance c.distance

theorem Held.congr (h : ix.Held query numClosest context st)
    (hevaluated : ∀ id dist, ix.Evaluated query context st' id dist ↔
      ix.Evaluated query context st id dist)
    (hnearest : st'.nearest = st.nearest) : ix.Held query numClosest context st' := by
  refine ⟨?_, ?_, ?_, ?_⟩
  · intro c hc
    rw [hevaluated]
    rw [hnearest] at hc
    exact h.evaluated c hc
  · intro id dist hid
    rw [hevaluated] at hid
    rw [hnearest]
    exact h.full id dist hid
  · intro id dist hid
    rw [hevaluated] at hid
    rw [hnearest]
    exact h.closest id dist hid
  · rw [hnearest]
    exact h.level

/-- A node that is as far as the retained ones is retained as well. -/
theorem Held.push (h : ix.Held query numClosest context st) {id : Uuid} {dist : F32}
    (hscores : ix.Scores query context id dist)
    (heven : ∀ c ∈ st.nearest, ¬F32.lt dist c.distance ∧ ¬F32.lt c.distance dist)
    (hall : ∀ id dist, ix.Evaluated query context st id dist →
      id ∈ st.nearest.map SearchCandidate.id)
    (hvisited : st'.visited = Insert.insert id st.visited)
    (hnearest : st'.nearest.Perm (⟨id, dist⟩ :: st.nearest)) :
    ix.Held query numClosest context st' ∧ ∀ id dist, ix.Evaluated query context st' id dist →
      id ∈ st'.nearest.map SearchCandidate.id := by
  have hall' : ∀ id dist, ix.Evaluated query context st' id dist →
      id ∈ st'.nearest.map SearchCandidate.id := by
    intro id' dist' hid'
    obtain ⟨hmem, hscores'⟩ := hid'
    rw [hvisited, Finset.mem_insert] at hmem
    rw [(hnearest.map SearchCandidate.id).mem_iff, List.map_cons, List.mem_cons]
    rcases hmem with rfl | hmem
    · exact .inl rfl
    · exact .inr (hall id' dist' ⟨hmem, hscores'⟩)
  refine ⟨⟨?_, ?_, ?_, ?_⟩, hall'⟩
  · intro c hc
    rw [hnearest.mem_iff] at hc
    unfold Evaluated
    rw [hvisited, Finset.mem_insert]
    rcases List.mem_cons.mp hc with rfl | hc
    · exact ⟨.inl rfl, hscores⟩
    · exact ⟨.inr (h.evaluated c hc).1, (h.evaluated c hc).2⟩
  · intro id' dist' hid' hnot
    exact absurd (hall' id' dist' hid') hnot
  · intro id' dist' hid' hnot
    exact absurd (hall' id' dist' hid') hnot
  · have hlevel : (⟨id, dist⟩ :: st.nearest).Pairwise fun c d : SearchCandidate =>
        ¬F32.lt c.distance d.distance ∧ ¬F32.lt d.distance c.distance :=
      List.pairwise_cons.mpr ⟨heven, h.level⟩
    exact hlevel.perm hnearest.symm fun h => h.symm

/-- A node that is no closer than the retained ones is not retained when there is no room. -/
theorem Held.drop (h : ix.Held query numClosest context st) {id : Uuid} {dist : F32}
    (hscores : ix.Scores query context id dist)
    (heven : ∀ c ∈ st.nearest, ¬F32.lt dist c.distance)
    (hfull : numClosest ≤ st.nearest.length)
    (hvisited : st'.visited = Insert.insert id st.visited) (hnearest : st'.nearest = st.nearest) :
    ix.Held query numClosest context st' := by
  refine ⟨?_, ?_, ?_, ?_⟩
  · intro c hc
    rw [hnearest] at hc
    unfold Evaluated
    rw [hvisited]
    exact ⟨Finset.mem_insert_of_mem (h.evaluated c hc).1, (h.evaluated c hc).2⟩
  · intro _ _ _ _
    rw [hnearest]
    exact hfull
  · intro id' dist' hid' hnot c hc
    rw [hnearest] at hnot hc
    obtain ⟨hmem, hscores'⟩ := hid'
    rw [hvisited, Finset.mem_insert] at hmem
    rcases hmem with rfl | hmem
    · obtain ⟨v, hv, hdist⟩ := hscores.distance
      rw [hscores'.distance_eq hv hdist]
      exact heven c hc
    · exact h.closest id' dist' ⟨hmem, hscores'⟩ hnot c hc
  · rw [hnearest]
    exact h.level

/-! ## Every step -/

/-- Entering retains every live node. -/
theorem Held.enterAt (h : ix.Held query numClosest context st)
    (hall : ∀ id dist, ix.Evaluated query context st id dist →
      id ∈ st.nearest.map SearchCandidate.id) {ep : Uuid}
    (heven : ∀ dist, ix.Scores query context ep dist →
      ∀ c ∈ st.nearest, ¬F32.lt dist c.distance ∧ ¬F32.lt c.distance dist)
    (hret : ix.enterAt query context st ep = .ok st') :
    ix.Held query numClosest context st' ∧ ∀ id dist, ix.Evaluated query context st' id dist →
      id ∈ st'.nearest.map SearchCandidate.id := by
  unfold HnswIndex.enterAt at hret
  split at hret
  · cases hret
    exact ⟨h, hall⟩
  rename_i v hv
  split at hret
  · cases hret
    exact ⟨h, hall⟩
  rename_i hadmits
  obtain ⟨dist, hdist, hret⟩ := bind_eq_ok.mp hret
  cases hret
  cases hdead : ix.isTombstone ep with
  | true =>
      have hnot : ∀ dist, ¬ix.Scores query context ep dist := by
        intro dist hscores
        have hlive := hscores.live
        rw [hdead] at hlive
        cases hlive
      refine ⟨h.congr (fun id dist => evaluated_insert_iff hnot rfl) rfl, fun id dist hid => ?_⟩
      exact hall id dist ((evaluated_insert_iff hnot rfl).mp hid)
  | false =>
      have hscores : ix.Scores query context ep dist :=
        ⟨hdead, by simpa using hadmits, v, hv, hdist⟩
      exact h.push hscores (heven dist hscores) hall rfl (push_perm _ _)

theorem Held.visitNeighbor (h : ix.Held query numClosest context st) (hpos : 1 ≤ numClosest)
    (hfurthest : st.nearest ≠ [] → ∃ c ∈ st.nearest, c.distance = st.furthestDistance) {n : Uuid}
    (heven : n ∉ st.visited → ∀ dist, ix.Scores query context n dist →
      ∀ c ∈ st.nearest, ¬F32.lt dist c.distance ∧
        (st.nearest.length < numClosest → ¬F32.lt c.distance dist))
    (hret : ix.visitNeighbor query numClosest context st n = .ok st') :
    ix.Held query numClosest context st' ∧
      (st'.nearest ≠ [] → ∃ c ∈ st'.nearest, c.distance = st'.furthestDistance) := by
  unfold HnswIndex.visitNeighbor at hret
  split at hret
  · cases hret
    exact ⟨h, hfurthest⟩
  rename_i hfresh
  simp only at hret
  split at hret
  · rename_i hv
    cases hret
    have hnot : ∀ dist, ¬ix.Scores query context n dist := by
      intro dist hscores
      obtain ⟨v, hget, -⟩ := hscores.distance
      rw [hv] at hget
      cases hget
    exact ⟨h.congr (fun id dist => evaluated_insert_iff hnot rfl) rfl, hfurthest⟩
  rename_i v hv
  split at hret
  · rename_i hadmits
    cases hret
    have hnot : ∀ dist, ¬ix.Scores query context n dist := by
      intro dist hscores
      rw [hscores.admitted] at hadmits
      cases hadmits
    exact ⟨h.congr (fun id dist => evaluated_insert_iff hnot rfl) rfl, hfurthest⟩
  rename_i hadmits
  obtain ⟨dist, hdist, hret⟩ := bind_eq_ok.mp hret
  cases hdead : ix.isTombstone n with
  | true =>
      have hnot : ∀ dist, ¬ix.Scores query context n dist := by
        intro dist hscores
        have hlive := hscores.live
        rw [hdead] at hlive
        cases hlive
      rw [hdead] at hret
      split at hret
      · cases hret
        exact ⟨h.congr (fun id dist => evaluated_insert_iff hnot rfl) rfl, hfurthest⟩
      · cases hret
        exact ⟨h.congr (fun id dist => evaluated_insert_iff hnot rfl) rfl, hfurthest⟩
  | false =>
      have hscores : ix.Scores query context n dist :=
        ⟨hdead, by simpa using hadmits, v, hv, hdist⟩
      have heven := heven hfresh dist hscores
      rw [hdead] at hret
      by_cases hroom : st.nearest.length < numClosest
      · rw [if_pos (.inr hroom), if_neg (by simp)] at hret
        have hpush : pushNearest numClosest ⟨n, dist⟩ st.nearest =
            BinaryHeap.push SearchCandidate.le st.nearest ⟨n, dist⟩ :=
          if_neg (by rw [length_push]; omega)
        rw [hpush] at hret
        cases hret
        refine ⟨(h.push hscores (fun c hc => ⟨(heven c hc).1, (heven c hc).2 hroom⟩) ?_ rfl
          (push_perm _ _)).1, ?_⟩
        · intro id dist hid
          by_contra hnot
          exact absurd (h.full id dist hid hnot) (Nat.not_le.mpr hroom)
        · exact fun hne => furthest_mem hne
      · -- there is no room, and the bound is one of the distances retained
        have hfull : numClosest ≤ st.nearest.length := Nat.not_lt.mp hroom
        have hne : st.nearest ≠ [] := List.ne_nil_of_length_pos (lt_of_lt_of_le hpos hfull)
        obtain ⟨c, hc, hbound⟩ := hfurthest hne
        have hbeyond : ¬(F32.lt dist st.furthestDistance ∨ st.nearest.length < numClosest) := by
          rw [← hbound]
          exact not_or.mpr ⟨(heven c hc).1, hroom⟩
        rw [if_neg hbeyond] at hret
        cases hret
        exact ⟨h.drop hscores (fun c hc => (heven c hc).1) hfull rfl rfl, hfurthest⟩

/-! ## Every run -/

/-- What the steps keep, before and after the entry points are through. -/
def Stage.Holds (ix : HnswIndex) (query : Vector32) (numClosest : Nat) (context : SearchContext) :
    Stage → Prop
  | .entering _ st => ix.Held query numClosest context st ∧
      ∀ id dist, ix.Evaluated query context st id dist → id ∈ st.nearest.map SearchCandidate.id
  | .visiting _ st => ix.Held query numClosest context st ∧
      (st.nearest ≠ [] → ∃ c ∈ st.nearest, c.distance = st.furthestDistance)
  | .done st => ix.Held query numClosest context st ∧
      (st.nearest ≠ [] → ∃ c ∈ st.nearest, c.distance = st.furthestDistance)

theorem Held.retains (h : ix.Held query numClosest context st)
    (hfurthest : st.nearest ≠ [] → ∃ c ∈ st.nearest, c.distance = st.furthestDistance) :
    ix.Retains query numClosest context st := by
  refine ⟨h.evaluated, h.full, h.closest, ?_, hfurthest⟩
  intro c hc hne
  obtain ⟨d, hd, hbound⟩ := hfurthest (List.ne_nil_of_mem hc)
  have hcd : c ≠ d := fun heq => hne (heq ▸ hbound)
  have hsymm : Std.Symm fun c d : SearchCandidate =>
      ¬F32.lt c.distance d.distance ∧ ¬F32.lt d.distance c.distance := ⟨fun _ _ h => h.symm⟩
  rw [← hbound]
  exact (h.level.forall hc hd hcd).2

theorem holds_step {s s' : Stage} (hpos : 1 ≤ numClosest) (h : s.Holds ix query numClosest context)
    (heven : s.Even ix query numClosest context)
    (hstep : ix.Step query numClosest level context s s') : s'.Holds ix query numClosest context := by
  cases hstep with
  | enter hret => exact h.1.enterAt h.2 heven hret
  | entered =>
      obtain ⟨hheld, -⟩ := h
      refine ⟨hheld.congr (fun _ _ => Iff.rfl) rfl, furthest_mem⟩
  | visit hret => exact h.1.visitNeighbor hpos h.2 heven hret
  | explore hpop hbound => exact ⟨h.1.congr (fun _ _ => Iff.rfl) rfl, h.2⟩
  | cut hpop hbound => exact ⟨h.1.congr (fun _ _ => Iff.rfl) rfl, h.2⟩
  | exhaust hpop => exact h

/-- A run all of whose steps are even. -/
def EvenRuns (ix : HnswIndex) (query : Vector32) (entryPoints : List Uuid) (numClosest level : Nat)
    (context : SearchContext) : Stage → Prop :=
  Relation.ReflTransGen
    (fun s s' => s.Even ix query numClosest context ∧ ix.Step query numClosest level context s s')
    (.start entryPoints)

theorem EvenRuns.retains {s : Stage} (hpos : 1 ≤ numClosest)
    (h : ix.EvenRuns query entryPoints numClosest level context s) :
    s.Retains ix query numClosest context := by
  have hholds : s.Holds ix query numClosest context := by
    induction h with
    | refl =>
        refine ⟨⟨by simp, ?_, ?_, .nil⟩, ?_⟩
        · exact fun id _ hid => absurd hid.1 (Finset.notMem_empty id)
        · exact fun id _ hid => absurd hid.1 (Finset.notMem_empty id)
        · exact fun id _ hid => absurd hid.1 (Finset.notMem_empty id)
    | tail _ hstep ih => exact holds_step hpos ih hstep.1 hstep.2
  cases s with
  | entering _ st => trivial
  | visiting _ st => exact hholds.1.retains hholds.2
  | done st => exact hholds.1.retains hholds.2

/-- In every run whose steps are even, what is retained at each stage is the closest of what
was evaluated, and the bound is the largest distance. A search returns what is retained at
the last stage of its run. -/
theorem layer_retains_closest (hpos : 1 ≤ numClosest) :
    (∀ s, ix.EvenRuns query entryPoints numClosest level context s →
      s.Retains ix query numClosest context) ∧
    ∀ ids, ix.searchLayer query entryPoints numClosest level context = .ok ids →
      ∃ st, ix.Runs query entryPoints numClosest level context (.done st) ∧
        ids.Perm (st.nearest.map SearchCandidate.id) := by
  refine ⟨?_, fun ids hret => ?_⟩
  · intro s h
    exact h.retains hpos
  · obtain ⟨st, sorted, hruns, hsorted, rfl⟩ := searchLayer_runs hret
    exact ⟨st, hruns, (sortBy_perm hsorted).map _⟩

end

/-! ## A closer node that is evicted -/

section

attribute [local instance] Reference.floats

/-- The first node is at distance 1 from a query for 1, and the second at distance 0. -/
def farAndNear : List (Uuid × Vector32) := [(0, [F32.zero]), (1, [F32.one])]

def farAndNearContext : SearchContext := ⟨.ofEntries farAndNear, none, ∅⟩

/-- The graph, and the last state of a search for 1 with room for one node. -/
def evictingSearch : Except Fault (HnswIndex × LayerSearch) := do
  let ix ← insertEach dotConfig farAndNear Reference.half
  let st ← [0].foldlM (ix.enterAt [F32.one] farAndNearContext) ⟨∅, [], [], F32.infinity⟩
  let st ← ix.exploreLayer [F32.one] 1 0 farAndNearContext 4
    { st with furthestDistance := furthest st.nearest }
  pure (ix, st)

/-- The closer of two nodes is evicted. -/
theorem closer_node_evicted :
    ∃ ix : HnswIndex, Built dotConfig ix ∧
      ∃ st, ix.Runs [F32.one] [0] 1 0 farAndNearContext (.done st) ∧
        ¬ix.Retains [F32.one] 1 farAndNearContext st := by
  have hseen : evictingSearch.toOption.map (fun r => (r.1.isTombstone 1, r.2.visited,
      r.2.nearest.map SearchCandidate.id, r.2.nearest.map SearchCandidate.distance)) =
        some (false, {0, 1}, [0], [F32.one]) := by
    decide +kernel
  obtain ⟨r, hret, hseen⟩ := ok_of_map hseen
  simp only [Prod.mk.injEq] at hseen
  obtain ⟨hlive, hvisited, hids, hdistances⟩ := hseen
  obtain ⟨ix, hix, hret⟩ := bind_eq_ok.mp hret
  obtain ⟨st₁, henter, hret⟩ := bind_eq_ok.mp hret
  obtain ⟨st₂, hexplore, hret⟩ := bind_eq_ok.mp hret
  cases hret
  have hbuilt := built_insertEach (by decide) hix
  have hruns : ix.Runs [F32.one] [0] 1 0 farAndNearContext (.done st₂) :=
    (runs_enters henter).trans (.head .entered (runs_explores hexplore))
  refine ⟨ix, hbuilt, st₂, hruns, fun hretains => ?_⟩
  obtain ⟨c, hc⟩ := List.exists_mem_of_ne_nil st₂.nearest (by
    rintro heq
    rw [heq] at hids
    cases hids)
  have hdistance : c.distance = F32.one := by
    have hmem := List.mem_map_of_mem (f := SearchCandidate.distance) hc
    rw [hdistances] at hmem
    exact List.mem_singleton.mp hmem
  have hscores : ix.Scores [F32.one] farAndNearContext 1 F32.zero := by
    refine ⟨hlive, rfl, [F32.one], by decide +kernel, ?_⟩
    unfold distance
    rw [hbuilt.grown.config]
    decide +kernel
  refine hretains.closest 1 F32.zero ⟨?_, hscores⟩ ?_ c hc ?_
  · rw [hvisited]
    decide
  · rw [hids]
    decide
  · rw [hdistance]
    decide

/-- Two nodes at distance 0 from a query for 1, and one at distance 1. -/
def nearAndFarther : List (Uuid × Vector32) := [(0, [F32.one]), (1, [F32.one]), (2, [F32.zero])]

def nearAndFartherContext : SearchContext := ⟨.ofEntries nearAndFarther, none, ∅⟩

/-- The graph, and the states of a search for 1 with room for two nodes: before the entry point is
explored, and before its neighbours 1 and 2 are visited. -/
def evenSearch : Except Fault (HnswIndex × LayerSearch × LayerSearch × LayerSearch × LayerSearch) := do
  let ix ← insertEach dotConfig nearAndFarther Reference.half
  let entered ← ix.enterAt [F32.one] nearAndFartherContext ⟨∅, [], [], F32.infinity⟩ 0
  let st := { entered with furthestDistance := furthest entered.nearest }
  let first := { st with candidates := [] }
  let second ← ix.visitNeighbor [F32.one] 2 nearAndFartherContext first 1
  let last ← ix.visitNeighbor [F32.one] 2 nearAndFartherContext second 2
  pure (ix, entered, first, second, last)

/-- A step to a node whose distance is known is even if it is so for the distances retained. -/
theorem even_of_distances {ix : HnswIndex} {query : Vector32} {numClosest : Nat} {context : SearchContext}
    {st : LayerSearch} {n : Uuid} {ns : List Uuid} {v : Vector32} {dist : F32} {distances : List F32}
    (hv : context.vectors.get n = some v) (hdist : ix.distance query v = .ok dist)
    (hretained : st.nearest.map SearchCandidate.distance = distances)
    (h : ∀ x ∈ distances, ¬F32.lt dist x ∧ (distances.length < numClosest → ¬F32.lt x dist)) :
    (Stage.visiting (n :: ns) st).Even ix query numClosest context := by
  intro _ dist' hscores c hc
  rw [hscores.distance_eq hv hdist]
  rw [← hretained, List.length_map] at h
  exact h c.distance (List.mem_map_of_mem hc)

/-- Each step of the search up to the last neighbour is even: the second node is as far as the entry
point, and the third is farther when there is no more room. So the two closest of the three nodes that
were evaluated are retained. -/
theorem two_of_three_retained :
    ∃ ix : HnswIndex, Built dotConfig ix ∧
      ∃ st, ix.Runs [F32.one] [0] 2 0 nearAndFartherContext (.visiting [] st) ∧
        st.visited = {0, 1, 2} ∧ st.nearest.map SearchCandidate.id = [0, 1] ∧
        ix.Retains [F32.one] 2 nearAndFartherContext st := by
  have hgraph : evenSearch.toOption.map (fun r => (r.1.neighborsAt 0 0,
      r.2.1.candidates.map SearchCandidate.id, r.2.1.candidates.map SearchCandidate.distance)) =
        some ([1, 2], [0], [F32.zero]) := by
    decide +kernel
  have hstages : evenSearch.toOption.map (fun r => (r.2.2.1.nearest.map SearchCandidate.distance,
      r.2.2.2.1.nearest.map SearchCandidate.distance, r.2.2.2.2.visited,
      r.2.2.2.2.nearest.map SearchCandidate.id)) =
        some ([F32.zero], [F32.zero, F32.zero], {0, 1, 2}, [0, 1]) := by
    decide +kernel
  obtain ⟨r, hret, hgraph⟩ := ok_of_map hgraph
  rw [hret] at hstages
  obtain ⟨ix, entered, first, second, last⟩ := r
  simp only [Except.toOption, Option.map_some, Option.some.injEq, Prod.mk.injEq] at hgraph hstages
  obtain ⟨hneighbors, hcandidate, hclosest⟩ := hgraph
  obtain ⟨hfirst, hsecond, hvisited, hids⟩ := hstages
  obtain ⟨_, hix, hret⟩ := bind_eq_ok.mp hret
  obtain ⟨_, henter, hret⟩ := bind_eq_ok.mp hret
  obtain ⟨_, hvisit₁, hret⟩ := bind_eq_ok.mp hret
  obtain ⟨_, hvisit₂, hret⟩ := bind_eq_ok.mp hret
  cases hret
  have hbuilt := built_insertEach (by decide) hix
  have hdistance : ix.distance [F32.one] [F32.one] = .ok F32.zero ∧
      ix.distance [F32.one] [F32.zero] = .ok F32.one := by
    unfold distance
    rw [hbuilt.grown.config]
    decide +kernel
  have hpop : pop SearchCandidate.le entered.candidates = some (⟨0, F32.zero⟩, []) := by
    obtain ⟨c, hc⟩ := List.map_eq_singleton_iff.mp hcandidate
    obtain ⟨c', hc'⟩ := List.map_eq_singleton_iff.mp hclosest
    rw [hc.1] at hc' ⊢
    cases hc'.1
    obtain ⟨id, dist⟩ := c
    cases hc.2
    cases hc'.2
    rfl
  have hbound : ¬F32.gt F32.zero (furthest entered.nearest) := by
    have hne : entered.nearest ≠ [] := by
      rintro hnil
      rw [hnil] at hfirst
      cases hfirst
    obtain ⟨c, hc, heq⟩ := furthest_mem hne
    have hmem := List.mem_map_of_mem (f := SearchCandidate.distance) hc
    rw [hfirst, List.mem_singleton] at hmem
    rw [← heq, hmem]
    decide
  have hexplore : ix.Step [F32.one] 2 0 nearAndFartherContext _ (.visiting (ix.neighborsAt 0 0) _) :=
    @Step.explore _ ix [F32.one] 2 0 nearAndFartherContext
      { entered with furthestDistance := furthest entered.nearest } ⟨0, F32.zero⟩ [] hpop hbound
  rw [hneighbors] at hexplore
  have hstart : (Stage.start [0]).Even ix [F32.one] 2 nearAndFartherContext := by
    intro _ _ c hc
    cases hc
  have hget₁ : nearAndFartherContext.vectors.get 1 = some [F32.one] := by decide +kernel
  have hget₂ : nearAndFartherContext.vectors.get 2 = some [F32.zero] := by decide +kernel
  have hnone : ¬F32.lt F32.zero F32.zero := by decide
  have hbeyond : ¬F32.lt F32.one F32.zero := by decide
  have heven₁ : ∀ ns, (Stage.visiting (1 :: ns) { entered with
      candidates := [], furthestDistance := furthest entered.nearest }).Even ix [F32.one] 2
        nearAndFartherContext := by
    intro ns
    refine even_of_distances hget₁ hdistance.1 hfirst fun x hx => ?_
    rw [List.mem_singleton.mp hx]
    exact ⟨hnone, fun _ => hnone⟩
  have heven₂ : ∀ ns, (Stage.visiting (2 :: ns) second).Even ix [F32.one] 2 nearAndFartherContext := by
    intro ns
    refine even_of_distances hget₂ hdistance.2 hsecond fun x hx => ?_
    rw [List.eq_of_mem_replicate (n := 2) hx]
    exact ⟨hbeyond, fun hroom => absurd hroom (Nat.lt_irrefl 2)⟩
  have hruns : ix.EvenRuns [F32.one] [0] 2 0 nearAndFartherContext (.visiting [] last) :=
    .head ⟨hstart, .enter henter⟩ (.head ⟨trivial, .entered⟩ (.head ⟨trivial, hexplore⟩
      (.head ⟨heven₁ _, .visit hvisit₁⟩ (.single ⟨heven₂ _, .visit hvisit₂⟩))))
  exact ⟨ix, hbuilt, last, Relation.ReflTransGen.mono (fun _ _ h => h.2) _ _ hruns, hvisited, hids,
    (layer_retains_closest (by decide)).1 _ hruns⟩

end

end HnswIndex
