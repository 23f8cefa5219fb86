-- SUMMARY: A search of a graph depends only on the vectors of the nodes that can be reached from its entry point.
import Piramid.Index.Search

/-!
# What a search of a graph depends on

A search starts at the entry point and follows edges. Two readers that have the same
vectors for the nodes it can come to give the same result, although the fuel of a
layer search counts all vectors of a reader.
-/

open BinaryHeap Loop

namespace HnswIndex

section

variable [Floats] {ix : HnswIndex} {query : Vector32} {context context' : SearchContext}
  {numClosest level fuel : Nat} {st st' : LayerSearch}

/-! ## The steps of a layer search -/

/-- What entering at `id`, or visiting it, does to a layer search. -/
structure Visits (ix : HnswIndex) (vectors : VectorReader) (id : Uuid) (st st' : LayerSearch) :
    Prop where
  candidates : ∀ c ∈ st'.candidates, c ∈ st.candidates ∨ c.id = id
  nearest : ∀ c ∈ st'.nearest, c ∈ st.nearest ∨ c.id = id
  work : work vectors st' ≤ work vectors st

theorem visitNeighbor_visits {id : Uuid}
    (hret : ix.visitNeighbor query numClosest context st id = .ok st') :
    ix.Visits context.vectors id st st' := by
  unfold visitNeighbor at hret
  split at hret
  · cases hret
    exact ⟨fun c => .inl, fun c => .inl, le_rfl⟩
  rename_i hfresh
  have hle : (context.vectors.vectors.keys \ Insert.insert id st.visited).card ≤
      (context.vectors.vectors.keys \ st.visited).card :=
    Finset.card_le_card (Finset.sdiff_subset_sdiff le_rfl (Finset.subset_insert _ _))
  have hskip : ix.Visits context.vectors id st { st with visited := Insert.insert id st.visited } :=
    ⟨fun c => .inl, fun c => .inl, by unfold work; simp only; omega⟩
  simp only at hret
  split at hret
  · cases hret
    exact hskip
  rename_i neighborVector hget
  split at hret
  · cases hret
    exact hskip
  rw [bind_eq_ok] at hret
  obtain ⟨dist, -, hret⟩ := hret
  have hlt : (context.vectors.vectors.keys \ Insert.insert id st.visited).card <
      (context.vectors.vectors.keys \ st.visited).card := by
    apply Finset.card_lt_card
    refine Finset.ssubset_iff_of_subset (Finset.sdiff_subset_sdiff le_rfl
      (Finset.subset_insert _ _)) |>.mpr ⟨id, ?_, by simp⟩
    have hkey : id ∈ context.vectors.vectors.keys :=
      (HashMap.mem_keys_iff _ _).mpr ⟨neighborVector, hget⟩
    simp [hkey, hfresh]
  split at hret
  · have hpush : ∀ c ∈ push SearchCandidate.le st.candidates ⟨id, dist⟩,
        c ∈ st.candidates ∨ c.id = id := by
      intro c hc
      rcases mem_push.mp hc with rfl | hc
      · exact .inr rfl
      · exact .inl hc
    have hwork : st.candidates.length + 1 +
        (context.vectors.vectors.keys \ Insert.insert id st.visited).card ≤
        work context.vectors st := by
      unfold work
      omega
    have hlen : (push SearchCandidate.le st.candidates ⟨id, dist⟩).length = st.candidates.length + 1 :=
      length_push st.candidates ⟨id, dist⟩
    rw [← hlen] at hwork
    split at hret
    · cases hret
      exact ⟨hpush, fun c => .inl, hwork⟩
    · cases hret
      refine ⟨hpush, fun c hc => ?_, hwork⟩
      rcases mem_pushNearest hc with rfl | hc
      · exact .inr rfl
      · exact .inl hc
  · cases hret
    exact hskip

/-! ## The fuel of a layer search -/

/-- Exploring a candidate uses it up. -/
theorem work_explored {candidate : SearchCandidate} {rest : List SearchCandidate} {ids : List Uuid}
    (hpop : pop SearchCandidate.le st.candidates = some (candidate, rest))
    (hloop : ids.foldlM (ix.visitNeighbor query numClosest context) { st with candidates := rest } =
      .ok st') : work context.vectors st' < work context.vectors st := by
  have hpopped : work context.vectors { st with candidates := rest } < work context.vectors st := by
    have hlen := (pop_perm hpop).length_eq
    rw [List.length_cons] at hlen
    unfold work
    simp only
    omega
  exact foldlM_keeps (fun _ st' => work context.vectors st' < work context.vectors st)
    (fun id _ st₁ st₂ hst hstep => lt_of_le_of_lt (visitNeighbor_visits hstep).work hst) hpopped hloop

/-- A layer search ends while there is fuel left, and fails as a comparison does. -/
theorem ends_exploreLayer {P : Fault → Prop} (hdist : ∀ a b, Faults P (ix.distance a b))
    (hfuel : work context.vectors st < fuel) :
    Faults P (ix.exploreLayer query numClosest level context fuel st) := by
  induction fuel generalizing st with
  | zero => omega
  | succ fuel ih =>
      unfold exploreLayer
      split
      · exact .ok _
      rename_i candidate rest hpop
      split
      · exact .ok _
      refine Faults.bind (.foldlM fun id _ st => faults_visitNeighbor hdist id)
        fun st₁ hloop => ih ?_
      have hless := work_explored hpop hloop
      omega

/-- It makes no difference how much is left. -/
theorem exploreLayer_more (hfuel : work context.vectors st < fuel) {more : Nat} (hmore : fuel ≤ more) :
    ix.exploreLayer query numClosest level context more st =
      ix.exploreLayer query numClosest level context fuel st := by
  induction fuel generalizing st more with
  | zero => omega
  | succ fuel ih =>
      cases more with
      | zero => omega
      | succ more =>
          unfold exploreLayer
          split
          · rfl
          rename_i candidate rest hpop
          split
          · rfl
          cases hloop : (ix.neighborsAt candidate.id level).foldlM
              (ix.visitNeighbor query numClosest context) { st with candidates := rest } with
          | error e => rfl
          | ok st₁ =>
              have hless := work_explored hpop hloop
              exact ih (by omega) (by omega)

/-! ## The nodes a search can come to -/

/-- The nodes that edges lead to from the entry point. -/
inductive Reaches (ix : HnswIndex) : Uuid → Prop
  | start {id : Uuid} (h : ix.startNode = some id) : Reaches ix id
  | edge {id next : Uuid} {level : Nat} (h : Reaches ix id) (hnext : next ∈ ix.neighborsAt id level) :
      Reaches ix next

/-- The layer search is at nodes that satisfy `P` only. -/
structure At (P : Uuid → Prop) (st : LayerSearch) : Prop where
  candidates : ∀ c ∈ st.candidates, P c.id
  nearest : ∀ c ∈ st.nearest, P c.id

omit [Floats] in
theorem At.visits {P : Uuid → Prop} {vectors : VectorReader} {id : Uuid} (h : At P st) (hid : P id)
    (hvisits : ix.Visits vectors id st st') : At P st' := by
  constructor
  · intro c hc
    rcases hvisits.candidates c hc with hold | heq
    · exact h.candidates c hold
    · exact heq ▸ hid
  · intro c hc
    rcases hvisits.nearest c hc with hold | heq
    · exact h.nearest c hold
    · exact heq ▸ hid

theorem At.explored {P : Uuid → Prop} {ids : List Uuid} (h : At P st) (hids : ∀ id ∈ ids, P id)
    (hloop : ids.foldlM (ix.visitNeighbor query numClosest context) st = .ok st') : At P st' := by
  refine (foldlM_keeps (fun ids st => (∀ id ∈ ids, P id) ∧ At P st) ?_ ⟨hids, h⟩ hloop).2
  rintro id ids st st' ⟨hids, hst⟩ hstep
  exact ⟨fun id' hid' => hids id' (by simp [hid']),
    hst.visits (hids id (by simp)) (visitNeighbor_visits hstep)⟩

theorem At.entered {P : Uuid → Prop} {id : Uuid} (h : At P st) (hid : P id)
    (hret : ix.enterAt query context st id = .ok st') : At P st' := by
  unfold enterAt at hret
  split at hret
  · cases hret
    exact h
  split at hret
  · cases hret
    exact h
  rw [bind_eq_ok] at hret
  obtain ⟨dist, -, hret⟩ := hret
  cases hret
  constructor
  · intro c hc
    rcases mem_push.mp hc with rfl | hc
    · exact hid
    · exact h.candidates c hc
  · intro c hc
    simp only at hc
    split at hc
    · exact h.nearest c hc
    · rcases mem_push.mp hc with rfl | hc
      · exact hid
      · exact h.nearest c hc

/-! ## Two readers -/

section

variable {P : Uuid → Prop} {vectors vectors' : VectorReader}
  {metadatas metadatas' : HashMap Uuid Metadata}

theorem visitNeighbor_congr {id : Uuid} (hsame : vectors.get id = vectors'.get id) :
    ix.visitNeighbor query numClosest ⟨vectors, none, metadatas⟩ st id =
      ix.visitNeighbor query numClosest ⟨vectors', none, metadatas'⟩ st id := by
  unfold visitNeighbor
  rw [hsame]
  rfl

theorem enterAt_congr {id : Uuid} (hsame : vectors.get id = vectors'.get id) :
    ix.enterAt query ⟨vectors, none, metadatas⟩ st id =
      ix.enterAt query ⟨vectors', none, metadatas'⟩ st id := by
  unfold enterAt
  rw [hsame]
  rfl

theorem exploreLayer_congr (hedges : ∀ id, P id → ∀ n ∈ ix.neighborsAt id level, P n)
    (hsame : ∀ id, P id → vectors.get id = vectors'.get id) (hst : At P st) :
    ix.exploreLayer query numClosest level ⟨vectors, none, metadatas⟩ fuel st =
      ix.exploreLayer query numClosest level ⟨vectors', none, metadatas'⟩ fuel st := by
  induction fuel generalizing st with
  | zero => rfl
  | succ fuel ih =>
      unfold exploreLayer
      split
      · rfl
      rename_i candidate rest hpop
      split
      · rfl
      have hneighbors : ∀ n ∈ ix.neighborsAt candidate.id level, P n :=
        hedges candidate.id (hst.candidates candidate ((pop_perm hpop).mem_iff.mpr (by simp)))
      have hrest : At P { st with candidates := rest } :=
        ⟨fun c hc => hst.candidates c ((pop_perm hpop).mem_iff.mpr (by simp [hc])), hst.nearest⟩
      have hloop : (ix.neighborsAt candidate.id level).foldlM
            (ix.visitNeighbor query numClosest ⟨vectors, none, metadatas⟩)
            { st with candidates := rest } =
          (ix.neighborsAt candidate.id level).foldlM
            (ix.visitNeighbor query numClosest ⟨vectors', none, metadatas'⟩)
            { st with candidates := rest } :=
        foldlM_congr (At P) (fun n hn st _ => visitNeighbor_congr (hsame n (hneighbors n hn)))
          (fun n hn st st' h hstep => h.visits (hneighbors n hn) (visitNeighbor_visits hstep)) hrest
      rw [← hloop]
      cases hret : (ix.neighborsAt candidate.id level).foldlM
          (ix.visitNeighbor query numClosest ⟨vectors, none, metadatas⟩)
          { st with candidates := rest } with
      | error e => rfl
      | ok st₁ => exact ih (hrest.explored hneighbors hret)

theorem At.exploreLayer (hedges : ∀ id, P id → ∀ n ∈ ix.neighborsAt id level, P n) (hst : At P st)
    (hret : ix.exploreLayer query numClosest level context fuel st = .ok st') : At P st' := by
  induction fuel generalizing st with
  | zero => cases hret
  | succ fuel ih =>
      unfold HnswIndex.exploreLayer at hret
      split at hret
      · cases hret
        exact hst
      rename_i candidate rest hpop
      have hrest : At P { st with candidates := rest } :=
        ⟨fun c hc => hst.candidates c ((pop_perm hpop).mem_iff.mpr (by simp [hc])), hst.nearest⟩
      split at hret
      · cases hret
        exact hrest
      rw [bind_eq_ok] at hret
      obtain ⟨st₁, hloop, hret⟩ := hret
      have hneighbors : ∀ n ∈ ix.neighborsAt candidate.id level, P n :=
        hedges candidate.id (hst.candidates candidate ((pop_perm hpop).mem_iff.mpr (by simp)))
      exact ih (hrest.explored hneighbors hloop) hret

variable {entryPoints : List Uuid}

/-- Entering a layer leaves no more work than there is fuel for. -/
theorem work_entered {ids : List Uuid} (hloop : ids.foldlM (ix.enterAt query context) st = .ok st') :
    st'.candidates.length ≤ st.candidates.length + ids.length := by
  refine (foldlM_keeps (fun rest (st' : LayerSearch) =>
    st'.candidates.length + rest.length ≤ st.candidates.length + ids.length) ?_ le_rfl hloop)
  intro id rest st₁ st₂ hst hstep
  unfold enterAt at hstep
  rw [List.length_cons] at hst
  split at hstep
  · cases hstep
    omega
  split at hstep
  · cases hstep
    omega
  rw [bind_eq_ok] at hstep
  obtain ⟨dist, -, hstep⟩ := hstep
  cases hstep
  simp only [length_push]
  omega

theorem traverseLayer_congr (hedges : ∀ id, P id → ∀ n ∈ ix.neighborsAt id level, P n)
    (hsame : ∀ id, P id → vectors.get id = vectors'.get id) (hentry : ∀ id ∈ entryPoints, P id) :
    ix.traverseLayer query entryPoints numClosest level ⟨vectors, none, metadatas⟩ =
      ix.traverseLayer query entryPoints numClosest level ⟨vectors', none, metadatas'⟩ := by
  have hempty : At P ⟨∅, [], [], F32.infinity⟩ := ⟨by simp, by simp⟩
  have henter : entryPoints.foldlM (ix.enterAt query ⟨vectors, none, metadatas⟩)
        ⟨∅, [], [], F32.infinity⟩ =
      entryPoints.foldlM (ix.enterAt query ⟨vectors', none, metadatas'⟩)
        ⟨∅, [], [], F32.infinity⟩ :=
    foldlM_congr (At P) (fun id hid st _ => enterAt_congr (hsame id (hentry id hid)))
      (fun id hid st st' h hstep => h.entered (hentry id hid) hstep) hempty
  unfold traverseLayer
  rw [← henter]
  cases hloop : entryPoints.foldlM (ix.enterAt query ⟨vectors, none, metadatas⟩)
      ⟨∅, [], [], F32.infinity⟩ with
  | error e => rfl
  | ok st =>
      have hst : At P { st with furthestDistance := furthest st.nearest } := by
        have hat : At P st := by
          refine (foldlM_keeps (fun ids st => (∀ id ∈ ids, P id) ∧ At P st) ?_ ⟨hentry, hempty⟩
            hloop).2
          rintro id ids st st' ⟨hids, hst⟩ hstep
          exact ⟨fun id' hid' => hids id' (by simp [hid']), hst.entered (hids id (by simp)) hstep⟩
        exact ⟨hat.candidates, hat.nearest⟩
      have hlen := work_entered hloop
      have hwork : ∀ vectors : VectorReader,
          work vectors { st with furthestDistance := furthest st.nearest } <
            entryPoints.length + vectors.len + 1 := by
        intro vectors
        have hcard : (vectors.vectors.keys \ st.visited).card ≤ vectors.len :=
          Finset.card_le_card Finset.sdiff_subset
        unfold work
        simp only [List.length_nil] at hlen ⊢
        omega
      simp only [bind, Except.bind]
      generalize LayerSearch.mk st.visited st.candidates st.nearest (furthest st.nearest) = st₀
        at hst hwork ⊢
      -- both searches, with fuel enough for either
      have hless : ix.exploreLayer query numClosest level ⟨vectors, none, metadatas⟩
          (max (entryPoints.length + vectors.len + 1) (entryPoints.length + vectors'.len + 1)) st₀ =
          ix.exploreLayer query numClosest level ⟨vectors, none, metadatas⟩
            (entryPoints.length + vectors.len + 1) st₀ :=
        exploreLayer_more (hwork vectors) (Nat.le_max_left _ _)
      have hless' : ix.exploreLayer query numClosest level ⟨vectors', none, metadatas'⟩
          (max (entryPoints.length + vectors.len + 1) (entryPoints.length + vectors'.len + 1)) st₀ =
          ix.exploreLayer query numClosest level ⟨vectors', none, metadatas'⟩
            (entryPoints.length + vectors'.len + 1) st₀ :=
        exploreLayer_more (hwork vectors') (Nat.le_max_right _ _)
      exact hless.symm.trans ((exploreLayer_congr hedges hsame hst).trans hless')

theorem searchLayer_congr (hedges : ∀ id, P id → ∀ n ∈ ix.neighborsAt id level, P n)
    (hsame : ∀ id, P id → vectors.get id = vectors'.get id) (hentry : ∀ id ∈ entryPoints, P id) :
    ix.searchLayer query entryPoints numClosest level ⟨vectors, none, metadatas⟩ =
      ix.searchLayer query entryPoints numClosest level ⟨vectors', none, metadatas'⟩ := by
  have htraverse : ix.traverseLayer query entryPoints numClosest level ⟨vectors, none, metadatas⟩ =
      ix.traverseLayer query entryPoints numClosest level ⟨vectors', none, metadatas'⟩ :=
    traverseLayer_congr hedges hsame hentry
  unfold searchLayer
  rw [htraverse]

theorem At.searchLayer (hedges : ∀ id, P id → ∀ n ∈ ix.neighborsAt id level, P n)
    (hentry : ∀ id ∈ entryPoints, P id) {ids : List Uuid}
    (hret : ix.searchLayer query entryPoints numClosest level context = .ok ids) :
    ∀ id ∈ ids, P id := by
  obtain ⟨st₂, htraverse, hperm⟩ := searchLayer_ok hret
  obtain ⟨st₁, henter, hexplore⟩ := bind_eq_ok.mp htraverse
  have hst₁ : At P st₁ := by
    refine (foldlM_keeps (fun ids st => (∀ id ∈ ids, P id) ∧ At P st) ?_
      ⟨hentry, by simp, by simp⟩ henter).2
    rintro id ids st st' ⟨hids, hst⟩ hstep
    exact ⟨fun id' hid' => hids id' (by simp [hid']), hst.entered (hids id (by simp)) hstep⟩
  have hst₂ : At P st₂ := by
    refine At.exploreLayer hedges ?_ hexplore
    exact ⟨hst₁.candidates, hst₁.nearest⟩
  intro id hid
  obtain ⟨c, hc, rfl⟩ := List.mem_map.mp (hperm.mem_iff.mp hid)
  exact hst₂.nearest c hc

/-- Searches with two readers that agree on the nodes that can be reached. -/
theorem search_congr (hsame : ∀ id, ix.Reaches id → vectors.get id = vectors'.get id) {k ef : Nat} :
    ix.search query k ef vectors none metadatas = ix.search query k ef vectors' none metadatas' := by
  have hedges : ∀ level id, ix.Reaches id → ∀ n ∈ ix.neighborsAt id level, ix.Reaches n :=
    fun level id hid n hn => .edge hid hn
  unfold search
  split
  · rfl
  rename_i ep hstart
  have hep : ∀ id ∈ [ep], ix.Reaches id := by
    intro id hid
    rw [List.mem_singleton.mp hid]
    exact .start hstart
  rw [hsame ep (.start hstart)]
  split
  · rfl
  have hdescend : (List.range' 1 ix.topLayer).reverse.foldlM
        (fun nearest lc => ix.searchLayer query nearest 1 lc ⟨vectors, none, metadatas⟩) [ep] =
      (List.range' 1 ix.topLayer).reverse.foldlM
        (fun nearest lc => ix.searchLayer query nearest 1 lc ⟨vectors', none, metadatas'⟩) [ep] :=
    foldlM_congr (fun entry => ∀ id ∈ entry, ix.Reaches id)
      (fun lc _ entry hentry => searchLayer_congr (hedges lc) hsame hentry)
      (fun lc _ entry entry' hentry hstep => At.searchLayer (hedges lc) hentry hstep) hep
  rw [← hdescend]
  cases hret : (List.range' 1 ix.topLayer).reverse.foldlM
      (fun nearest lc => ix.searchLayer query nearest 1 lc ⟨vectors, none, metadatas⟩) [ep] with
  | error e => rfl
  | ok entry =>
      have hentry : ∀ id ∈ entry, ix.Reaches id := by
        refine foldlM_keeps (fun _ entry => ∀ id ∈ entry, ix.Reaches id) ?_ hep hret
        exact fun lc _ entry entry' hentry hstep => At.searchLayer (hedges lc) hentry hstep
      have hbottom : ix.searchLayer query entry (max ef k) 0 ⟨vectors, none, metadatas⟩ =
          ix.searchLayer query entry (max ef k) 0 ⟨vectors', none, metadatas'⟩ :=
        searchLayer_congr (hedges 0) hsame hentry
      simp only [bind, Except.bind]
      rw [hbottom]

end

end

/-- The nodes that can be reached are in the graph. -/
theorem Reaches.mem {ix : HnswIndex} (hentered : ix.Entered) (hwired : ix.Wired) {id : Uuid}
    (h : ix.Reaches id) : id ∈ ix.nodes := by
  cases h with
  | start h => exact (mem_trackedIds.mp (hentered _ h)).1
  | edge h hnext => exact Finmap.mem_keys.mp (hwired _ _ _ hnext)

end HnswIndex
