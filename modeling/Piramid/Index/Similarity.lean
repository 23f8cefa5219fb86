-- SUMMARY: In which order the searches of the three indexes return ids, compared with the scores of their metric.
import Piramid.Index.Retention

/-!
# Most similar first

A flat index and an IVF index sort by the score, highest first. A graph sorts by a
distance, lowest first, that it makes of the score. For the Euclidean metric that distance
is the score itself.
-/

open Loop

section

variable [Floats]

namespace VectorReader

/-- The score of `id` in the metric. -/
def Scores (vectors : VectorReader) (metric : Metric) (mode : ExecutionMode) (query : Vector32)
    (id : Uuid) (x : F32) : Prop :=
  ∃ v, vectors.get id = some v ∧ metric.calculate query v mode = .ok x

/-- No id scores lower than one behind it. -/
def Descending (vectors : VectorReader) (metric : Metric) (mode : ExecutionMode) (query : Vector32)
    (ids : List Uuid) : Prop :=
  ids.Pairwise fun a b => ∀ x y, vectors.Scores metric mode query a x →
    vectors.Scores metric mode query b y → ¬F32.lt x y

/-- The scores compare as those of a linear order: none of them is a NaN. -/
def Ordered (vectors : VectorReader) (metric : Metric) (mode : ExecutionMode) (query : Vector32) :
    Prop :=
  F32.Ordered fun x => ∃ id, vectors.Scores metric mode query id x

variable {vectors : VectorReader} {metric : Metric} {mode : ExecutionMode} {query : Vector32}
  {id : Uuid} {x y : F32}

theorem Scores.unique (h : vectors.Scores metric mode query id x)
    (h' : vectors.Scores metric mode query id y) : x = y := by
  obtain ⟨v, hv, hx⟩ := h
  obtain ⟨v', hv', hy⟩ := h'
  rw [hv] at hv'
  cases hv'
  rw [hx] at hy
  cases hy
  rfl

theorem scores_of_score {name : String} {scored : Uuid × F32}
    (h : vectors.score name metric mode query id = .ok scored) :
    vectors.Scores metric mode query scored.1 scored.2 := by
  unfold score at h
  split at h
  · cases h
  · rename_i v hv
    obtain ⟨x, hx, h⟩ := bind_eq_ok.mp h
    cases h
    exact ⟨v, hv, hx⟩

/-- Scores that compare as numbers can be sorted. -/
theorem Ordered.sortsScores (h : vectors.Ordered metric mode query) (name : String) (ids : List Uuid) :
    vectors.SortsScores name metric mode query ids := by
  intro scored hscored
  refine .inl (F32.Ordered.total h (List.forall_mem_map.mpr fun e he => ?_))
  obtain ⟨id, -, hscore⟩ := (mapM_eq_ok hscored).2 e he
  exact ⟨e.1, scores_of_score hscore⟩

/-- The best of the scored ids, best first. -/
theorem descending_ranked (hordered : vectors.Ordered metric mode query) {name : String}
    {ids : List Uuid} {scored : List (Uuid × F32)}
    (h : ids.mapM (vectors.score name metric mode query) = .ok scored)
    {ranked : List (Uuid × F32)} (hranked : sortByScore scored = .ok ranked) (k : Nat) :
    vectors.Descending metric mode query ((ranked.take k).map Prod.fst) := by
  obtain ⟨key, hkey⟩ := hordered
  have hscores : ∀ e ∈ scored, vectors.Scores metric mode query e.1 e.2 := by
    intro e he
    obtain ⟨id, -, hscore⟩ := (mapM_eq_ok h).2 e he
    exact scores_of_score hscore
  have hcompare : ∀ e ∈ scored, ∀ e' ∈ scored, SortOrder.descending.cmp e.2 e'.2 =
      compare (OrderDual.toDual (key e.2)) (OrderDual.toDual (key e'.2)) := by
    intro e he e' he'
    unfold SortOrder.cmp F32.cmp
    simp only
    rw [hkey e'.2 e.2 ⟨e'.1, hscores e' he'⟩ ⟨e.1, hscores e he⟩, Option.getD_some]
    rfl
  have hsorted : ranked.Pairwise fun e e' => key e'.2 ≤ key e.2 := sortBy_sorted hcompare hranked
  unfold Descending
  rw [List.pairwise_map]
  refine (hsorted.sublist (List.take_sublist k _)).imp_of_mem fun {e e'} he he' hge x y hx hy => ?_
  have hmem : ∀ e, e ∈ ranked.take k → vectors.Scores metric mode query e.1 e.2 :=
    fun e he => hscores e ((sortBy_perm hranked).mem_iff.mp (List.mem_of_mem_take he))
  rw [hx.unique (hmem e he), hy.unique (hmem e' he')]
  unfold F32.lt
  rw [hkey e.2 e'.2 ⟨e.1, hmem e he⟩ ⟨e'.1, hmem e' he'⟩, decide_eq_true_iff, Option.some.injEq,
    compare_lt_iff_lt]
  exact not_lt.mpr hge

end VectorReader

/-! ## HNSW -/

namespace HnswIndex

variable {ix : HnswIndex} {query : Vector32} {vectors : VectorReader} {context : SearchContext}
  {numClosest level : Nat} {entryPoints ids : List Uuid}

theorem scores_enterAt {st st' : LayerSearch} {ep : Uuid}
    (h : ∀ c ∈ st.nearest, ix.Scores query context c.id c.distance)
    (hret : ix.enterAt query context st ep = .ok st') :
    ∀ c ∈ st'.nearest, ix.Scores query context c.id c.distance := by
  unfold enterAt at hret
  split at hret
  · cases hret
    exact h
  rename_i v hv
  split at hret
  · cases hret
    exact h
  rename_i hadmits
  obtain ⟨dist, hdist, hret⟩ := bind_eq_ok.mp hret
  cases hret
  intro c hc
  simp only at hc
  split at hc
  · exact h c hc
  · rename_i hdead
    rcases BinaryHeap.mem_push.mp hc with rfl | hc
    · exact ⟨by simpa using hdead, by simpa using hadmits, v, hv, hdist⟩
    · exact h c hc

theorem scores_visitNeighbor {st st' : LayerSearch} {n : Uuid}
    (h : ∀ c ∈ st.nearest, ix.Scores query context c.id c.distance)
    (hret : ix.visitNeighbor query numClosest context st n = .ok st') :
    ∀ c ∈ st'.nearest, ix.Scores query context c.id c.distance := by
  unfold visitNeighbor at hret
  split at hret
  · cases hret
    exact h
  simp only at hret
  split at hret
  · cases hret
    exact h
  rename_i v hv
  split at hret
  · cases hret
    exact h
  rename_i hadmits
  obtain ⟨dist, hdist, hret⟩ := bind_eq_ok.mp hret
  split at hret
  · split at hret
    · cases hret
      exact h
    · rename_i hdead
      cases hret
      intro c hc
      rcases mem_pushNearest hc with rfl | hc
      · exact ⟨by simpa using hdead, by simpa using hadmits, v, hv, hdist⟩
      · exact h c hc
  · cases hret
    exact h

/-- Whatever is retained is live and at the distance of its vector. -/
theorem Runs.scores {s : Stage} (h : ix.Runs query entryPoints numClosest level context s) :
    ∀ c ∈ s.state.nearest, ix.Scores query context c.id c.distance := by
  induction h with
  | refl => exact fun c hc => by cases hc
  | tail _ hstep ih =>
      cases hstep with
      | enter hret => exact scores_enterAt ih hret
      | entered => exact ih
      | visit hret => exact scores_visitNeighbor ih hret
      | explore hpop hbound => exact ih
      | cut hpop hbound => exact ih
      | exhaust hpop => exact ih

/-- The score of `id` in the metric of the index, and the distance made of it. -/
structure Ranks (ix : HnswIndex) (query : Vector32) (vectors : VectorReader) (id : Uuid)
    (score dist : F32) : Prop where
  occurs : ix.Occurs id
  live : ix.isTombstone id = false
  values : ∃ v, vectors.get id = some v ∧
    ix.config.metric.calculate query v ix.config.mode = .ok score ∧ ix.distance query v = .ok dist

/-- Of two live nodes of the graph, the distances compare the other way round than the scores. -/
def Reverses (ix : HnswIndex) (query : Vector32) (vectors : VectorReader) : Prop :=
  ∀ a b x y d e, ix.Ranks query vectors a x d → ix.Ranks query vectors b y e →
    Floats.partialCmp d e = Floats.partialCmp y x

/-- A distance is made of a score. -/
theorem Scores.ranks {id : Uuid} {d : F32} (h : ix.Scores query context id d) (hid : ix.Occurs id) :
    ∃ x, ix.Ranks query context.vectors id x d := by
  obtain ⟨v, hv, hdist⟩ := h.distance
  have hscore : ∃ x, ix.config.metric.calculate query v ix.config.mode = .ok x := by
    unfold HnswIndex.distance at hdist
    split at hdist
    · obtain ⟨x, hx, -⟩ := bind_eq_ok.mp hdist
      exact ⟨x, hx⟩
    · obtain ⟨x, hx, -⟩ := bind_eq_ok.mp hdist
      exact ⟨x, hx⟩
    · exact ⟨d, hdist⟩
  obtain ⟨x, hx⟩ := hscore
  exact ⟨x, hid, h.live, v, hv, hx, hdist⟩

/-- A score and a distance go with an id. -/
theorem Ranks.scores {id : Uuid} {x d : F32} (h : ix.Ranks query vectors id x d) :
    vectors.Scores ix.config.metric ix.config.mode query id x := by
  obtain ⟨v, hv, hx, -⟩ := h.values
  exact ⟨v, hv, hx⟩

/-- The ids of a layer search are in the order of numbers that compare as the distances. -/
theorem searchLayer_sorted (hentry : ∀ ep ∈ entryPoints, ix.Occurs ep) (key : F32 → Int) (sign : Int)
    (hcompare : ∀ a b x y d e, ix.Ranks query context.vectors a x d →
      ix.Ranks query context.vectors b y e →
      F32.cmp d e = compare (sign * key x) (sign * key y))
    (hret : ix.searchLayer query entryPoints numClosest level context = .ok ids) :
    ids.Pairwise fun a b => ∀ x y,
      context.vectors.Scores ix.config.metric ix.config.mode query a x →
      context.vectors.Scores ix.config.metric ix.config.mode query b y →
      sign * key x ≤ sign * key y := by
  obtain ⟨st, sorted, hruns, hsorted, rfl⟩ := searchLayer_runs hret
  have hranks : ∀ c ∈ st.nearest, ∃ x, ix.Ranks query context.vectors c.id x c.distance :=
    fun c hc => (hruns.scores c hc).ranks ((hruns.occurs hentry).2 c hc)
  choose! score hscore using hranks
  have hkeys : ∀ c ∈ st.nearest, ∀ d ∈ st.nearest, SortOrder.ascending.cmp c.distance d.distance =
      compare (sign * key (score c)) (sign * key (score d)) := by
    intro c hc d hd
    exact hcompare c.id d.id _ _ _ _ (hscore c hc) (hscore d hd)
  rw [List.pairwise_map]
  refine (sortBy_sorted hkeys hsorted).imp_of_mem fun {c d} hc hd hle x y hx hy => ?_
  have hmem : ∀ c ∈ sorted,
      context.vectors.Scores ix.config.metric ix.config.mode query c.id (score c) :=
    fun c hc => (hscore c ((sortBy_perm hsorted).mem_iff.mp hc)).scores
  rw [hx.unique (hmem c hc), hy.unique (hmem d hd)]
  exact hle

variable {k ef : Nat} {filter : Option (Metadata → Bool)} {metadatas : HashMap Uuid Metadata}

/-- What a search returns is part of what its last layer search returns. -/
theorem search_sublist (hret : ix.search query k ef vectors filter metadatas = .ok ids) :
    ids = [] ∨ ∃ entry found, (∀ ep ∈ entry, ix.Occurs ep) ∧
      ix.searchLayer query entry (max ef k) 0 ⟨vectors, filter, metadatas⟩ = .ok found ∧
        ids.Sublist found := by
  unfold search at hret
  split at hret
  · cases hret
    exact .inl rfl
  rename_i ep hstart
  split at hret
  · cases hret
  obtain ⟨entry, hentry, hret⟩ := bind_eq_ok.mp hret
  obtain ⟨found, hfound, hret⟩ := bind_eq_ok.mp hret
  cases hret
  have hoccurs := foldlM_keeps (fun _ (nearest : List Uuid) => ∀ ep ∈ nearest, ix.Occurs ep)
    (fun _ _ _ _ h hstep => occurs_searchLayer h hstep)
    (fun id hid => .inl (List.mem_singleton.mp hid ▸ hstart)) hentry
  exact .inr ⟨entry, found, hoccurs, hfound, (List.take_sublist k _).trans List.filter_sublist⟩

theorem search_sorted (key : F32 → Int) (sign : Int)
    (hcompare : ∀ a b x y d e, ix.Ranks query vectors a x d → ix.Ranks query vectors b y e →
      F32.cmp d e = compare (sign * key x) (sign * key y))
    (hret : ix.search query k ef vectors filter metadatas = .ok ids) :
    ids.Pairwise fun a b => ∀ x y, vectors.Scores ix.config.metric ix.config.mode query a x →
      vectors.Scores ix.config.metric ix.config.mode query b y → sign * key x ≤ sign * key y := by
  rcases search_sublist hret with rfl | ⟨entry, found, hoccurs, hfound, hsub⟩
  · exact .nil
  · exact (searchLayer_sorted hoccurs key sign hcompare hfound).sublist hsub

omit [Floats] in
theorem compare_neg_one_mul (m n : Int) : compare n m = compare (-1 * m) (-1 * n) := by
  rw [neg_one_mul, neg_one_mul]
  rcases lt_trichotomy n m with h | rfl | h
  · rw [compare_lt_iff_lt.mpr h, eq_comm, compare_lt_iff_lt]
    exact neg_lt_neg h
  · rw [compare_eq_iff_eq.mpr rfl, compare_eq_iff_eq.mpr rfl]
  · rw [compare_gt_iff_gt.mpr h, eq_comm, compare_gt_iff_gt]
    exact neg_lt_neg h

/-- Distances that reverse the scores. -/
theorem search_descending (hordered : vectors.Ordered ix.config.metric ix.config.mode query)
    (hreverses : ix.Reverses query vectors)
    (hret : ix.search query k ef vectors filter metadatas = .ok ids) :
    vectors.Descending ix.config.metric ix.config.mode query ids := by
  obtain ⟨key, hkey⟩ := hordered
  refine (search_sorted key (-1) ?_ hret).imp fun {a b} hle x y hx hy => ?_
  · intro a b x y d e ha hb
    unfold F32.cmp
    rw [hreverses a b x y d e ha hb, hkey y x ⟨b, hb.scores⟩ ⟨a, ha.scores⟩, Option.getD_some]
    exact compare_neg_one_mul (key x) (key y)
  · have hxy := hle x y hx hy
    unfold F32.lt
    rw [hkey x y ⟨a, hx⟩ ⟨b, hy⟩, decide_eq_true_iff, Option.some.injEq, compare_lt_iff_lt]
    omega

/-- With the Euclidean metric the least similar come first. -/
theorem search_ascending (hordered : vectors.Ordered ix.config.metric ix.config.mode query)
    (hmetric : ix.config.metric = .euclidean)
    (hret : ix.search query k ef vectors filter metadatas = .ok ids) :
    ids.Pairwise fun a b => ∀ x y, vectors.Scores ix.config.metric ix.config.mode query a x →
      vectors.Scores ix.config.metric ix.config.mode query b y → ¬F32.lt y x := by
  obtain ⟨key, hkey⟩ := hordered
  have hsame : ∀ {id : Uuid} {x d : F32}, ix.Ranks query vectors id x d → d = x := by
    intro id x d h
    obtain ⟨v, -, hx, hd⟩ := h.values
    unfold distance at hd
    rw [hmetric] at hd hx
    simp only at hd
    rw [hx] at hd
    cases hd
    rfl
  refine (search_sorted key 1 ?_ hret).imp fun {a b} hle x y hx hy => ?_
  · intro a b x y d e ha hb
    rw [hsame ha, hsame hb]
    unfold F32.cmp
    rw [hkey x y ⟨a, ha.scores⟩ ⟨b, hb.scores⟩, Option.getD_some, one_mul, one_mul]
  · have hxy := hle x y hx hy
    unfold F32.lt
    rw [hkey y x ⟨b, hy⟩ ⟨a, hx⟩, decide_eq_true_iff, Option.some.injEq, compare_lt_iff_lt]
    omega

end HnswIndex

/-! ## Any index -/

namespace VectorIndex

/-- The metric of the index. -/
def metric : VectorIndex → Metric
  | .flat ix => ix.config.metric
  | .hnsw ix => ix.config.metric
  | .ivf ix => ix.config.metric

variable {ix : VectorIndex} {query : Vector32} {vectors : VectorReader} {k : Nat}
  {quality : SearchConfig} {filter : Option (Metadata → Bool)} {metadatas : HashMap Uuid Metadata}
  {ids : List Uuid}

/-- Flat and IVF searches return the most similar first. The search of a graph does so if its
distances compare the other way round than the scores; with the Euclidean metric it does so
only if all that it returns score the same. -/
theorem search_most_similar_first (hordered : vectors.Ordered ix.metric ix.mode query)
    (hret : ix.search query k vectors quality filter metadatas = .ok ids) :
    ((∀ g, ix = .hnsw g → g.Reverses query vectors) →
      vectors.Descending ix.metric ix.mode query ids) ∧
    ∀ g, ix = .hnsw g → g.config.metric = .euclidean →
      (vectors.Descending ix.metric ix.mode query ids ↔
        ids.Pairwise fun a b => ∀ x y, vectors.Scores ix.metric ix.mode query a x →
          vectors.Scores ix.metric ix.mode query b y → Floats.partialCmp x y = some .eq) := by
  cases ix with
  | flat ix =>
      refine ⟨fun _ => ?_, fun g hg => by cases hg⟩
      change ix.search query k vectors = .ok ids at hret
      unfold FlatIndex.search at hret
      obtain ⟨scored, hscored, hret⟩ := bind_eq_ok.mp hret
      obtain ⟨ranked, hranked, hret⟩ := bind_eq_ok.mp hret
      cases hret
      exact VectorReader.descending_ranked hordered hscored hranked k
  | ivf ix =>
      refine ⟨fun _ => ?_, fun g hg => by cases hg⟩
      change ix.search query k vectors quality = .ok ids at hret
      unfold IvfIndex.search at hret
      split at hret
      · cases hret
      obtain ⟨scores, -, hret⟩ := bind_eq_ok.mp hret
      obtain ⟨centroids, -, hret⟩ := bind_eq_ok.mp hret
      obtain ⟨scored, hscored, hret⟩ := bind_eq_ok.mp hret
      obtain ⟨ranked, hranked, hret⟩ := bind_eq_ok.mp hret
      cases hret
      exact VectorReader.descending_ranked hordered hscored hranked k
  | hnsw ix =>
      refine ⟨fun hreverses => HnswIndex.search_descending hordered (hreverses ix rfl) hret, ?_⟩
      intro g hg hmetric
      cases hg
      have hascending := HnswIndex.search_ascending hordered hmetric hret
      obtain ⟨key, hkey⟩ := hordered
      constructor
      · intro hdescending
        refine (hdescending.and hascending).imp fun {a b} hab x y hx hy => ?_
        have hle := hab.1 x y hx hy
        have hge := hab.2 x y hx hy
        unfold F32.lt at hle hge
        rw [hkey x y ⟨a, hx⟩ ⟨b, hy⟩, decide_eq_true_iff, Option.some.injEq, compare_lt_iff_lt] at hle
        rw [hkey y x ⟨b, hy⟩ ⟨a, hx⟩, decide_eq_true_iff, Option.some.injEq, compare_lt_iff_lt] at hge
        rw [hkey x y ⟨a, hx⟩ ⟨b, hy⟩, Option.some.injEq, compare_eq_iff_eq]
        omega
      · intro hequal
        refine hequal.imp fun {a b} heq x y hx hy => ?_
        unfold F32.lt
        rw [heq x y hx hy]
        decide

end VectorIndex

end

/-! ## The least similar first -/

section

attribute [local instance] Reference.floats

def euclideanConfig : HnswConfig := ⟨2, 2, 1, 1, F32.one, .euclidean, .auto⟩

/-- For a query for 1 the first scores 1, and the second a half. -/
def nearAndFar : List (Uuid × Vector32) := [(0, [F32.one]), (1, [Reference.two])]

theorem get_nearAndFar (id : Uuid) :
    (VectorReader.ofEntries nearAndFar).get id =
      if id = 1 then some [Reference.two] else if id = 0 then some [F32.one] else none := by
  unfold VectorReader.get VectorReader.ofEntries HashMap.insertEach nearAndFar
  simp only [List.foldl_cons, List.foldl_nil, HashMap.lookup_insert, Finmap.lookup_empty]

theorem ordered_nearAndFar :
    VectorReader.Ordered (.ofEntries nearAndFar) .euclidean .auto [F32.one] := by
  have hscore : ∀ {id : Uuid} {x : F32}, VectorReader.Scores (.ofEntries nearAndFar) .euclidean .auto
      [F32.one] id x → x = Reference.half ∨ x = F32.one := by
    rintro id x ⟨v, hv, hx⟩
    rw [get_nearAndFar] at hv
    split at hv
    · cases hv
      exact .inl (Except.ok.inj hx).symm
    · split at hv
      · cases hv
        exact .inr (Except.ok.inj hx).symm
      · cases hv
  refine ⟨fun x => if x = F32.one then 1 else 0, ?_⟩
  rintro x y ⟨a, hx⟩ ⟨b, hy⟩
  rcases hscore hx with rfl | rfl
  · rcases hscore hy with rfl | rfl
    · decide
    · decide
  · rcases hscore hy with rfl | rfl
    · decide
    · decide

/-- The graph of both returns the second first. -/
theorem least_similar_first :
    ∃ g : HnswIndex, g.Built euclideanConfig ∧
      VectorReader.Ordered (.ofEntries nearAndFar) .euclidean .auto [F32.one] ∧
      ∃ ids, (VectorIndex.hnsw g).search [F32.one] 2 (.ofEntries nearAndFar) .default none ∅ = .ok ids ∧
        ¬VectorReader.Descending (.ofEntries nearAndFar) .euclidean .auto [F32.one] ids := by
  have hseen : (HnswIndex.insertEach euclideanConfig nearAndFar Reference.half).toOption.map (fun g =>
      ((VectorIndex.hnsw g).search [F32.one] 2 (.ofEntries nearAndFar) .default none ∅).toOption) =
        some (some [1, 0]) := by
    decide +kernel
  obtain ⟨g, hg, hfound⟩ := ok_of_map hseen
  obtain ⟨ids, hfound, rfl⟩ := ok_of_map (f := id) (by rw [Option.map_id]; exact hfound)
  refine ⟨g, HnswIndex.built_insertEach (by decide) hg, ordered_nearAndFar, _, hfound, ?_⟩
  intro hdescending
  have hhalf : VectorReader.Scores (.ofEntries nearAndFar) .euclidean .auto [F32.one] 1 Reference.half :=
    ⟨[Reference.two], by rw [get_nearAndFar]; rfl, by decide +kernel⟩
  have hone : VectorReader.Scores (.ofEntries nearAndFar) .euclidean .auto [F32.one] 0 F32.one :=
    ⟨[F32.one], by rw [get_nearAndFar]; rfl, by decide +kernel⟩
  refine List.rel_of_pairwise_cons hdescending (List.mem_singleton_self 0) _ _ hhalf hone ?_
  decide

/-- Of two vectors the second scores higher for a query for 1. -/
def lowAndHigh : List (Uuid × Vector32) := [(0, [F32.zero]), (1, [F32.one])]

theorem scores_lowAndHigh {id : Uuid} {x : F32}
    (h : VectorReader.Scores (.ofEntries lowAndHigh) .dotProduct .auto [F32.one] id x) :
    x = F32.one ∧ (VectorReader.ofEntries lowAndHigh).get id = some [F32.one] ∨
      x = F32.zero ∧ (VectorReader.ofEntries lowAndHigh).get id = some [F32.zero] := by
  obtain ⟨v, hv, hx⟩ := h
  have hget : (VectorReader.ofEntries lowAndHigh).get id =
      if id = 1 then some [F32.one] else if id = 0 then some [F32.zero] else none := by
    unfold VectorReader.get VectorReader.ofEntries HashMap.insertEach lowAndHigh
    simp only [List.foldl_cons, List.foldl_nil, HashMap.lookup_insert, Finmap.lookup_empty]
  rw [hget] at hv
  split at hv
  · cases hv
    exact .inl ⟨(Except.ok.inj hx).symm, by rw [hget, if_pos ‹_›]⟩
  · split at hv
    · cases hv
      exact .inr ⟨(Except.ok.inj hx).symm, by rw [hget, if_neg ‹_›, if_pos ‹_›]⟩
    · cases hv

/-- A dot-product graph of both returns the second first, which is the more similar one. -/
theorem graph_most_similar_first :
    ∃ g : HnswIndex, g.Built HnswIndex.dotConfig ∧ g.Reverses [F32.one] (.ofEntries lowAndHigh) ∧
      ∃ ids, (VectorIndex.hnsw g).search [F32.one] 2 (.ofEntries lowAndHigh) .default none ∅ = .ok ids ∧
        ids = [1, 0] ∧ VectorReader.Descending (.ofEntries lowAndHigh) .dotProduct .auto [F32.one] ids := by
  have hseen : (HnswIndex.insertEach HnswIndex.dotConfig lowAndHigh Reference.half).toOption.map (fun g =>
      ((VectorIndex.hnsw g).search [F32.one] 2 (.ofEntries lowAndHigh) .default none ∅).toOption) =
        some (some [1, 0]) := by
    decide +kernel
  obtain ⟨g, hg, hfound⟩ := ok_of_map hseen
  obtain ⟨ids, hfound, hids⟩ := ok_of_map (f := id) (by rw [Option.map_id]; exact hfound)
  have hbuilt := HnswIndex.built_insertEach (by decide) hg
  have hconfig : g.config = HnswIndex.dotConfig := hbuilt.grown.config
  have hordered : VectorReader.Ordered (.ofEntries lowAndHigh) .dotProduct .auto [F32.one] := by
    refine ⟨fun x => if x = F32.one then 1 else 0, ?_⟩
    rintro x y ⟨a, hx⟩ ⟨b, hy⟩
    rcases scores_lowAndHigh hx with ⟨rfl, -⟩ | ⟨rfl, -⟩
    · rcases scores_lowAndHigh hy with ⟨rfl, -⟩ | ⟨rfl, -⟩
      · decide
      · decide
    · rcases scores_lowAndHigh hy with ⟨rfl, -⟩ | ⟨rfl, -⟩
      · decide
      · decide
  -- the distances are 0 and 1 where the scores are 1 and 0
  have hdistance : ∀ {a : Uuid} {x d : F32}, g.Ranks [F32.one] (.ofEntries lowAndHigh) a x d →
      x = F32.one ∧ d = F32.zero ∨ x = F32.zero ∧ d = F32.one := by
    intro a x d h
    obtain ⟨v, hv, hx, hd⟩ := h.values
    rw [hconfig] at hx
    unfold HnswIndex.distance at hd
    rw [hconfig] at hd
    rcases scores_lowAndHigh ⟨v, hv, hx⟩ with ⟨rfl, hget⟩ | ⟨rfl, hget⟩
    · rw [hv] at hget
      cases hget
      exact .inl ⟨rfl, (Except.ok.inj hd).symm⟩
    · rw [hv] at hget
      cases hget
      exact .inr ⟨rfl, (Except.ok.inj hd).symm⟩
  have hreverses : g.Reverses [F32.one] (.ofEntries lowAndHigh) := by
    intro a b x y d e ha hb
    rcases hdistance ha with ⟨rfl, rfl⟩ | ⟨rfl, rfl⟩
    · rcases hdistance hb with ⟨rfl, rfl⟩ | ⟨rfl, rfl⟩
      · decide
      · decide
    · rcases hdistance hb with ⟨rfl, rfl⟩ | ⟨rfl, rfl⟩
      · decide
      · decide
  have hmetric : VectorReader.Ordered (.ofEntries lowAndHigh) (VectorIndex.hnsw g).metric
      (VectorIndex.hnsw g).mode [F32.one] := by
    change VectorReader.Ordered _ g.config.metric g.config.mode _
    rw [hconfig]
    exact hordered
  have hdescending := (VectorIndex.search_most_similar_first hmetric hfound).1 fun g' hg' => by
    cases hg'
    exact hreverses
  change VectorReader.Descending _ g.config.metric g.config.mode _ _ at hdescending
  rw [hconfig] at hdescending
  exact ⟨g, hbuilt, hreverses, ids, hfound, hids, hdescending⟩

end
