-- SUMMARY: Searches of a flat collection: when the hits are the best in the metric of the request, and in its order.
import Piramid.Base.Ranking
import Piramid.Collections.Session

/-!
# Answers in the metric of the request

A flat index ranks the documents by its own metric, and the hits get scores in the
metric of the request. The two metrics need not agree.
-/

open Loop

/-! ## Scores -/

section

variable [Floats]

theorem Metric.calculate_gpu (metric : Metric) (a b : Vector32) (x : F32) :
    metric.calculate a b .gpu ≠ .ok x := by
  intro h
  cases metric with
  | cosine => cases h
  | dotProduct => cases h
  | euclidean => cases h

/-- The score of two vectors of one length, in a mode that is implemented. -/
def Metric.score (metric : Metric) (a b : Vector32) (mode : ExecutionMode) : F32 :=
  ((metric.calculate a b mode).toOption).getD F32.zero

theorem Metric.calculate_eq_score (metric : Metric) {a b : Vector32} {mode : ExecutionMode}
    (hmode : mode.Implemented) (hlen : a.length = b.length) :
    metric.calculate a b mode = .ok (metric.score a b mode) := by
  obtain ⟨x, hx⟩ := metric.calculate_ok hmode hlen
  unfold Metric.score
  rw [hx]
  rfl

namespace Table

/-- The score of the document with id `id`. -/
def score (t : Table) (metric : Metric) (query : Vector32) (mode : ExecutionMode) (id : Uuid) : F32 :=
  metric.score query (((t.lookup id).map Document.vector).getD []) mode

theorem score_eq {t : Table} {id : Uuid} {doc : Document} (h : t.lookup id = some doc)
    (metric : Metric) (query : Vector32) (mode : ExecutionMode) :
    t.score metric query mode id = metric.score query doc.vector mode := by
  unfold score
  rw [h]
  rfl

/-- The scores of the documents compare as those of a linear order. -/
def Scored (t : Table) (metric : Metric) (query : Vector32) (mode : ExecutionMode) : Prop :=
  F32.Ordered fun x => ∃ id ∈ t, x = t.score metric query mode id

end Table

theorem F32.gt_iff {key : F32 → Int} {x y : F32}
    (h : Floats.partialCmp x y = some (compare (key x) (key y))) : F32.gt x y ↔ key y < key x := by
  unfold F32.gt
  rw [h, decide_eq_true_eq, Option.some.injEq]
  exact compare_gt_iff_gt

theorem F32.cmp_ne_gt_iff {key : F32 → Int} {x y : F32}
    (h : Floats.partialCmp x y = some (compare (key x) (key y))) :
    F32.cmp x y ≠ .gt ↔ key x ≤ key y := by
  unfold F32.cmp
  rw [h, Option.getD_some]
  exact compare_le_iff_le

/-! ## The two rankings -/

namespace FlatIndex

/-- The score that the index gives the document with id `id`. -/
def score (ix : FlatIndex) (t : Table) (query : Vector32) (id : Uuid) : F32 :=
  t.score ix.config.metric query ix.config.mode id

/-- The index scores `a` higher than `b`, or as high and lists it first. -/
def Outranks (ix : FlatIndex) (t : Table) (query : Vector32) (a b : Uuid) : Prop :=
  F32.gt (ix.score t query a) (ix.score t query b) ∨
    ¬F32.gt (ix.score t query b) (ix.score t query a) ∧
      ix.vectorIds.idxOf a < ix.vectorIds.idxOf b

instance (ix : FlatIndex) (t : Table) (query : Vector32) (a b : Uuid) :
    Decidable (ix.Outranks t query a b) :=
  inferInstanceAs (Decidable (_ ∨ _))

/-- A document that fewer than `k` others outrank outranks none that scores higher in
the metric of the request. -/
def Agrees (ix : FlatIndex) (t : Table) (query : Vector32) (k : Nat) (metric : Metric)
    (mode : ExecutionMode) : Prop :=
  ∀ a ∈ ix.vectorIds, ∀ b ∈ ix.vectorIds,
    (ix.vectorIds.countP fun c => ix.Outranks t query c a) < k → ix.Outranks t query a b →
      ¬F32.gt (t.score metric query mode b) (t.score metric query mode a)

end FlatIndex

end

/-! ## What a search is for -/

namespace Collection

variable [Env]

/-- The hits are the `k` live documents with the highest scores, highest first. -/
structure Answers (c : Collection) (d : Disk) (query : Vector32) (k : Nat) (metric : Metric)
    (mode : ExecutionMode) (hits : List Hit) : Prop where
  length : hits.length = min k c.count
  distinct : (hits.map Hit.id).Nodup
  live : ∀ hit ∈ hits, ∃ doc, c.get d hit.id = .ok (some doc) ∧
    metric.calculate query doc.vector mode = .ok hit.score
  sorted : hits.Pairwise fun a b => ¬F32.gt b.score a.score
  best : ∀ hit ∈ hits, ∀ id doc score, c.get d id = .ok (some doc) → id ∉ hits.map Hit.id →
    metric.calculate query doc.vector mode = .ok score → ¬F32.gt score hit.score

end Collection

/-! ## When it is what it is for -/

section

variable [Env] {c : Collection} {d : Disk} {t : Table} {ix : FlatIndex} {query : Vector32} {k : Nat}
  {metric : Metric} {params : SearchParams} {order : HashOrder Uuid}

namespace FlatIndex

/-- A search of a flat index ranks all documents by its own metric. -/
theorem search_eq {vectors : VectorReader} {key : F32 → Int}
    (hvectors : ∀ id ∈ ix.vectorIds, ∃ doc, t.lookup id = some doc ∧
      vectors.get id = some doc.vector ∧ doc.vector.length = query.length)
    (hmode : ix.config.mode.Implemented)
    (hkey : ∀ a ∈ ix.vectorIds, ∀ b ∈ ix.vectorIds,
      Floats.partialCmp (ix.score t query a) (ix.score t query b) =
        some (compare (key (ix.score t query a)) (key (ix.score t query b)))) :
    ix.search query k vectors =
      .ok ((Ranking.rank (fun id => key (ix.score t query id)) ix.vectorIds).take k) := by
  have hscores : ix.vectorIds.mapM (vectors.score "Flat" ix.config.metric ix.config.mode query) =
      .ok (ix.vectorIds.map fun id => (id, ix.score t query id)) := by
    refine mapM_eq_map fun id hid => ?_
    obtain ⟨doc, hdoc, hvector, hlen⟩ := hvectors id hid
    have hscore := ix.config.metric.calculate_eq_score hmode hlen.symm
    unfold VectorReader.score FlatIndex.score
    rw [hvector, t.score_eq hdoc]
    simp only [hscore]
    rfl
  have hordered : F32.Ordered fun x => ∃ id ∈ ix.vectorIds, ix.score t query id = x := by
    refine ⟨key, ?_⟩
    rintro _ _ ⟨a, ha, rfl⟩ ⟨b, hb, rfl⟩
    exact hkey a ha b hb
  have hsorted : sortBy .descending Prod.snd (ix.vectorIds.map fun id => (id, ix.score t query id)) = _ :=
    hordered.sortBy_eq (List.forall_mem_map.mpr fun id hid => ⟨id, hid, rfl⟩)
  have hsort := List.map_insertionSort
    (fun a b => key (ix.score t query b) ≤ key (ix.score t query a))
    (fun a b : Uuid × F32 => F32.cmp b.2 a.2 ≠ .gt) (fun id => (id, ix.score t query id))
    ix.vectorIds (fun a ha b hb => (F32.cmp_ne_gt_iff (hkey b hb a ha)).symm)
  unfold search sortByScore
  rw [hscores]
  change sortBy _ _ _ >>= _ = _
  rw [hsorted]
  change Except.ok (((List.insertionSort (fun a b : Uuid × F32 => F32.cmp b.2 a.2 ≠ .gt) _).take k).map
    Prod.fst) = _
  rw [← hsort, ← List.map_take, List.map_map]
  exact congrArg Except.ok (List.map_id _)

theorem not_search_gpu {vectors : VectorReader} {ids : List Uuid} (hmode : ¬ix.config.mode.Implemented)
    (hids : ix.vectorIds ≠ []) : ix.search query k vectors ≠ .ok ids := by
  intro hret
  unfold search at hret
  rw [bind_eq_ok] at hret
  obtain ⟨scored, hscored, -⟩ := hret
  obtain ⟨id, hid⟩ := List.exists_mem_of_ne_nil _ hids
  obtain ⟨e, he⟩ := mapM_ok_of_mem hscored hid
  unfold VectorReader.score at he
  split at he
  · cases he
  · rw [bind_eq_ok] at he
    obtain ⟨x, hx, -⟩ := he
    rw [Decidable.not_not.mp hmode] at hx
    exact Metric.calculate_gpu _ _ _ _ hx

end FlatIndex

namespace Collection

theorem search_of_no_filter (hfilter : params.filter = none) :
    c.search d order query k metric params =
      (c.vectorIndex.search query k (c.cache.reader order)
        ((c.searchParams params).searchConfigOverride.getD c.config.search) none c.cache.metadata >>=
        fun ids => ids.mapM (c.hit d query metric (c.searchParams params).mode)) := by
  have hnone : (c.searchParams params).filter = none := hfilter
  unfold search searchCollection searchK
  simp only [hnone, Option.isSome_none, Bool.false_eq_true, if_false, bind_pure]

end Collection

/-- The hit for a document of a table. -/
def Table.hit (t : Table) (metric : Metric) (query : Vector32) (mode : ExecutionMode) (id : Uuid) :
    Hit :=
  let doc := (t.lookup id).getD ⟨id, [], "", ∅⟩
  ⟨id, t.score metric query mode id, doc.text, doc.vector, doc.metadata⟩

namespace Coherent

variable {mode : ExecutionMode}

theorem hit_eq (h : Coherent c d t) (hmode : mode.Implemented) {id : Uuid} {doc : Document}
    (hdoc : t.lookup id = some doc) (hlen : doc.vector.length = query.length) :
    c.hit d query metric mode id = .ok (t.hit metric query mode id) := by
  have hscore := metric.calculate_eq_score hmode hlen.symm
  unfold Collection.hit Table.hit
  rw [h.held.get, hdoc, t.score_eq hdoc]
  change (metric.calculate query doc.vector mode >>= _) = _
  rw [hscore]
  rfl

theorem not_hit_gpu (h : Coherent c d t) (hmode : ¬mode.Implemented) {id : Uuid} {hit : Hit} :
    c.hit d query metric mode id ≠ .ok hit := by
  intro hret
  unfold Collection.hit at hret
  rw [h.held.get] at hret
  cases hdoc : t.lookup id with
  | none =>
      rw [hdoc] at hret
      cases hret
  | some doc =>
      rw [hdoc] at hret
      change (metric.calculate query doc.vector mode >>= _) = _ at hret
      rw [bind_eq_ok] at hret
      obtain ⟨x, hx, -⟩ := hret
      rw [Decidable.not_not.mp hmode] at hx
      exact Metric.calculate_gpu _ _ _ _ hx

theorem vectorIds (h : Coherent c d t) (hix : c.vectorIndex = .flat ix) (id : Uuid) :
    id ∈ ix.vectorIds ↔ id ∈ t := by
  have htracked := h.cached.tracked
  rw [hix] at htracked
  rw [← List.mem_toFinset, ← Finmap.mem_keys, ← htracked]
  rfl

theorem nodup_vectorIds (h : Coherent c d t) (hix : c.vectorIndex = .flat ix) :
    ix.vectorIds.Nodup := by
  have hintact := h.cached.intact
  rw [hix] at hintact
  exact hintact

theorem length_vectorIds (h : Coherent c d t) (hix : c.vectorIndex = .flat ix) :
    ix.vectorIds.length = c.count := by
  have htracked := h.cached.tracked
  rw [hix] at htracked
  unfold Collection.count
  rw [h.held.len, ← List.toFinset_card_of_nodup (h.nodup_vectorIds hix)]
  exact congrArg Finset.card htracked

/-- Hits for the best ids in the metric of the request are what a search is for. -/
theorem answers_iff (h : Coherent c d t) (hix : c.vectorIndex = .flat ix) (hmode : mode.Implemented)
    (hdim : ∀ id doc, t.lookup id = some doc → doc.vector.length = query.length) {key : F32 → Int}
    (hkey : ∀ a ∈ t, ∀ b ∈ t,
      Floats.partialCmp (t.score metric query mode a) (t.score metric query mode b) =
        some (compare (key (t.score metric query mode a)) (key (t.score metric query mode b))))
    {top : List Uuid} (htop : top.length = min k ix.vectorIds.length) (hnodup : top.Nodup)
    (hsub : ∀ id ∈ top, id ∈ ix.vectorIds) :
    c.Answers d query k metric mode (top.map (t.hit metric query mode)) ↔
      Ranking.BestBy (fun id => key (t.score metric query mode id)) top ix.vectorIds := by
  have hlive : ∀ id ∈ top, id ∈ t := fun id hid => (h.vectorIds hix id).mp (hsub id hid)
  have hids : (top.map (t.hit metric query mode)).map Hit.id = top := by
    rw [List.map_map]
    exact List.map_id _
  constructor
  · intro hanswers
    constructor
    · refine (List.pairwise_map.mp hanswers.sorted).imp_of_mem fun {a b} ha hb hle => ?_
      exact le_of_not_gt ((F32.gt_iff (hkey b (hlive b hb) a (hlive a ha))).not.mp hle)
    · intro a ha b hb hout
      have hbt := (h.vectorIds hix b).mp hb
      obtain ⟨doc, hdoc⟩ := Finmap.mem_iff.mp hbt
      have hbest := hanswers.best _ (List.mem_map_of_mem ha) b doc (metric.score query doc.vector mode)
        (hdoc ▸ h.held.get b) (hids.symm ▸ hout)
        (metric.calculate_eq_score hmode (hdim b doc hdoc).symm)
      rw [← t.score_eq hdoc] at hbest
      exact le_of_not_gt ((F32.gt_iff (hkey b hbt a (hlive a ha))).not.mp hbest)
  · intro hbest
    refine ⟨?_, hids.symm ▸ hnodup, ?_, ?_, ?_⟩
    · rw [List.length_map, htop, h.length_vectorIds hix]
    · intro hit hhit
      obtain ⟨id, hid, rfl⟩ := List.mem_map.mp hhit
      obtain ⟨doc, hdoc⟩ := Finmap.mem_iff.mp (hlive id hid)
      refine ⟨doc, hdoc ▸ h.held.get id, ?_⟩
      change _ = Except.ok (t.score metric query mode id)
      rw [t.score_eq hdoc]
      exact metric.calculate_eq_score hmode (hdim id doc hdoc).symm
    · refine List.pairwise_map.mpr (hbest.sorted.imp_of_mem fun {a b} ha hb hle => ?_)
      exact (F32.gt_iff (hkey b (hlive b hb) a (hlive a ha))).not.mpr (not_lt_of_ge hle)
    · intro hit hhit b doc x hget hout hx
      obtain ⟨a, ha, rfl⟩ := List.mem_map.mp hhit
      rw [h.held.get, Except.ok.injEq] at hget
      have hbt : b ∈ t := Finmap.mem_iff.mpr ⟨doc, hget⟩
      rw [hids] at hout
      rw [metric.calculate_eq_score hmode (hdim b doc hget).symm, Except.ok.injEq,
        ← t.score_eq hget] at hx
      subst hx
      have hle := hbest.best a ha b ((h.vectorIds hix b).mpr hbt) hout
      exact (F32.gt_iff (hkey b hbt a (hlive a ha))).not.mpr (not_lt_of_ge hle)

theorem agrees_iff (h : Coherent c d t) (hix : c.vectorIndex = .flat ix) {key key' : F32 → Int}
    (hkey : ∀ a ∈ t, ∀ b ∈ t, Floats.partialCmp (ix.score t query a) (ix.score t query b) =
      some (compare (key (ix.score t query a)) (key (ix.score t query b))))
    (hkey' : ∀ a ∈ t, ∀ b ∈ t,
      Floats.partialCmp (t.score metric query mode a) (t.score metric query mode b) =
        some (compare (key' (t.score metric query mode a)) (key' (t.score metric query mode b)))) :
    ix.Agrees t query k metric mode ↔ Ranking.Agree (fun id => key (ix.score t query id))
      (fun id => key' (t.score metric query mode id)) ix.vectorIds k := by
  have houtranks : ∀ a ∈ ix.vectorIds, ∀ b ∈ ix.vectorIds, ix.Outranks t query a b ↔
      Ranking.Outranks (fun id => key (ix.score t query id)) ix.vectorIds a b := by
    intro a ha b hb
    have hat := (h.vectorIds hix a).mp ha
    have hbt := (h.vectorIds hix b).mp hb
    unfold FlatIndex.Outranks Ranking.Outranks
    rw [F32.gt_iff (hkey a hat b hbt), F32.gt_iff (hkey b hbt a hat), not_lt]
    constructor
    · rintro (hlt | ⟨hle, hidx⟩)
      · exact .inl hlt
      · exact (lt_or_eq_of_le hle).imp_right fun heq => ⟨heq, hidx⟩
    · rintro (hlt | ⟨heq, hidx⟩)
      · exact .inl hlt
      · exact .inr ⟨le_of_eq heq, hidx⟩
  have hcount : ∀ a ∈ ix.vectorIds,
      (ix.vectorIds.countP fun b => ix.Outranks t query b a) = ix.vectorIds.countP fun b =>
        Ranking.Outranks (fun id => key (ix.score t query id)) ix.vectorIds b a := by
    intro a ha
    refine List.countP_congr fun b hb => ?_
    simpa using houtranks b hb a ha
  unfold FlatIndex.Agrees Ranking.Agree
  refine forall_congr' fun a => forall_congr' fun ha => forall_congr' fun b => forall_congr' fun hb => ?_
  have hat := (h.vectorIds hix a).mp ha
  have hbt := (h.vectorIds hix b).mp hb
  rw [hcount a ha, houtranks a ha b hb, F32.gt_iff (hkey' b hbt a hat), not_lt]

/-- An index agrees with its own metric. -/
theorem agrees_own (h : Coherent c d t) (hix : c.vectorIndex = .flat ix)
    (hscored : t.Scored ix.config.metric query ix.config.mode) :
    ix.Agrees t query k ix.config.metric ix.config.mode := by
  obtain ⟨key, hkey⟩ := hscored
  replace hkey : ∀ a ∈ t, ∀ b ∈ t, Floats.partialCmp (ix.score t query a) (ix.score t query b) =
      some (compare (key (ix.score t query a)) (key (ix.score t query b))) :=
    fun a ha b hb => hkey _ _ ⟨a, ha, rfl⟩ ⟨b, hb, rfl⟩
  exact (h.agrees_iff hix hkey hkey).mpr (Ranking.agree_self _ _ _)

/-- The ids that a search of the index ranks first. -/
theorem search_eq (h : Coherent c d t) (hix : c.vectorIndex = .flat ix) (hfilter : params.filter = none)
    (hdim : ∀ id doc, t.lookup id = some doc → doc.vector.length = query.length)
    (hmode : ix.config.mode.Implemented) {key : F32 → Int}
    (hkey : ∀ a ∈ t, ∀ b ∈ t, Floats.partialCmp (ix.score t query a) (ix.score t query b) =
      some (compare (key (ix.score t query a)) (key (ix.score t query b)))) :
    c.search d order query k metric params =
      ((Ranking.rank (fun id => key (ix.score t query id)) ix.vectorIds).take k).mapM
        (c.hit d query metric (c.searchParams params).mode) := by
  have hvectors : ∀ id ∈ ix.vectorIds, ∃ doc, t.lookup id = some doc ∧
      (c.cache.reader order).get id = some doc.vector ∧ doc.vector.length = query.length := by
    intro id hid
    obtain ⟨doc, hdoc⟩ := Finmap.mem_iff.mp ((h.vectorIds hix id).mp hid)
    exact ⟨doc, hdoc, h.cached.mirrors.vectors id doc hdoc, hdim id doc hdoc⟩
  have hsearch : ix.search query k (c.cache.reader order) =
      .ok ((Ranking.rank (fun id => key (ix.score t query id)) ix.vectorIds).take k) :=
    FlatIndex.search_eq hvectors hmode fun a ha b hb =>
      hkey a ((h.vectorIds hix a).mp ha) b ((h.vectorIds hix b).mp hb)
  rw [c.search_of_no_filter hfilter, hix]
  change (ix.search query k (c.cache.reader order) >>= _) = _
  rw [hsearch]
  rfl

theorem search_empty (h : Coherent c d t) (hix : c.vectorIndex = .flat ix)
    (hfilter : params.filter = none) (hempty : t = ∅) :
    c.search d order query k metric params = .ok [] := by
  have hids : ix.vectorIds = [] := by
    refine List.eq_nil_iff_forall_not_mem.mpr fun id hid => ?_
    have hmem := (h.vectorIds hix id).mp hid
    rw [hempty] at hmem
    exact Finmap.notMem_empty hmem
  rw [c.search_of_no_filter hfilter, hix]
  change (ix.search query k (c.cache.reader order) >>= _) = _
  unfold FlatIndex.search
  rw [hids]
  change ((List.take k []).map Prod.fst).mapM _ = _
  rw [List.take_nil]
  rfl

theorem vectorIds_ne_nil (h : Coherent c d t) (hix : c.vectorIndex = .flat ix) (hsome : t ≠ ∅) :
    ix.vectorIds ≠ [] := by
  intro hids
  refine hsome (Finmap.ext_lookup fun id => ?_)
  rw [Finmap.lookup_empty, Finmap.lookup_eq_none, ← h.vectorIds hix id, hids]
  exact List.not_mem_nil

theorem not_search_gpu (h : Coherent c d t) (hix : c.vectorIndex = .flat ix)
    (hfilter : params.filter = none) (hsome : t ≠ ∅) (hmode : ¬ix.config.mode.Implemented)
    {hits : List Hit} : c.search d order query k metric params ≠ .ok hits := by
  intro hret
  rw [c.search_of_no_filter hfilter, hix, bind_eq_ok] at hret
  obtain ⟨ids, hids, -⟩ := hret
  exact FlatIndex.not_search_gpu hmode (h.vectorIds_ne_nil hix hsome) hids

end Coherent

/-- A search of a flat collection without a filter answers in the metric of the request
exactly if the collection is empty, or the modes are implemented and the two metrics
agree on the documents that the index ranks first. -/
theorem flat_search_answers_iff (h : Coherent c d t) (hix : c.vectorIndex = .flat ix)
    (hfilter : params.filter = none)
    (hdim : ∀ id doc, t.lookup id = some doc → doc.vector.length = query.length)
    (hindex : t.Scored ix.config.metric query ix.config.mode)
    (hrequest : t.Scored metric query (c.searchParams params).mode) :
    (∃ hits, c.search d order query k metric params = .ok hits ∧
      c.Answers d query k metric (c.searchParams params).mode hits) ↔
    t = ∅ ∨ ix.config.mode.Implemented ∧ (k = 0 ∨ (c.searchParams params).mode.Implemented ∧
      ix.Agrees t query k metric (c.searchParams params).mode) := by
  obtain ⟨key, hkey⟩ := hindex
  obtain ⟨key', hkey'⟩ := hrequest
  replace hkey : ∀ a ∈ t, ∀ b ∈ t, Floats.partialCmp (ix.score t query a) (ix.score t query b) =
      some (compare (key (ix.score t query a)) (key (ix.score t query b))) :=
    fun a ha b hb => hkey _ _ ⟨a, ha, rfl⟩ ⟨b, hb, rfl⟩
  replace hkey' := fun a ha b hb => hkey' _ _ ⟨a, ha, rfl⟩ ⟨b, hb, rfl⟩
  by_cases hempty : t = ∅
  · refine ⟨fun _ => .inl hempty, fun _ => ⟨[], h.search_empty hix hfilter hempty, ?_⟩⟩
    refine ⟨?_, by simp, by simp, by simp, by simp⟩
    unfold Collection.count
    rw [h.held.len, hempty]
    simp [HashMap.len]
  by_cases hindexMode : ix.config.mode.Implemented
  case neg =>
    refine ⟨fun hanswered => ?_, fun hcond => ?_⟩
    · obtain ⟨hits, hret, -⟩ := hanswered
      exact absurd hret (h.not_search_gpu hix hfilter hempty hindexMode)
    · exact absurd (hcond.resolve_left hempty).1 hindexMode
  rw [h.search_eq hix hfilter hdim hindexMode hkey]
  have hperm := Ranking.rank_perm (fun id => key (ix.score t query id)) ix.vectorIds
  generalize htop :
    (Ranking.rank (fun id => key (ix.score t query id)) ix.vectorIds).take k = top
  have hsub : ∀ id ∈ top, id ∈ ix.vectorIds := by
    rw [← htop]
    exact fun id hid => hperm.mem_iff.mp (List.mem_of_mem_take hid)
  have hlen : top.length = min k ix.vectorIds.length := by
    rw [← htop, List.length_take, hperm.length_eq]
  by_cases hk : k = 0
  · have hnil : top = [] := List.eq_nil_of_length_eq_zero (by rw [hlen, hk]; simp)
    rw [hnil]
    refine ⟨fun _ => .inr ⟨hindexMode, .inl hk⟩, fun _ => ⟨[], rfl, ?_⟩⟩
    exact ⟨by simp [hk], by simp, by simp, by simp, by simp⟩
  by_cases hmode : (c.searchParams params).mode.Implemented
  case neg =>
    refine ⟨fun hanswered => ?_, fun hcond => ?_⟩
    · obtain ⟨hits, hret, -⟩ := hanswered
      have hpos : 0 < top.length := by
        have := List.length_pos_of_ne_nil (h.vectorIds_ne_nil hix hempty)
        omega
      obtain ⟨hit, hhit⟩ := mapM_ok_of_mem hret (List.getElem_mem hpos)
      exact absurd hhit (h.not_hit_gpu hmode)
    · exact absurd ((hcond.resolve_left hempty).2.resolve_left hk).1 hmode
  have hhits : top.mapM (c.hit d query metric (c.searchParams params).mode) =
      .ok (top.map (t.hit metric query (c.searchParams params).mode)) := by
    refine mapM_eq_map fun id hid => ?_
    obtain ⟨doc, hdoc⟩ := Finmap.mem_iff.mp ((h.vectorIds hix id).mp (hsub id hid))
    exact h.hit_eq hmode hdoc (hdim id doc hdoc)
  have hnodup : top.Nodup := by
    rw [← htop]
    exact (hperm.nodup_iff.mpr (h.nodup_vectorIds hix)).sublist (List.take_sublist _ _)
  have hanswers := h.answers_iff hix hmode hdim hkey' hlen hnodup hsub
  rw [← htop, Ranking.bestBy_take_iff (h.nodup_vectorIds hix), htop,
    ← h.agrees_iff hix hkey hkey'] at hanswers
  rw [hhits]
  constructor
  · rintro ⟨hits, hret, hits_answer⟩
    cases hret
    exact .inr ⟨hindexMode, .inr ⟨hmode, hanswers.mp hits_answer⟩⟩
  · intro hcond
    exact ⟨_, rfl, hanswers.mpr ((hcond.resolve_left hempty).2.resolve_left hk).2⟩

end

/-! ## Two metrics that disagree -/

section

attribute [local instance] Reference.flat

open Reference

/-- Insertions of the numbers one and two. -/
def oneAndTwo : List SessionOp :=
  [.call (.insert (doc 0 1)), .call (.insert { doc 1 1 with vector := [two] })]

/-- They go into a flat collection that compares by the dot product. -/
def dotted : Io Nat (List Reply × Session) :=
  session "c" (config (.flat .dotProduct .auto) .unlimited 1000) oneAndTwo

def dottedIndex : FlatIndex := ⟨⟨.dotProduct, .auto⟩, [0, 1]⟩

def unfiltered : SearchParams := ⟨.auto, none, none, none⟩

/-- What a search for the number one finds. -/
def dottedScores (metric : Metric) (out : List Reply × Session) : Option (List (Uuid × F32)) :=
  (out.2.coll.search (dotted.final 0 Disk.empty) Bincode.idOrder [F32.one] 2 metric
    unfiltered).toOption.map (·.map fun hit => (hit.id, hit.score))

theorem dotted_returns :
    ∃ out, (dotted 0 Disk.empty).result = .ok out ∧ out.2.coll.vectorIndex = .flat dottedIndex ∧
      out.2.coll.config.execution = .auto ∧
      dottedScores .euclidean out = some [(1, half), (0, F32.one)] := by
  have hrun : (dotted 0 Disk.empty).result.toOption.map (fun out =>
      (match out.2.coll.vectorIndex with
        | .flat ix => some ix
        | _ => none, out.2.coll.config.execution, dottedScores .euclidean out)) =
      some (some dottedIndex, .auto, some [(1, half), (0, F32.one)]) := by
    decide +kernel
  cases hout : (dotted 0 Disk.empty).result with
  | error e =>
      rw [hout] at hrun
      cases hrun
  | ok out =>
      rw [hout] at hrun
      simp only [Except.toOption, Option.map_some, Option.some.injEq, Prod.mk.injEq] at hrun
      obtain ⟨hflat, hexecution, hscores⟩ := hrun
      refine ⟨out, rfl, ?_, hexecution, hscores⟩
      split at hflat
      · rename_i ix hix
        cases hflat
        exact hix
      · cases hflat

theorem mem_oneAndTwo {id : Uuid} (h : id ∈ Table.run ∅ oneAndTwo) : id = 0 ∨ id = 1 := by
  have hkeys : (Table.run ∅ oneAndTwo).keys = {0, 1} := by decide +kernel
  rw [← Finmap.mem_keys, hkeys, Finset.mem_insert, Finset.mem_singleton] at h
  exact h

theorem dotted_dim (id : Uuid) (doc : Document) (h : (Table.run ∅ oneAndTwo).lookup id = some doc) :
    doc.vector.length = [F32.one].length := by
  have hlen : ((Table.run ∅ oneAndTwo).lookup id).map (·.vector.length) = some 1 := by
    rcases mem_oneAndTwo (Finmap.mem_iff.mpr ⟨doc, h⟩) with rfl | rfl
    · decide +kernel
    · decide +kernel
  rw [h] at hlen
  exact Option.some.inj hlen

theorem dotted_scored : (Table.run ∅ oneAndTwo).Scored .dotProduct [F32.one] .auto := by
  refine ⟨magnitude, ?_⟩
  rintro x y ⟨a, ha, rfl⟩ ⟨b, hb, rfl⟩
  rcases mem_oneAndTwo ha with rfl | rfl
  · rcases mem_oneAndTwo hb with rfl | rfl
    · decide +kernel
    · decide +kernel
  · rcases mem_oneAndTwo hb with rfl | rfl
    · decide +kernel
    · decide +kernel

/-- Its own metric is answered. -/
theorem dot_product_answered :
    ∃ out, (dotted 0 Disk.empty).result = .ok out ∧
      let c := out.2.coll
      let d := dotted.final 0 Disk.empty
      ∃ hits, c.search d Bincode.idOrder [F32.one] 2 .dotProduct unfiltered = .ok hits ∧
        c.Answers d [F32.one] 2 .dotProduct (c.searchParams unfiltered).mode hits := by
  obtain ⟨out, hrun, hflat, hexecution, -⟩ := dotted_returns
  have hfits : Table.Fits ∅ oneAndTwo := by
    refine ⟨?_, ?_, trivial⟩
    all_goals decide +kernel
  have h : Coherent out.2.coll (dotted.final 0 Disk.empty) (Table.run ∅ oneAndTwo) :=
    (Prog.ensures_ok (ensures_session hfits 0) hrun).1
  have hmode : (out.2.coll.searchParams unfiltered).mode = .auto := hexecution
  have hfilter : unfiltered.filter = none := rfl
  refine ⟨out, hrun, (flat_search_answers_iff h hflat hfilter dotted_dim dotted_scored
    (hmode ▸ dotted_scored)).mpr (.inr ⟨?_, .inr ⟨?_, ?_⟩⟩)⟩
  · decide
  · rw [hmode]
    decide
  · rw [hmode]
    exact h.agrees_own hflat dotted_scored

/-- The Euclidean metric is not: the number two comes first, with half the score. -/
theorem euclidean_not_answered :
    ∃ out, (dotted 0 Disk.empty).result = .ok out ∧
      let c := out.2.coll
      let d := dotted.final 0 Disk.empty
      c.vectorIndex.indexType = .flat ∧ dottedScores .euclidean out = some [(1, half), (0, F32.one)] ∧
      ¬∃ hits, c.search d Bincode.idOrder [F32.one] 2 .euclidean unfiltered = .ok hits ∧
        c.Answers d [F32.one] 2 .euclidean (c.searchParams unfiltered).mode hits := by
  obtain ⟨out, hrun, hflat, -, hscores⟩ := dotted_returns
  refine ⟨out, hrun, ?_, hscores, ?_⟩
  · rw [hflat]
    rfl
  rintro ⟨hits, hret, hanswers⟩
  unfold dottedScores at hscores
  rw [hret] at hscores
  have hpairs : hits.map (fun hit => (hit.id, hit.score)) = [(1, half), (0, F32.one)] :=
    Option.some.inj hscores
  have hsorted : (hits.map fun hit => (hit.id, hit.score)).Pairwise fun a b => ¬F32.gt b.2 a.2 :=
    List.pairwise_map.mpr hanswers.sorted
  rw [hpairs] at hsorted
  revert hsorted
  decide

end
