-- SUMMARY: What the hits of a search are: distinct live documents with their own data and scores, and in which order.
import Piramid.Collections.Answers
import Piramid.Collections.Dimension
import Piramid.Index.Distinct

/-!
# Hits

The index chooses the ids, the record store has the documents. With a filter the hits
are filtered once more and sorted, by a comparison that takes a NaN to be equal to
everything.
-/

open Loop

section

variable [Env] {c : Collection} {d : Disk} {t : Table} {query : Vector32} {k : Nat} {metric : Metric}
  {mode : ExecutionMode} {filter : Option (Metadata → Bool)} {hits : List Hit}

namespace Collection

/-- A hit for a live document, with the document's own data. -/
structure Reports (c : Collection) (d : Disk) (query : Vector32) (metric : Metric)
    (mode : ExecutionMode) (hit : Hit) (doc : Document) : Prop where
  live : c.get d hit.id = .ok (some doc)
  text : hit.text = doc.text
  vector : hit.vector = doc.vector
  metadata : hit.metadata = doc.metadata
  score : metric.calculate query doc.vector mode = .ok hit.score

/-- At most `k` hits for different live documents that pass the filter. -/
structure Sound (c : Collection) (d : Disk) (query : Vector32) (k : Nat) (metric : Metric)
    (mode : ExecutionMode) (filter : Option (Metadata → Bool)) (hits : List Hit) : Prop where
  length : hits.length ≤ k
  distinct : (hits.map Hit.id).Nodup
  tracked : ∀ hit ∈ hits, hit.id ∈ c.vectorIndex.trackedIds
  reports : ∀ hit ∈ hits, ∃ doc, c.Reports d query metric mode hit doc
  passes : ∀ f, filter = some f → ∀ hit ∈ hits, f hit.metadata

/-- The scores of the documents that pass the filter compare as numbers do. -/
def Numbered (c : Collection) (d : Disk) (query : Vector32) (metric : Metric) (mode : ExecutionMode)
    (f : Metadata → Bool) : Prop :=
  F32.Ordered fun x => ∃ id doc, c.get d id = .ok (some doc) ∧ f doc.metadata ∧
    metric.calculate query doc.vector mode = .ok x

/-- No hit has a higher score than one before it. -/
def Descends (hits : List Hit) : Prop := hits.Pairwise fun a b => ¬F32.lt a.score b.score

/-! ## From ids to hits -/

theorem reports_of_hit {id : Uuid} {hit : Hit}
    (hret : c.hit d query metric mode id = .ok hit) :
    hit.id = id ∧ ∃ doc, c.Reports d query metric mode hit doc := by
  unfold Collection.hit at hret
  obtain ⟨found, hfound, hret⟩ := bind_eq_ok.mp hret
  cases found with
  | none => cases hret
  | some doc =>
      obtain ⟨vector, hvector, hret⟩ := bind_eq_ok.mp hret
      obtain ⟨score, hscore, hret⟩ := bind_eq_ok.mp hret
      cases hvector
      cases hret
      exact ⟨rfl, doc, hfound, rfl, rfl, rfl, hscore⟩

theorem reports_of_hits {ids : List Uuid} (hret : ids.mapM (c.hit d query metric mode) = .ok hits) :
    ∀ hit ∈ hits, ∃ doc, c.Reports d query metric mode hit doc := by
  intro hit hhit
  obtain ⟨id, -, hid⟩ := (mapM_eq_ok hret).2 hit hhit
  exact (reports_of_hit hid).2

/-- The hits for distinct ids. -/
theorem Sound.of_ids {ids : List Uuid} (hnodup : ids.Nodup) (hlen : ids.length ≤ k)
    (htracked : ∀ id ∈ ids, id ∈ c.vectorIndex.trackedIds)
    (hret : ids.mapM (c.hit d query metric mode) = .ok hits) :
    c.Sound d query k metric mode none hits := by
  have hids : hits.map Hit.id = ids := by
    clear hnodup hlen htracked
    induction ids generalizing hits with
    | nil =>
        cases hret
        rfl
    | cons id ids ih =>
        rw [List.mapM_cons] at hret
        obtain ⟨hit, hhit, hret⟩ := bind_eq_ok.mp hret
        obtain ⟨rest, hrest, hret⟩ := bind_eq_ok.mp hret
        cases hret
        rw [List.map_cons, (reports_of_hit hhit).1, ih hrest]
  refine ⟨?_, hids.symm ▸ hnodup, fun hit hhit => ?_, reports_of_hits hret, fun f hf => by cases hf⟩
  · rw [← hids, List.length_map] at hlen
    exact hlen
  · exact htracked hit.id (hids ▸ List.mem_map_of_mem hhit)

omit [Env] in
theorem sortAndTruncate_sub [Floats] {results best : List Hit}
    (h : sortAndTruncate results k = .ok best) : best.Subperm results ∧ best.length ≤ k := by
  obtain ⟨sorted, hsorted, h⟩ := bind_eq_ok.mp h
  cases h
  exact ⟨(List.take_sublist k _).subperm.trans (sortBy_perm hsorted).subperm, List.length_take_le k _⟩

/-- Filtering and sorting the hits. -/
theorem Sound.filtered {n : Nat} {best : List Hit} (h : c.Sound d query n metric mode none hits)
    (f : Metadata → Bool) (hret : sortAndTruncate (hits.filter fun hit => f hit.metadata) k = .ok best) :
    c.Sound d query k metric mode (some f) best := by
  obtain ⟨hsub, hlen⟩ := sortAndTruncate_sub hret
  have hmem : ∀ hit ∈ best, hit ∈ hits ∧ f hit.metadata :=
    fun hit hhit => List.mem_filter.mp (hsub.subset hhit)
  refine ⟨hlen, ?_, ?_, ?_, ?_⟩
  · obtain ⟨kept, hperm, hsub⟩ := hsub
    have hkept : (kept.map Hit.id).Nodup :=
      h.distinct.sublist ((hsub.trans List.filter_sublist).map Hit.id)
    exact (hperm.map Hit.id).nodup_iff.mp hkept
  · exact fun hit hhit => h.tracked hit (hmem hit hhit).1
  · exact fun hit hhit => h.reports hit (hmem hit hhit).1
  · intro f' hf' hit hhit
    cases hf'
    exact (hmem hit hhit).2

/-- Hits for documents that pass. -/
theorem scored_of_reports (hreports : ∀ hit ∈ hits, ∃ doc, c.Reports d query metric mode hit doc)
    {f : Metadata → Bool} {hit : Hit} (hhit : hit ∈ hits.filter fun hit => f hit.metadata) :
    ∃ id doc, c.get d id = .ok (some doc) ∧ f doc.metadata ∧
      metric.calculate query doc.vector mode = .ok hit.score := by
  obtain ⟨hmem, hf⟩ := List.mem_filter.mp hhit
  obtain ⟨doc, hdoc⟩ := hreports hit hmem
  exact ⟨hit.id, doc, hdoc.live, hdoc.metadata ▸ hf, hdoc.score⟩

/-- Scores that compare as numbers do are sorted. -/
theorem descends_sortAndTruncate {best : List Hit} {f : Metadata → Bool}
    (hnumbered : c.Numbered d query metric mode f)
    (hreports : ∀ hit ∈ hits, ∃ doc, c.Reports d query metric mode hit doc)
    (hret : sortAndTruncate (hits.filter fun hit => f hit.metadata) k = .ok best) : Descends best := by
  obtain ⟨key, hkey⟩ := hnumbered
  have hcompare : ∀ a ∈ hits.filter (fun hit => f hit.metadata),
      ∀ b ∈ hits.filter (fun hit => f hit.metadata),
        Floats.partialCmp a.score b.score = some (compare (key a.score) (key b.score)) :=
    fun a ha b hb => hkey _ _ (scored_of_reports hreports ha) (scored_of_reports hreports hb)
  have hcmp : ∀ a ∈ hits.filter (fun hit => f hit.metadata),
      ∀ b ∈ hits.filter (fun hit => f hit.metadata),
        SortOrder.descending.cmp a.score b.score =
          compare (OrderDual.toDual (key a.score)) (OrderDual.toDual (key b.score)) := by
    intro a ha b hb
    change F32.cmp b.score a.score = _
    rw [F32.cmp, hcompare b hb a ha]
    rfl
  have hmem : ∀ a ∈ best, a ∈ hits.filter (fun hit => f hit.metadata) :=
    fun a ha => (sortAndTruncate_sub hret).1.subset ha
  obtain ⟨sorted, hsort, hret⟩ := bind_eq_ok.mp hret
  cases hret
  have hsorted := sortBy_sorted hcmp hsort
  refine (hsorted.sublist (List.take_sublist k _)).imp_of_mem fun {a b} ha hb hle => ?_
  unfold F32.lt
  rw [hcompare a (hmem a ha) b (hmem b hb), decide_eq_true_iff, Option.some.injEq, compare_lt_iff_lt]
  exact not_lt.mpr hle

/-- Scores that compare as numbers do can be sorted. -/
theorem sortsHits_of_numbered {params : SearchParams}
    (h : ∀ f, params.filter = some f → c.Numbered d query metric params.mode f) :
    c.SortsHits d query metric params := by
  intro f hf ids _ results hresults
  exact (h f hf).sorts _ (List.forall_mem_map.mpr fun _ => scored_of_reports (reports_of_hits hresults))

end Collection

/-! ## Every search -/

variable {params : SearchParams} {order : HashOrder Uuid}

/-- A search of a coherent collection, in modes that are implemented and for a query of the
length of its vectors, returns sound hits if it can sort by the scores. With a filter they come
in the order of their scores, if these compare as numbers do. -/
theorem Coherent.search_sound (h : Coherent c d t) (hshaped : c.Shaped query.length)
    (hindex : c.vectorIndex.mode.Implemented) (hrequest : (c.searchParams params).mode.Implemented)
    (hbuilt : c.vectorIndex.indexType = .ivf → c.vectorIndex.centroids ≠ [])
    (hsorts : c.Sorts order query) (hhits : c.SortsHits d query metric (c.searchParams params)) :
    ∃ hits, c.search d order query k metric params = .ok hits ∧
      c.Sound d query k metric (c.searchParams params).mode params.filter hits ∧
      ∀ f, params.filter = some f → c.Numbered d query metric (c.searchParams params).mode f →
        Collection.Descends hits := by
  have hreturns : ∃ hits, c.search d order query k metric params = .ok hits := by
    by_cases hidle : c.vectorIndex.Idle
    · have htype : c.vectorIndex.indexType ≠ .ivf := by
        exact fun hivf => hbuilt hivf hidle.centroids
      unfold Collection.search Collection.searchCollection
      simp only [VectorIndex.returns_idle hidle htype]
      cases (c.searchParams params).filter with
      | none => exact ⟨_, rfl⟩
      | some f => exact ⟨_, Collection.sortAndTruncate_nil k⟩
    · exact h.returns_search hidle (h.takes hshaped hindex) hsorts hhits hrequest
  obtain ⟨hits, hret⟩ := hreturns
  refine ⟨hits, hret, ?_⟩
  unfold Collection.search Collection.searchCollection at hret
  obtain ⟨ids, hids, hret⟩ := bind_eq_ok.mp hret
  obtain ⟨results, hresults, hret⟩ := bind_eq_ok.mp hret
  obtain ⟨hnodup, hlen⟩ := VectorIndex.nodup_search h.cached.intact hids
  have htracked := VectorIndex.search_tracked h.cached.intact hids
  have hsound := Collection.Sound.of_ids hnodup hlen htracked hresults
  have hfilter : (c.searchParams params).filter = params.filter := rfl
  rw [hfilter] at hret
  cases hf : params.filter with
  | none =>
      rw [hf] at hret
      cases hret
      have hk : Collection.searchK k (c.searchParams params)
          ((c.searchParams params).searchConfigOverride.getD c.config.search) = k := by
        unfold Collection.searchK
        simp only [hfilter, hf, Option.isSome_none, Bool.false_eq_true, if_false]
      rw [hk] at hsound
      refine ⟨hsound, ?_⟩
      intro f hf
      cases hf
  | some f =>
      rw [hf] at hret
      refine ⟨hsound.filtered f hret, ?_⟩
      intro f' hf' hnumbered
      cases hf'
      exact Collection.descends_sortAndTruncate hnumbered hsound.reports hret

/-- If the scores of all documents compare as numbers do, then so do those of the ones that
pass a filter. -/
theorem Coherent.numbered (h : Coherent c d t) (hscored : t.Scored metric query mode)
    (f : Metadata → Bool) : c.Numbered d query metric mode f := by
  have hscore : ∀ x, (∃ id doc, c.get d id = .ok (some doc) ∧ f doc.metadata ∧
      metric.calculate query doc.vector mode = .ok x) → ∃ id ∈ t, x = t.score metric query mode id := by
    rintro x ⟨id, doc, hget, -, hx⟩
    rw [h.held.get] at hget
    have hdoc : t.lookup id = some doc := Except.ok.inj hget
    refine ⟨id, Finmap.mem_iff.mpr ⟨doc, hdoc⟩, ?_⟩
    rw [t.score_eq hdoc]
    unfold Metric.score
    rw [hx]
    rfl
  obtain ⟨key, hkey⟩ := hscored
  exact ⟨key, fun x y hx hy => hkey x y (hscore x hx) (hscore y hy)⟩

/-- The vectors of an index that is no graph are those of the documents. -/
theorem Coherent.shaped (h : Coherent c d t) (htype : c.vectorIndex.indexType = .flat) {dim : Nat}
    (hdim : ∀ id doc, t.lookup id = some doc → doc.vector.length = dim) : c.Shaped dim := by
  constructor
  · intro id v hv
    have hid : id ∈ t.keys := by
      refine h.cached.only ?_ ((HashMap.mem_keys_iff _ _).mpr ⟨v, hv⟩)
      rw [htype]
      exact nofun
    obtain ⟨doc, hdoc⟩ := (HashMap.mem_keys_iff t id).mp hid
    have hsame := h.cached.mirrors.vectors id doc hdoc
    rw [hv] at hsame
    rw [Option.some.inj hsame]
    exact hdim id doc hdoc
  · intro v hv
    cases hix : c.vectorIndex with
    | flat ix =>
        rw [hix] at hv
        cases hv
    | hnsw ix =>
        rw [hix] at htype
        cases htype
    | ivf ix =>
        rw [hix] at htype
        cases htype

end

section

attribute [local instance] Reference.flat

open Reference

/-- Every document passes. -/
def passing : SearchParams := ⟨.auto, some fun _ => true, none, none⟩

/-- Two documents that the dot product scores one and two. -/
theorem dotted_search_sound :
    ∃ out, (dotted 0 Disk.empty).result = .ok out ∧
      let c := out.2.coll
      let d := dotted.final 0 Disk.empty
      ∃ hits, c.search d Bincode.idOrder [F32.one] 2 .dotProduct passing = .ok hits ∧
        c.Sound d [F32.one] 2 .dotProduct .auto passing.filter hits ∧ Collection.Descends hits := by
  obtain ⟨out, hrun, hflat, hexecution, -⟩ := dotted_returns
  have hfits : Table.Fits ∅ oneAndTwo := by
    refine ⟨?_, ?_, trivial⟩
    all_goals decide +kernel
  have h : Coherent out.2.coll (dotted.final 0 Disk.empty) (Table.run ∅ oneAndTwo) :=
    (Prog.ensures_ok (ensures_session hfits 0) hrun).1
  have htype : out.2.coll.vectorIndex.indexType = .flat := by
    rw [hflat]
    rfl
  have hindex : out.2.coll.vectorIndex.mode.Implemented := by
    rw [hflat]
    decide
  have hmode : (out.2.coll.searchParams passing).mode = .auto := hexecution
  have hrequest : (out.2.coll.searchParams passing).mode.Implemented := by
    rw [hmode]
    decide
  have hbuilt : out.2.coll.vectorIndex.indexType = .ivf → out.2.coll.vectorIndex.centroids ≠ [] := by
    intro hivf
    rw [htype] at hivf
    cases hivf
  have hsorts : out.2.coll.Sorts Bincode.idOrder [F32.one] := by
    refine .inr ?_
    rw [hflat]
    exact VectorReader.sortsScores_of_few (by decide)
  have hsearch : ∃ hits, out.2.coll.search (dotted.final 0 Disk.empty) Bincode.idOrder [F32.one] 2
        .dotProduct passing = .ok hits ∧
      out.2.coll.Sound (dotted.final 0 Disk.empty) [F32.one] 2 .dotProduct
        (out.2.coll.searchParams passing).mode passing.filter hits ∧
      ∀ f, passing.filter = some f → out.2.coll.Numbered (dotted.final 0 Disk.empty) [F32.one]
        .dotProduct (out.2.coll.searchParams passing).mode f → Collection.Descends hits :=
    Coherent.search_sound h (h.shaped htype dotted_dim) hindex hrequest hbuilt hsorts
      (Collection.sortsHits_of_numbered fun f _ => hmode ▸ h.numbered dotted_scored f)
  obtain ⟨hits, hret, hsound, hdescends⟩ := hsearch
  rw [hmode] at hsound hdescends
  exact ⟨out, hrun, hits, hret, hsound, hdescends _ rfl (h.numbered dotted_scored _)⟩

end

/-! ## A mode without kernels, and a score that is no number -/

section

open Reference

/-- The largest finite number. -/
def largest : F32 := 0x7f7fffff#32

def nan : F32 := 0x7fc00000#32

/-- The query of the searches below. -/
def spread : Vector32 := [two, neg two]

/-- The sums overflow in both directions. -/
@[reducible] def overflowing : Env :=
  { flat with
    dotKernel := fun _ v w => tabulated [((spread, [F32.one, half]), F32.one),
      ((spread, [largest, largest]), nan), ((spread, [F32.one, F32.zero]), two)] (v, w) }

instance lawfulOverflowing : @LawfulEnv overflowing :=
  letI := overflowing
  have h := lawfulEnv fun _ => half
  { document := h.document
    offsetIndex := h.offsetIndex
    vectorIndex := h.vectorIndex
    collectionMetadata := h.collectionMetadata
    walHeader := h.walHeader
    walMeta := h.walMeta
    header_line := h.header_line
    entry_line := h.entry_line
    header_ne_nil := h.header_ne_nil
    entry_ne_nil := h.entry_ne_nil
    header_rejects_entry := h.header_rejects_entry }

attribute [local instance] overflowing

/-- Documents that score one, no number, and two. -/
def unordered : List SessionOp :=
  [.call (.insert { doc 0 2 with vector := [F32.one, half] }),
    .call (.insert { doc 1 2 with vector := [largest, largest] }),
    .call (.insert { doc 2 2 with vector := [F32.one, F32.zero] })]

/-- They go into a flat collection. -/
def unorderedIn (mode : ExecutionMode) : Io Nat (List Reply × Session) :=
  session "c" (config (.flat .dotProduct mode) .unlimited 1000) unordered

theorem mem_unordered {id : Uuid} (h : id ∈ Table.run ∅ unordered) : id = 0 ∨ id = 1 ∨ id = 2 := by
  have hkeys : (Table.run ∅ unordered).keys = {0, 1, 2} := by decide +kernel
  rw [← Finmap.mem_keys, hkeys, Finset.mem_insert, Finset.mem_insert, Finset.mem_singleton] at h
  exact h

theorem unordered_dim (id : Uuid) (doc : Document)
    (h : (Table.run ∅ unordered).lookup id = some doc) : doc.vector.length = spread.length := by
  have hlen : ((Table.run ∅ unordered).lookup id).map (·.vector.length) = some 2 := by
    rcases mem_unordered (Finmap.mem_iff.mpr ⟨doc, h⟩) with rfl | rfl | rfl
    · decide +kernel
    · decide +kernel
    · decide +kernel
  rw [h] at hlen
  exact Option.some.inj hlen

theorem fits_unordered : Table.Fits ∅ unordered := by
  refine ⟨?_, ?_, ?_, trivial⟩
  all_goals decide +kernel

/-- A session that puts the documents into a flat collection. -/
theorem unordered_coherent {mode : ExecutionMode} {out : List Reply × Session}
    (hret : (unorderedIn mode 0 Disk.empty).result = .ok out)
    (htype : out.2.coll.vectorIndex.indexType = .flat) :
    Coherent out.2.coll ((unorderedIn mode).final 0 Disk.empty) (Table.run ∅ unordered) ∧
      out.2.coll.Shaped spread.length := by
  have h : Coherent out.2.coll ((unorderedIn mode).final 0 Disk.empty) (Table.run ∅ unordered) :=
    (Prog.ensures_ok (ensures_session fits_unordered 0) hret).1
  exact ⟨h, h.shaped htype unordered_dim⟩

/-- What a search with a filter that every document passes finds. -/
def passingScores (mode : ExecutionMode) (out : List Reply × Session) : Option (List F32) :=
  (out.2.coll.search ((unorderedIn mode).final 0 Disk.empty) Bincode.idOrder spread 3 .dotProduct
    passing).toOption.map (·.map Hit.score)

/-- A flat collection in the mode for the GPU cannot be searched at all. In another mode the
document whose score is no number stays between two that are in the wrong order. -/
theorem search_not_sound :
    (∃ out, (unorderedIn .gpu 0 Disk.empty).result = .ok out ∧
      Coherent out.2.coll ((unorderedIn .gpu).final 0 Disk.empty) (Table.run ∅ unordered) ∧
      out.2.coll.Shaped spread.length ∧
      ∀ hits, out.2.coll.search ((unorderedIn .gpu).final 0 Disk.empty) Bincode.idOrder spread 3
        .dotProduct passing ≠ .ok hits) ∧
    ∃ out, (unorderedIn .auto 0 Disk.empty).result = .ok out ∧
      Coherent out.2.coll ((unorderedIn .auto).final 0 Disk.empty) (Table.run ∅ unordered) ∧
      out.2.coll.Shaped spread.length ∧ out.2.coll.vectorIndex.mode.Implemented ∧
      (out.2.coll.searchParams passing).mode.Implemented ∧
      ∃ hits, out.2.coll.search ((unorderedIn .auto).final 0 Disk.empty) Bincode.idOrder spread 3
          .dotProduct passing = .ok hits ∧
        hits.map Hit.score = [F32.one, nan, two] ∧ ¬Collection.Descends hits := by
  have hgpu : (unorderedIn .gpu 0 Disk.empty).result.toOption.map (fun out =>
      (decide (out.2.coll.vectorIndex.indexType = .flat), passingScores .gpu out)) =
      some (true, none) := by
    decide +kernel
  have hauto : (unorderedIn .auto 0 Disk.empty).result.toOption.map (fun out =>
      (decide (out.2.coll.vectorIndex.indexType = .flat),
        decide out.2.coll.vectorIndex.mode.Implemented,
        decide (out.2.coll.searchParams passing).mode.Implemented, passingScores .auto out)) =
      some (true, true, true, some [F32.one, nan, two]) := by
    decide +kernel
  obtain ⟨gpu, hgpuRet, hgpu⟩ := ok_of_map hgpu
  obtain ⟨auto, hautoRet, hauto⟩ := ok_of_map hauto
  simp only [Prod.mk.injEq, decide_eq_true_eq] at hgpu hauto
  obtain ⟨hgpuType, hpanics⟩ := hgpu
  obtain ⟨hautoType, hindex, hrequest, hscores⟩ := hauto
  obtain ⟨hgpuCoherent, hgpuShaped⟩ := unordered_coherent hgpuRet hgpuType
  obtain ⟨hautoCoherent, hautoShaped⟩ := unordered_coherent hautoRet hautoType
  refine ⟨⟨gpu, hgpuRet, hgpuCoherent, hgpuShaped, ?_⟩,
    ⟨auto, hautoRet, hautoCoherent, hautoShaped, hindex, hrequest, ?_⟩⟩
  · intro hits hret
    unfold passingScores at hpanics
    rw [hret] at hpanics
    cases hpanics
  · obtain ⟨hits, hret, hhits⟩ := ok_of_map hscores
    refine ⟨hits, hret, hhits, fun hdescends => ?_⟩
    have hpairs : (hits.map Hit.score).Pairwise fun a b => ¬F32.lt a b :=
      List.pairwise_map.mpr hdescends
    rw [hhits] at hpairs
    revert hpairs
    decide

end
