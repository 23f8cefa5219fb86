-- SUMMARY: Which pairs of similar documents a flat collection leaves out when it is asked for all neighbours.
import Piramid.Collections.Answers
import Piramid.Collections.Duplicates
import Piramid.Index.Dimension
import Piramid.Index.Distinct

/-!
# All pairs

The number of neighbours is at most one less than the number of documents, and an id is
one of its own neighbours. The ranking for its vector is cut before the last id, so that a
pair is missed if each of the two is last in the ranking for the other.
-/

open Loop Prog

section

variable [Floats]

/-- Two vectors are compared in a mode that is implemented, and if they have one length. -/
theorem Metric.calculate_isOk_iff (metric : Metric) {a b : Vector32} {mode : ExecutionMode} :
    (∃ x, metric.calculate a b mode = .ok x) ↔ mode.Implemented ∧ a.length = b.length := by
  constructor
  · rintro ⟨x, hx⟩
    by_contra hnot
    have hor : ¬mode.Implemented ∨ a.length ≠ b.length := by
      rwa [ne_eq, ← not_and_or]
    obtain ⟨msg, hpanic⟩ := metric.calculate_panics hor
    rw [hpanic] at hx
    cases hx
  · rintro ⟨hmode, hlen⟩
    exact metric.calculate_ok hmode hlen

/-! ## The last of a ranking -/

namespace FlatIndex

variable {ix : FlatIndex} {query : Vector32} {k : Nat} {vectors : VectorReader} {ids ranked : List Uuid}
  {a b : Uuid}

/-- A search cuts the ranking of all ids. -/
theorem search_eq_take (h : ix.search query k vectors = .ok ids) :
    ∃ ranked, ix.search query ix.vectorIds.length vectors = .ok ranked ∧ ranked.Perm ix.vectorIds ∧
      ids = ranked.take k := by
  obtain ⟨scored, hscored, hret⟩ := bind_eq_ok.mp h
  obtain ⟨sorted, hsorted, hret⟩ := bind_eq_ok.mp hret
  cases hret
  have hperm : (sorted.map Prod.fst).Perm ix.vectorIds := by
    rw [← VectorReader.fst_of_scores hscored]
    exact (sortBy_perm hsorted).map Prod.fst
  have hlen : sorted.length ≤ ix.vectorIds.length := by
    rw [← hperm.length_eq, List.length_map]
  refine ⟨sorted.map Prod.fst, ?_, hperm, List.map_take⟩
  unfold search
  rw [hscored]
  change (sortByScore scored >>= _) = _
  rw [hsorted]
  change Except.ok ((sorted.take ix.vectorIds.length).map Prod.fst) = _
  rw [List.take_of_length_le hlen]

/-- The ranking for the vector of `a` ends with `b`. -/
def RanksLast (ix : FlatIndex) (vectors : VectorReader) (a b : Uuid) : Prop :=
  ∃ va ranked, vectors.get a = some va ∧ ix.search va ix.vectorIds.length vectors = .ok ranked ∧
    ranked.getLast? = some b

/-- What a search returns for one less than all ids. -/
theorem mem_search_iff (hnodup : ix.vectorIds.Nodup) {va : Vector32} (ha : vectors.get a = some va)
    (h : ix.search va (ix.vectorIds.length - 1) vectors = .ok ids) :
    b ∈ ids ↔ b ∈ ix.vectorIds ∧ ¬ix.RanksLast vectors a b := by
  obtain ⟨ranked, hall, hperm, rfl⟩ := search_eq_take h
  have hlast : ix.RanksLast vectors a b ↔ ranked.getLast? = some b := by
    constructor
    · rintro ⟨va', ranked', hva', hall', hb⟩
      rw [ha] at hva'
      cases hva'
      rw [hall] at hall'
      cases hall'
      exact hb
    · intro hb
      exact ⟨va, ranked, ha, hall, hb⟩
  rw [hlast, ← hperm.mem_iff, ← hperm.length_eq, ← List.dropLast_eq_take]
  have hranked : ranked.Nodup := hperm.nodup_iff.mpr hnodup
  rcases List.eq_nil_or_concat ranked with rfl | ⟨front, last, rfl⟩
  · simp
  · rw [List.concat_eq_append] at hranked ⊢
    rw [List.dropLast_concat, List.getLast?_concat, Option.some.injEq, List.mem_append, List.mem_singleton]
    obtain ⟨-, -, hdisjoint⟩ := List.nodup_append'.mp hranked
    have hout : last ∉ front := List.disjoint_singleton.mp hdisjoint
    constructor
    · intro hb
      refine ⟨.inl hb, fun heq => hout ?_⟩
      rw [heq]
      exact hb
    · rintro ⟨hb | hb, hne⟩
      · exact hb
      · exact absurd hb.symm hne

/-- A search compares the vector with that of every id, and sorts all the scores. -/
theorem search_isOk_iff (hvectors : ∀ id ∈ ix.vectorIds, (vectors.get id).isSome) :
    (∃ ids, ix.search query k vectors = .ok ids) ↔
      (∀ id ∈ ix.vectorIds, ∀ v, vectors.get id = some v →
        ix.config.mode.Implemented ∧ query.length = v.length) ∧ ix.SortsScores vectors query := by
  constructor
  · rintro ⟨ids, h⟩
    refine ⟨fun id hid v hv => ?_, sortsScores_of_search h⟩
    obtain ⟨scored, hscored, -⟩ := bind_eq_ok.mp h
    obtain ⟨entry, hentry⟩ := mapM_ok_of_mem hscored hid
    obtain ⟨v', hv', hx⟩ := VectorReader.scores_of_score hentry
    rw [VectorReader.fst_of_score hentry, hv] at hv'
    cases hv'
    exact ix.config.metric.calculate_isOk_iff.mp ⟨_, hx⟩
  · rintro ⟨h, hsorts⟩
    have hscores : ∀ id ∈ ix.vectorIds,
        Returns (fun _ => True) (vectors.score "Flat" ix.config.metric ix.config.mode query id) := by
      intro id hid
      obtain ⟨v, hv⟩ := Option.isSome_iff_exists.mp (hvectors id hid)
      obtain ⟨hmode, hlen⟩ := h id hid v hv
      obtain ⟨x, hx⟩ := ix.config.metric.calculate_ok hmode hlen
      unfold VectorReader.score
      rw [hv]
      simp only [hx]
      exact .ok trivial
    obtain ⟨scored, hscored, -⟩ := mapM_returns hscores
    obtain ⟨sorted, hsorted⟩ := sortBy_returns_iff.mpr (hsorts scored hscored)
    unfold search sortByScore
    rw [hscored]
    change ∃ ids, (sortBy .descending Prod.snd scored >>= _) = .ok ids
    rw [hsorted]
    exact ⟨_, rfl⟩

end FlatIndex

end

/-! ## Reports on a flat index -/

section

variable [Env] {c : Collection} {d : Disk} {t : Table} {order : HashOrder Uuid} {q : DuplicateQuery}
  {ix : FlatIndex} {hits : List DuplicateHit} {k : Nat}

omit [Env] in
theorem DuplicateQuery.neighborK_all {n : Nat} (hk : q.kOverride = some k) (hmany : 2 ≤ n) (hall : n ≤ k) :
    q.neighborK n = n - 1 := by
  unfold neighborK
  rw [hk]
  simp only [Option.some_or, Option.getD_some]
  omega

namespace Collection

/-- Every pair of documents that scores high enough is reported. -/
def Complete (c : Collection) (q : DuplicateQuery) (t : Table) (hits : List DuplicateHit) : Prop :=
  ∀ a b docA docB score, a < b → t.lookup a = some docA → t.lookup b = some docB →
    q.metric.calculate docA.vector docB.vector c.config.execution = .ok score →
    score.ge q.threshold → ⟨a, b, score⟩ ∈ hits

/-- No two documents that score high enough are each the last in the ranking for the other. -/
def NoneFarthest (c : Collection) (order : HashOrder Uuid) (q : DuplicateQuery) (t : Table)
    (ix : FlatIndex) : Prop :=
  ∀ a b docA docB score, a < b → t.lookup a = some docA → t.lookup b = some docB →
    q.metric.calculate docA.vector docB.vector c.config.execution = .ok score → score.ge q.threshold →
    ¬(ix.RanksLast (c.cache.reader order) a b ∧ ix.RanksLast (c.cache.reader order) b a)

/-- The searches for all cached vectors return if the report does. -/
theorem neighbors_of_findDuplicates (hret : c.findDuplicates order q = .ok hits) {id : Uuid}
    {vec : Vector32} (hvec : c.cache.vectors.lookup id = some vec) : ∃ ids, c.neighbors order q vec = .ok ids := by
  obtain ⟨scan, hscan, -⟩ := bind_eq_ok.mp hret
  have hid : id ∈ order.enum c.cache.vectors.keys :=
    (order.mem_enum _ _).mpr ((HashMap.mem_keys_iff _ _).mpr ⟨vec, hvec⟩)
  obtain ⟨scan₁, scan₂, hstep⟩ := foldlM_ok_of_mem hscan hid
  unfold scanId at hstep
  rw [hvec] at hstep
  obtain ⟨ids, hids, -⟩ := bind_eq_ok.mp hstep
  exact ⟨ids, hids⟩

/-- If all searches and all comparisons return, the report does: the pairs that it sorts reach the
threshold. -/
theorem findDuplicates_returns (hordered : F32.Ordered fun x => x.ge q.threshold)
    (hneighbors : ∀ id vec, c.cache.vectors.lookup id = some vec → ∃ ids, c.neighbors order q vec = .ok ids)
    (hcompare : ∀ a b va vb, c.cache.vectors.lookup a = some va → c.cache.vectors.lookup b = some vb →
      ∃ x, q.metric.calculate va vb c.config.execution = .ok x) :
    ∃ hits, c.findDuplicates order q = .ok hits := by
  have hvisit : ∀ id neighborId scan, Returns (fun _ => True)
      (q.visit c.cache.vectors c.config.execution id scan neighborId) := by
    intro id neighborId scan
    unfold DuplicateQuery.visit
    split
    · exact .ok trivial
    · simp only
      split
      · exact .ok trivial
      · split
        · rename_i va vb hva hvb
          obtain ⟨x, hx⟩ := hcompare _ _ va vb hva hvb
          rw [hx]
          change Returns _ (if x.ge q.threshold then _ else _)
          split
          · exact .ok trivial
          · exact .ok trivial
        · exact .ok trivial
  have hscan : ∀ id scan, Returns (fun _ => True) (c.scanId order q scan id) := by
    intro id scan
    unfold scanId
    split
    · exact .ok trivial
    · rename_i vec hvec
      obtain ⟨ids, hids⟩ := hneighbors id vec hvec
      rw [hids]
      exact foldlM_returns (fun _ _ => True) (fun neighborId _ scan _ => hvisit id neighborId scan) trivial
  obtain ⟨scan, hret, -⟩ := foldlM_returns (l := order.enum c.cache.vectors.keys) (b := ⟨∅, []⟩)
    (fun _ _ => True) (fun id _ scan _ => hscan id scan) trivial
  have hscanned := (scanIds_scanned DuplicateQuery.scanned_empty hret).1
  obtain ⟨hits, hhits⟩ := DuplicateQuery.sortAndLimit_returns
    (ordered_pairs (c := c) hordered fun hit hin => ((hscanned.mem hit).mp hin).2)
  unfold findDuplicates
  rw [hret]
  exact ⟨hits, hhits⟩

end Collection

namespace Coherent

theorem keys_of_flat (h : Coherent c d t) (hix : c.vectorIndex = .flat ix) :
    c.cache.vectors.keys = t.keys := by
  refine h.cached.keys_vectors ?_
  rw [hix]
  intro htype
  cases htype

/-- The cache of a flat collection has the vectors of its documents, and no others. -/
theorem lookup_vectors (h : Coherent c d t) (hix : c.vectorIndex = .flat ix) (id : Uuid) :
    c.cache.vectors.lookup id = (t.lookup id).map Document.vector := by
  cases hdoc : t.lookup id with
  | some doc => exact h.cached.mirrors.vectors id doc hdoc
  | none =>
      rw [Option.map_none, ← HashMap.not_mem_keys_iff, h.keys_of_flat hix, HashMap.not_mem_keys_iff]
      exact hdoc

/-- With all neighbours asked for, every search is for one less than all ids. -/
theorem neighbors_all (h : Coherent c d t) (hix : c.vectorIndex = .flat ix) (hk : q.kOverride = some k)
    (hmany : 2 ≤ t.len) (hall : t.len ≤ k) (vec : Vector32) :
    c.neighbors order q vec = ix.search vec (ix.vectorIds.length - 1) (c.cache.reader order) := by
  have hids : (order.enum c.cache.vectors.keys).length = t.len := by
    rw [order.length_enum, h.keys_of_flat hix]
    rfl
  have hcount : ix.vectorIds.length = t.len := (h.length_vectorIds hix).trans h.held.len
  unfold Collection.neighbors
  rw [hids, DuplicateQuery.neighborK_all hk hmany hall, hcount, hix]
  rfl

/-- A pair is left out if each of the two is last in the ranking for the other. -/
theorem paired_iff (h : Coherent c d t) (hix : c.vectorIndex = .flat ix) (hk : q.kOverride = some k)
    (hmany : 2 ≤ t.len) (hall : t.len ≤ k) (hret : c.findDuplicates order q = .ok hits) {a b : Uuid}
    (hlt : a < b) (ha : a ∈ t) (hb : b ∈ t) :
    c.Paired order q (a, b) ↔
      ¬(ix.RanksLast (c.cache.reader order) a b ∧ ix.RanksLast (c.cache.reader order) b a) := by
  have hne : a ≠ b := by
    rintro rfl
    rw [BitVec.lt_def] at hlt
    exact lt_irrefl _ hlt
  have hnotlt : ¬b < a := by
    rw [BitVec.lt_def] at hlt ⊢
    exact hlt.asymm
  have hfinds : ∀ {x y : Uuid}, x ∈ t → y ∈ t → y ≠ x →
      (c.Finds order q x y ↔ ¬ix.RanksLast (c.cache.reader order) x y) := by
    intro x y hx hy hyx
    obtain ⟨doc, hdoc⟩ := Finmap.mem_iff.mp hx
    have hvec : c.cache.vectors.lookup x = some doc.vector := h.cached.mirrors.vectors x doc hdoc
    obtain ⟨ids, hids⟩ := Collection.neighbors_of_findDuplicates hret hvec
    have hsearch := hids
    rw [h.neighbors_all hix hk hmany hall] at hsearch
    have hmem : y ∈ ids ↔ y ∈ ix.vectorIds ∧ ¬ix.RanksLast (c.cache.reader order) x y :=
      FlatIndex.mem_search_iff (h.nodup_vectorIds hix) hvec hsearch
    constructor
    · rintro ⟨-, vec, ids', hvec', hids', hin⟩
      rw [hvec] at hvec'
      cases hvec'
      rw [hids] at hids'
      cases hids'
      exact (hmem.mp hin).2
    · intro hlast
      exact ⟨hyx, _, ids, hvec, hids, hmem.mpr ⟨(h.vectorIds hix y).mpr hy, hlast⟩⟩
  rw [not_and_or, ← hfinds ha hb hne.symm, ← hfinds hb ha hne]
  unfold Collection.Paired
  constructor
  · rintro ⟨id, neighborId, hfind, heq⟩
    rcases DuplicateQuery.inOrder_cases id neighborId with hcase | hcase
    · rw [hcase] at heq
      obtain ⟨rfl, rfl⟩ := Prod.mk.inj heq
      exact .inl hfind
    · rw [hcase] at heq
      obtain ⟨rfl, rfl⟩ := Prod.mk.inj heq
      exact .inr hfind
  · rintro (hfind | hfind)
    · exact ⟨a, b, hfind, by rw [DuplicateQuery.inOrder, if_pos hlt]⟩
    · exact ⟨b, a, hfind, by rw [DuplicateQuery.inOrder, if_neg hnotlt]⟩

end Coherent

/-- A flat collection that is asked for all neighbours reports every pair exactly if the documents can be
compared, and sorted by their scores for the vector of each, and no pair has each of the two last in the
ranking for the other. -/
theorem complete_iff [LawfulEnv] {path : String} {config : CollectionConfig} {s : Session}
    (hreached : Reached path config s d t) (hix : s.coll.vectorIndex = .flat ix) (hlimit : q.limit = none)
    (hk : q.kOverride = some k) (hmany : 2 ≤ t.len) (hall : t.len ≤ k)
    (hexecution : s.coll.config.execution.Implemented)
    (hordered : F32.Ordered fun x => x.ge q.threshold) :
    (∃ hits, s.coll.findDuplicates order q = .ok hits ∧ s.coll.Complete q t hits) ↔
      ix.config.mode.Implemented ∧
        (∀ a b docA docB, t.lookup a = some docA → t.lookup b = some docB →
          docA.vector.length = docB.vector.length) ∧
        (∀ id doc, t.lookup id = some doc → ix.SortsScores (s.coll.cache.reader order) doc.vector) ∧
        s.coll.NoneFarthest order q t ix := by
  have h := hreached.coherent
  have hcached : ∀ id v, s.coll.cache.vectors.lookup id = some v →
      ∃ doc, t.lookup id = some doc ∧ doc.vector = v := by
    intro id v hv
    rw [h.lookup_vectors hix] at hv
    exact Option.map_eq_some_iff.mp hv
  have hmem : ∀ {hits}, s.coll.findDuplicates order q = .ok hits → ∀ hit, hit ∈ hits ↔
      s.coll.Paired order q hit.ids ∧
        q.Scores s.coll.cache.vectors s.coll.config.execution hit.ids hit.score := by
    intro hits hret hit
    obtain ⟨pairs, hsort, -, hpairs⟩ := Collection.findDuplicates_eq_ok hret
    rw [DuplicateQuery.mem_sortAndLimit hsort, hpairs]
    intro limit heq
    rw [hlimit] at heq
    cases heq
  have hsearch : ∀ vec, (∃ ids, s.coll.neighbors order q vec = .ok ids) ↔
      (∀ id ∈ ix.vectorIds, ∀ v, s.coll.cache.vectors.lookup id = some v →
        ix.config.mode.Implemented ∧ vec.length = v.length) ∧
      ix.SortsScores (s.coll.cache.reader order) vec := by
    intro vec
    rw [h.neighbors_all hix hk hmany hall]
    refine FlatIndex.search_isOk_iff fun id hid => ?_
    obtain ⟨doc, hdoc⟩ := Finmap.mem_iff.mp ((h.vectorIds hix id).mp hid)
    exact Option.isSome_iff_exists.mpr ⟨_, h.cached.mirrors.vectors id doc hdoc⟩
  constructor
  · rintro ⟨hits, hret, hcomplete⟩
    have hlen : ∀ a b docA docB, t.lookup a = some docA → t.lookup b = some docB →
        ix.config.mode.Implemented ∧ docA.vector.length = docB.vector.length := by
      intro a b docA docB hdocA hdocB
      have hneighbors := Collection.neighbors_of_findDuplicates hret (h.cached.mirrors.vectors a docA hdocA)
      exact ((hsearch _).mp hneighbors).1 b ((h.vectorIds hix b).mpr (Finmap.mem_iff.mpr ⟨docB, hdocB⟩)) _
        (h.cached.mirrors.vectors b docB hdocB)
    have hsorts : ∀ id doc, t.lookup id = some doc →
        ix.SortsScores (s.coll.cache.reader order) doc.vector := by
      intro id doc hdoc
      have hneighbors := Collection.neighbors_of_findDuplicates hret (h.cached.mirrors.vectors id doc hdoc)
      exact ((hsearch _).mp hneighbors).2
    refine ⟨?_, fun a b docA docB hdocA hdocB => (hlen a b docA docB hdocA hdocB).2, hsorts, ?_⟩
    · have hpos : 0 < t.keys.card := by
        change 0 < t.len
        omega
      obtain ⟨a, ha⟩ := Finset.card_pos.mp hpos
      obtain ⟨doc, hdoc⟩ := (HashMap.mem_keys_iff t a).mp ha
      exact (hlen a a doc doc hdoc hdoc).1
    · intro a b docA docB score hlt hdocA hdocB hscore hge
      have hin := hcomplete a b docA docB score hlt hdocA hdocB hscore hge
      have hpaired : s.coll.Paired order q (a, b) := ((hmem hret _).mp hin).1
      exact (h.paired_iff hix hk hmany hall hret hlt (Finmap.mem_iff.mpr ⟨docA, hdocA⟩)
        (Finmap.mem_iff.mpr ⟨docB, hdocB⟩)).mp hpaired
  · rintro ⟨hmode, hlen, hsorts, hfarthest⟩
    have hreturns : ∃ hits, s.coll.findDuplicates order q = .ok hits := by
      refine Collection.findDuplicates_returns hordered (fun id vec hvec => ?_) fun a b va vb hva hvb => ?_
      · obtain ⟨doc, hdoc, rfl⟩ := hcached id vec hvec
        refine (hsearch _).mpr ⟨fun id' _ v hv => ⟨hmode, ?_⟩, hsorts id doc hdoc⟩
        obtain ⟨doc', hdoc', rfl⟩ := hcached id' v hv
        exact hlen id id' doc doc' hdoc hdoc'
      · obtain ⟨docA, hdocA, rfl⟩ := hcached a va hva
        obtain ⟨docB, hdocB, rfl⟩ := hcached b vb hvb
        exact q.metric.calculate_ok hexecution (hlen a b docA docB hdocA hdocB)
    obtain ⟨hits, hret⟩ := hreturns
    refine ⟨hits, hret, fun a b docA docB score hlt hdocA hdocB hscore hge => (hmem hret _).mpr ⟨?_, ?_⟩⟩
    · exact (h.paired_iff hix hk hmany hall hret hlt (Finmap.mem_iff.mpr ⟨docA, hdocA⟩)
        (Finmap.mem_iff.mpr ⟨docB, hdocB⟩)).mpr (hfarthest a b docA docB score hlt hdocA hdocB hscore hge)
    · exact ⟨_, _, h.cached.mirrors.vectors a docA hdocA, h.cached.mirrors.vectors b docB hdocB, hscore, hge⟩

end

/-! ## Two documents -/

section

attribute [local instance] Reference.flat

open Reference CollectionBuilder

/-- A flat index of distances. -/
def distancesConfig : CollectionConfig := config (.flat .euclidean .auto) .unlimited 1000

/-- The flat index, what a search for the number one ranks, and what is reported. -/
def ranking (c : Collection) (q : DuplicateQuery) :
    Option (FlatIndex × Option (List Uuid) × Option (List DuplicateHit)) :=
  match c.vectorIndex with
  | .flat ix => some (ix, (ix.search [F32.one] ix.vectorIds.length (c.cache.reader Bincode.idOrder)).toOption,
      (c.findDuplicates Bincode.idOrder q).toOption)
  | _ => none

theorem ranking_spec {c : Collection} {q : DuplicateQuery} {ix : FlatIndex} {ranked : List Uuid}
    {hits : List DuplicateHit} (h : ranking c q = some (ix, some ranked, some hits)) :
    c.vectorIndex = .flat ix ∧
      ix.search [F32.one] ix.vectorIds.length (c.cache.reader Bincode.idOrder) = .ok ranked ∧
      c.findDuplicates Bincode.idOrder q = .ok hits := by
  unfold ranking at h
  split at h
  · rename_i ix' hix
    obtain ⟨rfl, hrest⟩ := Prod.mk.inj (Option.some.inj h)
    obtain ⟨hranked, hhits⟩ := Prod.mk.inj hrest
    obtain ⟨ranked', hranked', rfl⟩ := ok_of_map (f := id) (by rw [Option.map_id]; exact hranked)
    obtain ⟨hits', hhits', rfl⟩ := ok_of_map (f := id) (by rw [Option.map_id]; exact hhits)
    exact ⟨hix, hranked', hhits'⟩
  · cases h

theorem ranked_session (collConfig : CollectionConfig) {ops : List SessionOp} (q : DuplicateQuery)
    (ix : FlatIndex) (ranked : List Uuid) (hits : List DuplicateHit) (hfits : Table.Fits ∅ ops)
    (heval : (session "c" collConfig ops 0 Disk.empty).result.toOption.map (fun out =>
      ranking out.2.coll q) = some (some (ix, some ranked, some hits)))
    (hmode : (session "c" collConfig ops 0 Disk.empty).result.toOption.map (fun out =>
      out.2.coll.config.execution) = some .auto) :
    ∃ s d, Reached "c" collConfig s d (Table.run ∅ ops) ∧ s.coll.vectorIndex = .flat ix ∧
      ix.search [F32.one] ix.vectorIds.length (s.coll.cache.reader Bincode.idOrder) = .ok ranked ∧
      s.coll.findDuplicates Bincode.idOrder q = .ok hits ∧ s.coll.config.execution = .auto := by
  obtain ⟨⟨replies, s⟩, hsession, hseen⟩ := ok_of_map heval
  rw [hsession] at hmode
  obtain ⟨hix, hranked, hhits⟩ := ranking_spec hseen
  exact ⟨s, _, reached_session hfits (runs_of_ok hsession), hix, hranked, hhits, Option.some.inj hmode⟩

/-- A document with the number one, and one with the number two. -/
def apart : List SessionOp := [.call (.insert (doc 0 1)), .call (.insert { doc 1 1 with vector := [two] })]

/-- Two documents are each the last in the ranking for the other, and are not reported. -/
theorem farthest_left_out :
    ∃ (s : Session) (d : Disk) (t : Table) (ix : FlatIndex) (q : DuplicateQuery) (hits : List DuplicateHit),
      Reached "c" distancesConfig s d t ∧ s.coll.vectorIndex = .flat ix ∧ ix.config.metric = q.metric ∧
        2 ≤ t.len ∧ q.limit = none ∧ q.kOverride = some t.len ∧
        s.coll.findDuplicates Bincode.idOrder q = .ok hits ∧ ¬s.coll.Complete q t hits := by
  have hfits : Table.Fits ∅ apart := by
    refine ⟨?_, ?_, trivial⟩
    all_goals decide +kernel
  obtain ⟨s, d, hreached, hix, -, hret, hexecution⟩ := ranked_session distancesConfig
    ⟨.euclidean, half, none, some 2, none, none⟩ ⟨⟨.euclidean, .auto⟩, [0, 1]⟩ [0, 1] [] hfits
    (by decide +kernel) (by decide +kernel)
  have hfirst : (Table.run ∅ apart).lookup 0 = some (doc 0 1) := by
    change (Finmap.insert 1 _ (Finmap.insert 0 _ ∅)).lookup 0 = _
    rw [HashMap.lookup_insert, if_neg (by decide), HashMap.lookup_insert, if_pos rfl]
  have hsecond : (Table.run ∅ apart).lookup 1 = some { doc 1 1 with vector := [two] } :=
    Finmap.lookup_insert _
  refine ⟨s, d, _, _, _, _, hreached, hix, rfl, by decide +kernel, rfl, by decide +kernel, hret, fun h => ?_⟩
  have hin := h 0 1 _ _ half (by decide) hfirst hsecond (by rw [hexecution]; decide +kernel) (by decide +kernel)
  cases hin

/-- The pairs that score one, among all neighbours of two documents. -/
def bothTwins : DuplicateQuery := ⟨.cosine, F32.one, none, some 2, none, none⟩

/-- Two documents with one vector have one ranking, which ends with the second, and are reported. -/
theorem twins_complete :
    ∃ (s : Session) (d : Disk) (q : DuplicateQuery) (hits : List DuplicateHit),
      Reached "c" flatConfig s d (Table.run ∅ twins) ∧ s.coll.findDuplicates Bincode.idOrder q = .ok hits ∧
        s.coll.Complete q (Table.run ∅ twins) hits := by
  have hfits : Table.Fits ∅ twins := by
    refine ⟨?_, ?_, trivial⟩
    all_goals decide +kernel
  obtain ⟨s, d, hreached, hix, hranked, -, hexecution⟩ := ranked_session flatConfig
    bothTwins ⟨⟨.cosine, .auto⟩, [0, 1]⟩ [0, 1] [⟨0, 1, F32.one⟩] hfits
    (by decide +kernel) (by decide +kernel)
  have hdocs : ∀ id doc', (Table.run ∅ twins).lookup id = some doc' → doc'.vector = [F32.one] ∧ (id = 1 ∨ id = 0) := by
    intro id doc' hdoc
    change (Finmap.insert 1 _ (Finmap.insert 0 _ ∅)).lookup id = _ at hdoc
    rw [HashMap.lookup_insert, HashMap.lookup_insert, Finmap.lookup_empty] at hdoc
    split at hdoc
    · rename_i hid
      cases hdoc
      exact ⟨rfl, .inl hid⟩
    · split at hdoc
      · rename_i hid
        cases hdoc
        exact ⟨rfl, .inr hid⟩
      · cases hdoc
  have hcomplete : ∃ hits, s.coll.findDuplicates Bincode.idOrder bothTwins = .ok hits ∧
      s.coll.Complete bothTwins (Table.run ∅ twins) hits := by
    refine (complete_iff hreached hix rfl rfl (by decide +kernel) (by decide +kernel)
      (by rw [hexecution]; decide) (ordered_ge bothTwins.threshold)).mpr ?_
    refine ⟨by decide, fun a b docA docB hdocA hdocB => ?_,
      fun id doc _ => VectorReader.sortsScores_of_few (by decide), ?_⟩
    · rw [(hdocs a docA hdocA).1, (hdocs b docB hdocB).1]
    · rintro a b docA docB score hlt hdocA hdocB - - ⟨-, va, ranked, hva, hsearch, hlast⟩
      have hlookup := hreached.coherent.lookup_vectors hix b
      rw [hdocB, Option.map_some, (hdocs b docB hdocB).1] at hlookup
      have hvb : va = [F32.one] := Option.some.inj (hva.symm.trans hlookup)
      rw [hvb, hranked] at hsearch
      cases hsearch
      -- the ranking ends with the second document, and no lower id
      cases hlast
      rcases (hdocs b docB hdocB).2 with rfl | rfl
      · revert hlt
        decide
      · revert hlt
        decide
  obtain ⟨hits, hret, hall⟩ := hcomplete
  exact ⟨s, d, bothTwins, hits, hreached, hret, hall⟩

end
