-- SUMMARY: After maintenance a collection answers searches if its new index is no IVF index, or has a document for each of its clusters, and only then.
import Piramid.Collections.Following
import Piramid.Collections.Dimension
import Piramid.Index.Probing

/-!
# Maintenance and searches

Compaction and a rebuild make a new index for the number of documents there are, and insert
them one by one. An IVF index that has not seen as many vectors as it has clusters has no
centroids, and does not answer. In which order the documents come is not known: what the
scores are sorted from is any list of them.
-/

open Loop Prog

/-! ## An index that is filled -/

namespace IvfIndex

variable [Floats] {ix ix' : IvfIndex} {id : Uuid} {vector : Vector32} {reader : VectorReader}

theorem config_buildClusters (hret : ix.buildClusters reader = .ok ix') : ix'.config = ix.config := by
  by_cases hnone : reader.len = 0
  · rw [buildClusters, if_pos hnone] at hret
    cases hret
    rfl
  · exact (buildClusters_tracks hnone hret).2.2.2

/-- The clusters of the index are made from the vectors of the reader. -/
def BuiltFrom (config : IvfConfig) (reader : VectorReader) (ix : IvfIndex) : Prop :=
  ∃ ix₁ : IvfIndex, ix₁.config = config ∧ ix₁.centroids = [] ∧ ix₁.buildClusters reader = .ok ix

/-- Centroids come from the reader of an insertion, all at once. -/
theorem built_of_insert (hret : ix.insert id vector reader = .ok ix') :
    ix'.centroids = ix.centroids ∨ BuiltFrom ix.config reader ix' := by
  unfold insert at hret
  split at hret
  · cases hret
    exact .inl rfl
  split at hret
  · rename_i hnone
    simp only at hret
    split at hret
    · exact .inr ⟨{ ix with pendingVectors := Insert.insert id ix.pendingVectors }, rfl, hnone, hret⟩
    · cases hret
      exact .inl rfl
  · obtain ⟨clusterId, -, hret⟩ := bind_eq_ok.mp hret
    split at hret
    · cases hret
      exact .inl rfl
    · cases hret
      exact .inl rfl

/-- A new id makes the centroids once the reader has a vector for each of them. -/
theorem centroids_of_insert (hlisted : ix.Listed) (hnew : id ∉ ix.trackedIds)
    (hret : ix.insert id vector reader = .ok ix') :
    ix'.centroids ≠ [] ↔ ix.centroids ≠ [] ∨
      reader.len ≠ 0 ∧ 1 ≤ ix.config.numClusters ∧ ix.config.numClusters ≤ reader.len := by
  by_cases hre : ix.Rebuilds id reader
  · obtain ⟨-, -, hne, -⟩ := insert_rebuilds hre hret
    have hclusters := clusters_of_insert hre hret
    obtain ⟨-, -, hsize, hlen⟩ := hre
    exact ⟨fun _ => .inr ⟨hlen, hclusters, hsize⟩, fun _ => hne⟩
  · obtain ⟨-, -, hsame, -⟩ := insert_tracks hre hlisted hret
    rw [ne_eq, ne_eq, hsame]
    refine ⟨.inl, ?_⟩
    rintro (hne | ⟨hlen, -, hsize⟩)
    · exact hne
    · exact fun hnone => hre ⟨hnew, hnone, hsize, hlen⟩

end IvfIndex

/-- The reader has vectors of documents. -/
def Table.Reads (t : Table) (reader : VectorReader) : Prop :=
  ∀ id v, reader.get id = some v → ∃ doc, t.lookup id = some doc ∧ doc.vector = v

namespace VectorIndex

/-- Indexes of one kind with one configuration. -/
def Alike : VectorIndex → VectorIndex → Prop
  | .flat ix, .flat ix₀ => ix.config = ix₀.config
  | .hnsw ix, .hnsw ix₀ => ix.config = ix₀.config
  | .ivf ix, .ivf ix₀ => ix.config = ix₀.config
  | _, _ => False

variable [Floats] {ix ix' ix₀ : VectorIndex} {id : Uuid} {vector query : Vector32} {reader : VectorReader}
  {r : F32} {dim n : Nat} {t : Table}

omit [Floats] in
theorem alike_self (ix : VectorIndex) : ix.Alike ix := by
  cases ix with
  | flat ix => rfl
  | hnsw ix => rfl
  | ivf ix => rfl

omit [Floats] in
theorem Alike.trans (h : ix'.Alike ix) (h₀ : ix.Alike ix₀) : ix'.Alike ix₀ := by
  cases ix' <;> cases ix <;> cases ix₀ <;> first | exact Eq.trans h h₀ | exact h.elim | exact h₀.elim

omit [Floats] in
theorem Alike.indexType (h : ix.Alike ix₀) : ix.indexType = ix₀.indexType := by
  cases ix <;> cases ix₀ <;> first | rfl | exact h.elim

omit [Floats] in
theorem Alike.mode (h : ix.Alike ix₀) : ix.mode = ix₀.mode := by
  cases ix with
  | flat ix => cases ix₀ <;> first | exact congrArg FlatConfig.mode h | exact h.elim
  | hnsw ix => cases ix₀ <;> first | exact congrArg HnswConfig.mode h | exact h.elim
  | ivf ix => cases ix₀ <;> first | exact congrArg IvfConfig.mode h | exact h.elim

theorem alike_insert (hintact : ix.Intact) (hret : ix.insert id vector reader r = .ok ix') :
    ix'.Alike ix := by
  cases ix with
  | flat ix =>
      cases hret
      unfold FlatIndex.insert
      split
      · rfl
      · rfl
  | hnsw ix =>
      obtain ⟨ix₁, hins, rfl⟩ := map_eq_ok.mp hret
      exact (HnswIndex.insert_inserted hins).config
  | ivf ix =>
      obtain ⟨ix₁, hins, rfl⟩ := map_eq_ok.mp hret
      exact IvfIndex.config_insert hintact.1 hins

/-- An insertion that returns leaves an index of vectors of one length. -/
theorem Ready.inserted (h : ix.Ready dim) (hintact : ix.Intact) (hlen : vector.length = dim)
    (hv : reader.Uniform dim) (hret : ix.insert id vector reader r = .ok ix') : ix'.Ready dim := by
  cases ix with
  | flat ix =>
      cases hret
      trivial
  | hnsw ix =>
      have hmode : ix.config.mode.Implemented := h
      obtain ⟨ix₁, hins, rfl⟩ := map_eq_ok.mp hret
      change ix₁.config.mode.Implemented
      rw [(HnswIndex.insert_inserted hins).config]
      exact hmode
  | ivf ix =>
      obtain ⟨ix₁, hins, rfl⟩ := map_eq_ok.mp hret
      have hinserted : Loop.Returns (IvfIndex.Ready dim) (ix.insert id vector reader) :=
        IvfIndex.insert_returns h hlen hv
      obtain ⟨ix₂, hix₂, hready⟩ := hinserted
      rw [hins] at hix₂
      cases hix₂
      exact hready

/-- The index `ix₀`, which was empty, filled with documents of `dim` components, the last of them
with a reader of `n`. -/
structure Filled (ix₀ : VectorIndex) (t : Table) (dim n : Nat) (ix : VectorIndex) : Prop where
  alike : ix.Alike ix₀
  ready : ix₀.Ready dim → ix.Ready dim
  clusters : ∀ ivf, ix = .ivf ivf → ∃ ivf₀, ix₀ = .ivf ivf₀ ∧
    (ivf.centroids ≠ [] ↔ 1 ≤ ivf₀.config.numClusters ∧ ivf₀.config.numClusters ≤ n)
  built : ∀ ivf, ix = .ivf ivf → ivf.centroids = [] ∨ ∃ reader ivf', t.Reads reader ∧
    IvfIndex.BuiltFrom ivf.config reader ivf' ∧ ivf'.centroids = ivf.centroids

/-- Readers do not shrink, and an id that is not new is inserted with no larger one. -/
theorem Filled.insert (h : Filled ix₀ t dim n ix) (hintact : ix.Intact) (hlen : vector.length = dim)
    (hv : reader.Uniform dim) (hreads : t.Reads reader) (hpos : reader.len ≠ 0) (hgrows : n ≤ reader.len)
    (hnew : id ∉ ix.trackedIds ∨ reader.len = n) (hret : ix.insert id vector reader r = .ok ix') :
    Filled ix₀ t dim reader.len ix' where
  alike := (alike_insert hintact hret).trans h.alike
  ready hready := (h.ready hready).inserted hintact hlen hv hret
  clusters ivf' hivf' := by
    rw [hivf'] at hret
    obtain ⟨ivf, rfl, hins⟩ := VectorIndex.insert_eq_ivf hret
    obtain ⟨ivf₀, rfl, hclusters⟩ := h.clusters ivf rfl
    have hconfig : ivf.config = ivf₀.config := h.alike
    refine ⟨ivf₀, rfl, ?_⟩
    by_cases hid : id ∈ ivf.trackedIds
    · -- nothing is inserted
      have hsame : reader.len = n := hnew.resolve_left fun hnot => hnot hid
      unfold IvfIndex.insert at hins
      rw [if_pos (IvfIndex.mem_trackedIds.mp hid)] at hins
      cases hins
      rw [hsame]
      exact hclusters
    · rw [IvfIndex.centroids_of_insert hintact.1 hid hins, hclusters, hconfig]
      constructor
      · rintro (⟨hone, hle⟩ | ⟨-, hone, hle⟩)
        · exact ⟨hone, hle.trans hgrows⟩
        · exact ⟨hone, hle⟩
      · exact fun hle => .inr ⟨hpos, hle⟩
  built ivf' hivf' := by
    rw [hivf'] at hret
    obtain ⟨ivf, rfl, hins⟩ := VectorIndex.insert_eq_ivf hret
    have hconfig := IvfIndex.config_insert hintact.1 hins
    rw [hconfig]
    rcases IvfIndex.built_of_insert hins with hsame | hbuilt
    · rw [hsame]
      exact h.built ivf rfl
    · exact .inr ⟨reader, ivf', hreads, hbuilt, rfl⟩

theorem filled_createIndex (config : IndexConfig) (t : Table) (dim n : Nat) :
    Filled (config.createIndex n) t dim 0 (config.createIndex n) := by
  have hnew : ∀ ivf, config.createIndex n = .ivf ivf → ivf.centroids = [] := by
    intro ivf hivf
    unfold IndexConfig.createIndex at hivf
    split at hivf
    · cases hivf
    · cases hivf
    · cases hivf
      rfl
  refine ⟨alike_self _, id, fun ivf hivf => ⟨ivf, hivf, ?_⟩, fun ivf hivf => .inl (hnew ivf hivf)⟩
  refine ⟨fun hne => absurd (hnew ivf hivf) hne, ?_⟩
  rintro ⟨hone, hle⟩
  exact absurd (hone.trans hle) (by decide)

/-! ## Scores of an index that was filled -/

/-- An index like this one can sort by its scores for the query: those of documents, in whichever
order they come, and those of the centroids that are made from documents. -/
def SortsDocuments (ix₀ : VectorIndex) (t : Table) (query : Vector32) : Prop :=
  ∀ reader, t.Reads reader →
    match ix₀ with
    | .flat ix => ∀ ids : List Uuid, ids.Nodup →
        reader.SortsScores "Flat" ix.config.metric ix.config.mode query ids
    | .hnsw ix => ∀ cs : List SearchCandidate, (cs.map SearchCandidate.id).Nodup →
        (∀ c ∈ cs, ∃ v, reader.get c.id = some v ∧ ix.distance query v = .ok c.distance) →
          Sortable .ascending (cs.map SearchCandidate.distance)
    | .ivf ix => (∀ ids : List Uuid, ids.Nodup →
        reader.SortsScores "IVF" ix.config.metric ix.config.mode query ids) ∧
          ∀ ix' scores, IvfIndex.BuiltFrom ix.config reader ix' →
            ix'.scoreCentroids query = .ok scores → Sortable .descending (scores.map Prod.snd)

theorem Filled.sortsScores (h : Filled ix₀ t dim n ix) (hintact : ix.Intact) (hreads : t.Reads reader)
    (hsorts : ix₀.SortsDocuments t query) : ix.SortsScores reader query := by
  have halike := h.alike
  cases ix with
  | flat ix =>
      cases ix₀ with
      | flat ix₀ =>
          have hconfig : ix.config = ix₀.config := halike
          change reader.SortsScores "Flat" ix.config.metric ix.config.mode query ix.vectorIds
          rw [hconfig]
          exact hsorts reader hreads ix.vectorIds hintact
      | hnsw ix₀ => exact halike.elim
      | ivf ix₀ => exact halike.elim
  | hnsw ix =>
      cases ix₀ with
      | flat ix₀ => exact halike.elim
      | hnsw ix₀ =>
          have hconfig : ix.config = ix₀.config := halike
          intro cs hnodup hrated
          refine hsorts reader hreads cs hnodup fun c hc => ?_
          obtain ⟨v, hv, hdist⟩ := (hrated c hc).measured
          refine ⟨v, hv, ?_⟩
          rw [← hdist]
          unfold HnswIndex.distance
          rw [hconfig]
      | ivf ix₀ => exact halike.elim
  | ivf ix =>
      cases ix₀ with
      | flat ix₀ => exact halike.elim
      | hnsw ix₀ => exact halike.elim
      | ivf ix₀ =>
          have hconfig : ix.config = ix₀.config := halike
          have hflatten := IvfIndex.nodup_flatten hintact.2
          refine ⟨fun scores hscores => ?_, fun ids hids => ?_⟩
          · rcases h.built ix rfl with hnone | ⟨reader', ix', hreads', hbuilt, hsame⟩
            · unfold IvfIndex.scoreCentroids at hscores
              rw [hnone] at hscores
              cases hscores
              exact .inr (.inl (Nat.zero_le _))
            · have hconfig' : ix'.config = ix.config := by
                obtain ⟨ix₁, hix₁, -, hbuild⟩ := hbuilt
                exact (IvfIndex.config_buildClusters hbuild).trans hix₁
              refine (hsorts reader' hreads').2 ix' scores (hconfig ▸ hbuilt) ?_
              rw [← hscores]
              unfold IvfIndex.scoreCentroids
              rw [hsame, hconfig']
          · obtain ⟨kept, hperm, hsub⟩ := hids
            rw [hconfig]
            exact (hsorts reader hreads).1 ids (hperm.nodup_iff.mp (hflatten.sublist hsub))

omit [Floats] in
theorem length_le_of_reads (hreads : t.Reads reader) {ids : List Uuid} (hnodup : ids.Nodup)
    (hids : ∀ id ∈ ids, (reader.get id).isSome) : ids.length ≤ t.len := by
  have hsub : ids.toFinset ⊆ t.keys := by
    intro id hid
    obtain ⟨v, hv⟩ := Option.isSome_iff_exists.mp (hids id (List.mem_toFinset.mp hid))
    obtain ⟨doc, hdoc, -⟩ := hreads id v hv
    exact (HashMap.mem_keys_iff t id).mpr ⟨doc, hdoc⟩
  have hcard := Finset.card_le_card hsub
  rw [List.toFinset_card_of_nodup hnodup] at hcard
  exact hcard

/-- Few documents can always be sorted. -/
theorem sortsDocuments_of_few (hfew : t.len ≤ SliceSort.maxInsertion) :
    ix₀.SortsDocuments t query := by
  intro reader hreads
  have hlisted : ∀ {name : String} {metric : Metric} {mode : ExecutionMode} (ids : List Uuid), ids.Nodup →
      reader.SortsScores name metric mode query ids := by
    intro name metric mode ids hnodup scored hscored
    refine .inr (.inl ?_)
    have hlen : ids.length ≤ t.len := by
      refine length_le_of_reads hreads hnodup fun id hid => ?_
      rw [← VectorReader.fst_of_scores hscored] at hid
      obtain ⟨e, he, rfl⟩ := List.mem_map.mp hid
      obtain ⟨id, -, hscore⟩ := (mapM_eq_ok hscored).2 e he
      obtain ⟨v, hv, -⟩ := VectorReader.scores_of_score hscore
      exact Option.isSome_iff_exists.mpr ⟨v, hv⟩
    rw [List.length_map, (mapM_eq_ok hscored).1]
    exact hlen.trans hfew
  cases ix₀ with
  | flat ix => exact fun ids hnodup => hlisted ids hnodup
  | hnsw ix =>
      intro cs hnodup hrated
      refine .inr (.inl ?_)
      have hlen : (cs.map SearchCandidate.id).length ≤ t.len := by
        refine length_le_of_reads hreads hnodup fun id hid => ?_
        obtain ⟨c, hc, rfl⟩ := List.mem_map.mp hid
        obtain ⟨v, hv, -⟩ := hrated c hc
        exact Option.isSome_iff_exists.mpr ⟨v, hv⟩
      rw [List.length_map] at hlen ⊢
      exact hlen.trans hfew
  | ivf ix =>
      refine ⟨fun ids hnodup => hlisted ids hnodup, ?_⟩
      rintro ix' scores ⟨ix₁, -, hnone, hbuild⟩ hscores
      refine .inr (.inl ?_)
      have hkeys : reader.len ≤ t.len := by
        refine Finset.card_le_card fun id hid => ?_
        obtain ⟨v, hv⟩ := (HashMap.mem_keys_iff _ _).mp hid
        obtain ⟨doc, hdoc, -⟩ := hreads id v hv
        exact (HashMap.mem_keys_iff t id).mpr ⟨doc, hdoc⟩
      have hlen := congrArg List.length (IvfIndex.places_scoreCentroids hscores)
      rw [List.length_map, List.length_range'] at hlen
      rw [List.length_map, hlen]
      exact ((IvfIndex.length_buildClusters hnone hbuild).trans hkeys).trans hfew

end VectorIndex

/-- The index that is made for `n` documents is no IVF index, or has a document for each of its
clusters. -/
def IndexConfig.Serves [Floats] (config : IndexConfig) (n : Nat) : Prop :=
  config.selectType n = .ivf → 1 ≤ (config.ivfConfig n).numClusters ∧ (config.ivfConfig n).numClusters ≤ n

theorem IndexConfig.createIndex_ivf [Floats] {config : IndexConfig} {n : Nat} {ivf : IvfIndex}
    (h : config.createIndex n = .ivf ivf) :
    config.selectType n = .ivf ∧ ivf = .new (config.ivfConfig n) := by
  unfold createIndex at h
  split at h
  · cases h
  · cases h
  · rename_i htype
    cases h
    exact ⟨htype, rfl⟩

section

variable [Env] {s : Session} {d : Disk} {t : Table} {c : Collection} {ix₀ : VectorIndex} {dim n : Nat}

namespace Collection

/-! ## A rebuild -/

/-- Vectors are inserted with all of them as the reader. -/
theorem ensures_insertAll_filled {σ : Type} [Counting σ] {s : σ} {vectors : HashMap Uuid Vector32}
    (hv : ∀ id v, vectors.lookup id = some v → v.length = dim)
    (hreads : ∀ order, t.Reads ⟨vectors, order⟩) {entries : List (Uuid × Vector32)}
    {ix : VectorIndex} (hentries : ∀ e ∈ entries, vectors.lookup e.1 = some e.2) (hintact : ix.Intact)
    (h : ix₀.Filled t dim n ix)
    (hn : n = vectors.len ∨ n = 0 ∧ ix.trackedIds = ∅ ∧ entries ≠ []) :
    ensures (insertAll vectors entries ix) (fun ix' _ _ => ix₀.Filled t dim vectors.len ix') s d := by
  induction entries generalizing ix n s with
  | nil =>
      refine ensures_pure.mpr ?_
      rcases hn with rfl | ⟨-, -, hne⟩
      · exact h
      · exact absurd rfl hne
  | cons entry entries ih =>
      simp only [insertAll, draw, ensures_bind, ensures_asks, ensures_modify, ensures_pure,
        ensures_ofExcept]
      intro ix' hret
      have hentry := hentries entry List.mem_cons_self
      have hkey : entry.1 ∈ vectors.keys := (HashMap.mem_keys_iff _ _).mpr ⟨_, hentry⟩
      have hpos : vectors.len ≠ 0 := Finset.card_ne_zero_of_mem hkey
      have hfilled : ix₀.Filled t dim vectors.len ix' := by
        have hreader : ∀ order, VectorReader.Uniform dim ⟨vectors, order⟩ := fun _ => hv
        refine h.insert hintact (hv _ _ hentry) (hreader _) (hreads _) hpos ?_ ?_ hret
        · rcases hn with rfl | ⟨rfl, -⟩
          · exact le_refl _
          · exact Nat.zero_le _
        · rcases hn with rfl | ⟨-, htracked, -⟩
          · exact .inr rfl
          · exact .inl (htracked ▸ Finset.notMem_empty _)
      exact ih (fun e he => hentries e (List.mem_cons_of_mem _ he)) (hintact.insert hret).intact hfilled
        (.inl rfl)

/-- What a rebuild collects are the vectors of the documents. -/
theorem lookup_collectVectors {store : RecordStore} {index : OffsetIndex}
    (h : Held .data store index d t) {entries : List (Uuid × EntryPointer)}
    (hentries : ∀ e ∈ entries, index.lookup e.1 = some e.2) {vectors : HashMap Uuid Vector32}
    (hret : collectVectors store d entries = .ok vectors) {id : Uuid} {v : Vector32}
    (hv : vectors.lookup id = some v) : ∃ doc, t.lookup id = some doc ∧ doc.vector = v := by
  have hkeep := foldlM_keeps (fun (rest : List (Uuid × EntryPointer)) (vectors : HashMap Uuid Vector32) =>
    (∀ e ∈ rest, index.lookup e.1 = some e.2) ∧ ∀ id v, vectors.lookup id = some v →
      ∃ doc, t.lookup id = some doc ∧ doc.vector = v) ?_ ⟨hentries, ?_⟩ hret
  · exact hkeep.2 id v hv
  · rintro ⟨id₁, p⟩ rest vectors₁ vectors₂ ⟨hrest, hold⟩ hstep
    obtain ⟨doc, hread, hstep⟩ := bind_eq_ok.mp hstep
    cases hstep
    refine ⟨fun e he => hrest e (List.mem_cons_of_mem _ he), fun id v hv => ?_⟩
    rw [HashMap.lookup_insert] at hv
    split at hv
    · rename_i heq
      cases hv
      obtain ⟨doc', hdoc', hread'⟩ := h.read (hrest (id₁, p) List.mem_cons_self)
      rw [hread'] at hread
      cases hread
      exact ⟨doc, heq ▸ hdoc', rfl⟩
    · exact hold id v hv
  · intro id v hv
    rw [Finmap.lookup_empty] at hv
    cases hv

theorem ensures_rebuildVectorIndex_filled {σ : Type} [Counting σ] {s : σ} {store : RecordStore}
    {index : OffsetIndex} (h : Held .data store index d t)
    (hdim : ∀ id doc, t.lookup id = some doc → doc.vector.length = dim) (hintact : ix₀.Intact)
    (hempty : ix₀.trackedIds = ∅) (hnew : ix₀.Filled t dim 0 ix₀) :
    ensures (rebuildVectorIndex ix₀ index store) (fun ix' _ _ => ix₀.Filled t dim t.len ix') s d := by
  simp only [rebuildVectorIndex, draw, ensures_bind, ensures_asks, ensures_modify, ensures_pure,
    ensures_device, ensures_ofExcept]
  intro vectors hvectors
  have hkeys : vectors.keys = t.keys := by
    rw [← h.keys]
    ext id
    rw [keys_collectVectors hvectors, HashOrder.map_fst_entries, HashOrder.mem_enum]
  have hlen : vectors.len = t.len := congrArg Finset.card hkeys
  have hreads : ∀ order, t.Reads ⟨vectors, order⟩ := fun _ id v hv =>
    lookup_collectVectors h (fun e he => (HashOrder.mem_entries _ _ _ _).mp he) hvectors hv
  rw [← hlen]
  refine ensures_insertAll_filled (fun id v hv => ?_) hreads (fun e he => ?_) hintact hnew ?_
  · obtain ⟨doc, hdoc, rfl⟩ := lookup_collectVectors h
      (fun e he => (HashOrder.mem_entries _ _ _ _).mp he) hvectors hv
    exact hdim id doc hdoc
  · exact (HashOrder.mem_entries _ _ _ _).mp he
  · by_cases hzero : vectors.len = 0
    · exact .inl hzero.symm
    · refine .inr ⟨rfl, hempty, fun hnil => hzero ?_⟩
      rw [← HashOrder.length_entries, hnil, List.length_nil]

/-- What maintenance leaves: the documents, an index that was filled with them, and a cache of
them alone. -/
structure Renewed (config : CollectionConfig) (dim : Nat) (c : Collection) (d : Disk) (t : Table) :
    Prop where
  held : Held .data c.recordStore c.index d t
  cached : Cached c.vectorIndex c.cache t
  only : c.cache.vectors.keys ⊆ t.keys
  filled : (config.index.createIndex t.len).Filled t dim t.len c.vectorIndex
  config : c.config = config

theorem ensures_rebuildIndex_renewed (h : Held .data s.coll.recordStore s.coll.index d t)
    (hdim : ∀ id doc, t.lookup id = some doc → doc.vector.length = dim) :
    ensures rebuildIndex (fun _ s' d' => Renewed s.coll.config dim s'.coll d' t) s d := by
  simp only [rebuildIndex, saveVectorIndex, ensures_bind, ensures_self, ensures_update,
    ensures_emit, Effect.apply_write]
  have hintact := s.coll.config.index.intact_createIndex s.coll.index.len
  have hempty := s.coll.config.index.trackedIds_createIndex s.coll.index.len
  have htracks : ensures
      (rebuildVectorIndex (s.coll.config.index.createIndex s.coll.index.len) s.coll.index s.coll.recordStore)
      (fun ix s' d' => s'.coll = s.coll ∧ d' = d ∧ ix.Intact ∧ ix.trackedIds = s.coll.index.keys) s d :=
    ensures_rebuildVectorIndex (P := fun s' => s'.coll = s.coll) (fun _ hs => hs) rfl hintact hempty
      fun ix s' hs' hintact' htracked => ⟨hs', rfl, hintact', htracked⟩
  have hfills := ensures_rebuildVectorIndex_filled (s := s) h hdim hintact hempty
    (VectorIndex.filled_createIndex _ _ _ _)
  refine ensures_mono (ensures_and htracks hfills) ?_
  rintro ix ⟨_, n⟩ _ ⟨⟨rfl, rfl, hintact', htracked⟩, hfilled⟩
  rw [h.len] at hfilled
  refine ensures_rebuildVectorCache (s := ⟨_, n⟩) h fun cache n' hmirrors hkeys => ?_
  exact ⟨h.disk (Disk.put_other _ (by decide) _),
    ⟨htracked.trans h.keys, hintact', hmirrors, fun _ => hkeys.le⟩, hkeys.le,
    hfilled, rfl⟩

/-! ## Compaction -/

/-- The index that is filled while documents are copied. -/
structure Filling (ix₀ : VectorIndex) (t : Table) (dim : Nat) (st : Compaction) : Prop where
  filled : ix₀.Filled t dim st.newVectors.len st.newVectorIndex
  tracked : st.newVectorIndex.trackedIds = st.newVectors.keys
  intact : st.newVectorIndex.Intact
  uniform : ∀ id v, st.newVectors.lookup id = some v → v.length = dim
  reads : ∀ order, t.Reads ⟨st.newVectors, order⟩

theorem ensures_copyDocuments_filling {docs : List Document} {st : Compaction}
    (h : Filling ix₀ t dim st) (hnodup : (docs.map Document.id).Nodup)
    (hnew : ∀ doc ∈ docs, doc.id ∉ st.newVectors.keys) (hdim : ∀ doc ∈ docs, doc.vector.length = dim)
    (hstored : ∀ doc ∈ docs, t.lookup doc.id = some doc) :
    ensures (copyDocuments docs st) (fun st' _ _ => Filling ix₀ t dim st') s d := by
  induction docs generalizing st s d with
  | nil => exact ensures_pure.mpr h
  | cons doc docs ih =>
      simp only [copyDocuments, copyDocument, Document.getVector, ensures_bind, ensures_draw,
        ensures_ofExcept, ensures_pure]
      refine ensures_of_forall fun _ s₁ d₁ ix hix => ?_
      obtain ⟨hdoc, hrest⟩ := List.nodup_cons.mp hnodup
      have hlen := hdim doc List.mem_cons_self
      have hfresh := hnew doc List.mem_cons_self
      have hkeys : (st.newVectors.insert doc.id doc.vector).keys = Insert.insert doc.id st.newVectors.keys :=
        HashMap.keys_insert _ _ _
      have hcount : ∀ order, VectorReader.len ⟨st.newVectors.insert doc.id doc.vector, order⟩ =
          st.newVectors.len + 1 := by
        intro order
        unfold VectorReader.len HashMap.len
        rw [hkeys, Finset.card_insert_of_notMem hfresh]
      have huniform : ∀ id v, (st.newVectors.insert doc.id doc.vector).lookup id = some v →
          v.length = dim := by
        intro id v hv
        rw [HashMap.lookup_insert] at hv
        split at hv
        · cases hv
          exact hlen
        · exact h.uniform id v hv
      have hreader : ∀ order, VectorReader.Uniform dim ⟨st.newVectors.insert doc.id doc.vector, order⟩ :=
        fun _ => huniform
      have hreads : ∀ order, t.Reads ⟨st.newVectors.insert doc.id doc.vector, order⟩ := by
        intro order id v hv
        have hv : (st.newVectors.insert doc.id doc.vector).lookup id = some v := hv
        rw [HashMap.lookup_insert] at hv
        split at hv
        · rename_i heq
          cases hv
          exact ⟨doc, heq ▸ hstored doc List.mem_cons_self, rfl⟩
        · exact h.reads order id v hv
      have hins := h.intact.insert hix
      refine ih ⟨?_, ?_, hins.intact, huniform, hreads⟩ hrest (fun doc' hdoc' => ?_)
        (fun doc' hdoc' => hdim doc' (List.mem_cons_of_mem _ hdoc'))
        fun doc' hdoc' => hstored doc' (List.mem_cons_of_mem _ hdoc')
      · refine h.filled.insert h.intact hlen (hreader _) (hreads _) ?_ ?_ (.inl ?_) hix
        · rw [hcount]
          exact Nat.succ_ne_zero _
        · rw [hcount]
          exact Nat.le_succ _
        · rw [h.tracked]
          exact hfresh
      · rcases hins.tracks with htracks | ⟨-, htracks⟩
        · rw [htracks, h.tracked, hkeys]
        · exact htracks
      · rw [hkeys, Finset.mem_insert]
        refine not_or.mpr ⟨fun heq => hdoc ?_, hnew doc' (List.mem_cons_of_mem _ hdoc')⟩
        exact heq ▸ List.mem_map_of_mem hdoc'

end Collection

namespace Collection

theorem ensures_writeCompacted_filling (h : Held .data s.coll.recordStore s.coll.index d t)
    (hdim : ∀ id doc, t.lookup id = some doc → doc.vector.length = dim) :
    ensures writeCompacted
      (fun out _ _ => Filling (s.coll.config.index.createIndex t.len) t dim out.2) s d := by
  simp only [writeCompacted, ensures_bind, ensures_draw, ensures_self, ensures_device,
    ensures_ofExcept]
  intro docs hdocs
  rw [h.getAll, Except.ok.injEq] at hdocs
  refine ensures_when_emit fun d₀ => ensures_of_forall fun store s₁ d₁ => ?_
  have hlen : docs.length = t.len := by
    rw [← hdocs]
    exact t.length_docs _
  have hstart : Filling (s.coll.config.index.createIndex t.len) t dim ⟨store, ∅, ∅,
      s.coll.config.index.createIndex docs.length,
      s.coll.metadata.updateVectorCount 0 (Env.chance s.draws).now⟩ := by
    rw [hlen]
    refine ⟨VectorIndex.filled_createIndex _ _ _ _, s.coll.config.index.trackedIds_createIndex _,
      s.coll.config.index.intact_createIndex _, fun id v hv => ?_, fun order id v hv => ?_⟩
    · rw [Finmap.lookup_empty] at hv
      cases hv
    · have hv : (∅ : HashMap Uuid Vector32).lookup id = some v := hv
      rw [Finmap.lookup_empty] at hv
      cases hv
  have hstored : ∀ doc ∈ docs, t.lookup doc.id = some doc := by
    intro doc hdoc
    rw [← hdocs, List.mem_filterMap] at hdoc
    obtain ⟨id, -, hid⟩ := hdoc
    exact (h.own id doc hid).symm ▸ hid
  refine ensures_mono (ensures_copyDocuments_filling hstart ?_ (fun _ _ => Finset.notMem_empty _)
    (fun doc hdoc => hdim doc.id doc (hstored doc hdoc)) hstored) ?_
  · rw [← hdocs]
    exact Table.nodup_docs h.own _
  · rintro st s₂ d₂ hst
    simp only [RecordStore.sync, ensures_emit, ensures_pure]
    exact hst

theorem keys_cacheDocuments {ids : List Uuid} {cache cache' : CacheManager}
    (hret : ids.foldlM (c.cacheDocument d) cache = .ok cache') :
    ∀ id ∈ cache'.vectors.keys, id ∈ ids ∨ id ∈ cache.vectors.keys := by
  have hkeep := foldlM_keeps (fun (rest : List Uuid) (cache₁ : CacheManager) => (∀ id ∈ rest, id ∈ ids) ∧
    ∀ id ∈ cache₁.vectors.keys, id ∈ ids ∨ id ∈ cache.vectors.keys) ?_ ⟨fun _ hid => hid, fun _ => .inr⟩ hret
  · exact hkeep.2
  · rintro id rest cache₁ cache₂ ⟨hrest, hold⟩ hstep
    refine ⟨fun id' hid' => hrest id' (List.mem_cons_of_mem _ hid'), ?_⟩
    obtain ⟨found, -, hstep⟩ := bind_eq_ok.mp hstep
    cases found with
    | none =>
        cases hstep
        exact hold
    | some doc =>
        cases hstep
        intro id' hid'
        rw [CacheManager.vectors_putMetadata, CacheManager.vectors_putVector, HashMap.keys_insert,
          Finset.mem_insert] at hid'
        rcases hid' with rfl | hid'
        · exact .inl (hrest id' List.mem_cons_self)
        · exact hold id' hid'

omit [Env] in
/-- A program that leaves the whole state as it is. -/
theorem ensures_kept {α : Type} {p : CollM α} {file : CollFile} (h : Leaves (fun s => s) file p) :
    ensures p (fun _ s' _ => s' = s) s d :=
  ensures_of_wp (h.wp (C := fun _ => True) (R := fun _ _ _ => True) (fun _ _ => trivial)
    (fun _ _ _ hs _ => hs) fun _ _ _ _ _ => trivial)

/-- The index that was copied stays, and the cache is emptied before it is filled. -/
theorem ensures_adoptCompacted_fresh {metadata : CollectionMetadata} {st : Compaction} :
    ensures (adoptCompacted metadata st) (fun _ s' _ => s'.coll.vectorIndex = st.newVectorIndex ∧
      s'.coll.cache.vectors.keys ⊆ s'.coll.index.keys ∧ s'.coll.config = s.coll.config) s d := by
  simp only [adoptCompacted, rebuildVectorCache, saveIndex, saveVectorIndex, saveMetadata, ensures_bind,
    ensures_self, ensures_update, ensures_emit, ensures_draw, ensures_device, ensures_ofExcept]
  have hopen : ensures (RecordStore.openFile .data s.coll.config st.newIndex) (fun _ s' _ => s' = s) s d :=
    ensures_kept (RecordStore.leaves_openFile (StoreFile.file_ne_index _) _ _)
  refine ensures_mono hopen ?_
  rintro store s₁ d₁ hs₁ cache hcache
  rw [hs₁] at hcache ⊢
  have hrotate : Leaves (fun s : Session => s) .index s.coll.checkpoint.wal.rotate :=
    leaves_rotate (by decide) _
  refine ensures_mono (ensures_kept hrotate) ?_
  rintro _ _ d₂ rfl
  refine ⟨rfl, fun id hid => ?_, rfl⟩
  rcases keys_cacheDocuments hcache id hid with hin | hnone
  · exact (HashOrder.mem_enum _ _ _).mp hin
  · exact absurd hnone (Finset.notMem_empty _)

/-- Both kinds of maintenance. -/
theorem renewed_of_maintenance [LawfulEnv] (h : Held .data s.coll.recordStore s.coll.index d t)
    (hdim : ∀ id doc, t.lookup id = some doc → doc.vector.length = dim) {call : Call} {reply : Reply}
    {s' : Session} {d' : Disk} (hcall : call = .rebuildIndex ∨ call = .compact)
    (hrun : Runs call.perform s d reply s' d') : Renewed s.coll.config dim s'.coll d' t := by
  rcases hcall with rfl | rfl
  · obtain ⟨_, s₁, d₁, hrebuild, hpure⟩ := runs_bind.mp hrun
    obtain ⟨-, rfl, rfl⟩ := runs_pure.mp hpure
    exact ensures_runs (Q := fun _ s' d' => Renewed s.coll.config dim s'.coll d' t)
      (ensures_rebuildIndex_renewed h hdim) hrebuild
  · obtain ⟨stats, s₁, d₁, hcompact, hpure⟩ := runs_bind.mp hrun
    obtain ⟨-, rfl, rfl⟩ := runs_pure.mp hpure
    have hcoh : Coherent s₁.coll d₁ t :=
      ensures_runs (Q := fun _ s' d' => Coherent s'.coll d' t)
        (ensures_compact h fun s' d' h' => h') hcompact
    have hfresh : ensures compact (fun _ s' _ => s'.coll.config = s.coll.config ∧
        s'.coll.cache.vectors.keys ⊆ s'.coll.index.keys ∧
        (s.coll.config.index.createIndex t.len).Filled t dim t.len s'.coll.vectorIndex) s d := by
      simp only [compact, ensures_bind, ensures_self, ensures_emit, ensures_pure]
      have hcopied := ensures_writeCompacted (Q := fun out s' _ => s'.coll = s.coll ∧
        out.2.newVectors.keys = t.keys) h fun _ st _ _ hst _ => ⟨rfl, hst.vectors⟩
      refine ensures_mono (ensures_and hcopied (ensures_writeCompacted_filling h hdim)) ?_
      rintro ⟨metadata, st⟩ s₁ d₁ ⟨⟨hsame, hkeys⟩, hfilling⟩
      refine ensures_mono ensures_adoptCompacted_fresh ?_
      rintro _ s₂ d₂ ⟨hix, honly, hconfig⟩
      have hlen : st.newVectors.len = t.len := congrArg Finset.card hkeys
      refine ⟨hconfig.trans (congrArg Collection.config hsame), honly, ?_⟩
      rw [hix, ← hlen]
      exact hlen ▸ hfilling.filled
    obtain ⟨hconfig, honly, hfilled⟩ := ensures_runs (Q := fun _ s' _ => s'.coll.config = s.coll.config ∧
      s'.coll.cache.vectors.keys ⊆ s'.coll.index.keys ∧
      (s.coll.config.index.createIndex t.len).Filled t dim t.len s'.coll.vectorIndex) hfresh hcompact
    exact ⟨hcoh.held, hcoh.cached, hcoh.held.keys ▸ honly, hfilled, hconfig⟩

end Collection

/-! ## Searches after maintenance -/

namespace Collection

variable {query : Vector32} {k : Nat} {metric : Metric} {params : SearchParams} {order : HashOrder Uuid}
  {config : CollectionConfig}

/-- A search that returns has centroids. -/
theorem Renewed.serves (h : Renewed config dim c d t) {hits : List Hit}
    (hret : c.searchCollection d order query k metric params = .ok hits) : config.index.Serves t.len := by
  intro htype
  have hnew : config.index.createIndex t.len = .ivf (.new (config.index.ivfConfig t.len)) := by
    unfold IndexConfig.createIndex
    rw [htype]
  have hivf : c.vectorIndex.indexType = .ivf := by
    rw [h.filled.alike.indexType, hnew]
    rfl
  cases hix : c.vectorIndex with
  | flat ix =>
      rw [hix] at hivf
      cases hivf
  | hnsw ix =>
      rw [hix] at hivf
      cases hivf
  | ivf ix =>
      obtain ⟨ivf₀, hivf₀, hclusters⟩ := h.filled.clusters ix hix
      obtain ⟨-, rfl⟩ := IndexConfig.createIndex_ivf hivf₀
      refine hclusters.mp fun hnone => ?_
      unfold searchCollection at hret
      obtain ⟨ids, hids, -⟩ := bind_eq_ok.mp hret
      rw [hix] at hids
      have hids : ix.search query _ _ _ = .ok ids := hids
      unfold IvfIndex.search at hids
      rw [if_pos hnone] at hids
      cases hids

/-- What is cached after maintenance are vectors of documents. -/
theorem Renewed.reads (h : Renewed config dim c d t) : t.Reads (c.cache.reader order) := by
  intro id v hv
  have hv : c.cache.vectors.lookup id = some v := hv
  have hkey := h.only ((HashMap.mem_keys_iff _ _).mpr ⟨v, hv⟩)
  obtain ⟨doc, hdoc⟩ := (HashMap.mem_keys_iff _ _).mp hkey
  rw [h.cached.mirrors.vectors id doc hdoc] at hv
  exact ⟨doc, hdoc, Option.some.inj hv⟩

/-- With centroids, or where none are needed, a search compares what it can compare. -/
theorem Renewed.searches (h : Renewed config query.length c d t)
    (hdim : ∀ id doc, t.lookup id = some doc → doc.vector.length = query.length)
    (hindex : (config.index.createIndex t.len).mode.Implemented) (hmode : params.mode.Implemented)
    (hserves : config.index.Serves t.len)
    (hsorts : (config.index.createIndex t.len).SortsDocuments t query)
    (hhits : c.SortsHits d query metric params) :
    ∃ hits, c.searchCollection d order query k metric params = .ok hits := by
  -- a search does not read the count
  have hcoh : Coherent { c with metadata := { c.metadata with vectorCount := t.len } } d t :=
    ⟨h.held, h.cached, rfl⟩
  have hready : (config.index.createIndex t.len).Ready query.length := by
    cases hnew : config.index.createIndex t.len with
    | flat ix => trivial
    | hnsw ix =>
        rw [hnew] at hindex
        exact hindex
    | ivf ix =>
        obtain ⟨htype, rfl⟩ := IndexConfig.createIndex_ivf hnew
        rw [hnew] at hindex
        refine ⟨hindex, (hserves htype).1, fun v hv => ?_⟩
        cases hv
  have hcached : ∀ id v, c.cache.vectors.lookup id = some v → v.length = query.length := by
    intro id v hv
    have hreads : t.Reads (c.cache.reader Bincode.idOrder) := h.reads
    obtain ⟨doc, hdoc, rfl⟩ := hreads id v hv
    exact hdim id doc hdoc
  have hcentroids : ∀ v ∈ c.vectorIndex.centroids, v.length = query.length := by
    have hfilled := h.filled.ready hready
    cases hix : c.vectorIndex with
    | flat ix => exact fun v hv => absurd hv List.not_mem_nil
    | hnsw ix => exact fun v hv => absurd hv List.not_mem_nil
    | ivf ix =>
        rw [hix] at hfilled
        exact hfilled.centroids
  have htakes : Takes { c with metadata := { c.metadata with vectorCount := t.len } } d query := by
    refine hcoh.takes ⟨hcached, hcentroids⟩ ?_
    change c.vectorIndex.mode.Implemented
    rw [h.filled.alike.mode]
    exact hindex
  by_cases hidle : c.vectorIndex.Idle
  · have htype : c.vectorIndex.indexType ≠ .ivf := by
      intro htype
      cases hix : c.vectorIndex with
      | flat ix =>
          rw [hix] at htype
          cases htype
      | hnsw ix =>
          rw [hix] at htype
          cases htype
      | ivf ivf =>
          rw [hix] at hidle
          obtain ⟨ivf₀, hivf₀, hclusters⟩ := h.filled.clusters ivf hix
          obtain ⟨hselect, rfl⟩ := IndexConfig.createIndex_ivf hivf₀
          exact hclusters.mpr (hserves hselect) hidle
    unfold searchCollection
    simp only [VectorIndex.returns_idle hidle htype]
    cases hfilter : params.filter with
    | none => exact ⟨[], rfl⟩
    | some filter => exact ⟨[], sortAndTruncate_nil k⟩
  · have hscores : c.vectorIndex.SortsScores (c.cache.reader order) query :=
      h.filled.sortsScores h.cached.intact h.reads hsorts
    exact hcoh.returns_search hidle htakes (.inr hscores) hhits hmode

end Collection

/-- After a rebuild or a compaction that returns, a search returns only if the new index serves
that many documents. It does if the documents can be sorted by their scores, and no mode is asked
for that has no kernels. Of the state before, only that its pointers read the documents matters,
as those of every coherent one do. -/
theorem search_after_maintenance [LawfulEnv] (h : Held .data s.coll.recordStore s.coll.index d t)
    {query : Vector32} (hdim : ∀ id doc, t.lookup id = some doc → doc.vector.length = query.length)
    {call : Call} {reply : Reply} {s' : Session} {d' : Disk} (hcall : call = .rebuildIndex ∨ call = .compact)
    (hrun : Runs call.perform s d reply s' d') (order : HashOrder Uuid) (k : Nat) (metric : Metric)
    (params : SearchParams) :
    ((∃ hits, s'.coll.search d' order query k metric params = .ok hits) →
        s.coll.config.index.Serves t.len) ∧
      ((s.coll.config.index.createIndex t.len).mode.Implemented →
        (s.coll.searchParams params).mode.Implemented → s.coll.config.index.Serves t.len →
        (s.coll.config.index.createIndex t.len).SortsDocuments t query →
        s.coll.SortsHits d query metric (s.coll.searchParams params) →
          ∃ hits, s'.coll.search d' order query k metric params = .ok hits) := by
  have hrenewed := Collection.renewed_of_maintenance h hdim hcall hrun
  have hparams : s'.coll.searchParams params = s.coll.searchParams params := by
    unfold Collection.searchParams
    rw [hrenewed.config]
  constructor
  · rintro ⟨hits, hret⟩
    exact hrenewed.serves hret
  · intro hindex hmode hserves hsorts hhits
    unfold Collection.search
    rw [hparams]
    refine hrenewed.searches hdim hindex hmode hserves hsorts ?_
    -- the documents are the same as before
    have hsame : ∀ id, s'.coll.hit d' query metric (s.coll.searchParams params).mode id =
        s.coll.hit d query metric (s.coll.searchParams params).mode id := by
      intro id
      unfold Collection.hit
      rw [hrenewed.held.get, h.get]
    unfold Collection.SortsHits
    simp only [funext hsame]
    exact hhits

end

/-! ## Fewer documents than clusters -/

section

attribute [local instance] Reference.flat

open Reference CollectionBuilder

/-- A session that ends with maintenance, with what it is before and after. -/
def maintained (ops : List SessionOp) (call : Call) : Io Nat ((Session × Disk) × Session × Disk) := do
  let (_, s) ← session "c" clustersConfig ops
  let d ← Prog.device
  let (_, s') ← Prog.embed (fun _ => s) Session.draws call.perform
  let d' ← Prog.device
  pure ((s, d), s', d')

/-- What a search for the number one finds. -/
def nearOne (w : Session × Disk) : Option (List Uuid) :=
  (w.1.coll.search w.2 Bincode.idOrder [F32.one] 2 .euclidean ⟨.auto, none, none, none⟩).toOption.map
    (List.map Hit.id)

theorem reached_maintained {ops : List SessionOp} {call : Call} {w w' : Session × Disk}
    (hfits : Table.Fits ∅ ops) (hret : (maintained ops call 0 Disk.empty).result = .ok (w, w')) :
    Reached "c" clustersConfig w.1 w.2 (Table.run ∅ ops) ∧
      ∃ reply, Runs call.perform w.1 w.2 reply w'.1 w'.2 := by
  obtain ⟨⟨replies, s⟩, n₁, d₁, hsession, hrest⟩ := runs_bind.mp (runs_of_ok hret)
  obtain ⟨_, n₂, d₂, hdevice, hrest⟩ := runs_bind.mp hrest
  obtain ⟨rfl, rfl, rfl⟩ := runs_device.mp hdevice
  obtain ⟨⟨reply, s'⟩, n₃, d₃, hcall, hrest⟩ := runs_bind.mp hrest
  obtain ⟨_, n₄, d₄, hdevice, hpure⟩ := runs_bind.mp hrest
  obtain ⟨rfl, rfl, rfl⟩ := runs_device.mp hdevice
  obtain ⟨hpair, -, -⟩ := runs_pure.mp hpure
  cases hpair
  exact ⟨reached_session hfits hsession, reply, (runs_embed.mp hcall).1⟩

/-- The documents of two clusters. -/
def oneEach : List SessionOp := [.call (.insert (doc 0 1)), .call (.insert { doc 1 1 with vector := [two] })]

theorem length_of_keys {t : Table} {ids : List Uuid} (hkeys : t.keys = ids.toFinset)
    (h : ids.all (fun id => (t.lookup id).map (fun doc => doc.vector.length) = some 1)) (id : Uuid)
    (doc : Document) (hdoc : t.lookup id = some doc) : doc.vector.length = [F32.one].length := by
  have hid : id ∈ ids := by
    rw [← List.mem_toFinset, ← hkeys]
    exact (HashMap.mem_keys_iff t id).mpr ⟨doc, hdoc⟩
  have hlen := of_decide_eq_true (List.all_eq_true.mp h id hid)
  rw [hdoc] at hlen
  exact Option.some.inj hlen

/-- One of two documents is deleted, and the other is found. Once the index is rebuilt, the same
search does not return. -/
theorem rebuilt_does_not_answer :
    ∃ (s s' : Session) (d d' : Disk) (t : Table) (reply : Reply) (hits : List Hit),
      Reached "c" clustersConfig s d t ∧
        (∀ id doc, t.lookup id = some doc → doc.vector.length = [F32.one].length) ∧
        s.coll.search d Bincode.idOrder [F32.one] 2 .euclidean ⟨.auto, none, none, none⟩ = .ok hits ∧
        Runs Call.rebuildIndex.perform s d reply s' d' ∧
        ¬∃ hits', s'.coll.search d' Bincode.idOrder [F32.one] 2 .euclidean ⟨.auto, none, none, none⟩ =
          .ok hits' := by
  have hfits : Table.Fits ∅ (oneEach ++ [.call (.delete 1)]) := by
    refine ⟨?_, ?_, ?_, trivial⟩
    all_goals decide +kernel
  have heval : (maintained (oneEach ++ [.call (.delete 1)]) .rebuildIndex 0 Disk.empty).result.toOption.map
      (fun out => (nearOne out.1, nearOne out.2)) = some (some [0], none) := by
    decide +kernel
  obtain ⟨⟨⟨s, d⟩, s', d'⟩, hret, hseen⟩ := ok_of_map heval
  obtain ⟨hbefore, hafter⟩ := Prod.mk.inj hseen
  obtain ⟨hreached, reply, hrun⟩ := reached_maintained hfits hret
  unfold nearOne at hbefore hafter
  obtain ⟨hits, hhits, -⟩ := ok_of_map hbefore
  have hdim : ∀ id doc, (Table.run ∅ (oneEach ++ [.call (.delete 1)])).lookup id = some doc →
      doc.vector.length = [F32.one].length :=
    @length_of_keys _ [0] (by decide +kernel) (by decide +kernel)
  refine ⟨s, s', d, d', _, reply, hits, hreached, hdim, hhits, hrun, ?_⟩
  rintro ⟨hits', hhits'⟩
  rw [hhits'] at hafter
  cases hafter

/-- With a document for each cluster, a search returns after a compaction. -/
theorem compacted_answers :
    ∃ (s s' : Session) (d d' : Disk) (t : Table) (reply : Reply) (hits : List Hit),
      Reached "c" clustersConfig s d t ∧ Runs Call.compact.perform s d reply s' d' ∧
        s'.coll.search d' Bincode.idOrder [F32.one] 2 .euclidean ⟨.auto, none, none, none⟩ = .ok hits := by
  have hfits : Table.Fits ∅ oneEach := by
    refine ⟨?_, ?_, trivial⟩
    all_goals decide +kernel
  have heval : (maintained oneEach .compact 0 Disk.empty).result.toOption.map
      (fun out => (out.1.1.coll.config.index, out.1.1.coll.config.execution)) =
        some (clustersConfig.index, .auto) := by
    decide +kernel
  obtain ⟨⟨⟨s, d⟩, s', d'⟩, hret, hseen⟩ := ok_of_map heval
  obtain ⟨hindex, hexecution⟩ := Prod.mk.inj hseen
  obtain ⟨hreached, reply, hrun⟩ := reached_maintained hfits hret
  have hdim : ∀ id doc, (Table.run ∅ oneEach).lookup id = some doc → doc.vector.length = [F32.one].length :=
    @length_of_keys _ [0, 1] (by decide +kernel) (by decide +kernel)
  have hmaintenance := search_after_maintenance hreached.coherent.held hdim (.inr rfl) hrun
    Bincode.idOrder 2 .euclidean ⟨.auto, none, none, none⟩
  have hexecution : s.coll.config.execution = .auto := hexecution
  have hmode : (s.coll.searchParams ⟨.auto, none, none, none⟩).mode.Implemented := by
    change s.coll.config.execution ≠ .gpu
    rw [hexecution]
    decide
  obtain ⟨hits, hhits⟩ := hmaintenance.2 (by rw [hindex]; decide +kernel) hmode
    (by rw [hindex]; intro _; decide +kernel) (VectorIndex.sortsDocuments_of_few (by decide +kernel))
    (fun filter hfilter => by cases hfilter)
  exact ⟨s, s', d, d', _, reply, hits, hreached, hrun, hhits⟩

end
