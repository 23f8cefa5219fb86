-- SUMMARY: Rebuilding the cache and the vector index from the records, compaction, and opening a new collection.
import Piramid.Collections.Coherence

/-!
# Maintenance of coherent collections

What is derived from the documents is thrown away and derived anew. Compaction does
so for the records as well: it copies the documents to a new data file.
-/

open Loop Prog

section

variable [Env]

variable {s : Session} {d : Disk} {t : Table} {c : Collection}

namespace Collection

/-! ## The cache -/

/-- A cache filled with the documents at `ids`, none of which it had. -/
theorem mirrors_cacheDocuments (h : Held .data c.recordStore c.index d t) {ids : List Uuid}
    (hids : ids.Nodup) (hall : ∀ id, id ∉ ids → t.lookup id = none) {config : CacheConfig}
    {cache : CacheManager} (hret : ids.foldlM (c.cacheDocument d) (.new config) = .ok cache) :
    cache.Mirrors t ∧ cache.vectors.keys = t.keys := by
  have hkeep := foldlM_keeps
    (fun rest (cache : CacheManager) => rest.Nodup ∧ ∃ t' : Table, cache.Mirrors t' ∧
      cache.vectors.keys = t'.keys ∧ ∀ id, t'.lookup id = if id ∈ rest then none else t.lookup id)
    ?_ ⟨hids, ∅, .new config, rfl, fun id => ?_⟩ hret
  · obtain ⟨-, t', hmirrors, hkeys, hlookup⟩ := hkeep
    have heq : t' = t := Finmap.ext_lookup fun id => by simpa using hlookup id
    exact heq ▸ ⟨hmirrors, hkeys⟩
  · rintro id rest cache cache' ⟨hnodup, t', hmirrors, hkeys, hlookup⟩ hstep
    obtain ⟨hid, hrest⟩ := List.nodup_cons.mp hnodup
    unfold cacheDocument at hstep
    rw [h.get id] at hstep
    cases hdoc : t.lookup id with
    | none =>
        rw [hdoc] at hstep
        cases hstep
        refine ⟨hrest, t', hmirrors, hkeys, fun id' => ?_⟩
        rw [hlookup id']
        by_cases heq : id' = id
        · subst heq
          simp [hid, hdoc]
        · simp [heq]
    | some doc =>
        rw [hdoc] at hstep
        cases hstep
        refine ⟨hrest, t'.insert id doc, ?_, ?_, fun id' => ?_⟩
        · simp only [Document.getVector, CacheManager.putVector_putMetadata]
          exact hmirrors.put id doc
        · simp only [Document.getVector, CacheManager.vectors_putMetadata,
            CacheManager.vectors_putVector, HashMap.keys_insert, hkeys]
        · rw [HashMap.lookup_insert, hlookup id']
          by_cases heq : id' = id
          · subst heq
            simp [hid, hdoc]
          · simp [heq]
  · by_cases hid : id ∈ ids
    · simp [hid]
    · simp [hid, hall id hid]

theorem ensures_rebuildVectorCache {Q : Unit → Session → Disk → Prop}
    (h : Held .data s.coll.recordStore s.coll.index d t)
    (hQ : ∀ (cache : CacheManager) (n : Nat), cache.Mirrors t → cache.vectors.keys = t.keys →
      Q () ⟨{ s.coll with cache }, n⟩ d) :
    ensures rebuildVectorCache Q s d := by
  simp only [rebuildVectorCache, ensures_bind, ensures_draw, ensures_self, ensures_device,
    ensures_ofExcept, ensures_update]
  intro cache hcache
  have hall : ∀ id, id ∉ (Env.chance s.draws).order.enum s.coll.index.keys →
      t.lookup id = none := by
    intro id hid
    rw [HashOrder.mem_enum, h.keys] at hid
    exact (HashMap.not_mem_keys_iff t id).mp hid
  obtain ⟨hmirrors, hkeys⟩ := mirrors_cacheDocuments h (HashOrder.nodup _ _) hall hcache
  exact hQ cache _ hmirrors hkeys

/-- A collection whose index tracks its documents is coherent once the cache is
rebuilt. -/
theorem ensures_recache {Q : Unit → Session → Disk → Prop}
    (h : Held .data s.coll.recordStore s.coll.index d t)
    (htracked : s.coll.vectorIndex.trackedIds = t.keys) (hintact : s.coll.vectorIndex.Intact)
    (hcounted : s.coll.metadata.vectorCount = t.len)
    (hQ : ∀ s', Coherent s'.coll d t → s'.coll.vectorIndex = s.coll.vectorIndex → Q () s' d) :
    ensures rebuildVectorCache Q s d :=
  ensures_rebuildVectorCache h fun _ n hmirrors hkeys =>
    hQ ⟨_, n⟩ ⟨h, ⟨htracked, hintact, hmirrors, fun _ => hkeys.le⟩, hcounted⟩ rfl

theorem ensures_ensureConsistent {Q : Unit → Session → Disk → Prop} (h : Coherent s.coll d t)
    (hQ : ∀ s', Coherent s'.coll d t → s'.coll.vectorIndex = s.coll.vectorIndex → Q () s' d) :
    ensures ensureConsistent Q s d := by
  have hrebuild : ∀ n, ensures rebuildVectorCache Q ⟨s.coll, n⟩ d := fun n =>
    ensures_recache (s := ⟨s.coll, n⟩) h.held h.cached.tracked h.cached.intact h.counted hQ
  simp only [ensureConsistent, ensures_bind, ensures_self, ensures_ite, ensures_draw, ensures_when]
  exact ⟨fun _ => hrebuild _, fun _ => ⟨fun _ => hrebuild _, fun _ => hQ _ h rfl⟩⟩

/-! ## The vector index -/

/-- Inserting all vectors of the reader tracks all of them. Draws keep `P`. -/
theorem ensures_insertAll {σ : Type} [Counting σ] {P : σ → Prop}
    (hnext : ∀ s, P s → P (Counting.next s)) {s : σ} {vectors : HashMap Uuid Vector32}
    {entries : List (Uuid × Vector32)} {ix : VectorIndex} {Q : VectorIndex → σ → Disk → Prop}
    (hs : P s) (hintact : ix.Intact) (hsub : ix.trackedIds ⊆ vectors.keys)
    (hentries : ∀ e ∈ entries, e.1 ∈ vectors.keys)
    (hrest : ∀ id ∈ vectors.keys, id ∈ ix.trackedIds ∨ id ∈ entries.map Prod.fst)
    (hQ : ∀ ix' s', P s' → ix'.Intact → ix'.trackedIds = vectors.keys → Q ix' s' d) :
    ensures (insertAll vectors entries ix) Q s d := by
  induction entries generalizing ix s with
  | nil =>
      refine ensures_pure.mpr (hQ ix s hs hintact (Finset.Subset.antisymm hsub fun id hid => ?_))
      exact (hrest id hid).resolve_right (by simp)
  | cons entry entries ih =>
      simp only [insertAll, draw, ensures_bind, ensures_asks, ensures_modify, ensures_pure,
        ensures_ofExcept]
      intro ix' hix'
      have hins := hintact.insert hix'
      have hmem := hentries entry (by simp)
      refine ih (hnext s hs) hins.intact ?_ (fun e he => hentries e (by simp [he])) fun id hid => ?_
      · rcases hins.tracks with htracks | ⟨-, htracks⟩
        · rw [htracks]
          exact Finset.insert_subset hmem hsub
        · exact htracks.le
      · rcases hins.tracks with htracks | ⟨-, htracks⟩
        · have := hrest id hid
          rw [List.map_cons, List.mem_cons] at this
          rw [htracks, Finset.mem_insert]
          tauto
        · exact .inl (htracks ▸ hid)

/-- The vectors that a rebuild collects are those of the documents. -/
theorem keys_collectVectors {store : RecordStore}
    {entries : List (Uuid × EntryPointer)} {vectors : HashMap Uuid Vector32}
    (hret : collectVectors store d entries = .ok vectors) (id : Uuid) :
    id ∈ vectors.keys ↔ id ∈ entries.map Prod.fst := by
  have hkeep := foldlM_keeps (fun rest (vectors : HashMap Uuid Vector32) =>
      id ∈ entries.map Prod.fst ↔ id ∈ vectors.keys ∨ id ∈ rest.map Prod.fst)
    (fun entry rest vectors vectors' hkeep hstep => ?_) (by simp) hret
  · simpa using hkeep.symm
  · rw [bind_eq_ok] at hstep
    obtain ⟨doc, -, hstep⟩ := hstep
    rw [bind_eq_ok] at hstep
    obtain ⟨vector, -, hstep⟩ := hstep
    cases hstep
    rw [hkeep, HashMap.keys_insert, Finset.mem_insert, List.map_cons, List.mem_cons]
    tauto

theorem ensures_rebuildVectorIndex {σ : Type} [Counting σ] {P : σ → Prop}
    (hnext : ∀ s, P s → P (Counting.next s)) {s : σ} {store : RecordStore}
    {index : OffsetIndex} {ix : VectorIndex} {Q : VectorIndex → σ → Disk → Prop}
    (hs : P s) (hintact : ix.Intact) (hempty : ix.trackedIds = ∅)
    (hQ : ∀ ix' s', P s' → ix'.Intact → ix'.trackedIds = index.keys → Q ix' s' d) :
    ensures (rebuildVectorIndex ix index store) Q s d := by
  simp only [rebuildVectorIndex, draw, ensures_bind, ensures_asks, ensures_modify, ensures_pure,
    ensures_device, ensures_ofExcept]
  intro vectors hvectors
  have hkeys : vectors.keys = index.keys := by
    ext id
    rw [keys_collectVectors hvectors, HashOrder.map_fst_entries,
      HashOrder.mem_enum]
  refine ensures_insertAll hnext (hnext _ (hnext _ hs)) hintact (by simp [hempty]) ?_ ?_
    fun ix' s' hs' h' htracked => hQ ix' s' hs' h' (htracked.trans hkeys)
  · rintro ⟨id, v⟩ he
    rw [HashOrder.mem_entries] at he
    exact (HashMap.mem_keys_iff _ _).mpr ⟨v, he⟩
  · intro id hid
    rw [HashOrder.map_fst_entries, HashOrder.mem_enum]
    exact .inr hid

theorem ensures_rebuildIndex {Q : Unit → Session → Disk → Prop} (h : Coherent s.coll d t)
    (hQ : ∀ s' d', Coherent s'.coll d' t → Q () s' d') : ensures rebuildIndex Q s d := by
  simp only [rebuildIndex, saveVectorIndex, ensures_bind, ensures_self, ensures_update,
    ensures_emit, Effect.apply_write]
  refine ensures_rebuildVectorIndex (P := fun s' => s'.coll = s.coll) (fun _ hs => hs) rfl
    (s.coll.config.index.intact_createIndex _) (s.coll.config.index.trackedIds_createIndex _) ?_
  intro ix s₁ hs₁ hintact htracked
  rw [hs₁]
  refine ensures_recache (s := ⟨_, s₁.draws⟩) h.held (htracked.trans h.held.keys) hintact h.counted
    fun s' h' _ => ?_
  exact hQ _ _ (h'.aside ⟨rfl, by simp⟩)

/-! ## Compaction -/

/-- The documents of `t` are copied. -/
structure Copied (st : Compaction) (d : Disk) (t : Table) : Prop where
  held : Held .compactTmp st.tempStore st.newIndex d t
  vectors : st.newVectors.keys = t.keys
  tracked : st.newVectorIndex.trackedIds = t.keys
  intact : st.newVectorIndex.Intact

theorem ensures_copyDocument [LawfulEnv] {st : Compaction} {doc : Document}
    {Q : Compaction → Session → Disk → Prop} (h : Copied st d t)
    (hfits : (RecordStore.encodeDocument doc).length < 2 ^ 32)
    (hQ : ∀ st' n d', d' .data = d .data → Copied st' d' (t.insert doc.id doc) →
      Q st' ⟨s.coll, n⟩ d') :
    ensures (copyDocument st doc) Q s d := by
  simp only [copyDocument, Document.getVector, ensures_bind, ensures_draw, ensures_ofExcept,
    ensures_pure]
  refine ensures_of_wp (RecordStore.wp_append (C := fun _ => True) (R := fun _ _ _ => True)
    h.held.openOn hfits (fun _ _ => trivial) ?_)
  intro p store d' hk hopen hcursor hp hrec ix hix
  have hkeys : (st.newVectors.insert doc.id doc.vector).keys = (t.insert doc.id doc).keys := by
    rw [HashMap.keys_insert, HashMap.keys_insert, h.vectors]
  have hins := h.intact.insert hix
  refine hQ _ _ d' (hk.files _ (by simp [StoreFile.file])) ⟨?_, hkeys, ?_, hins.intact⟩
  · exact (h.held.appended hk hopen (Nat.le.intro hcursor.symm)).install hp hrec hfits
  · rcases hins.tracks with htracks | ⟨-, htracks⟩
    · exact htracks.trans (by rw [h.tracked, HashMap.keys_insert])
    · exact htracks.trans hkeys

theorem ensures_copyDocuments [LawfulEnv] {docs : List Document} {st : Compaction}
    {Q : Compaction → Session → Disk → Prop} (h : Copied st d t)
    (hfits : ∀ doc ∈ docs, (RecordStore.encodeDocument doc).length < 2 ^ 32)
    (hQ : ∀ st' n d', d' .data = d .data → Copied st' d' (t.insertDocs docs) →
      Q st' ⟨s.coll, n⟩ d') :
    ensures (copyDocuments docs st) Q s d := by
  induction docs generalizing st s d t with
  | nil => exact ensures_pure.mpr (hQ st s.draws d rfl h)
  | cons doc docs ih =>
      simp only [copyDocuments, ensures_bind]
      refine ensures_copyDocument h (hfits doc (by simp)) fun st₁ n₁ d₁ hd₁ h₁ => ?_
      refine ih (s := ⟨s.coll, n₁⟩) h₁ (fun doc' hdoc' => hfits doc' (by simp [hdoc'])) ?_
      intro st₂ n₂ d₂ hd₂ h₂
      exact hQ st₂ n₂ d₂ (hd₂.trans hd₁) h₂

theorem ensures_writeCompacted [LawfulEnv] {Q : CollectionMetadata × Compaction → Session → Disk → Prop}
    (h : Held .data s.coll.recordStore s.coll.index d t)
    (hQ : ∀ metadata st n d', Copied st d' t → metadata.vectorCount = t.len →
      Q (metadata, st) ⟨s.coll, n⟩ d') :
    ensures writeCompacted Q s d := by
  simp only [writeCompacted, ensures_bind, ensures_draw, ensures_self, ensures_device,
    ensures_ofExcept]
  intro docs hdocs
  rw [h.getAll, Except.ok.injEq] at hdocs
  refine ensures_when_emit fun d₀ => ?_
  refine ensures_of_wp (RecordStore.wp_openFile (C := fun _ => True) (R := fun _ _ _ => True)
    (fun _ _ => trivial) ?_)
  intro store d₁ _ hopen _
  refine ensures_copyDocuments (s := ⟨s.coll, s.draws + 1⟩) (t := ∅) ⟨.empty hopen, rfl, ?_, ?_⟩ ?_ ?_
  · exact s.coll.config.index.trackedIds_createIndex _
  · exact s.coll.config.index.intact_createIndex _
  · intro doc hdoc
    rw [← hdocs, List.mem_filterMap] at hdoc
    obtain ⟨id, -, hid⟩ := hdoc
    exact h.fits id doc hid
  · intro st n d₂ _ hst
    rw [← hdocs, Table.insertDocs_enum h.own] at hst
    simp only [RecordStore.sync, ensures_emit, ensures_pure, Effect.apply_sync]
    exact hQ _ st _ d₂ hst hst.held.len

/-- The index that was copied shows the documents of the new data file. -/
theorem ensures_adoptCompacted {metadata : CollectionMetadata} {st : Compaction}
    {Q : Unit → Session → Disk → Prop}
    (hshows : st.newIndex.Shows (fun _ => True) (d.read .data) t.lookup)
    (hown : ∀ id doc, t.lookup id = some doc → doc.id = id)
    (hfits : ∀ id doc, t.lookup id = some doc → (RecordStore.encodeDocument doc).length < 2 ^ 32)
    (htracked : st.newVectorIndex.trackedIds = t.keys) (hintact : st.newVectorIndex.Intact)
    (hcounted : metadata.vectorCount = t.len)
    (hQ : ∀ s' d', Coherent s'.coll d' t → Q () s' d') :
    ensures (adoptCompacted metadata st) Q s d := by
  simp only [adoptCompacted, saveIndex, saveVectorIndex, saveMetadata, ensures_bind, ensures_self,
    ensures_update, ensures_emit, Effect.apply_write]
  refine ensures_of_wp (RecordStore.wp_openFile (C := fun _ => True) (R := fun _ _ _ => True)
    (fun _ _ => trivial) ?_)
  intro store d₁ hk hopen hcursor
  have hbelow := below_nextAppendOffset st.newIndex
  have hheld : Held .data store st.newIndex d₁ t :=
    ⟨hopen, (hk _).shows hbelow hshows, hcursor ▸ hbelow, hown, hfits⟩
  refine ensures_recache (s := ⟨_, s.draws⟩) hheld htracked hintact hcounted fun s₂ h₂ _ => ?_
  refine Wal.ensures_rotate fun d₃ hd₃ => hQ _ _ (h₂.aside ⟨rfl, ?_⟩)
  rw [hd₃ _ (by simp)]
  simp

theorem ensures_compact [LawfulEnv] {Q : CompactStats → Session → Disk → Prop}
    (h : Held .data s.coll.recordStore s.coll.index d t)
    (hQ : ∀ s' d', Coherent s'.coll d' t → Q ⟨t.len, t.len⟩ s' d') :
    ensures compact Q s d := by
  simp only [compact, ensures_bind, ensures_self, ensures_emit, ensures_pure, Effect.apply_rename]
  refine ensures_writeCompacted h fun metadata st n d₁ hst hcounted => ?_
  have hread : ((d₁.put .data (d₁ .compactTmp)).put .compactTmp none).read .data =
      d₁.read .compactTmp := by
    simp [Disk.read]
  refine ensures_adoptCompacted (hread ▸ hst.held.shows) hst.held.own hst.held.fits hst.tracked
    hst.intact hcounted fun s₂ d₂ h₂ => ?_
  rw [h.len, hst.held.len]
  exact hQ s₂ d₂ h₂

end Collection

/-! ## Opening -/

namespace CollectionBuilder

open Collection

/-- A new log has nothing to replay. -/
theorem ensures_newLog [LawfulEnv] {config : CollectionConfig} {n seq minSeq : Nat} {d : Disk}
    {Q : Wal → List WalEntry → Nat → Disk → Prop} (hwal : d .wal = none)
    (hQ : ∀ wal d', d' .data = d .data → Q wal [] n d') :
    ensures (openWal config seq) (fun wal n d =>
      ensures (loadWalEntries config wal minSeq) (Q wal) n d) n d := by
  unfold openWal
  cases henabled : config.wal.enabled with
  | false =>
      simp only [loadWalEntries, henabled, Bool.false_eq_true, if_false, ensures_pure]
      exact hQ _ d rfl
  | true =>
      have hread : d.read .wal = [] := by
        unfold Disk.read
        rw [hwal]
        rfl
      have hline : Wal.line (Env.walHeader.encode ⟨WAL_VERSION⟩) = Wal.fileOf [] := by
        simp [Wal.line, Wal.fileOf]
      simp only [loadWalEntries, henabled, if_true, Wal.new, Wal.ensureHeader, Wal.replay, fileLen,
        Bool.not_true, Bool.false_eq_true, if_false, ensures_bind, ensures_emit, ensures_device,
        ensures_pure, ensures_when, ensures_ofExcept, Effect.apply_create, Effect.apply_append,
        Disk.read_put_self, Option.getD_some, hread, List.length_nil, List.nil_append, hline]
      refine ⟨fun _ entries hentries => ?_, fun hne => absurd trivial hne⟩
      rw [Wal.entriesOf_fileOf minSeq (by simp)] at hentries
      cases hentries
      exact hQ _ _ (by simp)

/-- A collection opened where there are no files is empty. -/
theorem ensures_openCollection [LawfulEnv] {path : String} {config : CollectionConfig} {n : Nat}
    {Q : Collection → Nat → Disk → Prop} (hQ : ∀ c n d, Coherent c d ∅ → Q c n d) :
    ensures (openCollection path config) Q n Disk.empty := by
  simp only [openCollection, loadCollection, loadIndex, ensures_bind, ensures_device]
  simp only [Disk.empty, ensures_pure]
  refine ensures_of_wp (RecordStore.wp_openFile (C := fun _ => True) (R := fun _ _ _ => True)
    (fun _ _ => trivial) ?_)
  intro store d₁ hk hopen _
  have hnone : ∀ f, f ≠ .data → d₁ f = none := fun f hf => (hk 0).files f hf
  simp only [draw, ensures_bind, ensures_asks, ensures_modify, ensures_pure, loadMetadata,
    loadVectorIndex, ensures_device]
  rw [hnone .metadata (by simp), ensures_pure, hnone .vecindex (by simp), ensures_pure]
  have hseq : ∀ {Q : Nat → Nat → Disk → Prop} {n : Nat}, Q 0 n d₁ →
      ensures (loadMinSeq config) Q n d₁ := by
    intro Q n hQ
    unfold loadMinSeq Wal.loadWalMeta
    split
    · rw [ensures_bind, ensures_device, hnone .walMeta (by simp), ensures_pure]
      exact hQ
    · exact ensures_pure.mpr hQ
  refine hseq (ensures_newLog (hnone .wal (by simp)) fun wal d₂ hd₂ => ?_)
  have hheld := (Held.empty hopen).disk hd₂
  have htracked : (config.index.createIndex 0).trackedIds = ∅ :=
    config.index.trackedIds_createIndex 0
  simp only [List.isEmpty_nil, Bool.not_true, Bool.false_eq_true, if_false, ensures_bind,
    restoreVectorIndex]
  rw [if_neg (fun h => h.1 rfl), ensures_pure]
  simp only [onCollection, ensures_bind, ensures_embed, ensures_pure]
  refine ensures_recache hheld htracked (config.index.intact_createIndex _) rfl fun s' h' _ => ?_
  exact hQ s'.coll _ d₂ h'

end CollectionBuilder

end
