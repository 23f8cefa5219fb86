-- SUMMARY: Compaction, effect by effect: the files stand for the documents except between the rename and the new index.
import Piramid.Collections.Recovery

/-!
# Compaction

The documents are copied to a file of their own, which then takes the place of the data file.
Until the offset index is saved as well, the index on disk points into a file that is gone.
-/

open Loop Prog SnapshotLog

section

variable [Env]

variable {config : CollectionConfig} {dom : VectorDomain} {c : Collection} {d : Disk} {g : StoredMap}
  {m m' : DocMap} {s : Session} {C : Disk → Prop} {R : Fault → Session → Disk → Prop}

/-- The data file holds the documents, in records that only an index nobody saved points to. -/
def Stranded (m : DocMap) (d d' : Disk) : Prop :=
  (∀ f, f ≠ .data → f ≠ .compactTmp → d' f = d f) ∧
    ∃ index : OffsetIndex, index.Shows (fun _ => True) (d'.read .data) m

/-! ## Copying -/

/-- The documents of `m` are copied. -/
structure Copying (dom : VectorDomain) (st : Collection.Compaction) (d : Disk) (m : DocMap) : Prop where
  openOn : st.tempStore.OpenOn .compactTmp d
  shows : st.newIndex.Shows (fun _ => True) (d.read .compactTmp) m
  below : st.newIndex.Below st.tempStore.appendCursor
  within : ∀ id v, st.newVectors.lookup id = some v → dom.Has v
  able : st.newVectorIndex.Able dom
  schema : st.newMetadata.schemaVersion = SCHEMA_VERSION
  dimensions : ∀ n, st.newMetadata.dimensions = some n → n = dom.dim

omit [Env] in
/-- Documents under their own ids, put one after the other, are the map they come from. -/
theorem replay_docs (hown : ∀ id doc, m id = some doc → doc.id = id) {ids : List Uuid}
    (hall : ∀ id, (m id).isSome → id ∈ ids) :
    replay ((ids.filterMap m).map fun doc => .put doc.id doc) (fun _ => none) = m := by
  have hlookup : ∀ (ids : List Uuid) (m₀ : DocMap) (id : Uuid),
      (∀ id doc, m₀ id = some doc → m id = some doc) →
      replay ((ids.filterMap m).map fun doc => .put doc.id doc) m₀ id =
        if id ∈ ids then m id else m₀ id := by
    intro ids
    induction ids with
    | nil => intro m₀ id _; simp
    | cons id' ids ih =>
        intro m₀ id hm₀
        cases hdoc : m id' with
        | none =>
            rw [List.filterMap_cons_none hdoc, ih m₀ id hm₀]
            by_cases hid : id = id'
            · subst hid
              cases hm₀id : m₀ id with
              | none => simp [hdoc]
              | some doc =>
                  have := hm₀ id doc hm₀id
                  rw [hdoc] at this
                  cases this
            · simp [hid]
        | some doc =>
            have hid' := hown id' doc hdoc
            have hput : ∀ id doc', (Update.put doc.id doc).apply m₀ id = some doc' → m id = some doc' := by
              intro id doc' hdoc'
              rw [Update.apply] at hdoc'
              split at hdoc'
              · rename_i hkey
                cases hdoc'
                rw [hkey]
                change m doc.id = _
                rw [hid', hdoc]
              · exact hm₀ id doc' hdoc'
            rw [List.filterMap_cons_some hdoc, List.map_cons, replay_cons, ih _ id hput]
            by_cases hids : id ∈ ids
            · simp [hids]
            · by_cases hid : id = id'
              · subst hid
                simp [hdoc, Update.apply, Update.key, Update.value, hid']
              · simp [hids, hid, Update.apply, Update.key, hid']
  funext id
  rw [hlookup ids _ id (fun _ _ h => by cases h)]
  by_cases hid : id ∈ ids
  · simp [hid]
  · rw [if_neg hid]
    cases hm : m id with
    | none => rfl
    | some doc => exact (hid (hall id (by simp [hm]))).elim

namespace Collection

theorem wp_copyDocument [LawfulEnv] {st : Compaction} {doc : Document}
    {Q : Compaction → Session → Disk → Prop} (h : Copying dom st d m) (hdoc : doc.Sound dom)
    (hC : ∀ d', (∀ f, f ≠ .compactTmp → d' f = d f) → C d')
    (hQ : ∀ st' n d', (∀ f, f ≠ .compactTmp → d' f = d f) →
      Copying dom st' d' ((Update.put doc.id doc).apply m) → Q st' ⟨s.coll, n⟩ d') :
    wp (copyDocument st doc) C Q R s d := by
  simp only [copyDocument, Document.getVector, wp_bind, wp_draw, wp_ofExcept, wp_pure]
  refine RecordStore.wp_append h.openOn hdoc.fits (fun d' hk => hC d' hk.files) ?_
  intro p store d' hk hopen hcursor hp hrec
  have hvectors : dom.Reads ⟨st.newVectors.insert doc.id doc.vector,
      (Env.chance s.draws).order⟩ := by
    intro id v hv
    change (st.newVectors.insert doc.id doc.vector).lookup id = some v at hv
    rw [HashMap.lookup_insert] at hv
    split at hv
    · cases hv
      exact hdoc.vector
    · exact h.within id v hv
  have hinserted : Returns (VectorIndex.Able dom) (st.newVectorIndex.insert doc.id doc.vector
      ⟨st.newVectors.insert doc.id doc.vector, (Env.chance s.draws).order⟩ (Env.chance s.draws).random) :=
    h.able.insert hdoc.vector hvectors _
  obtain ⟨ix, hix, hable⟩ := hinserted
  rw [hix]
  refine ⟨fun ix' hix' => ?_, fun e he => by cases he⟩
  cases hix'
  refine hQ _ _ d' hk.files ?_
  exact {
    openOn := hopen
    shows := ((hk.shows h.below h.shows).insert hrec).mono fun _ _ => .inl trivial
    below := (h.below.mono (Nat.le.intro hcursor.symm)).insert doc.id hp
    within := hvectors
    able := hable
    schema := by rw [CollectionMetadata.setDimensions_schemaVersion, h.schema]
    dimensions := by
      intro n hn
      rw [CollectionMetadata.setDimensions_dimensions, Option.some.injEq] at hn
      cases hdim : st.newMetadata.dimensions with
      | none => simpa [hdim, hdoc.vector.length] using hn.symm
      | some k =>
          rw [hdim] at hn
          exact hn ▸ h.dimensions k hdim }

theorem wp_copyDocuments [LawfulEnv] {docs : List Document} {st : Compaction}
    {Q : Compaction → Session → Disk → Prop} (h : Copying dom st d m) (hdocs : ∀ doc ∈ docs, doc.Sound dom)
    (hC : ∀ d', (∀ f, f ≠ .compactTmp → d' f = d f) → C d')
    (hQ : ∀ st' n d', (∀ f, f ≠ .compactTmp → d' f = d f) →
      Copying dom st' d' (replay (docs.map fun doc => .put doc.id doc) m) → Q st' ⟨s.coll, n⟩ d') :
    wp (copyDocuments docs st) C Q R s d := by
  induction docs generalizing st s d m with
  | nil => exact wp_pure.mpr (hQ st s.draws d (fun _ _ => rfl) h)
  | cons doc docs ih =>
      simp only [copyDocuments, wp_bind]
      refine wp_copyDocument h (hdocs doc (by simp)) hC ?_
      intro st₁ n₁ d₁ hfiles₁ h₁
      refine ih (s := ⟨s.coll, n₁⟩) h₁ (fun doc' hdoc' => hdocs doc' (by simp [hdoc'])) ?_ ?_
      · exact fun d' hfiles => hC d' fun f hf => (hfiles f hf).trans (hfiles₁ f hf)
      · exact fun st' n' d' hfiles => hQ st' n' d' fun f hf => (hfiles f hf).trans (hfiles₁ f hf)

/-- All documents are copied, and only the temporary file is written. -/
theorem wp_writeCompacted [LawfulEnv] {Q : CollectionMetadata × Compaction → Session → Disk → Prop}
    (h : Live config dom (fun _ => True) s.coll d g m)
    (hC : ∀ d', (∀ f, f ≠ .compactTmp → d' f = d f) → C d')
    (hQ : ∀ metadata st n d', (∀ f, f ≠ .compactTmp → d' f = d f) → Copying dom st d' m →
      metadata.schemaVersion = SCHEMA_VERSION → (∀ k, metadata.dimensions = some k → k = dom.dim) →
      Q (metadata, st) ⟨s.coll, n⟩ d') :
    wp writeCompacted C Q R s d := by
  -- from a disk that differs in the temporary file alone
  have hcopy : ∀ d₀, (∀ f, f ≠ .compactTmp → d₀ f = d f) →
      wp (do
        let tempStore ← RecordStore.openFile .compactTmp s.coll.config ∅
        let docs := ((Env.chance s.draws).order.enum s.coll.index.keys).filterMap m
        let st ← copyDocuments docs {
          tempStore
          newIndex := ∅
          newVectors := ∅
          newVectorIndex := s.coll.config.index.createIndex docs.length
          newMetadata := s.coll.metadata.updateVectorCount 0 (Env.chance s.draws).now }
        let chance ← draw
        st.tempStore.sync
        pure (st.newMetadata.updateVectorCount st.newIndex.len chance.now, st)) C Q R
        ⟨s.coll, s.draws + 1⟩ d₀ := by
    intro d₀ hfiles₀
    simp only [wp_bind, wp_draw, wp_pure, RecordStore.sync, wp_emit, Effect.apply_sync]
    refine RecordStore.wp_openFile
      (fun d' hk => hC d' fun f hf => ((hk 0).files f hf).trans (hfiles₀ f hf)) ?_
    intro store d₁ hk hopen hcursor
    have hfiles₁ : ∀ f, f ≠ .compactTmp → d₁ f = d f := fun f hf =>
      ((hk 0).files f hf).trans (hfiles₀ f hf)
    have hempty : Copying dom ⟨store, ∅, ∅,
        s.coll.config.index.createIndex
          (((Env.chance s.draws).order.enum s.coll.index.keys).filterMap m).length,
        s.coll.metadata.updateVectorCount 0 (Env.chance s.draws).now⟩ d₁ (fun _ => none) := {
      openOn := hopen
      shows := ⟨fun id => by simp [Finmap.notMem_empty], fun id p _ hp => by simp at hp⟩
      below := fun id p hp => by simp at hp
      within := fun id v hv => by simp at hv
      able := by
        rw [h.memory.config]
        exact h.replayable.able _
      schema := h.memory.schema
      dimensions := h.memory.dimensions }
    refine wp_copyDocuments (s := ⟨s.coll, s.draws + 1⟩) hempty ?_ ?_ ?_
    · intro doc hdoc
      obtain ⟨id, -, hid⟩ := List.mem_filterMap.mp hdoc
      exact (h.memory.sound id doc hid).2
    · exact fun d' hfiles => hC d' fun f hf => (hfiles f hf).trans (hfiles₁ f hf)
    · intro st n d₂ hfiles₂ hst
      have hfiles : ∀ f, f ≠ .compactTmp → d₂ f = d f := fun f hf =>
        (hfiles₂ f hf).trans (hfiles₁ f hf)
      rw [replay_docs (fun id doc hdoc => (h.memory.sound id doc hdoc).1)] at hst
      · exact ⟨hC _ hfiles, hQ _ st _ d₂ hfiles hst hst.schema hst.dimensions⟩
      · intro id hid
        rw [HashOrder.mem_enum, Finmap.mem_keys, h.memory.shows.mem_iff]
        exact hid
  have hremoved : ∀ f, f ≠ .compactTmp → (d.put .compactTmp none) f = d f := fun f hf => by simp [hf]
  unfold writeCompacted
  refine wp_bind.mpr (wp_draw.mpr (wp_bind.mpr (wp_self.mpr (wp_bind.mpr (wp_device.mpr (wp_bind.mpr ?_))))))
  rw [h.getAll]
  refine wp_ofExcept.mpr ⟨fun docs hdocs => ?_, fun e he => by cases he⟩
  cases hdocs
  refine wp_bind.mpr (wp_when.mpr ⟨fun _ => wp_emit.mpr ⟨hC _ hremoved, ?_⟩, fun _ => ?_⟩)
  · exact hcopy _ hremoved
  · exact hcopy d fun _ _ => rfl

/-- Once the offset index is saved, the files stand for the documents again. -/
theorem wp_adoptCompacted [LawfulEnv] {Q : Unit → Session → Disk → Prop} {st : Compaction}
    {metadata : CollectionMetadata} {d₀ : Disk} (h : Stored dom d₀ g) (hcontents : g.contents = m)
    (hreplayable : config.Replayable dom) (hconfig : s.coll.config = config)
    (hfile : s.coll.checkpoint.wal.file = true) (hfloor : g.floor < s.coll.checkpoint.wal.nextSeq)
    (hfiles : ∀ f, f ≠ .data → f ≠ .compactTmp → d f = d₀ f)
    (hshows : st.newIndex.Shows (fun _ => True) (d.read .data) m) (hsound : m.Sound dom)
    (hable : st.newVectorIndex.Able dom) (hschema : metadata.schemaVersion = SCHEMA_VERSION)
    (hdimensions : ∀ k, metadata.dimensions = some k → k = dom.dim)
    (hstranded : ∀ d', Stranded m d₀ d' → C d') (hC : ∀ d', Recoverable dom m d' → C d')
    (hQ : ∀ s' d' g', Serving config dom s'.coll d' g' m m → Q () s' d') :
    wp (adoptCompacted metadata st) C Q R s d := by
  have hbelow := below_nextAppendOffset st.newIndex
  simp only [adoptCompacted, saveIndex, saveVectorIndex, saveMetadata, wp_bind, wp_self, wp_update,
    wp_emit, Effect.apply_write]
  refine RecordStore.wp_openFile (fun d' hk => ?_) ?_
  · refine hstranded d' ⟨fun f hdata htmp => ?_, st.newIndex, (hk _).shows hbelow hshows⟩
    rw [(hk 0).files f (by simpa [StoreFile.file] using hdata), hfiles f hdata htmp]
  · intro store d₁ hk hopen hcursor
    have hfiles₁ : ∀ f, f ≠ .data → f ≠ .compactTmp → d₁ f = d₀ f := by
      intro f hdata htmp
      rw [(hk 0).files f (by simpa [StoreFile.file] using hdata), hfiles f hdata htmp]
    have hshows₁ := (hk _).shows hbelow hshows
    refine wp_rebuildVectorCache hopen hshows₁ hsound ?_
    intro cache n hwithin
    -- the new index is a snapshot of what the log would bring back
    have hindex : Stored dom (d₁.put .index (some (Env.offsetIndex.encode st.newIndex)))
        { g with base := m } := {
      index := by
        refine ⟨st.newIndex, .inr ⟨_, Disk.put_self _ _ _, LawfulEnv.offsetIndex _⟩, ?_⟩
        rw [Disk.read_put (by simp)]
        exact hshows₁.mono fun _ _ => trivial
      log := by
        simpa [Disk.LogFile, Disk.read, hfiles₁ .wal (by simp) (by simp)] using h.log
      ordered := h.ordered
      floor := by
        simpa [Disk.FloorFile, hfiles₁ .walMeta (by simp) (by simp)] using h.floor
      sound := hsound
      vecindex := by
        simpa [hfiles₁ .vecindex (by simp) (by simp)] using h.vecindex
      metadata := by
        simpa [hfiles₁ .metadata (by simp) (by simp)] using h.metadata }
    have hsnapshot : Store.contents { g with base := m } = m := by
      rw [← hcontents]
      exact Store.contents_snapshot g
    have hvecindex := hindex.saveVectorIndex hable
    have hmetadata := hvecindex.saveMetadata hschema hdimensions
    refine ⟨hC _ ⟨_, hindex, hsnapshot⟩, hC _ ⟨_, hvecindex, hsnapshot⟩, hC _ ⟨_, hmetadata, hsnapshot⟩, ?_⟩
    have hdata₁ : (((d₁.put .index (some (Env.offsetIndex.encode st.newIndex))).put .vecindex
        (some (Env.vectorIndex.encode st.newVectorIndex))).put .metadata
        (some (Env.collectionMetadata.encode metadata))).read .data = d₁.read .data := by simp
    refine Wal.wp_rotate hfile hmetadata (.inr ⟨_, by simp, LawfulEnv.offsetIndex st.newIndex⟩)
      (hdata₁ ▸ hshows₁) (fun d' h' => hC d' ⟨_, h', Store.contents_truncate _⟩) ?_
    intro d' h' hheader hfiles'
    have hdata : d'.read .data = d₁.read .data := by
      rw [Disk.read, Disk.read, hfiles' _ (by simp)]
      simp
    refine hQ _ d' ⟨m, g.floor, []⟩ (Live.serving ?_ rfl rfl)
    exact {
      replayable := hreplayable
      stored := h'
      behind := by
        intro index hindex'
        have hsaved : d'.IndexFile st.newIndex := by
          refine .inr ⟨_, ?_, LawfulEnv.offsetIndex _⟩
          rw [hfiles' _ (by simp)]
          simp
        rw [hsaved.unique hindex', hcursor]
        exact hbelow
      header := hheader
      file := hfile
      floor := hfloor
      openOn := ⟨hopen.dataFile, fun len hlen => by
        rw [hopen.mmap len hlen]
        exact congrArg List.length hdata.symm⟩
      memory := {
        config := hconfig
        shows := by
          rw [hdata]
          exact hshows₁
        below := hcursor ▸ hbelow
        sound := hsound
        able := hable
        within := hwithin
        schema := hschema
        dimensions := hdimensions } }

/-- A compaction that is stopped leaves files that stand for the documents, or the new data file
beside the old offset index. -/
theorem wp_compact [LawfulEnv] {Q : CompactStats → Session → Disk → Prop}
    (h : Serving config dom s.coll d g m m) (hC : ∀ d', Recoverable dom m d' → C d')
    (hstranded : ∀ d', Stranded m d d' → C d')
    (hQ : ∀ stats s' d' g', Serving config dom s'.coll d' g' m m → Q stats s' d') :
    wp compact C Q R s d := by
  simp only [compact, wp_bind, wp_self, wp_emit, wp_pure, Effect.apply_rename]
  refine wp_writeCompacted h.live (fun d' hfiles => hC d' ⟨g, ?_, h.contents⟩) ?_
  · exact h.live.stored.other hfiles
  · intro metadata st n d₁ hfiles hst hschema hdimensions
    have hread : ((d₁.put .data (d₁ .compactTmp)).put .compactTmp none).read .data =
        d₁.read .compactTmp := by
      simp [Disk.read]
    have hfiles₂ : ∀ f, f ≠ .data → f ≠ .compactTmp →
        ((d₁.put .data (d₁ .compactTmp)).put .compactTmp none) f = d f := by
      intro f hdata htmp
      rw [Disk.put_other _ htmp, Disk.put_other _ hdata, hfiles f htmp]
    refine ⟨hstranded _ ⟨hfiles₂, st.newIndex, hread ▸ hst.shows⟩, ?_⟩
    refine wp_adoptCompacted (s := ⟨s.coll, n⟩) h.live.stored h.contents h.live.replayable
      h.live.memory.config h.live.file h.live.floor hfiles₂ (hread ▸ hst.shows) h.live.memory.sound
      hst.able hschema hdimensions hstranded hC ?_
    intro s₂ d₂ g₂ h₂
    exact hQ _ s₂ d₂ g₂ h₂

end Collection

end
