-- SUMMARY: An open collection together with the files under it, and the steps of operations on the two.
import Piramid.Collections.Memory

/-!
# Open collections

What an operation may rely on between two of its steps: the files stand for a
stored map, the collection in memory holds a map, and the collection appends
behind every record that either of them points to.
-/

open Loop Prog SnapshotLog

section

variable [Env]

/-- A configuration under which a log of documents of the domain can always be replayed: it is
written, no limit refuses what it holds, and the index can be filled. -/
structure CollectionConfig.Replayable (config : CollectionConfig) (dom : VectorDomain) : Prop where
  enabled : config.wal.enabled = true
  unlimited : config.limits = .unlimited
  usable : config.index.Usable
  sorts : ∀ n, (config.index.createIndex n).SortsOn dom

theorem CollectionConfig.Replayable.able {config : CollectionConfig} {dom : VectorDomain}
    (h : config.Replayable dom) (n : Nat) : (config.index.createIndex n).Able dom :=
  ⟨h.usable.ready dom.dim n, h.sorts n⟩

/-- The collection `c` is open on `d`. The files stand for `g`; in memory `c` holds
`m`, and reads the records under the ids that satisfy `ids`. -/
structure Live (config : CollectionConfig) (dom : VectorDomain) (ids : Uuid → Prop) (c : Collection)
    (d : Disk) (g : StoredMap) (m : DocMap) : Prop where
  replayable : config.Replayable dom
  stored : Stored dom d g
  behind : ∀ index, d.IndexFile index → index.Below c.recordStore.appendCursor
  header : d.read .wal ≠ []
  file : c.checkpoint.wal.file = true
  floor : g.floor < c.checkpoint.wal.nextSeq
  openOn : c.recordStore.OpenOn .data d
  memory : Memory config dom ids c (d.read .data) m

/-- Every update in the log has a number below the next one. -/
def Numbered (g : StoredMap) (c : Collection) : Prop :=
  ∀ e ∈ g.log, e.update.isSome → e.seq < c.checkpoint.wal.nextSeq

variable {config : CollectionConfig} {dom : VectorDomain} {ids ids' : Uuid → Prop} {c c' : Collection}
  {d d' : Disk} {g : StoredMap} {m m' : DocMap}

namespace Live

/-- Only the collection in memory changes. -/
theorem remember (h : Live config dom ids c d g m)
    (hmem : Memory config dom ids' c' (d.read .data) m')
    (hstore : c'.recordStore = c.recordStore) (hwal : c'.checkpoint.wal = c.checkpoint.wal) :
    Live config dom ids' c' d g m' where
  replayable := h.replayable
  stored := h.stored
  behind := hstore ▸ h.behind
  header := h.header
  file := hwal ▸ h.file
  floor := hwal ▸ h.floor
  openOn := hstore ▸ h.openOn
  memory := hmem

theorem mono (h : Live config dom ids c d g m) (hids : ∀ id, ids' id → ids id) :
    Live config dom ids' c d g m :=
  h.remember (h.memory.mono hids) rfl rfl

/-- Where every id could be read, every id can still be. -/
theorem all {p : Uuid → Prop} (h : Live config dom (fun id => True ∨ p id) c d g m) :
    Live config dom (fun _ => True) c d g m :=
  h.mono fun _ _ => .inl trivial

/-- Records were written behind the cursor, which moved on. -/
theorem appended (h : Live config dom ids c d g m) {store : RecordStore}
    (hk : Disk.Keeps .data c.recordStore.appendCursor d d') (hopen : store.OpenOn .data d')
    (hcursor : c.recordStore.appendCursor ≤ store.appendCursor) :
    Live config dom ids { c with recordStore := store } d' g m where
  replayable := h.replayable
  stored := h.stored.keeps hk h.behind
  behind index hindex := by
    rw [Disk.IndexFile, hk.files _ (by simp)] at hindex
    exact (h.behind index hindex).mono hcursor
  header := by
    rw [hk.read (by simp)]
    exact h.header
  file := h.file
  floor := h.floor
  openOn := hopen
  memory :=
    { h.memory with
      shows := hk.shows h.memory.below h.memory.shows
      below := h.memory.below.mono hcursor }

/-- Installing a pointer to the record of a document. -/
theorem install (h : Live config dom ids c d g m) {doc : Document} (hdoc : doc.Sound dom)
    {p : EntryPointer} (hp : p.stop ≤ c.recordStore.appendCursor)
    (hrec : Extent.Record (d.read .data) p doc) :
    Live config dom (fun id => ids id ∨ id = doc.id)
      { c with index := Finmap.insert doc.id p c.index } d g ((Update.put doc.id doc).apply m) :=
  h.remember (h.memory.install hdoc hp hrec) rfl rfl

/-- The documents of the collection can be read. -/
theorem get (h : Live config dom (fun _ => True) c d g m) (id : Uuid) : c.get d id = .ok (m id) :=
  Collection.get_eq h.openOn h.memory.shows id

/-- All documents are read, in the order of the offset index. -/
theorem getAll (h : Live config dom (fun _ => True) c d g m) (order : HashOrder Uuid) :
    c.getAll d order = .ok ((order.enum c.index.keys).filterMap m) := by
  have hmapM : ∀ ids : List Uuid, ids.mapM (c.get d) = .ok (ids.map m) := by
    intro ids
    induction ids with
    | nil => rfl
    | cons id ids ih =>
        rw [List.mapM_cons, h.get, ih]
        rfl
  unfold Collection.getAll
  rw [hmapM]
  change Except.ok _ = _
  rw [List.filterMap_map]
  rfl

end Live

/-! ## Steps in memory -/

variable {s : Session} {C : Disk → Prop} {R : Fault → Session → Disk → Prop}

namespace Collection

theorem wp_updateVectorCount {Q : Unit → Session → Disk → Prop}
    (h : Live config dom ids s.coll d g m)
    (hQ : ∀ s', Live config dom ids s'.coll d g m →
      s'.coll.checkpoint = s.coll.checkpoint → Q () s' d) :
    wp updateVectorCount C Q R s d := by
  simp only [updateVectorCount, wp_bind, wp_draw, wp_update]
  exact hQ _ (h.remember (h.memory.updateVectorCount _ _) rfl rfl) rfl

theorem wp_indexVector {id : Uuid} {vector : Vector32} {Q : Unit → Session → Disk → Prop}
    (h : Live config dom ids s.coll d g m) (hvector : dom.Has vector)
    (hQ : ∀ s', Live config dom ids s'.coll d g m →
      s'.coll.checkpoint = s.coll.checkpoint → Q () s' d) :
    wp (indexVector id vector) C Q R s d := by
  simp only [indexVector, wp_bind, wp_draw, wp_self, wp_ofExcept, wp_update]
  have hinsert : Returns (VectorIndex.Able dom) (s.coll.vectorIndex.insert id vector
      (s.coll.cache.reader (Env.chance s.draws).order) (Env.chance s.draws).random) :=
    h.memory.able.insert hvector (h.memory.within.reader _) _
  obtain ⟨ix, hix, hable⟩ := hinsert
  rw [hix]
  refine ⟨fun ix' hix' => ?_, fun e he => by cases he⟩
  cases hix'
  exact hQ _ (h.remember (h.memory.setVectorIndex hable) rfl rfl) rfl

/-- Setting the dimension and checking a vector against it, as every write does. -/
theorem wp_setAndCheck {vector : Vector32} {Q : Unit → Session → Disk → Prop}
    (h : Live config dom ids s.coll d g m) (hlen : vector.length = dom.dim)
    (hQ : ∀ s', Live config dom ids s'.coll d g m →
      s'.coll.checkpoint = s.coll.checkpoint → Q () s' d) :
    wp (setDimensions vector.length) C (fun _ => wp (checkDimensions vector) C Q R) R s d := by
  have hset : Memory config dom ids
      { s.coll with metadata := s.coll.metadata.setDimensions vector.length } (d.read .data) m :=
    hlen ▸ h.memory.setDimensions
  simp only [setDimensions, checkDimensions, wp_update, wp_bind, wp_self]
  rw [CollectionMetadata.setDimensions_dimensions]
  have hdim : s.coll.metadata.dimensions.getD vector.length = vector.length := by
    rw [hlen]
    exact hset.dimensions _ (by rw [CollectionMetadata.setDimensions_dimensions, hlen])
  simp only [hdim, validateDimensions, wp_ofExcept]
  refine ⟨fun _ _ => hQ _ (h.remember hset rfl rfl) rfl, fun e he => ?_⟩
  simp at he

theorem wp_checkOrSetDimensions {vector : Vector32} {Q : Unit → Session → Disk → Prop}
    (h : Live config dom ids s.coll d g m) (hlen : vector.length = dom.dim)
    (hQ : ∀ s', Live config dom ids s'.coll d g m →
      s'.coll.checkpoint = s.coll.checkpoint → Q () s' d) :
    wp (checkOrSetDimensions vector) C Q R s d := by
  simp only [checkOrSetDimensions, wp_bind, wp_self]
  cases hdim : s.coll.metadata.dimensions with
  | none =>
      simp only [setDimensions, wp_update]
      exact hQ _ (h.remember (hlen ▸ h.memory.setDimensions) rfl rfl) rfl
  | some n =>
      have hn : vector.length = n := hlen.trans (h.memory.dimensions n hdim).symm
      simp only [validateDimensions, wp_ofExcept]
      refine ⟨fun _ _ => hQ s h rfl, fun e he => ?_⟩
      rw [if_neg (not_not.mpr hn)] at he
      cases he

theorem wp_deleteInternal {id : Uuid} {Q : Unit → Session → Disk → Prop}
    (h : Live config dom ids s.coll d g m)
    (hQ : ∀ s', Live config dom (fun id' => ids id' ∨ id' = id) s'.coll d g
        ((Update.del id).apply m) →
      s'.coll.checkpoint = s.coll.checkpoint → Q () s' d) :
    wp (deleteInternal id) C Q R s d := by
  simp only [deleteInternal, wp_bind, wp_draw, wp_update]
  have hmem : Memory config dom (fun id' => ids id' ∨ id' = id)
      { s.coll with
        index := s.coll.index.erase id
        vectorIndex := s.coll.vectorIndex.remove id (Env.chance s.draws).order
        cache := s.coll.cache.remove id
          ((s.coll.vectorIndex.remove id (Env.chance s.draws).order).indexType ≠ .hnsw) }
      (d.read .data) ((Update.del id).apply m) :=
    { h.memory with
      shows := h.memory.shows.erase id
      below := h.memory.below.erase id
      sound := h.memory.sound.apply fun doc hdoc => by cases hdoc
      able := h.memory.able.remove id _
      within := h.memory.within.remove id _ }
  exact wp_updateVectorCount (s := ⟨_, s.draws + 1⟩) (h.remember hmem rfl rfl) hQ

/-! ## Steps on disk -/

variable [LawfulEnv]

theorem wp_appendRecord {doc : Document} {Q : EntryPointer → Session → Disk → Prop}
    (h : Live config dom ids s.coll d g m)
    (hdoc : (RecordStore.encodeDocument doc).length < 2 ^ 32) (hC : ∀ d', Stored dom d' g → C d')
    (hQ : ∀ p s' d', Live config dom ids s'.coll d' g m → s'.coll.checkpoint = s.coll.checkpoint →
      p.stop ≤ s'.coll.recordStore.appendCursor → Extent.Record (d'.read .data) p doc → Q p s' d') :
    wp (appendRecord (RecordStore.encodeDocument doc)) C Q R s d := by
  simp only [appendRecord, wp_bind, wp_self, wp_update, wp_pure]
  refine RecordStore.wp_append h.openOn hdoc (fun d' hk => hC d' (h.stored.keeps hk h.behind)) ?_
  intro p store d' hk hopen hcursor hp hrec
  exact hQ p _ d' (h.appended hk hopen (Nat.le.intro hcursor.symm)) rfl hp hrec

omit [LawfulEnv] in
/-- Without limits a record is always admitted. -/
theorem Live.enforceSingle {c : Collection} (h : Live config dom ids c d g m) (bytes : Nat) :
    c.enforceSingle bytes = .ok () := by
  rw [enforceSingle_eq_ok, h.memory.config, h.replayable.unlimited]
  exact .unlimited _ _ _

/-- A document is stored and indexed. -/
theorem wp_insertInternal {doc : Document} {Q : Uuid → Session → Disk → Prop}
    (h : Live config dom ids s.coll d g m) (hdoc : doc.Sound dom)
    (hC : ∀ d', Stored dom d' g → C d')
    (hQ : ∀ s' d', Live config dom (fun id => ids id ∨ id = doc.id) s'.coll d' g
        ((Update.put doc.id doc).apply m) →
      s'.coll.checkpoint = s.coll.checkpoint → Q doc.id s' d') :
    wp (insertInternal doc) C Q R s d := by
  simp only [insertInternal, Document.getVector, wp_bind, wp_self, wp_ofExcept, Live.enforceSingle h]
  refine ⟨fun _ _ => ?_, fun e he => by cases he⟩
  refine wp_appendRecord h hdoc.fits hC ?_
  intro p s₁ d₁ hlive₁ hcheckpoint₁ hp hrec
  rw [wp_update]
  refine wp_setAndCheck (hlive₁.install hdoc hp hrec) hdoc.vector.length ?_
  intro s₂ hlive₂ hcheckpoint₂
  rw [wp_update]
  refine wp_indexVector (hlive₂.remember (hlive₂.memory.setCache
    ((hlive₂.memory.within.putVector doc.id hdoc.vector).putMetadata doc.id doc.metadata)) rfl rfl)
    hdoc.vector ?_
  intro s₃ hlive₃ hcheckpoint₃
  refine wp_updateVectorCount hlive₃ ?_
  intro s₄ hlive₄ hcheckpoint₄
  rw [wp_pure]
  exact hQ s₄ d₁ hlive₄ (hcheckpoint₄.trans (hcheckpoint₃.trans (hcheckpoint₂.trans hcheckpoint₁)))

omit [LawfulEnv] in
/-- An entry is logged under the next number. -/
theorem wp_logEntry_live {entry : WalEntry} {Q : Unit → Session → Disk → Prop}
    (h : Live config dom ids s.coll d g m)
    (hnum : entry.update?.isSome → Numbered g s.coll) (hentry : entry.Sound dom)
    (hC : ∀ d' g', Stored dom d' g' → g'.contents = replay entry.update?.toList g.contents → C d')
    (hQ : ∀ d' g',
      d' = d.put .wal (some (d.read .wal ++
        Wal.line (Env.walEntry.encode (entry.withSeq s.coll.checkpoint.wal.nextSeq)))) →
      g' = { g with
        log := g.log ++ [(entry.withSeq s.coll.checkpoint.wal.nextSeq).numbered] } →
      Live config dom ids s.coll.logged d' g' m →
      g'.contents = replay entry.update?.toList g.contents →
      Q () { s with coll := s.coll.logged } d') :
    wp (logEntry entry) C Q R s d := by
  have hlogged : d.logged s.coll.checkpoint.wal entry = d.put .wal (some (d.read .wal ++
      Wal.line (Env.walEntry.encode (entry.withSeq s.coll.checkpoint.wal.nextSeq)))) := by
    rw [Disk.logged, if_pos h.file]
  have hstored := h.stored.logEntry h.header (hentry.withSeq s.coll.checkpoint.wal.nextSeq)
    fun hup e he heup => by
      rw [WalEntry.update?_withSeq] at hup
      rw [WalEntry.seq_withSeq]
      exact hnum hup e he heup
  have hcontents : Store.contents { g with
      log := g.log ++ [(entry.withSeq s.coll.checkpoint.wal.nextSeq).numbered] } =
      replay entry.update?.toList g.contents := by
    rw [Store.contents_append g (by simpa [WalEntry.numbered] using h.floor)]
    simp [WalEntry.numbered]
  refine wp_logEntry ?_ ?_
  · rw [hlogged]
    exact hC _ _ hstored hcontents
  · rw [hlogged]
    refine hQ _ _ rfl rfl ?_ hcontents
    exact {
      replayable := h.replayable
      stored := hstored
      behind := fun index hindex => h.behind index (by simpa using hindex)
      header := by simp [Wal.line]
      file := h.file
      floor := Nat.lt_succ_of_lt h.floor
      openOn := ⟨h.openOn.dataFile, fun len hlen => by
        rw [Disk.read_put_other _ (by simp [StoreFile.file])]
        exact h.openOn.mmap len hlen⟩
      memory := by
        rw [Disk.read_put (by simp)]
        exact h.memory.setCheckpoint _ }

end Collection

end
