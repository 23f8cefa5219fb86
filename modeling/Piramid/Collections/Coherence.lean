-- SUMMARY: Every operation that returns keeps a collection coherent, and does to its table what it is for.
import Piramid.Collections.Coherent

/-!
# Operations on coherent collections

One rule for each operation. They say what a return leaves; faults and crashes do
not matter here.
-/

open Loop Prog

section

variable [Env]

/-- The collection holds `t`, and what is derived from the documents is derived from
those of `t`. -/
structure Coherent (c : Collection) (d : Disk) (t : Table) : Prop where
  held : Held .data c.recordStore c.index d t
  cached : Cached c.vectorIndex c.cache t
  counted : c.metadata.vectorCount = t.len

/-- Nothing but the checkpoints of the collection and files other than the data file
have changed. -/
structure Aside (s : Session) (d : Disk) (s' : Session) (d' : Disk) : Prop where
  coll : s'.coll = { s.coll with checkpoint := s'.coll.checkpoint }
  data : d' .data = d .data

/-- The sidecars are those of the collection. -/
structure Saved (c : Collection) (d : Disk) : Prop where
  index : d .index = some (Env.offsetIndex.encode c.index)
  vectorIndex : d .vecindex = some (Env.vectorIndex.encode c.vectorIndex)
  metadata : d .metadata = some (Env.collectionMetadata.encode c.metadata)

variable {s s' : Session} {d d' : Disk} {t : Table}

theorem Coherent.aside (h : Coherent s.coll d t) (ha : Aside s d s' d') : Coherent s'.coll d' t := by
  rw [ha.coll]
  exact ⟨h.held.disk ha.data, h.cached, h.counted⟩

/-! ## Checkpoints and the log -/

theorem Wal.ensures_rotate {σ : Type} {s : σ} {wal : Wal} {Q : Unit → σ → Disk → Prop}
    (hQ : ∀ d', (∀ f, f ≠ .wal → d' f = d f) → Q () s d') : ensures wal.rotate Q s d := by
  unfold Wal.rotate Wal.ensureHeader
  cases wal.file with
  | false => exact ensures_pure.mpr (hQ d fun _ _ => rfl)
  | true =>
      simp only [Bool.not_true, Bool.false_eq_true, if_false, fileLen, ensures_bind, ensures_emit,
        ensures_device, ensures_pure, ensures_when, Effect.apply_truncate, Effect.apply_sync,
        Effect.apply_append]
      exact ⟨fun _ => hQ _ fun f hf => by simp [hf], fun _ => hQ _ fun f hf => by simp [hf]⟩

namespace Collection

theorem ensures_logEntry {entry : WalEntry} {Q : Unit → Session → Disk → Prop}
    (hQ : ∀ s' d', Aside s d s' d' → Q () s' d') : ensures (logEntry entry) Q s d :=
  ensures_of_wp (wp_logEntry (C := fun _ => True) (R := fun _ _ _ => True) trivial
    (hQ _ _ ⟨rfl, Disk.logged_other (by simp)⟩))

/-- A checkpoint saves the collection. -/
theorem ensures_checkpointNow_saved {Q : Unit → Session → Disk → Prop}
    (hQ : ∀ s' d', Aside s d s' d' → Saved s'.coll d' → Q () s' d') :
    ensures checkpointNow Q s d := by
  simp only [checkpointNow, saveIndex, saveVectorIndex, saveMetadata, Wal.checkpoint, Wal.log,
    Wal.saveWalMeta, ensures_bind, ensures_draw, ensures_self, ensures_emit, ensures_when,
    ensures_pure, ensures_update, Effect.apply_write, Effect.apply_append, Effect.apply_rename,
    Effect.apply_sync]
  constructor
  · intro _
    constructor
    · intro _
      refine Wal.ensures_rotate fun d' hd' => hQ _ _ ⟨rfl, ?_⟩ ⟨?_, ?_, ?_⟩
      all_goals simp [hd']
    · intro _
      refine Wal.ensures_rotate fun d' hd' => hQ _ _ ⟨rfl, ?_⟩ ⟨?_, ?_, ?_⟩
      all_goals simp [hd']
  · intro _
    refine hQ _ _ ⟨rfl, ?_⟩ ⟨?_, ?_, ?_⟩
    all_goals simp

theorem ensures_checkpointNow {Q : Unit → Session → Disk → Prop}
    (hQ : ∀ s' d', Aside s d s' d' → Q () s' d') : ensures checkpointNow Q s d :=
  ensures_checkpointNow_saved fun s' d' ha _ => hQ s' d' ha

theorem ensures_trackOperation {Q : Unit → Session → Disk → Prop}
    (hQ : ∀ s' d', Aside s d s' d' → Q () s' d') : ensures trackOperation Q s d := by
  simp only [trackOperation, ensures_bind, ensures_draw, ensures_self, ensures_update, ensures_when]
  constructor
  · intro _
    refine ensures_checkpointNow fun s' d' ha => hQ _ _ ⟨?_, ha.data⟩
    rw [ha.coll]
  · intro _
    exact hQ _ _ ⟨rfl, rfl⟩

/-! ## Documents -/

variable [LawfulEnv]

theorem ensures_appendRecord {doc : Document} {Q : EntryPointer → Session → Disk → Prop}
    (h : Held .data s.coll.recordStore s.coll.index d t)
    (hfits : (RecordStore.encodeDocument doc).length < 2 ^ 32)
    (hQ : ∀ p store d', Held .data store (Finmap.insert doc.id p s.coll.index) d'
        (t.insert doc.id doc) →
      Q p { s with coll := { s.coll with recordStore := store } } d') :
    ensures (appendRecord (RecordStore.encodeDocument doc)) Q s d := by
  simp only [appendRecord, ensures_bind, ensures_self, ensures_update, ensures_pure]
  refine ensures_of_wp (RecordStore.wp_append (C := fun _ => True) (R := fun _ _ _ => True)
    h.openOn hfits (fun _ _ => trivial) ?_)
  intro p store d' hk hopen hcursor hp hrec
  exact hQ p store d' ((h.appended hk hopen (Nat.le.intro hcursor.symm)).install hp hrec hfits)

theorem ensures_insertInternal {doc : Document} {Q : Uuid → Session → Disk → Prop}
    (h : Coherent s.coll d t) (hfits : (RecordStore.encodeDocument doc).length < 2 ^ 32)
    (hQ : ∀ s' d', Coherent s'.coll d' (t.insert doc.id doc) → Q doc.id s' d') :
    ensures (insertInternal doc) Q s d := by
  simp only [insertInternal, Document.getVector, ensures_bind, ensures_self, ensures_ofExcept]
  intro _ _
  refine ensures_appendRecord h.held hfits ?_
  intro p store d' hheld
  simp only [setDimensions, checkDimensions, indexVector, updateVectorCount, ensures_bind,
    ensures_self, ensures_update, ensures_draw, ensures_pure, ensures_ofExcept,
    CollectionMetadata.setDimensions_dimensions, CacheManager.putVector_putMetadata]
  intro _ _ ix hix
  exact hQ _ _ ⟨hheld, h.cached.index doc hix, hheld.len⟩

omit [LawfulEnv] in
theorem ensures_deleteInternal {id : Uuid} {Q : Unit → Session → Disk → Prop}
    (h : Coherent s.coll d t) (hQ : ∀ s' d', Coherent s'.coll d' (t.erase id) → Q () s' d') :
    ensures (deleteInternal id) Q s d := by
  simp only [deleteInternal, updateVectorCount, ensures_bind, ensures_draw, ensures_update]
  exact hQ _ _ ⟨h.held.erase id, h.cached.remove id _, (h.held.erase id).len⟩

theorem ensures_insert {doc : Document} {Q : Uuid → Session → Disk → Prop}
    (h : Coherent s.coll d t) (hfits : (RecordStore.encodeDocument doc).length < 2 ^ 32)
    (hQ : ∀ s' d', Coherent s'.coll d' (t.insert doc.id doc) → Q doc.id s' d') :
    ensures (insert doc) Q s d := by
  simp only [insert, ensures_bind, ensures_pure]
  refine ensures_logEntry fun s₁ d₁ ha₁ => ?_
  refine ensures_insertInternal (h.aside ha₁) hfits fun s₂ d₂ h₂ => ?_
  exact ensures_trackOperation fun s₃ d₃ ha₃ => hQ s₃ d₃ (h₂.aside ha₃)

theorem ensures_upsert {doc : Document} {Q : Uuid → Session → Disk → Prop}
    (h : Coherent s.coll d t) (hfits : (RecordStore.encodeDocument doc).length < 2 ^ 32)
    (hQ : ∀ s' d', Coherent s'.coll d' (t.insert doc.id doc) → Q doc.id s' d') :
    ensures (upsert doc) Q s d := by
  simp only [upsert, ensures_bind, ensures_self, ensures_ofExcept, ensures_ite, ensures_pure]
  intro _ _
  constructor
  · intro _
    refine ensures_logEntry fun s₁ d₁ ha₁ => ?_
    refine ensures_deleteInternal (h.aside ha₁) fun s₂ d₂ h₂ => ?_
    refine ensures_insertInternal h₂ hfits fun s₃ d₃ h₃ => ?_
    rw [HashMap.insert_erase] at h₃
    exact ensures_trackOperation fun s₄ d₄ ha₄ => hQ s₄ d₄ (h₃.aside ha₄)
  · intro _
    exact ensures_insert h hfits hQ

omit [LawfulEnv] in
theorem ensures_delete {id : Uuid} {Q : Bool → Session → Disk → Prop} (h : Coherent s.coll d t)
    (hQ : ∀ s' d', Coherent s'.coll d' (t.erase id) → Q (id ∈ t) s' d') :
    ensures (delete id) Q s d := by
  simp only [delete, ensures_bind, ensures_self, ensures_ite, ensures_pure, h.held.mem_iff]
  constructor
  · intro hmem
    refine ensures_logEntry fun s₁ d₁ ha₁ => ?_
    refine ensures_deleteInternal (h.aside ha₁) fun s₂ d₂ h₂ => ?_
    refine ensures_trackOperation fun s₃ d₃ ha₃ => ?_
    simpa [hmem] using hQ s₃ d₃ (h₂.aside ha₃)
  · intro hnot
    rw [HashMap.erase_of_not_mem hnot] at hQ
    simpa [hnot] using hQ s d h

omit [LawfulEnv] in
theorem ensures_fetch {id : Uuid} {Q : Option Document → Session → Disk → Prop}
    (h : Coherent s.coll d t) (hQ : Q (t.lookup id) s d) : ensures (fetch id) Q s d := by
  simp only [fetch, ensures_bind, ensures_self, ensures_device, ensures_ofExcept, h.held.get id]
  intro doc hdoc
  cases hdoc
  exact hQ

omit [LawfulEnv] in
theorem ensures_checkOrSetDimensions {vector : Vector32} {Q : Unit → Session → Disk → Prop}
    (h : Coherent s.coll d t) (hQ : ∀ s', Coherent s'.coll d t → Q () s' d) :
    ensures (checkOrSetDimensions vector) Q s d := by
  simp only [checkOrSetDimensions, ensures_bind, ensures_self]
  cases s.coll.metadata.dimensions with
  | some n =>
      rw [ensures_ofExcept]
      exact fun _ _ => hQ s h
  | none =>
      rw [setDimensions, ensures_update]
      refine hQ _ ⟨h.held, h.cached, ?_⟩
      rw [← h.counted, CollectionMetadata.setDimensions_vectorCount]

theorem ensures_updateMetadata {id : Uuid} {metadata : Metadata}
    {Q : Bool → Session → Disk → Prop} (h : Coherent s.coll d t)
    (hfits : ∀ doc, t.lookup id = some doc →
      (RecordStore.encodeDocument { doc with metadata }).length < 2 ^ 32)
    (hnone : t.lookup id = none → Q false s d)
    (hsome : ∀ doc, t.lookup id = some doc → ∀ s' d',
      Coherent s'.coll d' (t.insert id { doc with metadata }) → Q true s' d') :
    ensures (updateMetadata id metadata) Q s d := by
  unfold updateMetadata
  rw [ensures_bind]
  refine ensures_fetch h ?_
  cases hdoc : t.lookup id with
  | none => exact ensures_pure.mpr (hnone hdoc)
  | some doc =>
      simp only [ensures_bind, ensures_self, ensures_ofExcept, ensures_pure, ensures_update]
      refine ensures_logEntry fun s₁ d₁ ha₁ => ?_
      intro _ _
      have h₁ := h.aside ha₁
      refine ensures_appendRecord h₁.held (hfits doc hdoc) ?_
      intro p store d₂ hheld
      obtain rfl := h.held.own id doc hdoc
      simp only [updateVectorCount, ensures_bind, ensures_update, ensures_draw]
      refine ensures_trackOperation fun s₃ d₃ ha₃ => ?_
      refine hsome doc hdoc s₃ d₃ (Coherent.aside ⟨hheld, ?_, hheld.len⟩ ha₃)
      have hvector : Document.vector { doc with metadata } = doc.vector := rfl
      exact h₁.cached.relabel hdoc hvector

theorem ensures_updateVector {id : Uuid} {vector : Vector32} {Q : Bool → Session → Disk → Prop}
    (h : Coherent s.coll d t)
    (hfits : ∀ doc, t.lookup id = some doc →
      (RecordStore.encodeDocument { doc with vector }).length < 2 ^ 32)
    (hnone : t.lookup id = none → Q false s d)
    (hsome : ∀ doc, t.lookup id = some doc → ∀ s' d',
      Coherent s'.coll d' (t.insert id { doc with vector }) → Q true s' d') :
    ensures (updateVector id vector) Q s d := by
  unfold updateVector
  rw [ensures_bind]
  refine ensures_fetch h ?_
  cases hdoc : t.lookup id with
  | none => exact ensures_pure.mpr (hnone hdoc)
  | some doc =>
      simp only [ensures_bind, ensures_self, ensures_ofExcept, ensures_pure, ensures_update]
      refine ensures_logEntry fun s₁ d₁ ha₁ => ?_
      refine ensures_checkOrSetDimensions (h.aside ha₁) fun s₂ h₂ => ?_
      intro _ _
      refine ensures_appendRecord h₂.held (hfits doc hdoc) ?_
      intro p store d₃ hheld
      obtain rfl := h.held.own id doc hdoc
      simp only [indexVector, updateVectorCount, ensures_bind, ensures_self, ensures_update,
        ensures_draw, ensures_ofExcept, CacheManager.putVector_putMetadata]
      intro ix hix
      refine ensures_trackOperation fun s₄ d₄ ha₄ => ?_
      refine hsome doc hdoc s₄ d₄ (Coherent.aside ⟨hheld, ?_, hheld.len⟩ ha₄)
      have hmem : doc.id ∈ t.keys := (HashMap.mem_keys_iff t doc.id).mpr ⟨doc, hdoc⟩
      exact h₂.cached.reindex (h₂.cached.intact.remove doc.id _) (by simp)
        (by rw [VectorIndex.trackedIds_remove, h₂.cached.tracked, Finset.insert_erase hmem,
          Finset.insert_eq_of_mem hmem]) { doc with vector } hix

/-! ## Batches -/

omit [LawfulEnv] in
theorem ensures_deleteEach {ids : List Uuid} {n : Nat} {Q : Nat → Session → Disk → Prop}
    (h : Coherent s.coll d t)
    (hQ : ∀ s' d', Coherent s'.coll d' (t.eraseIds ids) →
      Q (n + (ids.toFinset ∩ t.keys).card) s' d') :
    ensures (deleteEach ids n) Q s d := by
  induction ids generalizing s d t n with
  | nil => exact ensures_pure.mpr (by simpa using hQ s d h)
  | cons id ids ih =>
      simp only [deleteEach, ensures_bind, ensures_self, ensures_ite, h.held.mem_iff]
      constructor
      · intro hmem
        refine ensures_deleteInternal h fun s₁ d₁ h₁ => ih h₁ fun s₂ d₂ h₂ => ?_
        have hcard : (ids.toFinset ∩ (t.erase id).keys).card + 1 =
            ((id :: ids).toFinset ∩ t.keys).card := by
          have hin : id ∈ (id :: ids).toFinset ∩ t.keys := by
            simpa [Finmap.mem_keys] using hmem
          rw [← Finset.card_erase_add_one hin, Finmap.keys_erase, ← Finset.inter_erase,
            List.toFinset_cons, Finset.insert_inter_of_notMem (Finset.notMem_erase _ _)]
        rw [Nat.add_right_comm, Nat.add_assoc, hcard]
        exact hQ s₂ d₂ h₂
      · intro hnot
        refine ih h fun s₁ d₁ h₁ => ?_
        have hcard : (id :: ids).toFinset ∩ t.keys = ids.toFinset ∩ t.keys := by
          rw [List.toFinset_cons, Finset.insert_inter_of_notMem]
          rwa [Finmap.mem_keys]
        have herase : t.eraseIds (id :: ids) = t.eraseIds ids := by
          change Table.eraseIds (t.erase id) ids = t.eraseIds ids
          rw [HashMap.erase_of_not_mem hnot]
        rw [herase, hcard] at hQ
        exact hQ s₁ d₁ h₁

omit [LawfulEnv] in
theorem ensures_deleteBatch {ids : List Uuid} {Q : Nat → Session → Disk → Prop}
    (h : Coherent s.coll d t)
    (hQ : ∀ s' d', Coherent s'.coll d' (t.eraseIds ids) →
      Q (ids.toFinset ∩ t.keys).card s' d') :
    ensures (deleteBatch ids) Q s d := by
  simp only [deleteBatch, ensures_bind, ensures_pure]
  refine ensures_forM (fun _ s' d' => Coherent s'.coll d' t) ?_ ?_ h
  · intro id ids s₁ d₁ h₁
    simp only [logDelete, ensures_bind, ensures_self, ensures_when]
    exact ⟨fun _ => ensures_logEntry fun s₂ d₂ ha₂ => h₁.aside ha₂, fun _ => h₁⟩
  · intro s₁ d₁ h₁
    refine ensures_deleteEach h₁ fun s₂ d₂ h₂ => ?_
    rw [Nat.zero_add, ensures_when]
    exact ⟨fun _ => ensures_trackOperation fun s₃ d₃ ha₃ => hQ s₃ d₃ (h₂.aside ha₃),
      fun _ => hQ s₂ d₂ h₂⟩

omit [LawfulEnv] in
/-- The loop over a batch that is already stored: the cache and the index follow one
document after the other. -/
theorem ensures_indexBatched {docs : List Document} {t' : Table}
    {Q : PUnit → Session → Disk → Prop} (hheld : Held .data s.coll.recordStore s.coll.index d t)
    (hcached : Cached s.coll.vectorIndex s.coll.cache t') (hdocs : t'.insertDocs docs = t)
    (hQ : ∀ s', Held .data s'.coll.recordStore s'.coll.index d t →
      Cached s'.coll.vectorIndex s'.coll.cache t → Q ⟨⟩ s' d) :
    ensures (docs.forM indexBatched) Q s d := by
  refine ensures_forM (fun rest s' d' => d' = d ∧ Held .data s'.coll.recordStore s'.coll.index d t ∧
    ∃ t', Cached s'.coll.vectorIndex s'.coll.cache t' ∧ t'.insertDocs rest = t) ?_ ?_
    ⟨rfl, hheld, t', hcached, hdocs⟩
  · rintro doc rest s₁ d₁ ⟨rfl, hheld₁, t₁, hcached₁, hdocs₁⟩
    simp only [indexBatched, setDimensions, checkDimensions, indexVector, ensures_bind, ensures_self,
      ensures_update, ensures_draw, ensures_ofExcept, CollectionMetadata.setDimensions_dimensions]
    intro _ _ ix hix
    exact ⟨trivial, hheld₁, _, hcached₁.index doc hix, hdocs₁⟩
  · rintro s₁ d₁ ⟨rfl, hheld₁, t₁, hcached₁, rfl⟩
    exact hQ s₁ hheld₁ hcached₁

theorem ensures_insertBatch {docs : List Document} {Q : List Uuid → Session → Disk → Prop}
    (h : Coherent s.coll d t)
    (hfits : ∀ doc ∈ docs, (RecordStore.encodeDocument doc).length < 2 ^ 32)
    (hQ : ∀ s' d', Coherent s'.coll d' (t.insertDocs docs) → Q (docs.map Document.id) s' d') :
    ensures (insertBatch docs) Q s d := by
  simp only [insertBatch, ensures_bind, ensures_pure]
  refine ensures_forM (fun _ s' d' => Coherent s'.coll d' t) ?_ ?_ h
  · intro doc docs s₁ d₁ h₁
    exact ensures_logEntry fun s₂ d₂ ha₂ => h₁.aside ha₂
  intro s₁ d₁ h₁
  simp only [ensures_self, ensures_ofExcept, ensures_update]
  intro _ _
  refine ensures_of_wp (RecordStore.wp_appendBatch (C := fun _ => True) (R := fun _ _ _ => True)
    h₁.held.openOn hfits (fun _ _ => trivial) ?_)
  intro ps store d₂ hk hopen hcursor hps
  have hheld : Held .data store (installPointers s₁.coll.index ((docs.map Document.id).zip ps)) d₂
      (t.insertDocs docs) :=
    (h₁.held.appended hk hopen (Nat.le.intro hcursor.symm)).installPointers hps hfits
  rw [List.map_map]
  refine ensures_trackOperation fun s₃ d₃ ha₃ => ?_
  have hheld₃ : Held .data s₃.coll.recordStore s₃.coll.index d₃ (t.insertDocs docs) := by
    rw [ha₃.coll]
    exact hheld.disk ha₃.data
  have hcached₃ : Cached s₃.coll.vectorIndex s₃.coll.cache t := by
    rw [ha₃.coll]
    exact h₁.cached
  refine ensures_indexBatched hheld₃ hcached₃ rfl fun s₄ hheld₄ hcached₄ => ?_
  simp only [updateVectorCount, ensures_bind, ensures_draw, ensures_update]
  exact hQ _ _ ⟨hheld₄, hcached₄, hheld₄.len⟩

end Collection

end
