-- SUMMARY: Collections whose documents all have the dimension that their metadata has, in memory and on disk.
import Piramid.Collections.Coherence
import Piramid.Collections.Frames

/-!
# One dimension

The offset index and the metadata are saved together but set apart. A collection is
uniform when the records it points to hold vectors of the length that its metadata names,
and the index and the metadata that were last saved agree in the same way.
-/

open Loop Prog

section

variable [Env]

/-! ## Records of one dimension -/

/-- Whatever document is read at a pointer of the index has the dimension of the metadata. -/
structure OffsetIndex.Uniform (dimensions : Option Nat) (index : OffsetIndex) (data : Bytes) : Prop where
  inside : ∀ id p, index.lookup id = some p → p.stop ≤ data.length
  dimension : ∀ id p, index.lookup id = some p → ∃ dim, dimensions = some dim ∧
    ∀ doc, Env.document.decode (Extent.slice data p.offset p.length) = .ok doc → doc.vector.length = dim

/-- What is read at a pointer to what was written as a document is that document. -/
theorem RecordStore.Written.eq_of_decode [LawfulEnv] [StrictDocuments] {data : Bytes} {p : EntryPointer}
    {doc doc' : Document} (h : RecordStore.Written data p (RecordStore.encodeDocument doc))
    (hdecode : Env.document.decode (Extent.slice data p.offset p.length) = .ok doc') : doc' = doc := by
  rw [h.slice] at hdecode
  by_cases hfits : p.length = (RecordStore.encodeDocument doc).length
  · rw [hfits, List.take_length] at hdecode
    have hroundtrip := LawfulEnv.document doc
    unfold RecordStore.encodeDocument at hdecode
    rw [hroundtrip] at hdecode
    exact (Except.ok.inj hdecode).symm
  · -- the pointer holds the length modulo `2 ^ 32`, so the record is cut short
    refine absurd hdecode (StrictDocuments.document doc _ (List.take_prefix _ _) ?_ doc')
    intro heq
    have hlen := congrArg List.length heq
    have hle : p.length ≤ (RecordStore.encodeDocument doc).length := by
      rw [h.length]
      exact Nat.mod_le _ _
    rw [List.length_take] at hlen
    exact hfits ((Nat.min_eq_left hle).symm.trans hlen)

namespace OffsetIndex.Uniform

variable {dimensions : Option Nat} {index : OffsetIndex} {data : Bytes}

theorem empty (dimensions : Option Nat) (data : Bytes) : Uniform dimensions ∅ data where
  inside id p hp := by simp at hp
  dimension id p hp := by simp at hp

theorem grows (h : index.Uniform dimensions data) {f : CollFile} {k : Nat} {d d' : Disk}
    (hdata : data = d.read f) (hk : Disk.Grows f k d d') (hbelow : index.Below k) :
    index.Uniform dimensions (d'.read f) where
  inside id p hp := by
    have hinside := h.inside id p hp
    rw [hdata] at hinside
    exact hinside.trans hk.length
  dimension id p hp := by
    have hinside := h.inside id p hp
    have hdimension := h.dimension id p hp
    rw [hdata] at hinside hdimension
    rw [Extent.slice_congr le_rfl (hk.take p.stop (hbelow id p hp) hinside)]
    exact hdimension

theorem erase (h : index.Uniform dimensions data) (id : Uuid) :
    OffsetIndex.Uniform dimensions (Finmap.erase id index) data := by
  have hold : ∀ id' p, (Finmap.erase id index).lookup id' = some p → index.lookup id' = some p := by
    intro id' p hp
    rw [HashMap.lookup_erase] at hp
    split at hp
    · cases hp
    · exact hp
  exact ⟨fun id' p hp => h.inside id' p (hold id' p hp),
    fun id' p hp => h.dimension id' p (hold id' p hp)⟩

theorem insert [LawfulEnv] [StrictDocuments] {dim : Nat} (h : index.Uniform dimensions data)
    (hdim : ∀ n, dimensions = some n → n = dim) (id : Uuid) {p : EntryPointer} {doc : Document}
    (hwritten : RecordStore.Written data p (RecordStore.encodeDocument doc))
    (hdoc : doc.vector.length = dim) :
    OffsetIndex.Uniform (some dim) (Finmap.insert id p index) data := by
  have hlookup : ∀ id' q, (Finmap.insert id p index).lookup id' = some q →
      q = p ∨ index.lookup id' = some q := by
    intro id' q hq
    rw [HashMap.lookup_insert] at hq
    split at hq
    · exact .inl (Option.some.inj hq).symm
    · exact .inr hq
  refine ⟨fun id' q hq => ?_, fun id' q hq => ⟨dim, rfl, fun doc' hdecode => ?_⟩⟩
  · rcases hlookup id' q hq with rfl | hold
    · exact hwritten.inside
    · exact h.inside id' q hold
  · rcases hlookup id' q hq with rfl | hold
    · rw [hwritten.eq_of_decode hdecode]
      exact hdoc
    · obtain ⟨n, hn, hall⟩ := h.dimension id' q hold
      rw [hall doc' hdecode, hdim n hn]

/-- Where a dimension is set, it is this one. -/
theorem set (h : index.Uniform dimensions data) {dim : Nat} (hdim : ∀ n, dimensions = some n → n = dim) :
    index.Uniform (some dim) data where
  inside := h.inside
  dimension id p hp := by
    obtain ⟨n, hn, hall⟩ := h.dimension id p hp
    exact ⟨dim, rfl, hdim n hn ▸ hall⟩

theorem installPointers [LawfulEnv] [StrictDocuments] {dim : Nat} (h : index.Uniform (some dim) data)
    {docs : List Document} {ps : List EntryPointer}
    (hps : List.Forall₂ (fun doc p => RecordStore.Written data p (RecordStore.encodeDocument doc)) docs ps)
    (hdocs : ∀ doc ∈ docs, doc.vector.length = dim) :
    OffsetIndex.Uniform (some dim)
      (Collection.installPointers index ((docs.map Document.id).zip ps)) data := by
  induction hps generalizing index with
  | nil => exact h
  | cons hwritten _ ih =>
      have hlen := hdocs _ List.mem_cons_self
      refine ih (h.insert (fun n hn => (Option.some.inj hn).symm) _ hwritten hlen) fun doc hdoc => ?_
      exact hdocs doc (List.mem_cons_of_mem _ hdoc)

end OffsetIndex.Uniform

omit [Env] in
theorem RecordStore.OpenOn.disk {store : RecordStore} {f : StoreFile} {d d' : Disk}
    (h : store.OpenOn f d) (hfile : d' (f : CollFile) = d f) : store.OpenOn f d' := by
  refine ⟨h.dataFile, fun len hlen => ?_⟩
  unfold Disk.read
  rw [hfile]
  exact h.mmap len hlen

/-! ## Collections of one dimension -/

/-- The dimension that the metadata on disk has. -/
def Disk.DimensionsFile (d : Disk) (dimensions : Option Nat) : Prop :=
  d .metadata = none ∧ dimensions = none ∨ ∃ bytes metadata, d .metadata = some bytes ∧
    Env.collectionMetadata.decode bytes = .ok metadata ∧ dimensions = metadata.dimensions

/-- What is saved points to documents of the dimension that is saved, before `k`. -/
def Disk.Uniform (k : Nat) (d : Disk) : Prop :=
  ∀ index dimensions, d.IndexFile index → d.DimensionsFile dimensions →
    index.Below k ∧ index.Uniform dimensions (d.read .data)

structure Collection.Uniform (c : Collection) (d : Disk) : Prop where
  openOn : c.recordStore.OpenOn .data d
  below : c.index.Below c.recordStore.appendCursor
  index : c.index.Uniform c.metadata.dimensions (d.read .data)
  saved : d.Uniform c.recordStore.appendCursor

/-- Neither what is settled of the collection nor the data file changes; the files of the
index and of the metadata stay as they are, or are those of the collection. -/
structure Settled (s : Session) (d : Disk) (s' : Session) (d' : Disk) : Prop where
  settled : s'.settled = s.settled
  data : d' .data = d .data
  saved : d' .index = d .index ∧ d' .metadata = d .metadata ∨
    ∃ metadata, metadata.dimensions = s.coll.metadata.dimensions ∧
      d' .index = some (Env.offsetIndex.encode s.coll.index) ∧
      d' .metadata = some (Env.collectionMetadata.encode metadata)

variable {s s' : Session} {d d' : Disk}

omit [Env] in
theorem Session.settled_iff : s'.settled = s.settled ↔ s'.coll.index = s.coll.index ∧
    s'.coll.recordStore = s.coll.recordStore ∧ s'.coll.config = s.coll.config ∧
    s'.coll.metadata.dimensions = s.coll.metadata.dimensions := by
  simp only [Session.settled, Prod.mk.injEq, and_assoc]

theorem Disk.Uniform.mono {k k' : Nat} (h : d.Uniform k) (hk : k ≤ k') : d.Uniform k' :=
  fun index dimensions hindex hdims =>
    ⟨(h index dimensions hindex hdims).1.mono hk, (h index dimensions hindex hdims).2⟩

/-- What was just saved is read back. -/
theorem Disk.uniform_of_saved [LawfulEnv] {index : OffsetIndex} {metadata : CollectionMetadata} {k : Nat}
    (hindex : d .index = some (Env.offsetIndex.encode index))
    (hmetadata : d .metadata = some (Env.collectionMetadata.encode metadata)) (hbelow : index.Below k)
    (huniform : index.Uniform metadata.dimensions (d.read .data)) : d.Uniform k := by
  intro index' dimensions hi hm
  have heq : index' = index := Disk.IndexFile.unique (.inr ⟨_, hindex, LawfulEnv.offsetIndex _⟩) hi
  have hdims : dimensions = metadata.dimensions := by
    rcases hm with ⟨hnone, -⟩ | ⟨bytes, m, hbytes, hdecode, rfl⟩
    · rw [hmetadata] at hnone
      cases hnone
    · rw [hmetadata] at hbytes
      cases hbytes
      rw [LawfulEnv.collectionMetadata] at hdecode
      cases hdecode
      rfl
  rw [heq, hdims]
  exact ⟨hbelow, huniform⟩

theorem Collection.Uniform.settled [LawfulEnv] (h : s.coll.Uniform d) (ha : Settled s d s' d') :
    s'.coll.Uniform d' := by
  obtain ⟨hindex, hstore, -, hdims⟩ := Session.settled_iff.mp ha.settled
  have hread : d'.read .data = d.read .data := by
    rw [Disk.read, Disk.read, ha.data]
  refine ⟨hstore ▸ h.openOn.disk ha.data, by rw [hindex, hstore]; exact h.below, ?_, ?_⟩
  · rw [hindex, hdims, hread]
    exact h.index
  · rw [hstore]
    intro index dimensions hi hm
    rw [hread]
    rcases ha.saved with ⟨hsame, hsame'⟩ | ⟨metadata, hmetadata, hi', hm'⟩
    · refine h.saved index dimensions ?_ ?_
      · unfold Disk.IndexFile at hi ⊢
        rw [← hsame]
        exact hi
      · unfold Disk.DimensionsFile at hm ⊢
        rw [← hsame']
        exact hm
    · rw [← hread]
      refine Disk.uniform_of_saved hi' hm' h.below ?_ index dimensions hi hm
      rw [hmetadata, hread]
      exact h.index

omit [Env] in
theorem validateDimensions_eq_ok {vector : Vector32} {dim : Nat} {u : Unit}
    (h : validateDimensions vector dim = .ok u) : vector.length = dim := by
  unfold validateDimensions at h
  split at h
  · cases h
  · rename_i heq
    exact not_not.mp heq

namespace Collection.Uniform

variable {c c' : Collection}

/-- The invariant is about the offset index, the record store and the dimension alone. -/
theorem congr (h : c.Uniform d) (hindex : c'.index = c.index) (hstore : c'.recordStore = c.recordStore)
    (hdims : c'.metadata.dimensions = c.metadata.dimensions) : c'.Uniform d where
  openOn := hstore ▸ h.openOn
  below := by
    rw [hindex, hstore]
    exact h.below
  index := by
    rw [hindex, hdims]
    exact h.index
  saved := hstore ▸ h.saved

/-- The record store has grown behind its records. -/
theorem grown (h : c.Uniform d) {store : RecordStore}
    (hk : Disk.Grows .data c.recordStore.appendCursor d d') (hopen : store.OpenOn .data d')
    (hcursor : c.recordStore.appendCursor ≤ store.appendCursor) :
    Collection.Uniform { c with recordStore := store } d' where
  openOn := hopen
  below := h.below.mono hcursor
  index := h.index.grows rfl hk h.below
  saved := by
    refine Disk.Uniform.mono (fun index dimensions hindex hdims => ?_) hcursor
    have hsaved := h.saved index dimensions ?_ ?_
    · exact ⟨hsaved.1, hsaved.2.grows rfl hk hsaved.1⟩
    · unfold Disk.IndexFile at hindex ⊢
      rw [hk.files _ (by simp)] at hindex
      exact hindex
    · unfold Disk.DimensionsFile at hdims ⊢
      rw [hk.files _ (by simp)] at hdims
      exact hdims

theorem install [LawfulEnv] [StrictDocuments] (h : c.Uniform d) (id : Uuid) {p : EntryPointer}
    {doc : Document} (hp : p.stop ≤ c.recordStore.appendCursor)
    (hwritten : RecordStore.Written (d.read .data) p (RecordStore.encodeDocument doc))
    {metadata : CollectionMetadata} (hdims : metadata.dimensions = some doc.vector.length)
    (hold : ∀ n, c.metadata.dimensions = some n → n = doc.vector.length) :
    Collection.Uniform { c with index := Finmap.insert id p c.index, metadata } d where
  openOn := h.openOn
  below := h.below.insert id hp
  index := by
    change OffsetIndex.Uniform metadata.dimensions _ _
    rw [hdims]
    exact h.index.insert hold id hwritten rfl
  saved := h.saved

theorem erase (h : c.Uniform d) (id : Uuid) :
    Collection.Uniform { c with index := Finmap.erase id c.index } d where
  openOn := h.openOn
  below := h.below.erase id
  index := h.index.erase id
  saved := h.saved

/-- The documents that can be read have the dimension of the metadata. -/
theorem dimension_of_get (h : c.Uniform d) {id : Uuid} {doc : Document}
    (hget : c.get d id = .ok (some doc)) : c.metadata.dimensions = some doc.vector.length := by
  unfold Collection.get at hget
  split at hget
  · cases hget
  · rename_i p hp
    obtain ⟨doc', hread, hsome⟩ := map_eq_ok.mp hget
    cases hsome
    obtain ⟨dim, hdim, hall⟩ := h.index.dimension id p hp
    unfold RecordStore.readDocument RecordStore.readBytes at hread
    simp only [h.openOn.dataFile] at hread
    split at hread
    · cases hread
    · rename_i bytes hbytes
      split at hread
      · cases hread
      · rename_i doc'' hdecode
        cases hread
        split at hbytes
        · cases hbytes
          rw [hdim, hall doc hdecode]
        · cases hbytes

end Collection.Uniform

/-! ## Steps that settle nothing -/

/-- The step changes nothing of the documents, their dimension, or what is saved of them. -/
def Still {α : Type} (p : CollM α) : Prop :=
  ∀ file, file = .data ∨ file = .index ∨ file = .metadata → Quiet file p

omit [Env] in
theorem Still.wal_ne {file : CollFile} (h : file = .data ∨ file = .index ∨ file = .metadata) :
    .wal ≠ file ∧ .vecindex ≠ file := by
  rcases h with rfl | rfl | rfl
  all_goals exact ⟨CollFile.noConfusion, CollFile.noConfusion⟩

theorem ensures_still {α : Type} {p : CollM α} {Q : α → Session → Disk → Prop} (hp : Still p)
    (hQ : ∀ a s' d', Settled s d s' d' → Q a s' d') : ensures p Q s d := by
  have hdata := hp .data (.inl rfl) s d
  have hindex := hp .index (.inr (.inl rfl)) s d
  have hmetadata := hp .metadata (.inr (.inr rfl)) s d
  refine ensures_mono (ensures_of_wp (wp_and hdata (wp_and hindex hmetadata))) ?_
  rintro a s' d' ⟨⟨hs, hd⟩, ⟨-, hi⟩, -, hm⟩
  exact hQ a s' d' ⟨hs, hd, .inl ⟨hi, hm⟩⟩

namespace Collection

theorem still_logEntry (entry : WalEntry) : Still (logEntry entry) :=
  fun _ h => quiet_logEntry (Still.wal_ne h).1 entry

theorem still_updateVectorCount : Still updateVectorCount := fun _ _ => quiet_updateVectorCount

theorem still_indexVector (id : Uuid) (vector : Vector32) : Still (indexVector id vector) :=
  fun _ _ => quiet_indexVector id vector

theorem still_rebuildVectorCache : Still rebuildVectorCache := fun _ _ => quiet_rebuildVectorCache

theorem still_logDelete (id : Uuid) : Still (logDelete id) :=
  fun _ h => quiet_logDelete (Still.wal_ne h).1 id

theorem still_ensureConsistent : Still ensureConsistent := fun _ _ => quiet_ensureConsistent

theorem still_rebuildIndex : Still rebuildIndex := fun _ h => quiet_rebuildIndex (Still.wal_ne h).2

omit [Env] in
theorem still_clearMetadata : Still (update fun c => { c with cache := c.cache.clearMetadata }) :=
  fun _ _ => .modify fun _ => rfl

theorem settled_of_saved (ha : Aside s d s' d') (hsaved : Saved s'.coll d') : Settled s d s' d' := by
  obtain ⟨hcoll, hdata⟩ := ha
  have hindex := hsaved.index
  have hmetadata := hsaved.metadata
  rw [hcoll] at hindex hmetadata
  refine ⟨?_, hdata, .inr ⟨s.coll.metadata, rfl, hindex, hmetadata⟩⟩
  unfold Session.settled
  rw [hcoll]

theorem ensures_checkpointNow_settled {Q : Unit → Session → Disk → Prop}
    (hQ : ∀ s' d', Settled s d s' d' → Q () s' d') : ensures checkpointNow Q s d :=
  ensures_checkpointNow_saved fun s' d' ha hsaved => hQ s' d' (settled_of_saved ha hsaved)

/-- Tracking an operation saves the collection or, where no checkpoint is due, nothing. -/
theorem ensures_trackOperation_settled {Q : Unit → Session → Disk → Prop}
    (hQ : ∀ s' d', Settled s d s' d' →
      (s.coll.checkpointDue (Env.chance s.draws).now = false → d' = d) → Q () s' d') :
    ensures trackOperation Q s d := by
  simp only [trackOperation, ensures_bind, ensures_draw, ensures_self, ensures_update, ensures_when]
  constructor
  · intro hdue
    refine ensures_checkpointNow_settled fun s' d' ha => hQ _ _ ⟨ha.settled, ha.data, ha.saved⟩ ?_
    intro hnot
    rw [hdue] at hnot
    cases hnot
  · intro _
    exact hQ _ _ ⟨rfl, rfl, .inl ⟨rfl, rfl⟩⟩ fun _ => rfl

/-! ## Operations -/

variable [LawfulEnv]

theorem ensures_still_uniform {α : Type} {p : CollM α} {Q : α → Session → Disk → Prop} (hp : Still p)
    (h : s.coll.Uniform d) (hQ : ∀ a s' d', s'.coll.Uniform d' →
      s'.coll.metadata.dimensions = s.coll.metadata.dimensions → Q a s' d') : ensures p Q s d :=
  ensures_still hp fun a s' d' ha =>
    hQ a s' d' (h.settled ha) (Session.settled_iff.mp ha.settled).2.2.2

theorem ensures_trackOperation_uniform {Q : Unit → Session → Disk → Prop} (h : s.coll.Uniform d)
    (hQ : ∀ s' d', s'.coll.Uniform d' → Q () s' d') : ensures trackOperation Q s d :=
  ensures_trackOperation_settled fun s' d' ha _ => hQ s' d' (h.settled ha)

omit [LawfulEnv] in
theorem ensures_appendRecord_uniform {doc : Document} {Q : EntryPointer → Session → Disk → Prop}
    (h : s.coll.Uniform d)
    (hQ : ∀ p store d', Collection.Uniform { s.coll with recordStore := store } d' →
      p.stop ≤ store.appendCursor →
      RecordStore.Written (d'.read .data) p (RecordStore.encodeDocument doc) →
      Q p { s with coll := { s.coll with recordStore := store } } d') :
    ensures (appendRecord (RecordStore.encodeDocument doc)) Q s d := by
  simp only [appendRecord, ensures_bind, ensures_self, ensures_update, ensures_pure]
  refine ensures_of_wp (RecordStore.wp_append_written (C := fun _ => True) (R := fun _ _ _ => True)
    h.openOn (fun _ _ => trivial) ?_)
  intro p store d' hk hopen hcursor hp hwritten
  exact hQ p store d' (h.grown hk hopen (Nat.le.intro hcursor.symm)) hp hwritten

variable [StrictDocuments]

theorem ensures_insertInternal_uniform {doc : Document} {Q : Uuid → Session → Disk → Prop}
    (h : s.coll.Uniform d) (hQ : ∀ id s' d', s'.coll.Uniform d' → Q id s' d') :
    ensures (insertInternal doc) Q s d := by
  simp only [insertInternal, Document.getVector, ensures_bind, ensures_self, ensures_ofExcept]
  intro _ _
  refine ensures_appendRecord_uniform h ?_
  intro p store d₁ h₁ hp hwritten
  simp only [setDimensions, checkDimensions, indexVector, updateVectorCount, ensures_bind,
    ensures_self, ensures_update, ensures_draw, ensures_pure, ensures_ofExcept,
    CollectionMetadata.setDimensions_dimensions]
  intro _ hvalid ix _
  have hlen := validateDimensions_eq_ok hvalid
  have hnew : (s.coll.metadata.setDimensions doc.vector.length).dimensions = some doc.vector.length := by
    rw [CollectionMetadata.setDimensions_dimensions, ← hlen]
  refine hQ _ _ _ ((h₁.install doc.id hp hwritten hnew fun n hn => ?_).congr rfl rfl rfl)
  rw [hlen]
  change s.coll.metadata.dimensions = some n at hn
  rw [hn]
  rfl

omit [LawfulEnv] [StrictDocuments] in
theorem ensures_deleteInternal_uniform {id : Uuid} {Q : Unit → Session → Disk → Prop}
    (h : s.coll.Uniform d) (hQ : ∀ s' d', s'.coll.Uniform d' → Q () s' d') :
    ensures (deleteInternal id) Q s d := by
  simp only [deleteInternal, updateVectorCount, ensures_bind, ensures_draw, ensures_update]
  exact hQ _ _ ((h.erase id).congr rfl rfl rfl)

theorem ensures_insert_uniform {doc : Document} {Q : Uuid → Session → Disk → Prop}
    (h : s.coll.Uniform d) (hQ : ∀ id s' d', s'.coll.Uniform d' → Q id s' d') :
    ensures (insert doc) Q s d := by
  simp only [insert, ensures_bind, ensures_pure]
  refine ensures_still_uniform (still_logEntry _) h fun _ s₁ d₁ h₁ _ => ?_
  refine ensures_insertInternal_uniform h₁ fun id s₂ d₂ h₂ => ?_
  exact ensures_trackOperation_uniform h₂ fun s₃ d₃ h₃ => hQ id s₃ d₃ h₃

theorem ensures_upsert_uniform {doc : Document} {Q : Uuid → Session → Disk → Prop}
    (h : s.coll.Uniform d) (hQ : ∀ id s' d', s'.coll.Uniform d' → Q id s' d') :
    ensures (upsert doc) Q s d := by
  simp only [upsert, ensures_bind, ensures_self, ensures_ofExcept, ensures_ite, ensures_pure]
  intro _ _
  refine ⟨fun _ => ?_, fun _ => ensures_insert_uniform h hQ⟩
  refine ensures_still_uniform (still_logEntry _) h fun _ s₁ d₁ h₁ _ => ?_
  refine ensures_deleteInternal_uniform h₁ fun s₂ d₂ h₂ => ?_
  refine ensures_insertInternal_uniform h₂ fun id s₃ d₃ h₃ => ?_
  exact ensures_trackOperation_uniform h₃ fun s₄ d₄ h₄ => hQ id s₄ d₄ h₄

omit [StrictDocuments] in
theorem ensures_delete_uniform {id : Uuid} {Q : Bool → Session → Disk → Prop}
    (h : s.coll.Uniform d) (hQ : ∀ b s' d', s'.coll.Uniform d' → Q b s' d') :
    ensures (delete id) Q s d := by
  simp only [delete, ensures_bind, ensures_self, ensures_ite, ensures_pure]
  refine ⟨fun _ => ?_, fun _ => hQ _ s d h⟩
  refine ensures_still_uniform (still_logEntry _) h fun _ s₁ d₁ h₁ _ => ?_
  refine ensures_deleteInternal_uniform h₁ fun s₂ d₂ h₂ => ?_
  exact ensures_trackOperation_uniform h₂ fun s₃ d₃ h₃ => hQ _ s₃ d₃ h₃

omit [LawfulEnv] [StrictDocuments] in
theorem ensures_deleteEach_uniform {ids : List Uuid} {n : Nat} {Q : Nat → Session → Disk → Prop}
    (h : s.coll.Uniform d) (hQ : ∀ m s' d', s'.coll.Uniform d' → Q m s' d') :
    ensures (deleteEach ids n) Q s d := by
  induction ids generalizing s d n with
  | nil => exact ensures_pure.mpr (hQ n s d h)
  | cons id ids ih =>
      simp only [deleteEach, ensures_bind, ensures_self, ensures_ite]
      exact ⟨fun _ => ensures_deleteInternal_uniform h fun s₁ d₁ h₁ => ih h₁, fun _ => ih h⟩

omit [StrictDocuments] in
theorem ensures_deleteBatch_uniform {ids : List Uuid} {Q : Nat → Session → Disk → Prop}
    (h : s.coll.Uniform d) (hQ : ∀ n s' d', s'.coll.Uniform d' → Q n s' d') :
    ensures (deleteBatch ids) Q s d := by
  simp only [deleteBatch, ensures_bind, ensures_pure]
  refine ensures_forM (fun _ s' d' => s'.coll.Uniform d') ?_ ?_ h
  · intro id ids s₁ d₁ h₁
    exact ensures_still_uniform (still_logDelete id) h₁ fun _ s₂ d₂ h₂ _ => h₂
  · intro s₁ d₁ h₁
    refine ensures_deleteEach_uniform h₁ fun n s₂ d₂ h₂ => ?_
    rw [ensures_when]
    exact ⟨fun _ => ensures_trackOperation_uniform h₂ fun s₃ d₃ h₃ => hQ n s₃ d₃ h₃,
      fun _ => hQ n s₂ d₂ h₂⟩

theorem ensures_updateMetadata_uniform {id : Uuid} {metadata : Metadata}
    {Q : Bool → Session → Disk → Prop} (h : s.coll.Uniform d)
    (hQ : ∀ b s' d', s'.coll.Uniform d' → Q b s' d') : ensures (updateMetadata id metadata) Q s d := by
  simp only [updateMetadata, fetch, ensures_bind, ensures_self, ensures_device, ensures_ofExcept]
  intro found hget
  cases found with
  | none => exact ensures_pure.mpr (hQ false s d h)
  | some doc =>
      have hdims := h.dimension_of_get hget
      simp only [ensures_bind, ensures_self, ensures_ofExcept, ensures_pure, ensures_update]
      refine ensures_still_uniform (still_logEntry _) h fun _ s₁ d₁ h₁ hsame => ?_
      intro _ _
      refine ensures_appendRecord_uniform h₁ ?_
      intro p store d₂ h₂ hp hwritten
      have hnew : s₁.coll.metadata.dimensions = some (Document.vector { doc with metadata }).length :=
        hsame.trans hdims
      have h₃ := h₂.install id hp hwritten hnew fun n hn => Option.some.inj (hn.symm.trans hnew)
      refine ensures_still_uniform still_updateVectorCount (h₃.congr rfl rfl rfl) fun _ s₄ d₄ h₄ _ => ?_
      exact ensures_trackOperation_uniform h₄ fun s₅ d₅ h₅ => hQ true s₅ d₅ h₅

omit [LawfulEnv] [StrictDocuments] [Env] in
/-- A dimension that is set is checked. -/
theorem ensures_checkOrSetDimensions_some {vector : Vector32} {n : Nat}
    {Q : Unit → Session → Disk → Prop} (hdims : s.coll.metadata.dimensions = some n)
    (hQ : vector.length = n → Q () s d) : ensures (checkOrSetDimensions vector) Q s d := by
  simp only [checkOrSetDimensions, ensures_bind, ensures_self, hdims, ensures_ofExcept]
  exact fun _ hvalid => hQ (validateDimensions_eq_ok hvalid)

theorem ensures_updateVector_uniform {id : Uuid} {vector : Vector32}
    {Q : Bool → Session → Disk → Prop} (h : s.coll.Uniform d)
    (hQ : ∀ b s' d', s'.coll.Uniform d' → Q b s' d') : ensures (updateVector id vector) Q s d := by
  simp only [updateVector, fetch, ensures_bind, ensures_self, ensures_device, ensures_ofExcept]
  intro found hget
  cases found with
  | none => exact ensures_pure.mpr (hQ false s d h)
  | some doc =>
      have hdims := h.dimension_of_get hget
      simp only [ensures_bind, ensures_self, ensures_ofExcept, ensures_pure]
      refine ensures_still_uniform (still_logEntry _) h fun _ s₁ d₁ h₁ hsame => ?_
      refine ensures_checkOrSetDimensions_some (hsame.trans hdims) fun hlen => ?_
      intro _ _
      refine ensures_appendRecord_uniform h₁ ?_
      intro p store d₂ h₂ hp hwritten
      have hnew : s₁.coll.metadata.dimensions = some (Document.vector { doc with vector }).length :=
        (hsame.trans hdims).trans (congrArg some hlen.symm)
      have h₃ := h₂.install id hp hwritten hnew fun n hn => Option.some.inj (hn.symm.trans hnew)
      rw [ensures_draw, ensures_update]
      refine ensures_still_uniform (still_indexVector _ _) (h₃.congr rfl rfl rfl) fun _ s₅ d₅ h₅ _ => ?_
      refine ensures_still_uniform still_updateVectorCount h₅ fun _ s₆ d₆ h₆ _ => ?_
      exact ensures_trackOperation_uniform h₆ fun s₇ d₇ h₇ => hQ true s₇ d₇ h₇

/-! ## Batches -/

omit [Env] [LawfulEnv] [StrictDocuments] in
theorem below_installPointers {index : OffsetIndex} {k : Nat} (h : index.Below k)
    {entries : List (Uuid × EntryPointer)} (hentries : ∀ entry ∈ entries, entry.2.stop ≤ k) :
    (installPointers index entries).Below k := by
  induction entries generalizing index with
  | nil => exact h
  | cons entry entries ih =>
      refine ih (h.insert entry.1 (hentries entry List.mem_cons_self)) fun entry' hentry' => ?_
      exact hentries entry' (List.mem_cons_of_mem _ hentry')

omit [LawfulEnv] [StrictDocuments] in
/-- The loop over a batch that is already stored sets the dimension and compares every document
with it. -/
theorem ensures_indexBatched_uniform {docs : List Document} {Q : PUnit → Session → Disk → Prop}
    (hQ : ∀ s', s'.coll.index = s.coll.index → s'.coll.recordStore = s.coll.recordStore →
      (docs = [] ∧ s'.coll.metadata.dimensions = s.coll.metadata.dimensions ∨
        docs ≠ [] ∧ ∃ dim, s'.coll.metadata.dimensions = some dim ∧
          (∀ doc ∈ docs, doc.vector.length = dim) ∧
          ∀ n, s.coll.metadata.dimensions = some n → n = dim) → Q ⟨⟩ s' d) :
    ensures (docs.forM indexBatched) Q s d := by
  refine ensures_forM (fun rest s' d' => d' = d ∧ s'.coll.index = s.coll.index ∧
    s'.coll.recordStore = s.coll.recordStore ∧
    (rest = docs ∧ s'.coll.metadata.dimensions = s.coll.metadata.dimensions ∨
      docs ≠ [] ∧ ∃ dim, s'.coll.metadata.dimensions = some dim ∧
        (∀ doc ∈ docs, doc ∈ rest ∨ doc.vector.length = dim) ∧
        ∀ n, s.coll.metadata.dimensions = some n → n = dim)) ?_ ?_ ⟨rfl, rfl, rfl, .inl ⟨rfl, rfl⟩⟩
  · rintro doc rest s₁ d₁ ⟨rfl, hindex, hstore, hdims⟩
    simp only [indexBatched, setDimensions, checkDimensions, indexVector, ensures_bind, ensures_self,
      ensures_update, ensures_draw, ensures_ofExcept, CollectionMetadata.setDimensions_dimensions]
    intro _ hvalid _ _
    have hlen := validateDimensions_eq_ok hvalid
    refine ⟨trivial, hindex, hstore, .inr ?_⟩
    rcases hdims with ⟨hrest, hsame⟩ | ⟨hne, dim, hdim, hall, hold⟩
    · rw [hsame] at hlen ⊢
      refine ⟨hrest ▸ List.cons_ne_nil _ _, _, rfl, fun doc' hdoc' => ?_, fun n hn => by rw [hn]; rfl⟩
      rw [← hrest] at hdoc'
      rcases List.mem_cons.mp hdoc' with rfl | htail
      · exact .inr hlen
      · exact .inl htail
    · rw [hdim] at hlen ⊢
      refine ⟨hne, _, rfl, fun doc' hdoc' => ?_, hold⟩
      rcases hall doc' hdoc' with hmem | hdone
      · rcases List.mem_cons.mp hmem with rfl | htail
        · exact .inr hlen
        · exact .inl htail
      · exact .inr hdone
  · rintro s₁ d₁ ⟨rfl, hindex, hstore, hdims⟩
    refine hQ s₁ hindex hstore ?_
    rcases hdims with ⟨hnil, hsame⟩ | ⟨hne, dim, hdim, hall, hold⟩
    · exact .inl ⟨hnil.symm, hsame⟩
    · exact .inr ⟨hne, dim, hdim, fun doc hdoc => (hall doc hdoc).resolve_left List.not_mem_nil, hold⟩

/-- The batch meets a collection without a dimension, and a checkpoint is due as soon as the
records of the batch are stored. -/
def Hurried (s : Session) (docs : List Document) : Prop :=
  docs ≠ [] ∧ s.coll.metadata.dimensions = none ∧
    s.coll.checkpointDue (Env.chance s.draws).now = true

omit [LawfulEnv] [StrictDocuments] [Env] in
theorem checkpointDue_logged (c : Collection) (now : Nat) :
    c.logged.checkpointDue now = c.checkpointDue now := by
  unfold checkpointDue intervalDue CheckpointManager.shouldCheckpoint Collection.logged
  cases c.config.wal.enabled with
  | false => rfl
  | true => rfl

/-- A batch whose documents agree with each other and with the dimension there was. -/
theorem Uniform.installBatch {c c' : Collection} {docs : List Document} {ps : List EntryPointer}
    {dim k : Nat} (h : c.Uniform d) (hcursor : c.recordStore.appendCursor = k)
    (hps : List.Forall₂ (fun doc p => p.stop ≤ k ∧
      RecordStore.Written (d.read .data) p (RecordStore.encodeDocument doc)) docs ps)
    (hdocs : ∀ doc ∈ docs, doc.vector.length = dim)
    (hold : ∀ n, c.metadata.dimensions = some n → n = dim)
    (hindex : c'.index = Collection.installPointers c.index ((docs.map Document.id).zip ps))
    (hstore : c'.recordStore = c.recordStore) (hdims : c'.metadata.dimensions = some dim) :
    c'.Uniform d where
  openOn := hstore ▸ h.openOn
  below := by
    rw [hindex, hstore]
    have hstop : List.Forall₂ (fun (_ : Uuid) p => p.stop ≤ k) (docs.map Document.id) ps :=
      List.forall₂_map_left_iff.mpr (hps.imp fun _ _ hp => hp.1)
    refine below_installPointers h.below fun entry hentry => ?_
    rw [hcursor]
    exact List.forall₂_zip hstop hentry
  index := by
    rw [hindex, hdims]
    exact (h.index.set hold).installPointers (hps.imp fun _ _ hp => hp.2) hdocs
  saved := hstore ▸ h.saved

theorem ensures_insertBatch_uniform {docs : List Document} {Q : List Uuid → Session → Disk → Prop}
    (h : s.coll.Uniform d) (hcalm : ¬Hurried s docs)
    (hQ : ∀ ids s' d', s'.coll.Uniform d' → Q ids s' d') : ensures (insertBatch docs) Q s d := by
  simp only [insertBatch, ensures_bind, ensures_pure]
  refine ensures_forM (fun _ s' d' => s'.coll.Uniform d' ∧ s'.draws = s.draws ∧
    s'.coll.metadata.dimensions = s.coll.metadata.dimensions ∧
    ∀ now, s'.coll.checkpointDue now = s.coll.checkpointDue now) ?_ ?_ ⟨h, rfl, rfl, fun _ => rfl⟩
  · rintro doc rest s₁ d₁ ⟨h₁, hdraws, hdims, hdue⟩
    refine ensures_of_wp (wp_logEntry (C := fun _ => True) (R := fun _ _ _ => True) trivial ?_)
    refine ⟨Collection.Uniform.settled h₁ ⟨rfl, Disk.logged_other (by simp), .inl ⟨?_, ?_⟩⟩, hdraws,
      hdims, fun now => (checkpointDue_logged _ now).trans (hdue now)⟩
    · exact Disk.logged_other (by simp)
    · exact Disk.logged_other (by simp)
  rintro s₁ d₁ ⟨h₁, hdraws, hdims₀, hdue⟩
  simp only [ensures_self, ensures_ofExcept, ensures_update]
  intro _ _
  refine ensures_of_wp (RecordStore.wp_appendBatch_written (C := fun _ => True)
    (R := fun _ _ _ => True) h₁.openOn (fun _ _ => trivial) ?_)
  intro ps store d₂ hk hopen hcursor hps
  rw [List.forall₂_map_left_iff] at hps
  have h₂ := h₁.grown hk hopen (Nat.le.intro hcursor.symm)
  rw [List.map_map]
  refine ensures_trackOperation_settled fun s₃ d₃ ha₃ hcalm₃ => ?_
  refine ensures_indexBatched_uniform fun s₄ hindex₄ hstore₄ hdims₄ => ?_
  simp only [updateVectorCount, ensures_bind, ensures_draw, ensures_update]
  refine hQ _ _ _ ?_
  obtain ⟨hindex₃, hstore₃, -, hdims₃⟩ := Session.settled_iff.mp ha₃.settled
  rcases hdims₄ with ⟨rfl, hsame⟩ | ⟨hne, dim, hdim, hall, hold⟩
  · -- nothing was stored
    cases hps
    refine (Collection.Uniform.settled ?_ ha₃).congr hindex₄ hstore₄ hsame
    exact h₂.congr rfl rfl rfl
  · rw [hdims₃] at hold
    have hbatch : Collection.Uniform { s₁.coll with
        recordStore := store
        index := installPointers s₁.coll.index ((docs.map Document.id).zip ps)
        metadata := s₄.coll.metadata } d₂ :=
      h₂.installBatch rfl hps hall hold rfl rfl hdim
    -- what was saved meanwhile is the batch, under a dimension that it agrees with
    have hkept : ∀ c : Collection, c.Uniform d₂ → c.index = s₃.coll.index →
        c.metadata.dimensions = some dim → c.Uniform d₃ := by
      intro c hc hindex hdims
      have ha : Settled ⟨c, 0⟩ d₂ ⟨c, 0⟩ d₃ := by
        refine ⟨rfl, ha₃.data, ?_⟩
        rcases ha₃.saved with hsame | ⟨metadata, hmetadata, hi, hm⟩
        · exact .inl hsame
        · cases hset : s₁.coll.metadata.dimensions with
          | some n =>
              refine .inr ⟨metadata, ?_, ?_, hm⟩
              · rw [hmetadata]
                change s₁.coll.metadata.dimensions = c.metadata.dimensions
                rw [hdims, hset, hold n hset]
              · rw [hi]
                change _ = some (Env.offsetIndex.encode c.index)
                rw [hindex, hindex₃]
          | none =>
              have hnot : s.coll.checkpointDue (Env.chance s.draws).now = false :=
                eq_false_of_ne_true fun hdue' => hcalm ⟨hne, hdims₀.symm.trans hset, hdue'⟩
              rw [← hdraws, ← hdue] at hnot
              rw [hcalm₃ hnot]
              exact .inl ⟨rfl, rfl⟩
      exact Collection.Uniform.settled hc ha
    exact (hkept _ hbatch hindex₃.symm hdim).congr (hindex₄.trans hindex₃) (hstore₄.trans hstore₃) rfl

end Collection

end
