-- SUMMARY: What a collection holds within a session: its documents, and the cache and the index that mirror them.
import Piramid.Collections.Memory
import Piramid.Index.Intact

/-!
# Coherence

The offset index and the records hold a table of documents. The cache, the vector
index and the count are derived from it, and the operations change them one after
the other.
-/

open Loop Prog

/-- The documents of a collection, by id. -/
abbrev Table : Type := HashMap Uuid Document

/-! ## The cache -/

namespace CacheManager

variable {cache : CacheManager} {t : Table} {id : Uuid}

theorem lookup_of_evict {maxSize : Nat} {order : List Uuid} {metadata : HashMap Uuid Metadata}
    {md : Metadata} (h : (evict maxSize order metadata).2.lookup id = some md) :
    metadata.lookup id = some md := by
  induction order generalizing metadata with
  | nil => exact h
  | cons id' order ih =>
      unfold evict at h
      split at h
      · have hrest := ih h
        rw [HashMap.lookup_erase] at hrest
        split at hrest
        · cases hrest
        · exact hrest
      · exact h

@[simp] theorem config_putMetadata (cache : CacheManager) (id : Uuid) (metadata : Metadata) :
    (cache.putMetadata id metadata).config = cache.config := by
  unfold putMetadata enforceItemLimit
  split
  · rfl
  · split <;> rfl

/-- What is cached once metadata is put was put now or cached before. -/
theorem lookup_of_putMetadata {id' : Uuid} {metadata md : Metadata}
    (hdisabled : cache.config.enabled = false → cache.metadata = ∅)
    (h : (cache.putMetadata id metadata).metadata.lookup id' = some md) :
    (if id' = id then some metadata else cache.metadata.lookup id') = some md := by
  unfold putMetadata at h
  split at h
  · rename_i hoff
    rw [hdisabled (by simpa using hoff)] at h
    simp at h
  · rw [← HashMap.lookup_insert]
    unfold enforceItemLimit at h
    split at h
    · simp at h
    · exact lookup_of_evict h

/-- A cache that is disabled stays without metadata. -/
theorem metadata_of_disabled {metadata : Metadata}
    (hdisabled : cache.config.enabled = false → cache.metadata = ∅)
    (h : (cache.putMetadata id metadata).config.enabled = false) :
    (cache.putMetadata id metadata).metadata = ∅ := by
  rw [config_putMetadata] at h
  unfold putMetadata
  rw [if_pos (by simp [h])]
  exact hdisabled h

/-- The cache has the vector of every document of `t`, and caches no other metadata
than theirs. -/
structure Mirrors (cache : CacheManager) (t : Table) : Prop where
  vectors : ∀ id doc, t.lookup id = some doc → cache.vectors.lookup id = some doc.vector
  metadata : ∀ id md, cache.metadata.lookup id = some md →
    ∃ doc, t.lookup id = some doc ∧ doc.metadata = md
  disabled : cache.config.enabled = false → cache.metadata = ∅

namespace Mirrors

theorem new (config : CacheConfig) : (CacheManager.new config).Mirrors ∅ where
  vectors id doc h := by simp at h
  metadata id md h := by simp [CacheManager.new] at h
  disabled _ := rfl

/-- Putting the metadata and the vector of a document. -/
theorem put (h : cache.Mirrors t) (id : Uuid) (doc : Document) :
    ((cache.putMetadata id doc.metadata).putVector id doc.vector).Mirrors (t.insert id doc) where
  vectors id' doc' hdoc' := by
    rw [HashMap.lookup_insert] at hdoc'
    rw [vectors_putVector, vectors_putMetadata, HashMap.lookup_insert]
    split
    · rename_i hid
      rw [if_pos hid] at hdoc'
      cases hdoc'
      rfl
    · rename_i hid
      rw [if_neg hid] at hdoc'
      exact h.vectors id' doc' hdoc'
  metadata id' md hmd := by
    have hput := lookup_of_putMetadata h.disabled hmd
    rw [HashMap.lookup_insert]
    split at hput
    · cases hput
      rename_i hid
      exact ⟨doc, if_pos hid, rfl⟩
    · rename_i hid
      rw [if_neg hid]
      exact h.metadata id' md hput
  disabled := metadata_of_disabled h.disabled

/-- Putting only the metadata, where the vector is the one that is cached. -/
theorem putMetadata (h : cache.Mirrors t) {doc : Document}
    (hvector : cache.vectors.lookup id = some doc.vector) :
    (cache.putMetadata id doc.metadata).Mirrors (t.insert id doc) := by
  have hsame : cache.vectors.insert id doc.vector = cache.vectors := by
    refine Finmap.ext_lookup fun id' => ?_
    rw [HashMap.lookup_insert]
    split
    · rename_i hid
      rw [hid, hvector]
    · rfl
  have hput := h.put id doc
  unfold putVector at hput
  rw [vectors_putMetadata, hsame, ← vectors_putMetadata cache id doc.metadata] at hput
  exact hput

theorem remove (h : cache.Mirrors t) (id : Uuid) (removeVector : Bool) :
    (cache.remove id removeVector).Mirrors (t.erase id) where
  vectors id' doc hdoc := by
    rw [HashMap.lookup_erase] at hdoc
    split at hdoc
    · cases hdoc
    · rename_i hid
      rw [vectors_remove]
      split
      · rw [HashMap.lookup_erase, if_neg hid]
        exact h.vectors id' doc hdoc
      · exact h.vectors id' doc hdoc
  metadata id' md hmd := by
    unfold CacheManager.remove at hmd
    rw [HashMap.lookup_erase] at hmd
    split at hmd
    · cases hmd
    · rename_i hid
      rw [HashMap.lookup_erase, if_neg hid]
      exact h.metadata id' md hmd
  disabled hoff := by
    unfold CacheManager.remove at hoff ⊢
    rw [h.disabled hoff]
    exact Finmap.ext_lookup fun id' => by simp [HashMap.lookup_erase]

theorem clearMetadata (h : cache.Mirrors t) : cache.clearMetadata.Mirrors t where
  vectors := h.vectors
  metadata id md hmd := by simp [CacheManager.clearMetadata] at hmd
  disabled _ := rfl

end Mirrors

/-- The steps of an insertion put the vector first. -/
theorem putVector_putMetadata (cache : CacheManager) (id : Uuid) (vector : Vector32)
    (metadata : Metadata) :
    (cache.putVector id vector).putMetadata id metadata =
      (cache.putMetadata id metadata).putVector id vector := by
  unfold putMetadata putVector enforceItemLimit
  split
  · rfl
  · simp only
    split <;> rfl

end CacheManager

/-! ## The derived parts -/

/-- The vector index and the cache are those of `t`. Only a graph may leave the
vectors of other ids in the cache. -/
structure Cached (ix : VectorIndex) (cache : CacheManager) (t : Table) : Prop where
  tracked : ix.trackedIds = t.keys
  intact : ix.Intact
  mirrors : cache.Mirrors t
  only : ix.indexType ≠ .hnsw → cache.vectors.keys ⊆ t.keys

namespace Cached

variable {ix ix' : VectorIndex} {cache : CacheManager} {t : Table} {id : Uuid}

/-- The cache of an index that is no graph holds the vectors of the documents. -/
theorem keys_vectors (h : Cached ix cache t) (htype : ix.indexType ≠ .hnsw) :
    cache.vectors.keys = t.keys := by
  refine Finset.Subset.antisymm (h.only htype) fun id hid => ?_
  obtain ⟨doc, hdoc⟩ := (HashMap.mem_keys_iff t id).mp hid
  exact (HashMap.mem_keys_iff _ _).mpr ⟨_, h.mirrors.vectors id doc hdoc⟩

/-- A document is cached and indexed, by an index that tracks the ids but this one. -/
theorem reindex [Env] (h : Cached ix cache t) {ix₀ : VectorIndex} (hintact : ix₀.Intact)
    (htype : ix₀.indexType = ix.indexType)
    (htracked : Insert.insert id ix₀.trackedIds = Insert.insert id t.keys) (doc : Document)
    {order : HashOrder Uuid} {r : F32}
    (hret : ix₀.insert id doc.vector
      (((cache.putMetadata id doc.metadata).putVector id doc.vector).reader order) r = .ok ix') :
    Cached ix' ((cache.putMetadata id doc.metadata).putVector id doc.vector) (t.insert id doc) := by
  have hins := hintact.insert hret
  have hkeys : ix.indexType ≠ .hnsw →
      ((cache.putMetadata id doc.metadata).putVector id doc.vector).vectors.keys =
        Insert.insert id t.keys := by
    intro hne
    rw [CacheManager.vectors_putVector, CacheManager.vectors_putMetadata, HashMap.keys_insert,
      h.keys_vectors hne]
  refine ⟨?_, hins.intact, h.mirrors.put id doc, fun hne => ?_⟩
  · rw [HashMap.keys_insert]
    rcases hins.tracks with htracks | ⟨hne, htracks⟩
    · exact htracks.trans htracked
    · exact htracks.trans (hkeys (htype ▸ hne))
  · rw [HashMap.keys_insert, hkeys (htype ▸ hins.indexType ▸ hne)]

/-- A document is cached and indexed. -/
theorem index [Env] (h : Cached ix cache t) (doc : Document) {order : HashOrder Uuid} {r : F32}
    (hret : ix.insert id doc.vector
      (((cache.putMetadata id doc.metadata).putVector id doc.vector).reader order) r = .ok ix') :
    Cached ix' ((cache.putMetadata id doc.metadata).putVector id doc.vector) (t.insert id doc) :=
  h.reindex h.intact rfl (by rw [h.tracked]) doc hret

/-- A document is replaced by one with the same vector. -/
theorem relabel (h : Cached ix cache t) {old doc : Document} (hold : t.lookup id = some old)
    (hvector : doc.vector = old.vector) :
    Cached ix (cache.putMetadata id doc.metadata) (t.insert id doc) := by
  have hkeys : (t.insert id doc).keys = t.keys := by
    rw [HashMap.keys_insert, Finset.insert_eq_of_mem ((HashMap.mem_keys_iff t id).mpr ⟨old, hold⟩)]
  refine ⟨h.tracked.trans hkeys.symm, h.intact, h.mirrors.putMetadata ?_, fun htype => ?_⟩
  · rw [hvector]
    exact h.mirrors.vectors id old hold
  · rw [CacheManager.vectors_putMetadata, hkeys]
    exact h.only htype

/-- A document is removed. -/
theorem remove (h : Cached ix cache t) (id : Uuid) (order : HashOrder Uuid) :
    Cached (ix.remove id order) (cache.remove id ((ix.remove id order).indexType ≠ .hnsw))
      (t.erase id) := by
  refine ⟨?_, h.intact.remove id order, h.mirrors.remove id _, ?_⟩
  · rw [VectorIndex.trackedIds_remove, h.tracked, Finmap.keys_erase]
  · intro htype
    rw [CacheManager.vectors_remove, if_pos (by simpa using htype), Finmap.keys_erase,
      Finmap.keys_erase]
    exact Finset.erase_subset_erase id (h.only (by simpa using htype))

end Cached

/-! ## The records -/

namespace HashMap

variable {κ ν : Type} [DecidableEq κ]

theorem insert_erase (m : HashMap κ ν) (k : κ) (v : ν) :
    (m.erase k).insert k v = m.insert k v := by
  refine Finmap.ext_lookup fun k' => ?_
  rw [lookup_insert, lookup_insert, lookup_erase]
  split
  · rfl
  · rfl

theorem erase_of_not_mem {m : HashMap κ ν} {k : κ} (h : k ∉ m) : m.erase k = m := by
  refine Finmap.ext_lookup fun k' => ?_
  rw [lookup_erase]
  split
  · rename_i hk
    rw [hk, Finmap.lookup_eq_none.mpr h]
  · rfl

end HashMap

/-- Insert documents one after the other. -/
def Table.insertDocs (t : Table) (docs : List Document) : Table :=
  docs.foldl (fun t doc => t.insert doc.id doc) t

/-- The documents of a table, inserted in any order, give the table back. -/
theorem Table.insertDocs_enum {t : Table} (hown : ∀ id doc, t.lookup id = some doc → doc.id = id)
    (order : HashOrder Uuid) :
    Table.insertDocs ∅ ((order.enum t.keys).filterMap t.lookup) = t := by
  have key : ∀ (ids : List Uuid) (t' : Table), t'.insertDocs (ids.filterMap t.lookup) =
      HashMap.insertEach t' (ids.filterMap fun id => (t.lookup id).map (id, ·)) := by
    intro ids
    induction ids with
    | nil => intro t'; rfl
    | cons id ids ih =>
        intro t'
        cases hdoc : t.lookup id with
        | none => simpa [hdoc] using ih t'
        | some doc =>
            have hstep := ih (t'.insert id doc)
            simpa [hdoc, Table.insertDocs, HashMap.insertEach, hown id doc hdoc] using hstep
  rw [key]
  exact order.insertEach_entries t

theorem Table.length_docs (t : Table) (order : HashOrder Uuid) :
    ((order.enum t.keys).filterMap t.lookup).length = t.len := by
  have hall : ((order.enum t.keys).filterMap t.lookup).length = (order.enum t.keys).length := by
    refine List.filterMap_length_eq_length.mpr fun id hid => ?_
    have hkey : id ∈ t.keys := (order.mem_enum _ _).mp hid
    exact Option.isSome_iff_exists.mpr ((HashMap.mem_keys_iff t id).mp hkey)
  rw [hall, order.length_enum]
  rfl

/-- Documents under their own ids have different ids. -/
theorem Table.nodup_docs {t : Table} (hown : ∀ id doc, t.lookup id = some doc → doc.id = id)
    (order : HashOrder Uuid) : (((order.enum t.keys).filterMap t.lookup).map Document.id).Nodup := by
  have hids : ∀ ids : List Uuid, (ids.filterMap t.lookup).map Document.id = ids.filter (· ∈ t.keys) := by
    intro ids
    induction ids with
    | nil => rfl
    | cons id ids ih =>
        cases hdoc : t.lookup id with
        | none =>
            have hnot : id ∉ t.keys := (HashMap.not_mem_keys_iff t id).mpr hdoc
            simp only [List.filterMap_cons, hdoc, ih, List.filter_cons, hnot, decide_false,
              Bool.false_eq_true, if_false]
        | some doc =>
            have hin : id ∈ t.keys := (HashMap.mem_keys_iff t id).mpr ⟨doc, hdoc⟩
            simp only [List.filterMap_cons, hdoc, List.map_cons, ih, List.filter_cons, hin, decide_true,
              if_true, hown id doc hdoc]
  rw [hids]
  exact (order.nodup _).filter _

/-- Remove ids one after the other. -/
def Table.eraseIds (t : Table) (ids : List Uuid) : Table := ids.foldl (fun t id => t.erase id) t

section

variable [Env]

/-- The record store on `f` and the offset index hold the documents of `t`, under their
own ids and in records whose length a pointer can hold. -/
structure Held (f : StoreFile) (store : RecordStore) (index : OffsetIndex) (d : Disk) (t : Table) :
    Prop where
  openOn : store.OpenOn f d
  shows : index.Shows (fun _ => True) (d.read f) t.lookup
  below : index.Below store.appendCursor
  own : ∀ id doc, t.lookup id = some doc → doc.id = id
  fits : ∀ id doc, t.lookup id = some doc → (RecordStore.encodeDocument doc).length < 2 ^ 32

namespace Held

variable {f : StoreFile} {store store' : RecordStore} {index : OffsetIndex} {d d' : Disk}
  {t : Table} {c : Collection}

theorem read (h : Held f store index d t) {id : Uuid} {p : EntryPointer}
    (hp : index.lookup id = some p) :
    ∃ doc, t.lookup id = some doc ∧ store.readDocument d p = .ok doc := by
  obtain ⟨doc, hdoc, hrec⟩ := h.shows.record id p trivial hp
  exact ⟨doc, hdoc, RecordStore.readDocument_eq h.openOn hrec⟩

theorem get (h : Held .data c.recordStore c.index d t) (id : Uuid) :
    c.get d id = .ok (t.lookup id) :=
  Collection.get_eq h.openOn h.shows id

theorem keys (h : Held f store index d t) : index.keys = t.keys := by
  ext id
  rw [Finmap.mem_keys, h.shows.mem_iff, HashMap.mem_keys_iff, Option.isSome_iff_exists]

theorem mem_iff (h : Held f store index d t) (id : Uuid) : id ∈ index ↔ id ∈ t := by
  rw [← Finmap.mem_keys, h.keys, Finmap.mem_keys]

theorem len (h : Held f store index d t) : index.len = t.len := by
  unfold HashMap.len
  rw [h.keys]

theorem getAll (h : Held .data c.recordStore c.index d t) (order : HashOrder Uuid) :
    c.getAll d order = .ok ((order.enum t.keys).filterMap t.lookup) := by
  have hmapM : ∀ ids : List Uuid, ids.mapM (c.get d) = .ok (ids.map t.lookup) := by
    intro ids
    induction ids with
    | nil => rfl
    | cons id ids ih =>
        rw [List.mapM_cons, h.get, ih]
        rfl
  unfold Collection.getAll
  rw [hmapM, h.keys]
  change Except.ok _ = _
  rw [List.filterMap_map]
  rfl

/-- Other files do not matter. -/
theorem disk (h : Held f store index d t) (hfile : d' f = d f) : Held f store index d' t := by
  have hread : d'.read f = d.read f := by
    unfold Disk.read
    rw [hfile]
  refine ⟨⟨h.openOn.dataFile, fun len hlen => ?_⟩, ?_, h.below, h.own, h.fits⟩
  · exact hread ▸ h.openOn.mmap len hlen
  · rw [hread]
    exact h.shows

theorem erase (h : Held f store index d t) (id : Uuid) :
    Held f store (index.erase id) d (t.erase id) where
  openOn := h.openOn
  shows := by
    have hlookup : (t.erase id).lookup = (SnapshotLog.Update.del id).apply t.lookup :=
      funext fun id' => HashMap.lookup_erase t id id'
    rw [hlookup]
    exact (h.shows.erase id).mono fun _ _ => .inl trivial
  below := h.below.erase id
  own id' doc hdoc := by
    rw [HashMap.lookup_erase] at hdoc
    split at hdoc
    · cases hdoc
    · exact h.own id' doc hdoc
  fits id' doc hdoc := by
    rw [HashMap.lookup_erase] at hdoc
    split at hdoc
    · cases hdoc
    · exact h.fits id' doc hdoc

/-- A pointer to the record of a document. -/
theorem install (h : Held f store index d t) {doc : Document} {p : EntryPointer}
    (hp : p.stop ≤ store.appendCursor) (hrec : Extent.Record (d.read f) p doc)
    (hfits : (RecordStore.encodeDocument doc).length < 2 ^ 32) :
    Held f store (Finmap.insert doc.id p index) d (t.insert doc.id doc) where
  openOn := h.openOn
  shows := by
    have hlookup : (t.insert doc.id doc).lookup = (SnapshotLog.Update.put doc.id doc).apply t.lookup :=
      funext fun id => HashMap.lookup_insert t doc.id id doc
    rw [hlookup]
    exact (h.shows.insert hrec).mono fun _ _ => .inl trivial
  below := h.below.insert doc.id hp
  own id doc' hdoc' := by
    rw [HashMap.lookup_insert] at hdoc'
    split at hdoc'
    · rename_i hid
      cases hdoc'
      exact hid.symm
    · exact h.own id doc' hdoc'
  fits id doc' hdoc' := by
    rw [HashMap.lookup_insert] at hdoc'
    split at hdoc'
    · cases hdoc'
      exact hfits
    · exact h.fits id doc' hdoc'

/-- The pointers of a batch. -/
theorem installPointers {docs : List Document} {ps : List EntryPointer}
    (hps : List.Forall₂ (fun doc p => p.stop ≤ store.appendCursor ∧ Extent.Record (d.read f) p doc)
      docs ps) (hfits : ∀ doc ∈ docs, (RecordStore.encodeDocument doc).length < 2 ^ 32)
    (h : Held f store index d t) :
    Held f store (Collection.installPointers index ((docs.map Document.id).zip ps)) d
      (t.insertDocs docs) := by
  induction hps generalizing index t with
  | nil => exact h
  | @cons doc p docs ps hp _ ih =>
      exact ih (fun doc' hdoc' => hfits doc' (by simp [hdoc']))
        (h.install hp.1 hp.2 (hfits doc (by simp)))

/-- Records were written behind the cursor, which moved on. -/
theorem appended (h : Held f store index d t) (hk : Disk.Keeps f store.appendCursor d d')
    (hopen : store'.OpenOn f d') (hcursor : store.appendCursor ≤ store'.appendCursor) :
    Held f store' index d' t where
  openOn := hopen
  shows := hk.shows h.below h.shows
  below := h.below.mono hcursor
  own := h.own
  fits := h.fits

/-- An empty store. -/
theorem empty (hopen : store.OpenOn f d) : Held f store ∅ d ∅ where
  openOn := hopen
  shows := ⟨fun id => by simp [Finmap.notMem_empty], fun id p _ hp => by simp at hp⟩
  below id p hp := by simp at hp
  own id doc hdoc := by simp at hdoc
  fits id doc hdoc := by simp at hdoc

end Held

end
