-- SUMMARY: What the files of a collection stand for: a snapshot of the documents and a log of later updates.
import Piramid.Base.SnapshotLog
import Piramid.Collections.Builder
import Piramid.Collections.Domain
import Piramid.Storage.Laws

/-!
# Stored collections

A collection on disk is a stored map from ids to documents: the offset index and
the data file are its snapshot, the log is its log, and `wal.meta` is its floor. A
record may be unreadable only under an id that the log binds anew.
-/

open SnapshotLog

/-- What a collection holds. -/
abbrev DocMap : Type := Uuid → Option Document

abbrev DocUpdate : Type := Update Uuid Document

/-- The stored map that the files of a collection stand for. -/
abbrev StoredMap : Type := Store Uuid Document

namespace WalEntry

/-- What an entry does to the map. -/
def update? : WalEntry → Option DocUpdate
  | .insert doc _ | .update doc _ => some (.put doc.id doc)
  | .delete id _ => some (.del id)
  | .checkpoint _ _ => none

@[simp] theorem update?_withSeq (entry : WalEntry) (seq : Nat) :
    (entry.withSeq seq).update? = entry.update? := by
  cases entry <;> rfl

/-- The entry as a numbered update. -/
def numbered (entry : WalEntry) : Entry Uuid Document := ⟨entry.seq, entry.update?⟩

end WalEntry

theorem pending_numbered (floor : Nat) (entries : List WalEntry) :
    pending floor (entries.map WalEntry.numbered) =
      (Wal.above floor entries).filterMap WalEntry.update? := by
  rw [pending, Wal.above, List.filter_map, List.filterMap_map]
  rfl

section

variable [Env]

/-- A document that can be logged and stored: its vector is in the domain, what is
logged about it is read back, and the length of its record fits the `u32` of its pointer. -/
structure Document.Sound (dom : VectorDomain) (doc : Document) : Prop where
  vector : dom.Has doc.vector
  legible : doc.Legible
  fits : (RecordStore.encodeDocument doc).length < 2 ^ 32

/-- Every document of a map is sound and stored under its own id. -/
def DocMap.Sound (dom : VectorDomain) (m : DocMap) : Prop :=
  ∀ id doc, m id = some doc → doc.id = id ∧ doc.Sound dom

/-- An update of a sound map. -/
def DocUpdate.Sound (dom : VectorDomain) (u : DocUpdate) : Prop :=
  ∀ doc, u.value = some doc → doc.id = u.key ∧ doc.Sound dom

variable {dom : VectorDomain}

theorem DocMap.Sound.apply {m : DocMap} (h : m.Sound dom) {u : DocUpdate}
    (hu : DocUpdate.Sound dom u) : DocMap.Sound dom (u.apply m) := by
  intro id doc hdoc
  rw [Update.apply] at hdoc
  split at hdoc
  · rename_i hid
    exact hid ▸ hu doc hdoc
  · exact h id doc hdoc

theorem DocMap.Sound.replay {us : List DocUpdate} {m : DocMap} (h : m.Sound dom)
    (hus : ∀ u ∈ us, DocUpdate.Sound dom u) : DocMap.Sound dom (replay us m) := by
  induction us generalizing m with
  | nil => exact h
  | cons u us ih => exact ih (h.apply (hus u (by simp))) fun v hv => hus v (by simp [hv])

/-- An entry whose document is sound. -/
def WalEntry.Sound (dom : VectorDomain) (entry : WalEntry) : Prop :=
  ∀ doc, entry.document? = some doc → doc.Sound dom

theorem WalEntry.Sound.legible [BareEntries] {entry : WalEntry} (h : entry.Sound dom) : entry.Legible :=
  WalEntry.Carries.legible fun doc hdoc => (h doc hdoc).legible

theorem WalEntry.Sound.withSeq {entry : WalEntry} (h : entry.Sound dom) (seq : Nat) :
    (entry.withSeq seq).Sound dom := by
  intro doc hdoc
  rw [document?_withSeq] at hdoc
  exact h doc hdoc

theorem WalEntry.Sound.update {entry : WalEntry} (h : entry.Sound dom) {u : DocUpdate}
    (hu : entry.update? = some u) : DocUpdate.Sound dom u := by
  intro doc hdoc
  cases entry with
  | insert doc' seq | update doc' seq =>
      cases hu
      cases hdoc
      exact ⟨rfl, h _ rfl⟩
  | delete id seq =>
      cases hu
      cases hdoc
  | checkpoint timestamp seq => cases hu

/-! ## Records -/

/-- The record of `doc` lies at `p`. -/
def Extent.Record (data : Bytes) (p : EntryPointer) (doc : Document) : Prop :=
  p.stop ≤ data.length ∧ Env.document.decode (Extent.slice data p.offset p.length) = .ok doc

/-- The index points to exactly the documents of `m`, and the records of those whose
ids satisfy `ids` can be read. -/
structure OffsetIndex.Shows (ids : Uuid → Prop) (index : OffsetIndex) (data : Bytes) (m : DocMap) :
    Prop where
  mem_iff : ∀ id, id ∈ index ↔ (m id).isSome
  record : ∀ id p, ids id → index.lookup id = some p →
    ∃ doc, m id = some doc ∧ Extent.Record data p doc

variable {ids ids' : Uuid → Prop} {index : OffsetIndex} {data : Bytes} {m : DocMap}

theorem OffsetIndex.Shows.mono (h : index.Shows ids data m) (hids : ∀ id, ids' id → ids id) :
    index.Shows ids' data m :=
  ⟨h.mem_iff, fun id p hid => h.record id p (hids id hid)⟩

theorem OffsetIndex.Shows.insert (h : index.Shows ids data m) {p : EntryPointer} {doc : Document}
    (hp : Extent.Record data p doc) :
    OffsetIndex.Shows (fun id => ids id ∨ id = doc.id) (Finmap.insert doc.id p index) data
      ((Update.put doc.id doc).apply m) := by
  constructor
  · intro id
    by_cases hid : id = doc.id
    · simp [Update.apply, Update.key, Update.value, hid]
    · simp [Update.apply, Update.key, hid, h.mem_iff]
  · intro id q hids hq
    rw [HashMap.lookup_insert] at hq
    by_cases hid : id = doc.id
    · rw [if_pos hid] at hq
      cases hq
      exact ⟨doc, by simp [Update.apply, Update.key, Update.value, hid], hp⟩
    · rw [if_neg hid] at hq
      obtain ⟨doc', hdoc', hrec⟩ := h.record id q (hids.resolve_right hid) hq
      exact ⟨doc', by simp [Update.apply, Update.key, hid, hdoc'], hrec⟩

theorem OffsetIndex.Shows.erase (h : index.Shows ids data m) (id : Uuid) :
    OffsetIndex.Shows (fun id' => ids id' ∨ id' = id) (Finmap.erase id index) data
      ((Update.del id).apply m) := by
  constructor
  · intro id'
    by_cases hid : id' = id
    · simp [Update.apply, Update.key, Update.value, hid]
    · simp [Update.apply, Update.key, hid, h.mem_iff]
  · intro id' q hids hq
    rw [HashMap.lookup_erase] at hq
    by_cases hid : id' = id
    · rw [if_pos hid] at hq
      cases hq
    · rw [if_neg hid] at hq
      obtain ⟨doc', hdoc', hrec⟩ := h.record id' q (hids.resolve_right hid) hq
      exact ⟨doc', by simp [Update.apply, Update.key, hid, hdoc'], hrec⟩

/-- Every record the index points to ends at or before `k`. -/
def OffsetIndex.Below (index : OffsetIndex) (k : Nat) : Prop :=
  ∀ id p, index.lookup id = some p → p.stop ≤ k

omit [Env] in
theorem OffsetIndex.Below.mono {k k' : Nat} (h : index.Below k) (hk : k ≤ k') : index.Below k' :=
  fun id p hp => (h id p hp).trans hk

omit [Env] in
theorem OffsetIndex.Below.insert {k : Nat} (h : index.Below k) (id : Uuid) {p : EntryPointer}
    (hp : p.stop ≤ k) : OffsetIndex.Below (Finmap.insert id p index) k := by
  intro id' q hq
  rw [HashMap.lookup_insert] at hq
  split at hq
  · cases hq
    exact hp
  · exact h id' q hq

omit [Env] in
theorem OffsetIndex.Below.erase {k : Nat} (h : index.Below k) (id : Uuid) :
    OffsetIndex.Below (Finmap.erase id index) k := by
  intro id' q hq
  rw [HashMap.lookup_erase] at hq
  split at hq
  · cases hq
  · exact h id' q hq

omit [Env] in
theorem below_nextAppendOffset (index : OffsetIndex) :
    index.Below (RecordStore.nextAppendOffset index) := by
  intro id p hp
  have hmem : id ∈ index.keys := (HashMap.mem_keys_iff index id).mpr ⟨p, hp⟩
  have hle := Finset.le_sup (f := fun id => ((index.lookup id).map EntryPointer.stop).getD 0) hmem
  rw [hp] at hle
  exact hle

omit [Env] in
theorem nextAppendOffset_le {k : Nat} (h : index.Below k) :
    RecordStore.nextAppendOffset index ≤ k := by
  refine Finset.sup_le fun id hid => ?_
  obtain ⟨p, hp⟩ := (HashMap.mem_keys_iff index id).mp hid
  simpa [hp] using h id p hp

/-! ## Writing behind the records -/

/-- A record that the file has whole does not change where the file does not. -/
theorem Extent.Record.of_take {data' : Bytes} {p : EntryPointer} {doc : Document}
    (h : Extent.Record data p doc) (hlen : p.stop ≤ data'.length)
    (htake : data'.take p.stop = data.take p.stop) : Extent.Record data' p doc := by
  refine ⟨hlen, ?_⟩
  rw [Extent.slice_congr le_rfl htake]
  exact h.2

/-- From `d` to `d'` only the file `f` changes, and no record in it that ends at or
before `k` does. -/
structure Disk.Keeps (f : CollFile) (k : Nat) (d d' : Disk) : Prop where
  files : ∀ f', f' ≠ f → d' f' = d f'
  record : ∀ p doc, p.stop ≤ k → Extent.Record (d.read f) p doc → Extent.Record (d'.read f) p doc

namespace Disk.Keeps

variable {f : CollFile} {k : Nat} {d d' : Disk}

theorem read (h : Disk.Keeps f k d d') {f' : CollFile} (hf : f' ≠ f) : d'.read f' = d.read f' := by
  rw [Disk.read, Disk.read, h.files f' hf]

theorem shows (h : Disk.Keeps f k d d') (hbelow : index.Below k)
    (hshows : index.Shows ids (d.read f) m) : index.Shows ids (d'.read f) m where
  mem_iff := hshows.mem_iff
  record id p hid hp := by
    obtain ⟨doc, hdoc, hrec⟩ := hshows.record id p hid hp
    exact ⟨doc, hdoc, h.record p doc (hbelow id p hp) hrec⟩

end Disk.Keeps

/-- From `d` to `d'` only the file `f` changes: it gets no shorter, and what it has before
`k` stays. -/
structure Disk.Grows (f : CollFile) (k : Nat) (d d' : Disk) : Prop where
  files : ∀ f', f' ≠ f → d' f' = d f'
  length : (d.read f).length ≤ (d'.read f).length
  take : ∀ n, n ≤ k → n ≤ (d.read f).length → (d'.read f).take n = (d.read f).take n

namespace Disk.Grows

variable {f : CollFile} {k k' : Nat} {d d' d'' : Disk}

omit [Env] in
theorem refl (f : CollFile) (k : Nat) (d : Disk) : Disk.Grows f k d d :=
  ⟨fun _ _ => rfl, le_rfl, fun _ _ _ => rfl⟩

omit [Env] in
theorem trans (h : Disk.Grows f k d d') (h' : Disk.Grows f k' d' d'') (hk : k ≤ k') :
    Disk.Grows f k d d'' where
  files f' hf := (h'.files f' hf).trans (h.files f' hf)
  length := h.length.trans h'.length
  take n hn hlen := (h'.take n (hn.trans hk) (hlen.trans h.length)).trans (h.take n hn hlen)

theorem keeps (h : Disk.Grows f k d d') : Disk.Keeps f k d d' where
  files := h.files
  record p _ hp hrec := hrec.of_take (hrec.1.trans h.length) (h.take p.stop hp hrec.1)

end Disk.Grows

omit [Env] in
theorem Disk.grows_setLen (f : CollFile) (k : Nat) {d : Disk} {size : Nat}
    (h : (d.read f).length ≤ size) :
    Disk.Grows f k d (d.put f (some (Extent.resize (d.read f) size))) where
  files f' hf := Disk.put_other d hf _
  length := by
    rw [Disk.read_put_self, Option.getD_some, Extent.length_resize]
    exact h
  take n _ hlen := by
    rw [Disk.read_put_self, Option.getD_some]
    exact Extent.take_resize (hlen.trans h) hlen

omit [Env] in
theorem Disk.grows_store (f : CollFile) {d : Disk} (offset : Nat) (bytes : Bytes) :
    Disk.Grows f offset d (d.put f (some (Extent.overwrite (d.read f) offset bytes))) where
  files f' hf := Disk.put_other d hf _
  length := by
    rw [Disk.read_put_self, Option.getD_some, Extent.length_overwrite]
    exact le_max_left _ _
  take n hn hlen := by
    rw [Disk.read_put_self, Option.getD_some]
    exact Extent.take_overwrite hn hlen

omit [Env] in
theorem Disk.grows_create (f : CollFile) (k : Nat) (d : Disk) :
    Disk.Grows f k d (d.put f (some (d.read f))) where
  files f' hf := Disk.put_other d hf _
  length := by simp
  take n _ _ := by simp

/-! ## Stored maps -/

/-- The offset index that the sidecar holds. -/
def Disk.IndexFile (d : Disk) (index : OffsetIndex) : Prop :=
  d .index = none ∧ index = ∅ ∨ ∃ bytes, d .index = some bytes ∧ Env.offsetIndex.decode bytes = .ok index

/-- The entries that the log holds. -/
def Disk.LogFile (d : Disk) (entries : List WalEntry) : Prop :=
  d.read .wal = Wal.fileOf entries ∨ d.read .wal = [] ∧ entries = []

/-- The number that `wal.meta` holds. -/
def Disk.FloorFile (d : Disk) (floor : Nat) : Prop :=
  d .walMeta = none ∧ floor = 0 ∨
    ∃ bytes, d .walMeta = some bytes ∧ Env.walMeta.decode bytes = .ok ⟨floor⟩

theorem Disk.IndexFile.unique {d : Disk} {index' : OffsetIndex} (h : d.IndexFile index)
    (h' : d.IndexFile index') : index' = index := by
  rcases h with ⟨hnone, rfl⟩ | ⟨bytes, hsome, hdec⟩ <;>
    rcases h' with ⟨hnone', rfl⟩ | ⟨bytes', hsome', hdec'⟩
  · rfl
  · rw [hnone] at hsome'
    cases hsome'
  · rw [hsome] at hnone'
    cases hnone'
  · rw [hsome] at hsome'
    cases hsome'
    rw [hdec] at hdec'
    cases hdec'
    rfl

/-- The files of `d` stand for `g`. -/
structure Stored (dom : VectorDomain) (d : Disk) (g : StoredMap) : Prop where
  index : ∃ index, d.IndexFile index ∧
    index.Shows (fun id => ∀ u ∈ pending g.floor g.log, u.key ≠ id) (d.read .data) g.base
  log : ∃ entries, d.LogFile entries ∧ g.log = entries.map WalEntry.numbered ∧
    ∀ e ∈ entries, e.Sound dom
  ordered : Ordered g.log
  floor : d.FloorFile g.floor
  sound : DocMap.Sound dom g.base
  vecindex : ∀ bytes, d .vecindex = some bytes →
    ∃ ix, Env.vectorIndex.decode bytes = .ok ix ∧ ix.Able dom
  metadata : ∀ bytes, d .metadata = some bytes →
    ∃ md, Env.collectionMetadata.decode bytes = .ok md ∧ md.schemaVersion = SCHEMA_VERSION ∧
      ∀ n, md.dimensions = some n → n = dom.dim

/-- What can be recovered from `d` is `m`. -/
def Recoverable (dom : VectorDomain) (m : DocMap) (d : Disk) : Prop :=
  ∃ g, Stored dom d g ∧ g.contents = m

/-- Nothing is recovered where there is neither index nor log nor anything saved. -/
theorem Recoverable.of_none {dom : VectorDomain} {d : Disk} (hindex : d .index = none) (hwal : d .wal = none)
    (hwalMeta : d .walMeta = none) (hvecindex : d .vecindex = none) (hmetadata : d .metadata = none) :
    Recoverable dom (fun _ => none) d := by
  refine ⟨⟨fun _ => none, 0, []⟩, ?_, ?_⟩
  · exact {
      index := ⟨∅, .inl ⟨hindex, rfl⟩,
        ⟨fun id => by simp [Finmap.notMem_empty], fun id p _ hp => by simp at hp⟩⟩
      log := ⟨[], .inr ⟨by rw [Disk.read, hwal]; rfl, rfl⟩, rfl, by simp⟩
      ordered := List.Pairwise.nil
      floor := .inl ⟨hwalMeta, rfl⟩
      sound := fun id doc hdoc => by cases hdoc
      vecindex := fun bytes hbytes => by rw [hvecindex] at hbytes; cases hbytes
      metadata := fun bytes hbytes => by rw [hmetadata] at hbytes; cases hbytes }
  · funext id
    simp [Store.contents, pending]

theorem Stored.keeps {d d' : Disk} {g : StoredMap} (h : Stored dom d g) {k : Nat}
    (hk : Disk.Keeps .data k d d') (hbelow : ∀ index, d.IndexFile index → index.Below k) :
    Stored dom d' g where
  index := by
    obtain ⟨index, hindex, hshows⟩ := h.index
    refine ⟨index, ?_, hk.shows (hbelow index hindex) hshows⟩
    rw [Disk.IndexFile, hk.files _ (by simp)]
    exact hindex
  log := by
    obtain ⟨entries, hlog, hrest⟩ := h.log
    refine ⟨entries, ?_, hrest⟩
    rw [Disk.LogFile, hk.read (by simp)]
    exact hlog
  ordered := h.ordered
  floor := by
    rw [Disk.FloorFile, hk.files _ (by simp)]
    exact h.floor
  sound := h.sound
  vecindex := by
    rw [hk.files _ (by simp)]
    exact h.vecindex
  metadata := by
    rw [hk.files _ (by simp)]
    exact h.metadata

/-! ## Writing one file

Each write of a sidecar or of the log, as a step of the stored map. -/

section

variable {d : Disk} {f : CollFile} {contents : Option Bytes}

@[simp] theorem Disk.indexFile_put (h : CollFile.index ≠ f) :
    (d.put f contents).IndexFile index ↔ d.IndexFile index := by
  simp [Disk.IndexFile, h]

omit [Env] in
@[simp] theorem Disk.read_put (h : f ≠ .data) : (d.put f contents).read .data = d.read .data :=
  Disk.read_put_other d (Ne.symm h) _

@[simp] theorem Disk.logFile_put {entries : List WalEntry} (h : CollFile.wal ≠ f) :
    (d.put f contents).LogFile entries ↔ d.LogFile entries := by
  simp [Disk.LogFile, h]

@[simp] theorem Disk.floorFile_put {floor : Nat} (h : CollFile.walMeta ≠ f) :
    (d.put f contents).FloorFile floor ↔ d.FloorFile floor := by
  simp [Disk.FloorFile, h]

end

variable {d : Disk} {g : StoredMap}

/-- Files that no loader reads do not matter. -/
theorem Stored.put_other (h : Stored dom d g) {f : CollFile} (hf : f = .walMetaTmp ∨ f = .compactTmp)
    (contents : Option Bytes) : Stored dom (d.put f contents) g := by
  rcases hf with rfl | rfl
  all_goals exact {
    index := by simpa using h.index
    log := by simpa using h.log
    ordered := h.ordered
    floor := by simpa using h.floor
    sound := h.sound
    vecindex := by simpa using h.vecindex
    metadata := by simpa using h.metadata }

/-- Only the temporary file of a compaction changes. -/
theorem Stored.other (h : Stored dom d g) {d' : Disk} (hfiles : ∀ f, f ≠ .compactTmp → d' f = d f) :
    Stored dom d' g := by
  have hsame : d' = d.put .compactTmp (d' .compactTmp) := by
    funext f
    by_cases hf : f = .compactTmp
    · simp [hf]
    · rw [Disk.put_other d hf, hfiles f hf]
  rw [hsame]
  exact h.put_other (.inr rfl) _

/-- Saving an index that shows the contents takes a snapshot. -/
theorem Stored.saveIndex [LawfulEnv] (h : Stored dom d g) {index : OffsetIndex}
    (hshows : index.Shows (fun _ => True) (d.read .data) g.contents)
    (hsound : DocMap.Sound dom g.contents) :
    Stored dom (d.put .index (some (Env.offsetIndex.encode index))) { g with base := g.contents } where
  index := by
    refine ⟨index, .inr ⟨_, Disk.put_self _ _ _, LawfulEnv.offsetIndex index⟩, ?_⟩
    rw [Disk.read_put (by simp)]
    exact hshows.mono fun _ _ => trivial
  log := by simpa using h.log
  ordered := h.ordered
  floor := by simpa using h.floor
  sound := hsound
  vecindex := by simpa using h.vecindex
  metadata := by simpa using h.metadata

theorem Stored.saveVectorIndex [LawfulEnv] (h : Stored dom d g) {ix : VectorIndex}
    (hix : ix.Able dom) : Stored dom (d.put .vecindex (some (Env.vectorIndex.encode ix))) g where
  index := by simpa using h.index
  log := by simpa using h.log
  ordered := h.ordered
  floor := by simpa using h.floor
  sound := h.sound
  vecindex bytes hbytes := by
    rw [Disk.put_self] at hbytes
    cases hbytes
    exact ⟨ix, LawfulEnv.vectorIndex ix, hix⟩
  metadata := by simpa using h.metadata

theorem Stored.saveMetadata [LawfulEnv] (h : Stored dom d g) {md : CollectionMetadata}
    (hschema : md.schemaVersion = SCHEMA_VERSION) (hdim : ∀ n, md.dimensions = some n → n = dom.dim) :
    Stored dom (d.put .metadata (some (Env.collectionMetadata.encode md))) g where
  index := by simpa using h.index
  log := by simpa using h.log
  ordered := h.ordered
  floor := by simpa using h.floor
  sound := h.sound
  vecindex := by simpa using h.vecindex
  metadata bytes hbytes := by
    rw [Disk.put_self] at hbytes
    cases hbytes
    exact ⟨md, LawfulEnv.collectionMetadata md, hschema, hdim⟩

/-- Appending an entry to a log that has its header. -/
theorem Stored.logEntry (h : Stored dom d g) (hheader : d.read .wal ≠ []) {entry : WalEntry}
    (hentry : entry.Sound dom)
    (hseq : entry.update?.isSome → ∀ e ∈ g.log, e.update.isSome → e.seq < entry.seq) :
    Stored dom (d.put .wal (some (d.read .wal ++ Wal.line (Env.walEntry.encode entry))))
      { g with log := g.log ++ [entry.numbered] } where
  index := by
    obtain ⟨index, hindex, hshows⟩ := h.index
    refine ⟨index, by simpa using hindex, ?_⟩
    rw [Disk.read_put (by simp)]
    refine hshows.mono fun id hid u hu => hid u ?_
    rw [pending_append]
    exact List.mem_append_left _ hu
  log := by
    obtain ⟨entries, hlog, hnum, hsound⟩ := h.log
    refine ⟨entries ++ [entry], .inl ?_, by simp [hnum], fun e he => ?_⟩
    · have hfile : d.read .wal = Wal.fileOf entries := hlog.resolve_right fun h => hheader h.1
      rw [Disk.read_put_self, Option.getD_some, hfile, Wal.fileOf_append]
    · cases List.mem_append.mp he with
      | inl hold => exact hsound e hold
      | inr hnew => exact List.mem_singleton.mp hnew ▸ hentry
  ordered := h.ordered.snoc hseq
  floor := by simpa using h.floor
  sound := h.sound
  vecindex := by simpa using h.vecindex
  metadata := by simpa using h.metadata

/-- Replacing `wal.meta`, once a snapshot is taken, raises the floor. -/
theorem Stored.saveWalMeta [LawfulEnv] (h : Stored dom d g) {index : OffsetIndex}
    (hindex : d.IndexFile index) (hshows : index.Shows (fun _ => True) (d.read .data) g.base)
    (floor : Nat) :
    Stored dom (d.put .walMeta (some (Env.walMeta.encode ⟨floor⟩))) { g with floor } where
  index := by
    refine ⟨index, by simpa using hindex, ?_⟩
    rw [Disk.read_put (by simp)]
    exact hshows.mono fun _ _ => trivial
  log := by simpa using h.log
  ordered := h.ordered
  floor := .inr ⟨_, Disk.put_self _ _ _, LawfulEnv.walMeta _⟩
  sound := h.sound
  vecindex := by simpa using h.vecindex
  metadata := by simpa using h.metadata

/-- Emptying the log, once a snapshot is taken. -/
theorem Stored.truncate (h : Stored dom d g) {index : OffsetIndex} (hindex : d.IndexFile index)
    (hshows : index.Shows (fun _ => True) (d.read .data) g.base) :
    Stored dom (d.put .wal (some [])) { g with log := [] } where
  index := by
    refine ⟨index, by simpa using hindex, ?_⟩
    rw [Disk.read_put (by simp)]
    exact hshows.mono fun _ _ => trivial
  log := ⟨[], .inr ⟨by simp, rfl⟩, rfl, by simp⟩
  ordered := List.Pairwise.nil
  floor := by simpa using h.floor
  sound := h.sound
  vecindex := by simpa using h.vecindex
  metadata := by simpa using h.metadata

/-- Writing the header into an empty log. -/
theorem Stored.writeHeader (h : Stored dom d g) (hempty : d.read .wal = []) :
    Stored dom (d.put .wal (some (Wal.fileOf []))) g where
  index := by simpa using h.index
  log := by
    obtain ⟨entries, hlog, hrest⟩ := h.log
    have hnil : entries = [] :=
      (hlog.resolve_left fun hfile => Wal.fileOf_ne_nil entries (hfile.symm.trans hempty)).2
    exact ⟨entries, .inl (by simp [hnil]), hrest⟩
  ordered := h.ordered
  floor := by simpa using h.floor
  sound := h.sound
  vecindex := by simpa using h.vecindex
  metadata := by simpa using h.metadata

end
