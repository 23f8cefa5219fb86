-- SUMMARY: What an open collection holds in memory, and what the steps of its operations do to it.
import Piramid.Collections.Call
import Piramid.Collections.Limits

/-!
# Collections in memory

One lemma for each step that operations are made of: what it needs of the
collection in memory and what it leaves. Only `append` changes the disk, and only
behind the records that are there.
-/

open Loop Prog SnapshotLog

section

variable [Env]

/-! ## The record store -/

/-- The record store is open on `f`, and its memory map spans the file. -/
structure RecordStore.OpenOn (store : RecordStore) (f : StoreFile) (d : Disk) : Prop where
  dataFile : store.dataFile = f
  mmap : ∀ len, store.mmap = some len → len = (d.read f).length

namespace RecordStore

variable {σ : Type} {f : StoreFile} {store : RecordStore} {C : Disk → Prop}
  {R : Fault → σ → Disk → Prop} {s : σ} {d : Disk}

omit [Env] in
theorem OpenOn.moveCursor (h : store.OpenOn f d) (appendCursor : Nat) :
    OpenOn { store with appendCursor } f d :=
  ⟨h.dataFile, h.mmap⟩

omit [Env] in
/-- Growing makes room up to `requiredSize` and keeps every record. -/
theorem wp_growMmapIfNeeded {Q : RecordStore → σ → Disk → Prop} (h : store.OpenOn f d)
    {requiredSize : Nat} (hC : ∀ d', (∀ k, Disk.Grows f k d d') → C d')
    (hQ : ∀ mmap d', (∀ k, Disk.Grows f k d d') → OpenOn { store with mmap } f d' →
      (∀ len, mmap = some len → requiredSize ≤ len) → Q { store with mmap } s d') :
    wp (growMmapIfNeeded store requiredSize) C Q R s d := by
  obtain rfl := h.dataFile
  simp only [growMmapIfNeeded, fileLen, wp_bind, wp_device, wp_pure, wp_ite, wp_emit,
    Effect.apply_setLen]
  constructor
  · intro hgrow
    have hlen : (d.read store.dataFile).length ≤ requiredSize * 2 := by
      cases hmmap : store.mmap with
      | none =>
          rw [hmmap, Option.getD_none] at hgrow
          omega
      | some len =>
          rw [hmmap, Option.getD_some, h.mmap len hmmap] at hgrow
          omega
    have hgrows := fun k => Disk.grows_setLen store.dataFile k hlen
    refine ⟨hC _ hgrows, hQ _ _ hgrows ⟨rfl, ?_⟩ ?_⟩
    · intro len hlen
      rw [Disk.read_put_self, Option.getD_some, Extent.length_resize]
      obtain ⟨_, _, rfl⟩ := Option.map_eq_some_iff.mp hlen
      rfl
    · intro len hlen
      obtain ⟨_, _, rfl⟩ := Option.map_eq_some_iff.mp hlen
      omega
  · intro hgrow
    refine hQ store.mmap d (fun k => .refl _ k d) h fun len hlen => ?_
    rw [hlen, Option.getD_some] at hgrow
    omega

omit [Env] in
/-- A write at `offset` that fits the memory map. -/
theorem wp_writeAt {Q : Unit → σ → Disk → Prop} (h : store.OpenOn f d) {offset : Nat}
    {bytes : Bytes} (hfits : ∀ len, store.mmap = some len → offset + bytes.length ≤ len)
    (hC : ∀ d', Disk.Grows f offset d d' → C d')
    (hQ : ∀ d', Disk.Grows f offset d d' → store.OpenOn f d' →
      offset + bytes.length ≤ (d'.read f).length →
      Extent.slice (d'.read f) offset bytes.length = bytes → Q () s d') :
    wp (writeAt store offset bytes) C Q R s d := by
  have hgrows := Disk.grows_store f (d := d) offset bytes
  have hwritten : OpenOn store f (d.put f (some (Extent.overwrite (d.read f) offset bytes))) := by
    refine ⟨h.dataFile, fun len hlen => ?_⟩
    have hroom := hfits len hlen
    rw [Disk.read_put_self, Option.getD_some, Extent.length_overwrite, ← h.mmap len hlen]
    omega
  have hemit : wp (emit (.store store.dataFile offset bytes)) C Q R s d := by
    rw [wp_emit, h.dataFile, Effect.apply_store]
    refine ⟨hC _ hgrows, hQ _ hgrows hwritten ?_ ?_⟩
    · rw [Disk.read_put_self, Option.getD_some, Extent.length_overwrite]
      exact le_max_right _ _
    · rw [Disk.read_put_self, Option.getD_some]
      exact Extent.slice_overwrite_self _ _ _
  unfold writeAt
  cases hmmap : store.mmap with
  | none => exact hemit
  | some len =>
      simp only [if_pos (hfits len hmmap)]
      exact hemit

/-- What is appended lies where the pointer says, up to the length that the pointer holds. -/
structure Written (data : Bytes) (p : EntryPointer) (bytes : Bytes) : Prop where
  length : p.length = bytes.length % 2 ^ 32
  inside : p.stop ≤ data.length
  slice : Extent.slice data p.offset p.length = bytes.take p.length

omit [Env] in
theorem Written.new {data : Bytes} {cursor : Nat} {bytes : Bytes}
    (hinside : cursor + bytes.length ≤ data.length)
    (hslice : Extent.slice data cursor bytes.length = bytes) : Written data (.new cursor bytes.length) bytes where
  length := rfl
  inside := (Nat.add_le_add_left (Nat.mod_le _ _) cursor).trans hinside
  slice := by
    have hle : bytes.length % 2 ^ 32 ≤ bytes.length := Nat.mod_le _ _
    change Extent.slice data cursor (bytes.length % 2 ^ 32) = bytes.take (bytes.length % 2 ^ 32)
    have htake : Extent.slice data cursor (bytes.length % 2 ^ 32) =
        (Extent.slice data cursor bytes.length).take (bytes.length % 2 ^ 32) := by
      rw [Extent.slice, Extent.slice, List.take_take, Nat.min_eq_left hle]
    rw [htake, hslice]

omit [Env] in
theorem Written.grows {f : CollFile} {k : Nat} {d d' : Disk} {p : EntryPointer} {bytes : Bytes}
    (h : Written (d.read f) p bytes) (hk : Disk.Grows f k d d') (hp : p.stop ≤ k) :
    Written (d'.read f) p bytes where
  length := h.length
  inside := h.inside.trans hk.length
  slice := by
    rw [Extent.slice_congr le_rfl (hk.take p.stop hp h.inside)]
    exact h.slice

/-- The record of a document whose length a pointer can hold. -/
theorem Written.record [LawfulEnv] {data : Bytes} {p : EntryPointer} {doc : Document}
    (h : Written data p (encodeDocument doc)) (hdoc : (encodeDocument doc).length < 2 ^ 32) :
    Extent.Record data p doc := by
  refine ⟨h.inside, ?_⟩
  rw [h.slice, h.length, Nat.mod_eq_of_lt hdoc, List.take_length]
  exact LawfulEnv.document doc

omit [Env] in
theorem wp_append_written {bytes : Bytes} {Q : EntryPointer × RecordStore → σ → Disk → Prop}
    (h : store.OpenOn f d) (hC : ∀ d', Disk.Grows f store.appendCursor d d' → C d')
    (hQ : ∀ p store' d', Disk.Grows f store.appendCursor d d' → store'.OpenOn f d' →
      store'.appendCursor = store.appendCursor + bytes.length → p.stop ≤ store'.appendCursor →
      Written (d'.read f) p bytes → Q (p, store') s d') :
    wp (store.append bytes) C Q R s d := by
  simp only [append, wp_bind, wp_pure]
  refine wp_growMmapIfNeeded h (fun d' hk => hC d' (hk _)) ?_
  intro mmap d₁ hk₁ hopen₁ hroom
  refine wp_writeAt hopen₁ hroom (fun d' hk => hC d' ((hk₁ _).trans hk le_rfl)) ?_
  intro d₂ hk₂ hopen₂ hlen hslice
  refine hQ _ _ _ ((hk₁ _).trans hk₂ le_rfl) (hopen₂.moveCursor _) rfl ?_ (.new hlen hslice)
  exact Nat.add_le_add_left (Nat.mod_le _ _) _

/-- Appending the record of a document whose length a pointer can hold. -/
theorem wp_append [LawfulEnv] {Q : EntryPointer × RecordStore → σ → Disk → Prop}
    (h : store.OpenOn f d) {doc : Document} (hdoc : (encodeDocument doc).length < 2 ^ 32)
    (hC : ∀ d', Disk.Keeps f store.appendCursor d d' → C d')
    (hQ : ∀ p store' d', Disk.Keeps f store.appendCursor d d' → store'.OpenOn f d' →
      store'.appendCursor = store.appendCursor + (encodeDocument doc).length →
      p.stop ≤ store'.appendCursor → Extent.Record (d'.read f) p doc → Q (p, store') s d') :
    wp (store.append (encodeDocument doc)) C Q R s d :=
  wp_append_written h (fun d' hk => hC d' hk.keeps) fun p store' d' hk hopen hcursor hp hwritten =>
    hQ p store' d' hk.keeps hopen hcursor hp (hwritten.record hdoc)

omit [Env] in
/-- Writing records one behind the other, where they fit the memory map. -/
theorem wp_appendEach_written {entries : List (Uuid × Bytes)}
    {Q : List EntryPointer × RecordStore → σ → Disk → Prop} (h : store.OpenOn f d)
    (hroom : ∀ len, store.mmap = some len →
      store.appendCursor + (entries.map fun entry => entry.2.length).sum ≤ len)
    (hC : ∀ d', Disk.Grows f store.appendCursor d d' → C d')
    (hQ : ∀ ps store' d', Disk.Grows f store.appendCursor d d' → store'.OpenOn f d' →
      store'.appendCursor = store.appendCursor + (entries.map fun entry => entry.2.length).sum →
      List.Forall₂ (fun entry p => p.stop ≤ store'.appendCursor ∧ Written (d'.read f) p entry.2)
        entries ps →
      Q (ps, store') s d') :
    wp (store.appendEach entries) C Q R s d := by
  induction entries generalizing store d Q with
  | nil => exact wp_pure.mpr (hQ [] store d (.refl f _ d) h rfl .nil)
  | cons entry entries ih =>
      obtain ⟨key, bytes⟩ := entry
      simp only [List.map_cons, List.sum_cons] at hroom hQ
      simp only [appendEach, wp_bind, wp_pure]
      refine wp_writeAt h (fun len hlen => (by have := hroom len hlen; omega)) hC ?_
      intro d₁ hk₁ hopen₁ hlen₁ hslice₁
      have hle : (EntryPointer.new store.appendCursor bytes.length).stop ≤
          store.appendCursor + bytes.length := Nat.add_le_add_left (Nat.mod_le _ _) _
      refine ih (hopen₁.moveCursor _) ?_ ?_ ?_
      · intro len hlen
        have := hroom len hlen
        simp only
        omega
      · intro d' hk
        exact hC d' (hk₁.trans hk (Nat.le_add_right _ _))
      · intro ps store' d' hk hopen hcursor hps
        simp only at hk hcursor
        refine hQ _ store' d' (hk₁.trans hk (Nat.le_add_right _ _)) hopen (by omega) (.cons ⟨?_, ?_⟩ hps)
        · omega
        · exact (Written.new hlen₁ hslice₁).grows hk hle

omit [Env] in
theorem wp_appendBatch_written {entries : List (Uuid × Bytes)}
    {Q : List EntryPointer × RecordStore → σ → Disk → Prop} (h : store.OpenOn f d)
    (hC : ∀ d', Disk.Grows f store.appendCursor d d' → C d')
    (hQ : ∀ ps store' d', Disk.Grows f store.appendCursor d d' → store'.OpenOn f d' →
      store'.appendCursor = store.appendCursor + (entries.map fun entry => entry.2.length).sum →
      List.Forall₂ (fun entry p => p.stop ≤ store'.appendCursor ∧ Written (d'.read f) p entry.2)
        entries ps →
      Q (ps, store') s d') :
    wp (store.appendBatch entries) C Q R s d := by
  simp only [appendBatch, wp_bind]
  refine wp_growMmapIfNeeded h (fun d' hk => hC d' (hk _)) ?_
  intro mmap d₁ hk₁ hopen₁ hroom
  refine wp_appendEach_written hopen₁ hroom (fun d' hk => hC d' ((hk₁ _).trans hk le_rfl)) ?_
  intro ps store' d' hk hopen hcursor hps
  exact hQ ps store' d' ((hk₁ _).trans hk le_rfl) hopen hcursor hps

theorem wp_appendBatch [LawfulEnv] {docs : List Document}
    {Q : List EntryPointer × RecordStore → σ → Disk → Prop} (h : store.OpenOn f d)
    (hdocs : ∀ doc ∈ docs, (encodeDocument doc).length < 2 ^ 32)
    (hC : ∀ d', Disk.Keeps f store.appendCursor d d' → C d')
    (hQ : ∀ ps store' d', Disk.Keeps f store.appendCursor d d' → store'.OpenOn f d' →
      store'.appendCursor =
        store.appendCursor + (docs.map fun doc => (encodeDocument doc).length).sum →
      List.Forall₂ (fun doc p => p.stop ≤ store'.appendCursor ∧ Extent.Record (d'.read f) p doc)
        docs ps →
      Q (ps, store') s d') :
    wp (store.appendBatch (docs.map fun doc => (doc.id, encodeDocument doc))) C Q R s d := by
  refine wp_appendBatch_written h (fun d' hk => hC d' hk.keeps) ?_
  intro ps store' d' hk hopen hcursor hps
  rw [List.map_map] at hcursor
  rw [List.forall₂_map_left_iff] at hps
  refine hQ ps store' d' hk.keeps hopen hcursor ?_
  refine ((List.forall₂_and_left _ _).mpr ⟨hdocs, hps⟩).imp fun doc p hdoc => ?_
  exact ⟨hdoc.2.1, hdoc.2.2.record hdoc.1⟩

omit [Env] in
/-- Opening a store keeps what is in its file. -/
theorem wp_openFile_grows {config : CollectionConfig} {index : OffsetIndex}
    {Q : RecordStore → σ → Disk → Prop} (hC : ∀ d', (∀ k, Disk.Grows f k d d') → C d')
    (hQ : ∀ store d', (∀ k, Disk.Grows f k d d') → store.OpenOn f d' →
      store.appendCursor = nextAppendOffset index → Q store s d') :
    wp (openFile f config index) C Q R s d := by
  have hcreate : ∀ k, Disk.Grows f k d (d.put f (some (d.read f))) := fun k =>
    Disk.grows_create f k d
  simp only [openFile, ensureFileSize, fileLen, wp_bind, wp_emit, wp_device, wp_pure, wp_when,
    Effect.apply_create, Effect.apply_setLen]
  refine ⟨hC _ hcreate, fun hsmall => ?_, fun _ => ?_⟩
  · have hgrow := fun k => (hcreate k).trans (Disk.grows_setLen f k hsmall.le) le_rfl
    refine ⟨hC _ hgrow, hQ _ _ hgrow ⟨rfl, ?_⟩ rfl⟩
    intro len hlen
    simp only at hlen
    split at hlen
    · cases hlen
      rfl
    · cases hlen
  · refine hQ _ _ hcreate ⟨rfl, ?_⟩ rfl
    intro len hlen
    simp only at hlen
    split at hlen
    · cases hlen
      rfl
    · cases hlen

theorem wp_openFile {config : CollectionConfig} {index : OffsetIndex}
    {Q : RecordStore → σ → Disk → Prop} (hC : ∀ d', (∀ k, Disk.Keeps f k d d') → C d')
    (hQ : ∀ store d', (∀ k, Disk.Keeps f k d d') → store.OpenOn f d' →
      store.appendCursor = nextAppendOffset index → Q store s d') :
    wp (openFile f config index) C Q R s d :=
  wp_openFile_grows (fun d' hk => hC d' fun k => (hk k).keeps) fun store d' hk hopen hcursor =>
    hQ store d' (fun k => (hk k).keeps) hopen hcursor

end RecordStore

/-! ## The collection -/

/-- The collection in memory holds `m`. Its index reads the records under the ids
that satisfy `ids`; its vectors are in the domain, on which no step can fail. -/
structure Memory (config : CollectionConfig) (dom : VectorDomain) (ids : Uuid → Prop) (c : Collection)
    (data : Bytes) (m : DocMap) : Prop where
  config : c.config = config
  shows : c.index.Shows ids data m
  below : c.index.Below c.recordStore.appendCursor
  sound : m.Sound dom
  able : c.vectorIndex.Able dom
  within : c.cache.Within dom
  schema : c.metadata.schemaVersion = SCHEMA_VERSION
  dimensions : ∀ n, c.metadata.dimensions = some n → n = dom.dim

/-- A store reads back the records of the file it is open on. -/
theorem RecordStore.readDocument_eq {store : RecordStore} {f : StoreFile} {d : Disk}
    (hopen : store.OpenOn f d) {p : EntryPointer} {doc : Document}
    (hrec : Extent.Record (d.read f) p doc) : store.readDocument d p = .ok doc := by
  have hbytes : store.readBytes d p = .ok (Extent.slice (d.read f) p.offset p.length) := by
    unfold RecordStore.readBytes
    rw [hopen.dataFile]
    exact if_pos (.inr (.inr hrec.1))
  unfold RecordStore.readDocument
  rw [hbytes]
  simp only [hrec.2]

/-- An open collection reads the documents that its index shows. -/
theorem Collection.get_eq {c : Collection} {d : Disk} {m : DocMap}
    (hopen : c.recordStore.OpenOn .data d)
    (hshows : c.index.Shows (fun _ => True) (d.read .data) m) (id : Uuid) :
    c.get d id = .ok (m id) := by
  unfold Collection.get
  cases hp : c.index.lookup id with
  | none =>
      have hnot : id ∉ c.index := Finmap.lookup_eq_none.mp hp
      rw [hshows.mem_iff, Option.not_isSome_iff_eq_none] at hnot
      rw [hnot]
  | some p =>
      obtain ⟨doc, hdoc, hrec⟩ := hshows.record id p trivial hp
      rw [hdoc]
      change some <$> c.recordStore.readDocument d p = _
      rw [RecordStore.readDocument_eq hopen hrec]
      rfl

namespace Memory

variable {config : CollectionConfig} {dom : VectorDomain} {ids : Uuid → Prop} {c : Collection}
  {data : Bytes} {m : DocMap}

theorem mono {ids' : Uuid → Prop} (h : Memory config dom ids c data m)
    (hids : ∀ id, ids' id → ids id) : Memory config dom ids' c data m :=
  { h with shows := h.shows.mono hids }

/-- A new pointer to a record that can be read. -/
theorem install (h : Memory config dom ids c data m) {doc : Document} (hdoc : doc.Sound dom)
    {p : EntryPointer} (hp : p.stop ≤ c.recordStore.appendCursor)
    (hrec : Extent.Record data p doc) :
    Memory config dom (fun id => ids id ∨ id = doc.id)
      { c with index := Finmap.insert doc.id p c.index } data ((Update.put doc.id doc).apply m) :=
  { h with
    shows := h.shows.insert hrec
    below := h.below.insert doc.id hp
    sound := h.sound.apply fun doc' hdoc' => by
      cases hdoc'
      exact ⟨rfl, hdoc⟩ }

theorem setDimensions (h : Memory config dom ids c data m) :
    Memory config dom ids { c with metadata := c.metadata.setDimensions dom.dim } data m :=
  { h with
    schema := by rw [CollectionMetadata.setDimensions_schemaVersion, h.schema]
    dimensions := by
      intro n hn
      rw [CollectionMetadata.setDimensions_dimensions, Option.some.injEq] at hn
      cases hdim : c.metadata.dimensions with
      | none => simpa [hdim] using hn.symm
      | some k =>
          rw [hdim] at hn
          exact hn ▸ h.dimensions k hdim }

theorem updateVectorCount (h : Memory config dom ids c data m) (count now : Nat) :
    Memory config dom ids { c with metadata := c.metadata.updateVectorCount count now } data m :=
  { h with }

theorem setCache (h : Memory config dom ids c data m) {cache : CacheManager}
    (hcache : cache.Within dom) : Memory config dom ids { c with cache } data m :=
  { h with within := hcache }

theorem setVectorIndex (h : Memory config dom ids c data m) {ix : VectorIndex}
    (hix : ix.Able dom) : Memory config dom ids { c with vectorIndex := ix } data m :=
  { h with able := hix }

theorem setCheckpoint (h : Memory config dom ids c data m) (checkpoint : CheckpointManager) :
    Memory config dom ids { c with checkpoint } data m :=
  { h with }

end Memory

end
