-- SUMMARY: No run of a collection, with crashes and reopenings, leaves it outside its limits.
import Piramid.Collections.Bounds
import Piramid.Collections.Frames
import Piramid.Collections.Session
import Piramid.Reference.Tight

/-!
# Limits over runs

Each operation keeps the offset index in memory and the one on disk within the
limits, whether it returns, fails or is cut short by a crash. Opening trusts the
index on disk and appends behind its last record.
-/

open Loop Prog

/-- The collection is within the limits. -/
structure Collection.Bounded (limits : LimitsConfig) (c : Collection) : Prop where
  config : c.config.limits = limits
  index : c.index.Bounded limits c.recordStore.appendCursor

section

variable [Env]

/-- The offset index on disk is within the limits. -/
def Disk.Bounded (limits : LimitsConfig) (d : Disk) : Prop :=
  ∀ bytes index, d .index = some bytes → Env.offsetIndex.decode bytes = .ok index →
    index.Bounded limits (RecordStore.nextAppendOffset index)

/-- The program keeps the collection and the index on disk within the limits. -/
abbrev WithinLimits {α : Type} (limits : LimitsConfig) (p : CollM α) : Prop :=
  Maintains (fun s : Session => s.coll.Bounded limits) (Disk.Bounded limits) p

/-- Where the records of a collection lie. -/
def Session.placed (s : Session) : OffsetIndex × RecordStore × CollectionConfig := s.settled.1

/-- The step changes neither where the records lie nor the index file. -/
abbrev InPlace {α : Type} (p : CollM α) : Prop := Leaves Session.placed .index p

omit [Env] in
theorem Prog.Frames.inPlace {α : Type} {p : CollM α} (h : Quiet .index p) : InPlace p :=
  h.mono (fun _ _ hs => congrArg Prod.fst hs) fun _ _ hd => hd

variable {limits : LimitsConfig} {C : Disk → Prop} {R : Fault → Session → Disk → Prop} {s : Session}
  {d : Disk}

theorem Disk.Bounded.of_index {d d' : Disk} (h : d.Bounded limits) (hindex : d' .index = d .index) :
    d'.Bounded limits := by
  intro bytes index hbytes
  exact h bytes index (hindex ▸ hbytes)

omit [Env] in
theorem Collection.Bounded.of_placed {s s' : Session} (h : s.coll.Bounded limits)
    (hplaced : s'.placed = s.placed) : s'.coll.Bounded limits := by
  unfold Session.placed at hplaced
  obtain ⟨hindex, hstore, hconfig⟩ := Prod.mk.inj hplaced |>.imp_right Prod.mk.inj
  exact ⟨hconfig ▸ h.config, hindex ▸ hstore ▸ h.index⟩

theorem InPlace.withinLimits {α : Type} {p : CollM α} (h : InPlace p) : WithinLimits limits p :=
  h.maintains (fun _ _ hplaced hs => hs.of_placed hplaced) fun _ _ hindex hd => hd.of_index hindex

theorem Quiet.withinLimits {α : Type} {p : CollM α} (h : Quiet .index p) : WithinLimits limits p :=
  h.inPlace.withinLimits

/-! ## Appending -/

namespace RecordStore

variable {σ : Type} {T : Fault → σ → Disk → Prop} {t : σ} {store : RecordStore}

omit [Env] in
/-- Where a record goes, and where the next one will go. -/
theorem wp_append_placed {bytes : Bytes} {Q : EntryPointer × RecordStore → σ → Disk → Prop}
    (hC : ∀ d', d' .index = d .index → C d')
    (hQ : ∀ mmap d', d' .index = d .index → Q (.new store.appendCursor bytes.length,
      { store with mmap, appendCursor := store.appendCursor + bytes.length }) t d')
    (hT : ∀ e d', d' .index = d .index → T e t d') :
    wp (store.append bytes) C Q T t d := by
  simp only [append, growMmapIfNeeded, fileLen, wp_bind, wp_device, wp_pure, wp_ite, wp_emit]
  have hwrite : ∀ (mmap : Option Nat) (d₁ : Disk), d₁ .index = d .index →
      wp (writeAt { store with mmap } store.appendCursor bytes) C
        (fun _ t d => Q (.new store.appendCursor bytes.length,
          { store with mmap, appendCursor := store.appendCursor + bytes.length }) t d) T t d₁ := by
    intro mmap d₁ hd₁
    have hwrite : Leaves (id : σ → σ) .index (writeAt { store with mmap } store.appendCursor bytes) :=
      leaves_writeAt { store with mmap } store.dataFile.file_ne_index _ _
    refine hwrite.wp (fun d' hd' => hC d' (hd'.trans hd₁)) ?_ ?_
    · rintro - t' d' rfl hd'
      exact hQ mmap d' (hd'.trans hd₁)
    · rintro e t' d' rfl hd'
      exact hT e d' (hd'.trans hd₁)
  constructor
  · intro hgrow
    have hkept : ¬(Effect.setLen store.dataFile ((store.appendCursor + bytes.length) * 2)).Touches
        .index := store.dataFile.file_ne_index
    have hset := Effect.apply_untouched hkept d
    exact ⟨hC _ hset, hwrite _ _ hset⟩
  · intro hgrow
    exact hwrite store.mmap d rfl

omit [Env] in
theorem wp_appendEach_placed {entries : List (Uuid × Bytes)}
    {Q : List EntryPointer × RecordStore → σ → Disk → Prop} (hC : ∀ d', d' .index = d .index → C d')
    (hQ : ∀ store' d', d' .index = d .index →
      store'.appendCursor = store.appendCursor + (entries.map fun entry => entry.2.length).sum →
      Q (pointersFrom store.appendCursor (entries.map fun entry => entry.2.length), store') t d')
    (hT : ∀ e d', d' .index = d .index → T e t d') :
    wp (store.appendEach entries) C Q T t d := by
  induction entries generalizing store d Q with
  | nil => exact wp_pure.mpr (hQ store d rfl rfl)
  | cons entry entries ih =>
      obtain ⟨key, bytes⟩ := entry
      simp only [appendEach, wp_bind, wp_pure]
      refine (leaves_writeAt (f := id) _ store.dataFile.file_ne_index _ _).wp hC ?_ ?_
      · rintro - t' d₁ rfl hd₁
        refine ih (fun d' hd' => hC d' (hd'.trans hd₁)) ?_ fun e d' hd' => hT e d' (hd'.trans hd₁)
        intro store' d' hd' hcursor
        refine hQ store' d' (hd'.trans hd₁) ?_
        simp only [List.map_cons, List.sum_cons, ← Nat.add_assoc]
        exact hcursor
      · rintro e t' d₁ rfl hd₁
        exact hT e d₁ hd₁

omit [Env] in
theorem wp_appendBatch_placed {entries : List (Uuid × Bytes)}
    {Q : List EntryPointer × RecordStore → σ → Disk → Prop} (hC : ∀ d', d' .index = d .index → C d')
    (hQ : ∀ store' d', d' .index = d .index →
      store'.appendCursor = store.appendCursor + (entries.map fun entry => entry.2.length).sum →
      Q (pointersFrom store.appendCursor (entries.map fun entry => entry.2.length), store') t d')
    (hT : ∀ e d', d' .index = d .index → T e t d') :
    wp (store.appendBatch entries) C Q T t d := by
  simp only [appendBatch, growMmapIfNeeded, fileLen, wp_bind, wp_device, wp_pure, wp_ite, wp_emit]
  constructor
  · intro hgrow
    have hkept : ¬(Effect.setLen store.dataFile ((store.appendCursor +
        (entries.map fun entry => entry.2.length).sum) * 2)).Touches .index :=
      store.dataFile.file_ne_index
    have hset := Effect.apply_untouched hkept d
    refine ⟨hC _ hset, wp_appendEach_placed (fun d' hd' => hC d' (hd'.trans hset)) ?_
      fun e d' hd' => hT e d' (hd'.trans hset)⟩
    exact fun store' d' hd' hcursor => hQ store' d' (hd'.trans hset) hcursor
  · intro hgrow
    exact wp_appendEach_placed hC hQ hT

omit [Env] in
theorem wp_openFile_placed {file : StoreFile} {config : CollectionConfig} {index : OffsetIndex}
    {Q : RecordStore → σ → Disk → Prop} (hC : ∀ d', d' .index = d .index → C d')
    (hQ : ∀ store d', d' .index = d .index → store.appendCursor = nextAppendOffset index →
      Q store t d') : wp (openFile file config index) C Q T t d := by
  have hcreate := Effect.apply_untouched (e := .create file) (f := .index) file.file_ne_index d
  simp only [openFile, ensureFileSize, fileLen, wp_bind, wp_emit, wp_device, wp_pure, wp_when]
  refine ⟨hC _ hcreate, fun _ => ?_, fun _ => hQ _ _ hcreate rfl⟩
  have hset := Effect.apply_untouched (e := .setLen file (initialSize config)) (f := .index)
    file.file_ne_index (Device.apply (.create file) d)
  exact ⟨hC _ (hset.trans hcreate), hQ _ _ (hset.trans hcreate) rfl⟩

end RecordStore

namespace Collection

omit [Env] in
theorem wp_appendRecord_placed {bytes : Bytes} {Q : EntryPointer → Session → Disk → Prop}
    (hC : ∀ d', d' .index = d .index → C d')
    (hQ : ∀ recordStore d', d' .index = d .index →
      recordStore.appendCursor = s.coll.recordStore.appendCursor + bytes.length →
      Q (.new s.coll.recordStore.appendCursor bytes.length)
        { s with coll := { s.coll with recordStore } } d')
    (hR : ∀ e d', d' .index = d .index → R e s d') : wp (appendRecord bytes) C Q R s d := by
  simp only [appendRecord, wp_bind, wp_self, wp_update, wp_pure]
  exact RecordStore.wp_append_placed hC (fun mmap d' hd' => hQ _ d' hd' rfl) hR

/-! ## Operations -/

omit [Env] in
theorem Bounded.admits {c : Collection} (h : c.Bounded limits) {bytes : Nat}
    (henforce : c.enforceSingle bytes = .ok ()) :
    limits.Admits c.index.len c.recordStore.appendCursor bytes :=
  h.config ▸ enforceSingle_eq_ok.mp henforce

/-- A record that the limits admit is appended and pointed to; what follows may rely on the
limits. -/
theorem withinLimits_store {α : Type} {bytes : Bytes} (id : Uuid) {k : EntryPointer → CollM α}
    (hk : ∀ p s d, Bounded limits { s.coll with index := Finmap.insert id p s.coll.index } →
      d.Bounded limits → wp (k p) (Disk.Bounded limits)
        (fun _ s' d' => s'.coll.Bounded limits ∧ d'.Bounded limits)
        (fun _ s' d' => s'.coll.Bounded limits ∧ d'.Bounded limits) s d) :
    WithinLimits limits (do
      let c ← self
      Prog.ofExcept (c.enforceSingle bytes.length)
      let p ← appendRecord bytes
      k p) := by
  intro s d hs hd
  simp only [wp_bind, wp_self, wp_ofExcept]
  refine ⟨fun _ henforce => ?_, fun _ _ => ⟨hs, hd⟩⟩
  refine wp_appendRecord_placed (fun d' hd' => hd.of_index hd') ?_
    fun e d' hd' => ⟨hs, hd.of_index hd'⟩
  intro recordStore d' hd' hcursor
  refine hk _ _ _ ⟨hs.config, ?_⟩ (hd.of_index hd')
  change OffsetIndex.Bounded limits _ recordStore.appendCursor
  rw [hcursor]
  exact hs.index.install id (hs.admits henforce)

omit [Env] in
theorem inPlace_setDimensions (n : Nat) : InPlace (setDimensions n) := .modify fun _ => rfl

omit [Env] in
theorem inPlace_checkOrSetDimensions (vector : Vector32) : InPlace (checkOrSetDimensions vector) := by
  refine .bind (.asks _) fun c => ?_
  split
  · exact .ofExcept _
  · exact inPlace_setDimensions _

theorem inPlace_indexBatched (entry : Document) : InPlace (indexBatched entry) := by
  refine .bind (inPlace_setDimensions _) fun _ => ?_
  refine .bind (quiet_checkDimensions _).inPlace fun _ => ?_
  exact .bind (.modify fun _ => rfl) fun _ => (quiet_indexVector _ _).inPlace

theorem withinLimits_insertInternal (entry : Document) :
    WithinLimits limits (insertInternal entry) := by
  refine withinLimits_store entry.id fun p s d hs hd => ?_
  refine wp_bind.mpr (wp_update.mpr ?_)
  have hrest : InPlace (do
      setDimensions entry.getVector.length
      checkDimensions entry.getVector
      update fun c => { c with
        cache := (c.cache.putVector entry.id entry.getVector).putMetadata entry.id entry.metadata }
      indexVector entry.id entry.getVector
      updateVectorCount
      pure entry.id) := by
    refine .bind (inPlace_setDimensions _) fun _ => ?_
    refine .bind (quiet_checkDimensions _).inPlace fun _ => ?_
    refine .bind (.modify fun _ => rfl) fun _ => ?_
    refine .bind (quiet_indexVector _ _).inPlace fun _ => ?_
    exact .bind quiet_updateVectorCount.inPlace fun _ => .pure _
  exact hrest.withinLimits _ _ hs hd

theorem withinLimits_saveIndex [LawfulEnv] {index : OffsetIndex} {Q : Unit → Session → Disk → Prop}
    {cursor : Nat} (h : index.Bounded limits cursor)
    (hQ : ∀ d', d'.Bounded limits → Q () s d') :
    wp (saveIndex index) (Disk.Bounded limits) Q R s d := by
  have hsaved : (d.put .index (some (Env.offsetIndex.encode index))).Bounded limits := by
    intro bytes index' hbytes hdecode
    rw [Disk.put_self, Option.some.injEq] at hbytes
    subst hbytes
    rw [LawfulEnv.offsetIndex] at hdecode
    cases hdecode
    exact h.reopen
  simp only [saveIndex, wp_emit, Effect.apply_write]
  exact ⟨hsaved, hQ _ hsaved⟩

theorem withinLimits_checkpointNow [LawfulEnv] : WithinLimits limits checkpointNow := by
  refine .bind quiet_draw.withinLimits fun chance => .bind_asks fun s d hs hd => wp_bind.mpr ?_
  refine withinLimits_saveIndex hs.index fun d' hd' => ?_
  have hrest : InPlace (do
      saveVectorIndex s.coll.vectorIndex
      saveMetadata s.coll.metadata
      Prog.when s.coll.config.wal.enabled do
        let wal ← s.coll.checkpoint.wal.checkpoint chance.now
        update fun c => { c with
          checkpoint := { c.checkpoint with wal, lastCheckpointTs := some chance.now } }
        Wal.saveWalMeta (wal.nextSeq - 1)
        wal.rotate) := by
    refine .bind (leaves_saveVectorIndex CollFile.noConfusion _) fun _ => ?_
    refine .bind (leaves_saveMetadata CollFile.noConfusion _) fun _ => ?_
    refine .when (.bind (leaves_log CollFile.noConfusion _ _) fun _ => ?_)
    refine .bind (.modify fun _ => rfl) fun _ => ?_
    refine .bind (leaves_saveWalMeta CollFile.noConfusion CollFile.noConfusion _) fun _ => ?_
    exact leaves_rotate CollFile.noConfusion _
  exact hrest.withinLimits _ _ hs hd'

theorem withinLimits_trackOperation [LawfulEnv] : WithinLimits limits trackOperation := by
  refine .bind quiet_draw.withinLimits fun chance => .bind_asks fun s d hs hd => ?_
  have hupdate : InPlace (update fun c => { c with
      checkpoint := (c.checkpoint.shouldCheckpoint c.config.wal).2 }) := .modify fun _ => rfl
  have hreset : InPlace (update fun c => { c with checkpoint := c.checkpoint.resetCounter }) :=
    .modify fun _ => rfl
  exact (Maintains.bind hupdate.withinLimits fun _ => .when <|
    .bind withinLimits_checkpointNow fun _ => hreset.withinLimits) s d hs hd

theorem withinLimits_deleteInternal (id : Uuid) : WithinLimits limits (deleteInternal id) := by
  refine .bind quiet_draw.withinLimits fun chance => ?_
  refine .bind (.modify fun s hs => ?_) fun _ => quiet_updateVectorCount.withinLimits
  exact ⟨hs.config, hs.index.erase id⟩

variable [LawfulEnv]

theorem withinLimits_insert (entry : Document) : WithinLimits limits (insert entry) := by
  refine .bind (quiet_logEntry CollFile.noConfusion _).withinLimits fun _ => ?_
  refine .bind (withinLimits_insertInternal _) fun _ => ?_
  exact .bind withinLimits_trackOperation fun _ => .pure _

theorem withinLimits_upsert (entry : Document) : WithinLimits limits (upsert entry) := by
  refine .bind (.asks _) fun c => .bind (.ofExcept _) fun _ => .ite ?_ (withinLimits_insert _)
  refine .bind (quiet_logEntry CollFile.noConfusion _).withinLimits fun _ => ?_
  refine .bind (withinLimits_deleteInternal _) fun _ => .bind (withinLimits_insertInternal _) fun _ => ?_
  exact .bind withinLimits_trackOperation fun _ => .pure _

theorem withinLimits_delete (id : Uuid) : WithinLimits limits (delete id) := by
  refine .bind (.asks _) fun _ => .ite ?_ (.pure _)
  refine .bind (quiet_logEntry CollFile.noConfusion _).withinLimits fun _ => ?_
  refine .bind (withinLimits_deleteInternal _) fun _ => ?_
  exact .bind withinLimits_trackOperation fun _ => .pure _

omit [LawfulEnv] in
theorem withinLimits_deleteEach (ids : List Uuid) (deletedCount : Nat) :
    WithinLimits limits (deleteEach ids deletedCount) := by
  induction ids generalizing deletedCount with
  | nil => exact .pure _
  | cons id ids ih =>
      exact .bind (.asks _) fun _ => .ite (.bind (withinLimits_deleteInternal _) fun _ => ih _) (ih _)

theorem withinLimits_deleteBatch (ids : List Uuid) : WithinLimits limits (deleteBatch ids) := by
  refine .bind (.forM fun _ => (quiet_logDelete CollFile.noConfusion _).withinLimits) fun _ => ?_
  refine .bind (withinLimits_deleteEach _ _) fun _ => ?_
  exact .bind (.when withinLimits_trackOperation) fun _ => .pure _

theorem withinLimits_updateMetadata (id : Uuid) (metadata : Metadata) :
    WithinLimits limits (updateMetadata id metadata) := by
  refine .bind (quiet_fetch _).withinLimits fun found => ?_
  split
  · exact .pure _
  · rename_i entry
    refine .bind (quiet_logEntry CollFile.noConfusion _).withinLimits fun _ => ?_
    refine withinLimits_store id fun p s d hs hd => ?_
    refine wp_bind.mpr (wp_update.mpr ?_)
    have hrest : WithinLimits limits (do
        updateVectorCount
        trackOperation
        pure true) := by
      refine .bind quiet_updateVectorCount.withinLimits fun _ => ?_
      exact .bind withinLimits_trackOperation fun _ => .pure _
    exact hrest _ _ ⟨hs.config, hs.index⟩ hd

theorem withinLimits_updateVector (id : Uuid) (vector : Vector32) :
    WithinLimits limits (updateVector id vector) := by
  refine .bind (quiet_fetch _).withinLimits fun found => ?_
  split
  · exact .pure _
  · rename_i entry
    refine .bind (quiet_logEntry CollFile.noConfusion _).withinLimits fun _ => ?_
    refine .bind (inPlace_checkOrSetDimensions _).withinLimits fun _ => ?_
    refine withinLimits_store id fun p s d hs hd => ?_
    refine wp_bind.mpr (wp_draw.mpr (wp_bind.mpr (wp_update.mpr ?_)))
    have hrest : WithinLimits limits (do
        indexVector id vector
        updateVectorCount
        trackOperation
        pure true) := by
      refine .bind (quiet_indexVector _ _).withinLimits fun _ => ?_
      refine .bind quiet_updateVectorCount.withinLimits fun _ => ?_
      exact .bind withinLimits_trackOperation fun _ => .pure _
    exact hrest _ _ ⟨hs.config, hs.index⟩ hd

/-! ## Batches -/

theorem withinLimits_insertBatch (entries : List Document) :
    WithinLimits limits (insertBatch entries) := by
  refine .bind (.forM fun _ => (quiet_logEntry CollFile.noConfusion _).withinLimits) fun _ => ?_
  refine .bind_asks fun s d hs hd => ?_
  refine wp_bind.mpr (wp_ofExcept.mpr ⟨fun _ henforce => ?_, fun _ _ => ⟨hs, hd⟩⟩)
  refine wp_bind.mpr (RecordStore.wp_appendBatch_placed (fun d' hd' => hd.of_index hd') ?_
    fun e d' hd' => ⟨hs, hd.of_index hd'⟩)
  intro recordStore d' hd' hcursor
  refine wp_bind.mpr (wp_update.mpr ?_)
  have hrest : WithinLimits limits (do
      trackOperation
      entries.forM indexBatched
      updateVectorCount
      pure (entries.map Document.id)) := by
    refine .bind withinLimits_trackOperation fun _ => ?_
    refine .bind (.forM fun _ => (inPlace_indexBatched _).withinLimits) fun _ => ?_
    exact .bind quiet_updateVectorCount.withinLimits fun _ => .pure _
  refine hrest _ _ ⟨hs.config, ?_⟩ (hd.of_index hd')
  change OffsetIndex.Bounded limits (installPointers s.coll.index _) recordStore.appendCursor
  rw [hcursor]
  refine hs.index.installPointers (by simp) ?_
  rw [← hs.config]
  refine room_of_enforceBatch ?_
  rw [List.length_map]
  exact henforce

/-! ## Compaction -/

omit [LawfulEnv] in
/-- The document that is read from a record is no longer than the record. -/
theorem encodeDocument_le [TightDocuments] {store : RecordStore} {p : EntryPointer} {doc : Document}
    (hread : store.readDocument d p = .ok doc) : (RecordStore.encodeDocument doc).length ≤ p.length := by
  unfold RecordStore.readDocument at hread
  split at hread
  · cases hread
  · rename_i bytes hbytes
    split at hread
    · cases hread
    · rename_i doc' hdecode
      cases hread
      refine (TightDocuments.document bytes doc hdecode).trans ?_
      unfold RecordStore.readBytes at hbytes
      simp only at hbytes
      split at hbytes
      · cases hbytes
        exact List.length_take_le _ _
      · cases hbytes

/-- The length of the record under an id. -/
def recordLength (c : Collection) (id : Uuid) : Nat :=
  ((c.index.lookup id).map EntryPointer.length).getD 0

omit [LawfulEnv] in
/-- The documents read under some ids are no more and no longer than the records there. -/
theorem sizes_of_reads [TightDocuments] {c : Collection} {ids : List Uuid}
    {found : List (Option Document)} (hreads : ids.mapM (c.get d) = .ok found) :
    let sizes := (found.filterMap id).map fun doc => (RecordStore.encodeDocument doc).length
    sizes.length ≤ ids.length ∧ sizes.sum ≤ (ids.map c.recordLength).sum ∧
      ∀ bytes ∈ sizes, ∃ key p, c.index.lookup key = some p ∧ bytes ≤ p.length := by
  induction ids generalizing found with
  | nil =>
      cases hreads
      simp
  | cons key ids ih =>
      rw [List.mapM_cons] at hreads
      obtain ⟨entry, hentry, hreads⟩ := bind_eq_ok.mp hreads
      obtain ⟨rest, hrest, hfound⟩ := bind_eq_ok.mp hreads
      cases hfound
      obtain ⟨hcount, hsum, hsizes⟩ := ih hrest
      cases entry with
      | none =>
          rw [List.filterMap_cons_none rfl, List.map_cons, List.sum_cons, List.length_cons]
          exact ⟨hcount.trans (Nat.le_succ _), hsum.trans (Nat.le_add_left _ _), hsizes⟩
      | some doc =>
          unfold get at hentry
          split at hentry
          · cases hentry
          · rename_i p hp
            obtain ⟨doc', hread, hsome⟩ := map_eq_ok.mp hentry
            cases hsome
            have hle := encodeDocument_le hread
            have hrecord : c.recordLength key = p.length := by
              unfold recordLength
              rw [hp]
              rfl
            rw [List.filterMap_cons_some (f := id) rfl]
            simp only [List.map_cons, List.sum_cons, List.length_cons, List.mem_cons,
              forall_eq_or_imp, hrecord]
            exact ⟨Nat.succ_le_succ hcount, Nat.add_le_add hle hsum, ⟨key, p, hp, hle⟩, hsizes⟩

omit [LawfulEnv] in
/-- There is room for a copy of all documents of a collection within its limits. -/
theorem Bounded.room_of_getAll [TightDocuments] {c : Collection} (h : c.Bounded limits)
    {order : HashOrder Uuid} {docs : List Document} (hdocs : c.getAll d order = .ok docs) :
    limits.Room 0 0 (docs.map fun doc => (RecordStore.encodeDocument doc).length) := by
  obtain ⟨found, hfound, hret⟩ := bind_eq_ok.mp hdocs
  cases hret
  obtain ⟨hcount, hsum, hsizes⟩ := sizes_of_reads hfound
  have htotal : ((order.enum c.index.keys).map c.recordLength).sum ≤ c.recordStore.appendCursor := by
    rw [← List.sum_toFinset _ (order.nodup _), order.toFinset_enum]
    exact h.index.sum_lengths_le
  refine LimitsConfig.room_of_le (fun n hn => ?_) (fun n hn => ?_) fun n hn bytes hbytes => ?_
  · rw [Nat.zero_add]
    refine hcount.trans ?_
    rw [order.length_enum]
    exact h.index.vectors n hn
  · rw [Nat.zero_add]
    exact (hsum.trans htotal).trans (h.index.total n hn)
  · obtain ⟨key, p, hp, hle⟩ := hsizes bytes hbytes
    exact hle.trans (h.index.entry n hn key p hp)

omit [LawfulEnv] in
theorem wp_copyDocuments_bounded {docs : List Document} {st : Compaction}
    {Q : Compaction → Session → Disk → Prop}
    (hst : st.newIndex.Bounded limits st.tempStore.appendCursor)
    (hroom : limits.Room st.newIndex.len st.tempStore.appendCursor
      (docs.map fun doc => (RecordStore.encodeDocument doc).length))
    (hC : ∀ d', d' .index = d .index → C d')
    (hQ : ∀ st' s' d', s'.coll = s.coll → d' .index = d .index →
      st'.newIndex.Bounded limits st'.tempStore.appendCursor → Q st' s' d')
    (hR : ∀ e s' d', s'.coll = s.coll → d' .index = d .index → R e s' d') :
    wp (copyDocuments docs st) C Q R s d := by
  induction docs generalizing st s d with
  | nil => exact wp_pure.mpr (hQ st s d rfl rfl hst)
  | cons doc docs ih =>
      simp only [copyDocuments, copyDocument, wp_bind, wp_draw, wp_ofExcept, wp_pure]
      refine RecordStore.wp_append_placed hC (fun mmap d₁ hd₁ => ⟨fun newVectorIndex _ => ?_, ?_⟩)
        fun e d₁ hd₁ => hR e s d₁ rfl hd₁
      · have hlen : HashMap.len (Finmap.insert doc.id (EntryPointer.new st.tempStore.appendCursor
            (RecordStore.encodeDocument doc).length) st.newIndex) ≤ st.newIndex.len + 1 := by
          unfold HashMap.len
          rw [HashMap.keys_insert]
          exact Finset.card_insert_le _ _
        exact ih (hst.install doc.id hroom.1) (hroom.2.mono hlen)
          (fun d' hd' => hC d' (hd'.trans hd₁))
          (fun st' s' d' hs' hd' hst' => hQ st' s' d' hs' (hd'.trans hd₁) hst')
          fun e s' d' hs' hd' => hR e s' d' hs' (hd'.trans hd₁)
      · intro e _
        exact hR e _ d₁ rfl hd₁

theorem withinLimits_adoptCompacted {metadata : CollectionMetadata} {st : Compaction} {cursor : Nat}
    (hst : st.newIndex.Bounded limits cursor) : WithinLimits limits (adoptCompacted metadata st) := by
  refine .bind_asks fun s d hs hd => wp_bind.mpr ?_
  refine RecordStore.wp_openFile_placed (fun d' hd' => hd.of_index hd') fun store d' hd' hcursor => ?_
  refine wp_bind.mpr (wp_update.mpr (wp_bind.mpr ?_))
  have hnew : st.newIndex.Bounded limits store.appendCursor := hcursor ▸ hst.reopen
  refine wp_conseq (quiet_rebuildVectorCache.withinLimits _ _ ⟨hs.config, hnew⟩ (hd.of_index hd'))
    fun _ s₁ d₁ h₁ => wp_bind.mpr (withinLimits_saveIndex hst fun d₂ hd₂ => ?_)
  have hrest : InPlace (do
      saveVectorIndex st.newVectorIndex
      saveMetadata metadata
      s.coll.checkpoint.wal.rotate) := by
    refine .bind (leaves_saveVectorIndex CollFile.noConfusion _) fun _ => ?_
    refine .bind (leaves_saveMetadata CollFile.noConfusion _) fun _ => ?_
    exact leaves_rotate CollFile.noConfusion _
  exact hrest.withinLimits _ _ h₁.1 hd₂

theorem withinLimits_compact [TightDocuments] : WithinLimits limits compact := by
  have hrename : ¬(Effect.rename .compactTmp .data).Touches .index := by simp [Effect.Touches]
  have hremove : ¬(Effect.remove .compactTmp).Touches .index := CollFile.noConfusion
  intro s d hs hd
  refine wp_bind.mpr (wp_self.mpr (wp_bind.mpr ?_))
  simp only [writeCompacted, wp_bind, wp_draw, wp_self, wp_device, wp_ofExcept]
  refine ⟨fun docs hdocs => ?_, fun _ _ => ⟨hs, hd⟩⟩
  have hroom := hs.room_of_getAll hdocs
  refine (Frames.when (leaves_emit (f := id) hremove)).wp (fun d' hd' => hd.of_index hd') ?_ ?_
  · rintro - s₁ d₁ hs₁ hd₁
    change s₁ = _ at hs₁
    subst hs₁
    refine RecordStore.wp_openFile_placed (fun d' hd' => hd.of_index (hd'.trans hd₁)) ?_
    intro store d₂ hd₂ hcursor
    have hkept := hd₂.trans hd₁
    have hzero : store.appendCursor = 0 := hcursor
    refine wp_copyDocuments_bounded (hzero ▸ OffsetIndex.Bounded.empty limits) ?_
      (fun d' hd' => hd.of_index (hd'.trans hkept)) ?_ ?_
    · rw [hzero]
      exact hroom
    · intro st s₃ d₃ hs₃ hd₃ hst
      simp only [RecordStore.sync, wp_emit, wp_pure, Effect.apply_sync]
      have hd₃' := hd.of_index (hd₃.trans hkept)
      have hd₄ := hd₃'.of_index (Effect.apply_untouched hrename d₃)
      refine ⟨hd₃', hd₄, ?_⟩
      refine wp_conseq (withinLimits_adoptCompacted hst _ _ ?_ hd₄) fun _ _ _ => id
      exact hs₃ ▸ hs
    · intro e s₃ d₃ hs₃ hd₃
      exact ⟨hs₃ ▸ hs, hd.of_index (hd₃.trans hkept)⟩
  · rintro e s₁ d₁ rfl hd₁
    exact ⟨hs, hd.of_index hd₁⟩

end Collection

theorem Call.withinLimits_run [LawfulEnv] [TightDocuments] (call : Call) :
    WithinLimits limits call.run := by
  cases call with
  | insert doc => exact .bind (Collection.withinLimits_insert doc) fun _ => .pure _
  | insertBatch docs => exact .bind (Collection.withinLimits_insertBatch docs) fun _ => .pure _
  | upsert doc => exact .bind (Collection.withinLimits_upsert doc) fun _ => .pure _
  | updateMetadata id metadata =>
      exact .bind (Collection.withinLimits_updateMetadata id metadata) fun _ => .pure _
  | updateVector id vector =>
      exact .bind (Collection.withinLimits_updateVector id vector) fun _ => .pure _
  | delete id => exact .bind (Collection.withinLimits_delete id) fun _ => .pure _
  | deleteBatch ids => exact .bind (Collection.withinLimits_deleteBatch ids) fun _ => .pure _
  | checkpoint => exact Collection.withinLimits_checkpointNow
  | rebuildIndex => exact (Collection.quiet_rebuildIndex CollFile.noConfusion).withinLimits
  | compact => exact .bind Collection.withinLimits_compact fun _ => .pure _

/-! ## Opening -/

namespace CollectionBuilder

open Collection

theorem withinLimits_replayEntry (entry : WalEntry) : WithinLimits limits (replayEntry entry) := by
  cases entry with
  | insert doc _ => exact .bind (withinLimits_insertInternal _) fun _ => .pure _
  | update doc _ =>
      refine .bind (withinLimits_deleteInternal _) fun _ => ?_
      exact .bind (withinLimits_insertInternal _) fun _ => .pure _
  | delete id _ => exact withinLimits_deleteInternal id
  | checkpoint _ _ => exact .pure _

theorem withinLimits_recover [LawfulEnv] (entries : List WalEntry) :
    WithinLimits limits (recover entries) := by
  refine .bind (.forM fun _ => withinLimits_replayEntry _) fun _ => ?_
  exact .bind quiet_rebuildVectorCache.withinLimits fun _ => withinLimits_checkpointNow

/-- What opening leaves: a collection within the limits, or a disk that is. -/
def Opens (limits : LimitsConfig) (p : Io Nat Collection) (n : Nat) (d : Disk) : Prop :=
  wp p (Disk.Bounded limits) (fun c _ d' => c.Bounded limits ∧ d'.Bounded limits)
    (fun _ _ d' => d'.Bounded limits) n d

theorem opens_onCollection {c : Collection} {p : CollM Unit} (hp : WithinLimits limits p)
    (hc : c.Bounded limits) (hd : d.Bounded limits) (n : Nat) : Opens limits (onCollection c p) n d := by
  unfold Opens onCollection
  simp only [wp_bind, wp_embed, wp_pure]
  exact wp_mono (hp ⟨c, n⟩ d hc hd) (fun _ => id) (fun _ _ _ h => h) fun _ _ _ h => h.2

theorem wp_loadIndex_bounded {path : String} {Q : OffsetIndex → Nat → Disk → Prop} {n : Nat}
    (hd : d.Bounded limits)
    (hQ : ∀ index : OffsetIndex, index.Bounded limits (RecordStore.nextAppendOffset index) →
      Q index n d) :
    wp (loadIndex path) (Disk.Bounded limits) Q (fun _ _ d' => d'.Bounded limits) n d := by
  unfold loadIndex
  refine wp_bind.mpr (wp_device.mpr ?_)
  split
  · exact wp_pure.mpr (hQ ∅ (.empty limits))
  · rename_i bytes hbytes
    split
    · rename_i index hdecode
      exact wp_pure.mpr (hQ index (hd bytes index hbytes hdecode))
    · exact wp_fault.mpr hd

/-- A step that leaves the index on disk alone comes first. -/
theorem wp_bind_bounded {α β : Type} {p : Io Nat α} {k : α → Io Nat β} {Q : β → Nat → Disk → Prop}
    {n : Nat} (hp : Leaves (fun _ : Nat => ()) .index p) (hd : d.Bounded limits)
    (hk : ∀ a n' d', d'.Bounded limits → wp (k a) (Disk.Bounded limits) Q
      (fun _ _ d' => d'.Bounded limits) n' d') :
    wp (p >>= k) (Disk.Bounded limits) Q (fun _ _ d' => d'.Bounded limits) n d :=
  wp_bind.mpr <| hp.wp (fun _ hd' => hd.of_index hd') (fun a n' d' _ hd' => hk a n' d' (hd.of_index hd'))
    fun _ _ _ _ hd' => hd.of_index hd'

/-- The collection is loaded with the index on disk. -/
theorem wp_loadCollection_bounded {path : String} {config : CollectionConfig}
    (hconfig : config.limits = limits) (hd : d.Bounded limits) (n : Nat) :
    wp (loadCollection path config) (Disk.Bounded limits)
      (fun loaded _ d' => loaded.1.Bounded limits ∧ d'.Bounded limits)
      (fun _ _ d' => d'.Bounded limits) n d := by
  refine wp_bind.mpr (wp_loadIndex_bounded hd fun index hindex => wp_bind.mpr ?_)
  refine RecordStore.wp_openFile_placed (fun d' hd' => hd.of_index hd') ?_
  intro store d₁ hd₁ hcursor
  refine wp_bind_bounded (leaves_draw fun _ => rfl) (hd.of_index hd₁) fun chance n₂ d₂ hd₂ => ?_
  refine wp_bind_bounded leaves_loadMetadata hd₂ fun metadata n₃ d₃ hd₃ => ?_
  refine wp_bind_bounded leaves_loadVectorIndex hd₃ fun vectorIndex n₄ d₄ hd₄ => ?_
  refine wp_bind_bounded (.ite leaves_loadWalMeta (.pure _)) hd₄ fun minSeq n₅ d₅ hd₅ => ?_
  refine wp_bind_bounded (.ite (leaves_newWal CollFile.noConfusion _) (.pure _)) hd₅ fun wal n₆ d₆ hd₆ => ?_
  refine wp_bind_bounded (.ite (leaves_replay _ _) (.pure _)) hd₆ fun entries n₇ d₇ hd₇ => ?_
  exact wp_pure.mpr ⟨⟨hconfig, hcursor ▸ hindex⟩, hd₇⟩

theorem opens_openCollection [LawfulEnv] {path : String} {config : CollectionConfig}
    (hconfig : config.limits = limits) (hd : d.Bounded limits) (n : Nat) :
    Opens limits (openCollection path config) n d := by
  refine wp_bind.mpr (wp_conseq (wp_loadCollection_bounded hconfig hd n) ?_)
  rintro ⟨c, missing, entries⟩ n₁ d₁ ⟨hc, hd₁⟩
  refine wp_ite.mpr ⟨fun _ => opens_onCollection (withinLimits_recover entries) hc hd₁ n₁, fun _ => ?_⟩
  refine wp_bind_bounded (.ite (leaves_rebuildVectorIndex (fun _ => rfl) _ _ _) (.pure _)) hd₁ ?_
  intro vectorIndex n₂ d₂ hd₂
  have hc' : Collection.Bounded limits { c with vectorIndex } := ⟨hc.config, hc.index⟩
  exact opens_onCollection quiet_rebuildVectorCache.withinLimits hc' hd₂ n₂

end CollectionBuilder

/-! ## Runs -/

/-- What can happen in a run whose processes need not have the same configuration. -/
inductive Turn where
  | event (config : CollectionConfig) (event : Event)
  | ensureCacheConsistency
  | clearMetadataCache

namespace Machine

/-- Run an operation on the open collection. -/
def performed (m : Machine) (p : CollM Unit) : Machine :=
  match m.coll with
  | none => m
  | some c =>
    let s := (p ⟨c, m.draws⟩ m.disk).state
    ⟨p.final ⟨c, m.draws⟩ m.disk, s.draws, some s.coll⟩

def turn (path : String) (m : Machine) : Turn → Machine
  | .event config event => m.step path config event
  | .ensureCacheConsistency => m.performed Collection.ensureConsistent
  | .clearMetadataCache => m.performed (update fun c => { c with cache := c.cache.clearMetadata })

def turns (path : String) (m : Machine) (ts : List Turn) : Machine := ts.foldl (turn path) m

/-- What a process serves and what it has written are within the limits. -/
structure Bounded (limits : LimitsConfig) (m : Machine) : Prop where
  disk : m.disk.Bounded limits
  coll : ∀ c, m.coll = some c → c.Bounded limits

namespace Bounded

variable {m : Machine} {path : String} {config : CollectionConfig}

theorem fresh : Machine.fresh.Bounded limits where
  disk bytes index hbytes := by cases hbytes
  coll c hc := by cases hc

theorem performed (h : m.Bounded limits) {p : CollM Unit} (hp : WithinLimits limits p) :
    (m.performed p).Bounded limits := by
  unfold Machine.performed
  cases hcoll : m.coll with
  | none => exact h
  | some c =>
      have hwp := hp ⟨c, m.draws⟩ m.disk (h.coll c hcoll) h.disk
      cases hresult : (p ⟨c, m.draws⟩ m.disk).result with
      | ok a =>
          obtain ⟨hs, hd⟩ := wp_ok hwp hresult
          refine ⟨hd, fun c' hc' => ?_⟩
          cases hc'
          exact hs
      | error e =>
          obtain ⟨hs, hd⟩ := wp_error hwp hresult
          refine ⟨hd, fun c' hc' => ?_⟩
          cases hc'
          exact hs

theorem step [LawfulEnv] [TightDocuments] (h : m.Bounded limits) (hconfig : config.limits = limits)
    (event : Event) : (m.step path config event).Bounded limits := by
  have hopens : CollectionBuilder.Opens limits (CollectionBuilder.openCollection path config) m.draws
      m.disk := CollectionBuilder.opens_openCollection hconfig h.disk m.draws
  cases event with
  | «open» =>
      unfold Machine.step
      cases hresult : (CollectionBuilder.openCollection path config m.draws m.disk).result with
      | ok c =>
          obtain ⟨hc, hd⟩ := wp_ok hopens hresult
          refine ⟨hd, fun c' hc' => ?_⟩
          simp only [hresult] at hc'
          cases hc'
          exact hc
      | error e =>
          refine ⟨wp_error hopens hresult, fun c' hc' => ?_⟩
          simp only [hresult] at hc'
          cases hc'
  | crashOpen k => exact ⟨wp_crash hopens h.disk k, fun c hc => by cases hc⟩
  | call call => exact h.performed call.withinLimits_run
  | crashCall call k =>
      unfold Machine.step
      cases hcoll : m.coll with
      | none =>
          refine ⟨h.disk, fun c hc => ?_⟩
          simp [hcoll] at hc
      | some c =>
          have hwp := call.withinLimits_run ⟨c, m.draws⟩ m.disk (h.coll c hcoll) h.disk
          exact ⟨wp_crash hwp h.disk k, fun c' hc' => by cases hc'⟩

theorem turn [LawfulEnv] [TightDocuments] (h : m.Bounded limits) {t : Turn}
    (hfixed : ∀ config event, t = .event config event → config.limits = limits) :
    (m.turn path t).Bounded limits := by
  cases t with
  | event config event => exact h.step (hfixed config event rfl) event
  | ensureCacheConsistency => exact h.performed Collection.quiet_ensureConsistent.withinLimits
  | clearMetadataCache =>
      have hclear : InPlace (update fun c => { c with cache := c.cache.clearMetadata }) :=
        .modify fun _ => rfl
      exact h.performed hclear.withinLimits

theorem turns [LawfulEnv] [TightDocuments] (h : m.Bounded limits) {ts : List Turn}
    (hfixed : ∀ config event, .event config event ∈ ts → config.limits = limits) :
    (m.turns path ts).Bounded limits := by
  induction ts generalizing m with
  | nil => exact h
  | cons t ts ih =>
      refine ih (h.turn fun config event ht => hfixed config event (by simp [ht])) ?_
      exact fun config event ht => hfixed config event (List.mem_cons_of_mem t ht)

end Bounded

/-- Limits that every process of a collection has hold in every state that a run reaches. -/
theorem limits_invariant [LawfulEnv] [TightDocuments] (path : String) {limits : LimitsConfig}
    {ts : List Turn} (hfixed : ∀ config event, .event config event ∈ ts → config.limits = limits)
    {c : Collection} (hopen : (fresh.turns path ts).coll = some c) :
    (∀ n, limits.maxVectors = some n → c.count ≤ n) ∧
      (∀ n, limits.maxBytes = some n → c.recordStore.usedBytes ≤ n) ∧
      ∀ n, limits.maxVectorBytes = some n →
        (∀ id p, c.index.lookup id = some p → p.length ≤ n) ∧
          ∀ id doc, c.get (fresh.turns path ts).disk id = .ok (some doc) →
            (RecordStore.encodeDocument doc).length ≤ n := by
  have h : (fresh.turns path ts).Bounded limits := Bounded.fresh.turns hfixed
  have hindex := (h.coll c hopen).index
  refine ⟨hindex.vectors, hindex.total, fun n hn => ⟨hindex.entry n hn, fun id doc hget => ?_⟩⟩
  unfold Collection.get at hget
  split at hget
  · cases hget
  · rename_i p hp
    obtain ⟨doc', hread, hsome⟩ := map_eq_ok.mp hget
    cases hsome
    exact (Collection.encodeDocument_le hread).trans (hindex.entry n hn id p hp)

end Machine

end

/-! ## A run that meets its limits -/

section

attribute [local instance] Reference.tight

open Reference

/-- Room for two documents. -/
def twoDocuments : LimitsConfig := ⟨some 2, some 110, some 60⟩

def narrowConfig : CollectionConfig := config (.flat .cosine .auto) twoDocuments 1000

/-- A third document is refused; once there is room for it again, the process crashes while
the document is stored, and the next one replays the log. -/
def narrowRun : List Turn :=
  [.event narrowConfig .open, .event narrowConfig (.call (.insert (doc 0 1))),
    .event narrowConfig (.call (.insert (doc 1 1))), .event narrowConfig (.call (.insert (doc 2 1))),
    .event narrowConfig (.call (.delete 0)), .ensureCacheConsistency,
    .event narrowConfig (.call .compact), .event narrowConfig (.crashCall (.insert (doc 3 1)) 2),
    .event narrowConfig .open]

theorem narrowRun_within_limits : ∃ c, (Machine.fresh.turns "c" narrowRun).coll = some c ∧
    c.count ≤ 2 ∧ c.recordStore.usedBytes ≤ 110 ∧ ∀ id p, c.index.lookup id = some p → p.length ≤ 60 := by
  have hopen : (Machine.fresh.turns "c" narrowRun).coll.isSome := by decide +kernel
  have hfixed : ∀ config event, .event config event ∈ narrowRun → config.limits = twoDocuments := by
    intro config event h
    simp only [narrowRun, List.mem_cons, Turn.event.injEq, reduceCtorEq, List.not_mem_nil,
      false_or, or_false] at h
    have hconfig : config = narrowConfig := by
      rcases h with h | h | h | h | h | h | h | h <;> exact h.1
    rw [hconfig]
    rfl
  obtain ⟨c, hc⟩ := Option.isSome_iff_exists.mp hopen
  obtain ⟨hvectors, htotal, hentry⟩ := Machine.limits_invariant "c" hfixed hc
  exact ⟨c, hc, hvectors 2 rfl, htotal 110 rfl, (hentry 60 rfl).1⟩

end
