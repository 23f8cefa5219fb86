-- SUMMARY: The blocks of effects out of which everything a collection does on disk is made.
import Piramid.Collections.Builder
import Piramid.Collections.Compact

/-!
# Effects of the collection layer

Every program of the collection layer emits a sequence of the blocks below, from
any state and on any disk. What can be on disk after a run is read off from the
blocks.
-/

open Prog

/-- A list of effects that is emitted in one go. -/
inductive Block [Env] : List Effect → Prop where
  | create (f : StoreFile) : Block [.create f]
  | setLen (f : StoreFile) (size : Nat) : Block [.setLen f size]
  | store (f : StoreFile) (offset : Nat) (bytes : Bytes) : Block [.store f offset bytes]
  | index (index : OffsetIndex) : Block [.write .index (Env.offsetIndex.encode index)]
  | vecindex (index : VectorIndex) : Block [.write .vecindex (Env.vectorIndex.encode index)]
  | metadata (metadata : CollectionMetadata) :
    Block [.write .metadata (Env.collectionMetadata.encode metadata)]
  | createWal : Block [.create .wal]
  | log (bytes : Bytes) : Block [.append .wal bytes]
  | walMeta (seq : Nat) : Block [.write .walMetaTmp (Env.walMeta.encode ⟨seq⟩),
    .rename .walMetaTmp .walMeta, .sync .walMeta]
  | rotate : Block [.truncate .wal, .sync .wal]
  | removeTmp : Block [.remove .compactTmp]
  | syncStore (f : StoreFile) : Block [.sync f]
  | replace : Block [.rename .compactTmp .data]

/-- A kind of lists that has every block but the two that only compaction emits. -/
class Admits [Env] (B : List Effect → Prop) : Prop where
  create (f : StoreFile) : B [.create f]
  setLen (f : StoreFile) (size : Nat) : B [.setLen f size]
  store (f : StoreFile) (offset : Nat) (bytes : Bytes) : B [.store f offset bytes]
  index (index : OffsetIndex) : B [.write .index (Env.offsetIndex.encode index)]
  vecindex (index : VectorIndex) : B [.write .vecindex (Env.vectorIndex.encode index)]
  metadata (metadata : CollectionMetadata) :
    B [.write .metadata (Env.collectionMetadata.encode metadata)]
  createWal : B [.create .wal]
  log (bytes : Bytes) : B [.append .wal bytes]
  walMeta (seq : Nat) : B [.write .walMetaTmp (Env.walMeta.encode ⟨seq⟩),
    .rename .walMetaTmp .walMeta, .sync .walMeta]
  rotate : B [.truncate .wal, .sync .wal]
  syncStore (f : StoreFile) : B [.sync f]

instance [Env] : Admits Block where
  create := .create
  setLen := .setLen
  store := .store
  index := .index
  vecindex := .vecindex
  metadata := .metadata
  createWal := .createWal
  log := .log
  walMeta := .walMeta
  rotate := .rotate
  syncStore := .syncStore

/-- The effects of a program are a sequence of blocks. -/
abbrev Blocks [Env] {σ α : Type} (p : Io σ α) : Prop := EmitsBlocks Block p

section

variable [Env] {B : List Effect → Prop} [Admits B] {σ : Type}

omit [Admits B] in
theorem blocks_draw [Counting σ] : EmitsBlocks B (draw : Io σ Chance) :=
  .bind (.asks _) fun _ => .bind (.modify _) fun _ => .pure _

omit [Env] [Admits B] in
theorem blocks_update (f : Collection → Collection) : EmitsBlocks B (update f) := .modify _

omit [Env] [Admits B] in
theorem blocks_fileLen (f : CollFile) : EmitsBlocks B (fileLen f : Io σ Nat) :=
  .bind .device fun _ => .pure _

/-! ## Storage -/

omit [Admits B] in
theorem blocks_loadIndex (path : String) : EmitsBlocks B (loadIndex path : Io σ OffsetIndex) := by
  refine .bind .device fun d => ?_
  split
  · exact .pure _
  · split
    · exact .pure _
    · exact .fault _

omit [Admits B] in
theorem blocks_loadVectorIndex : EmitsBlocks B (loadVectorIndex : Io σ (Option VectorIndex)) := by
  refine .bind .device fun d => ?_
  split
  · exact .pure _
  · split
    · exact .pure _
    · exact .fault _

omit [Admits B] in
theorem blocks_loadMetadata : EmitsBlocks B (loadMetadata : Io σ (Option CollectionMetadata)) := by
  refine .bind .device fun d => ?_
  split
  · exact .pure _
  · split
    · exact .fault _
    · exact .ite (.fault _) (.pure _)

theorem blocks_openFile (f : StoreFile) (config : CollectionConfig) (index : OffsetIndex) :
    EmitsBlocks B (RecordStore.openFile f config index : Io σ RecordStore) := by
  refine .bind (.emit (Admits.create f)) fun _ => ?_
  refine .bind ?_ fun _ => .bind (blocks_fileLen _) fun _ => .pure _
  exact .bind (blocks_fileLen _) fun _ => .when (.emit (Admits.setLen f _))

theorem blocks_growMmapIfNeeded (store : RecordStore) (requiredSize : Nat) :
    EmitsBlocks B (store.growMmapIfNeeded requiredSize : Io σ RecordStore) :=
  .bind (blocks_fileLen _) fun _ => .ite (.bind (.emit (Admits.setLen _ _)) fun _ => .pure _) (.pure _)

theorem blocks_writeAt (store : RecordStore) (offset : Nat) (bytes : Bytes) :
    EmitsBlocks B (store.writeAt offset bytes : Io σ Unit) := by
  rw [RecordStore.writeAt]
  split
  · exact .ite (.emit (Admits.store _ _ _)) (.fault _)
  · exact .emit (Admits.store _ _ _)

theorem blocks_append (store : RecordStore) (bytes : Bytes) :
    EmitsBlocks B (store.append bytes : Io σ (EntryPointer × RecordStore)) :=
  .bind (blocks_growMmapIfNeeded _ _) fun _ => .bind (blocks_writeAt _ _ _) fun _ => .pure _

theorem blocks_appendEach (store : RecordStore) (entries : List (Uuid × Bytes)) :
    EmitsBlocks B (store.appendEach entries : Io σ (List EntryPointer × RecordStore)) := by
  induction entries generalizing store with
  | nil => exact .pure _
  | cons entry entries ih => exact .bind (blocks_writeAt _ _ _) fun _ => .bind (ih _) fun _ => .pure _

theorem blocks_appendBatch (store : RecordStore) (entries : List (Uuid × Bytes)) :
    EmitsBlocks B (store.appendBatch entries : Io σ (List EntryPointer × RecordStore)) :=
  .bind (blocks_growMmapIfNeeded _ _) fun _ => blocks_appendEach _ _

theorem blocks_ensureHeader (wal : Wal) : EmitsBlocks B (wal.ensureHeader : Io σ Unit) :=
  .ite (.pure _) (.bind (blocks_fileLen _) fun _ => .when (.emit (Admits.log _)))

theorem blocks_newWal (nextSeq : Nat) : EmitsBlocks B (Wal.new nextSeq : Io σ Wal) :=
  .bind (.emit Admits.createWal) fun _ => .bind (blocks_ensureHeader _) fun _ => .pure _

omit [Admits B] in
theorem blocks_replay (wal : Wal) (minSeq : Nat) :
    EmitsBlocks B (wal.replay minSeq : Io σ (List WalEntry)) :=
  .ite (.pure _) (.bind .device fun _ => .ofExcept _)

theorem blocks_log (wal : Wal) (entry : WalEntry) : EmitsBlocks B (wal.log entry : Io σ Wal) :=
  .bind (.when (.emit (Admits.log _))) fun _ => .pure _

theorem blocks_rotate (wal : Wal) : EmitsBlocks B (wal.rotate : Io σ Unit) := by
  rw [Wal.rotate]
  split
  · exact .pure _
  · intro s d
    obtain ⟨bs, heq, hbs⟩ := blocks_ensureHeader (B := B) (σ := σ) wal s (d.put .wal (some []))
    refine ⟨[.truncate .wal, .sync .wal] :: bs, ?_, ?_⟩
    · change (Prog.bind (emit _) (fun _ => Prog.bind (emit _) fun _ => wal.ensureHeader) s d).effects
        = _
      simp only [Prog.bind, emit, Device.applyAll_cons, Device.applyAll_nil, Effect.apply_truncate,
        Effect.apply_sync, heq, List.flatten_cons]
      rfl
    · intro b hb
      cases List.mem_cons.mp hb with
      | inl h => exact h ▸ Admits.rotate
      | inr h => exact hbs b h

omit [Admits B] in
theorem blocks_loadWalMeta : EmitsBlocks B (Wal.loadWalMeta : Io σ Nat) := by
  refine .bind .device fun d => ?_
  split
  · exact .pure _
  · split
    · exact .fault _
    · exact .pure _

theorem blocks_saveWalMeta (seq : Nat) : EmitsBlocks B (Wal.saveWalMeta seq : Io σ Unit) :=
  fun _ _ => ⟨[_], rfl, by simpa using Admits.walMeta (B := B) seq⟩

end

/-! ## Collections -/

namespace Collection

variable [Env] {B : List Effect → Prop} [Admits B] {σ : Type} [Counting σ]

omit [Admits B] in
theorem blocks_updateVectorCount : EmitsBlocks B updateVectorCount :=
  .bind blocks_draw fun _ => blocks_update _

omit [Admits B] in
theorem blocks_rebuildVectorCache : EmitsBlocks B rebuildVectorCache := by
  refine .bind blocks_draw fun _ => ?_
  refine .bind (.asks _) fun _ => ?_
  refine .bind .device fun _ => ?_
  exact .bind (.ofExcept _) fun _ => blocks_update _

omit [Admits B] in
theorem blocks_indexVector (id : Uuid) (vector : Vector32) : EmitsBlocks B (indexVector id vector) := by
  refine .bind blocks_draw fun _ => ?_
  refine .bind (.asks _) fun _ => ?_
  exact .bind (.ofExcept _) fun _ => blocks_update _

omit [Admits B] in
theorem blocks_insertAll (vectors : HashMap Uuid Vector32) (entries : List (Uuid × Vector32))
    (vectorIndex : VectorIndex) :
    EmitsBlocks B (insertAll vectors entries vectorIndex : Io σ VectorIndex) := by
  induction entries generalizing vectorIndex with
  | nil => exact .pure _
  | cons entry entries ih =>
      exact .bind blocks_draw fun _ => .bind (.ofExcept _) fun _ => ih _

omit [Admits B] in
theorem blocks_rebuildVectorIndex (vectorIndex : VectorIndex) (index : OffsetIndex)
    (store : RecordStore) : EmitsBlocks B (rebuildVectorIndex vectorIndex index store : Io σ VectorIndex) := by
  refine .bind blocks_draw fun _ => ?_
  refine .bind .device fun _ => ?_
  refine .bind (.ofExcept _) fun _ => ?_
  exact .bind blocks_draw fun _ => blocks_insertAll _ _ _

theorem blocks_rebuildIndex : EmitsBlocks B rebuildIndex := by
  refine .bind (.asks _) fun _ => ?_
  refine .bind (blocks_rebuildVectorIndex _ _ _) fun _ => ?_
  refine .bind (blocks_update _) fun _ => ?_
  exact .bind blocks_rebuildVectorCache fun _ => .emit (Admits.vecindex _)

theorem blocks_checkpointNow : EmitsBlocks B checkpointNow := by
  refine .bind blocks_draw fun _ => ?_
  refine .bind (.asks _) fun c => ?_
  refine .bind (.emit (Admits.index _)) fun _ => ?_
  refine .bind (.emit (Admits.vecindex _)) fun _ => ?_
  refine .bind (.emit (Admits.metadata _)) fun _ => .when ?_
  refine .bind (blocks_log _ _) fun _ => ?_
  refine .bind (blocks_update _) fun _ => ?_
  exact .bind (blocks_saveWalMeta _) fun _ => blocks_rotate _

theorem blocks_trackOperation : EmitsBlocks B trackOperation := by
  refine .bind blocks_draw fun _ => ?_
  refine .bind (.asks _) fun _ => ?_
  exact .bind (blocks_update _) fun _ => .when (.bind blocks_checkpointNow fun _ => blocks_update _)

theorem blocks_logEntry (entry : WalEntry) : EmitsBlocks B (logEntry entry) :=
  .bind (.asks _) fun _ => .bind (blocks_log _ _) fun _ => blocks_update _

theorem blocks_appendRecord (bytes : Bytes) : EmitsBlocks B (appendRecord bytes) := by
  refine .bind (.asks _) fun _ => ?_
  refine .bind (blocks_append _ _) fun _ => ?_
  exact .bind (blocks_update _) fun _ => .pure _

omit [Env] [Admits B] in
theorem blocks_checkDimensions (vector : Vector32) : EmitsBlocks B (checkDimensions vector) := by
  refine .bind (.asks _) fun _ => ?_
  split
  · exact .ofExcept _
  · exact .pure _

omit [Env] [Admits B] in
theorem blocks_checkOrSetDimensions (vector : Vector32) : EmitsBlocks B (checkOrSetDimensions vector) := by
  refine .bind (.asks _) fun _ => ?_
  split
  · exact .ofExcept _
  · exact blocks_update _

theorem blocks_insertInternal (entry : Document) : EmitsBlocks B (insertInternal entry) := by
  refine .bind (.asks _) fun _ => ?_
  refine .bind (.ofExcept _) fun _ => ?_
  refine .bind (blocks_appendRecord _) fun _ => ?_
  refine .bind (blocks_update _) fun _ => ?_
  refine .bind (blocks_update _) fun _ => ?_
  refine .bind (blocks_checkDimensions _) fun _ => ?_
  refine .bind (blocks_update _) fun _ => ?_
  refine .bind (blocks_indexVector _ _) fun _ => ?_
  exact .bind blocks_updateVectorCount fun _ => .pure _

omit [Admits B] in
theorem blocks_deleteInternal (id : Uuid) : EmitsBlocks B (deleteInternal id) :=
  .bind blocks_draw fun _ => .bind (blocks_update _) fun _ => blocks_updateVectorCount

theorem blocks_insert (entry : Document) : EmitsBlocks B (insert entry) := by
  refine .bind (blocks_logEntry _) fun _ => ?_
  refine .bind (blocks_insertInternal _) fun _ => ?_
  exact .bind blocks_trackOperation fun _ => .pure _

omit [Admits B] in
theorem blocks_indexBatched (entry : Document) : EmitsBlocks B (indexBatched entry) := by
  refine .bind (blocks_update _) fun _ => ?_
  refine .bind (blocks_checkDimensions _) fun _ => ?_
  exact .bind (blocks_update _) fun _ => blocks_indexVector _ _

theorem blocks_insertBatch (entries : List Document) : EmitsBlocks B (insertBatch entries) := by
  refine .bind (.forM fun _ => blocks_logEntry _) fun _ => ?_
  refine .bind (.asks _) fun _ => ?_
  refine .bind (.ofExcept _) fun _ => ?_
  refine .bind (blocks_appendBatch _ _) fun _ => ?_
  refine .bind (blocks_update _) fun _ => ?_
  refine .bind blocks_trackOperation fun _ => ?_
  refine .bind (.forM blocks_indexBatched) fun _ => ?_
  exact .bind blocks_updateVectorCount fun _ => .pure _

theorem blocks_upsert (entry : Document) : EmitsBlocks B (upsert entry) := by
  refine .bind (.asks _) fun _ => .bind (.ofExcept _) fun _ => .ite ?_ (blocks_insert _)
  refine .bind (blocks_logEntry _) fun _ => ?_
  refine .bind (blocks_deleteInternal _) fun _ => ?_
  refine .bind (blocks_insertInternal _) fun _ => ?_
  exact .bind blocks_trackOperation fun _ => .pure _

theorem blocks_delete (id : Uuid) : EmitsBlocks B (delete id) := by
  refine .bind (.asks _) fun _ => .ite ?_ (.pure _)
  refine .bind (blocks_logEntry _) fun _ => ?_
  refine .bind (blocks_deleteInternal _) fun _ => ?_
  exact .bind blocks_trackOperation fun _ => .pure _

omit [Admits B] in
theorem blocks_deleteEach (ids : List Uuid) (deletedCount : Nat) :
    EmitsBlocks B (deleteEach ids deletedCount) := by
  induction ids generalizing deletedCount with
  | nil => exact .pure _
  | cons id ids ih =>
      exact .bind (.asks _) fun _ => .ite (.bind (blocks_deleteInternal _) fun _ => ih _) (ih _)

theorem blocks_deleteBatch (ids : List Uuid) : EmitsBlocks B (deleteBatch ids) := by
  refine .bind (.forM fun _ => .bind (.asks _) fun _ => .when (blocks_logEntry _)) fun _ => ?_
  refine .bind (blocks_deleteEach _ _) fun _ => ?_
  exact .bind (.when blocks_trackOperation) fun _ => .pure _

omit [Admits B] in
theorem blocks_fetch (id : Uuid) : EmitsBlocks B (fetch id) :=
  .bind (.asks _) fun _ => .bind .device fun _ => .ofExcept _

theorem blocks_updateMetadata (id : Uuid) (metadata : Metadata) :
    EmitsBlocks B (updateMetadata id metadata) := by
  refine .bind (blocks_fetch _) fun entry => ?_
  split
  · exact .pure _
  · exact .bind (blocks_logEntry _) fun _ => .bind (.asks _) fun _ => .bind (.ofExcept _) fun _ =>
      .bind (blocks_appendRecord _) fun _ => .bind (blocks_update _) fun _ =>
      .bind blocks_updateVectorCount fun _ => .bind blocks_trackOperation fun _ => .pure _

theorem blocks_updateVector (id : Uuid) (vector : Vector32) : EmitsBlocks B (updateVector id vector) := by
  refine .bind (blocks_fetch _) fun entry => ?_
  split
  · exact .pure _
  · exact .bind (blocks_logEntry _) fun _ => .bind (blocks_checkOrSetDimensions _) fun _ =>
      .bind (.asks _) fun _ => .bind (.ofExcept _) fun _ => .bind (blocks_appendRecord _) fun _ =>
      .bind blocks_draw fun _ => .bind (blocks_update _) fun _ => .bind (blocks_indexVector _ _)
      fun _ => .bind blocks_updateVectorCount fun _ => .bind blocks_trackOperation fun _ => .pure _

theorem blocks_copyDocuments (docs : List Document) (st : Compaction) :
    EmitsBlocks B (copyDocuments docs st) := by
  induction docs generalizing st with
  | nil => exact .pure _
  | cons doc docs ih =>
      refine .bind ?_ fun _ => ih _
      refine .bind (blocks_append _ _) fun _ => ?_
      refine .bind blocks_draw fun _ => ?_
      exact .bind (.ofExcept _) fun _ => .pure _

theorem blocks_adoptCompacted (newMetadata : CollectionMetadata) (st : Compaction) :
    EmitsBlocks B (adoptCompacted newMetadata st) := by
  refine .bind (.asks _) fun _ => ?_
  refine .bind (blocks_openFile _ _ _) fun _ => ?_
  refine .bind (blocks_update _) fun _ => ?_
  refine .bind blocks_rebuildVectorCache fun _ => ?_
  refine .bind (.emit (Admits.index _)) fun _ => ?_
  refine .bind (.emit (Admits.vecindex _)) fun _ => ?_
  exact .bind (.emit (Admits.metadata _)) fun _ => blocks_rotate _

/-- Kinds of lists that have the removal of an old temporary file as well. -/
theorem blocks_writeCompacted (hremove : B [.remove .compactTmp]) : EmitsBlocks B writeCompacted := by
  refine .bind blocks_draw fun _ => ?_
  refine .bind (.asks _) fun _ => ?_
  refine .bind .device fun _ => ?_
  refine .bind (.ofExcept _) fun _ => ?_
  refine .bind (.when (.emit hremove)) fun _ => ?_
  refine .bind (blocks_openFile _ _ _) fun _ => ?_
  refine .bind (blocks_copyDocuments _ _) fun _ => ?_
  refine .bind blocks_draw fun _ => ?_
  exact .bind (.emit (Admits.syncStore _)) fun _ => .pure _

theorem blocks_compact : Blocks compact := by
  refine .bind (.asks _) fun _ => ?_
  refine .bind (blocks_writeCompacted .removeTmp) fun _ => ?_
  refine .bind (.emit .replace) fun _ => ?_
  exact .bind (blocks_adoptCompacted _ _) fun _ => .pure _

end Collection

namespace CollectionBuilder

variable [Env] {B : List Effect → Prop} [Admits B]

theorem blocks_replayEntry (entry : WalEntry) : EmitsBlocks B (replayEntry entry) := by
  cases entry with
  | insert doc _ => exact .bind (Collection.blocks_insertInternal _) fun _ => .pure _
  | update doc _ =>
      refine .bind (Collection.blocks_deleteInternal _) fun _ => ?_
      exact .bind (Collection.blocks_insertInternal _) fun _ => .pure _
  | delete id _ => exact Collection.blocks_deleteInternal id
  | checkpoint _ _ => exact .pure _

theorem blocks_loadCollection (path : String) (config : CollectionConfig) :
    EmitsBlocks B (loadCollection path config) := by
  refine .bind (blocks_loadIndex _) fun _ => ?_
  refine .bind (blocks_openFile _ _ _) fun _ => ?_
  refine .bind blocks_draw fun _ => ?_
  refine .bind blocks_loadMetadata fun _ => ?_
  refine .bind blocks_loadVectorIndex fun _ => ?_
  refine .bind (.ite blocks_loadWalMeta (.pure _)) fun _ => ?_
  refine .bind (.ite (blocks_newWal _) (.pure _)) fun _ => ?_
  exact .bind (.ite (blocks_replay _ _) (.pure _)) fun _ => .pure _

omit [Env] [Admits B] in
theorem blocks_onCollection (c : Collection) {p : CollM Unit} (hp : EmitsBlocks B p) :
    EmitsBlocks B (onCollection c p) :=
  .bind (.embed hp) fun _ => .pure _

theorem blocks_openCollection (path : String) (config : CollectionConfig) :
    EmitsBlocks B (openCollection path config) := by
  refine .bind (blocks_loadCollection _ _) fun loaded => .ite (blocks_onCollection _ ?_) ?_
  · exact .bind (.forM blocks_replayEntry) fun _ =>
      .bind Collection.blocks_rebuildVectorCache fun _ => Collection.blocks_checkpointNow
  · exact .bind (.ite (Collection.blocks_rebuildVectorIndex _ _ _) (.pure _)) fun _ =>
      blocks_onCollection _ Collection.blocks_rebuildVectorCache

end CollectionBuilder
