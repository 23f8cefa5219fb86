-- SUMMARY: What each step of an operation leaves as it is, of the collection and of each file.
import Piramid.Collections.Call

/-!
# What steps leave alone

Most steps of an operation change neither where records lie nor what is saved of that. What
is proved of these need only look at the other steps.
-/

open Prog

/-- The program changes neither `f` of the state nor `file`. -/
abbrev Leaves {σ φ α : Type} (f : σ → φ) (file : CollFile) (p : Io σ α) : Prop :=
  Frames f (fun d : Disk => d file) p

section

variable {σ φ : Type} {f : σ → φ} {file : CollFile}

theorem leaves_emit {e : Effect} (h : ¬e.Touches file) : Leaves f file (emit e) :=
  .emit fun d => Effect.apply_untouched h d

theorem leaves_fileLen (file' : CollFile) : Leaves f file (fileLen file') :=
  .bind .device fun _ => .pure _

theorem StoreFile.file_ne_index (target : StoreFile) : (target : CollFile) ≠ .index := by
  cases target with
  | data => simp [StoreFile.file]
  | compactTmp => simp [StoreFile.file]

/-! ## Storage -/

namespace RecordStore

theorem leaves_openFile {target : StoreFile} (h : (target : CollFile) ≠ file) (config : CollectionConfig)
    (index : OffsetIndex) : Leaves f file (openFile target config index) := by
  refine .bind (leaves_emit h) fun _ => ?_
  refine .bind ?_ fun _ => .bind (leaves_fileLen _) fun _ => .pure _
  exact .bind (leaves_fileLen _) fun _ => .when (leaves_emit h)

variable (store : RecordStore)

theorem leaves_growMmapIfNeeded (h : (store.dataFile : CollFile) ≠ file) (requiredSize : Nat) :
    Leaves f file (store.growMmapIfNeeded requiredSize) :=
  .bind (leaves_fileLen _) fun _ => .ite (.bind (leaves_emit h) fun _ => .pure _) (.pure _)

theorem leaves_writeAt (h : (store.dataFile : CollFile) ≠ file) (offset : Nat) (bytes : Bytes) :
    Leaves f file (store.writeAt offset bytes) := by
  have hstore : ¬(Effect.store store.dataFile offset bytes).Touches file := h
  unfold writeAt
  split
  · exact .ite (leaves_emit hstore) (.fault _)
  · exact leaves_emit hstore

end RecordStore

variable [Env]

theorem leaves_ensureHeader (h : .wal ≠ file) (wal : Wal) : Leaves f file wal.ensureHeader :=
  .ite (.pure _) (.bind (leaves_fileLen _) fun _ => .when (leaves_emit h))

theorem leaves_log (h : .wal ≠ file) (wal : Wal) (entry : WalEntry) : Leaves f file (wal.log entry) :=
  .bind (.when (leaves_emit h)) fun _ => .pure _

theorem leaves_rotate (h : .wal ≠ file) (wal : Wal) : Leaves f file wal.rotate :=
  .ite (.pure _) <| .bind (leaves_emit h) fun _ => .bind (leaves_emit id) fun _ =>
    leaves_ensureHeader h wal

theorem leaves_saveWalMeta (h : .walMeta ≠ file) (htmp : .walMetaTmp ≠ file) (seq : Nat) :
    Leaves f file (Wal.saveWalMeta seq) := by
  refine .bind (leaves_emit htmp) fun _ => .bind (leaves_emit ?_) fun _ => leaves_emit id
  exact fun htouches => htouches.elim htmp h

theorem leaves_saveVectorIndex (h : .vecindex ≠ file) (index : VectorIndex) :
    Leaves f file (saveVectorIndex index) :=
  leaves_emit h

theorem leaves_saveMetadata (h : .metadata ≠ file) (metadata : CollectionMetadata) :
    Leaves f file (saveMetadata metadata) :=
  leaves_emit h

/-! ## Loading -/

theorem leaves_loadMetadata : Leaves f file (loadMetadata : Io σ (Option CollectionMetadata)) := by
  refine .bind .device fun d => ?_
  split
  · exact .pure _
  · split
    · exact .fault _
    · exact .ite (.fault _) (.pure _)

theorem leaves_loadVectorIndex : Leaves f file (loadVectorIndex : Io σ (Option VectorIndex)) := by
  refine .bind .device fun d => ?_
  split
  · exact .pure _
  · split
    · exact .pure _
    · exact .fault _

theorem leaves_loadWalMeta : Leaves f file (Wal.loadWalMeta : Io σ Nat) := by
  refine .bind .device fun d => ?_
  split
  · exact .pure _
  · split
    · exact .fault _
    · exact .pure _

theorem leaves_newWal (h : .wal ≠ file) (nextSeq : Nat) : Leaves f file (Wal.new nextSeq) :=
  .bind (leaves_emit h) fun _ => .bind (leaves_ensureHeader h _) fun _ => .pure _

theorem leaves_replay (wal : Wal) (minSeq : Nat) : Leaves f file (wal.replay minSeq) :=
  .ite (.pure _) (.bind .device fun _ => .ofExcept _)

/-! ## The vector index -/

variable [Counting σ] (hf : ∀ s, f (Counting.next s) = f s)

include hf

theorem leaves_draw : Leaves f file (draw : Io σ Chance) :=
  .bind (.asks _) fun _ => .bind (.modify hf) fun _ => .pure _

theorem leaves_insertAll (vectors : HashMap Uuid Vector32) (entries : List (Uuid × Vector32))
    (vectorIndex : VectorIndex) : Leaves f file (Collection.insertAll vectors entries vectorIndex) := by
  induction entries generalizing vectorIndex with
  | nil => exact .pure _
  | cons entry entries ih =>
      exact .bind (leaves_draw hf) fun _ => .bind (.ofExcept _) fun _ => ih _

theorem leaves_rebuildVectorIndex (vectorIndex : VectorIndex) (index : OffsetIndex)
    (store : RecordStore) :
    Leaves f file (Collection.rebuildVectorIndex vectorIndex index store : Io σ VectorIndex) := by
  refine .bind (leaves_draw hf) fun _ => ?_
  refine .bind .device fun _ => ?_
  refine .bind (.ofExcept _) fun _ => ?_
  exact .bind (leaves_draw hf) fun _ => leaves_insertAll hf _ _ _

end

/-! ## Collections -/

/-- Where the records of a collection lie, and how many components their vectors have. -/
def Session.settled (s : Session) : (OffsetIndex × RecordStore × CollectionConfig) × Option Nat :=
  ((s.coll.index, s.coll.recordStore, s.coll.config), s.coll.metadata.dimensions)

/-- The step changes neither what is settled nor `file`. -/
abbrev Quiet {α : Type} (file : CollFile) (p : CollM α) : Prop := Leaves Session.settled file p

namespace Collection

variable [Env] {file : CollFile}

theorem quiet_draw : Quiet file (draw : CollM Chance) := leaves_draw fun _ => rfl

theorem quiet_logEntry (h : .wal ≠ file) (entry : WalEntry) : Quiet file (logEntry entry) :=
  .bind (.asks _) fun _ => .bind (leaves_log h _ _) fun _ => .modify fun _ => rfl

omit [Env] in
theorem quiet_checkDimensions (vector : Vector32) : Quiet file (checkDimensions vector) := by
  refine .bind (.asks _) fun c => ?_
  split
  · exact .ofExcept _
  · exact .pure _

theorem quiet_updateVectorCount : Quiet file updateVectorCount :=
  .bind quiet_draw fun _ => .modify fun _ => rfl

theorem quiet_indexVector (id : Uuid) (vector : Vector32) : Quiet file (indexVector id vector) := by
  refine .bind quiet_draw fun _ => ?_
  refine .bind (.asks _) fun _ => ?_
  exact .bind (.ofExcept _) fun _ => .modify fun _ => rfl

theorem quiet_fetch (id : Uuid) : Quiet file (fetch id) :=
  .bind (.asks _) fun _ => .bind .device fun _ => .ofExcept _

theorem quiet_logDelete (h : .wal ≠ file) (id : Uuid) : Quiet file (logDelete id) :=
  .bind (.asks _) fun _ => .when (quiet_logEntry h _)

theorem quiet_rebuildVectorCache : Quiet file rebuildVectorCache := by
  refine .bind quiet_draw fun _ => ?_
  refine .bind (.asks _) fun _ => ?_
  refine .bind .device fun _ => ?_
  exact .bind (.ofExcept _) fun _ => .modify fun _ => rfl

theorem quiet_ensureConsistent : Quiet file ensureConsistent :=
  .bind (.asks _) fun _ => .ite quiet_rebuildVectorCache <| .bind quiet_draw fun _ =>
    .when quiet_rebuildVectorCache

theorem quiet_rebuildIndex (h : .vecindex ≠ file) : Quiet file rebuildIndex := by
  refine .bind (.asks _) fun _ => ?_
  refine .bind (leaves_rebuildVectorIndex (fun _ => rfl) _ _ _) fun _ => ?_
  refine .bind (.modify fun _ => rfl) fun _ => ?_
  exact .bind quiet_rebuildVectorCache fun _ => leaves_saveVectorIndex h _

end Collection
