-- SUMMARY: The calls a client makes on an open collection, and the rules for stepping through them.
import Piramid.Collections.Effects

/-!
# Calls

The operations as one type, and weakest-precondition rules for the steps they
share.
-/

open Prog

/-- A call on an open collection. -/
inductive Call where
  | insert (doc : Document)
  | insertBatch (docs : List Document)
  | upsert (doc : Document)
  | updateMetadata (id : Uuid) (metadata : Metadata)
  | updateVector (id : Uuid) (vector : Vector32)
  | delete (id : Uuid)
  | deleteBatch (ids : List Uuid)
  | checkpoint
  | rebuildIndex
  | compact

/-- Run a call and forget what it returns. -/
def Prog.void {σ α : Type} (p : Io σ α) : Io σ Unit := do
  let _ ← p
  pure ()

def Call.run [Env] : Call → CollM Unit
  | .insert doc => (Collection.insert doc).void
  | .insertBatch docs => (Collection.insertBatch docs).void
  | .upsert doc => (Collection.upsert doc).void
  | .updateMetadata id metadata => (Collection.updateMetadata id metadata).void
  | .updateVector id vector => (Collection.updateVector id vector).void
  | .delete id => (Collection.delete id).void
  | .deleteBatch ids => (Collection.deleteBatch ids).void
  | .checkpoint => Collection.checkpointNow
  | .rebuildIndex => Collection.rebuildIndex
  | .compact => Collection.compact.void

/-- Only compaction has blocks of its own. -/
theorem Call.admitted [Env] {B : List Effect → Prop} [Admits B] {call : Call}
    (h : call ≠ .compact) : EmitsBlocks B call.run := by
  cases call with
  | insert doc => exact .bind (Collection.blocks_insert doc) fun _ => .pure _
  | insertBatch docs => exact .bind (Collection.blocks_insertBatch docs) fun _ => .pure _
  | upsert doc => exact .bind (Collection.blocks_upsert doc) fun _ => .pure _
  | updateMetadata id metadata =>
      exact .bind (Collection.blocks_updateMetadata id metadata) fun _ => .pure _
  | updateVector id vector =>
      exact .bind (Collection.blocks_updateVector id vector) fun _ => .pure _
  | delete id => exact .bind (Collection.blocks_delete id) fun _ => .pure _
  | deleteBatch ids => exact .bind (Collection.blocks_deleteBatch ids) fun _ => .pure _
  | checkpoint => exact Collection.blocks_checkpointNow
  | rebuildIndex => exact Collection.blocks_rebuildIndex
  | compact => exact absurd rfl h

theorem Call.blocks [Env] (call : Call) : Blocks call.run := by
  by_cases h : call = .compact
  · subst h
    exact .bind Collection.blocks_compact fun _ => .pure _
  · exact Call.admitted h

/-! ## Rules -/

section

variable {C : Disk → Prop} {R : Fault → Session → Disk → Prop} {s : Session} {d : Disk}

@[simp] theorem wp_self {Q : Collection → Session → Disk → Prop} :
    wp self C Q R s d ↔ Q s.coll s d := wp_asks

@[simp] theorem wp_update {f : Collection → Collection} {Q : Unit → Session → Disk → Prop} :
    wp (update f) C Q R s d ↔ Q () { s with coll := f s.coll } d := wp_modify

@[simp] theorem wp_void {α : Type} {p : CollM α} {Q : Unit → Session → Disk → Prop} :
    wp p.void C Q R s d ↔ wp p C (fun _ => Q ()) R s d := by
  simp [void]

@[simp] theorem wp_draw [Env] {Q : Chance → Session → Disk → Prop} :
    wp (draw : CollM Chance) C Q R s d ↔
      Q (Env.chance s.draws) { s with draws := s.draws + 1 } d := by
  simp [draw, Counting.count, Counting.next]

@[simp] theorem ensures_self {Q : Collection → Session → Disk → Prop} :
    ensures self Q s d ↔ Q s.coll s d := wp_self

@[simp] theorem ensures_update {f : Collection → Collection} {Q : Unit → Session → Disk → Prop} :
    ensures (update f) Q s d ↔ Q () { s with coll := f s.coll } d := wp_update

@[simp] theorem ensures_draw [Env] {Q : Chance → Session → Disk → Prop} :
    ensures (draw : CollM Chance) Q s d ↔
      Q (Env.chance s.draws) { s with draws := s.draws + 1 } d := wp_draw

variable [Env]

/-- The disk once the log has appended an entry. -/
def Disk.logged (d : Disk) (wal : Wal) (entry : WalEntry) : Disk :=
  if wal.file then
    d.put .wal (some (d.read .wal ++ Wal.line (Env.walEntry.encode (entry.withSeq wal.nextSeq))))
  else d

/-- The collection once its log has numbered an entry. -/
def Collection.logged (c : Collection) : Collection :=
  { c with checkpoint :=
      { c.checkpoint with wal := { c.checkpoint.wal with nextSeq := c.checkpoint.wal.nextSeq + 1 } } }

theorem Disk.logged_other {d : Disk} {wal : Wal} {entry : WalEntry} {f : CollFile}
    (h : f ≠ .wal) : d.logged wal entry f = d f := by
  rw [Disk.logged]
  split
  · exact Disk.put_other d h _
  · rfl

theorem Collection.wp_logEntry {entry : WalEntry} {Q : Unit → Session → Disk → Prop}
    (hC : C (d.logged s.coll.checkpoint.wal entry))
    (hQ : Q () { s with coll := s.coll.logged } (d.logged s.coll.checkpoint.wal entry)) :
    wp (Collection.logEntry entry) C Q R s d := by
  simp only [Collection.logEntry, Wal.log, wp_bind, wp_self, wp_when, wp_emit, wp_pure, wp_update,
    Effect.apply_append]
  constructor
  · intro hfile
    rw [Disk.logged, if_pos hfile] at hC hQ
    exact ⟨hC, hQ⟩
  · intro hfile
    rw [Disk.logged, if_neg hfile] at hQ
    exact hQ

end
