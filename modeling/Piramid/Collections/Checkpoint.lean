-- SUMMARY: Checkpoints: writing the sidecars, dropping the log, and when an operation triggers one.
import Piramid.Collections.Collection

namespace Collection

variable [Env]

/-- `checkpoint::checkpoint`. -/
def checkpointNow : CollM Unit := do
  let chance ← draw
  let c ← self
  saveIndex c.index
  saveVectorIndex c.vectorIndex
  saveMetadata c.metadata
  Prog.when c.config.wal.enabled do
    let wal ← c.checkpoint.wal.checkpoint chance.now
    update fun c => { c with
      checkpoint := { c.checkpoint with wal, lastCheckpointTs := some chance.now } }
    Wal.saveWalMeta (wal.nextSeq - 1)
    wal.rotate

/-- The time-based trigger of `track_operation`. -/
def intervalDue (c : Collection) (now : Nat) : Bool :=
  match c.checkpoint.lastCheckpointTs, c.config.wal.checkpointIntervalSecs with
  | some last, some interval => decide (now - last ≥ interval)
  | _, _ => false

/-- The operation being tracked triggers a checkpoint at time `now`. -/
def checkpointDue (c : Collection) (now : Nat) : Bool :=
  (c.checkpoint.shouldCheckpoint c.config.wal).1 || c.intervalDue now

def trackOperation : CollM Unit := do
  let chance ← draw
  let c ← self
  update fun c => { c with checkpoint := (c.checkpoint.shouldCheckpoint c.config.wal).2 }
  Prog.when (c.checkpointDue chance.now) do
    checkpointNow
    update fun c => { c with checkpoint := c.checkpoint.resetCounter }

end Collection
