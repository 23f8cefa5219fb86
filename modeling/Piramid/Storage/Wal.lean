-- SUMMARY: The write-ahead log: header, logging, replay, rotation, and the sequence number kept beside it.
import Piramid.Base.Lines
import Piramid.Storage.Persistence

/-!
# The write-ahead log

One line of JSON for each entry, after a header line. Lines are read as bytes: a
line that is not UTF-8 is one no decoder accepts.
-/

/-- `storage::wal::Wal`. A disabled log has no file. -/
structure Wal where
  file : Bool
  nextSeq : Nat
deriving DecidableEq

namespace Wal

variable [Env] {σ : Type}

/-- `writeln!(writer, "{}", json)`. -/
def line (json : Bytes) : Bytes := json ++ [Lines.lf]

def ensureHeader (wal : Wal) : Io σ Unit :=
  if !wal.file then pure ()
  else do
    let len ← fileLen .wal
    Prog.when (len = 0) (Prog.emit (.append .wal (line (Env.walHeader.encode ⟨WAL_VERSION⟩))))

/-- `Wal::new`. -/
def new (nextSeq : Nat) : Io σ Wal := do
  Prog.emit (.create .wal)
  ensureHeader ⟨true, nextSeq⟩
  pure ⟨true, nextSeq⟩

/-- `Wal::disabled`. -/
def disabled (nextSeq : Nat) : Wal := ⟨false, nextSeq⟩

/-- One line of the log: nothing for an empty line, the header and an entry
numbered at most `minSeq`. -/
def readLine (minSeq : Nat) (text : Bytes) : Except Fault (Option WalEntry) :=
  if text = [] then .ok none
  else
    match Env.walHeader.decode text with
    | .ok header =>
      if header.version ≠ WAL_VERSION then
        .error (.error (.other ("Unsupported WAL version " ++ toString header.version ++
          ", expected " ++ toString WAL_VERSION)))
      else .ok none
    | .error _ =>
      match Env.walEntry.decode text with
      | .error e => .error (.error (.json e))
      | .ok entry => if entry.seq ≤ minSeq then .ok none else .ok (some entry)

/-- The entries numbered above `minSeq` in the contents of a log. -/
def entriesOf (minSeq : Nat) (contents : Bytes) : Except Fault (List WalEntry) := do
  let entries ← (Lines.lines contents).mapM (readLine minSeq)
  pure (entries.filterMap id)

def replay (wal : Wal) (minSeq : Nat) : Io σ (List WalEntry) :=
  if !wal.file then pure []
  else do
    let d ← Prog.device
    Prog.ofExcept (entriesOf minSeq (d.read .wal))

def log (wal : Wal) (entry : WalEntry) : Io σ Wal := do
  let entry := entry.withSeq wal.nextSeq
  Prog.when wal.file (Prog.emit (.append .wal (line (Env.walEntry.encode entry))))
  pure { wal with nextSeq := wal.nextSeq + 1 }

/-- `Wal::checkpoint`. -/
def checkpoint (wal : Wal) (timestamp : Nat) : Io σ Wal := wal.log (.checkpoint timestamp 0)

def rotate (wal : Wal) : Io σ Unit :=
  if !wal.file then pure ()
  else do
    Prog.emit (.truncate .wal)
    Prog.emit (.sync .wal)
    wal.ensureHeader

/-! ## The last checkpointed sequence number -/

def loadWalMeta : Io σ Nat := do
  let d ← Prog.device
  match d .walMeta with
  | none => pure 0
  | some bytes =>
    match Env.walMeta.decode bytes with
    | .error e => fail (.json e)
    | .ok walMeta => pure walMeta.lastCheckpointSeq

def saveWalMeta (lastCheckpointSeq : Nat) : Io σ Unit := do
  Prog.emit (.write .walMetaTmp (Env.walMeta.encode ⟨lastCheckpointSeq⟩))
  Prog.emit (.rename .walMetaTmp .walMeta)
  Prog.emit (.sync .walMeta)

end Wal
