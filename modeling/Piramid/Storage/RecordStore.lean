-- SUMMARY: The record store: appending encoded documents to the data file and reading them back.
import Mathlib.Algebra.GroupWithZero.Nat
import Mathlib.Order.Lattice.Nat
import Piramid.Storage.Persistence

/-!
# The record store

Records are appended at a cursor. Opening a store puts the cursor behind the last
record the offset index still points to.
-/

/-- `storage::RecordStore`. A memory map is the length it was made with. -/
structure RecordStore where
  dataFile : StoreFile
  mmap : Option Nat
  appendCursor : Nat

namespace RecordStore

def nextAppendOffset (index : OffsetIndex) : Nat :=
  index.keys.sup fun id => ((index.lookup id).map EntryPointer.stop).getD 0

def initialSize (config : CollectionConfig) : Nat :=
  if config.memory.useMmap then config.memory.initialMmapSize else 1024 * 1024

section

variable {σ : Type}

def ensureFileSize (f : StoreFile) (minSize : Nat) : Io σ Unit := do
  let currentSize ← fileLen f
  Prog.when (currentSize < minSize) (Prog.emit (.setLen f minSize))

/-- `RecordStore::open`. -/
def openFile (f : StoreFile) (config : CollectionConfig) (index : OffsetIndex) :
    Io σ RecordStore := do
  Prog.emit (.create f)
  ensureFileSize f (initialSize config)
  let size ← fileLen f
  pure {
    dataFile := f
    mmap := if config.memory.useMmap then some size else none
    appendCursor := nextAppendOffset index }

def growMmapIfNeeded (store : RecordStore) (requiredSize : Nat) : Io σ RecordStore := do
  let fileSize ← fileLen store.dataFile
  if requiredSize > store.mmap.getD fileSize then do
    Prog.emit (.setLen store.dataFile (requiredSize * 2))
    pure { store with mmap := store.mmap.map fun _ => requiredSize * 2 }
  else pure store

def writeAt (store : RecordStore) (offset : Nat) (bytes : Bytes) : Io σ Unit :=
  match store.mmap with
  | some len =>
    if offset + bytes.length ≤ len then Prog.emit (.store store.dataFile offset bytes)
    else Prog.fault (.panic ("range end index " ++ toString (offset + bytes.length) ++
      " out of range for slice of length " ++ toString len))
  | none => Prog.emit (.store store.dataFile offset bytes)

def append (store : RecordStore) (bytes : Bytes) : Io σ (EntryPointer × RecordStore) := do
  let offset := store.appendCursor
  let requiredSize := offset + bytes.length
  let store ← store.growMmapIfNeeded requiredSize
  store.writeAt offset bytes
  pure (.new offset bytes.length, { store with appendCursor := requiredSize })

/-- The loop of `append_batch`. -/
def appendEach (store : RecordStore) :
    List (Uuid × Bytes) → Io σ (List EntryPointer × RecordStore)
  | [] => pure ([], store)
  | (_, bytes) :: entries => do
    let offset := store.appendCursor
    store.writeAt offset bytes
    let (pointers, store) ←
      appendEach { store with appendCursor := store.appendCursor + bytes.length } entries
    pure (.new offset bytes.length :: pointers, store)

def appendBatch (store : RecordStore) (entries : List (Uuid × Bytes)) :
    Io σ (List EntryPointer × RecordStore) := do
  let totalBytes := (entries.map fun entry => entry.2.length).sum
  let store ← store.growMmapIfNeeded (store.appendCursor + totalBytes)
  store.appendEach entries

def usedBytes (store : RecordStore) : Nat := store.appendCursor

/-- `RecordStore::sync`. -/
def sync (store : RecordStore) : Io σ Unit := Prog.emit (.sync store.dataFile)

end

/-! ## Reading -/

def readBytes (store : RecordStore) (d : Disk) (pointer : EntryPointer) : Except PiramidError Bytes :=
  let mapped := store.mmap.any fun len => pointer.stop ≤ len
  let bytes := d.read store.dataFile
  if mapped ∨ pointer.length = 0 ∨ pointer.stop ≤ bytes.length then
    .ok (Extent.slice bytes pointer.offset pointer.length)
  else .error (.io "failed to fill whole buffer")

def describe (what : String) (pointer : EntryPointer) (reason : String) : String :=
  "failed to " ++ what ++ " document at offset " ++ toString pointer.offset ++ " length " ++
    toString pointer.length ++ ": " ++ reason

variable [Env]

/-- `RecordStore::encode_document`. -/
def encodeDocument (doc : Document) : Bytes := Env.document.encode doc

def readDocument (store : RecordStore) (d : Disk) (pointer : EntryPointer) :
    Except Fault Document :=
  match store.readBytes d pointer with
  | .error e => .error (.error (.storage (.readFailed (describe "read" pointer e.display))))
  | .ok bytes =>
    match Env.document.decode bytes with
    | .error e => .error (.error (.storage (.corruptedData (describe "decode" pointer e))))
    | .ok doc => .ok doc

end RecordStore
