-- SUMMARY: Saving and loading the sidecar files: offset index, vector index, metadata.
import Piramid.Storage.Disk

/-!
# Sidecar files

Three writers that replace a file with `fs::write`, and their loaders. A missing
file is not an error.
-/

section

variable [Env] {σ : Type}

def saveIndex (index : OffsetIndex) : Io σ Unit :=
  Prog.emit (.write .index (Env.offsetIndex.encode index))

def loadIndex (path : String) : Io σ OffsetIndex := do
  let d ← Prog.device
  match d .index with
  | none => pure ∅
  | some bytes =>
    match Env.offsetIndex.decode bytes with
    | .ok index => pure index
    | .error e => fail (.storage (.corruptedIndex
        ("failed to decode " ++ path ++ ".index.db: " ++ e)))

def saveVectorIndex (index : VectorIndex) : Io σ Unit :=
  Prog.emit (.write .vecindex (Env.vectorIndex.encode index))

def loadVectorIndex : Io σ (Option VectorIndex) := do
  let d ← Prog.device
  match d .vecindex with
  | none => pure none
  | some bytes =>
    match Env.vectorIndex.decode bytes with
    | .ok index => pure (some index)
    | .error e => fail (.serialization e)

def saveMetadata (metadata : CollectionMetadata) : Io σ Unit :=
  Prog.emit (.write .metadata (Env.collectionMetadata.encode metadata))

def loadMetadata : Io σ (Option CollectionMetadata) := do
  let d ← Prog.device
  match d .metadata with
  | none => pure none
  | some bytes =>
    match Env.collectionMetadata.decode bytes with
    | .error e => fail (.storage (.corruptedData ("Failed to read metadata: " ++ e)))
    | .ok metadata =>
      if metadata.schemaVersion ≠ SCHEMA_VERSION then
        fail (.storage (.corruptedData ("Schema version mismatch: expected " ++
          toString SCHEMA_VERSION ++ ", found " ++ toString metadata.schemaVersion)))
      else pure (some metadata)

/-- The length of a file. -/
def fileLen (f : CollFile) : Io σ Nat := do
  let d ← Prog.device
  pure (d.read f).length

end
