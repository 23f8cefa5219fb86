-- SUMMARY: Documents, the metadata attached to them, and the records kept about a collection.
import Piramid.Base.HashMap
import Piramid.Compute

/-!
# Documents

Counters, sizes, offsets and timestamps (`usize`, `u64`) are natural numbers.
The `u32` length of an `EntryPointer` wraps where one is made.
-/

abbrev Uuid : Type := BitVec 128

/-- `Display for Uuid`: the hexadecimal digits, in groups of 8, 4, 4, 4 and 12. -/
def Uuid.display (id : Uuid) : String :=
  let digits := id.toHex.toList
  let group (off len : Nat) := String.ofList ((digits.drop off).take len)
  "-".intercalate [group 0 8, group 8 4, group 12 4, group 16 4, group 20 12]

/-- `metadata::MetadataValue`. -/
inductive MetadataValue where
  | string (s : String)
  | integer (i : Int)
  | float (f : F64)
  | boolean (b : Bool)
  | array (vs : List MetadataValue)
  | null

namespace MetadataValue

mutual

/-- Every float in the value is finite. -/
def isFinite : MetadataValue → Bool
  | .float f => f.isFinite
  | .array vs => allFinite vs
  | _ => true

def allFinite : List MetadataValue → Bool
  | [] => true
  | v :: vs => v.isFinite && allFinite vs

end

mutual

/-- How deep the JSON text of the value is nested. Every value but `null`, a bare string,
is an object with its tag; an array adds its brackets. -/
def nesting : MetadataValue → Nat
  | .array vs => 2 + nestings vs
  | .null => 0
  | _ => 1

def nestings : List MetadataValue → Nat
  | [] => 0
  | v :: vs => max v.nesting (nestings vs)

end

end MetadataValue

abbrev Metadata : Type := HashMap String MetadataValue

/-- `storage::Document`. -/
structure Document where
  id : Uuid
  vector : Vector32
  text : String
  metadata : Metadata

namespace Document

def getVector (doc : Document) : Vector32 := doc.vector

def tryGetVector (doc : Document) : Except Fault Vector32 := .ok doc.getVector

/-- Every float in the document is finite. -/
def Finite (doc : Document) : Prop :=
  (∀ x ∈ doc.vector, x.isFinite) ∧ ∀ k v, doc.metadata.lookup k = some v → v.isFinite

/-- The levels that `serde_json` descends at most. -/
def recursionLimit : Nat := 128

/-- A log line with the document stays above the recursion limit of the JSON parser. The
values of the metadata lie inside three objects: the tagged entry, its fields and the
metadata itself. -/
def Shallow (doc : Document) : Prop :=
  ∀ k v, doc.metadata.lookup k = some v → 3 + v.nesting < recursionLimit

end Document

/-- `persistence::EntryPointer`: where a record lies in the data file. -/
structure EntryPointer where
  offset : Nat
  length : Nat
deriving DecidableEq

namespace EntryPointer

/-- `EntryPointer::new(offset, length as u32)`. -/
def new (offset length : Nat) : EntryPointer := ⟨offset, length % 2 ^ 32⟩

def stop (p : EntryPointer) : Nat := p.offset + p.length

end EntryPointer

/-- The offset index: `HashMap<Uuid, EntryPointer>`. -/
abbrev OffsetIndex : Type := HashMap Uuid EntryPointer

def SCHEMA_VERSION : Nat := 1

/-- `storage::CollectionMetadata`. -/
structure CollectionMetadata where
  schemaVersion : Nat
  name : String
  createdAt : Nat
  updatedAt : Nat
  dimensions : Option Nat
  vectorCount : Nat
deriving DecidableEq

namespace CollectionMetadata

/-- `CollectionMetadata::new`, at time `now`. -/
def new (name : String) (now : Nat) : CollectionMetadata where
  schemaVersion := SCHEMA_VERSION
  name := name
  createdAt := now
  updatedAt := now
  dimensions := none
  vectorCount := 0

def touch (m : CollectionMetadata) (now : Nat) : CollectionMetadata :=
  { m with updatedAt := now }

def setDimensions (m : CollectionMetadata) (dimensions : Nat) : CollectionMetadata :=
  if m.dimensions.isNone then { m with dimensions := some dimensions } else m

def updateVectorCount (m : CollectionMetadata) (count now : Nat) : CollectionMetadata :=
  { m with vectorCount := count }.touch now

@[simp] theorem updateVectorCount_dimensions (m : CollectionMetadata) (count now : Nat) :
    (m.updateVectorCount count now).dimensions = m.dimensions := rfl

@[simp] theorem setDimensions_dimensions (m : CollectionMetadata) (n : Nat) :
    (m.setDimensions n).dimensions = some (m.dimensions.getD n) := by
  cases h : m.dimensions <;> simp [setDimensions, h]

@[simp] theorem setDimensions_vectorCount (m : CollectionMetadata) (n : Nat) :
    (m.setDimensions n).vectorCount = m.vectorCount := by
  rw [setDimensions]
  split <;> rfl

@[simp] theorem setDimensions_schemaVersion (m : CollectionMetadata) (n : Nat) :
    (m.setDimensions n).schemaVersion = m.schemaVersion := by
  rw [setDimensions]
  split <;> rfl

end CollectionMetadata

/-- `validate_dimensions`. -/
def validateDimensions (vector : Vector32) (expectedDim : Nat) : Except Fault Unit :=
  if vector.length ≠ expectedDim then
    .error (.invalidRequest ("Vector dimension mismatch: expected " ++ toString expectedDim ++
      ", got " ++ toString vector.length))
  else .ok ()
