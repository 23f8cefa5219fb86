-- SUMMARY: What the collection layer takes from outside: encodings, random numbers, iteration orders and the time.
import Piramid.Index.Selector

/-!
# The environment

`bincode` and `serde_json` are parameters, and so is everything that differs from
one run to the next. The order a hash map is iterated in shows in the bytes it is
encoded to; here these bytes are a function of the map, and all that is ever
relied on is that they decode to it.
-/

abbrev Bytes : Type := List UInt8

/-- A serialization format for `α`. -/
structure Codec (α : Type) where
  encode : α → Bytes
  decode : Bytes → Except String α

/-- What one draw from the outside yields. -/
structure Chance where
  /-- `rand::random::<f32>()`. -/
  random : F32
  /-- The order a hash map keyed by ids is iterated in. -/
  order : HashOrder Uuid
  /-- Seconds since the epoch. -/
  now : Nat

/-- `storage::wal::WalEntry`. An insert and an update carry the fields of a document. -/
inductive WalEntry where
  | insert (doc : Document) (seq : Nat)
  | update (doc : Document) (seq : Nat)
  | delete (id : Uuid) (seq : Nat)
  | checkpoint (timestamp seq : Nat)

namespace WalEntry

def seq : WalEntry → Nat
  | .insert _ seq | .update _ seq | .delete _ seq | .checkpoint _ seq => seq

def withSeq (entry : WalEntry) (seq : Nat) : WalEntry :=
  match entry with
  | .insert doc _ => .insert doc seq
  | .update doc _ => .update doc seq
  | .delete id _ => .delete id seq
  | .checkpoint timestamp _ => .checkpoint timestamp seq

@[simp] theorem seq_withSeq (entry : WalEntry) (seq : Nat) : (entry.withSeq seq).seq = seq := by
  cases entry <;> rfl

/-- The document an entry carries. -/
def document? : WalEntry → Option Document
  | .insert doc _ | .update doc _ => some doc
  | .delete _ _ | .checkpoint _ _ => none

@[simp] theorem document?_withSeq (entry : WalEntry) (seq : Nat) :
    (entry.withSeq seq).document? = entry.document? := by
  cases entry <;> rfl

/-- The document that the entry carries, if it carries one, satisfies `P`. -/
def Carries (P : Document → Prop) (entry : WalEntry) : Prop := ∀ doc, entry.document? = some doc → P doc

theorem Carries.withSeq {P : Document → Prop} {entry : WalEntry} (h : entry.Carries P) (seq : Nat) :
    (entry.withSeq seq).Carries P := by
  intro doc hdoc
  exact h doc (by simpa using hdoc)

end WalEntry

/-- The first line of a log. -/
structure WalHeader where
  version : Nat
deriving DecidableEq

def WAL_VERSION : Nat := 1

/-- The contents of `wal.meta`. -/
structure WalMeta where
  lastCheckpointSeq : Nat
deriving DecidableEq

/-- The environment of a run. -/
class Env extends Floats where
  document : Codec Document
  offsetIndex : Codec OffsetIndex
  vectorIndex : Codec VectorIndex
  collectionMetadata : Codec CollectionMetadata
  walHeader : Codec WalHeader
  walEntry : Codec WalEntry
  walMeta : Codec WalMeta
  /-- What the `n`-th draw yields. -/
  chance : Nat → Chance

/-- What is written for the entry is read as the entry. -/
def WalEntry.Legible [Env] (entry : WalEntry) : Prop :=
  Env.walEntry.decode (Env.walEntry.encode entry) = .ok entry

/-- What is logged about the document is read as it was logged. -/
def Document.Legible [Env] (doc : Document) : Prop :=
  ∀ entry : WalEntry, entry.document? = some doc → entry.Legible

namespace Codec

variable {α : Type}

/-- Decoding undoes encoding. -/
def RoundTrips (codec : Codec α) : Prop := ∀ a, codec.decode (codec.encode a) = .ok a

/-- Bytes the decoder refuses. -/
def Rejects (codec : Codec α) (bytes : Bytes) : Prop := ∀ a, codec.decode bytes ≠ .ok a

end Codec
