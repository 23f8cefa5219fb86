-- SUMMARY: The vectors an index is handed to compute distances with.
import Piramid.Document
import Piramid.Sorting

/-!
# Vector readers

Both implementations of `VectorReader` are a hash map: the cache of a collection,
or the vectors collected for a rebuild. An iteration goes in the order of that
map.
-/

/-- `index::VectorReader`. -/
structure VectorReader where
  vectors : HashMap Uuid Vector32
  order : HashOrder Uuid

namespace VectorReader

def get (r : VectorReader) (id : Uuid) : Option Vector32 := r.vectors.lookup id

def iter (r : VectorReader) : List (Uuid × Vector32) := r.order.entries r.vectors

def len (r : VectorReader) : Nat := r.vectors.len

/-- Every vector has `dim` components. -/
def Uniform (dim : Nat) (r : VectorReader) : Prop :=
  ∀ id v, r.get id = some v → v.length = dim

theorem Uniform.iter {dim : Nat} {r : VectorReader} (h : r.Uniform dim) :
    ∀ e ∈ r.iter, e.2.length = dim := by
  rintro ⟨id, v⟩ he
  exact h id v ((HashOrder.mem_entries _ _ _ _).mp he)

theorem length_iter (r : VectorReader) : r.iter.length = r.len :=
  HashOrder.length_entries _ _

end VectorReader

/-! ## Scores -/

section

variable [Floats]

/-- `sort_by(|a, b| b.1.partial_cmp(&a.1).unwrap_or(Ordering::Equal))`. -/
def sortByScore {α : Type} (scored : List (α × F32)) : Except Fault (List (α × F32)) :=
  sortBy .descending Prod.snd scored

/-- The score of an id that the index called `name` lists. -/
def VectorReader.score (vectors : VectorReader) (name : String) (metric : Metric)
    (mode : ExecutionMode) (query : Vector32) (id : Uuid) : Except Fault (Uuid × F32) :=
  match vectors.get id with
  | none => .error (.searchFailed (name ++ " index references missing vector " ++ id.display))
  | some vec => do
    let score ← metric.calculate query vec mode
    pure (id, score)

end
