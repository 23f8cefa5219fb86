-- SUMMARY: The flat index: the list of ids it has seen, all of which a search scores.
import Piramid.Config
import Piramid.Index.Reader

/-- `index::flat::FlatIndex`. -/
structure FlatIndex where
  config : FlatConfig
  vectorIds : List Uuid
deriving DecidableEq

namespace FlatIndex

def new (config : FlatConfig) : FlatIndex := ⟨config, []⟩

def insert (ix : FlatIndex) (id : Uuid) : FlatIndex :=
  if id ∈ ix.vectorIds then ix else { ix with vectorIds := ix.vectorIds ++ [id] }

def remove (ix : FlatIndex) (id : Uuid) : FlatIndex :=
  { ix with vectorIds := ix.vectorIds.filter (· ≠ id) }

def search [Floats] (ix : FlatIndex) (query : Vector32) (k : Nat) (vectors : VectorReader) :
    Except Fault (List Uuid) := do
  let distances ← ix.vectorIds.mapM (vectors.score "Flat" ix.config.metric ix.config.mode query)
  let distances ← sortByScore distances
  pure ((distances.take k).map Prod.fst)

/-- The ids a search can return. -/
def trackedIds (ix : FlatIndex) : Finset Uuid := ix.vectorIds.toFinset

theorem trackedIds_insert (ix : FlatIndex) (id : Uuid) :
    (ix.insert id).trackedIds = Insert.insert id ix.trackedIds := by
  rw [insert]
  split
  · rename_i h
    rw [Finset.insert_eq_of_mem (by simpa [trackedIds] using h)]
  · ext id'
    simp [trackedIds]

theorem nodup_insert {ix : FlatIndex} (h : ix.vectorIds.Nodup) (id : Uuid) :
    (ix.insert id).vectorIds.Nodup := by
  unfold insert
  split
  · exact h
  · rename_i hid
    refine List.nodup_append'.mpr ⟨h, List.nodup_singleton id, ?_⟩
    exact List.disjoint_singleton.mpr hid

theorem trackedIds_remove (ix : FlatIndex) (id : Uuid) :
    (ix.remove id).trackedIds = ix.trackedIds.erase id := by
  ext id'
  simp [trackedIds, remove, and_comm]

end FlatIndex
