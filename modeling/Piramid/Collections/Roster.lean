-- SUMMARY: The ids that a collection has stored, indexed and cached, and what the steps of its writes do to them.
import Piramid.Collections.Frames
import Piramid.Collections.Maintenance

/-!
# Rosters

The ids of a collection are kept three times: in the offset index, in the vector index, and
in the cache that the vector index reads. An insertion and a removal change all three.
-/

open Loop Prog

/-! ## Lists of an IVF index -/

namespace VectorIndex

/-- Every centroid of an IVF index has its list. -/
def Listed : VectorIndex → Prop
  | .flat _ | .hnsw _ => True
  | .ivf ix => ix.Listed

theorem Listed.remove {ix : VectorIndex} (h : ix.Listed) (id : Uuid) (order : HashOrder Uuid) :
    (ix.remove id order).Listed := by
  cases ix with
  | flat ix => trivial
  | hnsw ix => trivial
  | ivf ix => exact IvfIndex.listed_remove h id

end VectorIndex

/-! ## Rosters -/

/-- The ids that are stored, the vector index, and the ids whose vectors are cached. -/
structure Roster where
  stored : Finset Uuid
  index : VectorIndex
  cached : Finset Uuid

def Session.roster (s : Session) : Roster :=
  ⟨s.coll.index.keys, s.coll.vectorIndex, s.coll.cache.vectors.keys⟩

/-- A program that leaves the roster as it is. -/
abbrev Unlisted {α : Type} (p : CollM α) : Prop := Leaves Session.roster .index p

namespace Roster

/-- An id is stored and cached, and then inserted into the vector index. -/
def Adds [Floats] (id : Uuid) (r r' : Roster) : Prop :=
  r'.stored = insert id r.stored ∧ r'.cached = insert id r.cached ∧
    ∃ vector reader x, reader.vectors.keys = r'.cached ∧
      r.index.insert id vector reader x = .ok r'.index

/-- An id is removed. A graph keeps its vector. -/
def Drops (id : Uuid) (r r' : Roster) : Prop :=
  r'.stored = r.stored.erase id ∧ (∃ order, r'.index = r.index.remove id order) ∧
    r'.cached = if r'.index.indexType ≠ .hnsw then r.cached.erase id else r.cached

end Roster

namespace Collection

variable [Env] {s : Session} {d : Disk}

omit [Env] in
theorem ensures_unlisted {α : Type} {p : CollM α} (h : Unlisted p) {Q : α → Session → Disk → Prop}
    (hQ : ∀ a s' d', s'.roster = s.roster → Q a s' d') : ensures p Q s d :=
  ensures_of_wp (h.wp (C := fun _ => True) (R := fun _ _ _ => True) (fun _ _ => trivial)
    (fun a s' d' hs _ => hQ a s' d' hs) fun _ _ _ _ _ => trivial)

omit [Env] in
theorem unlisted_appendRecord (bytes : Bytes) : Unlisted (appendRecord bytes) := by
  refine .bind (.asks _) fun c => .bind ?_ fun _ => .bind (.modify fun _ => rfl) fun _ => .pure _
  exact .bind (c.recordStore.leaves_growMmapIfNeeded (StoreFile.file_ne_index _) _) fun _ =>
    .bind (RecordStore.leaves_writeAt _ (StoreFile.file_ne_index _) _ _) fun _ => .pure _

theorem ensures_insertInternal_adds {doc : Document} {Q : Uuid → Session → Disk → Prop}
    (hQ : ∀ s' d', Roster.Adds doc.id s.roster s'.roster → Q doc.id s' d') :
    ensures (insertInternal doc) Q s d := by
  simp only [insertInternal, Document.getVector, ensures_bind, ensures_self, ensures_ofExcept]
  intro _ _
  refine ensures_unlisted (unlisted_appendRecord _) fun p s₁ d₁ h₁ => ?_
  simp only [setDimensions, checkDimensions, indexVector, updateVectorCount, ensures_bind, ensures_self,
    ensures_update, ensures_draw, ensures_pure, ensures_ofExcept,
    CollectionMetadata.setDimensions_dimensions]
  intro _ _ ix hix
  refine hQ _ _ ?_
  rw [← h₁]
  refine ⟨HashMap.keys_insert _ _ _, ?_, _, _, _, rfl, hix⟩
  unfold Session.roster
  simp only [CacheManager.vectors_putMetadata, CacheManager.vectors_putVector, HashMap.keys_insert]

theorem ensures_deleteInternal_drops_roster {id : Uuid} {Q : Unit → Session → Disk → Prop}
    (hQ : ∀ s' d', Roster.Drops id s.roster s'.roster → Q () s' d') :
    ensures (deleteInternal id) Q s d := by
  simp only [deleteInternal, updateVectorCount, ensures_bind, ensures_draw, ensures_update]
  refine hQ _ _ ⟨Finmap.keys_erase _ _, ⟨_, rfl⟩, ?_⟩
  unfold Session.roster
  rw [CacheManager.vectors_remove]
  simp only [decide_eq_true_eq]
  split
  · exact Finmap.keys_erase _ _
  · rfl

theorem ensures_rebuildVectorCache_roster {Q : Unit → Session → Disk → Prop}
    (hQ : ∀ s', s'.roster.stored = s.roster.stored → s'.roster.index = s.roster.index → Q () s' d) :
    ensures rebuildVectorCache Q s d := by
  simp only [rebuildVectorCache, ensures_bind, ensures_draw, ensures_self, ensures_device,
    ensures_ofExcept, ensures_update]
  exact fun _ _ => hQ _ rfl rfl

end Collection
