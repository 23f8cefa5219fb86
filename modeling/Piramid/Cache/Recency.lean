-- SUMMARY: What a cache holds after any operations: the metadata put last, in the order it was put.
import Piramid.Base.Recency
import Piramid.Cache

/-!
# Runs of the cache

The map and the queue of a cache are updated separately. Together they stand for one
queue of bindings, so that what they hold can be read off the operations.
-/

open Recency

/-! ## A map and a queue -/

section

variable {κ ν : Type} [DecidableEq κ]

/-- The map has the bindings of the queue. -/
def HashMap.Represents (m : HashMap κ ν) (queue : List (κ × ν)) : Prop :=
  ∀ k v, m.lookup k = some v ↔ (k, v) ∈ queue

namespace HashMap.Represents

variable {m : HashMap κ ν} {queue : List (κ × ν)}

theorem empty : HashMap.Represents (∅ : HashMap κ ν) [] := fun k v => by simp

theorem mem_keys (h : m.Represents queue) (k : κ) : k ∈ m.keys ↔ k ∈ queue.map Prod.fst := by
  rw [HashMap.mem_keys_iff]
  constructor
  · rintro ⟨v, hv⟩
    exact List.mem_map_of_mem ((h k v).mp hv)
  · intro hk
    obtain ⟨⟨k', v⟩, hin, rfl⟩ := List.mem_map.mp hk
    exact ⟨v, (h k' v).mpr hin⟩

theorem keys_eq (h : m.Represents queue) : m.keys = (queue.map Prod.fst).toFinset := by
  ext k
  rw [h.mem_keys, List.mem_toFinset]

theorem len_eq (h : m.Represents queue) (hnodup : (queue.map Prod.fst).Nodup) : m.len = queue.length := by
  unfold HashMap.len
  rw [h.keys_eq, List.toFinset_card_of_nodup hnodup, List.length_map]

theorem erase (h : m.Represents queue) (k : κ) :
    HashMap.Represents (m.erase k) (queue.filter (·.1 ≠ k)) := by
  intro k' v
  rw [HashMap.lookup_erase, List.mem_filter, ← h]
  by_cases hk : k' = k
  · simp [hk]
  · simp [hk]

theorem insert (h : m.Represents queue) (k : κ) (v : ν) :
    HashMap.Represents (m.insert k v) (queue.filter (·.1 ≠ k) ++ [(k, v)]) := by
  intro k' v'
  rw [HashMap.lookup_insert, List.mem_append, List.mem_filter, List.mem_singleton, Prod.mk.injEq, ← h]
  by_cases hk : k' = k
  · simp [hk, eq_comm]
  · simp [hk]

/-- The first binding of a queue goes. -/
theorem erase_head {k : κ} {v : ν} (h : m.Represents ((k, v) :: queue))
    (hnodup : (((k, v) :: queue).map Prod.fst).Nodup) : HashMap.Represents (m.erase k) queue := by
  have hout : k ∉ queue.map Prod.fst := (List.nodup_cons.mp hnodup).1
  have hrest : ((k, v) :: queue).filter (·.1 ≠ k) = queue := by
    rw [List.filter_cons_of_neg (by simp)]
    refine List.filter_eq_self.mpr fun entry hentry => decide_eq_true fun heq => hout ?_
    rw [← heq]
    exact List.mem_map_of_mem hentry
  rw [← hrest]
  exact h.erase k

end HashMap.Represents

end

/-! ## Operations -/

/-- The operations that change a cache. -/
inductive CacheOp where
  | putVector (id : Uuid) (vector : Vector32)
  | putMetadata (id : Uuid) (metadata : Metadata)
  | remove (id : Uuid) (removeVector : Bool)
  | clearMetadata
  | clearAll

namespace CacheOp

def perform (cache : CacheManager) : CacheOp → CacheManager
  | .putVector id vector => cache.putVector id vector
  | .putMetadata id metadata => cache.putMetadata id metadata
  | .remove id removeVector => cache.remove id removeVector
  | .clearMetadata => cache.clearMetadata
  | .clearAll => cache.clearAll

/-- What the operation is for the metadata. -/
def event : CacheOp → Option (Event Uuid Metadata)
  | .putVector _ _ => none
  | .putMetadata id metadata => some (.put id metadata)
  | .remove id _ => some (.remove id)
  | .clearMetadata | .clearAll => some .clear

/-- The operation takes the metadata of the id away by itself. -/
def Drops (id : Uuid) : CacheOp → Prop
  | .remove id' _ => id' = id
  | .clearMetadata | .clearAll => True
  | .putVector _ _ | .putMetadata _ _ => False

end CacheOp

namespace CacheManager

variable {config : CacheConfig} {cache : CacheManager} {queue : List (Uuid × Metadata)}

/-- The cache after the operations. -/
def performed (config : CacheConfig) (ops : List CacheOp) : CacheManager :=
  ops.foldl CacheOp.perform (new config)

/-- The operations as the metadata sees them. -/
def events (ops : List CacheOp) : List (Event Uuid Metadata) := ops.filterMap CacheOp.event

/-- Evicting drops bindings at the front of the queue. -/
theorem evict_represents (maxSize : Nat) {metadata : HashMap Uuid Metadata}
    (h : metadata.Represents queue) (hnodup : (queue.map Prod.fst).Nodup) :
    (evict maxSize (queue.map Prod.fst) metadata).1 = (queue.drop (queue.length - maxSize)).map Prod.fst ∧
      (evict maxSize (queue.map Prod.fst) metadata).2.Represents (queue.drop (queue.length - maxSize)) := by
  induction queue generalizing metadata with
  | nil => exact ⟨by simp [evict], by simpa [evict] using h⟩
  | cons entry queue ih =>
      obtain ⟨id, md⟩ := entry
      have hlen : metadata.len = queue.length + 1 := h.len_eq hnodup
      rw [List.map_cons, evict, hlen, List.length_cons]
      by_cases hmany : queue.length + 1 > maxSize
      · rw [if_pos hmany]
        have hdrop : queue.length + 1 - maxSize = (queue.length - maxSize) + 1 := by omega
        rw [hdrop, List.drop_succ_cons]
        exact ih (h.erase_head hnodup) (List.nodup_cons.mp hnodup).2
      · rw [if_neg hmany]
        have hdrop : queue.length + 1 - maxSize = 0 := by omega
        rw [hdrop]
        exact ⟨rfl, h⟩

/-- The map and the queue of the cache stand for one queue of bindings. -/
structure Queued (cache : CacheManager) (queue : List (Uuid × Metadata)) : Prop where
  order : cache.metadataOrder = queue.map Prod.fst
  metadata : cache.metadata.Represents queue

namespace Queued

theorem enforceItemLimit (h : cache.Queued queue) (hnodup : (queue.map Prod.fst).Nodup) :
    cache.enforceItemLimit.Queued (queue.drop (queue.length - cache.config.maxSize)) := by
  unfold CacheManager.enforceItemLimit
  split
  · rename_i hzero
    rw [hzero, Nat.sub_zero, List.drop_length]
    exact ⟨rfl, HashMap.Represents.empty⟩
  · obtain ⟨horder, hmetadata⟩ := evict_represents cache.config.maxSize h.metadata hnodup
    rw [← h.order] at horder hmetadata
    exact ⟨horder, hmetadata⟩

theorem filter (h : cache.Queued queue) (id : Uuid) :
    cache.metadataOrder.filter (· ≠ id) = (queue.filter (·.1 ≠ id)).map Prod.fst := by
  rw [h.order, List.filter_map]
  rfl

theorem putMetadata (h : cache.Queued queue) (henabled : cache.config.enabled = true)
    {ops : List CacheOp} (hholds : Holds (events ops) queue) (id : Uuid) (metadata : Metadata) :
    (cache.putMetadata id metadata).Queued (Recency.put cache.config.maxSize id metadata queue) := by
  unfold CacheManager.putMetadata
  rw [henabled, Bool.not_true, if_neg Bool.false_ne_true]
  have hput : Queued { cache with
      metadataOrder := cache.metadataOrder.filter (· ≠ id) ++ [id]
      metadata := cache.metadata.insert id metadata } (queue.filter (·.1 ≠ id) ++ [(id, metadata)]) := by
    refine ⟨?_, h.metadata.insert id metadata⟩
    rw [h.filter, List.map_append]
    rfl
  exact hput.enforceItemLimit (hholds.put id metadata).nodup

end Queued

end CacheManager
