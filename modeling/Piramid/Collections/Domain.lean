-- SUMMARY: Vectors that an index can be filled with: all of one length, and with distances that can be sorted.
import Piramid.Cache
import Piramid.Index.Selector

/-!
# Vectors of a domain

A graph sorts nodes by their distances while it is filled, and a sort may panic where
distances are no numbers. Which vectors keep clear of that depends on the metric: the
results about a collection take it as a domain that all its vectors are in.
-/

open Loop

/-- Vectors of `dim` components, of a kind that is left open. -/
structure VectorDomain where
  dim : Nat
  admits : Vector32 → Prop

namespace VectorDomain

/-- The vector is in the domain. -/
structure Has (dom : VectorDomain) (vector : Vector32) : Prop where
  length : vector.length = dom.dim
  admits : dom.admits vector

/-- All vectors that can be read are in the domain. -/
def Reads (dom : VectorDomain) (vectors : VectorReader) : Prop :=
  ∀ id v, vectors.get id = some v → dom.Has v

variable {dom : VectorDomain}

theorem Reads.uniform {vectors : VectorReader} (h : dom.Reads vectors) : vectors.Uniform dom.dim :=
  fun id v hv => (h id v hv).length

end VectorDomain

/-! ## Graphs -/

section

variable [Floats] {dom : VectorDomain}

namespace HnswIndex

/-- However many distances there are between vectors of the domain, they can be sorted. -/
def SortsOn (dom : VectorDomain) (ix : HnswIndex) : Prop :=
  ∀ a, dom.Has a → Sorts .ascending fun x => ∃ b, dom.Has b ∧ ix.distance a b = .ok x

variable {ix ix' : HnswIndex} {vectors : VectorReader} {query : Vector32}

theorem SortsOn.congr (h : ix.SortsOn dom) (hconfig : ix'.config = ix.config) : ix'.SortsOn dom := by
  have hdistance : ix'.distance = ix.distance := by
    funext a b
    unfold distance
    rw [hconfig]
  unfold SortsOn
  rw [hdistance]
  exact h

/-- What is rated is a distance between vectors of the domain. -/
theorem SortsOn.sortable (h : ix.SortsOn dom) (hvectors : dom.Reads vectors) (hquery : dom.Has query)
    {cs : List SearchCandidate} (hrated : ∀ c ∈ cs, ix.Rated vectors query c) :
    Sortable .ascending (cs.map SearchCandidate.distance) := by
  refine h query hquery _ (List.forall_mem_map.mpr fun c hc => ?_)
  obtain ⟨v, hv, hdist⟩ := (hrated c hc).measured
  exact ⟨v, hvectors c.id v hv, hdist⟩

theorem SortsOn.sortsRanked (h : ix.SortsOn dom) (hvectors : dom.Reads vectors) (hquery : dom.Has query)
    (candidates : List Uuid) : ix.SortsRanked vectors query candidates := by
  intro ranked hrank
  have hrated : ∀ c ∈ ranked.map fun e => (⟨e.1, e.2⟩ : SearchCandidate), ix.Rated vectors query c :=
    List.forall_mem_map.mpr (ranked_rated hrank)
  have hsortable := h.sortable hvectors hquery hrated
  rwa [List.map_map] at hsortable

theorem SortsOn.sortsDistances (h : ix.SortsOn dom) (hvectors : dom.Reads vectors)
    (hquery : dom.Has query) (id : Uuid) : ix.SortsDistances vectors id query where
  found _ _ hrated := h.sortable hvectors hquery hrated
  lists _ n v hv := h.sortsRanked hvectors (hvectors n v hv) _

end HnswIndex

/-! ## Any index -/

namespace VectorIndex

/-- Only a graph sorts vectors while it is filled. -/
def SortsOn (dom : VectorDomain) : VectorIndex → Prop
  | .hnsw ix => ix.SortsOn dom
  | _ => True

/-- The index takes vectors of the domain without a panic. -/
structure Able (dom : VectorDomain) (ix : VectorIndex) : Prop where
  ready : ix.Ready dom.dim
  sorts : ix.SortsOn dom

variable {ix : VectorIndex} {id : Uuid} {vector : Vector32} {vectors : VectorReader}

theorem Able.insert (h : ix.Able dom) (hvector : dom.Has vector) (hvectors : dom.Reads vectors) (r : F32) :
    Returns (Able dom) (ix.insert id vector vectors r) := by
  have hsorts : ix.SortsDistances vectors id vector := by
    cases ix with
    | flat ix => trivial
    | hnsw ix => exact fun _ => HnswIndex.SortsOn.sortsDistances h.sorts hvectors hvector id
    | ivf ix => trivial
  obtain ⟨ix', hix', hready⟩ := h.ready.insert hvector.length hvectors.uniform hsorts r
  refine ⟨ix', hix', hready, ?_⟩
  cases ix with
  | flat ix =>
      cases hix'
      trivial
  | hnsw ix =>
      obtain ⟨ix₁, hins, rfl⟩ := map_eq_ok.mp hix'
      exact HnswIndex.SortsOn.congr h.sorts (HnswIndex.insert_inserted hins).config
  | ivf ix =>
      obtain ⟨ix₁, -, rfl⟩ := map_eq_ok.mp hix'
      trivial

theorem Able.remove (h : ix.Able dom) (id : Uuid) (order : HashOrder Uuid) : (ix.remove id order).Able dom := by
  refine ⟨h.ready.remove id order, ?_⟩
  cases ix with
  | flat ix => trivial
  | hnsw ix => exact HnswIndex.SortsOn.congr h.sorts (ix.config_remove id order)
  | ivf ix => trivial

end VectorIndex

end

/-! ## The cache -/

namespace CacheManager

/-- Every cached vector is in the domain. -/
def Within (dom : VectorDomain) (cache : CacheManager) : Prop :=
  ∀ id v, cache.vectors.lookup id = some v → dom.Has v

variable {dom : VectorDomain} {cache : CacheManager}

theorem Within.reader (h : cache.Within dom) (order : HashOrder Uuid) : dom.Reads (cache.reader order) := h

theorem within_new (dom : VectorDomain) (config : CacheConfig) : (new config).Within dom := by
  intro id v hv
  simp [new] at hv

theorem Within.putVector (h : cache.Within dom) (id : Uuid) {vector : Vector32} (hvector : dom.Has vector) :
    (cache.putVector id vector).Within dom := by
  intro id' v hv
  rw [vectors_putVector, HashMap.lookup_insert] at hv
  split at hv
  · cases hv
    exact hvector
  · exact h id' v hv

theorem Within.putMetadata (h : cache.Within dom) (id : Uuid) (metadata : Metadata) :
    (cache.putMetadata id metadata).Within dom := by
  intro id' v hv
  rw [vectors_putMetadata] at hv
  exact h id' v hv

theorem Within.remove (h : cache.Within dom) (id : Uuid) (removeVector : Bool) :
    (cache.remove id removeVector).Within dom := by
  intro id' v hv
  rw [vectors_remove] at hv
  split at hv
  · rw [HashMap.lookup_erase] at hv
    split at hv
    · cases hv
    · exact h id' v hv
  · exact h id' v hv

end CacheManager
