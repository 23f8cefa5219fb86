-- SUMMARY: A search of an index returns no id twice, and no more ids than it is asked for.
import Piramid.Index.Similarity

/-!
# Distinct ids

A flat index lists no id twice, an IVF index has every id in one list, and a layer
search visits every node once.
-/

open Loop

section

variable [Floats] {query : Vector32} {vectors : VectorReader} {ids : List Uuid} {k : Nat}

/-- Scoring keeps the ids. -/
theorem VectorReader.fst_of_scores {name : String} {metric : Metric} {mode : ExecutionMode}
    {scored : List (Uuid × F32)} (h : ids.mapM (vectors.score name metric mode query) = .ok scored) :
    scored.map Prod.fst = ids := by
  induction ids generalizing scored with
  | nil =>
      cases h
      rfl
  | cons id ids ih =>
      rw [List.mapM_cons] at h
      obtain ⟨entry, hentry, h⟩ := bind_eq_ok.mp h
      obtain ⟨rest, hrest, h⟩ := bind_eq_ok.mp h
      cases h
      rw [List.map_cons, fst_of_score hentry, ih hrest]

/-- The best of ids none of which is listed twice. -/
theorem VectorReader.nodup_ranked {name : String} {metric : Metric} {mode : ExecutionMode}
    {scored : List (Uuid × F32)} (hids : ids.Nodup)
    (h : ids.mapM (vectors.score name metric mode query) = .ok scored)
    {ranked : List (Uuid × F32)} (hranked : sortByScore scored = .ok ranked) :
    ((ranked.take k).map Prod.fst).Nodup := by
  have hperm : (ranked.map Prod.fst).Perm ids := by
    rw [← fst_of_scores h]
    exact (sortBy_perm hranked).map Prod.fst
  exact (hperm.nodup_iff.mpr hids).sublist ((List.take_sublist k _).map Prod.fst)

omit [Floats] in
theorem length_ranked (ranked : List (Uuid × F32)) :
    ((ranked.take k).map Prod.fst).length ≤ k := by
  rw [List.length_map]
  exact List.length_take_le k _

/-! ## HNSW -/

namespace HnswIndex

variable {ix : HnswIndex} {ef : Nat} {filter : Option (Metadata → Bool)}
  {metadatas : HashMap Uuid Metadata}

theorem nodup_search (hret : ix.search query k ef vectors filter metadatas = .ok ids) :
    ids.Nodup ∧ ids.length ≤ k := by
  unfold search at hret
  split at hret
  · cases hret
    exact ⟨List.nodup_nil, Nat.zero_le k⟩
  rename_i ep _
  split at hret
  · cases hret
  obtain ⟨entry, hdescend, hret⟩ := bind_eq_ok.mp hret
  obtain ⟨found, hfound, hret⟩ := bind_eq_ok.mp hret
  cases hret
  have hentry : entry.Nodup :=
    foldlM_keeps (fun _ (entry : List Uuid) => entry.Nodup)
      (fun _ _ _ _ hentry hstep => nodup_searchLayer hentry hstep) (List.nodup_singleton ep) hdescend
  exact ⟨((nodup_searchLayer hentry hfound).filter _).sublist (List.take_sublist k _),
    List.length_take_le k _⟩

end HnswIndex

/-! ## IVF -/

namespace IvfIndex

variable {ix : IvfIndex}

theorem nodup_scoreCentroids {scores : List (Nat × F32)} (hret : ix.scoreCentroids query = .ok scores) :
    (scores.map Prod.fst).Nodup := by
  rw [places_scoreCentroids hret]
  exact List.nodup_range'

omit [Floats] in
/-- The lists of different centroids have no id in common. -/
theorem nodup_probe (h : ix.Parted) {centroids : List (Nat × F32)}
    (hcentroids : (centroids.map Prod.fst).Nodup) (nprobe : Nat) :
    (ix.probe centroids nprobe).Nodup := by
  have hbest : ((centroids.take nprobe).map Prod.fst).Nodup :=
    hcentroids.sublist ((List.take_sublist nprobe _).map Prod.fst)
  have hassigned : ∀ i id, id ∈ (ix.invertedLists[i]?).getD [] →
      ix.vectorToCluster.lookup id = some i := by
    intro i id hid
    cases hlist : ix.invertedLists[i]? with
    | none =>
        rw [hlist] at hid
        cases hid
    | some l =>
        rw [hlist] at hid
        exact h.assigned i l hlist id hid
  refine List.nodup_flatMap.mpr ⟨fun entry _ => ?_, ?_⟩
  · cases hlist : ix.invertedLists[entry.1]? with
    | none => exact List.nodup_nil
    | some l => exact h.nodup l (List.mem_of_getElem? hlist)
  · refine (List.pairwise_map.mp hbest).imp fun {a b} hne id ha hb => hne ?_
    have hsame := hassigned a.1 id ha
    rw [hassigned b.1 id hb] at hsame
    exact (Option.some.inj hsame).symm

omit [Floats] in
theorem nodup_flatten (h : ix.Parted) : ix.invertedLists.flatten.Nodup := by
  refine List.nodup_flatten.mpr ⟨h.nodup, List.pairwise_iff_getElem.mpr ?_⟩
  intro i j hi hj hlt id hleft hright
  have hsame := h.assigned i _ (List.getElem?_eq_getElem hi) id hleft
  rw [h.assigned j _ (List.getElem?_eq_getElem hj) id hright] at hsame
  exact hlt.ne' (Option.some.inj hsame)

theorem nodup_search (h : ix.Parted) {quality : SearchConfig}
    (hret : ix.search query k vectors quality = .ok ids) : ids.Nodup ∧ ids.length ≤ k := by
  unfold search at hret
  split at hret
  · cases hret
  obtain ⟨scores, hscores, hret⟩ := bind_eq_ok.mp hret
  obtain ⟨centroids, hcentroids, hret⟩ := bind_eq_ok.mp hret
  obtain ⟨scored, hscored, hret⟩ := bind_eq_ok.mp hret
  obtain ⟨ranked, hranked, hret⟩ := bind_eq_ok.mp hret
  cases hret
  have hplaces : (centroids.map Prod.fst).Nodup :=
    ((sortBy_perm hcentroids).map Prod.fst).nodup_iff.mpr (nodup_scoreCentroids hscores)
  have hcandidates := nodup_probe h hplaces (quality.nprobe.getD ix.config.numProbes)
  exact ⟨VectorReader.nodup_ranked hcandidates hscored hranked, length_ranked ranked⟩

end IvfIndex

/-! ## Any index -/

theorem VectorIndex.nodup_search {ix : VectorIndex} (h : ix.Intact) {quality : SearchConfig}
    {filter : Option (Metadata → Bool)} {metadatas : HashMap Uuid Metadata}
    (hret : ix.search query k vectors quality filter metadatas = .ok ids) :
    ids.Nodup ∧ ids.length ≤ k := by
  cases ix with
  | flat ix =>
      change ix.search query k vectors = .ok ids at hret
      unfold FlatIndex.search at hret
      obtain ⟨scored, hscored, hret⟩ := bind_eq_ok.mp hret
      obtain ⟨ranked, hranked, hret⟩ := bind_eq_ok.mp hret
      cases hret
      have hids : ix.vectorIds.Nodup := h
      exact ⟨VectorReader.nodup_ranked hids hscored hranked, length_ranked ranked⟩
  | hnsw ix => exact HnswIndex.nodup_search hret
  | ivf ix => exact IvfIndex.nodup_search h.2 hret

end
