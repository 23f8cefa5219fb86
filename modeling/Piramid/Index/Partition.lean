-- SUMMARY: The lists of an IVF index partition the ids it tracks.
import Piramid.Index.Intact
import Piramid.Index.Validated

/-!
# The lists of an IVF index

Which list an id is in is stored twice, in the list and in the map, and an id that waits
for the first clustering is in a set of its own. Clustering makes all three anew from what
the reader holds, the id of the current insertion included.
-/

open Loop

namespace IvfIndex

/-- Lists, map and pending ids say the same, and what they say is which ids are tracked. -/
structure Partition (tracked : Finset Uuid) (ix : IvfIndex) : Prop where
  lists : ix.invertedLists.length = ix.centroids.length
  assigned : ∀ id i, ix.vectorToCluster.lookup id = some i ↔
    ∃ l, ix.invertedLists[i]? = some l ∧ l.count id = 1 ∧
      ∀ j l', j ≠ i → ix.invertedLists[j]? = some l' → id ∉ l'
  unlisted : ∀ id ∈ ix.pendingVectors, ∀ l ∈ ix.invertedLists, id ∉ l
  settled : ix.centroids ≠ [] → ix.pendingVectors = ∅
  tracked : ix.trackedIds = tracked

/-- The indexes that insertions and removals make of a new one, with the ids they track. The
reader of an insertion has those ids and the one that is inserted, and vectors of `dim`
components. -/
inductive Run [Floats] (config : IvfConfig) (dim : Nat) : IvfIndex → Finset Uuid → Prop
  | new : Run config dim (.new config) ∅
  | inserted {ix ix' : IvfIndex} {tracked : Finset Uuid} {id : Uuid} {vector : Vector32}
      {vectors : VectorReader} (h : Run config dim ix tracked) (hlen : vector.length = dim)
      (hkeys : vectors.vectors.keys = Insert.insert id tracked) (hv : vectors.Uniform dim)
      (hret : ix.insert id vector vectors = .ok ix') : Run config dim ix' (Insert.insert id tracked)
  | removed {ix : IvfIndex} {tracked : Finset Uuid} (h : Run config dim ix tracked) (id : Uuid) :
      Run config dim (ix.remove id) (tracked.erase id)

/-! ## Every assigned id is in its list -/

/-- An assigned id is in the list of its cluster. -/
def Complete (ix : IvfIndex) : Prop :=
  ∀ id i, ix.vectorToCluster.lookup id = some i → ∃ l, ix.invertedLists[i]? = some l ∧ id ∈ l

/-- What insertions and removals keep. -/
structure Filed (ix : IvfIndex) : Prop where
  listed : ix.Listed
  parted : ix.Parted
  complete : ix.Complete
  separate : Disjoint ix.pendingVectors ix.vectorToCluster.keys
  settled : ix.centroids ≠ [] → ix.pendingVectors = ∅

variable {ix ix' : IvfIndex} {id : Uuid}

theorem filed_new (config : IvfConfig) : (new config).Filed where
  listed := rfl
  parted := by
    refine ⟨fun i l hl => ?_, fun l hl => ?_⟩
    · cases hl
    · cases hl
  complete id i hi := by
    rw [new, Finmap.lookup_empty] at hi
    cases hi
  separate := Finset.disjoint_empty_left _
  settled hne := absurd rfl hne

theorem Filed.partition (h : ix.Filed) : ix.Partition ix.trackedIds where
  lists := h.listed
  assigned id i := by
    constructor
    · intro hi
      obtain ⟨l, hl, hid⟩ := h.complete id i hi
      have hnodup : l.Nodup := h.parted.nodup l (List.mem_of_getElem? hl)
      refine ⟨l, hl, List.count_eq_one_of_mem hnodup hid, fun j l' hne hl' hmem => ?_⟩
      have hj := h.parted.assigned j l' hl' id hmem
      rw [hi] at hj
      exact hne (Option.some.inj hj).symm
    · rintro ⟨l, hl, hcount, -⟩
      refine h.parted.assigned i l hl id (List.count_pos_iff.mp ?_)
      rw [hcount]
      exact Nat.one_pos
  unlisted id hid l hl := by
    exact h.parted.assigned.not_mem (Finset.disjoint_left.mp h.separate hid) hl
  settled := h.settled
  tracked := rfl

/-- An id goes into a list. -/
theorem Complete.push (h : ix.Complete) {i : Nat} (hi : i < ix.invertedLists.length) (id : Uuid) :
    Complete { ix with
      invertedLists := ix.invertedLists.modify i (· ++ [id])
      vectorToCluster := ix.vectorToCluster.insert id i } := by
  intro id' j hj
  rw [HashMap.lookup_insert] at hj
  simp only [List.getElem?_modify]
  split at hj
  · rename_i heq
    cases hj
    have hl : ix.invertedLists[i]? = some ix.invertedLists[i] := List.getElem?_eq_getElem hi
    exact ⟨ix.invertedLists[i] ++ [id], by simp [hl], by simp [heq]⟩
  · obtain ⟨l, hl, hid⟩ := h id' j hj
    by_cases hij : i = j
    · exact ⟨l ++ [id], by simp [hl, hij], List.mem_append_left _ hid⟩
    · exact ⟨l, by simp [hl, hij], hid⟩

theorem Complete.remove (h : ix.Complete) (id : Uuid) : (ix.remove id).Complete := by
  unfold IvfIndex.remove
  simp only
  cases hlookup : ix.vectorToCluster.lookup id with
  | none => exact h
  | some i =>
      intro id' j hj
      rw [HashMap.lookup_erase] at hj
      split at hj
      · cases hj
      rename_i hne
      obtain ⟨l, hl, hid⟩ := h id' j hj
      simp only [List.getElem?_modify]
      by_cases hij : i = j
      · refine ⟨l.filter (· ≠ id), by simp [hl, hij], ?_⟩
        rw [List.mem_filter, decide_eq_true_eq]
        exact ⟨hid, hne⟩
      · exact ⟨l, by simp [hl, hij], hid⟩

theorem Filed.remove (h : ix.Filed) (id : Uuid) : (ix.remove id).Filed := by
  have hpending : (ix.remove id).pendingVectors ⊆ ix.pendingVectors := by
    unfold IvfIndex.remove
    simp only
    split
    · exact Finset.erase_subset _ _
    · exact Finset.erase_subset _ _
  have hkeys : (ix.remove id).vectorToCluster.keys ⊆ ix.vectorToCluster.keys := by
    unfold IvfIndex.remove
    simp only
    split
    · exact Finset.Subset.refl _
    · intro id' hid'
      rw [Finmap.mem_keys, Finmap.mem_erase] at hid'
      exact Finmap.mem_keys.mpr hid'.2
  exact {
    listed := listed_remove h.listed id
    parted := h.parted.remove id
    complete := h.complete.remove id
    separate := (h.separate.mono_left hpending).mono_right hkeys
    settled := fun hne => by
      rw [centroids_remove] at hne
      exact Finset.subset_empty.mp (h.settled hne ▸ hpending) }

section

variable [Floats] {vectors : VectorReader}

theorem Complete.assign (h : ix.Complete) {entry : Uuid × Vector32}
    (hret : ix.assign entry = .ok ix') : ix'.Complete := by
  unfold IvfIndex.assign at hret
  obtain ⟨i, -, hret⟩ := bind_eq_ok.mp hret
  obtain ⟨lists, hpush, hret⟩ := bind_eq_ok.mp hret
  cases hret
  unfold pushAt at hpush
  split at hpush
  · rename_i hi
    cases hpush
    exact h.push hi entry.1
  · cases hpush

theorem filed_buildClusters (hparted : ix.Parted) (hne : vectors.len ≠ 0)
    (hret : ix.buildClusters vectors = .ok ix') : ix'.Filed := by
  obtain ⟨-, hlisted, hcentroids, -⟩ := buildClusters_tracks hne hret
  have hnew := parted_buildClusters hparted hret
  unfold buildClusters at hret
  rw [if_neg hne] at hret
  obtain ⟨ix₁, -, hret⟩ := bind_eq_ok.mp hret
  have hassigned := foldlM_keeps (fun _ (ix₂ : IvfIndex) => ix₂.Complete ∧ ix₂.pendingVectors = ∅)
    ?_ ?_ hret
  · exact {
      listed := hlisted
      parted := hnew
      complete := hassigned.1
      separate := hassigned.2 ▸ Finset.disjoint_empty_left _
      settled := fun _ => hassigned.2 }
  · rintro entry rest ix₂ ix₃ ⟨hcomplete, hpending⟩ hstep
    refine ⟨hcomplete.assign hstep, ?_⟩
    unfold assign at hstep
    obtain ⟨i, -, hstep⟩ := bind_eq_ok.mp hstep
    obtain ⟨lists, -, hstep⟩ := bind_eq_ok.mp hstep
    cases hstep
    exact hpending
  · refine ⟨fun id i hi => ?_, rfl⟩
    rw [Finmap.lookup_empty] at hi
    cases hi

theorem Filed.insert (h : ix.Filed) {vector : Vector32} (hret : ix.insert id vector vectors = .ok ix') :
    ix'.Filed := by
  have hparted := h.parted.insert hret
  unfold IvfIndex.insert at hret
  split at hret
  · cases hret
    exact h
  rename_i hid
  rw [not_or] at hid
  have hkey : id ∉ ix.vectorToCluster.keys := fun hmem => hid.1 (Finmap.mem_keys.mp hmem)
  split at hret
  · rename_i hcentroids
    have hwaiting : IvfIndex.Filed { ix with
        pendingVectors := Insert.insert id ix.pendingVectors } :=
      { listed := h.listed
        parted := ⟨h.parted.assigned, h.parted.nodup⟩
        complete := h.complete
        separate := Finset.disjoint_insert_left.mpr ⟨hkey, h.separate⟩
        settled := fun hne => absurd hcentroids hne }
    simp only at hret
    split at hret
    · by_cases hne : vectors.len = 0
      · unfold buildClusters at hret
        rw [if_pos hne] at hret
        cases hret
        exact hwaiting
      · exact filed_buildClusters hwaiting.parted hne hret
    · cases hret
      exact hwaiting
  · rename_i hcentroids
    obtain ⟨i, hnearest, hret⟩ := bind_eq_ok.mp hret
    have hi : i < ix.invertedLists.length := by
      rw [h.listed]
      exact findNearestCentroid_lt hcentroids hnearest
    rw [if_neg (Nat.not_le_of_lt hi)] at hret
    cases hret
    exact {
      listed := by simpa [Listed] using h.listed
      parted := hparted
      complete := h.complete.push hi id
      separate := by
        rw [h.settled hcentroids]
        exact Finset.disjoint_empty_left _
      settled := h.settled }

/-! ## Every run -/

variable {config : IvfConfig} {dim : Nat} {tracked : Finset Uuid}

/-- The reader has the tracked ids and the inserted one, so a clustering tracks the same ids
as an insertion without one. -/
theorem trackedIds_insert (h : ix.Filed) {vector : Vector32}
    (hkeys : vectors.vectors.keys = Insert.insert id ix.trackedIds)
    (hret : ix.insert id vector vectors = .ok ix') :
    ix'.trackedIds = Insert.insert id ix.trackedIds := by
  by_cases hre : ix.Rebuilds id vectors
  · exact (insert_rebuilds hre hret).1.trans hkeys
  · exact (insert_tracks hre h.listed hret).1

theorem Run.filed (h : Run config dim ix tracked) : ix.Filed ∧ ix.trackedIds = tracked := by
  induction h with
  | new => exact ⟨filed_new config, rfl⟩
  | inserted _ _ hkeys _ hret ih =>
      obtain ⟨hfiled, rfl⟩ := ih
      exact ⟨hfiled.insert hret, trackedIds_insert hfiled hkeys hret⟩
  | removed _ id ih =>
      obtain ⟨hfiled, rfl⟩ := ih
      exact ⟨hfiled.remove id, trackedIds_remove _ id⟩

theorem Run.ready (h : Run config dim ix tracked) (hmode : config.mode.Implemented)
    (hclusters : 1 ≤ config.numClusters) : ix.Ready dim := by
  induction h with
  | new =>
      refine ⟨hmode, hclusters, fun c hc => ?_⟩
      cases hc
  | inserted _ hlen _ hv hret ih =>
      obtain ⟨ix', hix', hready⟩ := insert_returns ih hlen hv
      rw [hix'] at hret
      cases hret
      exact hready
  | removed _ id ih => exact ih.remove id

/-- In every run the lists partition the tracked ids. So the list of the nearest centroid
exists, and where comparisons are implemented an insertion returns. -/
theorem run_partition (hclusters : 1 ≤ config.numClusters) (h : Run config dim ix tracked) :
    ix.Partition tracked ∧
    (∀ vector i, ix.centroids ≠ [] → ix.findNearestCentroid vector = .ok i →
      i < ix.invertedLists.length) ∧
    (config.mode.Implemented → ∀ id vector vectors, vector.length = dim →
      vectors.vectors.keys = Insert.insert id tracked → vectors.Uniform dim →
      ∃ ix', ix.insert id vector vectors = .ok ix') := by
  obtain ⟨hfiled, rfl⟩ := h.filed
  refine ⟨hfiled.partition, fun vector i hne hnearest => ?_, fun hmode id vector vectors hlen _ hv => ?_⟩
  · rw [hfiled.listed]
    exact findNearestCentroid_lt hne hnearest
  · have hready : Returns (Ready dim) (ix.insert id vector vectors) :=
      insert_returns (h.ready hmode hclusters) hlen hv
    obtain ⟨ix', hix', -⟩ := hready
    exact ⟨ix', hix'⟩

end

end IvfIndex

/-! ## Two clusters -/

section

attribute [local instance] Reference.floats

open Reference

def twoClusters : IvfConfig := ⟨2, 1, 10, .cosine, .auto⟩

/-- Of two clustered ids the first is removed, and a third one is inserted. -/
def threeInsertions : Except Fault IvfIndex := do
  let ix ← (IvfIndex.new twoClusters).insert 0 [F32.one] (.ones [0])
  let ix ← ix.insert 1 [F32.one] (.ones [0, 1])
  (ix.remove 0).insert 2 [F32.one] (.ones [1, 2])

theorem three_insertions_partition :
    ∃ ix : IvfIndex, threeInsertions = .ok ix ∧ ix.centroids.length = 2 ∧ ix.Partition {2, 1} := by
  have heval : threeInsertions.toOption.map (fun ix => ix.centroids.length) = some 2 := by
    decide +kernel
  obtain ⟨ix, hix, hlen⟩ := ok_of_map heval
  refine ⟨ix, hix, hlen, ?_⟩
  obtain ⟨ix₁, hfirst, hrest⟩ := bind_eq_ok.mp hix
  obtain ⟨ix₂, hsecond, hthird⟩ := bind_eq_ok.mp hrest
  have huniform : ∀ ids : List Uuid, ids.Nodup → (VectorReader.ones ids).Uniform 1 := by
    intro ids hnodup id v hv
    rw [VectorReader.get_ones hnodup] at hv
    split at hv
    · cases hv
      rfl
    · cases hv
  have hrun₁ : IvfIndex.Run twoClusters 1 ix₁ (Insert.insert 0 ∅) :=
    .inserted .new rfl (by decide) (huniform _ (by decide)) hfirst
  have hrun₂ : IvfIndex.Run twoClusters 1 ix₂ (Insert.insert 1 (Insert.insert 0 ∅)) :=
    .inserted hrun₁ rfl (by decide) (huniform _ (by decide)) hsecond
  have hrun₃ : IvfIndex.Run twoClusters 1 ix
      (Insert.insert 2 ((Insert.insert 1 (Insert.insert 0 ∅) : Finset Uuid).erase 0)) :=
    .inserted (hrun₂.removed 0) rfl (by decide) (huniform _ (by decide)) hthird
  have htracked : Insert.insert 2 ((Insert.insert 1 (Insert.insert 0 ∅) : Finset Uuid).erase 0) =
      ({2, 1} : Finset Uuid) := by
    decide
  rw [htracked] at hrun₃
  exact (IvfIndex.run_partition (by decide) hrun₃).1

end
