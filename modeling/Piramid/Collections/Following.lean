-- SUMMARY: In a collection with an IVF index every id stays in the list its stored vector belongs in, as long as no insertion moves the vector of a listed id.
import Piramid.Collections.Mirroring
import Piramid.Collections.Reopen
import Piramid.Index.Following

/-!
# Lists that follow the documents

An upsert and an update of a vector take the id out of the index before they insert it.
An insertion, and a batch, leave that to the index, which does nothing for an id it has.
-/

open Loop Prog

/-- A call that writes documents one by one, or a batch of them. -/
def Call.IsWrite : Call → Prop
  | .insert _ | .insertBatch _ | .upsert _ | .updateMetadata _ _ | .updateVector _ _ | .delete _ => True
  | .deleteBatch _ | .checkpoint | .rebuildIndex | .compact => False

section

variable [Env]

/-- A write that satisfies `P`, from one session to the next. -/
structure Writes (P : Collection → Call → Prop) (s : Session) (d : Disk) (t : Table) (call : Call)
    (s' : Session) (d' : Disk) : Prop where
  write : call.IsWrite
  fits : ∀ doc ∈ call.writes t, (RecordStore.encodeDocument doc).length < 2 ^ 32
  allowed : P s.coll call
  runs : ∃ reply, Runs call.perform s d reply s' d'

/-- The sessions of a collection that only writes that satisfy `P` were made on, with the
checkpoints and openings between them. -/
inductive Written (path : String) (config : CollectionConfig) (P : Collection → Call → Prop) :
    Session → Disk → Table → Prop
  | opened {n n' : Nat} {c : Collection} {d : Disk}
      (h : Runs (CollectionBuilder.openCollection path config) n Disk.empty c n' d) :
      Written path config P ⟨c, n'⟩ d ∅
  | performed {s s' : Session} {d d' : Disk} {t : Table} {call : Call} (h : Written path config P s d t)
      (hcall : Writes P s d t call s' d') : Written path config P s' d' (call.apply t)
  | reopened {s s' : Session} {d d' d'' : Disk} {t : Table} {c₀ c : Collection} {missing : Bool}
      {n n' : Nat} (h : Written path config P s d t)
      (hsave : Runs Collection.checkpointNow s d () s' d')
      (hload : (CollectionBuilder.loadCollection path config n d').result = .ok (c₀, missing, []))
      (hrun : Runs (CollectionBuilder.openCollection path config) n d' c n' d'') :
      Written path config P ⟨c, n'⟩ d'' t

namespace Collection

/-- Every assigned id is in the list of the centroid that is nearest to its stored vector, and
none scores higher with it where the scores are numbers. -/
def AssignmentsFollow (c : Collection) (d : Disk) : Prop :=
  ∀ ix, c.vectorIndex = .ivf ix → ∀ id i, ix.vectorToCluster.lookup id = some i →
    (∃ l, ix.invertedLists[i]? = some l ∧ id ∈ l) ∧
    ∃ doc, c.get d id = .ok (some doc) ∧ ix.findNearestCentroid doc.vector = .ok i ∧
      (F32.Ordered (ix.CentroidScore doc.vector) → ix.Nearest doc.vector i)

/-- An id that has the same vector in both collections is in the same list in both, or in none. -/
def AssignsAs (c : Collection) (d : Disk) (c' : Collection) (d' : Disk) : Prop :=
  ∀ ix ix', c.vectorIndex = .ivf ix → c'.vectorIndex = .ivf ix' → ∀ id doc doc',
    c.get d id = .ok (some doc) → c'.get d' id = .ok (some doc') → doc.vector = doc'.vector →
      ix.vectorToCluster.lookup id = ix'.vectorToCluster.lookup id

/-- No insertion meets an id that is in the list of another centroid than the one that is
nearest to the new vector. -/
def KeepsLists (c : Collection) : Call → Prop
  | .insert doc => ∀ ix, c.vectorIndex = .ivf ix → ix.Suits doc.id doc.vector
  | .insertBatch docs => ∀ ix, c.vectorIndex = .ivf ix →
      ix.SuitsEach (docs.map fun doc => (doc.id, doc.vector)) c.cache.vectors
  | _ => True

end Collection

/-! ## Changes of the index and the cached vectors -/

/-- The lists are filed, and follow the cached vectors. -/
def Tidy (w : VectorIndex × HashMap Uuid Vector32) : Prop :=
  ∀ ix, w.1 = .ivf ix → ix.Filed ∧ ix.Follows w.2

variable {w w' : VectorIndex × HashMap Uuid Vector32} {id : Uuid} {vector : Vector32}

/-- What insertions and removals keep of the index, the writes keep. -/
theorem Call.Changes.keeps {stored : Finset Uuid} {call : Call} {I : VectorIndex → Prop}
    (hw : call.Changes stored w w') (hwrite : call.IsWrite)
    (hinsert : ∀ ix id vector vectors r ix', I ix → ix.insert id vector vectors r = .ok ix' → I ix')
    (hremove : ∀ ix id order, I ix → I (ix.remove id order)) (h : I w.1) : I w'.1 := by
  have hindexes : ∀ {id : Uuid} {vector : Vector32} {w w' : VectorIndex × HashMap Uuid Vector32},
      I w.1 → Indexes id vector w w' → I w'.1 := by
    rintro id vector w w' h ⟨-, order, r, hret⟩
    exact hinsert _ _ _ _ _ _ h hret
  have hdrops : ∀ {id : Uuid} {w w' : VectorIndex × HashMap Uuid Vector32},
      I w.1 → Drops id w w' → I w'.1 := by
    rintro id w w' h ⟨order, rfl⟩
    exact hremove _ _ _ h
  cases call with
  | insert doc => exact hindexes h hw
  | insertBatch docs =>
      induction docs generalizing w with
      | nil => exact (show w' = w from hw) ▸ h
      | cons doc docs ih =>
          obtain ⟨w₁, hfirst, hrest⟩ := hw
          exact ih (hindexes h hfirst) hrest trivial
  | upsert doc =>
      rcases hw with ⟨w₁, hdropped, hnew⟩ | ⟨-, hnew⟩
      · exact hindexes (hdrops h hdropped) hnew
      · exact hindexes h hnew
  | updateMetadata id metadata => exact (show w' = w from hw) ▸ h
  | updateVector id vector =>
      rcases hw with rfl | ⟨order, hnew⟩
      · exact h
      · have hremoved : I (w.1.remove id order) := hremove _ _ _ h
        exact hindexes hremoved hnew
  | delete id =>
      rcases hw with rfl | hdropped
      · exact h
      · exact hdrops h hdropped
  | deleteBatch ids => exact hwrite.elim
  | checkpoint => exact hwrite.elim
  | rebuildIndex => exact hwrite.elim
  | compact => exact hwrite.elim

theorem Tidy.indexes (h : Tidy w) (hsuits : ∀ ix, w.1 = .ivf ix → ix.Suits id vector)
    (hw : Indexes id vector w w') : Tidy w' := by
  obtain ⟨hvectors, order, r, hret⟩ := hw
  intro ix' hix'
  rw [hix'] at hret
  obtain ⟨ix, hix, hinsert⟩ := VectorIndex.insert_eq_ivf hret
  obtain ⟨hfiled, hfollows⟩ := h ix hix
  rw [hvectors]
  exact ⟨hfiled.insert hinsert, hfollows.insert (hsuits ix hix) hinsert⟩

/-- An id is removed, and may be inserted again with any vector. -/
theorem Tidy.drops (vector : Vector32) (h : Tidy w) (hw : Drops id w w') :
    Tidy w' ∧ ∀ ix, w'.1 = .ivf ix → ix.Suits id vector := by
  obtain ⟨order, rfl⟩ := hw
  constructor
  · intro ix' hix'
    obtain ⟨ix, hix, rfl⟩ := VectorIndex.remove_eq_ivf hix'
    obtain ⟨hfiled, hfollows⟩ := h ix hix
    refine ⟨hfiled.remove id, hfollows.remove id fun id' hne => ?_⟩
    simp only
    split
    · rw [HashMap.lookup_erase, if_neg hne]
    · rfl
  · intro ix' hix'
    obtain ⟨ix, -, rfl⟩ := VectorIndex.remove_eq_ivf hix'
    exact ix.suits_remove id vector

theorem Tidy.replaces (h : Tidy w) (hw : Replaces id vector w w') : Tidy w' := by
  obtain ⟨order, hindexes⟩ := hw
  have hremoved : Tidy (w.1.remove id order, w.2) := by
    intro ix' hix'
    obtain ⟨ix, hix, rfl⟩ := VectorIndex.remove_eq_ivf hix'
    obtain ⟨hfiled, hfollows⟩ := h ix hix
    exact ⟨hfiled.remove id, hfollows.remove id fun _ _ => rfl⟩
  refine hremoved.indexes (fun ix' hix' => ?_) hindexes
  obtain ⟨ix, -, rfl⟩ := VectorIndex.remove_eq_ivf hix'
  exact ix.suits_remove id vector

theorem Tidy.indexesAll {docs : List Document} (h : Tidy w)
    (hsuits : ∀ ix, w.1 = .ivf ix → ix.SuitsEach (docs.map fun doc => (doc.id, doc.vector)) w.2)
    (hw : IndexesAll docs w w') : Tidy w' := by
  induction docs generalizing w with
  | nil => exact hw ▸ h
  | cons doc docs ih =>
      obtain ⟨w₁, hfirst, hrest⟩ := hw
      have hw₁ := h.indexes (fun ix hix => (hsuits ix hix).1) hfirst
      refine ih hw₁ (fun ix₁ hix₁ => ?_) hrest
      obtain ⟨hvectors, order, r, hret⟩ := hfirst
      rw [hix₁] at hret
      obtain ⟨ix, hix, hinsert⟩ := VectorIndex.insert_eq_ivf hret
      rw [hvectors]
      exact (hsuits ix hix).2 order _ hinsert

/-- Where the ids of the index are those of the documents, a write keeps the lists tidy. -/
theorem Tidy.changes {c : Collection} {call : Call} (h : Tidy (c.vectorIndex, c.cache.vectors))
    (htracked : c.vectorIndex.trackedIds = c.index.keys) (hwrite : call.IsWrite)
    (hkeeps : c.KeepsLists call)
    (hw : call.Changes c.index.keys (c.vectorIndex, c.cache.vectors) w') : Tidy w' := by
  cases call with
  | insert doc => exact h.indexes hkeeps hw
  | insertBatch docs => exact h.indexesAll hkeeps hw
  | upsert doc =>
      rcases hw with ⟨w₁, hdrops, hindexes⟩ | ⟨hnew, hindexes⟩
      · obtain ⟨hw₁, hsuits⟩ := h.drops doc.vector hdrops
        exact hw₁.indexes hsuits hindexes
      · refine h.indexes (fun ix hix i hi => ?_) hindexes
        rw [← htracked, show c.vectorIndex = .ivf ix from hix] at hnew
        refine absurd (IvfIndex.mem_trackedIds.mpr (.inl ?_)) hnew
        exact Finmap.mem_iff.mpr ⟨i, hi⟩
  | updateMetadata id metadata =>
      rw [show w' = _ from hw]
      exact h
  | updateVector id vector =>
      rcases hw with heq | hreplaces
      · exact heq ▸ h
      · exact h.replaces hreplaces
  | delete id =>
      rcases hw with heq | hdrops
      · exact heq ▸ h
      · exact (h.drops [] hdrops).1
  | deleteBatch ids => exact hwrite.elim
  | checkpoint => exact hwrite.elim
  | rebuildIndex => exact hwrite.elim
  | compact => exact hwrite.elim

/-! ## Every session -/

variable [LawfulEnv] {path : String} {config : CollectionConfig} {P : Collection → Call → Prop}
  {s s' : Session} {d d' : Disk} {t : Table} {c : Collection}

omit [LawfulEnv] in
/-- An assigned id has a document, with the vector that is cached. -/
theorem Coherent.assigned (h : Coherent c d t) {ix : IvfIndex} (hix : c.vectorIndex = .ivf ix) {i : Nat}
    (hi : ix.vectorToCluster.lookup id = some i) :
    ∃ doc, t.lookup id = some doc ∧ c.cache.vectors.lookup id = some doc.vector := by
  have htracked := h.cached.tracked
  rw [hix] at htracked
  have hkey : id ∈ t.keys := by
    rw [← htracked]
    exact IvfIndex.mem_trackedIds.mpr (.inl (Finmap.mem_iff.mpr ⟨i, hi⟩))
  obtain ⟨doc, hdoc⟩ := (HashMap.mem_keys_iff t id).mp hkey
  exact ⟨doc, hdoc, h.cached.mirrors.vectors id doc hdoc⟩

omit [LawfulEnv] in
/-- Without documents there is nothing in the lists. -/
theorem Coherent.tidy_of_empty (h : Coherent c d ∅) : Tidy (c.vectorIndex, c.cache.vectors) := by
  intro ix hix
  have hix : c.vectorIndex = .ivf ix := hix
  have hnone : ∀ id i, ix.vectorToCluster.lookup id ≠ some i := by
    intro id i hi
    obtain ⟨doc, hdoc, -⟩ := h.assigned hix hi
    rw [Finmap.lookup_empty] at hdoc
    cases hdoc
  have hpending : ix.pendingVectors = ∅ := by
    have htracked := h.cached.tracked
    rw [hix, Finmap.keys_empty] at htracked
    exact (Finset.union_eq_empty.mp htracked).1
  have hintact := h.cached.intact
  rw [hix] at hintact
  refine ⟨⟨hintact.1, hintact.2, ?_, ?_, fun _ => hpending⟩, ?_⟩
  · exact fun id i hi => absurd hi (hnone id i)
  · rw [hpending]
    exact Finset.disjoint_empty_left _
  · exact fun id i hi => absurd hi (hnone id i)

omit [LawfulEnv] in
theorem Written.reached (h : Written path config P s d t) : Reached path config s d t := by
  induction h with
  | opened h => exact .opened h
  | @performed s s' d d' t call _ hcall ih =>
      obtain ⟨reply, hrun⟩ := hcall.runs
      exact @Reached.performed _ path config s s' d d' t (.call call) reply ih hcall.fits hrun
  | reopened _ hsave hload hrun ih => exact .reopened ih hsave hload hrun

theorem Written.coherent (h : Written path config P s d t) : Coherent s.coll d t :=
  h.reached.coherent

omit [LawfulEnv] in
theorem Writes.changes {call : Call} (h : Writes P s d t call s' d') :
    call.Changes s.coll.index.keys s.mirror s'.mirror := by
  obtain ⟨reply, hrun⟩ := h.runs
  have hens := call.ensures_changes s d
  exact ensures_runs (Q := fun _ s' _ => call.Changes s.coll.index.keys s.mirror s'.mirror) hens hrun

theorem Written.tidy (h : Written path config Collection.KeepsLists s d t) : Tidy s.mirror := by
  induction h with
  | opened hrun => exact (Reached.opened hrun).coherent.tidy_of_empty
  | @performed s s' d d' t call h hcall ih =>
      have hcoh := h.coherent
      have htracked := hcoh.cached.tracked.trans hcoh.held.keys.symm
      exact ih.changes htracked hcall.write hcall.allowed hcall.changes
  | @reopened s s' d d' d'' t c₀ c missing n n' h hsave hload hrun ih =>
      obtain ⟨hcoh, hsaved, hsame⟩ := h.coherent.checkpointed hsave
      obtain ⟨hnew, hkept⟩ := hcoh.reopened hsaved hload hrun
      intro ix hix
      have hix' : s.coll.vectorIndex = .ivf ix := hsame.symm.trans (hkept.symm.trans hix)
      obtain ⟨hfiled, hfollows⟩ := ih ix hix'
      refine ⟨hfiled, fun id i hi => ?_⟩
      -- both caches have the vector of the document
      obtain ⟨doc, hdoc, hvector⟩ := h.coherent.assigned hix' hi
      obtain ⟨v, hv, hnearest⟩ := hfollows id i hi
      rw [show s.mirror.2 = s.coll.cache.vectors from rfl, hvector] at hv
      cases hv
      exact ⟨doc.vector, hnew.cached.mirrors.vectors id doc hdoc, hnearest⟩

theorem Written.assignmentsFollow (h : Written path config Collection.KeepsLists s d t) :
    s.coll.AssignmentsFollow d := by
  intro ix hix id i hi
  obtain ⟨hfiled, hfollows⟩ := h.tidy ix hix
  obtain ⟨l, hl, hid⟩ := hfiled.complete id i hi
  obtain ⟨doc, hdoc, hvector⟩ := h.coherent.assigned hix hi
  obtain ⟨v, hv, hnearest⟩ := hfollows id i hi
  rw [show s.mirror.2 = s.coll.cache.vectors from rfl, hvector] at hv
  cases hv
  have hget : s.coll.get d id = .ok (some doc) := by
    rw [h.coherent.held.get, hdoc]
  refine ⟨⟨l, hl, hid⟩, doc, hget, hnearest, fun hordered => ?_⟩
  refine IvfIndex.nearest_of_findNearestCentroid (fun hnil => ?_) hordered hnearest
  have hlists := hfiled.listed
  unfold IvfIndex.Listed at hlists
  rw [hnil, List.length_nil, List.length_eq_zero_iff] at hlists
  rw [hlists] at hl
  cases hl

/-- Once there are centroids, every document is in the list its vector belongs in. -/
theorem Written.assigned (h : Written path config Collection.KeepsLists s d t) {ix : IvfIndex}
    (hix : s.coll.vectorIndex = .ivf ix) (hne : ix.centroids ≠ []) {id : Uuid} {doc : Document}
    (hget : s.coll.get d id = .ok (some doc)) :
    ∃ i, ix.vectorToCluster.lookup id = some i ∧ ix.findNearestCentroid doc.vector = .ok i := by
  obtain ⟨hfiled, -⟩ := h.tidy ix hix
  have hdoc : t.lookup id = some doc := by
    rw [h.coherent.held.get] at hget
    exact Except.ok.inj hget
  have hkey : id ∈ ix.trackedIds := by
    have htracked := h.coherent.cached.tracked
    rw [hix, show (VectorIndex.ivf ix).trackedIds = ix.trackedIds from rfl] at htracked
    rw [htracked]
    exact (HashMap.mem_keys_iff t id).mpr ⟨doc, hdoc⟩
  rcases IvfIndex.mem_trackedIds.mp hkey with hin | hpending
  · obtain ⟨i, hi⟩ := Finmap.mem_iff.mp hin
    obtain ⟨-, doc', hget', hnearest, -⟩ := h.assignmentsFollow ix hix id i hi
    rw [hget] at hget'
    cases hget'
    exact ⟨i, hi, hnearest⟩
  · rw [hfiled.settled hne] at hpending
    exact absurd hpending (Finset.notMem_empty id)

omit [LawfulEnv] in
/-- A write keeps the centroids there are. -/
theorem Writes.centroids {call : Call} (h : Writes P s d t call s' d') {ix ix' : IvfIndex}
    (hix : s.coll.vectorIndex = .ivf ix) (hix' : s'.coll.vectorIndex = .ivf ix')
    (hne : ix.centroids ≠ []) : ix'.centroids = ix.centroids ∧ ix'.config = ix.config := by
  have hkept := h.changes.keeps (I := fun vectorIndex => ∀ ix', vectorIndex = .ivf ix' →
    ix'.centroids = ix.centroids ∧ ix'.config = ix.config) h.write ?_ ?_ ?_
  · exact hkept ix' hix'
  · intro vectorIndex id vector vectors r vectorIndex' hold hret ix₂ hix₂
    obtain ⟨ix₁, rfl, hinsert⟩ := VectorIndex.insert_eq_ivf (hix₂ ▸ hret)
    obtain ⟨hcentroids, hconfig⟩ := hold ix₁ rfl
    obtain ⟨hcentroids', hconfig'⟩ := IvfIndex.centroids_insert (hcentroids ▸ hne) hinsert
    exact ⟨hcentroids'.trans hcentroids, hconfig'.trans hconfig⟩
  · intro vectorIndex id order hold ix₂ hix₂
    obtain ⟨ix₁, rfl, rfl⟩ := VectorIndex.remove_eq_ivf hix₂
    obtain ⟨hcentroids, hconfig⟩ := hold ix₁ rfl
    exact ⟨(ix₁.centroids_remove id).trans hcentroids, (ix₁.config_remove id).trans hconfig⟩
  · intro ix₂ hix₂
    rw [show s.mirror.1 = .ivf ix from hix] at hix₂
    cases hix₂
    exact ⟨rfl, rfl⟩

/-- Every id of an IVF index is in the list that its stored vector belongs in, if every
insertion keeps the lists. By which write it got the vector makes no difference. -/
theorem assignments_follow (h : Written path config Collection.KeepsLists s d t) :
    s.coll.AssignmentsFollow d ∧
      ∀ ix, s.coll.vectorIndex = .ivf ix → ix.centroids ≠ [] →
        ∀ call s₁ d₁ call' s₂ d₂, Writes Collection.KeepsLists s d t call s₁ d₁ →
          Writes Collection.KeepsLists s d t call' s₂ d₂ → s₁.coll.AssignsAs d₁ s₂.coll d₂ := by
  refine ⟨h.assignmentsFollow, ?_⟩
  intro ix hix hne call s₁ d₁ call' s₂ d₂ hcall hcall' ix₁ ix₂ hix₁ hix₂ id doc doc' hget hget' hvector
  obtain ⟨hcentroids₁, hconfig₁⟩ := hcall.centroids hix hix₁ hne
  obtain ⟨hcentroids₂, hconfig₂⟩ := hcall'.centroids hix hix₂ hne
  obtain ⟨i, hi, hnearest⟩ := (h.performed hcall).assigned hix₁ (hcentroids₁ ▸ hne) hget
  obtain ⟨j, hj, hnearest'⟩ := (h.performed hcall').assigned hix₂ (hcentroids₂ ▸ hne) hget'
  rw [IvfIndex.findNearestCentroid_congr hcentroids₁ hconfig₁, hvector] at hnearest
  rw [IvfIndex.findNearestCentroid_congr hcentroids₂ hconfig₂, hnearest] at hnearest'
  cases hnearest'
  rw [hi, hj]

/-- Every call satisfies `P` at its turn, in whatever collection the documents are. -/
def Table.Allows (P : Collection → Call → Prop) : Table → List Call → Prop
  | _, [] => True
  | t, call :: calls => (∀ c d, Coherent c d t → P c call) ∧ Allows P (call.apply t) calls

theorem Written.performedAll {calls : List Call} {replies : List Reply} (h : Written path config P s d t)
    (hwrites : ∀ call ∈ calls, call.IsWrite) (hfits : t.Fits (calls.map .call)) (hP : t.Allows P calls)
    (hrun : Runs (performAll (calls.map .call)) s d replies s' d') :
    Written path config P s' d' (t.run (calls.map .call)) := by
  induction calls generalizing s d t replies with
  | nil =>
      obtain ⟨-, rfl, rfl⟩ := runs_pure.mp hrun
      exact h
  | cons call calls ih =>
      obtain ⟨reply, s₁, d₁, hcall, hrest⟩ := runs_bind.mp hrun
      obtain ⟨replies, s₂, d₂, hcalls, hpure⟩ := runs_bind.mp hrest
      obtain ⟨-, rfl, rfl⟩ := runs_pure.mp hpure
      have hwrite : Writes P s d t call s₁ d₁ :=
        ⟨hwrites call List.mem_cons_self, hfits.1, hP.1 _ _ h.coherent, reply, hcall⟩
      exact ih (h.performed hwrite) (fun call hin => hwrites call (List.mem_cons_of_mem _ hin)) hfits.2
        hP.2 hcalls

omit [LawfulEnv] in
/-- A new id is in no list. -/
theorem Coherent.keepsLists_insert (h : Coherent c d t) {doc : Document} (hnew : t.lookup doc.id = none) :
    c.KeepsLists (.insert doc) := by
  intro ix hix i hi
  obtain ⟨doc', hdoc', -⟩ := h.assigned hix hi
  rw [hnew] at hdoc'
  cases hdoc'

end

/-! ## A vector that moves -/

section

attribute [local instance] Reference.flat

open Reference CollectionBuilder

/-- Two clusters, made once there are two vectors. -/
def clustersConfig : CollectionConfig := config (.ivf 2 1 1 .euclidean .auto) .unlimited 1000

/-- The document with id 0, with the vector of the other. -/
def moved : Document := { doc 0 1 with vector := [two] }

/-- A cluster of the number one and a cluster of the number two, and a call. -/
def clustersThen (call : Call) : List Call :=
  [.insert (doc 0 1), .insert { doc 1 1 with vector := [two] }, call]

/-- The clusters, and where the id 0 is. -/
def assigned (c : Collection) : Option (IvfConfig × List Vector32 × Option Nat) :=
  match c.vectorIndex with
  | .ivf ix => some (ix.config, ix.centroids, ix.vectorToCluster.lookup 0)
  | _ => none

theorem assigned_spec {c : Collection} {i : Nat}
    (h : assigned c = some (⟨2, 1, 1, .euclidean, .auto⟩, [[F32.one], [two]], some i)) :
    ∃ ix, c.vectorIndex = .ivf ix ∧ ix.config = ⟨2, 1, 1, .euclidean, .auto⟩ ∧
      ix.centroids = [[F32.one], [two]] ∧ ix.vectorToCluster.lookup 0 = some i := by
  unfold assigned at h
  split at h
  · rename_i ix hix
    obtain ⟨hconfig, hrest⟩ := Prod.mk.inj (Option.some.inj h)
    obtain ⟨hcentroids, hlookup⟩ := Prod.mk.inj hrest
    exact ⟨ix, hix, hconfig, hcentroids, hlookup⟩
  · cases h

/-- The calls are made on a new collection. -/
theorem written_session {P : Collection → Call → Prop} {calls : List Call} (i : Nat)
    (hwrites : ∀ call ∈ calls, call.IsWrite) (hfits : Table.Fits ∅ (calls.map .call))
    (hP : Table.Allows P ∅ calls)
    (heval : (session "c" clustersConfig (calls.map .call) 0 Disk.empty).result.toOption.map
      (fun out => assigned out.2.coll) =
        some (some (⟨2, 1, 1, .euclidean, .auto⟩, [[F32.one], [two]], some i))) :
    ∃ s d ix, Written "c" clustersConfig P s d (Table.run ∅ (calls.map .call)) ∧
      s.coll.vectorIndex = .ivf ix ∧ ix.config = ⟨2, 1, 1, .euclidean, .auto⟩ ∧
      ix.centroids = [[F32.one], [two]] ∧ ix.vectorToCluster.lookup 0 = some i := by
  obtain ⟨⟨replies, s⟩, hsession, hseen⟩ := ok_of_map heval
  obtain ⟨ix, hix⟩ := assigned_spec hseen
  obtain ⟨c, n₁, d₁, hopen, hrest⟩ := runs_bind.mp (runs_of_ok hsession)
  obtain ⟨hcalls, -⟩ := runs_embed.mp hrest
  exact ⟨s, _, ix, (Written.opened hopen).performedAll hwrites hfits hP hcalls, hix⟩

/-- A document that is inserted again stays in its list, though the other centroid scores
higher with its vector. -/
theorem inserted_again_stays :
    ∃ (s : Session) (d : Disk) (t : Table) (ix : IvfIndex),
      Written "c" clustersConfig (fun _ _ => True) s d t ∧ s.coll.vectorIndex = .ivf ix ∧
        ix.vectorToCluster.lookup 0 = some 0 ∧ s.coll.get d 0 = .ok (some moved) ∧
        ¬ix.Nearest moved.vector 0 ∧ ¬s.coll.AssignmentsFollow d := by
  have hfits : Table.Fits ∅ ((clustersThen (.insert moved)).map .call) := by
    refine ⟨?_, ?_, ?_, trivial⟩
    all_goals decide +kernel
  have hallows : Table.Allows (fun _ _ => True) ∅ (clustersThen (.insert moved)) :=
    ⟨fun _ _ _ => trivial, fun _ _ _ => trivial, fun _ _ _ => trivial, trivial⟩
  obtain ⟨s, d, ix, hwritten, hix, hconfig, hcentroids, hlookup⟩ :=
    written_session 0 (by simp [clustersThen, Call.IsWrite]) hfits hallows (by decide +kernel)
  have hget : s.coll.get d 0 = .ok (some moved) := by
    rw [hwritten.coherent.held.get]
    exact congrArg Except.ok (Finmap.lookup_insert _)
  refine ⟨s, d, _, ix, hwritten, hix, hlookup, hget, ?_, ?_⟩
  · rintro ⟨c, x, hc, hx, hmax⟩
    rw [hcentroids] at hc
    cases hc
    -- the first centroid scores a half, the second one
    have hhalf : Metric.calculate .euclidean [two] [F32.one] .auto = .ok half := by decide +kernel
    have hone : Metric.calculate .euclidean [two] [two] .auto = .ok F32.one := by decide +kernel
    rw [hconfig, show moved.vector = [two] from rfl, hhalf] at hx
    cases hx
    refine hmax F32.one ⟨[two], ?_, ?_⟩ (by decide)
    · rw [hcentroids]
      exact List.mem_cons_of_mem _ (List.mem_singleton_self _)
    · rw [hconfig]
      exact hone
  · intro hfollow
    obtain ⟨-, doc, hdoc, hnearest, -⟩ := hfollow ix hix 0 0 hlookup
    rw [hget] at hdoc
    cases hdoc
    unfold IvfIndex.findNearestCentroid at hnearest
    rw [hconfig, hcentroids] at hnearest
    revert hnearest
    decide +kernel

/-- An upsert takes it to the other list. -/
theorem upserted_follows :
    ∃ (s : Session) (d : Disk) (t : Table) (ix : IvfIndex),
      Written "c" clustersConfig Collection.KeepsLists s d t ∧ s.coll.vectorIndex = .ivf ix ∧
        ix.vectorToCluster.lookup 0 = some 1 ∧ s.coll.AssignmentsFollow d := by
  have hfits : Table.Fits ∅ ((clustersThen (.upsert moved)).map .call) := by
    refine ⟨?_, ?_, ?_, trivial⟩
    all_goals decide +kernel
  have hallows : Table.Allows Collection.KeepsLists ∅ (clustersThen (.upsert moved)) := by
    refine ⟨fun c d h => h.keepsLists_insert rfl, fun c d h => h.keepsLists_insert ?_,
      fun _ _ _ => trivial, trivial⟩
    decide +kernel
  obtain ⟨s, d, ix, hwritten, hix, -, -, hlookup⟩ :=
    written_session 1 (by simp [clustersThen, Call.IsWrite]) hfits hallows (by decide +kernel)
  exact ⟨s, d, _, ix, hwritten, hix, hlookup, (assignments_follow hwritten).1⟩

end
