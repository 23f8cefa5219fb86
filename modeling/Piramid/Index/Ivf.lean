-- SUMMARY: The IVF index: clustering, insertion and removal, the ids it tracks, and when an insertion cannot panic.
import Piramid.Base.Loop
import Piramid.Config
import Piramid.Index.Reader

/-!
# The IVF index

Ids wait in a pending set until the reader holds enough vectors. Then all lists
are built from what the reader holds, and the pending set is emptied.
-/

open Loop

/-- `index::ivf::IvfIndex`. -/
structure IvfIndex where
  config : IvfConfig
  centroids : List Vector32
  invertedLists : List (List Uuid)
  vectorToCluster : HashMap Uuid Nat
  pendingVectors : Finset Uuid
  dimensions : Nat

/-- `lists[i].push(a)`. -/
def pushAt {α : Type} (lists : List (List α)) (i : Nat) (a : α) : Except Fault (List (List α)) :=
  if i < lists.length then .ok (lists.modify i (· ++ [a]))
  else .error (.panic ("index out of bounds: the len is " ++ toString lists.length ++
    " but the index is " ++ toString i))

namespace IvfIndex

def new (config : IvfConfig) : IvfIndex where
  config := config
  centroids := []
  invertedLists := []
  vectorToCluster := ∅
  pendingVectors := ∅
  dimensions := 0

/-! ## Clustering -/

section

variable [Floats]

/-- `Iterator::max_by` on the scores: the last of the greatest. -/
def maxByScore : List (Nat × F32) → Option (Nat × F32)
  | [] => none
  | s :: ss => some (ss.foldl (fun best s => if F32.cmp best.2 s.2 = .gt then best else s) s)

def findNearestCentroid (ix : IvfIndex) (vector : Vector32) : Except Fault Nat := do
  let scores ← ix.centroids.zipIdx.mapM fun (centroid, i) => do
    let score ← ix.config.metric.calculate vector centroid ix.config.mode
    pure (i, score)
  pure (((maxByScore scores).map Prod.fst).getD 0)

/-- `for (i, &val) in vec.iter().enumerate() { centroid[i] += val; }`. -/
def addInto (centroid vec : Vector32) : Except Fault Vector32 :=
  if vec.length ≤ centroid.length then
    .ok (List.zipWith Floats.add centroid vec ++ centroid.drop vec.length)
  else .error (.panic ("index out of bounds: the len is " ++ toString centroid.length ++
    " but the index is " ++ toString centroid.length))

def computeCentroid (ix : IvfIndex) (cluster : List (Uuid × Vector32)) : Except Fault Vector32 :=
  if cluster = [] then .ok (List.replicate ix.dimensions F32.zero)
  else do
    let centroid ← cluster.foldlM (fun centroid entry => addInto centroid entry.2)
      (List.replicate ix.dimensions F32.zero)
    pure (centroid.map fun val => Floats.div val (Floats.ofUsize cluster.length))

/-- The assignment step of k-means. -/
def assignClusters (ix : IvfIndex) (vectorList : List (Uuid × Vector32)) (numClusters : Nat) :
    Except Fault (List (List (Uuid × Vector32))) :=
  vectorList.foldlM (fun clusters entry => do
    let clusterId ← ix.findNearestCentroid entry.2
    pushAt clusters clusterId entry) (List.replicate numClusters [])

/-- The update of one centroid, with the flag that says whether all are stable. -/
def updateCentroid (state : IvfIndex × Bool) (cluster : List (Uuid × Vector32) × Nat) :
    Except Fault (IvfIndex × Bool) :=
  let (ix, converged) := state
  let (entries, i) := cluster
  if entries = [] then .ok (ix, converged)
  else do
    let newCentroid ← ix.computeCentroid entries
    match ix.centroids[i]? with
    | none => .error (.panic ("index out of bounds: the len is " ++
        toString ix.centroids.length ++ " but the index is " ++ toString i))
    | some old =>
      let distance ← ix.config.metric.calculate old newCentroid ix.config.mode
      pure ({ ix with centroids := ix.centroids.set i newCentroid },
        converged && !F32.lt distance F32.converged)

/-- The k-means iterations. -/
def iterate (vectorList : List (Uuid × Vector32)) (numClusters : Nat) :
    Nat → IvfIndex → Except Fault IvfIndex
  | 0, ix => .ok ix
  | n + 1, ix => do
    let clusters ← ix.assignClusters vectorList numClusters
    let (ix, converged) ← clusters.zipIdx.foldlM updateCentroid (ix, true)
    if converged then .ok ix else iterate vectorList numClusters n ix

/-- One vector goes into the list of its cluster. -/
def assign (ix : IvfIndex) (entry : Uuid × Vector32) : Except Fault IvfIndex := do
  let clusterId ← ix.findNearestCentroid entry.2
  let invertedLists ← pushAt ix.invertedLists clusterId entry.1
  pure { ix with invertedLists, vectorToCluster := ix.vectorToCluster.insert entry.1 clusterId }

def buildClusters (ix : IvfIndex) (vectors : VectorReader) : Except Fault IvfIndex :=
  if vectors.len = 0 then .ok ix
  else do
    let vectorList := vectors.iter
    let numClusters := min ix.config.numClusters vectorList.length
    let ix := { ix with
      dimensions := (vectorList.head?.map fun entry => entry.2.length).getD ix.dimensions
      centroids := (vectorList.take numClusters).map Prod.snd }
    let ix ← iterate vectorList numClusters ix.config.maxIterations ix
    vectorList.foldlM assign { ix with
      invertedLists := List.replicate numClusters []
      vectorToCluster := ∅
      pendingVectors := ∅ }

def insert (ix : IvfIndex) (id : Uuid) (vector : Vector32) (vectors : VectorReader) :
    Except Fault IvfIndex :=
  if id ∈ ix.vectorToCluster ∨ id ∈ ix.pendingVectors then .ok ix
  else if ix.centroids = [] then
    let ix := { ix with pendingVectors := Insert.insert id ix.pendingVectors }
    if vectors.len ≥ ix.config.numClusters then ix.buildClusters vectors else .ok ix
  else do
    let clusterId ← ix.findNearestCentroid vector
    if clusterId ≥ ix.invertedLists.length then .ok ix
    else .ok { ix with
      invertedLists := ix.invertedLists.modify clusterId (· ++ [id])
      vectorToCluster := ix.vectorToCluster.insert id clusterId }

end

def remove (ix : IvfIndex) (id : Uuid) : IvfIndex :=
  let ix := { ix with pendingVectors := ix.pendingVectors.erase id }
  match ix.vectorToCluster.lookup id with
  | none => ix
  | some clusterId => { ix with
      vectorToCluster := ix.vectorToCluster.erase id
      invertedLists := ix.invertedLists.modify clusterId (·.filter (· ≠ id)) }

section

variable [Floats]

/-- The score of every centroid, with its place. -/
def scoreCentroids (ix : IvfIndex) (query : Vector32) : Except Fault (List (Nat × F32)) :=
  ix.centroids.zipIdx.mapM fun (centroid, i) => do
    let score ← ix.config.metric.calculate query centroid ix.config.mode
    pure (i, score)

/-- The ids in the lists of the first `nprobe` centroids. -/
def probe (ix : IvfIndex) (centroidDistances : List (Nat × F32)) (nprobe : Nat) : List Uuid :=
  (centroidDistances.take nprobe).flatMap fun entry => (ix.invertedLists[entry.1]?).getD []

def search (ix : IvfIndex) (query : Vector32) (k : Nat) (vectors : VectorReader)
    (quality : SearchConfig) : Except Fault (List Uuid) :=
  if ix.centroids = [] then .error (.error (.index .notInitialized))
  else do
    let centroidDistances ← sortByScore (← ix.scoreCentroids query)
    let nprobe := quality.nprobe.getD ix.config.numProbes
    let candidates ← (ix.probe centroidDistances nprobe).mapM
      (vectors.score "IVF" ix.config.metric ix.config.mode query)
    let candidates ← sortByScore candidates
    pure ((candidates.take k).map Prod.fst)

end

/-- Pending and assigned ids. -/
def trackedIds (ix : IvfIndex) : Finset Uuid := ix.pendingVectors ∪ ix.vectorToCluster.keys

/-! ## Insertion does not panic -/

theorem pushAt_returns {α : Type} {lists : List (List α)} {i : Nat} (hi : i < lists.length)
    (a : α) : Returns (fun ls => ls.length = lists.length ∧
      ∀ l ∈ ls, ∃ l' ∈ lists, ∀ b ∈ l, b = a ∨ b ∈ l') (pushAt lists i a) := by
  rw [pushAt, if_pos hi]
  refine .ok ⟨by simp, ?_⟩
  intro l hl
  obtain ⟨j, hj⟩ := List.mem_iff_getElem?.mp hl
  rw [List.getElem?_modify] at hj
  cases hlj : lists[j]? with
  | none => simp [hlj] at hj
  | some l' =>
      refine ⟨l', List.mem_of_getElem? hlj, ?_⟩
      intro b hb
      by_cases hij : i = j
      · simp only [hlj, hij, if_true] at hj
        cases hj
        simpa [or_comm] using hb
      · simp only [hlj, hij, if_false] at hj
        cases hj
        exact .inr hb

section

variable [Floats] {dim n : Nat} {ix : IvfIndex}

theorem mem_of_maxByScore {ss : List (Nat × F32)} {s : Nat × F32} (h : maxByScore ss = some s) :
    s ∈ ss := by
  cases ss with
  | nil => cases h
  | cons s₀ ss =>
      have key : ∀ (ss : List (Nat × F32)) (best : Nat × F32),
          ss.foldl (fun best s => if F32.cmp best.2 s.2 = .gt then best else s) best
            ∈ best :: ss := by
        intro ss
        induction ss with
        | nil => simp
        | cons s ss ih =>
            intro best
            have hmem := ih (if F32.cmp best.2 s.2 = .gt then best else s)
            rw [List.foldl_cons]
            rw [List.mem_cons] at hmem
            rcases hmem with h | h
            · rw [h]
              split <;> simp
            · exact List.mem_cons_of_mem _ (List.mem_cons_of_mem _ h)
      cases h
      exact key ss s₀

/-- The shape of an index that can score vectors of `dim` components. -/
structure Ready (dim : Nat) (ix : IvfIndex) : Prop where
  mode : ix.config.mode.Implemented
  clusters : 1 ≤ ix.config.numClusters
  centroids : ∀ c ∈ ix.centroids, c.length = dim

theorem findNearestCentroid_returns (h : Ready dim ix) {vector : Vector32}
    (hv : vector.length = dim) :
    Returns (fun i => ix.centroids ≠ [] → i < ix.centroids.length)
      (ix.findNearestCentroid vector) := by
  have hscores : Returns
      (fun ss : List (Nat × F32) => ss.length = ix.centroids.zipIdx.length ∧
        ∀ s ∈ ss, ∃ c ∈ ix.centroids.zipIdx, s.1 = c.2)
      (ix.centroids.zipIdx.mapM fun (centroid, i) => do
        let score ← ix.config.metric.calculate vector centroid ix.config.mode
        pure (i, score)) := by
    apply mapM_returns (P := fun (c : Vector32 × Nat) (s : Nat × F32) => s.1 = c.2)
    rintro ⟨centroid, i⟩ hmem
    have hc : centroid ∈ ix.centroids := List.fst_mem_of_mem_zipIdx hmem
    obtain ⟨score, hscore⟩ :=
      ix.config.metric.calculate_ok h.mode (hv.trans (h.centroids centroid hc).symm)
    refine ⟨(i, score), ?_, rfl⟩
    simp only [hscore]
    rfl
  rw [findNearestCentroid]
  refine hscores.bind fun ss hss => .ok fun hne => ?_
  obtain ⟨hlen, hall⟩ := hss
  cases hmax : maxByScore ss with
  | none =>
      cases ss with
      | nil => exact absurd (List.length_eq_zero_iff.mp (by simpa using hlen.symm)) hne
      | cons s ss => simp [maxByScore] at hmax
  | some s =>
      obtain ⟨c, hc, hs⟩ := hall s (mem_of_maxByScore hmax)
      have := (List.mem_zipIdx hc).2.1
      simp only [Option.map_some, Option.getD_some, hs]
      simpa using this

theorem addInto_returns {centroid vec : Vector32} (hc : centroid.length = dim)
    (hv : vec.length = dim) : Returns (fun c => c.length = dim) (addInto centroid vec) := by
  rw [addInto, if_pos (by omega)]
  exact .ok (by simp [hc, hv])

theorem computeCentroid_returns (hdim : ix.dimensions = dim) {cluster : List (Uuid × Vector32)}
    (hcl : ∀ e ∈ cluster, e.2.length = dim) :
    Returns (fun c => c.length = dim) (ix.computeCentroid cluster) := by
  rw [computeCentroid]
  split
  · exact .ok (by simp [hdim])
  · have hsum : Returns (fun c => (∀ e ∈ ([] : List (Uuid × Vector32)), e.2.length = dim) ∧
          c.length = dim)
        (cluster.foldlM (fun centroid entry => addInto centroid entry.2)
          (List.replicate ix.dimensions F32.zero)) := by
      apply foldlM_returns fun (rest : List (Uuid × Vector32)) (c : Vector32) =>
        (∀ e ∈ rest, e.2.length = dim) ∧ c.length = dim
      · rintro e rest c ⟨hrest, hc⟩
        exact (addInto_returns hc (hrest e (by simp))).mono fun c' hc' =>
          ⟨fun e' he' => hrest e' (by simp [he']), hc'⟩
      · exact ⟨hcl, by simp [hdim]⟩
    exact hsum.bind fun c hc => .ok (by simp [hc.2])

/-- The index in the middle of k-means with `n` centroids. -/
structure Clustering (dim n : Nat) (config : IvfConfig) (ix : IvfIndex) : Prop where
  config_eq : ix.config = config
  dimensions : ix.dimensions = dim
  length : ix.centroids.length = n
  centroids : ∀ c ∈ ix.centroids, c.length = dim

variable {config : IvfConfig}

omit [Floats] in
theorem Clustering.ready (h : Clustering dim n config ix) (hmode : config.mode.Implemented)
    (hn : 1 ≤ config.numClusters) : Ready dim ix :=
  ⟨h.config_eq ▸ hmode, h.config_eq ▸ hn, h.centroids⟩

theorem assignClusters_returns (h : Ready dim ix) (hlen : ix.centroids.length = n) (hn : 0 < n)
    {vectorList : List (Uuid × Vector32)} (hv : ∀ e ∈ vectorList, e.2.length = dim) :
    Returns (fun cs => cs.length = n ∧ ∀ c ∈ cs, ∀ e ∈ c, e.2.length = dim)
      (ix.assignClusters vectorList n) := by
  have hloop := foldlM_returns (f := fun (clusters : List (List (Uuid × Vector32))) entry => do
      let clusterId ← ix.findNearestCentroid entry.2
      pushAt clusters clusterId entry)
    (fun rest cs => (∀ e ∈ rest, e.2.length = dim) ∧ cs.length = n ∧
      ∀ c ∈ cs, ∀ e ∈ c, e.2.length = dim) (l := vectorList) (b := List.replicate n []) ?_ ?_
  · exact hloop.mono fun _ hcs => hcs.2
  · rintro e rest cs ⟨hrest, hcs, hall⟩
    have he := hrest e (by simp)
    refine (findNearestCentroid_returns h he).bind fun i hi => ?_
    have hne : ix.centroids ≠ [] := List.ne_nil_of_length_pos (hlen ▸ hn)
    refine (pushAt_returns (show i < cs.length from hcs ▸ hlen ▸ hi hne) e).mono ?_
    rintro cs' ⟨hlen', hmem⟩
    refine ⟨fun e' he' => hrest e' (by simp [he']), hlen'.trans hcs, ?_⟩
    intro c hc e' he'
    obtain ⟨c', hc', hsub⟩ := hmem c hc
    exact (hsub e' he').elim (fun h => h ▸ he) (hall c' hc' e')
  · refine ⟨hv, by simp, ?_⟩
    intro c hc e he
    rw [List.eq_of_mem_replicate hc] at he
    cases he

theorem updateCentroid_returns (h : Clustering dim n config ix) (hmode : config.mode.Implemented)
    {converged : Bool} {cluster : List (Uuid × Vector32) × Nat} (hi : cluster.2 < n)
    (hcl : ∀ e ∈ cluster.1, e.2.length = dim) :
    Returns (fun st => Clustering dim n config st.1) (updateCentroid (ix, converged) cluster) := by
  obtain ⟨entries, i⟩ := cluster
  simp only [updateCentroid]
  split
  · exact .ok h
  · refine (computeCentroid_returns h.dimensions hcl).bind fun new hnew => ?_
    have hlt : i < ix.centroids.length := h.length ▸ hi
    rw [List.getElem?_eq_getElem hlt]
    have hold : ix.centroids[i].length = dim := h.centroids _ (List.getElem_mem hlt)
    obtain ⟨x, hx⟩ := ix.config.metric.calculate_ok (h.config_eq ▸ hmode : ix.config.mode.Implemented)
      (hold.trans hnew.symm)
    simp only [hx]
    refine .ok ⟨h.config_eq, h.dimensions, by simp [h.length], ?_⟩
    intro c hc
    cases List.mem_or_eq_of_mem_set hc with
    | inl hmem => exact h.centroids c hmem
    | inr heq => exact heq ▸ hnew

theorem iterate_returns (hmode : config.mode.Implemented) (hn : 1 ≤ config.numClusters)
    (hpos : 0 < n) {vectorList : List (Uuid × Vector32)} (hv : ∀ e ∈ vectorList, e.2.length = dim)
    (iterations : Nat) (h : Clustering dim n config ix) :
    Returns (Clustering dim n config) (iterate vectorList n iterations ix) := by
  induction iterations generalizing ix with
  | zero => exact .ok h
  | succ iterations ih =>
      rw [iterate]
      refine (assignClusters_returns (h.ready hmode hn) h.length hpos hv).bind ?_
      rintro clusters ⟨hlen, hall⟩
      have hloop := foldlM_returns (f := updateCentroid)
        (fun rest st => (∀ c ∈ rest, c.2 < n ∧ ∀ e ∈ c.1, e.2.length = dim) ∧
          Clustering dim n config st.1) (l := clusters.zipIdx) (b := (ix, true)) ?_ ?_
      · refine hloop.bind ?_
        rintro ⟨ix', converged⟩ ⟨-, hix'⟩
        cases converged with
        | true => exact .ok hix'
        | false => exact ih hix'
      · rintro c rest ⟨ix', converged⟩ ⟨hrest, hix'⟩
        refine (updateCentroid_returns hix' hmode (hrest c (by simp)).1 (hrest c (by simp)).2).mono ?_
        exact fun st hst => ⟨fun c' hc' => hrest c' (by simp [hc']), hst⟩
      · refine ⟨?_, h⟩
        rintro ⟨c, i⟩ hc
        have hi := (List.mem_zipIdx hc).2.1
        exact ⟨by simpa [hlen] using hi, hall c (List.fst_mem_of_mem_zipIdx hc)⟩

theorem buildClusters_returns (h : Ready dim ix) {vectors : VectorReader}
    (hv : vectors.Uniform dim) : Returns (Ready dim) (ix.buildClusters vectors) := by
  rw [buildClusters]
  split
  · exact .ok h
  · rename_i hne
    have hlen : vectors.iter.length = vectors.len := HashOrder.length_entries _ _
    have hpos : 0 < min ix.config.numClusters vectors.iter.length := by
      have := h.clusters
      omega
    have hdim : (vectors.iter.head?.map fun entry => entry.2.length).getD ix.dimensions = dim := by
      cases hl : vectors.iter with
      | nil => simp [hl] at hlen; omega
      | cons e es => simpa using hv.iter e (by simp [hl])
    have hstart : Clustering dim (min ix.config.numClusters vectors.iter.length) ix.config { ix with
        dimensions := (vectors.iter.head?.map fun entry => entry.2.length).getD ix.dimensions
        centroids :=
          (vectors.iter.take (min ix.config.numClusters vectors.iter.length)).map Prod.snd } := by
      refine ⟨rfl, hdim, by simp, ?_⟩
      intro c hc
      obtain ⟨e, he, rfl⟩ := List.mem_map.mp hc
      exact hv.iter e (List.mem_of_mem_take he)
    refine (iterate_returns h.mode h.clusters hpos hv.iter _ hstart).bind ?_
    · intro ix' hix'
      have hloop := foldlM_returns (f := assign)
        (fun rest (ix : IvfIndex) => (∀ e ∈ rest, e.2.length = dim) ∧ Ready dim ix ∧
          ix.centroids = ix'.centroids ∧ ix.invertedLists.length = ix'.centroids.length)
        (l := vectors.iter) (b := { ix' with
          invertedLists := List.replicate (min ix.config.numClusters vectors.iter.length) []
          vectorToCluster := ∅
          pendingVectors := ∅ }) ?_ ?_
      · exact hloop.mono fun _ hix => hix.2.1
      · rintro e rest ix₁ ⟨hrest, hready, hcent, hlists⟩
        refine (findNearestCentroid_returns hready (hrest e (by simp))).bind fun i hi => ?_
        have hlt : i < ix₁.invertedLists.length := by
          rw [hlists, ← hcent]
          exact hi (List.ne_nil_of_length_pos (by rw [hcent, hix'.length]; exact hpos))
        refine (pushAt_returns hlt e.1).bind fun lists hlists' => .ok ⟨?_, ?_, hcent, ?_⟩
        · exact fun e' he' => hrest e' (by simp [he'])
        · exact ⟨hready.mode, hready.clusters, hready.centroids⟩
        · exact hlists'.1.trans hlists
      · have hready := hix'.ready h.mode h.clusters
        exact ⟨hv.iter, ⟨hready.mode, hready.clusters, hready.centroids⟩, rfl,
          by simp [hix'.length]⟩

theorem insert_returns (h : Ready dim ix) {id : Uuid} {vector : Vector32} {vectors : VectorReader}
    (hvec : vector.length = dim) (hv : vectors.Uniform dim) :
    Returns (Ready dim) (ix.insert id vector vectors) := by
  rw [insert]
  split
  · exact .ok h
  split
  · have hpend : Ready dim { ix with pendingVectors := Insert.insert id ix.pendingVectors } :=
      ⟨h.mode, h.clusters, h.centroids⟩
    simp only
    split
    · exact buildClusters_returns hpend hv
    · exact .ok hpend
  · refine (findNearestCentroid_returns h hvec).bind fun i _ => ?_
    split
    · exact .ok h
    · exact .ok ⟨h.mode, h.clusters, h.centroids⟩

end

/-! ## Tracked ids -/

section

variable [Floats] {ix ix' : IvfIndex}

/-- Every centroid has its list. -/
def Listed (ix : IvfIndex) : Prop := ix.invertedLists.length = ix.centroids.length

omit [Floats] in
theorem pushAt_eq_ok {α : Type} {lists lists' : List (List α)} {i : Nat} {a : α}
    (h : pushAt lists i a = .ok lists') : i < lists.length ∧ lists'.length = lists.length := by
  rw [pushAt] at h
  split at h
  · rename_i hi
    cases h
    exact ⟨hi, by simp⟩
  · cases h

theorem updateCentroid_keeps {st st' : IvfIndex × Bool} {cluster : List (Uuid × Vector32) × Nat}
    (h : updateCentroid st cluster = .ok st') :
    st'.1.config = st.1.config ∧ st'.1.centroids.length = st.1.centroids.length := by
  simp only [updateCentroid] at h
  split at h
  · cases h
    exact ⟨rfl, rfl⟩
  · rw [bind_eq_ok] at h
    obtain ⟨new, -, h⟩ := h
    split at h
    · cases h
    · rw [bind_eq_ok] at h
      obtain ⟨distance, -, h⟩ := h
      cases h
      exact ⟨rfl, by simp⟩

theorem iterate_keeps {vectorList : List (Uuid × Vector32)} {n iterations : Nat}
    (h : iterate vectorList n iterations ix = .ok ix') :
    ix'.config = ix.config ∧ ix'.centroids.length = ix.centroids.length := by
  induction iterations generalizing ix with
  | zero =>
      cases h
      exact ⟨rfl, rfl⟩
  | succ iterations ih =>
      rw [iterate, bind_eq_ok] at h
      obtain ⟨clusters, -, h⟩ := h
      rw [bind_eq_ok] at h
      obtain ⟨⟨ix₁, converged⟩, hloop, h⟩ := h
      have hkeep := foldlM_keeps (fun _ (st : IvfIndex × Bool) => st.1.config = ix.config ∧
          st.1.centroids.length = ix.centroids.length)
        (fun c cs st st' hst hstep =>
          ⟨(updateCentroid_keeps hstep).1.trans hst.1, (updateCentroid_keeps hstep).2.trans hst.2⟩)
        ⟨rfl, rfl⟩ hloop
      cases converged with
      | true =>
          cases h
          exact hkeep
      | false =>
          have := ih h
          exact ⟨this.1.trans hkeep.1, this.2.trans hkeep.2⟩

/-- A rebuild tracks what the reader holds, and nothing else. -/
theorem buildClusters_tracks {vectors : VectorReader} (hne : vectors.len ≠ 0)
    (h : ix.buildClusters vectors = .ok ix') :
    ix'.trackedIds = vectors.vectors.keys ∧ ix'.Listed ∧ ix'.centroids ≠ [] ∧
      ix'.config = ix.config := by
  rw [buildClusters, if_neg hne, bind_eq_ok] at h
  obtain ⟨ix₁, hiter, h⟩ := h
  have hids : vectors.iter.map Prod.fst = vectors.order.enum vectors.vectors.keys :=
    HashOrder.map_fst_entries _ _
  have hlen := vectors.length_iter
  generalize hn : min ix.config.numClusters vectors.iter.length = n at h hiter
  have hcent : ix₁.centroids.length = n := by
    rw [(iterate_keeps hiter).2]
    simp [← hn]
  have hkeep := foldlM_keeps (fun (rest : List (Uuid × Vector32)) (ix₂ : IvfIndex) =>
      ix₂.pendingVectors = ∅ ∧
      (∀ id, id ∈ vectors.vectors.keys ↔ id ∈ ix₂.vectorToCluster.keys ∨ id ∈ rest.map Prod.fst) ∧
      ix₂.invertedLists.length = n ∧ ix₂.centroids = ix₁.centroids ∧ ix₂.config = ix₁.config ∧
      (rest = vectors.iter ∨ 0 < n))
    ?_ ?_ h
  · obtain ⟨hpend, hkeys, hlists, hcents, hcfg, hpos⟩ := hkeep
    have hpos : 0 < n := hpos.resolve_left fun e => hne (by rw [← hlen, ← e]; rfl)
    refine ⟨?_, hlists.trans (hcents ▸ hcent.symm), ?_, hcfg.trans (iterate_keeps hiter).1⟩
    · ext id
      rw [hkeys id, trackedIds, hpend]
      simp
    · rw [hcents]
      exact List.ne_nil_of_length_pos (hcent ▸ hpos)
  · rintro e rest ix₂ ix₃ ⟨hpend, hkeys, hlists, hcents, hcfg, -⟩ hstep
    rw [assign, bind_eq_ok] at hstep
    obtain ⟨i, -, hstep⟩ := hstep
    rw [bind_eq_ok] at hstep
    obtain ⟨lists, hpush, hstep⟩ := hstep
    cases hstep
    obtain ⟨hi, hlists'⟩ := pushAt_eq_ok hpush
    refine ⟨hpend, ?_, hlists'.trans hlists, hcents, hcfg, .inr (by omega)⟩
    intro id
    rw [hkeys id, HashMap.keys_insert, Finset.mem_insert, List.map_cons, List.mem_cons]
    tauto
  · refine ⟨rfl, ?_, by simp, rfl, rfl, .inl rfl⟩
    intro id
    simp [hids, vectors.order.mem_enum]

/-- There are no more centroids than vectors. -/
theorem length_buildClusters {vectors : VectorReader} (hnone : ix.centroids = [])
    (h : ix.buildClusters vectors = .ok ix') : ix'.centroids.length ≤ vectors.len := by
  rw [buildClusters] at h
  split at h
  · cases h
    rw [hnone]
    exact Nat.zero_le _
  · obtain ⟨ix₁, hiter, h⟩ := bind_eq_ok.mp h
    have hlen : ix₁.centroids.length ≤ vectors.len := by
      rw [(iterate_keeps hiter).2, ← vectors.length_iter]
      simp
    have hkeep := foldlM_keeps (fun _ (ix₂ : IvfIndex) => ix₂.centroids.length ≤ vectors.len) ?_ ?_ h
    · exact hkeep
    · intro e _ ix₂ ix₃ hle hstep
      obtain ⟨i, -, hstep⟩ := bind_eq_ok.mp hstep
      obtain ⟨lists, -, hstep⟩ := bind_eq_ok.mp hstep
      cases hstep
      exact hle
    · exact hlen

/-- The insertion of `id` builds all lists from the reader. -/
def Rebuilds (ix : IvfIndex) (id : Uuid) (vectors : VectorReader) : Prop :=
  id ∉ ix.trackedIds ∧ ix.centroids = [] ∧ ix.config.numClusters ≤ vectors.len ∧ vectors.len ≠ 0

omit [Floats] in
theorem mem_trackedIds {id : Uuid} :
    id ∈ ix.trackedIds ↔ id ∈ ix.vectorToCluster ∨ id ∈ ix.pendingVectors := by
  rw [trackedIds, Finset.mem_union, Finmap.mem_keys, or_comm]

/-- What an insertion tracks when it rebuilds. -/
theorem insert_rebuilds {id : Uuid} {vector : Vector32} {vectors : VectorReader}
    (hre : ix.Rebuilds id vectors) (h : ix.insert id vector vectors = .ok ix') :
    ix'.trackedIds = vectors.vectors.keys ∧ ix'.Listed ∧ ix'.centroids ≠ [] ∧
      ix'.config = ix.config := by
  obtain ⟨hid, hcent, hlen, hne⟩ := hre
  rw [mem_trackedIds] at hid
  rw [insert, if_neg hid, if_pos hcent] at h
  simp only [ge_iff_le, hlen, if_true] at h
  have hbuild := buildClusters_tracks hne h
  exact hbuild

theorem findNearestCentroid_lt {vector : Vector32} {i : Nat} (hne : ix.centroids ≠ [])
    (h : ix.findNearestCentroid vector = .ok i) : i < ix.centroids.length := by
  rw [findNearestCentroid, bind_eq_ok] at h
  obtain ⟨scores, hscores, h⟩ := h
  obtain ⟨hlen, hall⟩ := mapM_eq_ok hscores
  cases hmax : maxByScore scores with
  | none =>
      cases scores with
      | nil =>
          simp only [List.length_zipIdx, List.length_nil] at hlen
          exact absurd (List.length_eq_zero_iff.mp hlen.symm) hne
      | cons s ss => simp [maxByScore] at hmax
  | some s =>
      rw [hmax] at h
      cases h
      obtain ⟨⟨c, j⟩, hc, hs⟩ := hall s (mem_of_maxByScore hmax)
      rw [bind_eq_ok] at hs
      obtain ⟨x, -, hs⟩ := hs
      cases hs
      simpa using (List.mem_zipIdx hc).2.1

/-- What an insertion tracks when it does not. -/
theorem insert_tracks {id : Uuid} {vector : Vector32} {vectors : VectorReader}
    (hre : ¬ix.Rebuilds id vectors) (hlist : ix.Listed)
    (h : ix.insert id vector vectors = .ok ix') :
    ix'.trackedIds = Insert.insert id ix.trackedIds ∧ ix'.Listed ∧
      (ix'.centroids = [] ↔ ix.centroids = []) ∧ ix'.config = ix.config := by
  rw [insert] at h
  split at h
  · rename_i hid
    cases h
    rw [Finset.insert_eq_of_mem (mem_trackedIds.mpr hid)]
    exact ⟨rfl, hlist, Iff.rfl, rfl⟩
  rename_i hid
  split at h
  · rename_i hcent
    have hpend : { ix with pendingVectors := Insert.insert id ix.pendingVectors }.trackedIds =
        Insert.insert id ix.trackedIds := by
      rw [trackedIds, trackedIds, Finset.insert_union]
    have key : ix' = { ix with pendingVectors := Insert.insert id ix.pendingVectors } := by
      simp only at h
      split at h
      · rename_i hlen
        have hzero : vectors.len = 0 := by
          by_contra hne
          exact hre ⟨mem_trackedIds.not.mpr hid, hcent, hlen, hne⟩
        rw [buildClusters, if_pos hzero] at h
        exact (Except.ok.inj h).symm
      · exact (Except.ok.inj h).symm
    rw [key]
    exact ⟨hpend, hlist, Iff.rfl, rfl⟩
  · rename_i hcent
    rw [bind_eq_ok] at h
    obtain ⟨i, hi, h⟩ := h
    have hlt : i < ix.invertedLists.length := hlist.symm ▸ findNearestCentroid_lt hcent hi
    rw [if_neg (by omega)] at h
    cases h
    refine ⟨?_, by simpa [Listed] using hlist, Iff.rfl, rfl⟩
    rw [trackedIds, trackedIds, HashMap.keys_insert, Finset.union_insert]

end

theorem trackedIds_remove (ix : IvfIndex) (id : Uuid) :
    (ix.remove id).trackedIds = ix.trackedIds.erase id := by
  rw [remove]
  simp only
  cases h : ix.vectorToCluster.lookup id with
  | none =>
      have : id ∉ ix.vectorToCluster.keys := (HashMap.not_mem_keys_iff _ _).mpr h
      simp only [trackedIds, Finset.erase_union_distrib, Finset.erase_eq_of_notMem this]
  | some i =>
      ext id'
      simp only [trackedIds, Finset.erase_union_distrib, Finset.mem_union, Finset.mem_erase,
        Finmap.mem_keys, Finmap.mem_erase]

theorem listed_remove {ix : IvfIndex} (h : ix.Listed) (id : Uuid) : (ix.remove id).Listed := by
  rw [remove]
  simp only
  split
  · exact h
  · simpa [Listed] using h

@[simp] theorem centroids_remove (ix : IvfIndex) (id : Uuid) :
    (ix.remove id).centroids = ix.centroids := by
  rw [remove]
  simp only
  split <;> rfl

@[simp] theorem config_remove (ix : IvfIndex) (id : Uuid) :
    (ix.remove id).config = ix.config := by
  rw [remove]
  simp only
  split <;> rfl

theorem Ready.remove {dim : Nat} {ix : IvfIndex} (h : Ready dim ix) (id : Uuid) :
    Ready dim (ix.remove id) := by
  rw [IvfIndex.remove]
  simp only
  split
  · exact ⟨h.mode, h.clusters, h.centroids⟩
  · exact ⟨h.mode, h.clusters, h.centroids⟩

end IvfIndex
