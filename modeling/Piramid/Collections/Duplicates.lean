-- SUMMARY: The pairs of similar documents that a collection reports, and when these are the pairs of live documents.
import Piramid.Collections.Reopen
import Piramid.Collections.Search
import Piramid.Index.Similarity

/-!
# Duplicates

A search is made for each vector in the cache. An id and one that the search for its
vector finds make a pair, which is scored once, by the metric of the request.
-/

open Loop Prog

/-- `collections::DuplicateHit`. -/
structure DuplicateHit where
  idA : Uuid
  idB : Uuid
  score : F32
deriving DecidableEq

def DuplicateHit.ids (hit : DuplicateHit) : Uuid × Uuid := (hit.idA, hit.idB)

/-- The arguments of `find_duplicates`. -/
structure DuplicateQuery where
  metric : Metric
  threshold : F32
  limit : Option Nat
  kOverride : Option Nat
  efOverride : Option Nat
  nprobeOverride : Option Nat

/-- The pairs that were seen, and those that score high enough. -/
structure DuplicateScan where
  seen : Finset (Uuid × Uuid)
  pairs : List DuplicateHit

namespace DuplicateQuery

/-- How many neighbours each of the ids is searched for. -/
def neighborK (q : DuplicateQuery) (numIds : Nat) : Nat :=
  let kDefault := 50 - 1
  let k := (q.kOverride.or (q.limit.map fun l => max (saturatingMul l 2) 10)).getD kDefault
  max (min k (numIds - 1)) 1

def searchConfig (q : DuplicateQuery) (search : SearchConfig) : SearchConfig :=
  { search with ef := q.efOverride.or search.ef, nprobe := q.nprobeOverride.or search.nprobe }

/-- The two ids, the lower one first. -/
def inOrder (id neighborId : Uuid) : Uuid × Uuid :=
  if id < neighborId then (id, neighborId) else (neighborId, id)

variable [Floats]

/-- One of the neighbours of `id`. -/
def visit (q : DuplicateQuery) (vectors : HashMap Uuid Vector32) (mode : ExecutionMode) (id : Uuid)
    (scan : DuplicateScan) (neighborId : Uuid) : Except Fault DuplicateScan :=
  if neighborId = id then .ok scan
  else
    let pair := inOrder id neighborId
    if pair ∈ scan.seen then .ok scan
    else
      let scan := { scan with seen := insert pair scan.seen }
      match vectors.lookup pair.1, vectors.lookup pair.2 with
      | some va, some vb => do
        let score ← q.metric.calculate va vb mode
        if score.ge q.threshold then
          pure { scan with pairs := scan.pairs ++ [⟨pair.1, pair.2, score⟩] }
        else pure scan
      | _, _ => .ok scan

/-- `sort_by`, and `truncate` if there is a limit. -/
def sortAndLimit (q : DuplicateQuery) (pairs : List DuplicateHit) : Except Fault (List DuplicateHit) := do
  let sorted ← sortBy .descending DuplicateHit.score pairs
  match q.limit with
  | some limit => pure (sorted.take limit)
  | none => pure sorted

end DuplicateQuery

namespace Collection

variable [Floats]

/-- The search for the vector of one of the ids. -/
def neighbors (c : Collection) (order : HashOrder Uuid) (q : DuplicateQuery) (vec : Vector32) :
    Except Fault (List Uuid) :=
  c.vectorIndex.search vec (q.neighborK (order.enum c.cache.vectors.keys).length)
    (c.cache.reader order) (q.searchConfig c.config.search) none c.cache.metadata

/-- One of the ids of the cache. -/
def scanId (c : Collection) (order : HashOrder Uuid) (q : DuplicateQuery) (scan : DuplicateScan)
    (id : Uuid) : Except Fault DuplicateScan :=
  match c.cache.vectors.lookup id with
  | none => .ok scan
  | some vec => do
    let neighbors ← c.neighbors order q vec
    neighbors.foldlM (q.visit c.cache.vectors c.config.execution id) scan

/-- `find_duplicates`. -/
def findDuplicates (c : Collection) (order : HashOrder Uuid) (q : DuplicateQuery) :
    Except Fault (List DuplicateHit) := do
  let scan ← (order.enum c.cache.vectors.keys).foldlM (c.scanId order q) ⟨∅, []⟩
  q.sortAndLimit scan.pairs

end Collection

section

variable [Floats] {c : Collection} {order : HashOrder Uuid} {q : DuplicateQuery}
  {vectors : HashMap Uuid Vector32} {mode : ExecutionMode} {id neighborId : Uuid}
  {scan scan' : DuplicateScan}

/-! ## One scan -/

namespace DuplicateQuery

omit [Floats] in
theorem inOrder_lt (hne : neighborId ≠ id) : (inOrder id neighborId).1 < (inOrder id neighborId).2 := by
  unfold inOrder
  split
  · rename_i hlt
    exact hlt
  · rename_i hge
    rw [BitVec.lt_def] at hge ⊢
    have hdiff : neighborId.toNat ≠ id.toNat := fun heq => hne (BitVec.eq_of_toNat_eq heq)
    exact lt_of_le_of_ne (not_lt.mp hge) hdiff

omit [Floats] in
/-- A pair is that of an id and the other one. -/
theorem inOrder_cases (id neighborId : Uuid) :
    inOrder id neighborId = (id, neighborId) ∨ inOrder id neighborId = (neighborId, id) := by
  unfold inOrder
  split
  · exact .inl rfl
  · exact .inr rfl

/-- The pair scores high enough. -/
def Scores (q : DuplicateQuery) (vectors : HashMap Uuid Vector32) (mode : ExecutionMode)
    (pair : Uuid × Uuid) (score : F32) : Prop :=
  ∃ va vb, vectors.lookup pair.1 = some va ∧ vectors.lookup pair.2 = some vb ∧
    q.metric.calculate va vb mode = .ok score ∧ score.ge q.threshold

theorem Scores.unique {pair : Uuid × Uuid} {x y : F32} (hx : q.Scores vectors mode pair x)
    (hy : q.Scores vectors mode pair y) : x = y := by
  obtain ⟨va, vb, hva, hvb, hx, -⟩ := hx
  obtain ⟨va', vb', hva', hvb', hy, -⟩ := hy
  rw [hva] at hva'
  rw [hvb] at hvb'
  cases hva'
  cases hvb'
  rw [hx] at hy
  exact Except.ok.inj hy

/-- The scan has each of the seen pairs that score high enough, once. -/
structure Scanned (q : DuplicateQuery) (vectors : HashMap Uuid Vector32) (mode : ExecutionMode)
    (scan : DuplicateScan) : Prop where
  mem : ∀ hit, hit ∈ scan.pairs ↔ hit.ids ∈ scan.seen ∧ q.Scores vectors mode hit.ids hit.score
  once : (scan.pairs.map DuplicateHit.ids).Nodup

theorem scanned_empty : q.Scanned vectors mode ⟨∅, []⟩ where
  mem hit := by simp
  once := List.nodup_nil

/-- A pair that is new, and does not score high enough. -/
theorem Scanned.skip (h : q.Scanned vectors mode scan) {pair : Uuid × Uuid}
    (hlow : ∀ score, ¬q.Scores vectors mode pair score) :
    q.Scanned vectors mode { scan with seen := insert pair scan.seen } where
  mem hit := by
    rw [h.mem, Finset.mem_insert]
    constructor
    · rintro ⟨hseen, hscores⟩
      exact ⟨.inr hseen, hscores⟩
    · rintro ⟨heq | hseen, hscores⟩
      · exact absurd (heq ▸ hscores) (hlow hit.score)
      · exact ⟨hseen, hscores⟩
  once := h.once

/-- A pair that is new, and scores high enough. -/
theorem Scanned.push (h : q.Scanned vectors mode scan) {pair : Uuid × Uuid} (hnew : pair ∉ scan.seen)
    {score : F32} (hscores : q.Scores vectors mode pair score) :
    q.Scanned vectors mode
      ⟨insert pair scan.seen, scan.pairs ++ [⟨pair.1, pair.2, score⟩]⟩ where
  mem hit := by
    rw [List.mem_append, List.mem_singleton, h.mem, Finset.mem_insert]
    constructor
    · rintro (⟨hseen, hhit⟩ | rfl)
      · exact ⟨.inr hseen, hhit⟩
      · exact ⟨.inl rfl, hscores⟩
    · rintro ⟨heq | hseen, hhit⟩
      · have hscore : hit.score = score := (heq ▸ hhit).unique hscores
        have hids : (hit.idA, hit.idB) = pair := heq
        subst hids
        subst hscore
        exact .inr rfl
      · exact .inl ⟨hseen, hhit⟩
  once := by
    rw [List.map_append]
    refine List.nodup_append'.mpr ⟨h.once, List.nodup_singleton _, ?_⟩
    refine List.disjoint_singleton.mpr fun hin => ?_
    obtain ⟨hit, hhit, hids⟩ := List.mem_map.mp hin
    have hpair : hit.ids = pair := hids
    exact hnew (hpair ▸ ((h.mem hit).mp hhit).1)

/-- One neighbour adds its pair to those that are seen. -/
theorem Scanned.visit (h : q.Scanned vectors mode scan)
    (hret : q.visit vectors mode id scan neighborId = .ok scan') :
    q.Scanned vectors mode scan' ∧
      ∀ pair, pair ∈ scan'.seen ↔ pair ∈ scan.seen ∨ neighborId ≠ id ∧ pair = inOrder id neighborId := by
  unfold DuplicateQuery.visit at hret
  split at hret
  · rename_i heq
    cases hret
    exact ⟨h, fun pair => ⟨.inl, fun hor => hor.resolve_right fun hne => hne.1 heq⟩⟩
  · rename_i hne
    simp only at hret
    split at hret
    · rename_i hseen
      cases hret
      refine ⟨h, fun pair => ⟨.inl, ?_⟩⟩
      rintro (hin | ⟨-, rfl⟩)
      · exact hin
      · exact hseen
    · rename_i hnew
      have hseen : ∀ pair, pair ∈ insert (inOrder id neighborId) scan.seen ↔
          pair ∈ scan.seen ∨ neighborId ≠ id ∧ pair = inOrder id neighborId := by
        intro pair
        rw [Finset.mem_insert, or_comm]
        simp only [ne_eq, hne, not_false_eq_true, true_and]
      split at hret
      · rename_i va vb hva hvb
        obtain ⟨score, hscore, hret⟩ := bind_eq_ok.mp hret
        split at hret
        · rename_i hge
          cases hret
          exact ⟨h.push hnew ⟨va, vb, hva, hvb, hscore, hge⟩, hseen⟩
        · rename_i hlow
          cases hret
          refine ⟨h.skip ?_, hseen⟩
          rintro x ⟨va', vb', hva', hvb', hx, hge⟩
          rw [hva] at hva'
          rw [hvb] at hvb'
          cases hva'
          cases hvb'
          rw [hscore] at hx
          cases hx
          exact hlow hge
      · rename_i hmissing
        cases hret
        refine ⟨h.skip ?_, hseen⟩
        rintro x ⟨va, vb, hva, hvb, -⟩
        exact hmissing va vb hva hvb

theorem Scanned.visits {neighbors : List Uuid} (h : q.Scanned vectors mode scan)
    (hret : neighbors.foldlM (q.visit vectors mode id) scan = .ok scan') :
    q.Scanned vectors mode scan' ∧ ∀ pair, pair ∈ scan'.seen ↔
      pair ∈ scan.seen ∨ ∃ neighborId ∈ neighbors, neighborId ≠ id ∧ pair = inOrder id neighborId := by
  induction neighbors generalizing scan with
  | nil =>
      cases hret
      exact ⟨h, fun pair => by simp⟩
  | cons neighborId neighbors ih =>
      rw [List.foldlM_cons] at hret
      obtain ⟨scan₁, hvisit, hrest⟩ := bind_eq_ok.mp hret
      obtain ⟨h₁, hseen₁⟩ := h.visit hvisit
      obtain ⟨h', hseen'⟩ := ih h₁ hrest
      refine ⟨h', fun pair => ?_⟩
      rw [hseen', hseen₁, List.exists_mem_cons_iff, or_assoc]

end DuplicateQuery

/-! ## All scans -/

namespace Collection

/-- The search for the vector of an id finds another one. -/
def Finds (c : Collection) (order : HashOrder Uuid) (q : DuplicateQuery) (id neighborId : Uuid) : Prop :=
  neighborId ≠ id ∧ ∃ vec neighbors, c.cache.vectors.lookup id = some vec ∧
    c.neighbors order q vec = .ok neighbors ∧ neighborId ∈ neighbors

/-- One of the pair finds the other. -/
def Paired (c : Collection) (order : HashOrder Uuid) (q : DuplicateQuery) (pair : Uuid × Uuid) : Prop :=
  ∃ id neighborId, c.Finds order q id neighborId ∧ pair = DuplicateQuery.inOrder id neighborId

theorem scanId_scanned (h : q.Scanned c.cache.vectors c.config.execution scan)
    (hret : c.scanId order q scan id = .ok scan') :
    q.Scanned c.cache.vectors c.config.execution scan' ∧ ∀ pair, pair ∈ scan'.seen ↔
      pair ∈ scan.seen ∨
        ∃ neighborId, c.Finds order q id neighborId ∧ pair = DuplicateQuery.inOrder id neighborId := by
  unfold scanId at hret
  split at hret
  · rename_i hnone
    cases hret
    refine ⟨h, fun pair => ⟨.inl, fun hor => hor.resolve_right ?_⟩⟩
    rintro ⟨neighborId, ⟨-, vec, neighbors, hvec, -⟩, -⟩
    rw [hnone] at hvec
    cases hvec
  · rename_i vec hvec
    obtain ⟨neighbors, hneighbors, hret⟩ := bind_eq_ok.mp hret
    obtain ⟨h', hseen⟩ := h.visits hret
    refine ⟨h', fun pair => ?_⟩
    rw [hseen]
    refine or_congr_right ⟨?_, ?_⟩
    · rintro ⟨neighborId, hin, hne, rfl⟩
      exact ⟨neighborId, ⟨hne, vec, neighbors, hvec, hneighbors, hin⟩, rfl⟩
    · rintro ⟨neighborId, ⟨hne, vec', neighbors', hvec', hneighbors', hin⟩, rfl⟩
      rw [hvec] at hvec'
      cases hvec'
      rw [hneighbors] at hneighbors'
      cases hneighbors'
      exact ⟨neighborId, hin, hne, rfl⟩

theorem scanIds_scanned {ids : List Uuid} (h : q.Scanned c.cache.vectors c.config.execution scan)
    (hret : ids.foldlM (c.scanId order q) scan = .ok scan') :
    q.Scanned c.cache.vectors c.config.execution scan' ∧ ∀ pair, pair ∈ scan'.seen ↔
      pair ∈ scan.seen ∨ ∃ id ∈ ids,
        ∃ neighborId, c.Finds order q id neighborId ∧ pair = DuplicateQuery.inOrder id neighborId := by
  induction ids generalizing scan with
  | nil =>
      cases hret
      exact ⟨h, fun pair => by simp⟩
  | cons id ids ih =>
      rw [List.foldlM_cons] at hret
      obtain ⟨scan₁, hscan, hrest⟩ := bind_eq_ok.mp hret
      obtain ⟨h₁, hseen₁⟩ := scanId_scanned h hscan
      obtain ⟨h', hseen'⟩ := ih h₁ hrest
      refine ⟨h', fun pair => ?_⟩
      rw [hseen', hseen₁, List.exists_mem_cons_iff, or_assoc]

/-- What is reported, but for the order and the limit: the pairs of which one finds the other,
and which score high enough. -/
theorem findDuplicates_eq_ok {hits : List DuplicateHit} (hret : c.findDuplicates order q = .ok hits) :
    ∃ pairs, q.sortAndLimit pairs = .ok hits ∧ (pairs.map DuplicateHit.ids).Nodup ∧
      ∀ hit, hit ∈ pairs ↔ c.Paired order q hit.ids ∧
        q.Scores c.cache.vectors c.config.execution hit.ids hit.score := by
  obtain ⟨scan, hscan, hret⟩ := bind_eq_ok.mp hret
  obtain ⟨h, hseen⟩ := scanIds_scanned DuplicateQuery.scanned_empty hscan
  refine ⟨scan.pairs, hret, h.once, fun hit => ?_⟩
  rw [h.mem, hseen]
  refine and_congr_left fun _ => ⟨?_, ?_⟩
  · rintro (hin | ⟨id, -, neighborId, hfinds, heq⟩)
    · exact absurd hin (Finset.notMem_empty _)
    · exact ⟨id, neighborId, hfinds, heq⟩
  · rintro ⟨id, neighborId, hfinds, heq⟩
    have hcached := hfinds
    obtain ⟨-, vec, -, hvec, -⟩ := hcached
    refine .inr ⟨id, ?_, neighborId, hfinds, heq⟩
    exact (order.mem_enum _ _).mpr ((HashMap.mem_keys_iff _ _).mpr ⟨vec, hvec⟩)

end Collection

namespace DuplicateQuery

variable {pairs hits : List DuplicateHit}

theorem sortAndLimit_eq_ok (h : q.sortAndLimit pairs = .ok hits) :
    ∃ sorted, sortBy .descending DuplicateHit.score pairs = .ok sorted ∧ hits.Sublist sorted := by
  obtain ⟨sorted, hsorted, h⟩ := bind_eq_ok.mp h
  refine ⟨sorted, hsorted, ?_⟩
  split at h
  · cases h
    exact List.take_sublist _ _
  · cases h
    exact List.Sublist.refl _

theorem mem_of_sortAndLimit (h : q.sortAndLimit pairs = .ok hits) {hit : DuplicateHit} (hhit : hit ∈ hits) :
    hit ∈ pairs := by
  obtain ⟨sorted, hsorted, hsub⟩ := sortAndLimit_eq_ok h
  exact (sortBy_perm hsorted).mem_iff.mp (hsub.subset hhit)

theorem length_sortAndLimit (h : q.sortAndLimit pairs = .ok hits) {limit : Nat} (hlimit : q.limit = some limit) :
    hits.length ≤ limit := by
  obtain ⟨sorted, -, h⟩ := bind_eq_ok.mp h
  rw [hlimit] at h
  cases h
  exact List.length_take_le _ _

theorem mem_sortAndLimit (h : q.sortAndLimit pairs = .ok hits) {hit : DuplicateHit}
    (hroom : ∀ limit, q.limit = some limit → pairs.length ≤ limit) : hit ∈ hits ↔ hit ∈ pairs := by
  obtain ⟨sorted, hsorted, h⟩ := bind_eq_ok.mp h
  have hperm := sortBy_perm hsorted
  split at h
  · rename_i limit hlimit
    cases h
    rw [List.take_of_length_le (hperm.length_eq.trans_le (hroom limit hlimit))]
    exact hperm.mem_iff
  · cases h
    exact hperm.mem_iff

theorem sortAndLimit_once (h : q.sortAndLimit pairs = .ok hits) (honce : (pairs.map DuplicateHit.ids).Nodup) :
    (hits.map DuplicateHit.ids).Nodup := by
  obtain ⟨sorted, hsorted, hsub⟩ := sortAndLimit_eq_ok h
  exact (((sortBy_perm hsorted).map DuplicateHit.ids).nodup_iff.mpr honce).sublist (hsub.map _)

/-- Scores that compare are sorted, highest first. -/
theorem sortAndLimit_descending (h : q.sortAndLimit pairs = .ok hits)
    (hordered : F32.Ordered fun x => ∃ hit ∈ pairs, hit.score = x) :
    hits.Pairwise fun a b => ¬F32.lt a.score b.score := by
  obtain ⟨key, hkey⟩ := hordered
  have hcompare : ∀ a ∈ pairs, ∀ b ∈ pairs, SortOrder.descending.cmp a.score b.score =
      compare (OrderDual.toDual (key a.score)) (OrderDual.toDual (key b.score)) := by
    intro a ha b hb
    change F32.cmp b.score a.score = _
    unfold F32.cmp
    rw [hkey b.score a.score ⟨b, hb, rfl⟩ ⟨a, ha, rfl⟩, Option.getD_some]
    rfl
  obtain ⟨sorted, hsort, hsub⟩ := sortAndLimit_eq_ok h
  have hsorted := (sortBy_sorted hcompare hsort).sublist hsub
  refine hsorted.imp_of_mem fun {a b} ha hb hge => ?_
  unfold F32.lt
  rw [hkey a.score b.score ⟨a, mem_of_sortAndLimit h ha, rfl⟩ ⟨b, mem_of_sortAndLimit h hb, rfl⟩,
    decide_eq_true_iff, Option.some.injEq, compare_lt_iff_lt]
  exact not_lt.mpr hge

/-- Scores that compare can be sorted. -/
theorem sortAndLimit_returns (hordered : F32.Ordered fun x => ∃ hit ∈ pairs, hit.score = x) :
    ∃ hits, q.sortAndLimit pairs = .ok hits := by
  have hsorts : Sorts .descending fun x => ∃ hit ∈ pairs, hit.score = x := hordered.sorts
  obtain ⟨sorted, hsorted⟩ := hsorts.returns fun hit hhit => ⟨hit, hhit, rfl⟩
  unfold sortAndLimit
  rw [hsorted]
  cases q.limit with
  | none => exact ⟨_, rfl⟩
  | some limit => exact ⟨_, rfl⟩

end DuplicateQuery

end

/-! ## ReportsPairs -/

section

variable [Env] {c : Collection} {d : Disk} {t : Table} {order : HashOrder Uuid} {q : DuplicateQuery}
  {hits : List DuplicateHit}

namespace Collection

/-- A report of pairs of documents that there are. -/
structure ReportsPairs (c : Collection) (d : Disk) (q : DuplicateQuery) (hits : List DuplicateHit) : Prop where
  live : ∀ hit ∈ hits, ∃ docA docB, c.get d hit.idA = .ok (some docA) ∧
    c.get d hit.idB = .ok (some docB) ∧
    q.metric.calculate docA.vector docB.vector c.config.execution = .ok hit.score
  distinct : ∀ hit ∈ hits, hit.idA < hit.idB
  threshold : ∀ hit ∈ hits, hit.score.ge q.threshold
  once : (hits.map DuplicateHit.ids).Nodup
  descending : hits.Pairwise fun a b => ¬F32.lt a.score b.score
  limit : ∀ limit, q.limit = some limit → hits.length ≤ limit

/-- No cached vector of an id without a document finds one that it scores high enough with. -/
def NoStrays (c : Collection) (order : HashOrder Uuid) (q : DuplicateQuery) (t : Table) : Prop :=
  ∀ id, id ∉ t → ∀ neighborId, c.Finds order q id neighborId →
    ∀ score, ¬q.Scores c.cache.vectors c.config.execution (DuplicateQuery.inOrder id neighborId) score

theorem Finds.mem (h : Coherent c d t) {id neighborId : Uuid} (hfinds : c.Finds order q id neighborId) :
    neighborId ∈ t := by
  obtain ⟨-, vec, neighbors, -, hsearch, hin⟩ := hfinds
  have htracked := VectorIndex.search_tracked h.cached.intact hsearch neighborId hin
  rw [h.cached.tracked] at htracked
  exact Finmap.mem_keys.mp htracked

/-- Where there are no strays, both of a pair have a document. -/
theorem Paired.live (h : Coherent c d t) (hstrays : c.NoStrays order q t) {pair : Uuid × Uuid}
    {score : F32} (hpaired : c.Paired order q pair)
    (hscores : q.Scores c.cache.vectors c.config.execution pair score) : pair.1 ∈ t ∧ pair.2 ∈ t := by
  obtain ⟨id, neighborId, hfinds, rfl⟩ := hpaired
  have hneighbor : neighborId ∈ t := hfinds.mem h
  have hid : id ∈ t := by
    by_contra hstray
    exact hstrays id hstray neighborId hfinds score hscores
  rcases DuplicateQuery.inOrder_cases id neighborId with heq | heq
  · rw [heq]
    exact ⟨hid, hneighbor⟩
  · rw [heq]
    exact ⟨hneighbor, hid⟩

omit [Env] in
theorem Paired.lt [Floats] {pair : Uuid × Uuid} (hpaired : c.Paired order q pair) : pair.1 < pair.2 := by
  obtain ⟨id, neighborId, hfinds, rfl⟩ := hpaired
  exact DuplicateQuery.inOrder_lt hfinds.1

/-- The cached vectors of documents are theirs. -/
theorem scores_documents (h : Coherent c d t) {pair : Uuid × Uuid} {score : F32} (hlive : pair.1 ∈ t ∧ pair.2 ∈ t)
    (hscores : q.Scores c.cache.vectors c.config.execution pair score) :
    ∃ docA docB, c.get d pair.1 = .ok (some docA) ∧ c.get d pair.2 = .ok (some docB) ∧
      q.metric.calculate docA.vector docB.vector c.config.execution = .ok score := by
  obtain ⟨va, vb, hva, hvb, hscore, -⟩ := hscores
  obtain ⟨docA, hdocA⟩ := Finmap.mem_iff.mp hlive.1
  obtain ⟨docB, hdocB⟩ := Finmap.mem_iff.mp hlive.2
  have hvecA := h.cached.mirrors.vectors _ _ hdocA
  have hvecB := h.cached.mirrors.vectors _ _ hdocB
  rw [hva] at hvecA
  rw [hvb] at hvecB
  cases hvecA
  cases hvecB
  exact ⟨docA, docB, by rw [h.held.get, hdocA], by rw [h.held.get, hdocB], hscore⟩

omit [Env] in
/-- There are no more pairs than there are pairs of cached ids. -/
theorem length_pairs_le [Floats] {pairs : List DuplicateHit} {mode : ExecutionMode}
    (honce : (pairs.map DuplicateHit.ids).Nodup)
    (hmem : ∀ hit ∈ pairs, ∃ score, q.Scores c.cache.vectors mode hit.ids score) :
    pairs.length ≤ c.cache.vectors.len ^ 2 := by
  have hsub : (pairs.map DuplicateHit.ids).toFinset ⊆ c.cache.vectors.keys ×ˢ c.cache.vectors.keys := by
    intro pair hpair
    obtain ⟨hit, hhit, rfl⟩ := List.mem_map.mp (List.mem_toFinset.mp hpair)
    obtain ⟨score, va, vb, hva, hvb, -⟩ := hmem hit hhit
    refine Finset.mem_product.mpr ⟨?_, ?_⟩
    · exact (HashMap.mem_keys_iff _ _).mpr ⟨va, hva⟩
    · exact (HashMap.mem_keys_iff _ _).mpr ⟨vb, hvb⟩
  calc pairs.length = (pairs.map DuplicateHit.ids).toFinset.card := by
        rw [List.toFinset_card_of_nodup honce, List.length_map]
    _ ≤ (c.cache.vectors.keys ×ˢ c.cache.vectors.keys).card := Finset.card_le_card hsub
    _ = c.cache.vectors.len ^ 2 := by
        rw [Finset.card_product, sq]
        rfl

omit [Env] in
/-- Scores that reach the threshold compare as numbers do. -/
theorem ordered_pairs [Floats] {pairs : List DuplicateHit} {mode : ExecutionMode}
    (hordered : F32.Ordered fun x => x.ge q.threshold)
    (hmem : ∀ hit ∈ pairs, q.Scores c.cache.vectors mode hit.ids hit.score) :
    F32.Ordered fun x => ∃ hit ∈ pairs, hit.score = x := by
  have hge : ∀ hit ∈ pairs, hit.score.ge q.threshold := by
    intro hit hin
    obtain ⟨va, vb, -, -, -, hge⟩ := hmem hit hin
    exact hge
  obtain ⟨key, hkey⟩ := hordered
  refine ⟨key, ?_⟩
  rintro _ _ ⟨a, ha, rfl⟩ ⟨b, hb, rfl⟩
  exact hkey _ _ (hge a ha) (hge b hb)

theorem findDuplicates_reportsPairs (h : Coherent c d t) (hordered : F32.Ordered fun x => x.ge q.threshold)
    (hret : c.findDuplicates order q = .ok hits) (hstrays : c.NoStrays order q t) : c.ReportsPairs d q hits := by
  obtain ⟨pairs, hsort, honce, hmem⟩ := findDuplicates_eq_ok hret
  have hhit : ∀ hit ∈ hits, c.Paired order q hit.ids ∧
      q.Scores c.cache.vectors c.config.execution hit.ids hit.score :=
    fun hit hin => (hmem hit).mp (DuplicateQuery.mem_of_sortAndLimit hsort hin)
  refine ⟨fun hit hin => ?_, fun hit hin => ?_, fun hit hin => ?_, ?_, ?_, fun limit hlimit => ?_⟩
  · obtain ⟨hpaired, hscores⟩ := hhit hit hin
    exact scores_documents h (hpaired.live h hstrays hscores) hscores
  · exact (hhit hit hin).1.lt
  · obtain ⟨va, vb, -, -, -, hge⟩ := (hhit hit hin).2
    exact hge
  · exact DuplicateQuery.sortAndLimit_once hsort honce
  · exact DuplicateQuery.sortAndLimit_descending hsort
      (ordered_pairs hordered fun hit hin => ((hmem hit).mp hin).2)
  · exact DuplicateQuery.length_sortAndLimit hsort hlimit

theorem noStrays_of_reportsPairs (h : Coherent c d t) (hret : c.findDuplicates order q = .ok hits)
    (hroom : ∀ limit, q.limit = some limit → c.cache.vectors.len ^ 2 ≤ limit)
    (hreports : c.ReportsPairs d q hits) : c.NoStrays order q t := by
  obtain ⟨pairs, hsort, honce, hmem⟩ := findDuplicates_eq_ok hret
  intro id hid neighborId hfinds score hscores
  have hlen : pairs.length ≤ c.cache.vectors.len ^ 2 :=
    length_pairs_le honce fun hit hin => ⟨hit.score, ((hmem hit).mp hin).2⟩
  have hin : ⟨(DuplicateQuery.inOrder id neighborId).1, (DuplicateQuery.inOrder id neighborId).2, score⟩ ∈
      hits := by
    refine (DuplicateQuery.mem_sortAndLimit hsort fun limit hlimit => hlen.trans (hroom limit hlimit)).mpr ?_
    exact (hmem _).mpr ⟨⟨id, neighborId, hfinds, rfl⟩, hscores⟩
  obtain ⟨docA, docB, hdocA, hdocB, -⟩ := hreports.live _ hin
  rw [h.held.get] at hdocA hdocB
  have hlive : (DuplicateQuery.inOrder id neighborId).1 ∈ t ∧ (DuplicateQuery.inOrder id neighborId).2 ∈ t :=
    ⟨Finmap.mem_iff.mpr ⟨docA, Except.ok.inj hdocA⟩, Finmap.mem_iff.mpr ⟨docB, Except.ok.inj hdocB⟩⟩
  rcases DuplicateQuery.inOrder_cases id neighborId with heq | heq
  · rw [heq] at hlive
    exact hid hlive.1
  · rw [heq] at hlive
    exact hid hlive.2

end Collection

/-- What a reached collection reports are pairs of documents that there are, as long as no vector
of a deleted document is left that finds one. -/
theorem reports_live_pairs [LawfulEnv] {path : String} {config : CollectionConfig} {s : Session}
    (hreached : Reached path config s d t) (hordered : F32.Ordered fun x => x.ge q.threshold)
    (hret : s.coll.findDuplicates order q = .ok hits) :
    (s.coll.NoStrays order q t → s.coll.ReportsPairs d q hits) ∧
      ((∀ limit, q.limit = some limit → s.coll.cache.vectors.len ^ 2 ≤ limit) →
        s.coll.ReportsPairs d q hits → s.coll.NoStrays order q t) :=
  ⟨Collection.findDuplicates_reportsPairs hreached.coherent hordered hret,
    Collection.noStrays_of_reportsPairs hreached.coherent hret⟩

end

/-! ## A deleted document -/

section

attribute [local instance] Reference.flat

open Reference CollectionBuilder

/-- All pairs that score at least one. -/
def allOnes : DuplicateQuery := ⟨.dotProduct, F32.one, none, none, none, none⟩

/-- Two documents with one vector. -/
def twins : List SessionOp := [.call (.insert (doc 0 1)), .call (.insert (doc 1 1))]

/-- A session, and what it reports. -/
theorem reported_session (collConfig : CollectionConfig) {ops : List SessionOp} (q : DuplicateQuery)
    (hits : List DuplicateHit) (hfits : Table.Fits ∅ ops)
    (heval : (session "c" collConfig ops 0 Disk.empty).result.toOption.map (fun out =>
      (out.2.coll.findDuplicates Bincode.idOrder q).toOption) = some (some hits)) :
    ∃ replies s d, (session "c" collConfig ops 0 Disk.empty).result = .ok (replies, s) ∧
      Reached "c" collConfig s d (Table.run ∅ ops) ∧ s.coll.findDuplicates Bincode.idOrder q = .ok hits := by
  obtain ⟨⟨replies, s⟩, hsession, hseen⟩ := ok_of_map heval
  obtain ⟨hits', hret, rfl⟩ := ok_of_map (f := id) (by rw [Option.map_id]; exact hseen)
  exact ⟨replies, s, _, hsession, reached_session hfits (runs_of_ok hsession), hret⟩

/-- One of two documents is deleted, and the pair of them is reported still. -/
theorem deleted_is_reported :
    ∃ (s : Session) (d : Disk) (t : Table) (hits : List DuplicateHit),
      Reached "c" chainConfig s d t ∧ s.coll.findDuplicates Bincode.idOrder allOnes = .ok hits ∧
        ∃ hit ∈ hits, s.coll.get d hit.idB = .ok none := by
  have hfits : Table.Fits ∅ (twins ++ [.call (.delete 1)]) := by
    refine ⟨?_, ?_, ?_, trivial⟩
    all_goals decide +kernel
  obtain ⟨-, s, d, -, hreached, hret⟩ := reported_session chainConfig allOnes [⟨0, 1, F32.one⟩] hfits
    (by decide +kernel)
  refine ⟨s, d, _, _, hreached, hret, _, List.mem_singleton_self _, ?_⟩
  rw [hreached.coherent.held.get]
  exact congrArg Except.ok (Finmap.lookup_erase 1 _)

/-- What is at least a threshold is no NaN. -/
theorem ordered_ge (threshold : F32) : F32.Ordered fun x => x.ge threshold := by
  have hnan : ∀ x : F32, x.ge threshold → isNaN x = false := by
    intro x hge
    cases hx : isNaN x with
    | false => rfl
    | true =>
        have hcmp : partialCmp x threshold = none := by
          unfold partialCmp
          rw [hx, Bool.true_or, if_pos rfl]
        have hnot : x.ge threshold = false := by
          change (decide (partialCmp x threshold = some .gt) || decide (partialCmp x threshold = some .eq)) = false
          rw [hcmp]
          rfl
        rw [hnot] at hge
        cases hge
  refine ⟨magnitude, fun x y hx hy => ?_⟩
  change partialCmp x y = _
  unfold partialCmp
  rw [hnan x hx, hnan y hy, Bool.or_false, if_neg Bool.false_ne_true]

/-- Two documents with one vector, and one with another vector that is deleted. -/
def twinsAndStray : List SessionOp :=
  twins ++ [.call (.insert { doc 2 1 with vector := [F32.zero] }), .call (.delete 2)]

/-- The cached vectors of the three. -/
def cachedVectors (c : Collection) : Finset Uuid × List (Option Vector32) × ExecutionMode :=
  (c.cache.vectors.keys, [0, 1, 2].map fun id => c.cache.vectors.lookup id, c.config.execution)

/-- Two documents that there are make the one pair of a report. The vector of the deleted one is
still cached, and scores low with both. -/
theorem twins_reported :
    ∃ (s : Session) (d : Disk), Reached "c" chainConfig s d (Table.run ∅ twinsAndStray) ∧
      s.coll.cache.vectors.lookup 2 = some [F32.zero] ∧ s.coll.get d 2 = .ok none ∧
      s.coll.ReportsPairs d allOnes [⟨0, 1, F32.one⟩] := by
  have hfits : Table.Fits ∅ twinsAndStray := by
    refine ⟨?_, ?_, ?_, fun doc hdoc => absurd hdoc List.not_mem_nil, trivial⟩
    all_goals decide +kernel
  obtain ⟨replies, s, d, hsession, hreached, hret⟩ := reported_session chainConfig allOnes
    [⟨0, 1, F32.one⟩] hfits (by decide +kernel)
  have hseen : (session "c" chainConfig twinsAndStray 0 Disk.empty).result.toOption.map
      (fun out => cachedVectors out.2.coll) =
        some ({0, 1, 2}, [some [F32.one], some [F32.one], some [F32.zero]], .auto) := by
    decide +kernel
  have hkeys : (Table.run ∅ twinsAndStray).keys = {0, 1} := by decide +kernel
  rw [hsession] at hseen
  obtain ⟨hcached, hrest⟩ := Prod.mk.inj (Option.some.inj hseen)
  obtain ⟨hvectors, hexecution⟩ := Prod.mk.inj hrest
  obtain ⟨hzero, hone, htwo⟩ : s.coll.cache.vectors.lookup 0 = some [F32.one] ∧
      s.coll.cache.vectors.lookup 1 = some [F32.one] ∧ s.coll.cache.vectors.lookup 2 = some [F32.zero] := by
    simpa using hvectors
  have hstrays : s.coll.NoStrays Bincode.idOrder allOnes (Table.run ∅ twinsAndStray) := by
    intro id hid neighborId hfinds score hscores
    have hneighbor := hfinds.mem hreached.coherent
    rw [← Finmap.mem_keys, hkeys, Finset.mem_insert, Finset.mem_singleton] at hid hneighbor
    have hstray : id = 2 := by
      obtain ⟨-, vec, -, hvec, -⟩ := hfinds
      have hmem : id ∈ s.coll.cache.vectors.keys := (HashMap.mem_keys_iff _ _).mpr ⟨vec, hvec⟩
      rw [hcached, Finset.mem_insert, Finset.mem_insert, Finset.mem_singleton] at hmem
      rcases hmem with hzeroth | hfirst | hsecond
      · exact absurd (.inl hzeroth) hid
      · exact absurd (.inr hfirst) hid
      · exact hsecond
    subst hstray
    have hlow : ∀ a : Uuid, s.coll.cache.vectors.lookup a = some [F32.one] →
        ¬allOnes.Scores s.coll.cache.vectors s.coll.config.execution (a, 2) score := by
      rintro a ha ⟨va, vb, hva, hvb, hscore, hge⟩
      rw [ha] at hva
      rw [htwo] at hvb
      cases hva
      cases hvb
      have hcalculate : allOnes.metric.calculate [F32.one] [F32.zero] .auto = .ok F32.zero := by
        decide +kernel
      rw [hexecution, hcalculate] at hscore
      cases hscore
      revert hge
      decide +kernel
    rcases hneighbor with rfl | rfl
    · exact hlow 0 hzero hscores
    · exact hlow 1 hone hscores
  refine ⟨s, d, hreached, htwo, ?_, (reports_live_pairs hreached (ordered_ge allOnes.threshold) hret).1 hstrays⟩
  rw [hreached.coherent.held.get]
  exact congrArg Except.ok (Finmap.lookup_erase 2 _)

end
