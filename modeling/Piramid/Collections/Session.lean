-- SUMMARY: A session on a new collection refines a finite map, and leaves its redundant structures coherent.
import Piramid.Collections.Maintenance
import Piramid.Collections.Search
import Piramid.Index.Search
import Piramid.Reference.Sample

/-!
# Sessions

A session opens a new collection and makes calls on it, all of which return. A table
of documents that answers the same calls says what they return and what can be read
afterwards.
-/

open Loop Prog

/-- What a call returns. -/
inductive Reply where
  | id (id : Uuid)
  | ids (ids : List Uuid)
  | done (b : Bool)
  | count (n : Nat)
  | stats (stats : Collection.CompactStats)
  | unit

/-- A call of a session: on the documents, or on the caches alone. -/
inductive SessionOp where
  | call (call : Call)
  | ensureCacheConsistency
  | clearMetadataCache

/-! ## The calls on a collection -/

section

variable [Env]

def Call.perform : Call → CollM Reply
  | .insert doc => do
    let id ← Collection.insert doc
    pure (.id id)
  | .insertBatch docs => do
    let ids ← Collection.insertBatch docs
    pure (.ids ids)
  | .upsert doc => do
    let id ← Collection.upsert doc
    pure (.id id)
  | .updateMetadata id metadata => do
    let b ← Collection.updateMetadata id metadata
    pure (.done b)
  | .updateVector id vector => do
    let b ← Collection.updateVector id vector
    pure (.done b)
  | .delete id => do
    let b ← Collection.delete id
    pure (.done b)
  | .deleteBatch ids => do
    let n ← Collection.deleteBatch ids
    pure (.count n)
  | .checkpoint => do
    Collection.checkpointNow
    pure .unit
  | .rebuildIndex => do
    Collection.rebuildIndex
    pure .unit
  | .compact => do
    let stats ← Collection.compact
    pure (.stats stats)

def SessionOp.perform : SessionOp → CollM Reply
  | .call c => c.perform
  | .ensureCacheConsistency => do
    Collection.ensureConsistent
    pure .unit
  | .clearMetadataCache => do
    update fun c => { c with cache := c.cache.clearMetadata }
    pure .unit

def performAll : List SessionOp → CollM (List Reply)
  | [] => pure []
  | op :: ops => do
    let reply ← op.perform
    let replies ← performAll ops
    pure (reply :: replies)

/-- Open a collection and make calls on it. -/
def session (path : String) (config : CollectionConfig) (ops : List SessionOp) :
    Io Nat (List Reply × Session) := do
  let c ← CollectionBuilder.openCollection path config
  Prog.embed (fun draws => ⟨c, draws⟩) Session.draws (performAll ops)

end

/-! ## The calls on a table -/

namespace Call

/-- The table after a call. -/
def apply (t : Table) : Call → Table
  | .insert doc | .upsert doc => t.insert doc.id doc
  | .insertBatch docs => t.insertDocs docs
  | .updateMetadata id metadata =>
    match t.lookup id with
    | none => t
    | some doc => t.insert id { doc with metadata }
  | .updateVector id vector =>
    match t.lookup id with
    | none => t
    | some doc => t.insert id { doc with vector }
  | .delete id => t.erase id
  | .deleteBatch ids => t.eraseIds ids
  | .checkpoint | .rebuildIndex | .compact => t

/-- What a call on a table returns. -/
def answer (t : Table) : Call → Reply
  | .insert doc | .upsert doc => .id doc.id
  | .insertBatch docs => .ids (docs.map Document.id)
  | .updateMetadata id _ | .updateVector id _ | .delete id => .done (id ∈ t)
  | .deleteBatch ids => .count (ids.toFinset ∩ t.keys).card
  | .checkpoint | .rebuildIndex => .unit
  | .compact => .stats ⟨t.len, t.len⟩

/-- The documents that a call writes. -/
def writes (t : Table) : Call → List Document
  | .insert doc | .upsert doc => [doc]
  | .insertBatch docs => docs
  | .updateMetadata id metadata => ((t.lookup id).map fun doc => { doc with metadata }).toList
  | .updateVector id vector => ((t.lookup id).map fun doc => { doc with vector }).toList
  | .delete _ | .deleteBatch _ | .checkpoint | .rebuildIndex | .compact => []

end Call

namespace SessionOp

def apply (t : Table) : SessionOp → Table
  | .call c => c.apply t
  | .ensureCacheConsistency | .clearMetadataCache => t

def answer (t : Table) : SessionOp → Reply
  | .call c => c.answer t
  | .ensureCacheConsistency | .clearMetadataCache => .unit

def writes (t : Table) : SessionOp → List Document
  | .call c => c.writes t
  | .ensureCacheConsistency | .clearMetadataCache => []

end SessionOp

namespace Table

/-- The table after calls. -/
def run (t : Table) (ops : List SessionOp) : Table := ops.foldl SessionOp.apply t

/-- What calls on a table return. -/
def answers : Table → List SessionOp → List Reply
  | _, [] => []
  | t, op :: ops => op.answer t :: answers (op.apply t) ops

/-- Every record that the calls write has a length that a pointer can hold. -/
def Fits [Env] : Table → List SessionOp → Prop
  | _, [] => True
  | t, op :: ops =>
    (∀ doc ∈ op.writes t, (RecordStore.encodeDocument doc).length < 2 ^ 32) ∧ Fits (op.apply t) ops

end Table

/-! ## Sessions keep collections coherent -/

section

variable [Env] [LawfulEnv] {s : Session} {d : Disk} {t : Table}

theorem Call.ensures_perform {call : Call} {Q : Reply → Session → Disk → Prop}
    (h : Coherent s.coll d t)
    (hfits : ∀ doc ∈ call.writes t, (RecordStore.encodeDocument doc).length < 2 ^ 32)
    (hQ : ∀ s' d', Coherent s'.coll d' (call.apply t) → Q (call.answer t) s' d') :
    ensures call.perform Q s d := by
  cases call with
  | insert doc =>
      simp only [perform, ensures_bind, ensures_pure]
      exact Collection.ensures_insert h (hfits doc (by simp [writes])) hQ
  | insertBatch docs =>
      simp only [perform, ensures_bind, ensures_pure]
      exact Collection.ensures_insertBatch h hfits hQ
  | upsert doc =>
      simp only [perform, ensures_bind, ensures_pure]
      exact Collection.ensures_upsert h (hfits doc (by simp [writes])) hQ
  | updateMetadata id metadata =>
      simp only [perform, ensures_bind, ensures_pure]
      simp only [writes, apply, answer] at hfits hQ
      refine Collection.ensures_updateMetadata h ?_ ?_ ?_
      · intro doc hdoc
        exact hfits _ (by simp [hdoc])
      · intro hnone
        have hnot : id ∉ t := Finmap.lookup_eq_none.mp hnone
        simpa [hnot, hnone] using hQ s d (by rw [hnone]; exact h)
      · intro doc hdoc s' d' h'
        have hmem : id ∈ t := Finmap.mem_iff.mpr ⟨doc, hdoc⟩
        simpa [hmem] using hQ s' d' (by rw [hdoc]; exact h')
  | updateVector id vector =>
      simp only [perform, ensures_bind, ensures_pure]
      simp only [writes, apply, answer] at hfits hQ
      refine Collection.ensures_updateVector h ?_ ?_ ?_
      · intro doc hdoc
        exact hfits _ (by simp [hdoc])
      · intro hnone
        have hnot : id ∉ t := Finmap.lookup_eq_none.mp hnone
        simpa [hnot, hnone] using hQ s d (by rw [hnone]; exact h)
      · intro doc hdoc s' d' h'
        have hmem : id ∈ t := Finmap.mem_iff.mpr ⟨doc, hdoc⟩
        simpa [hmem] using hQ s' d' (by rw [hdoc]; exact h')
  | delete id =>
      simp only [perform, ensures_bind, ensures_pure]
      exact Collection.ensures_delete h hQ
  | deleteBatch ids =>
      simp only [perform, ensures_bind, ensures_pure]
      exact Collection.ensures_deleteBatch h hQ
  | checkpoint =>
      simp only [perform, ensures_bind, ensures_pure]
      exact Collection.ensures_checkpointNow fun s' d' ha => hQ s' d' (h.aside ha)
  | rebuildIndex =>
      simp only [perform, ensures_bind, ensures_pure]
      exact Collection.ensures_rebuildIndex h hQ
  | compact =>
      simp only [perform, ensures_bind, ensures_pure]
      exact Collection.ensures_compact h.held hQ

theorem SessionOp.ensures_perform {op : SessionOp} {Q : Reply → Session → Disk → Prop}
    (h : Coherent s.coll d t)
    (hfits : ∀ doc ∈ op.writes t, (RecordStore.encodeDocument doc).length < 2 ^ 32)
    (hQ : ∀ s' d', Coherent s'.coll d' (op.apply t) → Q (op.answer t) s' d') :
    ensures op.perform Q s d := by
  cases op with
  | call call => exact call.ensures_perform h hfits hQ
  | ensureCacheConsistency =>
      simp only [perform, ensures_bind, ensures_pure]
      exact Collection.ensures_ensureConsistent h fun s' h' _ => hQ s' d h'
  | clearMetadataCache =>
      simp only [perform, ensures_bind, ensures_pure, ensures_update]
      refine hQ _ d ⟨h.held, ⟨h.cached.tracked, h.cached.intact, ?_, h.cached.only⟩, h.counted⟩
      exact h.cached.mirrors.clearMetadata

/-- A run of calls that all return answers as the table does. -/
theorem ensures_performAll {ops : List SessionOp} {Q : List Reply → Session → Disk → Prop}
    (h : Coherent s.coll d t) (hfits : t.Fits ops)
    (hQ : ∀ s' d', Coherent s'.coll d' (t.run ops) → Q (t.answers ops) s' d') :
    ensures (performAll ops) Q s d := by
  induction ops generalizing s d t Q with
  | nil => exact ensures_pure.mpr (hQ s d h)
  | cons op ops ih =>
      simp only [performAll, ensures_bind, ensures_pure]
      refine op.ensures_perform h hfits.1 fun s₁ d₁ h₁ => ?_
      exact ih h₁ hfits.2 fun s₂ d₂ h₂ => hQ s₂ d₂ h₂

theorem ensures_session {path : String} {config : CollectionConfig} {ops : List SessionOp}
    (hfits : Table.Fits ∅ ops) (n : Nat) :
    ensures (session path config ops)
      (fun out _ d => Coherent out.2.coll d (Table.run ∅ ops) ∧ out.1 = Table.answers ∅ ops)
      n Disk.empty := by
  simp only [session, ensures_bind, ensures_embed]
  refine CollectionBuilder.ensures_openCollection fun c n d h => ?_
  exact ensures_performAll (s := ⟨c, n⟩) h hfits fun s' d' h' => ⟨h', rfl⟩

/-! ## What a session shows -/

/-- Within a session a collection is a finite map: what calls return, and what can be
read after them, are those of the table. -/
theorem session_refines_map {path : String} {config : CollectionConfig} {calls : List Call} {n : Nat}
    {replies : List Reply} {s : Session}
    (hrun : (session path config (calls.map .call) n Disk.empty).result = .ok (replies, s))
    (hfits : Table.Fits ∅ (calls.map .call)) :
    let d := (session path config (calls.map .call)).final n Disk.empty
    let t := Table.run ∅ (calls.map .call)
    replies = Table.answers ∅ (calls.map .call) ∧ (∀ id, s.coll.get d id = .ok (t.lookup id)) ∧
      s.coll.count = t.len ∧
      ∀ order, ∃ docs, s.coll.getAll d order = .ok docs ∧ docs.length = t.len ∧
        ∀ doc, doc ∈ docs ↔ ∃ id, t.lookup id = some doc := by
  intro d t
  obtain ⟨h, hreplies⟩ := ensures_ok (ensures_session hfits n) hrun
  refine ⟨hreplies, h.held.get, h.held.len, fun order => ⟨_, h.held.getAll order, ?_, ?_⟩⟩
  · exact t.length_docs order
  · intro doc
    rw [List.mem_filterMap]
    constructor
    · rintro ⟨id, -, hid⟩
      exact ⟨id, hid⟩
    · rintro ⟨id, hid⟩
      exact ⟨id, (order.mem_enum _ _).mpr ((HashMap.mem_keys_iff _ _).mpr ⟨doc, hid⟩), hid⟩

/-- The vector index, the caches and the count are those of the stored documents. -/
structure Collection.Consistent (c : Collection) (d : Disk) : Prop where
  tracked : c.vectorIndex.trackedIds = c.index.keys
  vectors : ∀ id ∈ c.index.keys, ∃ doc, c.get d id = .ok (some doc) ∧
    c.cache.vectors.lookup id = some doc.vector
  only : c.vectorIndex.indexType ≠ .hnsw → c.cache.vectors.keys = c.index.keys
  metadata : ∀ id md, c.cache.metadata.lookup id = some md →
    ∃ doc, c.get d id = .ok (some doc) ∧ doc.metadata = md
  counted : c.metadata.vectorCount = c.index.len

omit [LawfulEnv] in
theorem Coherent.consistent {c : Collection} (h : Coherent c d t) : c.Consistent d where
  tracked := h.cached.tracked.trans h.held.keys.symm
  vectors id hid := by
    rw [h.held.keys] at hid
    obtain ⟨doc, hdoc⟩ := (HashMap.mem_keys_iff t id).mp hid
    exact ⟨doc, hdoc ▸ h.held.get id, h.cached.mirrors.vectors id doc hdoc⟩
  only htype := (h.cached.keys_vectors htype).trans h.held.keys.symm
  metadata id md hmd := by
    obtain ⟨doc, hdoc, hsame⟩ := h.cached.mirrors.metadata id md hmd
    exact ⟨doc, hdoc ▸ h.held.get id, hsame⟩
  counted := h.counted.trans h.held.len.symm

omit [LawfulEnv] in
/-- A search finds every vector and document that it looks for. -/
theorem Coherent.faults_searchCollection {c : Collection} (h : Coherent c d t)
    {order : HashOrder Uuid} {query : Vector32} {k : Nat} {metric : Metric} {params : SearchParams} :
    Faults Fault.Benign (c.searchCollection d order query k metric params) := by
  unfold Collection.searchCollection
  refine Faults.bind (VectorIndex.faults_search h.cached.intact ?_) fun ids hids => ?_
  · intro id hid
    rw [h.cached.tracked] at hid
    obtain ⟨doc, hdoc⟩ := (HashMap.mem_keys_iff t id).mp hid
    exact Option.isSome_iff_exists.mpr ⟨_, h.cached.mirrors.vectors id doc hdoc⟩
  · refine Faults.bind (.mapM fun id hid => ?_) fun hits _ => ?_
    · have htracked := VectorIndex.search_tracked h.cached.intact hids id hid
      rw [h.cached.tracked] at htracked
      obtain ⟨doc, hdoc⟩ := (HashMap.mem_keys_iff t id).mp htracked
      unfold Collection.hit
      rw [h.held.get, hdoc]
      exact (metric.faults_calculate _ _ _).bind fun _ _ => .ok _
    · split
      · exact (faults_sortBy Fault.isPanic_disorder.benign _ _ _).bind fun _ _ => .ok _
      · exact .ok _

/-- Within a session the redundant structures agree, so that no search comes across a
missing vector or document. -/
theorem session_coherent {path : String} {config : CollectionConfig} {ops : List SessionOp} {n : Nat}
    {replies : List Reply} {s : Session}
    (hrun : (session path config ops n Disk.empty).result = .ok (replies, s))
    (hfits : Table.Fits ∅ ops) :
    let d := (session path config ops).final n Disk.empty
    s.coll.Consistent d ∧ ∀ order query k metric params msg,
      s.coll.search d order query k metric params ≠ .error (.searchFailed msg) ∧
        s.coll.searchCollection d order query k metric params ≠ .error (.searchFailed msg) := by
  intro d
  obtain ⟨h, -⟩ := ensures_ok (ensures_session hfits n) hrun
  refine ⟨h.consistent, fun order query k metric params msg => ⟨fun hfail => ?_, fun hfail => ?_⟩⟩
  · exact h.faults_searchCollection _ hfail msg rfl
  · exact h.faults_searchCollection _ hfail msg rfl

end

/-! ## A session that makes every call -/

section

attribute [local instance] Reference.flat

open Reference

def everyCall : List Call :=
  [.insert (doc 0 1), .insertBatch [doc 1 1, doc 2 1, doc 1 1], .upsert (doc 0 1),
    .updateMetadata 0 ∅, .updateVector 1 [F32.one], .delete 5, .checkpoint, .rebuildIndex,
    .deleteBatch [1, 1, 6], .compact]

theorem fits_everyCall : Table.Fits ∅ (everyCall.map .call) := by
  refine ⟨?_, ?_, ?_, ?_, ?_, ?_, ?_, ?_, ?_, ?_, trivial⟩
  all_goals decide +kernel

theorem everyCall_refines_map :
    ∃ (replies : List Reply) (s : Session),
      (session "c" flatConfig (everyCall.map .call) 0 Disk.empty).result = .ok (replies, s) ∧
        replies = [.id 0, .ids [1, 2, 1], .id 0, .done true, .done true, .done false, .unit, .unit,
          .count 1, .stats ⟨2, 2⟩] ∧ s.coll.count = 2 := by
  have hok : (session "c" flatConfig (everyCall.map .call) 0 Disk.empty).result.toOption.isSome := by
    decide +kernel
  cases hrun : (session "c" flatConfig (everyCall.map .call) 0 Disk.empty).result with
  | error e =>
      rw [hrun] at hok
      cases hok
  | ok out =>
      obtain ⟨replies, s⟩ := out
      obtain ⟨hreplies, -, hcount, -⟩ := session_refines_map hrun fits_everyCall
      exact ⟨replies, s, rfl, hreplies, hcount⟩

/-- A graph whose nodes all lie on layer 0. -/
def graphConfig : CollectionConfig := config (.hnsw 2 2 2 2 F32.one .cosine .auto) .unlimited 1000

/-- A node is removed, comes back, and is removed for good. -/
def everyOp : List SessionOp :=
  everyCall.map .call ++ [.call (.delete 0), .clearMetadataCache, .ensureCacheConsistency,
    .call (.insert (doc 0 1)), .call (.delete 0)]

theorem fits_everyOp : Table.Fits ∅ everyOp := by
  refine ⟨?_, ?_, ?_, ?_, ?_, ?_, ?_, ?_, ?_, ?_, ?_, ?_, ?_, ?_, ?_, trivial⟩
  all_goals decide +kernel

theorem everyOp_coherent :
    ∃ (replies : List Reply) (s : Session),
      (session "c" graphConfig everyOp 0 Disk.empty).result = .ok (replies, s) ∧
        s.coll.Consistent ((session "c" graphConfig everyOp).final 0 Disk.empty) := by
  have hok : (session "c" graphConfig everyOp 0 Disk.empty).result.toOption.isSome := by
    decide +kernel
  cases hrun : (session "c" graphConfig everyOp 0 Disk.empty).result with
  | error e =>
      rw [hrun] at hok
      cases hok
  | ok out =>
      obtain ⟨replies, s⟩ := out
      exact ⟨replies, s, rfl, (session_coherent hrun fits_everyOp).1⟩

end
