-- SUMMARY: Which writes the vector-count limit rejects, and when these are the ones that would exceed it.
import Piramid.Collections.Reopen
import Piramid.Index.Validated
import Piramid.Index.Graph

/-!
# The limit on the number of vectors

A check counts one vector for every document a call writes, whether its id is new or not. No
other step of a call fails with the message of that check.
-/

open Loop Prog

/-- What the check of `max_vectors` fails with. -/
def maxVectorsReached : Fault := .invalidRequest "Collection max vectors reached"

/-- A program fails with something else. -/
abbrev Spares {α : Type} (p : CollM α) : Prop := Raises (· ≠ maxVectorsReached) p

section

variable [Env] {s : Session} {d : Disk} {t : Table} {c : Collection} {N : Nat}

/-! ## The other faults -/

omit [Env] in
theorem validateDimensions_ne {vector : Vector32} {dim : Nat} :
    Faults (· ≠ maxVectorsReached) (validateDimensions vector dim) := by
  unfold validateDimensions
  split
  · refine .error fun heq => ?_
    have hmsg : ("Vector dimension mismatch: expected " ++ toString dim ++ ", got " ++
        toString vector.length : String) = "Collection max vectors reached" := by
      unfold maxVectorsReached Fault.invalidRequest at heq
      injection heq with heq
      injection heq with heq
      injection heq
    have hhead := congrArg (fun msg : String => msg.toList.head?) hmsg
    simp [String.toList_append] at hhead
  · exact .ok _

theorem VectorIndex.insert_ne (ix : VectorIndex) (id : Uuid) (vector : Vector32) (vectors : VectorReader)
    (r : F32) : Faults (· ≠ maxVectorsReached) (ix.insert id vector vectors r) := by
  cases ix with
  | flat ix => exact .ok _
  | hnsw ix =>
      have hends : Faults _ (ix.insert id vector vectors r) :=
        HnswIndex.ends_insert (HnswIndex.panics_distance ix) Fault.isPanic_disorder id vector r
      refine Faults.map (hends.mono ?_)
      rintro _ ⟨msg, rfl⟩ heq
      cases heq
  | ivf ix =>
      refine Faults.map ((IvfIndex.fails_insert ix id vector vectors).mono ?_)
      rintro _ ⟨msg, rfl⟩ heq
      cases heq

section

variable {σ : Type}

theorem spares_draw [Counting σ] {P : Fault → Prop} : Raises P (draw : Io σ Chance) :=
  .bind (.asks _) fun _ => .bind (.modify _) fun _ => .pure _

omit [Env] in
theorem raises_fileLen {P : Fault → Prop} (f : CollFile) : Raises P (fileLen f : Io σ Nat) :=
  .bind .device fun _ => .pure _

omit [Env] in
theorem raises_writeAt (store : RecordStore) (offset : Nat) (bytes : Bytes) :
    Raises (· ≠ maxVectorsReached) (store.writeAt offset bytes : Io σ Unit) := by
  unfold RecordStore.writeAt
  split
  · refine .ite (.emit _) (.fault fun heq => ?_)
    cases heq
  · exact .emit _

omit [Env] in
theorem raises_growMmapIfNeeded {P : Fault → Prop} (store : RecordStore) (requiredSize : Nat) :
    Raises P (store.growMmapIfNeeded requiredSize : Io σ RecordStore) :=
  .bind (raises_fileLen _) fun _ => .ite (.bind (.emit _) fun _ => .pure _) (.pure _)

omit [Env] in
theorem raises_appendEach (store : RecordStore) (entries : List (Uuid × Bytes)) :
    Raises (· ≠ maxVectorsReached) (store.appendEach entries : Io σ (List EntryPointer × RecordStore)) := by
  induction entries generalizing store with
  | nil => exact .pure _
  | cons entry entries ih => exact .bind (raises_writeAt _ _ _) fun _ => .bind (ih _) fun _ => .pure _

theorem raises_ensureHeader {P : Fault → Prop} (wal : Wal) : Raises P (wal.ensureHeader : Io σ Unit) :=
  .ite (.pure _) (.bind (raises_fileLen _) fun _ => .when (.emit _))

end

namespace Collection

omit [Env] in
theorem spares_appendRecord (bytes : Bytes) : Spares (appendRecord bytes) :=
  .bind (.asks _) fun _ => .bind (.bind (raises_growMmapIfNeeded _ _) fun _ =>
    .bind (raises_writeAt _ _ _) fun _ => .pure _) fun _ => .bind (.modify _) fun _ => .pure _

omit [Env] in
theorem spares_checkDimensions (vector : Vector32) : Spares (checkDimensions vector) := by
  refine .bind (.asks _) fun _ => ?_
  split
  · exact .ofExcept validateDimensions_ne
  · exact .pure _

theorem spares_indexVector (id : Uuid) (vector : Vector32) : Spares (indexVector id vector) := by
  refine .bind spares_draw fun _ => ?_
  refine .bind (.asks _) fun _ => ?_
  exact .bind (.ofExcept (VectorIndex.insert_ne _ _ _ _ _)) fun _ => .modify _

theorem spares_updateVectorCount : Spares updateVectorCount := .bind spares_draw fun _ => .modify _

theorem spares_trackOperation : Spares trackOperation := by
  refine .bind spares_draw fun _ => ?_
  refine .bind (.asks _) fun _ => ?_
  refine .bind (.modify _) fun _ => .when ?_
  refine .bind ?_ fun _ => .modify _
  refine .bind spares_draw fun _ => ?_
  refine .bind (.asks _) fun _ => ?_
  refine .bind (.emit _) fun _ => ?_
  refine .bind (.emit _) fun _ => ?_
  refine .bind (.emit _) fun _ => .when ?_
  refine .bind (.bind (.when (.emit _)) fun _ => .pure _) fun wal => ?_
  refine .bind (.modify _) fun _ => ?_
  refine .bind ?_ fun _ => ?_
  · exact .bind (.emit _) fun _ => .bind (.emit _) fun _ => .emit _
  · exact .ite (.pure _) (.bind (.emit _) fun _ => .bind (.emit _) fun _ => raises_ensureHeader _)

theorem spares_indexBatched (entry : Document) : Spares (indexBatched entry) := by
  refine .bind (.modify _) fun _ => ?_
  refine .bind (spares_checkDimensions _) fun _ => ?_
  exact .bind (.modify _) fun _ => spares_indexVector _ _

/-! ## The check -/

omit [Env] in
/-- The check of the number of vectors comes first. -/
theorem checks_ne (limits : LimitsConfig) (required entryBytes : Nat) :
    Faults (· ≠ maxVectorsReached) (checkBytes limits required) ∧
      Faults (· ≠ maxVectorsReached) (checkEntryBytes limits entryBytes) := by
  constructor
  · unfold checkBytes
    split
    · split
      · exact .error (by decide)
      · exact .ok _
    · exact .ok _
  · unfold checkEntryBytes
    split
    · split
      · exact .error (by decide)
      · exact .ok _
    · exact .ok _

omit [Env] in
theorem enforceSingle_full (hlimit : c.config.limits.maxVectors = some N) (hfull : N ≤ c.count)
    (entryBytes : Nat) : c.enforceSingle entryBytes = .error maxVectorsReached := by
  unfold enforceSingle checkVectors
  rw [hlimit]
  simp only [ge_iff_le, hfull, decide_true, if_true]
  rfl

omit [Env] in
theorem enforceSingle_room (hlimit : c.config.limits.maxVectors = some N) (hroom : ¬N ≤ c.count)
    (entryBytes : Nat) : Faults (· ≠ maxVectorsReached) (c.enforceSingle entryBytes) := by
  unfold enforceSingle checkVectors
  rw [hlimit]
  simp only [ge_iff_le, hroom, decide_false, Bool.false_eq_true, if_false]
  exact (checks_ne _ _ 0).1.bind fun _ _ => (checks_ne _ 0 _).2

omit [Env] in
theorem enforceBatch_full {totalEntries : Nat} (hlimit : c.config.limits.maxVectors = some N)
    (hfull : N < c.count + totalEntries) (totalBytes : Nat) (maxEntryBytes : Option Nat) :
    c.enforceBatch totalEntries totalBytes maxEntryBytes = .error maxVectorsReached := by
  unfold enforceBatch checkVectors
  rw [hlimit]
  simp only [gt_iff_lt, hfull, decide_true, if_true]
  rfl

omit [Env] in
theorem enforceBatch_room {totalEntries : Nat} (hlimit : c.config.limits.maxVectors = some N)
    (hroom : ¬N < c.count + totalEntries) (totalBytes : Nat) (maxEntryBytes : Option Nat) :
    Faults (· ≠ maxVectorsReached) (c.enforceBatch totalEntries totalBytes maxEntryBytes) := by
  unfold enforceBatch checkVectors
  rw [hlimit]
  simp only [gt_iff_lt, hroom, decide_false, Bool.false_eq_true, if_false]
  refine (checks_ne _ _ 0).1.bind fun _ _ => ?_
  cases maxEntryBytes with
  | none => exact .ok _
  | some maxVecBytes =>
      simp only
      split
      · exact (checks_ne _ 0 _).2
      · exact .ok _

end Collection

/-! ## Where a program fails with the message of the check -/

/-- The program fails with the message of the check exactly where `full`. -/
def Decides {α : Type} (full : Prop) (p : CollM α) (s : Session) (d : Disk) : Prop :=
  wp p (fun _ => True) (fun _ _ _ => ¬full) (fun e _ _ => e = maxVectorsReached ↔ full) s d

variable {full : Prop} {α β : Type}

omit [Env] in
theorem Decides.rejected_iff {p : CollM α} (h : Decides full p s d) :
    (p s d).result = .error maxVectorsReached ↔ full := by
  cases hret : (p s d).result with
  | ok a =>
      have hroom : ¬full := wp_ok h hret
      refine ⟨fun heq => ?_, fun hfull => absurd hfull hroom⟩
      cases heq
  | error e =>
      have hiff : e = maxVectorsReached ↔ full := wp_error h hret
      rw [Except.error.injEq, hiff]

omit [Env] in
theorem Decides.congr {full' : Prop} {p : CollM α} (h : Decides full p s d) (hiff : full ↔ full') :
    Decides full' p s d :=
  propext hiff ▸ h

omit [Env] in
theorem Decides.of_spares {p : CollM α} (hroom : ¬full) (h : Spares p) : Decides full p s d :=
  h.wp (fun _ _ _ => hroom) fun _ _ _ hne => ⟨fun heq => absurd heq hne, fun hfull => absurd hfull hroom⟩

omit [Env] in
/-- What comes after the check does not fail with its message. -/
theorem Decides.bind {p : CollM α} {k : α → CollM β} (hp : Decides full p s d) (hk : ∀ a, Spares (k a)) :
    Decides full (p >>= k) s d := by
  refine wp_bind.mpr (wp_conseq hp fun a s' d' hroom => ?_)
  exact Decides.of_spares hroom (hk a)

omit [Env] in
theorem Decides.check {x : Except Fault Unit} {k : Unit → CollM β} (hfull : full → x = .error maxVectorsReached)
    (hroom : ¬full → Faults (· ≠ maxVectorsReached) x) (hk : ¬full → ∀ a, Decides full (k a) s d) :
    Decides full (Prog.ofExcept x >>= k) s d := by
  refine wp_bind.mpr (wp_ofExcept.mpr ⟨fun a hx => ?_, fun e hx => ⟨fun heq => ?_, fun h => ?_⟩⟩)
  · have hnot : ¬full := by
      intro h
      rw [hfull h] at hx
      cases hx
    exact hk hnot a
  · by_contra hnot
    exact hroom hnot e hx heq
  · rw [hfull h] at hx
    exact (Except.error.inj hx).symm

namespace Collection

theorem decides_insertInternal (hlimit : s.coll.config.limits.maxVectors = some N) (entry : Document) :
    Decides (N ≤ s.coll.count) (insertInternal entry) s d := by
  refine wp_bind.mpr (wp_asks.mpr ?_)
  refine Decides.check (fun hfull => enforceSingle_full hlimit hfull _)
    (fun hroom => enforceSingle_room hlimit hroom _) fun hroom _ => .of_spares hroom ?_
  refine .bind (spares_appendRecord _) fun _ => ?_
  refine .bind (.modify _) fun _ => ?_
  refine .bind (.modify _) fun _ => ?_
  refine .bind (spares_checkDimensions _) fun _ => ?_
  refine .bind (.modify _) fun _ => ?_
  refine .bind (spares_indexVector _ _) fun _ => ?_
  exact .bind spares_updateVectorCount fun _ => .pure _

theorem decides_insert (hlimit : s.coll.config.limits.maxVectors = some N) (entry : Document) :
    Decides (N ≤ s.coll.count) (insert entry) s d := by
  refine wp_bind.mpr (wp_logEntry trivial ?_)
  have hinternal := decides_insertInternal (s := ⟨s.coll.logged, s.draws⟩)
    (d := d.logged s.coll.checkpoint.wal (.insert entry 0)) hlimit entry
  exact hinternal.bind fun _ => .bind spares_trackOperation fun _ => .pure _

theorem wp_deleteInternal_kept {id : Uuid} {C : Disk → Prop} {Q : Unit → Session → Disk → Prop}
    {R : Fault → Session → Disk → Prop} (hQ : ∀ s', s'.coll.config = s.coll.config →
      s'.coll.index = s.coll.index.erase id → Q () s' d) :
    wp (deleteInternal id) C Q R s d := by
  simp only [deleteInternal, updateVectorCount, wp_bind, wp_draw, wp_update]
  exact hQ _ rfl rfl

/-- The first check decides: what is removed before the second one only makes room. -/
theorem decides_upsert (hlimit : s.coll.config.limits.maxVectors = some N) (entry : Document) :
    Decides (N ≤ s.coll.count) (upsert entry) s d := by
  refine wp_bind.mpr (wp_asks.mpr ?_)
  refine Decides.check (fun hfull => enforceSingle_full hlimit hfull _)
    (fun hroom => enforceSingle_room hlimit hroom _) fun hroom _ => ?_
  refine wp_ite.mpr ⟨fun _ => ?_, fun _ => decides_insert hlimit entry⟩
  refine wp_bind.mpr (wp_logEntry trivial (wp_bind.mpr (wp_deleteInternal_kept ?_)))
  intro s₁ hconfig hindex
  have hcount : s₁.coll.count ≤ s.coll.count := by
    unfold count HashMap.len
    rw [hindex, Finmap.keys_erase]
    exact Finset.card_le_card (Finset.erase_subset _ _)
  have hinternal : ∀ d₁, Decides (N ≤ s₁.coll.count) (insertInternal entry) s₁ d₁ := fun _ =>
    decides_insertInternal (by rw [hconfig]; exact hlimit) entry
  have hsame : N ≤ s₁.coll.count ↔ N ≤ s.coll.count :=
    iff_of_false (fun hle => hroom (hle.trans hcount)) hroom
  exact ((hinternal _).congr hsame).bind fun _ => .bind spares_trackOperation fun _ => .pure _

theorem decides_insertBatch (hlimit : s.coll.config.limits.maxVectors = some N) (entries : List Document) :
    Decides (N < s.coll.count + entries.length) (insertBatch entries) s d := by
  have hlogs : wp (entries.forM fun entry => logEntry (.insert entry 0)) (fun _ => True)
      (fun _ s' _ => s'.coll.index = s.coll.index ∧ s'.coll.config = s.coll.config)
      (fun e _ _ => e = maxVectorsReached ↔ N < s.coll.count + entries.length) s d := by
    refine wp_forM (fun _ s' _ => s'.coll.index = s.coll.index ∧ s'.coll.config = s.coll.config) ?_
      (fun _ _ h => h) ⟨rfl, rfl⟩
    intro entry _ s' d' h
    exact wp_logEntry trivial h
  refine wp_bind.mpr (wp_conseq hlogs ?_)
  rintro _ s₁ d₁ ⟨hindex, hconfig⟩
  refine wp_bind.mpr (wp_asks.mpr ?_)
  have hcount : s₁.coll.count = s.coll.count := congrArg HashMap.len hindex
  have hlimit₁ : s₁.coll.config.limits.maxVectors = some N := by rw [hconfig, hlimit]
  have hlen : (entries.map fun entry => (entry.id, RecordStore.encodeDocument entry)).length =
      entries.length := List.length_map _
  refine Decides.check (fun hfull => ?_) (fun hroom => ?_) fun hroom _ => .of_spares hroom ?_
  · exact enforceBatch_full hlimit₁ (by rw [hcount, hlen]; exact hfull) _ _
  · exact enforceBatch_room hlimit₁ (by rw [hcount, hlen]; exact hroom) _ _
  · exact .bind (.bind (raises_growMmapIfNeeded _ _) fun _ => raises_appendEach _ _) fun _ =>
      .bind (.modify _) fun _ => .bind spares_trackOperation fun _ => .bind (.forM spares_indexBatched)
      fun _ => .bind spares_updateVectorCount fun _ => .pure _

/-- An update of a document that there is is charged for. -/
theorem decides_updateMetadata (h : Held .data s.coll.recordStore s.coll.index d t)
    (hlimit : s.coll.config.limits.maxVectors = some N) (id : Uuid) (metadata : Metadata) :
    Decides (id ∈ t ∧ N ≤ s.coll.count) (updateMetadata id metadata) s d := by
  refine wp_bind.mpr ?_
  simp only [fetch, wp_bind, wp_self, wp_device, wp_ofExcept, h.get]
  refine ⟨fun found hfound => ?_, fun e he => by cases he⟩
  cases hfound
  cases hdoc : t.lookup id with
  | none => exact wp_pure.mpr fun hfull => absurd hfull.1 (Finmap.lookup_eq_none.mp hdoc)
  | some doc =>
      have hid : id ∈ t := Finmap.mem_iff.mpr ⟨doc, hdoc⟩
      refine wp_bind.mpr (wp_logEntry trivial (wp_bind.mpr (wp_asks.mpr ?_)))
      refine Decides.check (fun hfull => enforceSingle_full hlimit hfull.2 _)
        (fun hroom => enforceSingle_room hlimit (fun hle => hroom ⟨hid, hle⟩) _)
        fun hroom _ => .of_spares hroom ?_
      refine .bind (spares_appendRecord _) fun _ => ?_
      refine .bind (.modify _) fun _ => ?_
      refine .bind spares_updateVectorCount fun _ => ?_
      exact .bind spares_trackOperation fun _ => .pure _

omit [Env] in
theorem wp_checkOrSetDimensions_kept {vector : Vector32} {C : Disk → Prop} {Q : Unit → Session → Disk → Prop}
    {R : Fault → Session → Disk → Prop} (hdim : ∀ n, s.coll.metadata.dimensions = some n → vector.length = n)
    (hQ : ∀ s', s'.coll.config = s.coll.config → s'.coll.index = s.coll.index → Q () s' d) :
    wp (checkOrSetDimensions vector) C Q R s d := by
  simp only [checkOrSetDimensions, wp_bind, wp_self]
  cases hmeta : s.coll.metadata.dimensions with
  | none => exact wp_update.mpr (hQ _ rfl rfl)
  | some n =>
      have hvalid : validateDimensions vector n = .ok () := by
        unfold validateDimensions
        rw [if_neg (not_not.mpr (hdim n hmeta))]
      refine wp_ofExcept.mpr ⟨fun _ _ => hQ _ rfl rfl, fun e he => ?_⟩
      rw [hvalid] at he
      cases he

theorem decides_updateVector (h : Held .data s.coll.recordStore s.coll.index d t)
    (hlimit : s.coll.config.limits.maxVectors = some N) (id : Uuid) {vector : Vector32}
    (hdim : ∀ n, s.coll.metadata.dimensions = some n → vector.length = n) :
    Decides (id ∈ t ∧ N ≤ s.coll.count) (updateVector id vector) s d := by
  refine wp_bind.mpr ?_
  simp only [fetch, wp_bind, wp_self, wp_device, wp_ofExcept, h.get]
  refine ⟨fun found hfound => ?_, fun e he => by cases he⟩
  cases hfound
  cases hdoc : t.lookup id with
  | none => exact wp_pure.mpr fun hfull => absurd hfull.1 (Finmap.lookup_eq_none.mp hdoc)
  | some doc =>
      have hid : id ∈ t := Finmap.mem_iff.mpr ⟨doc, hdoc⟩
      refine wp_bind.mpr (wp_logEntry trivial (wp_bind.mpr (wp_checkOrSetDimensions_kept hdim ?_)))
      intro s₁ hconfig hindex
      have hcount : s₁.coll.count = s.coll.count := congrArg HashMap.len hindex
      have hlimit₁ : s₁.coll.config.limits.maxVectors = some N := by
        rw [hconfig]
        exact hlimit
      refine wp_bind.mpr (wp_asks.mpr ?_)
      refine Decides.check (fun hfull => enforceSingle_full hlimit₁ (hcount ▸ hfull.2) _)
        (fun hroom => enforceSingle_room hlimit₁ (fun hle => hroom ⟨hid, hcount ▸ hle⟩) _)
        fun hroom _ => .of_spares hroom ?_
      refine .bind (spares_appendRecord _) fun _ => ?_
      refine .bind spares_draw fun _ => ?_
      refine .bind (.modify _) fun _ => ?_
      refine .bind (spares_indexVector _ _) fun _ => ?_
      refine .bind spares_updateVectorCount fun _ => ?_
      exact .bind spares_trackOperation fun _ => .pure _

end Collection

/-! ## Calls -/

namespace Call

/-- A call that writes documents, and is checked against the limit. -/
def IsChecked : Call → Prop
  | .insert _ | .insertBatch _ | .upsert _ | .updateMetadata _ _ | .updateVector _ _ => True
  | .delete _ | .deleteBatch _ | .checkpoint | .rebuildIndex | .compact => False

/-- The vector of an update has the dimension of the collection. -/
def Dimensioned (c : Collection) : Call → Prop
  | .updateVector _ vector => ∀ n, c.metadata.dimensions = some n → vector.length = n
  | _ => True

/-- What the check counts exceeds the limit. -/
def OverLimit (t : Table) (N : Nat) : Call → Prop
  | .insert _ | .upsert _ => N ≤ t.len
  | .insertBatch docs => N < t.len + docs.length
  | .updateMetadata id _ | .updateVector id _ => id ∈ t ∧ N ≤ t.len
  | _ => False

/-- The ids among those of the documents that are new. -/
def newIds (t : Table) (docs : List Document) : Finset Uuid := (docs.map Document.id).toFinset \ t.keys

/-- What the check counts exceeds the limit exactly if there are too many new ids. -/
def ChargedFairly (t : Table) (N : Nat) : Call → Prop
  | .insert doc | .upsert doc => doc.id ∈ t → t.len ≠ N
  | .insertBatch docs => t.len + docs.length ≤ N ∨ N < t.len + (newIds t docs).card
  | .updateMetadata id _ | .updateVector id _ => if id ∈ t then t.len ≠ N else t.len ≤ N
  | _ => True

theorem rejected_iff_overLimit (h : Held .data s.coll.recordStore s.coll.index d t)
    (hlimit : s.coll.config.limits.maxVectors = some N) {call : Call} (hcall : call.IsChecked)
    (hdim : call.Dimensioned s.coll) :
    (call.perform s d).result = .error maxVectorsReached ↔ call.OverLimit t N := by
  have hcount : s.coll.count = t.len := h.len
  cases call with
  | insert doc =>
      have hp := Collection.decides_insert (d := d) hlimit doc
      rw [hcount] at hp
      exact (hp.bind fun _ => .pure _).rejected_iff
  | insertBatch docs =>
      have hp := Collection.decides_insertBatch (d := d) hlimit docs
      rw [hcount] at hp
      exact (hp.bind fun _ => .pure _).rejected_iff
  | upsert doc =>
      have hp := Collection.decides_upsert (d := d) hlimit doc
      rw [hcount] at hp
      exact (hp.bind fun _ => .pure _).rejected_iff
  | updateMetadata id metadata =>
      have hp := Collection.decides_updateMetadata h hlimit id metadata
      rw [hcount] at hp
      exact (hp.bind fun _ => .pure _).rejected_iff
  | updateVector id vector =>
      have hp := Collection.decides_updateVector h hlimit id hdim
      rw [hcount] at hp
      exact (hp.bind fun _ => .pure _).rejected_iff
  | delete id => exact hcall.elim
  | deleteBatch ids => exact hcall.elim
  | checkpoint => exact hcall.elim
  | rebuildIndex => exact hcall.elim
  | compact => exact hcall.elim

end Call

omit [Env] in
theorem Table.keys_insertDocs (t : Table) (docs : List Document) :
    (t.insertDocs docs).keys = t.keys ∪ (docs.map Document.id).toFinset := by
  induction docs generalizing t with
  | nil => exact (Finset.union_empty _).symm
  | cons doc docs ih =>
      have hstep : (t.insertDocs (doc :: docs)).keys = _ := ih (t.insert doc.id doc)
      rw [hstep, HashMap.keys_insert, List.map_cons, List.toFinset_cons, Finset.insert_union,
        Finset.union_insert]

omit [Env] in
theorem Table.len_insertDocs (t : Table) (docs : List Document) :
    HashMap.len (t.insertDocs docs) = t.len + (Call.newIds t docs).card := by
  unfold HashMap.len Call.newIds
  rw [Table.keys_insertDocs, ← Finset.union_sdiff_self_eq_union,
    Finset.card_union_of_disjoint Finset.disjoint_sdiff]

namespace Call

omit [Env] in
theorem len_insert (t : Table) (id : Uuid) (doc : Document) :
    HashMap.len (t.insert id doc) = if id ∈ t then t.len else t.len + 1 := by
  unfold HashMap.len
  rw [HashMap.keys_insert]
  split
  · rename_i hid
    rw [Finset.insert_eq_of_mem (Finmap.mem_keys.mpr hid)]
  · rename_i hid
    rw [Finset.card_insert_of_notMem fun hin => hid (Finmap.mem_keys.mp hin)]

omit [Env] in
/-- A check that counts one more is exact, unless the id is not new and the limit is reached. -/
theorem overLimit_insert_iff (t : Table) (id : Uuid) (doc : Document) (N : Nat) :
    (N ≤ t.len ↔ N < HashMap.len (t.insert id doc)) ↔ (id ∈ t → t.len ≠ N) := by
  rw [len_insert]
  by_cases hid : id ∈ t
  · rw [if_pos hid]
    constructor
    · intro hiff _ heq
      exact absurd (hiff.mp heq.ge) (heq ▸ lt_irrefl _)
    · intro hne
      exact ⟨fun hle => lt_of_le_of_ne hle (hne hid).symm, le_of_lt⟩
  · rw [if_neg hid]
    exact ⟨fun _ hin => absurd hin hid, fun _ => Nat.lt_succ_iff.symm⟩

omit [Env] in
theorem overLimit_update_iff {t t' : Table} {id : Uuid} (N : Nat) (hlen : t'.len = t.len) :
    (id ∈ t ∧ N ≤ t.len ↔ N < t'.len) ↔ if id ∈ t then t.len ≠ N else t.len ≤ N := by
  rw [hlen]
  split
  · rename_i hid
    constructor
    · intro hiff heq
      exact absurd (hiff.mp ⟨hid, heq.ge⟩) (heq ▸ lt_irrefl _)
    · intro hne
      exact ⟨fun h => lt_of_le_of_ne h.2 hne.symm, fun hlt => ⟨hid, hlt.le⟩⟩
  · rename_i hid
    constructor
    · intro hiff
      by_contra hlt
      exact hid (hiff.mpr (not_le.mp hlt)).1
    · intro hle
      exact ⟨fun h => absurd h.1 hid, fun hlt => absurd hle (not_le.mpr hlt)⟩

omit [Env] in
theorem overLimit_batch_iff (t : Table) (docs : List Document) (N : Nat) :
    (N < t.len + docs.length ↔ N < HashMap.len (t.insertDocs docs)) ↔
      t.len + docs.length ≤ N ∨ N < t.len + (newIds t docs).card := by
  have hnew : (newIds t docs).card ≤ docs.length := by
    have hids : (docs.map Document.id).toFinset.card ≤ (docs.map Document.id).length :=
      List.toFinset_card_le _
    rw [List.length_map] at hids
    exact (Finset.card_le_card Finset.sdiff_subset).trans hids
  rw [Table.len_insertDocs]
  omega

/-- A call is rejected for the number of vectors exactly if it would exceed the limit, where it is
charged fairly. -/
theorem rejected_iff_exceeds (h : Held .data s.coll.recordStore s.coll.index d t)
    (hlimit : s.coll.config.limits.maxVectors = some N) {call : Call} (hcall : call.IsChecked)
    (hdim : call.Dimensioned s.coll) :
    ((call.perform s d).result = .error maxVectorsReached ↔ N < HashMap.len (call.apply t)) ↔
      call.ChargedFairly t N := by
  rw [rejected_iff_overLimit h hlimit hcall hdim]
  have hsame : ∀ {id : Uuid} {doc : Document}, id ∈ t → HashMap.len (t.insert id doc) = t.len := by
    intro id doc hid
    rw [len_insert, if_pos hid]
  cases call with
  | insert doc => exact overLimit_insert_iff t doc.id doc N
  | insertBatch docs => exact overLimit_batch_iff t docs N
  | upsert doc => exact overLimit_insert_iff t doc.id doc N
  | updateMetadata id metadata =>
      refine overLimit_update_iff N ?_
      cases hdoc : t.lookup id with
      | none => simp only [apply, hdoc]
      | some doc =>
          simp only [apply, hdoc]
          exact hsame (Finmap.mem_iff.mpr ⟨doc, hdoc⟩)
  | updateVector id vector =>
      refine overLimit_update_iff N ?_
      cases hdoc : t.lookup id with
      | none => simp only [apply, hdoc]
      | some doc =>
          simp only [apply, hdoc]
          exact hsame (Finmap.mem_iff.mpr ⟨doc, hdoc⟩)
  | delete id => exact hcall.elim
  | deleteBatch ids => exact hcall.elim
  | checkpoint => exact hcall.elim
  | rebuildIndex => exact hcall.elim
  | compact => exact hcall.elim

end Call

end

/-! ## A full collection -/

section

attribute [local instance] Reference.flat

open Reference CollectionBuilder

/-- A collection of one document at most. -/
def oneVector : CollectionConfig := config (.flat .cosine .auto) ⟨some 1, none, none⟩ 1000

/-- A collection that is full, and a call on it. -/
theorem full_session :
    ∃ s d, Reached "c" oneVector s d (Table.run ∅ [.call (.insert (doc 0 1))]) ∧
      s.coll.config.limits = ⟨some 1, none, none⟩ := by
  have hfits : Table.Fits ∅ [.call (.insert (doc 0 1))] := by
    refine ⟨?_, trivial⟩
    decide +kernel
  have heval : (session "c" oneVector [.call (.insert (doc 0 1))] 0 Disk.empty).result.toOption.map
      (fun out => out.2.coll.config.limits) = some ⟨some 1, none, none⟩ := by
    decide +kernel
  obtain ⟨⟨replies, s⟩, hsession, hlimits⟩ := ok_of_map heval
  exact ⟨s, _, reached_session hfits (runs_of_ok hsession), hlimits⟩

/-- Replacing the metadata of the one document of a full collection is rejected. -/
theorem full_update_rejected :
    ∃ (s : Session) (d : Disk) (t : Table) (call : Call), Reached "c" oneVector s d t ∧
      s.coll.config.limits = ⟨some 1, none, none⟩ ∧ call.IsChecked ∧ call.Dimensioned s.coll ∧
        (call.perform s d).result = .error maxVectorsReached ∧ HashMap.len (call.apply t) = 1 := by
  obtain ⟨s, d, hreached, hlimits⟩ := full_session
  refine ⟨s, d, _, .updateMetadata 0 ∅, hreached, hlimits, trivial, trivial, ?_, by decide +kernel⟩
  have hlimit : s.coll.config.limits.maxVectors = some 1 := congrArg LimitsConfig.maxVectors hlimits
  have hcall : Call.IsChecked (.updateMetadata 0 ∅) := trivial
  refine (Call.rejected_iff_overLimit hreached.coherent.held hlimit hcall trivial).mpr ?_
  constructor
  · exact Finmap.mem_iff.mpr ⟨doc 0 1, Finmap.lookup_insert _⟩
  · decide +kernel

/-- A second document would be one too many, and is rejected. -/
theorem full_insert_rejected :
    ∃ (s : Session) (d : Disk) (t : Table), Reached "c" oneVector s d t ∧
      (Call.perform (.insert (doc 1 1)) s d).result = .error maxVectorsReached := by
  obtain ⟨s, d, hreached, hlimits⟩ := full_session
  have hlimit : s.coll.config.limits.maxVectors = some 1 := congrArg LimitsConfig.maxVectors hlimits
  have hnew : (1 : Uuid) ∉ Table.run ∅ [.call (.insert (doc 0 1))] := by
    refine fun hin => absurd (Finmap.mem_insert.mp hin) ?_
    rintro (heq | hin)
    · revert heq
      decide
    · exact Finmap.notMem_empty hin
  have hcall : Call.IsChecked (.insert (doc 1 1)) := trivial
  have hiff := (Call.rejected_iff_exceeds hreached.coherent.held hlimit hcall trivial).mpr
    fun hin => absurd hin hnew
  exact ⟨s, d, _, hreached, hiff.mpr (by decide +kernel)⟩

end
