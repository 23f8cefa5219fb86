-- SUMMARY: What each write does to the vector index and to the cached vectors, and that nothing else touches them.
import Piramid.Collections.Session
import Piramid.Collections.Frames

/-!
# The index and the cached vectors

A write removes ids from the index, or caches a vector and inserts its id, and does so in the
order of the source. Logging, storing, counting and checkpoints do neither.
-/

open Loop Prog

/-- What the searches of a collection read, the documents aside. -/
def Session.mirror (s : Session) : VectorIndex × HashMap Uuid Vector32 :=
  (s.coll.vectorIndex, s.coll.cache.vectors)

/-- A program that leaves the index and the cached vectors as they are. -/
abbrev Bystander {α : Type} (p : CollM α) : Prop := Leaves Session.mirror .index p

section

variable [Env]

/-- A vector is cached, and its id inserted. -/
def Indexes (id : Uuid) (vector : Vector32) (w w' : VectorIndex × HashMap Uuid Vector32) : Prop :=
  w'.2 = w.2.insert id vector ∧ ∃ order r, w.1.insert id vector ⟨w.2.insert id vector, order⟩ r = .ok w'.1

theorem Indexes.of_insert {id : Uuid} {vector : Vector32} {ix ix' : VectorIndex}
    {vectors : HashMap Uuid Vector32} {cache : CacheManager} {order : HashOrder Uuid} {r : F32}
    (hcache : cache.vectors = vectors.insert id vector)
    (hret : ix.insert id vector (cache.reader order) r = .ok ix') :
    Indexes id vector (ix, vectors) (ix', cache.vectors) := by
  refine ⟨hcache, order, r, ?_⟩
  rw [← hcache]
  exact hret

/-- The documents of a batch, one after the other. -/
def IndexesAll : List Document → VectorIndex × HashMap Uuid Vector32 →
    VectorIndex × HashMap Uuid Vector32 → Prop
  | [], w, w' => w' = w
  | doc :: docs, w, w' => ∃ w₁, Indexes doc.id doc.vector w w₁ ∧ IndexesAll docs w₁ w'

omit [Env] in
/-- An id is removed. A graph keeps its vector. -/
def Drops (id : Uuid) (w w' : VectorIndex × HashMap Uuid Vector32) : Prop :=
  ∃ order, w' = (w.1.remove id order,
    if (w.1.remove id order).indexType ≠ .hnsw then w.2.erase id else w.2)

/-- The vector of an id is replaced. -/
def Replaces (id : Uuid) (vector : Vector32) (w w' : VectorIndex × HashMap Uuid Vector32) : Prop :=
  ∃ order, Indexes id vector (w.1.remove id order, w.2) w'

/-- What a call on documents does to the index and the cached vectors, where `stored` are the
ids of the documents. -/
def Call.Changes (stored : Finset Uuid) (w w' : VectorIndex × HashMap Uuid Vector32) : Call → Prop
  | .insert doc => Indexes doc.id doc.vector w w'
  | .insertBatch docs => IndexesAll docs w w'
  | .upsert doc =>
    (∃ w₁, Drops doc.id w w₁ ∧ Indexes doc.id doc.vector w₁ w') ∨
      doc.id ∉ stored ∧ Indexes doc.id doc.vector w w'
  | .updateMetadata _ _ => w' = w
  | .updateVector id vector => w' = w ∨ Replaces id vector w w'
  | .delete id => w' = w ∨ Drops id w w'
  | _ => True

namespace Collection

variable {s : Session} {d : Disk}

omit [Env] in
theorem ensures_bystander {α : Type} {p : CollM α} (h : Bystander p) {Q : α → Session → Disk → Prop}
    (hQ : ∀ a s' d', s'.mirror = s.mirror → Q a s' d') : ensures p Q s d :=
  ensures_of_wp (h.wp (C := fun _ => True) (R := fun _ _ _ => True) (fun _ _ => trivial)
    (fun a s' d' hs _ => hQ a s' d' hs) fun _ _ _ _ _ => trivial)

theorem bystander_draw : Bystander (draw : CollM Chance) := leaves_draw fun _ => rfl

theorem bystander_logEntry (entry : WalEntry) : Bystander (logEntry entry) :=
  .bind (.asks _) fun _ => .bind (leaves_log (by simp) _ _) fun _ => .modify fun _ => rfl

theorem bystander_updateVectorCount : Bystander updateVectorCount :=
  .bind bystander_draw fun _ => .modify fun _ => rfl

omit [Env] in
theorem bystander_checkOrSetDimensions (vector : Vector32) : Bystander (checkOrSetDimensions vector) := by
  refine .bind (.asks _) fun c => ?_
  split
  · exact .ofExcept _
  · exact .modify fun _ => rfl

theorem bystander_fetch (id : Uuid) : Bystander (fetch id) :=
  .bind (.asks _) fun _ => .bind .device fun _ => .ofExcept _

omit [Env] in
theorem leaves_appendEach {σ φ : Type} {f : σ → φ} (store : RecordStore) (entries : List (Uuid × Bytes)) :
    Leaves f .index (store.appendEach entries) := by
  induction entries generalizing store with
  | nil => exact .pure _
  | cons entry entries ih =>
      refine .bind (store.leaves_writeAt (StoreFile.file_ne_index _) _ _) fun _ => ?_
      exact .bind (ih _) fun _ => .pure _

omit [Env] in
theorem leaves_appendBatch {σ φ : Type} {f : σ → φ} (store : RecordStore) (entries : List (Uuid × Bytes)) :
    Leaves f .index (store.appendBatch entries) :=
  .bind (store.leaves_growMmapIfNeeded (StoreFile.file_ne_index _) _) fun _ => leaves_appendEach _ _

omit [Env] in
theorem bystander_appendRecord (bytes : Bytes) : Bystander (appendRecord bytes) := by
  refine .bind (.asks _) fun c => ?_
  refine .bind ?_ fun _ => .bind (.modify fun _ => rfl) fun _ => .pure _
  refine .bind (c.recordStore.leaves_growMmapIfNeeded (StoreFile.file_ne_index _) _) fun _ => ?_
  exact .bind (RecordStore.leaves_writeAt _ (StoreFile.file_ne_index _) _ _) fun _ => .pure _

theorem ensures_track_mirror {Q : Unit → Session → Disk → Prop}
    (hQ : ∀ s' d', s'.mirror = s.mirror → Q () s' d') : ensures trackOperation Q s d := by
  refine ensures_trackOperation fun s' d' ha => hQ s' d' ?_
  unfold Session.mirror
  rw [ha.coll]

/-! ## Writes -/

theorem ensures_insertInternal_indexes {doc : Document} {Q : Uuid → Session → Disk → Prop}
    (hQ : ∀ s' d', Indexes doc.id doc.vector s.mirror s'.mirror → Q doc.id s' d') :
    ensures (insertInternal doc) Q s d := by
  simp only [insertInternal, Document.getVector, ensures_bind, ensures_self, ensures_ofExcept]
  intro _ _
  refine ensures_bystander (bystander_appendRecord _) fun p s₁ d₁ h₁ => ?_
  simp only [setDimensions, checkDimensions, indexVector, updateVectorCount, ensures_bind, ensures_self,
    ensures_update, ensures_draw, ensures_pure, ensures_ofExcept,
    CollectionMetadata.setDimensions_dimensions, CacheManager.putVector_putMetadata]
  intro _ _ ix hix
  refine hQ _ _ ?_
  rw [← h₁]
  exact .of_insert (by simp) hix

theorem ensures_deleteInternal_drops {id : Uuid} {Q : Unit → Session → Disk → Prop}
    (hQ : ∀ s' d', Drops id s.mirror s'.mirror → Q () s' d') : ensures (deleteInternal id) Q s d := by
  simp only [deleteInternal, updateVectorCount, ensures_bind, ensures_draw, ensures_update]
  refine hQ _ _ ⟨(Env.chance s.draws).order, ?_⟩
  unfold Session.mirror
  rw [CacheManager.vectors_remove]
  simp only [decide_eq_true_eq]

theorem ensures_insert_indexes {doc : Document} {Q : Uuid → Session → Disk → Prop}
    (hQ : ∀ s' d', Indexes doc.id doc.vector s.mirror s'.mirror → Q doc.id s' d') :
    ensures (insert doc) Q s d := by
  simp only [insert, ensures_bind, ensures_pure]
  refine ensures_bystander (bystander_logEntry _) fun _ s₁ d₁ h₁ => ?_
  refine ensures_insertInternal_indexes fun s₂ d₂ h₂ => ?_
  refine ensures_track_mirror fun s₃ d₃ h₃ => hQ s₃ d₃ ?_
  rw [h₃, ← h₁]
  exact h₂

theorem ensures_upsert_mirror {doc : Document} {Q : Uuid → Session → Disk → Prop}
    (hQ : ∀ s' d', (Call.upsert doc).Changes s.coll.index.keys s.mirror s'.mirror → Q doc.id s' d') :
    ensures (upsert doc) Q s d := by
  simp only [upsert, ensures_bind, ensures_self, ensures_ofExcept, ensures_ite, ensures_pure]
  intro _ _
  constructor
  · intro _
    refine ensures_bystander (bystander_logEntry _) fun _ s₁ d₁ h₁ => ?_
    refine ensures_deleteInternal_drops fun s₂ d₂ h₂ => ?_
    refine ensures_insertInternal_indexes fun s₃ d₃ h₃ => ?_
    refine ensures_track_mirror fun s₄ d₄ h₄ => hQ s₄ d₄ (.inl ?_)
    rw [h₄, ← h₁]
    exact ⟨_, h₂, h₃⟩
  · intro hnot
    refine ensures_insert_indexes fun s₁ d₁ h₁ => hQ s₁ d₁ (.inr ⟨fun hin => hnot ?_, h₁⟩)
    exact Finmap.mem_keys.mp hin

theorem ensures_delete_mirror {id : Uuid} {Q : Bool → Session → Disk → Prop}
    (hQ : ∀ b s' d', s'.mirror = s.mirror ∨ Drops id s.mirror s'.mirror → Q b s' d') :
    ensures (delete id) Q s d := by
  simp only [delete, ensures_bind, ensures_self, ensures_ite, ensures_pure]
  constructor
  · intro _
    refine ensures_bystander (bystander_logEntry _) fun _ s₁ d₁ h₁ => ?_
    refine ensures_deleteInternal_drops fun s₂ d₂ h₂ => ?_
    refine ensures_track_mirror fun s₃ d₃ h₃ => hQ _ s₃ d₃ (.inr ?_)
    rw [h₃, ← h₁]
    exact h₂
  · exact fun _ => hQ _ s d (.inl rfl)

theorem ensures_updateMetadata_mirror {id : Uuid} {metadata : Metadata} {Q : Bool → Session → Disk → Prop}
    (hQ : ∀ b s' d', s'.mirror = s.mirror → Q b s' d') : ensures (updateMetadata id metadata) Q s d := by
  unfold updateMetadata
  rw [ensures_bind]
  refine ensures_bystander (bystander_fetch id) fun found s₁ d₁ h₁ => ?_
  cases found with
  | none => exact ensures_pure.mpr (hQ _ _ _ h₁)
  | some doc =>
      simp only [ensures_bind, ensures_self, ensures_ofExcept, ensures_pure, ensures_update]
      refine ensures_bystander (bystander_logEntry _) fun _ s₂ d₂ h₂ => ?_
      intro _ _
      refine ensures_bystander (bystander_appendRecord _) fun p s₃ d₃ h₃ => ?_
      refine ensures_bystander bystander_updateVectorCount fun _ s₄ d₄ h₄ => ?_
      refine ensures_track_mirror fun s₅ d₅ h₅ => hQ _ s₅ d₅ ?_
      rw [h₅, h₄, ← h₁, ← h₂, ← h₃]
      simp [Session.mirror]

theorem ensures_updateVector_mirror {id : Uuid} {vector : Vector32} {Q : Bool → Session → Disk → Prop}
    (hQ : ∀ b s' d', s'.mirror = s.mirror ∨ Replaces id vector s.mirror s'.mirror → Q b s' d') :
    ensures (updateVector id vector) Q s d := by
  unfold updateVector
  rw [ensures_bind]
  refine ensures_bystander (bystander_fetch id) fun found s₁ d₁ h₁ => ?_
  cases found with
  | none => exact ensures_pure.mpr (hQ _ _ _ (.inl h₁))
  | some doc =>
      simp only [ensures_bind, ensures_self, ensures_ofExcept, ensures_pure, ensures_update]
      refine ensures_bystander (bystander_logEntry _) fun _ s₂ d₂ h₂ => ?_
      refine ensures_bystander (bystander_checkOrSetDimensions _) fun _ s₃ d₃ h₃ => ?_
      intro _ _
      refine ensures_bystander (bystander_appendRecord _) fun p s₄ d₄ h₄ => ?_
      simp only [indexVector, updateVectorCount, ensures_bind, ensures_self, ensures_update,
        ensures_draw, ensures_ofExcept, CacheManager.putVector_putMetadata]
      intro ix hix
      refine ensures_track_mirror fun s₅ d₅ h₅ => hQ _ s₅ d₅ (.inr ?_)
      rw [h₅, ← h₁, ← h₂, ← h₃, ← h₄]
      exact ⟨_, .of_insert (by simp [Session.mirror]) hix⟩

theorem ensures_insertBatch_mirror {docs : List Document} {Q : List Uuid → Session → Disk → Prop}
    (hQ : ∀ s' d', IndexesAll docs s.mirror s'.mirror → Q (docs.map Document.id) s' d') :
    ensures (insertBatch docs) Q s d := by
  have hloop : ∀ (docs : List Document) {s : Session} {d : Disk},
      ensures (docs.forM indexBatched) (fun _ s' _ => IndexesAll docs s.mirror s'.mirror) s d := by
    intro docs
    induction docs with
    | nil => exact fun {s d} => ensures_pure.mpr rfl
    | cons doc docs ih =>
        intro s d
        change ensures (indexBatched doc >>= fun _ => docs.forM indexBatched) _ s d
        simp only [indexBatched, setDimensions, checkDimensions, indexVector, ensures_bind, ensures_self,
          ensures_update, ensures_draw, ensures_ofExcept, CollectionMetadata.setDimensions_dimensions]
        intro _ _ ix hix
        refine ensures_mono ih fun _ s' _ hall => ?_
        exact ⟨_, .of_insert (by simp) hix, hall⟩
  simp only [insertBatch, ensures_bind, ensures_pure]
  refine ensures_bystander (.forM fun doc => bystander_logEntry _) fun _ s₁ d₁ h₁ => ?_
  simp only [ensures_self, ensures_ofExcept, ensures_update]
  intro _ _
  refine ensures_bystander (leaves_appendBatch _ _) fun _ s₂ d₂ h₂ => ?_
  refine ensures_track_mirror fun s₃ d₃ h₃ => ?_
  refine ensures_mono (hloop docs) fun _ s₄ d₄ hall => ?_
  refine ensures_bystander bystander_updateVectorCount fun _ s₅ d₅ h₅ => hQ s₅ d₅ ?_
  rw [h₅, ← h₁, ← h₂]
  rw [h₃] at hall
  exact hall

end Collection

/-- What a call that returns has done to the index and the cached vectors. -/
theorem Call.ensures_changes (call : Call) (s : Session) (d : Disk) :
    ensures call.perform (fun _ s' _ => call.Changes s.coll.index.keys s.mirror s'.mirror) s d := by
  cases call with
  | insert doc =>
      simp only [perform, ensures_bind, ensures_pure]
      exact Collection.ensures_insert_indexes fun _ _ h => h
  | insertBatch docs =>
      simp only [perform, ensures_bind, ensures_pure]
      exact Collection.ensures_insertBatch_mirror fun _ _ h => h
  | upsert doc =>
      simp only [perform, ensures_bind, ensures_pure]
      exact Collection.ensures_upsert_mirror fun _ _ h => h
  | updateMetadata id metadata =>
      simp only [perform, ensures_bind, ensures_pure]
      exact Collection.ensures_updateMetadata_mirror fun _ _ _ h => h
  | updateVector id vector =>
      simp only [perform, ensures_bind, ensures_pure]
      exact Collection.ensures_updateVector_mirror fun _ _ _ h => h
  | delete id =>
      simp only [perform, ensures_bind, ensures_pure]
      exact Collection.ensures_delete_mirror fun _ _ _ h => h
  | deleteBatch ids => exact ensures_of_forall fun _ _ _ => trivial
  | checkpoint => exact ensures_of_forall fun _ _ _ => trivial
  | rebuildIndex => exact ensures_of_forall fun _ _ _ => trivial
  | compact => exact ensures_of_forall fun _ _ _ => trivial

end
