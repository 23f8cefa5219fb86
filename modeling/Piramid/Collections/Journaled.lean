-- SUMMARY: Every call on documents, effect by effect: what could be recovered if it were stopped there.
import Piramid.Collections.Serving

/-!
# Operations against their log

An operation logs what it is about to do before it does it. From then on its updates are
what a replay would bring back, whatever else it has still to write; and when it returns, the
collection in memory has caught up with the files.
-/

open Loop Prog SnapshotLog

/-! ## How many ids are bound -/

namespace DocMap

variable {m : DocMap} {id : Uuid} {ids : List Uuid}

/-- How many of the ids are bound. -/
def present (m : DocMap) (ids : List Uuid) : Nat := (ids.toFinset.filter fun id => (m id).isSome).card

theorem present_cons (h : (m id).isSome) :
    m.present (id :: ids) = DocMap.present ((Update.del id).apply m) ids + 1 := by
  have hdel : ∀ id', (((Update.del id).apply m) id').isSome ↔ id' ≠ id ∧ (m id').isSome := by
    intro id'
    by_cases hid : id' = id
    · simp [hid, Update.apply, Update.key, Update.value]
    · simp [hid, Update.apply, Update.key]
  have hset : ((id :: ids).toFinset.filter fun id => (m id).isSome) =
      insert id (ids.toFinset.filter fun id' => (((Update.del id).apply m) id').isSome) := by
    ext id'
    simp only [Finset.mem_filter, List.mem_toFinset, List.mem_cons, Finset.mem_insert, hdel]
    by_cases hid : id' = id
    · simp [hid, h]
    · simp [hid]
  unfold present
  rw [hset, Finset.card_insert_of_notMem]
  simp [hdel]

theorem present_cons_none (h : m id = none) : m.present (id :: ids) = m.present ids := by
  unfold present
  rw [List.toFinset_cons, Finset.filter_insert]
  simp [h]

end DocMap

section

variable [Env]

variable {config : CollectionConfig} {dom : VectorDomain} {c : Collection} {d : Disk} {g : StoredMap}
  {m m' : DocMap} {s : Session} {C : Disk → Prop} {R : Fault → Session → Disk → Prop}

namespace Collection

theorem Serving.mem_index (h : Serving config dom c d g m m') (id : Uuid) :
    id ∈ c.index ↔ (m id).isSome :=
  h.live.memory.shows.mem_iff id

/-! ## Logging -/

theorem wp_logUpdate {entry : WalEntry} {u : DocUpdate} {Q : Unit → Session → Disk → Prop}
    (hu : entry.update? = some u) (h : Serving config dom s.coll d g m m')
    (hentry : entry.Sound dom) (hC : ∀ d', Recoverable dom (u.apply m') d' → C d')
    (hQ : ∀ s' d' g', Serving config dom s'.coll d' g' m (u.apply m') → Q () s' d') :
    wp (logEntry entry) C Q R s d := by
  refine wp_logEntry_live h.live (fun _ => h.numbered) hentry ?_ ?_
  · intro d' g' hstored hcontents
    rw [hu, h.contents] at hcontents
    exact hC d' ⟨g', hstored, hcontents⟩
  · rintro d' g' - hg' hlive hcontents
    rw [hu, h.contents] at hcontents
    refine hQ _ d' g' ⟨hlive, hcontents, ?_⟩
    intro e he hup
    rw [hg', List.mem_append, List.mem_singleton] at he
    rcases he with he | rfl
    · exact Nat.lt_succ_of_lt (h.numbered e he hup)
    · rw [WalEntry.numbered, WalEntry.seq_withSeq]
      exact Nat.lt_succ_self _

/-- The entries of a batch, one after the other. -/
theorem wp_logInserts {docs : List Document} {Q : PUnit → Session → Disk → Prop}
    (h : Serving config dom s.coll d g m m') (hdocs : ∀ doc ∈ docs, doc.Sound dom)
    (hC : ∀ d' j, Recoverable dom (replay ((docs.map fun doc => .put doc.id doc).take j) m') d' → C d')
    (hQ : ∀ s' d' g', Serving config dom s'.coll d' g' m
      (replay (docs.map fun doc => .put doc.id doc) m') → Q ⟨⟩ s' d') :
    wp (docs.forM fun doc => logEntry (.insert doc 0)) C Q R s d := by
  induction docs generalizing s d g m' with
  | nil => exact wp_pure.mpr (hQ s d g h)
  | cons doc docs ih =>
      refine wp_bind.mpr ?_
      refine wp_logUpdate rfl h (fun doc' hdoc' => ?_) (fun d' hd' => hC d' 1 hd') ?_
      · cases hdoc'
        exact hdocs doc (by simp)
      · intro s₁ d₁ g₁ h₁
        refine ih h₁ (fun doc' hdoc' => hdocs doc' (by simp [hdoc'])) ?_ hQ
        intro d' j hd'
        exact hC d' (j + 1) hd'

/-- The deletions of a batch: ids without a document are not logged. -/
theorem wp_logDeletes {ids : List Uuid} {Q : PUnit → Session → Disk → Prop}
    (h : Serving config dom s.coll d g m m')
    (hC : ∀ d' j, Recoverable dom
      (replay (((ids.filter fun id => (m id).isSome).map .del).take j) m') d' → C d')
    (hQ : ∀ s' d' g', Serving config dom s'.coll d' g' m
      (replay ((ids.filter fun id => (m id).isSome).map .del) m') → Q ⟨⟩ s' d') :
    wp (ids.forM logDelete) C Q R s d := by
  induction ids generalizing s d g m' with
  | nil => exact wp_pure.mpr (hQ s d g h)
  | cons id ids ih =>
      refine wp_bind.mpr ?_
      simp only [logDelete, wp_bind, wp_self, wp_when]
      rw [Serving.mem_index h]
      constructor
      · intro hid
        simp only [List.filter_cons, hid, if_true, List.map_cons] at hC hQ
        refine wp_logUpdate rfl h (fun doc' hdoc' => by cases hdoc') (fun d' hd' => hC d' 1 hd') ?_
        intro s₁ d₁ g₁ h₁
        exact ih h₁ (fun d' j hd' => hC d' (j + 1) hd') hQ
      · intro hid
        simp only [List.filter_cons, hid, Bool.false_eq_true, if_false] at hC hQ
        exact ih h hC hQ

/-! ## Single documents -/

variable [LawfulEnv]

/-- Storing a document whose update is logged. -/
theorem wp_storeLogged {doc : Document} {Q : Uuid → Session → Disk → Prop}
    (h : Serving config dom s.coll d g m m') (hsame : (Update.put doc.id doc).apply m = m')
    (hdoc : doc.Sound dom) (hC : ∀ d', Recoverable dom m' d' → C d')
    (hQ : ∀ s' d' g', Serving config dom s'.coll d' g' m' m' → Q doc.id s' d') :
    wp (do let id ← insertInternal doc; trackOperation; pure id) C Q R s d := by
  simp only [wp_bind, wp_pure]
  refine wp_insertInternal h.live hdoc (fun d' hd' => hC d' ⟨g, hd', h.contents⟩) ?_
  intro s₁ d₁ hlive₁ hcheckpoint₁
  rw [hsame] at hlive₁
  exact wp_trackOperation (h.moveOn hlive₁.all hcheckpoint₁) hC hQ

theorem wp_insert {doc : Document} {Q : Uuid → Session → Disk → Prop}
    (h : Serving config dom s.coll d g m m) (hdoc : doc.Sound dom)
    (hC : ∀ d', Recoverable dom ((Update.put doc.id doc).apply m) d' → C d')
    (hQ : ∀ s' d' g', Serving config dom s'.coll d' g' ((Update.put doc.id doc).apply m)
      ((Update.put doc.id doc).apply m) → Q doc.id s' d') :
    wp (insert doc) C Q R s d := by
  unfold insert
  refine wp_bind.mpr (wp_logUpdate rfl h (fun doc' hdoc' => ?_) hC ?_)
  · cases hdoc'
    exact hdoc
  · intro s₁ d₁ g₁ h₁
    exact wp_storeLogged h₁ rfl hdoc hC hQ

theorem wp_upsert {doc : Document} {Q : Uuid → Session → Disk → Prop}
    (h : Serving config dom s.coll d g m m) (hdoc : doc.Sound dom)
    (hC : ∀ d', Recoverable dom ((Update.put doc.id doc).apply m) d' → C d')
    (hQ : ∀ s' d' g', Serving config dom s'.coll d' g' ((Update.put doc.id doc).apply m)
      ((Update.put doc.id doc).apply m) → Q doc.id s' d') :
    wp (upsert doc) C Q R s d := by
  simp only [upsert, wp_bind, wp_self, wp_ofExcept, Live.enforceSingle h.live, wp_ite]
  refine ⟨fun _ _ => ⟨fun _ => ?_, fun _ => wp_insert h hdoc hC hQ⟩, fun e he => by cases he⟩
  refine wp_logUpdate rfl h (fun doc' hdoc' => ?_) hC ?_
  · cases hdoc'
    exact hdoc
  · intro s₁ d₁ g₁ h₁
    refine wp_deleteInternal h₁.live ?_
    intro s₂ hlive₂ hcheckpoint₂
    have h₂ := h₁.moveOn hlive₂.all hcheckpoint₂
    have hstore := wp_storeLogged (R := R) h₂ 
      (Update.apply_apply (u := .put doc.id doc) (v := .del doc.id) rfl m) hdoc hC hQ
    simpa only [wp_bind] using hstore

theorem wp_delete {id : Uuid} {Q : Bool → Session → Disk → Prop}
    (h : Serving config dom s.coll d g m m)
    (hC : ∀ d', Recoverable dom ((Update.del id).apply m) d' → C d')
    (hQ : ∀ s' d' g', Serving config dom s'.coll d' g' ((Update.del id).apply m)
      ((Update.del id).apply m) → Q (m id).isSome s' d') :
    wp (delete id) C Q R s d := by
  simp only [delete, wp_bind, wp_self, wp_ite, wp_pure]
  refine ⟨fun hid => ?_, fun hid => ?_⟩
  · refine wp_logUpdate rfl h (fun doc' hdoc' => by cases hdoc') hC ?_
    intro s₁ d₁ g₁ h₁
    refine wp_deleteInternal h₁.live ?_
    intro s₂ hlive₂ hcheckpoint₂
    refine wp_trackOperation (h₁.moveOn hlive₂.all hcheckpoint₂) hC ?_
    intro s₃ d₃ g₃ h₃
    rw [Serving.mem_index h] at hid
    exact hid ▸ hQ s₃ d₃ g₃ h₃
  · have hnone : m id = none := by
      rw [Serving.mem_index h, Option.not_isSome_iff_eq_none] at hid
      exact hid
    have hsame : (Update.del id).apply m = m := Update.apply_del hnone
    rw [hsame, hnone] at hQ
    exact hQ s d g h

omit [LawfulEnv] in
/-- What is fetched is what the id is bound to. -/
theorem wp_fetch {id : Uuid} {Q : Option Document → Session → Disk → Prop}
    (h : Serving config dom s.coll d g m m') (hQ : Q (m id) s d) : wp (fetch id) C Q R s d := by
  simp only [fetch, wp_bind, wp_self, wp_device, wp_ofExcept, h.live.get id]
  refine ⟨fun x hx => ?_, fun e he => by cases he⟩
  cases hx
  exact hQ

theorem wp_updateMetadata {id : Uuid} {metadata : Metadata} {Q : Bool → Session → Disk → Prop}
    (h : Serving config dom s.coll d g m m)
    (hdoc : ∀ doc, m id = some doc → Document.Sound dom { doc with metadata })
    (hC : ∀ doc, m id = some doc → ∀ d',
      Recoverable dom ((Update.put id { doc with metadata }).apply m) d' → C d')
    (hnone : m id = none → Q false s d)
    (hsome : ∀ doc, m id = some doc → ∀ s' d' g', Serving config dom s'.coll d' g'
      ((Update.put id { doc with metadata }).apply m) ((Update.put id { doc with metadata }).apply m) →
      Q true s' d') :
    wp (updateMetadata id metadata) C Q R s d := by
  unfold updateMetadata
  refine wp_bind.mpr (wp_fetch h ?_)
  cases hm : m id with
  | none => exact wp_pure.mpr (hnone hm)
  | some doc =>
      have hC' := hC doc hm
      have hsound := hdoc doc hm
      obtain ⟨hid, -⟩ := h.live.memory.sound id doc hm
      subst hid
      simp only [wp_bind, wp_self, wp_ofExcept, wp_update, wp_pure]
      refine wp_logUpdate rfl h (fun doc' hdoc' => ?_) hC' ?_
      · cases hdoc'
        exact hsound
      · intro s₁ d₁ g₁ h₁
        rw [Live.enforceSingle h₁.live]
        refine ⟨fun _ _ => ?_, fun e he => by cases he⟩
        refine wp_appendRecord h₁.live hsound.fits (fun d' hd' => hC' d' ⟨g₁, hd', h₁.contents⟩) ?_
        intro p s₂ d₂ hlive₂ hcheckpoint₂ hp hrec
        have hinstalled := Live.install hlive₂ hsound hp hrec
        refine wp_updateVectorCount (hinstalled.remember
          (hinstalled.memory.setCache (hinstalled.memory.within.putMetadata doc.id metadata)) rfl rfl) ?_
        intro s₃ hlive₃ hcheckpoint₃
        refine wp_trackOperation (h₁.moveOn hlive₃.all
          (hcheckpoint₃.trans hcheckpoint₂)) hC' ?_
        intro s₄ d₄ g₄ h₄
        exact hsome doc hm s₄ d₄ g₄ h₄

theorem wp_updateVector {id : Uuid} {vector : Vector32} {Q : Bool → Session → Disk → Prop}
    (h : Serving config dom s.coll d g m m)
    (hdoc : ∀ doc, m id = some doc → Document.Sound dom { doc with vector })
    (hC : ∀ doc, m id = some doc → ∀ d',
      Recoverable dom ((Update.put id { doc with vector }).apply m) d' → C d')
    (hnone : m id = none → Q false s d)
    (hsome : ∀ doc, m id = some doc → ∀ s' d' g', Serving config dom s'.coll d' g'
      ((Update.put id { doc with vector }).apply m) ((Update.put id { doc with vector }).apply m) →
      Q true s' d') :
    wp (updateVector id vector) C Q R s d := by
  unfold updateVector
  refine wp_bind.mpr (wp_fetch h ?_)
  cases hm : m id with
  | none => exact wp_pure.mpr (hnone hm)
  | some doc =>
      have hC' := hC doc hm
      have hsound := hdoc doc hm
      obtain ⟨hid, -⟩ := h.live.memory.sound id doc hm
      subst hid
      simp only [wp_bind, wp_self, wp_ofExcept, wp_update, wp_draw, wp_pure]
      refine wp_logUpdate rfl h (fun doc' hdoc' => ?_) hC' ?_
      · cases hdoc'
        exact hsound
      · intro s₁ d₁ g₁ h₁
        refine wp_checkOrSetDimensions h₁.live hsound.vector.length ?_
        intro s₂ hlive₂ hcheckpoint₂
        rw [Live.enforceSingle hlive₂]
        refine ⟨fun _ _ => ?_, fun e he => by cases he⟩
        refine wp_appendRecord hlive₂ hsound.fits (fun d' hd' => hC' d' ⟨g₁, hd', h₁.contents⟩) ?_
        intro p s₃ d₃ hlive₃ hcheckpoint₃ hp hrec
        have hinstalled := Live.install hlive₃ hsound hp hrec
        have hcached := hinstalled.memory.setCache
          ((hinstalled.memory.within.putVector doc.id hsound.vector).putMetadata doc.id doc.metadata)
        refine wp_indexVector (hinstalled.remember (hcached.setVectorIndex
          (hcached.able.remove doc.id (Env.chance s₃.draws).order)) rfl rfl) hsound.vector ?_
        intro s₄ hlive₄ hcheckpoint₄
        refine wp_updateVectorCount hlive₄ ?_
        intro s₅ hlive₅ hcheckpoint₅
        refine wp_trackOperation (h₁.moveOn hlive₅.all
          (hcheckpoint₅.trans (hcheckpoint₄.trans (hcheckpoint₃.trans hcheckpoint₂)))) hC' ?_
        intro s₆ d₆ g₆ h₆
        exact hsome doc hm s₆ d₆ g₆ h₆

/-! ## Batches -/

omit [LawfulEnv] in
/-- The pointers of a batch whose records are written. -/
theorem Live.installPointers {docs : List Document} {ps : List EntryPointer}
    (hps : List.Forall₂ (fun doc p => p.stop ≤ c.recordStore.appendCursor ∧
      Extent.Record (d.read .data) p doc) docs ps)
    (hdocs : ∀ doc ∈ docs, doc.Sound dom) (h : Live config dom (fun _ => True) c d g m) :
    Live config dom (fun _ => True)
      { c with index := installPointers c.index ((docs.map Document.id).zip ps) } d g
      (replay (docs.map fun doc => .put doc.id doc) m) := by
  induction docs generalizing c m ps with
  | nil =>
      cases hps
      exact h
  | cons doc docs ih =>
      cases hps with
      | @cons _ p _ ps hp hps =>
          have hinstalled := (h.install (hdocs doc (by simp)) hp.1 hp.2).all
          exact ih (c := { c with index := Finmap.insert doc.id p c.index }) hps
            (fun doc' hdoc' => hdocs doc' (by simp [hdoc'])) hinstalled

omit [LawfulEnv] in
/-- The last loop of a batch only fills the index and the cache. -/
theorem wp_indexEach {docs : List Document} {Q : PUnit → Session → Disk → Prop}
    (h : Serving config dom s.coll d g m m') (hdocs : ∀ doc ∈ docs, doc.Sound dom)
    (hQ : ∀ s', Serving config dom s'.coll d g m m' → Q ⟨⟩ s' d) :
    wp (docs.forM indexBatched) C Q R s d := by
  induction docs generalizing s with
  | nil => exact wp_pure.mpr (hQ s h)
  | cons doc docs ih =>
      have hvector := (hdocs doc (by simp)).vector
      refine wp_bind.mpr ?_
      simp only [indexBatched, wp_bind, wp_update]
      refine wp_setAndCheck h.live hvector.length ?_
      intro s₁ hlive₁ hcheckpoint₁
      refine wp_indexVector (hlive₁.remember (hlive₁.memory.setCache
        ((hlive₁.memory.within.putMetadata doc.id doc.metadata).putVector doc.id hvector)) rfl rfl) hvector ?_
      intro s₂ hlive₂ hcheckpoint₂
      exact ih (h.moveOn hlive₂ (hcheckpoint₂.trans hcheckpoint₁)) fun doc' hdoc' =>
        hdocs doc' (by simp [hdoc'])

/-- A batch that is stopped leaves the documents of a beginning of it. -/
theorem wp_insertBatch {docs : List Document} {Q : List Uuid → Session → Disk → Prop}
    (h : Serving config dom s.coll d g m m) (hdocs : ∀ doc ∈ docs, doc.Sound dom)
    (hC : ∀ d' j, Recoverable dom (replay ((docs.map fun doc => .put doc.id doc).take j) m) d' → C d')
    (hQ : ∀ s' d' g', Serving config dom s'.coll d' g'
      (replay (docs.map fun doc => .put doc.id doc) m) (replay (docs.map fun doc => .put doc.id doc) m) →
      Q (docs.map Document.id) s' d') :
    wp (insertBatch docs) C Q R s d := by
  have hall : ∀ d', Recoverable dom (replay (docs.map fun doc => .put doc.id doc) m) d' → C d' := by
    intro d' hd'
    refine hC d' docs.length ?_
    rw [List.take_of_length_le (by simp)]
    exact hd'
  simp only [insertBatch, wp_bind, wp_self, wp_ofExcept, wp_update, wp_pure]
  refine wp_logInserts h hdocs hC ?_
  intro s₁ d₁ g₁ h₁
  have hlimits : s₁.coll.config.limits = .unlimited := by
    rw [h₁.live.memory.config]
    exact h₁.live.replayable.unlimited
  rw [enforceBatch_unlimited hlimits]
  refine ⟨fun _ _ => ?_, fun e he => by cases he⟩
  refine RecordStore.wp_appendBatch h₁.live.openOn (fun doc hdoc => (hdocs doc hdoc).fits)
    (fun d' hk => hall d' ⟨g₁, h₁.live.stored.keeps hk h₁.live.behind, h₁.contents⟩) ?_
  intro ps store d₂ hk hopen hcursor hps
  have happended := h₁.live.appended hk hopen (Nat.le.intro hcursor.symm)
  have hinstalled := Live.installPointers (c := { s₁.coll with recordStore := store }) hps hdocs happended
  rw [List.map_map]
  refine wp_trackOperation (s := ⟨_, s₁.draws⟩) (h₁.moveOn hinstalled rfl) hall ?_
  intro s₃ d₃ g₃ h₃
  refine wp_indexEach h₃ hdocs ?_
  intro s₄ h₄
  refine wp_updateVectorCount h₄.live ?_
  intro s₅ hlive₅ hcheckpoint₅
  exact hQ s₅ d₃ g₃ (h₄.moveOn hlive₅ hcheckpoint₅)

omit [LawfulEnv] in
/-- Carrying out deletions that are logged. -/
theorem wp_deleteEach {ids : List Uuid} {count : Nat} {Q : Nat → Session → Disk → Prop}
    (h : Serving config dom s.coll d g m m')
    (hQ : ∀ s', Serving config dom s'.coll d g (replay (ids.map .del) m) m' →
      Q (count + m.present ids) s' d) :
    wp (deleteEach ids count) C Q R s d := by
  induction ids generalizing s m count with
  | nil => exact wp_pure.mpr (by simpa [DocMap.present] using hQ s h)
  | cons id ids ih =>
      simp only [deleteEach, wp_bind, wp_self, wp_ite]
      rw [Serving.mem_index h]
      constructor
      · intro hid
        rw [DocMap.present_cons hid, ← Nat.add_assoc, Nat.add_right_comm] at hQ
        refine wp_deleteInternal h.live ?_
        intro s₁ hlive₁ hcheckpoint₁
        exact ih (h.moveOn hlive₁.all hcheckpoint₁) hQ
      · intro hid
        rw [Option.not_isSome_iff_eq_none] at hid
        rw [List.map_cons, replay_cons, Update.apply_del hid, DocMap.present_cons_none hid] at hQ
        exact ih h hQ

/-- A batch of deletions that is stopped leaves a beginning of them. -/
theorem wp_deleteBatch {ids : List Uuid} {Q : Nat → Session → Disk → Prop}
    (h : Serving config dom s.coll d g m m)
    (hC : ∀ d' j, Recoverable dom
      (replay (((ids.filter fun id => (m id).isSome).map .del).take j) m) d' → C d')
    (hQ : ∀ s' d' g', Serving config dom s'.coll d' g'
      (replay ((ids.filter fun id => (m id).isSome).map .del) m)
      (replay ((ids.filter fun id => (m id).isSome).map .del) m) → Q (m.present ids) s' d') :
    wp (deleteBatch ids) C Q R s d := by
  simp only [deleteBatch, wp_bind, wp_when, wp_pure]
  refine wp_logDeletes h hC ?_
  intro s₁ d₁ g₁ h₁
  refine wp_deleteEach h₁ ?_
  intro s₂ h₂
  rw [← replay_dels] at h₂
  rw [Nat.zero_add]
  refine ⟨fun _ => ?_, fun _ => hQ s₂ d₁ g₁ h₂⟩
  refine wp_trackOperation h₂ (fun d' hd' => ?_) ?_
  · refine hC d' ids.length ?_
    rw [List.take_of_length_le (by simpa using List.length_filter_le _ ids)]
    exact hd'
  · intro s₃ d₃ g₃ h₃
    exact hQ s₃ d₃ g₃ h₃

end Collection

end
