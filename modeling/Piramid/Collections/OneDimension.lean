-- SUMMARY: The sessions of a collection keep its documents to one dimension, unless a batch is checkpointed before the dimension is set.
import Piramid.Collections.Session
import Piramid.Collections.Uniform

/-!
# One dimension over sessions

What a session leaves on disk is opened by the next one, with any configuration. A dimension
is never lost as long as no checkpoint comes between the records of a batch and the dimension
they set.
-/

open Loop Prog

section

variable [Env] [LawfulEnv] [StrictDocuments] {s s' : Session} {d d' : Disk}

/-! ## Compaction -/

namespace Collection

/-- The copies are uniform in the new data file. -/
structure Copies (dimensions : Option Nat) (st : Compaction) (d : Disk) : Prop where
  openOn : st.tempStore.OpenOn .compactTmp d
  below : st.newIndex.Below st.tempStore.appendCursor
  index : st.newIndex.Uniform dimensions (d.read .compactTmp)
  dimensions : st.newMetadata.dimensions = dimensions

theorem ensures_copyDocuments_uniform {docs : List Document} {st : Compaction} {dimensions : Option Nat}
    {Q : Compaction → Session → Disk → Prop} (hst : Copies dimensions st d)
    (hdocs : ∀ doc ∈ docs, dimensions = some doc.vector.length)
    (hQ : ∀ st' s' d', Copies dimensions st' d' → s'.coll = s.coll → Q st' s' d') :
    ensures (copyDocuments docs st) Q s d := by
  induction docs generalizing st s d with
  | nil => exact ensures_pure.mpr (hQ st s d hst rfl)
  | cons doc docs ih =>
      simp only [copyDocuments, copyDocument, Document.getVector, ensures_bind, ensures_draw,
        ensures_ofExcept, ensures_pure]
      refine ensures_of_wp (RecordStore.wp_append_written (C := fun _ => True) (R := fun _ _ _ => True)
        hst.openOn (fun _ _ => trivial) ?_)
      intro p store d₁ hk hopen hcursor hp hwritten newVectorIndex _
      have hdim := hdocs doc List.mem_cons_self
      have hindex := hst.index.grows rfl hk hst.below
      refine ih ⟨hopen, ?_, ?_, ?_⟩ (fun doc' hdoc' => hdocs doc' (List.mem_cons_of_mem _ hdoc')) hQ
      · exact (hst.below.mono (Nat.le.intro hcursor.symm)).insert doc.id hp
      · have hold : ∀ n, dimensions = some n → n = doc.vector.length := fun n hn =>
          Option.some.inj (hn.symm.trans hdim)
        have hinsert := hindex.insert hold doc.id hwritten rfl
        rwa [← hdim] at hinsert
      · rw [CollectionMetadata.setDimensions_dimensions, hst.dimensions, hdim]
        rfl

omit [LawfulEnv] [StrictDocuments] in
theorem dimension_of_getAll {c : Collection} (h : c.Uniform d) {order : HashOrder Uuid}
    {docs : List Document} (hdocs : c.getAll d order = .ok docs) :
    ∀ doc ∈ docs, c.metadata.dimensions = some doc.vector.length := by
  intro doc hdoc
  obtain ⟨found, hfound, hret⟩ := bind_eq_ok.mp hdocs
  cases hret
  obtain ⟨entry, hentry, hsome⟩ := List.mem_filterMap.mp hdoc
  obtain ⟨id, -, hget⟩ := (mapM_eq_ok hfound).2 entry hentry
  change entry = some doc at hsome
  rw [hsome] at hget
  exact h.dimension_of_get hget

omit [StrictDocuments] in
theorem ensures_adoptCompacted_uniform {metadata : CollectionMetadata} {st : Compaction}
    {Q : Unit → Session → Disk → Prop}
    (hindex : st.newIndex.Uniform metadata.dimensions (d.read .data))
    (hQ : ∀ s' d', s'.coll.Uniform d' → Q () s' d') : ensures (adoptCompacted metadata st) Q s d := by
  simp only [adoptCompacted, ensures_bind, ensures_self, ensures_update]
  refine ensures_of_wp (RecordStore.wp_openFile_grows (C := fun _ => True) (R := fun _ _ _ => True)
    (fun _ _ => trivial) ?_)
  intro store d₁ hk hopen hcursor
  have hbelow := below_nextAppendOffset st.newIndex
  have hindex₁ := hindex.grows rfl (hk _) hbelow
  refine ensures_still still_rebuildVectorCache fun _ s₂ d₂ ha₂ => ?_
  obtain ⟨hindex₂, hstore₂, -, hdims₂⟩ := Session.settled_iff.mp ha₂.settled
  simp only [saveIndex, saveVectorIndex, saveMetadata, ensures_emit, Effect.apply_write]
  refine Wal.ensures_rotate fun d₃ hd₃ => hQ _ _ ?_
  have hdata : d₃ .data = d₁ .data := by
    rw [hd₃ _ (by simp), ← ha₂.data]
    simp
  have hread : d₃.read .data = d₁.read .data := by
    rw [Disk.read, Disk.read, hdata]
  have huniform : st.newIndex.Uniform metadata.dimensions (d₃.read .data) := hread ▸ hindex₁
  have hcursor' : st.newIndex.Below store.appendCursor := hcursor ▸ hbelow
  refine ⟨hstore₂ ▸ hopen.disk hdata, ?_, ?_, ?_⟩
  · rw [hindex₂, hstore₂]
    exact hcursor'
  · rw [hindex₂, hdims₂]
    exact huniform
  · rw [hstore₂]
    refine Disk.uniform_of_saved ?_ ?_ hcursor' huniform
    · rw [hd₃ _ (by simp)]
      simp
    · rw [hd₃ _ (by simp)]
      simp

theorem ensures_compact_uniform {Q : CompactStats → Session → Disk → Prop} (h : s.coll.Uniform d)
    (hQ : ∀ stats s' d', s'.coll.Uniform d' → Q stats s' d') : ensures compact Q s d := by
  simp only [compact, writeCompacted, ensures_bind, ensures_draw, ensures_self, ensures_device,
    ensures_ofExcept, ensures_emit, ensures_pure]
  intro docs hdocs
  have hall := dimension_of_getAll h hdocs
  refine ensures_when_emit fun d₀ => ?_
  refine ensures_of_wp (RecordStore.wp_openFile_grows (C := fun _ => True) (R := fun _ _ _ => True)
    (fun _ _ => trivial) ?_)
  intro store d₁ _ hopen hcursor
  have hempty : Copies s.coll.metadata.dimensions {
      tempStore := store
      newIndex := ∅
      newVectors := ∅
      newVectorIndex := s.coll.config.index.createIndex docs.length
      newMetadata := s.coll.metadata.updateVectorCount 0 (Env.chance s.draws).now } d₁ :=
    ⟨hopen, fun id p hp => by simp at hp, .empty _ _, rfl⟩
  refine ensures_copyDocuments_uniform hempty hall fun st s₂ d₂ hst _ => ?_
  simp only [RecordStore.sync, ensures_emit, Effect.apply_sync, Effect.apply_rename]
  refine ensures_adoptCompacted_uniform ?_ fun s₃ d₃ h₃ => hQ _ s₃ d₃ h₃
  have hread : ((d₂.put .data (d₂ .compactTmp)).put .compactTmp none).read .data =
      d₂.read .compactTmp := by
    simp [Disk.read]
  rw [hread, CollectionMetadata.updateVectorCount_dimensions, hst.dimensions]
  exact hst.index

end Collection

/-! ## Calls -/

/-- No checkpoint comes between the records of the batch and the dimension they set. -/
def SessionOp.Calm (s : Session) : SessionOp → Prop
  | .call (.insertBatch docs) => ¬Collection.Hurried s docs
  | _ => True

theorem SessionOp.ensures_perform_uniform {op : SessionOp} {Q : Reply → Session → Disk → Prop}
    (h : s.coll.Uniform d) (hcalm : op.Calm s) (hQ : ∀ reply s' d', s'.coll.Uniform d' → Q reply s' d') :
    ensures op.perform Q s d := by
  cases op with
  | call call =>
      cases call with
      | insert doc =>
          simp only [perform, Call.perform, ensures_bind, ensures_pure]
          exact Collection.ensures_insert_uniform h fun _ => hQ _
      | insertBatch docs =>
          simp only [perform, Call.perform, ensures_bind, ensures_pure]
          exact Collection.ensures_insertBatch_uniform h hcalm fun _ => hQ _
      | upsert doc =>
          simp only [perform, Call.perform, ensures_bind, ensures_pure]
          exact Collection.ensures_upsert_uniform h fun _ => hQ _
      | updateMetadata id metadata =>
          simp only [perform, Call.perform, ensures_bind, ensures_pure]
          exact Collection.ensures_updateMetadata_uniform h fun _ => hQ _
      | updateVector id vector =>
          simp only [perform, Call.perform, ensures_bind, ensures_pure]
          exact Collection.ensures_updateVector_uniform h fun _ => hQ _
      | delete id =>
          simp only [perform, Call.perform, ensures_bind, ensures_pure]
          exact Collection.ensures_delete_uniform h fun _ => hQ _
      | deleteBatch ids =>
          simp only [perform, Call.perform, ensures_bind, ensures_pure]
          exact Collection.ensures_deleteBatch_uniform h fun _ => hQ _
      | checkpoint =>
          simp only [perform, Call.perform, ensures_bind, ensures_pure]
          exact Collection.ensures_checkpointNow_settled fun s' d' ha => hQ _ s' d' (h.settled ha)
      | rebuildIndex =>
          simp only [perform, Call.perform, ensures_bind, ensures_pure]
          exact Collection.ensures_still_uniform Collection.still_rebuildIndex h fun _ s' d' h' _ =>
            hQ _ s' d' h'
      | compact =>
          simp only [perform, Call.perform, ensures_bind, ensures_pure]
          exact Collection.ensures_compact_uniform h fun _ => hQ _
  | ensureCacheConsistency =>
      simp only [perform, ensures_bind, ensures_pure]
      exact Collection.ensures_still_uniform Collection.still_ensureConsistent h fun _ s' d' h' _ =>
        hQ _ s' d' h'
  | clearMetadataCache =>
      simp only [perform, ensures_bind, ensures_pure]
      exact Collection.ensures_still_uniform Collection.still_clearMetadata h fun _ s' d' h' _ =>
        hQ _ s' d' h'

/-! ## Opening -/

omit [LawfulEnv] [StrictDocuments] in
theorem Disk.DimensionsFile.unique {dims dims' : Option Nat} (h : d.DimensionsFile dims)
    (h' : d.DimensionsFile dims') : dims' = dims := by
  rcases h with ⟨hnone, rfl⟩ | ⟨bytes, m, hsome, hdec, rfl⟩
  · rcases h' with ⟨-, rfl⟩ | ⟨bytes', m', hsome', -, -⟩
    · rfl
    · rw [hnone] at hsome'
      cases hsome'
  · rcases h' with ⟨hnone', -⟩ | ⟨bytes', m', hsome', hdec', rfl⟩
    · rw [hsome] at hnone'
      cases hnone'
    · rw [hsome] at hsome'
      cases hsome'
      rw [hdec] at hdec'
      cases hdec'
      rfl

omit [LawfulEnv] [StrictDocuments] in
theorem Disk.Uniform.same {k : Nat} (h : d.Uniform k) (hdata : d' .data = d .data)
    (hindex : d' .index = d .index) (hmetadata : d' .metadata = d .metadata) : d'.Uniform k := by
  intro index dims hi hm
  unfold Disk.IndexFile at hi
  unfold Disk.DimensionsFile at hm
  rw [hindex] at hi
  rw [hmetadata] at hm
  have hread : d'.read .data = d.read .data := by
    rw [Disk.read, Disk.read, hdata]
  rw [hread]
  exact h index dims hi hm

namespace CollectionBuilder

open Collection

variable {path : String} {config : CollectionConfig} {n : Nat}

omit [Env] [LawfulEnv] [StrictDocuments] in
/-- A step of opening that leaves alone what the invariant is about. -/
theorem ensures_leaves {α : Type} {p : Io Nat α} {Q : α → Nat → Disk → Prop}
    (hp : ∀ file, .wal ≠ file → Leaves (fun _ : Nat => ()) file p)
    (hQ : ∀ a n' d', d' .data = d .data → d' .index = d .index → d' .metadata = d .metadata →
      Q a n' d') : ensures p Q n d := by
  have hdata := hp .data CollFile.noConfusion n d
  have hindex := hp .index CollFile.noConfusion n d
  have hmetadata := hp .metadata CollFile.noConfusion n d
  refine ensures_mono (ensures_of_wp (wp_and hdata (wp_and hindex hmetadata))) ?_
  rintro a n' d' ⟨⟨-, hd⟩, ⟨-, hi⟩, -, hm⟩
  exact hQ a n' d' hd hi hm

omit [LawfulEnv] [StrictDocuments] in
theorem ensures_loadIndex_file {Q : OffsetIndex → Nat → Disk → Prop}
    (hQ : ∀ index, d.IndexFile index → Q index n d) : ensures (loadIndex path) Q n d := by
  unfold loadIndex
  rw [ensures_bind, ensures_device]
  split
  · rename_i hnone
    exact ensures_pure.mpr (hQ ∅ (.inl ⟨hnone, rfl⟩))
  · rename_i bytes hbytes
    split
    · rename_i index hdecode
      exact ensures_pure.mpr (hQ index (.inr ⟨bytes, hbytes, hdecode⟩))
    · exact ensures_fault

omit [LawfulEnv] [StrictDocuments] in
theorem ensures_loadMetadata_file (path : String) {Q : Option CollectionMetadata → Nat → Disk → Prop}
    (hQ : ∀ loaded, (∀ count now, d.DimensionsFile (initialMetadata path loaded count now).dimensions) →
      Q loaded n d) : ensures loadMetadata Q n d := by
  unfold loadMetadata
  rw [ensures_bind, ensures_device]
  split
  · rename_i hnone
    exact ensures_pure.mpr (hQ none fun count now => .inl ⟨hnone, rfl⟩)
  · rename_i bytes hbytes
    split
    · exact ensures_fault
    · rename_i metadata hdecode
      rw [ensures_ite]
      refine ⟨fun _ => ensures_fault, fun _ => ensures_pure.mpr ?_⟩
      exact hQ (some metadata) fun count now => .inr ⟨bytes, metadata, hbytes, hdecode, rfl⟩

omit [LawfulEnv] [StrictDocuments] in
/-- What is loaded of a disk that agrees with itself. -/
theorem ensures_loadCollection_uniform {k : Nat} (h : d.Uniform k)
    {Q : Collection × Bool × List WalEntry → Nat → Disk → Prop}
    (hQ : ∀ c missing entries n' d', c.Uniform d' → Q (c, missing, entries) n' d') :
    ensures (loadCollection path config) Q n d := by
  simp only [loadCollection, ensures_bind, ensures_pure]
  refine ensures_loadIndex_file fun index hindex => ?_
  refine ensures_of_wp (RecordStore.wp_openFile_grows (C := fun _ => True) (R := fun _ _ _ => True)
    (fun _ _ => trivial) ?_)
  intro store d₁ hk hopen hcursor
  have hsame : ∀ file, file ≠ .data → d₁ file = d file := (hk 0).files
  refine ensures_leaves (fun _ _ => leaves_draw fun _ => rfl) fun chance n₂ d₂ hd₂ hi₂ hm₂ => ?_
  refine ensures_loadMetadata_file path fun loaded hloaded => ?_
  refine ensures_leaves (fun _ _ => leaves_loadVectorIndex) fun vectorIndex n₃ d₃ hd₃ hi₃ hm₃ => ?_
  refine ensures_leaves (fun _ _ => .ite leaves_loadWalMeta (.pure _)) fun minSeq n₄ d₄ hd₄ hi₄ hm₄ => ?_
  refine ensures_leaves (fun _ hfile => .ite (leaves_newWal hfile _) (.pure _))
    fun wal n₅ d₅ hd₅ hi₅ hm₅ => ?_
  refine ensures_leaves (fun _ _ => .ite (leaves_replay _ _) (.pure _))
    fun entries n₆ d₆ hd₆ hi₆ hm₆ => hQ _ _ _ n₆ d₆ ?_
  have hdata : d₆ .data = d₁ .data := by rw [hd₆, hd₅, hd₄, hd₃, hd₂]
  have hi : d₆ .index = d₁ .index := by rw [hi₆, hi₅, hi₄, hi₃, hi₂]
  have hm : d₆ .metadata = d₁ .metadata := by rw [hm₆, hm₅, hm₄, hm₃, hm₂]
  have hread : d₆.read .data = d₁.read .data := by
    rw [Disk.read, Disk.read, hdata]
  have hdims := hloaded index.len chance.now
  have hdims₆ : d₆.DimensionsFile (initialMetadata path loaded index.len chance.now).dimensions := by
    unfold Disk.DimensionsFile at hdims ⊢
    rw [hm, ← hm₂]
    exact hdims
  have hindex₆ : d₆.IndexFile index := by
    unfold Disk.IndexFile at hindex ⊢
    rw [hi, hsame _ (by simp)]
    exact hindex
  have hloaded' : index.Below k ∧ index.Uniform (initialMetadata path loaded index.len chance.now).dimensions
      (d.read .data) := by
    refine h index _ hindex ?_
    unfold Disk.DimensionsFile at hdims ⊢
    rw [hm₂, hsame _ (by simp)] at hdims
    exact hdims
  have huniform := hread ▸ hloaded'.2.grows rfl (hk k) hloaded'.1
  have hbelow := hcursor ▸ below_nextAppendOffset index
  refine ⟨hopen.disk hdata, hbelow, huniform, fun index' dims' hi' hm' => ?_⟩
  rw [hindex₆.unique hi', hdims₆.unique hm']
  exact ⟨hbelow, huniform⟩

theorem ensures_replayEntry_uniform {entry : WalEntry} {Q : PUnit → Session → Disk → Prop}
    (h : s.coll.Uniform d) (hQ : ∀ s' d', s'.coll.Uniform d' → Q ⟨⟩ s' d') :
    ensures (replayEntry entry) Q s d := by
  cases entry with
  | insert doc seq =>
      simp only [replayEntry, ensures_bind, ensures_pure]
      exact ensures_insertInternal_uniform h fun _ => hQ
  | update doc seq =>
      simp only [replayEntry, ensures_bind, ensures_pure]
      exact ensures_deleteInternal_uniform h fun s₁ d₁ h₁ =>
        ensures_insertInternal_uniform h₁ fun _ => hQ
  | delete id seq => exact ensures_deleteInternal_uniform h hQ
  | checkpoint timestamp seq => exact ensures_pure.mpr (hQ s d h)

theorem ensures_recover_uniform {entries : List WalEntry} {Q : Unit → Session → Disk → Prop}
    (h : s.coll.Uniform d) (hQ : ∀ s' d', s'.coll.Uniform d' → Q () s' d') :
    ensures (recover entries) Q s d := by
  simp only [recover, replayWal, ensures_bind]
  refine ensures_forM (fun _ s' d' => s'.coll.Uniform d')
    (fun _ _ _ _ h' => ensures_replayEntry_uniform h' fun _ _ => id) ?_ h
  intro s₁ d₁ h₁
  refine ensures_still_uniform still_rebuildVectorCache h₁ fun _ s₂ d₂ h₂ _ => ?_
  exact ensures_checkpointNow_settled fun s₃ d₃ ha₃ => hQ s₃ d₃ (h₂.settled ha₃)

/-- Opening what agrees with itself, with whatever log there is. -/
theorem ensures_openCollection_uniform {k : Nat} (h : d.Uniform k) {Q : Collection → Nat → Disk → Prop}
    (hQ : ∀ c n' d', c.Uniform d' → Q c n' d') : ensures (openCollection path config) Q n d := by
  unfold openCollection
  rw [ensures_bind]
  refine ensures_loadCollection_uniform h fun c missing entries n₁ d₁ h₁ => ?_
  simp only [onCollection, ensures_ite, ensures_bind, ensures_embed, ensures_pure]
  refine ⟨fun _ => ?_, fun _ => ?_⟩
  · exact ensures_recover_uniform (s := ⟨c, n₁⟩) h₁ fun s₂ d₂ h₂ => hQ _ _ d₂ h₂
  · have hrestore : ∀ file, .wal ≠ file → Leaves (fun _ : Nat => ()) file (restoreVectorIndex c missing) :=
      fun _ _ => .ite (leaves_rebuildVectorIndex (fun _ => rfl) _ _ _) (.pure _)
    refine ensures_leaves hrestore fun vectorIndex n₂ d₂ hd₂ hi₂ hm₂ => ?_
    have h₂ : Collection.Uniform { c with vectorIndex } d₂ := by
      refine ⟨h₁.openOn.disk hd₂, h₁.below, ?_, h₁.saved.same hd₂ hi₂ hm₂⟩
      have hread : d₂.read .data = d₁.read .data := by
        rw [Disk.read, Disk.read, hd₂]
      rw [hread]
      exact h₁.index
    exact ensures_still_uniform (s := ⟨_, n₂⟩) still_rebuildVectorCache h₂ fun _ s₃ d₃ h₃ _ =>
      hQ _ _ d₃ h₃

end CollectionBuilder

/-! ## Sequences of sessions -/

/-- What sessions on one data directory lead to: each opens the collection with a
configuration of its own, makes calls that return, and ends between two calls. -/
inductive Lived (path : String) (P : Session → SessionOp → Prop) : Session → Disk → Prop where
  | created {config : CollectionConfig} {n n' : Nat} {c : Collection} {d : Disk}
      (hrun : Runs (CollectionBuilder.openCollection path config) n Disk.empty c n' d) :
      Lived path P ⟨c, n'⟩ d
  | performed {s s' : Session} {d d' : Disk} {op : SessionOp} {reply : Reply} (h : Lived path P s d)
      (hop : P s op) (hrun : Runs op.perform s d reply s' d') : Lived path P s' d'
  | reopened {config : CollectionConfig} {s : Session} {n n' : Nat} {c : Collection} {d d' : Disk}
      (h : Lived path P s d) (hrun : Runs (CollectionBuilder.openCollection path config) n d c n' d') :
      Lived path P ⟨c, n'⟩ d'

/-- The documents have the dimension of the metadata, and no document of another length is
inserted. -/
def Collection.OneDimension (c : Collection) (d : Disk) : Prop :=
  0 < c.count → ∃ dim, c.metadata.dimensions = some dim ∧
    (∀ id doc, c.get d id = .ok (some doc) → doc.vector.length = dim) ∧
    ∀ doc n id, doc.vector.length ≠ dim → (Collection.insert doc ⟨c, n⟩ d).result ≠ .ok id

omit [LawfulEnv] [StrictDocuments] in
theorem Disk.uniform_empty : Disk.empty.Uniform 0 := by
  intro index dims hi hm
  rcases hi with ⟨-, rfl⟩ | ⟨bytes, hsome, -⟩
  · exact ⟨fun id p hp => by simp at hp, .empty _ _⟩
  · cases hsome

omit [StrictDocuments] in
/-- A set dimension is compared with the length of what is inserted. -/
theorem Collection.Uniform.ensures_insert_length (h : s.coll.Uniform d) {doc : Document} {dim : Nat}
    (hdims : s.coll.metadata.dimensions = some dim) :
    ensures (Collection.insert doc) (fun _ _ _ => doc.vector.length = dim) s d := by
  simp only [Collection.insert, ensures_bind, ensures_pure]
  refine Collection.ensures_still_uniform (still_logEntry _) h fun _ s₁ d₁ h₁ hsame => ?_
  simp only [insertInternal, setDimensions, checkDimensions, ensures_bind, ensures_self,
    ensures_ofExcept, ensures_update]
  intro _ _
  refine ensures_appendRecord_uniform h₁ fun p store d₂ _ _ _ => ?_
  simp only [CollectionMetadata.setDimensions_dimensions, hsame.trans hdims, ensures_ofExcept,
    Document.getVector]
  intro _ hvalid
  have hlen : doc.vector.length = dim := validateDimensions_eq_ok hvalid
  simp only [ensures_pure]
  exact ensures_of_forall fun _ _ _ => ensures_of_forall fun _ _ _ => ensures_of_forall fun _ _ _ => hlen

omit [StrictDocuments] in
theorem Collection.Uniform.oneDimension {c : Collection} (h : c.Uniform d) : c.OneDimension d := by
  intro hcount
  obtain ⟨id, hid⟩ := Finset.card_pos.mp hcount
  obtain ⟨p, hp⟩ := (HashMap.mem_keys_iff c.index id).mp hid
  obtain ⟨dim, hdim, -⟩ := h.index.dimension id p hp
  refine ⟨dim, hdim, fun id doc hget => ?_, fun doc n id hlen hok => hlen ?_⟩
  · exact (Option.some.inj (hdim.symm.trans (h.dimension_of_get hget))).symm
  · exact ensures_ok (Collection.Uniform.ensures_insert_length (s := ⟨c, n⟩) h hdim) hok

theorem Lived.uniform {path : String} (h : Lived path SessionOp.Calm s d) : s.coll.Uniform d := by
  induction h with
  | created hrun =>
      refine ensures_runs (Q := fun c _ d => c.Uniform d) ?_ hrun
      exact CollectionBuilder.ensures_openCollection_uniform Disk.uniform_empty fun _ _ _ h => h
  | performed _ hop hrun ih =>
      refine ensures_runs (Q := fun _ s d => s.coll.Uniform d) ?_ hrun
      exact SessionOp.ensures_perform_uniform ih hop fun _ _ _ h => h
  | reopened _ hrun ih =>
      refine ensures_runs (Q := fun c _ d => c.Uniform d) ?_ hrun
      exact CollectionBuilder.ensures_openCollection_uniform ih.saved fun _ _ _ h => h

/-- As long as no batch is hurried, whatever the configurations and the calls of the
sessions are. -/
theorem Lived.one_dimension {path : String} (h : Lived path SessionOp.Calm s d) :
    s.coll.OneDimension d :=
  h.uniform.oneDimension

end

/-! ## A batch that is checkpointed before its dimension is set -/

section

attribute [local instance] Reference.flat

open Reference

/-- A collection that is to be checkpointed every `frequency` operations. -/
def frequentConfig (frequency : Nat) : CollectionConfig :=
  config (.flat .cosine .auto) .unlimited frequency

/-- A session that inserts one batch, and the next one. The results are the collection before
the batch and that of the second session. -/
def batchThenOpen (frequency : Nat) (docs : List Document) : Io Nat (Collection × Collection) := do
  let c ← CollectionBuilder.openCollection "c" (frequentConfig frequency)
  let _ ← Prog.embed (fun draws => Session.mk c draws) Session.draws
    (SessionOp.call (.insertBatch docs)).perform
  let c' ← CollectionBuilder.openCollection "c" (frequentConfig frequency)
  pure (c, c')

theorem lived_batchThenOpen {P : Session → SessionOp → Prop} {frequency : Nat} {docs : List Document}
    {c c' : Collection} (hrun : (batchThenOpen frequency docs 0 Disk.empty).result = .ok (c, c'))
    (hP : ∀ n, P ⟨c, n⟩ (.call (.insertBatch docs))) : ∃ n d, Lived "c" P ⟨c', n⟩ d := by
  obtain ⟨c₁, n₁, d₁, hopen, hrest⟩ := runs_bind.mp (runs_of_ok hrun)
  obtain ⟨⟨reply, s₂⟩, n₂, d₂, hbatch, hrest⟩ := runs_bind.mp hrest
  obtain ⟨c₃, n₃, d₃, hreopen, hpure⟩ := runs_bind.mp hrest
  obtain ⟨hpair, -, -⟩ := runs_pure.mp hpure
  cases hpair
  have hlived : Lived "c" P s₂ d₂ := .performed (.created hopen) (hP n₁) (runs_embed.mp hbatch).1
  exact ⟨n₃, d₃, .reopened hlived hreopen⟩

/-- With a checkpoint after every operation, the next session has the document of the batch, and
no dimension. -/
theorem batch_without_dimension :
    ∃ s d, Lived "c" (fun _ _ => True) s d ∧ ¬s.coll.OneDimension d := by
  have heval : (batchThenOpen 1 [doc 0 2] 0 Disk.empty).result.toOption.map
      (fun out => (out.2.count, out.2.metadata.dimensions)) = some (1, none) := by
    decide +kernel
  obtain ⟨⟨c, c'⟩, hrun, hout⟩ := Loop.ok_of_map heval
  obtain ⟨n, d, hlived⟩ := lived_batchThenOpen (P := fun _ _ => True) hrun fun _ => trivial
  have hcount : c'.count = 1 := congrArg Prod.fst hout
  have hdims : c'.metadata.dimensions = none := congrArg Prod.snd hout
  refine ⟨⟨c', n⟩, d, hlived, fun hone => ?_⟩
  obtain ⟨dim, hdim, -⟩ := hone (hcount ▸ Nat.one_pos)
  rw [hdims] at hdim
  cases hdim

/-- With a checkpoint every second operation, the batch keeps its dimension. -/
theorem calm_batch :
    ∃ s d, Lived "c" SessionOp.Calm s d ∧ s.coll.count = 2 ∧ s.coll.OneDimension d := by
  have heval : (batchThenOpen 2 [doc 0 2, doc 1 2] 0 Disk.empty).result.toOption.map
      (fun out => (out.1.checkpointDue 0, out.2.count)) = some (false, 2) := by
    decide +kernel
  obtain ⟨⟨c, c'⟩, hrun, hout⟩ := Loop.ok_of_map heval
  have hdue : c.checkpointDue 0 = false := congrArg Prod.fst hout
  obtain ⟨n, d, hlived⟩ := lived_batchThenOpen (P := SessionOp.Calm) hrun fun n hhurried =>
    Bool.false_ne_true (hdue.symm.trans hhurried.2.2)
  exact ⟨⟨c', n⟩, d, hlived, congrArg Prod.snd hout, hlived.one_dimension⟩

end
