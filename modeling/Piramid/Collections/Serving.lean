-- SUMMARY: A collection that answers calls: memory and files hold the same map. Checkpoints, and rebuilding what is derived from the records.
import Piramid.Collections.Live

/-!
# Serving

Between two calls the collection in memory holds what its files stand for. A
checkpoint writes the files one after the other, and what can be recovered stays
the same after each of them.
-/

open Loop Prog SnapshotLog

section

variable [Env]

/-- `c` holds `m`, and the files under it hold `m'`, which has what is logged and not carried
out yet. -/
structure Serving (config : CollectionConfig) (dom : VectorDomain) (c : Collection) (d : Disk)
    (g : StoredMap) (m m' : DocMap) : Prop where
  live : Live config dom (fun _ => True) c d g m
  contents : g.contents = m'
  numbered : Numbered g c

variable {config : CollectionConfig} {dom : VectorDomain} {c c' : Collection} {d d' : Disk} {g : StoredMap}
  {m m₁ m' : DocMap}

namespace Serving

theorem recoverable (h : Serving config dom c d g m m') : Recoverable dom m' d :=
  ⟨g, h.live.stored, h.contents⟩

/-- The collection in memory moves on, and its log does not. -/
theorem moveOn (h : Serving config dom c d g m m') (hlive : Live config dom (fun _ => True) c' d' g m₁)
    (hcheckpoint : c'.checkpoint = c.checkpoint) : Serving config dom c' d' g m₁ m' where
  live := hlive
  contents := h.contents
  numbered := by
    unfold Numbered
    rw [hcheckpoint]
    exact h.numbered

end Serving

/-- With an empty log, a replay has nothing to do. -/
theorem Live.serving (h : Live config dom (fun _ => True) c d g m) (hbase : g.base = m)
    (hlog : g.log = []) : Serving config dom c d g m m where
  live := h
  contents := by
    unfold Store.contents
    rw [hlog, hbase]
    rfl
  numbered := by
    intro e he
    rw [hlog] at he
    cases he

/-! ## Checkpoints -/

section

variable {σ : Type} {s : σ} {C : Disk → Prop} {R : Fault → σ → Disk → Prop}

/-- The floor is raised once `wal.meta` is replaced. -/
theorem Wal.wp_saveWalMeta [LawfulEnv] {Q : Unit → σ → Disk → Prop} {floor : Nat}
    (h : Stored dom d g) (hindex : d.IndexFile index)
    (hshows : OffsetIndex.Shows (fun _ => True) index (d.read .data) g.base)
    (hC : ∀ d' g', Stored dom d' g' → g' = g ∨ g' = { g with floor } → C d')
    (hQ : ∀ d', Stored dom d' { g with floor } → (∀ f, f ≠ .walMeta → f ≠ .walMetaTmp → d' f = d f) →
      Q () s d') :
    wp (Wal.saveWalMeta floor) C Q R s d := by
  have htmp := h.put_other (.inl rfl) (some (Env.walMeta.encode ⟨floor⟩))
  have hmeta := (htmp.saveWalMeta (by simpa using hindex)
    (by simpa using hshows) floor).put_other (.inl rfl) none
  simp only [Wal.saveWalMeta, wp_bind, wp_emit, Effect.apply_write, Effect.apply_rename,
    Effect.apply_sync, Disk.put_self]
  refine ⟨hC _ g htmp (.inl rfl), hC _ _ hmeta (.inr rfl), hC _ _ hmeta (.inr rfl), hQ _ hmeta ?_⟩
  intro f hf hf'
  simp [hf, hf']

/-- The log is emptied, and gets its header back. -/
theorem Wal.wp_rotate {Q : Unit → σ → Disk → Prop} {wal : Wal} (hfile : wal.file = true)
    (h : Stored dom d g) (hindex : d.IndexFile index)
    (hshows : OffsetIndex.Shows (fun _ => True) index (d.read .data) g.base)
    (hC : ∀ d', Stored dom d' { g with log := [] } → C d')
    (hQ : ∀ d', Stored dom d' { g with log := [] } → d'.read .wal ≠ [] →
      (∀ f, f ≠ .wal → d' f = d f) → Q () s d') :
    wp (Wal.rotate wal) C Q R s d := by
  have hempty := h.truncate hindex hshows
  have hheader := hempty.writeHeader (by simp)
  have hline : Wal.line (Env.walHeader.encode ⟨WAL_VERSION⟩) = Wal.fileOf [] := by
    simp [Wal.line, Wal.fileOf]
  simp only [Wal.rotate, Wal.ensureHeader, hfile, fileLen, wp_bind, wp_emit, wp_when, wp_device,
    wp_pure, Effect.apply_truncate, Effect.apply_sync, Effect.apply_append, Bool.not_true,
    Bool.false_eq_true, if_false, Disk.read_put_self, Option.getD_some, List.length_nil,
    List.nil_append, hline, not_true_eq_false, false_implies, forall_const, and_true]
  refine ⟨hC _ hempty, hC _ hempty, hC _ hheader, hQ _ hheader ?_ ?_⟩
  · simpa using Wal.fileOf_ne_nil []
  · intro f hf
    simp [hf]

/-- The end of a checkpoint: once the snapshot has everything, the log is dropped. -/
theorem Wal.wp_dropLog [LawfulEnv] {Q : Unit → σ → Disk → Prop} {wal : Wal} (hfile : wal.file = true)
    {floor : Nat} (h : Stored dom d g) (hbase : g.contents = g.base) (hfloor : g.floor ≤ floor)
    (hindex : d.IndexFile index)
    (hshows : OffsetIndex.Shows (fun _ => True) index (d.read .data) g.base)
    (hC : ∀ d', Recoverable dom g.base d' → C d')
    (hQ : ∀ d', Stored dom d' { g with floor, log := [] } → d'.read .wal ≠ [] →
      (∀ f, f ≠ .walMeta → f ≠ .walMetaTmp → f ≠ .wal → d' f = d f) → Q () s d') :
    wp (Wal.saveWalMeta floor) C (fun _ => wp wal.rotate C Q R) R s d := by
  refine Wal.wp_saveWalMeta h hindex hshows ?_ ?_
  · rintro d' g' h' (rfl | rfl)
    · exact hC d' ⟨_, h', hbase⟩
    · exact hC d' ⟨_, h', Store.contents_raise h.ordered hbase hfloor⟩
  · intro d₁ h₁ hfiles₁
    have hindex₁ : d₁.IndexFile index := by
      rw [Disk.IndexFile, hfiles₁ _ (by simp) (by simp)]
      exact hindex
    have hdata₁ : d₁.read .data = d.read .data := by
      rw [Disk.read, Disk.read, hfiles₁ _ (by simp) (by simp)]
    refine Wal.wp_rotate hfile h₁ hindex₁ (hdata₁ ▸ hshows) ?_ ?_
    · intro d' h'
      exact hC d' ⟨_, h', Store.contents_truncate _⟩
    · intro d' h' hheader hfiles'
      refine hQ d' h' hheader fun f hmeta htmp hwal => ?_
      rw [hfiles' f hwal, hfiles₁ f hmeta htmp]

end

namespace Collection

variable [LawfulEnv] {s : Session} {C : Disk → Prop} {R : Fault → Session → Disk → Prop}

/-- A checkpoint keeps what can be recovered after each of its effects, and leaves an empty
log. Nothing is asked of the numbers in the log that it drops. -/
theorem wp_checkpointNow {Q : Unit → Session → Disk → Prop}
    (h : Live config dom (fun _ => True) s.coll d g m) (hcontents : g.contents = m)
    (hC : ∀ d', Recoverable dom m d' → C d')
    (hQ : ∀ s' d' g', Serving config dom s'.coll d' g' m m → Q () s' d') :
    wp checkpointNow C Q R s d := by
  have hshows : s.coll.index.Shows (fun _ => True) (d.read .data) g.contents :=
    hcontents ▸ h.memory.shows
  have hindex := h.stored.saveIndex hshows (hcontents ▸ h.memory.sound)
  have hvecindex := hindex.saveVectorIndex h.memory.able
  have hmetadata := hvecindex.saveMetadata h.memory.schema h.memory.dimensions
  have hsnapshot : Store.contents { g with base := g.contents } = m :=
    (Store.contents_snapshot g).trans hcontents
  have henabled : s.coll.config.wal.enabled = true := h.memory.config ▸ h.replayable.enabled
  -- the marker gets the next number, which becomes the floor
  let marker : WalEntry := .checkpoint (Env.chance s.draws).now s.coll.checkpoint.wal.nextSeq
  let saved : Disk := ((d.put .index (some (Env.offsetIndex.encode s.coll.index))).put .vecindex
    (some (Env.vectorIndex.encode s.coll.vectorIndex))).put .metadata
    (some (Env.collectionMetadata.encode s.coll.metadata))
  have hheader : saved.read .wal = d.read .wal := by simp [saved]
  have hmarker : marker.Sound dom := fun doc hdoc => by cases hdoc
  have hlogged := hmetadata.logEntry (hheader ▸ h.header) hmarker fun hup => by cases hup
  have hmarked : Store.contents { g with
      base := g.contents, log := g.log ++ [marker.numbered] } = m := by
    rw [Store.contents_append { g with base := g.contents } (e := marker.numbered) h.floor]
    exact hsnapshot
  simp only [checkpointNow, saveIndex, saveVectorIndex, saveMetadata, Wal.checkpoint, Wal.log,
    WalEntry.withSeq, wp_bind, wp_draw, wp_self, wp_emit, wp_when, wp_pure, wp_update,
    Effect.apply_write, Effect.apply_append, henabled, h.file,
    true_implies, not_true_eq_false, false_implies, and_true, Nat.add_sub_cancel]
  refine ⟨hC _ ⟨_, hindex, hsnapshot⟩, hC _ ⟨_, hvecindex, hsnapshot⟩,
    hC _ ⟨_, hmetadata, hsnapshot⟩, hC _ ⟨_, hlogged, hmarked⟩, ?_⟩
  have hsavedIndex : (saved.put .wal (some (saved.read .wal ++
      Wal.line (Env.walEntry.encode marker)))).IndexFile s.coll.index :=
    .inr ⟨_, by simp [saved], LawfulEnv.offsetIndex _⟩
  refine Wal.wp_dropLog rfl hlogged (hmarked.trans hcontents.symm) h.floor.le hsavedIndex
    (by simpa using hshows) ?_ ?_
  · intro d' h'
    exact hC d' (hcontents ▸ h')
  · intro d' h' hheader' hfiles
    have hdata : d' .data = d .data := by
      rw [hfiles _ (by simp) (by simp) (by simp)]
      simp
    have hread : d'.read .data = d.read .data := by rw [Disk.read, Disk.read, hdata]
    have hsaved : d'.IndexFile s.coll.index := by
      refine .inr ⟨_, ?_, LawfulEnv.offsetIndex _⟩
      rw [hfiles _ (by simp) (by simp) (by simp)]
      simp
    refine hQ _ d' _ (Live.serving (g := ⟨g.contents, s.coll.checkpoint.wal.nextSeq, []⟩) ?_ hcontents rfl)
    exact {
      replayable := h.replayable
      stored := h'
      behind := fun index hindex' => hsaved.unique hindex' ▸ h.memory.below
      header := hheader'
      file := rfl
      floor := Nat.lt_succ_self _
      openOn := ⟨h.openOn.dataFile, fun len hlen => by
        rw [h.openOn.mmap len hlen]
        exact congrArg List.length hread.symm⟩
      memory := hread ▸ h.memory.setCheckpoint _ }

omit [LawfulEnv] in
/-- Counting an operation. -/
theorem Serving.count (h : Serving config dom c d g m m') (cfg : WalConfig) :
    Serving config dom { c with checkpoint := (c.checkpoint.shouldCheckpoint cfg).2 } d g m m' := by
  have hwal : (c.checkpoint.shouldCheckpoint cfg).2.wal = c.checkpoint.wal := by
    unfold CheckpointManager.shouldCheckpoint
    split
    · rfl
    · rfl
  refine ⟨h.live.remember (h.live.memory.setCheckpoint _) rfl hwal, h.contents, ?_⟩
  unfold Numbered
  simp only [hwal]
  exact h.numbered

theorem wp_trackOperation {Q : Unit → Session → Disk → Prop}
    (h : Serving config dom s.coll d g m m) (hC : ∀ d', Recoverable dom m d' → C d')
    (hQ : ∀ s' d' g', Serving config dom s'.coll d' g' m m → Q () s' d') :
    wp trackOperation C Q R s d := by
  have hcounted := Serving.count h s.coll.config.wal
  simp only [trackOperation, wp_bind, wp_draw, wp_self, wp_update, wp_when]
  refine ⟨fun _ => ?_, fun _ => hQ _ d g hcounted⟩
  refine wp_checkpointNow (s := ⟨_, s.draws + 1⟩) hcounted.live hcounted.contents hC ?_
  intro s' d' g' h'
  exact hQ _ d' g' ⟨h'.live.remember (h'.live.memory.setCheckpoint _) rfl rfl, h'.contents, h'.numbered⟩

end Collection

end
