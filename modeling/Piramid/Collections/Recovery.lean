-- SUMMARY: Opening a collection from whatever a crash left recovers the documents, and so do the calls that rebuild what is derived.
import Piramid.Collections.Journaled

/-!
# Recovery

A collection is opened from files that stand for some map: the sidecars are loaded, the log is
replayed over them, and a checkpoint drops it. Every effect on the way leaves files that stand
for the same map, so an open that is stopped can be tried again.
-/

open Loop Prog SnapshotLog

section

variable [Env]

variable {config : CollectionConfig} {dom : VectorDomain} {c : Collection} {d : Disk} {g : StoredMap}
  {m m' : DocMap} {s : Session} {C : Disk → Prop} {R : Fault → Session → Disk → Prop}

namespace Collection

/-! ## Rebuilding -/

/-- The cache is filled with the vectors of the documents. -/
theorem wp_rebuildVectorCache {Q : Unit → Session → Disk → Prop}
    (hopen : s.coll.recordStore.OpenOn .data d)
    (hshows : s.coll.index.Shows (fun _ => True) (d.read .data) m) (hsound : m.Sound dom)
    (hQ : ∀ (cache : CacheManager) (n : Nat), cache.Within dom → Q () ⟨{ s.coll with cache }, n⟩ d) :
    wp rebuildVectorCache C Q R s d := by
  have hfill : ∀ ids : List Uuid, Returns (fun cache : CacheManager => cache.Within dom)
      (ids.foldlM (s.coll.cacheDocument d) (.new s.coll.config.cache)) := by
    intro ids
    refine foldlM_returns (fun _ (cache : CacheManager) => cache.Within dom) ?_ (CacheManager.within_new dom _)
    intro id _ cache hcache
    unfold cacheDocument
    rw [get_eq hopen hshows id]
    cases hdoc : m id with
    | none => exact .ok hcache
    | some doc => exact .ok ((hcache.putVector id (hsound id doc hdoc).2.vector).putMetadata id doc.metadata)
  simp only [rebuildVectorCache, wp_bind, wp_draw, wp_self, wp_device, wp_ofExcept, wp_update]
  obtain ⟨cache, hcache, hwithin⟩ := hfill ((Env.chance s.draws).order.enum s.coll.index.keys)
  rw [hcache]
  refine ⟨fun cache' hcache' => ?_, fun e he => by cases he⟩
  cases hcache'
  exact hQ cache _ hwithin

/-- Rebuilding the cache of an open collection. -/
theorem wp_recache {Q : Unit → Session → Disk → Prop} (h : Live config dom (fun _ => True) s.coll d g m)
    (hQ : ∀ s', Live config dom (fun _ => True) s'.coll d g m →
      s'.coll.checkpoint = s.coll.checkpoint → s'.coll.vectorIndex = s.coll.vectorIndex → Q () s' d) :
    wp rebuildVectorCache C Q R s d :=
  wp_rebuildVectorCache h.openOn h.memory.shows h.memory.sound fun _ n hwithin =>
    hQ ⟨_, n⟩ (h.remember (h.memory.setCache hwithin) rfl rfl) rfl rfl

section

variable {σ : Type} [Counting σ] {P : σ → Prop} {s : σ} {R : Fault → σ → Disk → Prop}

/-- Vectors of the domain can all be inserted. Draws keep `P`. -/
theorem wp_insertAll (hnext : ∀ s, P s → P (Counting.next s)) {vectors : HashMap Uuid Vector32}
    (hvectors : ∀ id v, vectors.lookup id = some v → dom.Has v)
    {entries : List (Uuid × Vector32)} (hentries : ∀ e ∈ entries, dom.Has e.2) {ix : VectorIndex}
    (hable : ix.Able dom) (hs : P s) {Q : VectorIndex → σ → Disk → Prop}
    (hQ : ∀ ix' s', ix'.Able dom → P s' → Q ix' s' d) : wp (insertAll vectors entries ix) C Q R s d := by
  induction entries generalizing ix s with
  | nil => exact wp_pure.mpr (hQ ix s hable hs)
  | cons entry entries ih =>
      simp only [insertAll, draw, wp_bind, wp_asks, wp_modify, wp_pure, wp_ofExcept]
      have hreader : dom.Reads ⟨vectors, (Env.chance (Counting.count s)).order⟩ := hvectors
      have hinsert : Returns (VectorIndex.Able dom) (ix.insert entry.1 entry.2
          ⟨vectors, (Env.chance (Counting.count s)).order⟩ (Env.chance (Counting.count s)).random) :=
        hable.insert (hentries entry (by simp)) hreader _
      obtain ⟨ix', hix', hable'⟩ := hinsert
      rw [hix']
      refine ⟨fun ix'' hix'' => ?_, fun e he => by cases he⟩
      cases hix''
      exact ih (fun e he => hentries e (by simp [he])) hable' (hnext s hs)

theorem wp_rebuildVectorIndex (hnext : ∀ s, P s → P (Counting.next s)) {store : RecordStore}
    {index : OffsetIndex} (hopen : store.OpenOn .data d)
    (hshows : index.Shows (fun _ => True) (d.read .data) m) (hsound : m.Sound dom) {ix : VectorIndex}
    (hable : ix.Able dom) (hs : P s) {Q : VectorIndex → σ → Disk → Prop}
    (hQ : ∀ ix' s', ix'.Able dom → P s' → Q ix' s' d) :
    wp (rebuildVectorIndex ix index store) C Q R s d := by
  have hcollect : ∀ entries : List (Uuid × EntryPointer), (∀ e ∈ entries, index.lookup e.1 = some e.2) →
      Returns (fun vectors : HashMap Uuid Vector32 =>
        ∀ id v, vectors.lookup id = some v → dom.Has v) (collectVectors store d entries) := by
    intro entries hentries
    refine foldlM_returns (fun rest (vectors : HashMap Uuid Vector32) =>
      (∀ e ∈ rest, index.lookup e.1 = some e.2) ∧ ∀ id v, vectors.lookup id = some v → dom.Has v)
      ?_ ⟨hentries, fun id v hv => by simp at hv⟩ |>.mono fun _ h => h.2
    rintro ⟨id, p⟩ rest vectors ⟨hrest, hvectors⟩
    obtain ⟨doc, hdoc, hrec⟩ := hshows.record id p trivial (hrest (id, p) (by simp))
    have hread := RecordStore.readDocument_eq hopen hrec
    refine ⟨vectors.insert id doc.vector, ?_, fun e he => hrest e (by simp [he]), fun id' v hv => ?_⟩
    · simp only [hread]
      rfl
    · rw [HashMap.lookup_insert] at hv
      split at hv
      · cases hv
        exact (hsound id doc hdoc).2.vector
      · exact hvectors id' v hv
  simp only [rebuildVectorIndex, draw, wp_bind, wp_asks, wp_modify, wp_pure, wp_device, wp_ofExcept]
  obtain ⟨vectors, hvectors, hwithin⟩ := hcollect
    ((Env.chance (Counting.count s)).order.entries index) fun e he => (HashOrder.mem_entries _ _ _ _).mp he
  rw [hvectors]
  refine ⟨fun vectors' hvectors' => ?_, fun e he => by cases he⟩
  cases hvectors'
  refine wp_insertAll hnext hwithin ?_ hable (hnext _ (hnext s hs)) hQ
  rintro ⟨id, v⟩ he
  exact hwithin id v ((HashOrder.mem_entries _ _ _ _).mp he)

end

/-- Rebuilding the index changes the files by the index sidecar alone. -/
theorem wp_rebuildIndex [LawfulEnv] {Q : Unit → Session → Disk → Prop}
    (h : Serving config dom s.coll d g m m) (hC : ∀ d', Recoverable dom m d' → C d')
    (hQ : ∀ s' d' g', Serving config dom s'.coll d' g' m m → Q () s' d') :
    wp rebuildIndex C Q R s d := by
  simp only [rebuildIndex, saveVectorIndex, wp_bind, wp_self, wp_update, wp_emit, Effect.apply_write]
  have hempty : (s.coll.config.index.createIndex s.coll.index.len).Able dom := by
    rw [h.live.memory.config]
    exact h.live.replayable.able _
  refine wp_rebuildVectorIndex (P := fun s' => s'.coll = s.coll) (fun _ hs => hs) h.live.openOn
    h.live.memory.shows h.live.memory.sound hempty rfl ?_
  intro ix s₁ hable hs₁
  rw [hs₁]
  refine wp_recache (s := ⟨_, s₁.draws⟩) (h.live.remember (h.live.memory.setVectorIndex hable) rfl rfl) ?_
  intro s₂ hlive₂ hcheckpoint₂ _
  have hsaved := h.live.stored.saveVectorIndex hable
  refine ⟨hC _ ⟨g, hsaved, h.contents⟩, hQ s₂ _ g (h.moveOn ?_ hcheckpoint₂)⟩
  exact {
    hlive₂ with
    stored := hsaved
    behind := fun index hindex => hlive₂.behind index (by simpa using hindex)
    header := by simpa using hlive₂.header
    openOn := ⟨hlive₂.openOn.dataFile, fun len hlen => by
      rw [Disk.read_put_other _ (by simp [StoreFile.file])]
      exact hlive₂.openOn.mmap len hlen⟩
    memory := by
      rw [Disk.read_put (by simp)]
      exact hlive₂.memory }

end Collection

/-! ## Loading -/

section

variable {s : Nat} {R : Fault → Nat → Disk → Prop}

theorem wp_loadIndex {index : OffsetIndex} {path : String} {Q : OffsetIndex → Nat → Disk → Prop}
    (h : d.IndexFile index) (hQ : Q index s d) : wp (loadIndex path) C Q R s d := by
  simp only [loadIndex, wp_bind, wp_device]
  rcases h with ⟨hnone, rfl⟩ | ⟨bytes, hsome, hdecode⟩
  · simp only [hnone, wp_pure]
    exact hQ
  · simp only [hsome, hdecode, wp_pure]
    exact hQ

theorem wp_loadVectorIndex {Q : Option VectorIndex → Nat → Disk → Prop} (h : Stored dom d g)
    (hQ : ∀ loaded, (∀ ix, loaded = some ix → ix.Able dom) → Q loaded s d) :
    wp loadVectorIndex C Q R s d := by
  simp only [loadVectorIndex, wp_bind, wp_device]
  cases hbytes : d .vecindex with
  | none => exact wp_pure.mpr (hQ none fun ix hix => by cases hix)
  | some bytes =>
      obtain ⟨ix, hdecode, hable⟩ := h.vecindex bytes hbytes
      simp only [hdecode, wp_pure]
      refine hQ _ fun ix' hix' => ?_
      cases hix'
      exact hable

theorem wp_loadMetadata {Q : Option CollectionMetadata → Nat → Disk → Prop} (h : Stored dom d g)
    (hQ : ∀ loaded, (∀ md, loaded = some md → md.schemaVersion = SCHEMA_VERSION ∧
      ∀ n, md.dimensions = some n → n = dom.dim) → Q loaded s d) :
    wp loadMetadata C Q R s d := by
  simp only [loadMetadata, wp_bind, wp_device]
  cases hbytes : d .metadata with
  | none => exact wp_pure.mpr (hQ none fun md hmd => by cases hmd)
  | some bytes =>
      obtain ⟨md, hdecode, hschema, hdim⟩ := h.metadata bytes hbytes
      simp only [hdecode, hschema, ne_eq, not_true_eq_false, if_false, wp_pure]
      refine hQ _ fun md' hmd' => ?_
      cases hmd'
      exact ⟨hschema, hdim⟩

theorem wp_loadWalMeta {floor : Nat} {Q : Nat → Nat → Disk → Prop} (h : d.FloorFile floor)
    (hQ : Q floor s d) : wp Wal.loadWalMeta C Q R s d := by
  simp only [Wal.loadWalMeta, wp_bind, wp_device]
  rcases h with ⟨hnone, rfl⟩ | ⟨bytes, hsome, hdecode⟩
  · simp only [hnone, wp_pure]
    exact hQ
  · simp only [hsome, hdecode, wp_pure]
    exact hQ

/-- Opening the log gives it a header where it has none. -/
theorem wp_newWal {n : Nat} {Q : Wal → Nat → Disk → Prop} (h : Stored dom d g)
    (hC : ∀ d', Stored dom d' g → C d')
    (hQ : ∀ d', Stored dom d' g → d'.read .wal ≠ [] → (∀ f, f ≠ .wal → d' f = d f) →
      Q ⟨true, n⟩ s d') :
    wp (Wal.new n) C Q R s d := by
  have hcreated : Stored dom (d.put .wal (some (d.read .wal))) g := by
    refine { h with index := by simpa using h.index, log := ?_, floor := by simpa using h.floor,
                    vecindex := by simpa using h.vecindex, metadata := by simpa using h.metadata }
    simpa [Disk.LogFile] using h.log
  have hline : Wal.line (Env.walHeader.encode ⟨WAL_VERSION⟩) = Wal.fileOf [] := by
    simp [Wal.line, Wal.fileOf]
  simp only [Wal.new, Wal.ensureHeader, fileLen, wp_bind, wp_emit, wp_device, wp_when, wp_pure,
    Bool.not_true, Bool.false_eq_true, if_false, Effect.apply_create, Effect.apply_append,
    Disk.read_put_self, Option.getD_some, hline]
  refine ⟨hC _ hcreated, fun hempty => ?_, fun hnonempty => ?_⟩
  · rw [List.length_eq_zero_iff] at hempty
    have hheader := hcreated.writeHeader (by simpa using hempty)
    rw [hempty, List.nil_append]
    rw [hempty] at hheader
    refine ⟨hC _ hheader, hQ _ hheader ?_ ?_⟩
    · simpa using Wal.fileOf_ne_nil []
    · intro f hf
      simp [hf]
  · rw [List.length_eq_zero_iff] at hnonempty
    refine hQ _ hcreated (by simpa using hnonempty) fun f hf => by simp [hf]

/-- The log is read back above the floor. -/
theorem wp_replay [LawfulEnv] {entries : List WalEntry} {floor n : Nat}
    {Q : List WalEntry → Nat → Disk → Prop} (hfile : d.LogFile entries) (hheader : d.read .wal ≠ [])
    (hlegible : ∀ e ∈ entries, e.Legible) (hQ : Q (Wal.above floor entries) s d) :
    wp (Wal.replay ⟨true, n⟩ floor) C Q R s d := by
  simp only [Wal.replay, Bool.not_true, Bool.false_eq_true, if_false, wp_bind, wp_device, wp_ofExcept]
  rw [hfile.resolve_right fun h => hheader h.1, Wal.entriesOf_fileOf floor hlegible]
  refine ⟨fun x hx => ?_, fun e he => by cases he⟩
  cases hx
  exact hQ

end

/-! ## Replaying -/

namespace CollectionBuilder

open Collection

variable {ids : Uuid → Prop}

/-- An entry that is replayed updates the collection in memory and writes only behind its
records. -/
theorem wp_replayEntry [LawfulEnv] {entry : WalEntry} {Q : PUnit → Session → Disk → Prop}
    (h : Live config dom ids s.coll d g m) (hentry : entry.Sound dom)
    (hC : ∀ d', Stored dom d' g → C d')
    (hQ : ∀ s' d', Live config dom (fun id => ids id ∨ ∃ u, entry.update? = some u ∧ u.key = id) s'.coll d' g
        (replay entry.update?.toList m) →
      s'.coll.checkpoint = s.coll.checkpoint → Q ⟨⟩ s' d') :
    wp (replayEntry entry) C Q R s d := by
  cases entry with
  | insert doc seq =>
      simp only [replayEntry, wp_bind, wp_pure]
      refine wp_insertInternal h (hentry doc rfl) hC ?_
      intro s' d' hlive hcheckpoint
      refine hQ s' d' (hlive.mono fun id hid => hid.imp_right ?_) hcheckpoint
      rintro ⟨u, hu, rfl⟩
      cases hu
      rfl
  | update doc seq =>
      simp only [replayEntry, wp_bind, wp_pure]
      refine wp_deleteInternal h ?_
      intro s₁ hlive₁ hcheckpoint₁
      refine wp_insertInternal hlive₁ (hentry doc rfl) hC ?_
      intro s' d' hlive hcheckpoint
      have hsame : (Update.put doc.id doc).apply ((Update.del doc.id).apply m) =
          (Update.put doc.id doc).apply m :=
        Update.apply_apply (u := .put doc.id doc) (v := .del doc.id) rfl m
      rw [hsame] at hlive
      refine hQ s' d' (hlive.mono fun id hid => ?_) (hcheckpoint.trans hcheckpoint₁)
      rcases hid with hid | ⟨u, hu, rfl⟩
      · exact .inl (.inl hid)
      · cases hu
        exact .inr rfl
  | delete id seq =>
      simp only [replayEntry]
      refine wp_deleteInternal h ?_
      intro s' hlive hcheckpoint
      refine hQ s' d (hlive.mono fun id' hid' => hid'.imp_right ?_) hcheckpoint
      rintro ⟨u, hu, rfl⟩
      cases hu
      rfl
  | checkpoint timestamp seq =>
      refine wp_pure.mpr (hQ s d (h.mono fun id hid => hid.resolve_right ?_) rfl)
      rintro ⟨u, hu, -⟩
      cases hu

theorem wp_replayWal [LawfulEnv] {entries : List WalEntry} {Q : PUnit → Session → Disk → Prop}
    (h : Live config dom ids s.coll d g m) (hentries : ∀ e ∈ entries, e.Sound dom)
    (hC : ∀ d', Stored dom d' g → C d')
    (hQ : ∀ s' d', Live config dom
        (fun id => ids id ∨ ∃ u ∈ entries.filterMap WalEntry.update?, u.key = id) s'.coll d' g
        (replay (entries.filterMap WalEntry.update?) m) → Q ⟨⟩ s' d') :
    wp (replayWal entries) C Q R s d := by
  unfold replayWal
  induction entries generalizing s d m ids with
  | nil => exact wp_pure.mpr (hQ s d (h.mono fun id hid => hid.resolve_right (by simp)))
  | cons entry entries ih =>
      refine wp_bind.mpr (wp_replayEntry h (hentries entry (by simp)) hC ?_)
      intro s₁ d₁ hlive₁ _
      refine ih hlive₁ (fun e he => hentries e (by simp [he])) fun s₂ d₂ hlive₂ => hQ s₂ d₂ ?_
      cases hu : entry.update? with
      | none =>
          rw [hu] at hlive₂
          rw [List.filterMap_cons_none hu]
          refine hlive₂.mono fun id hid => hid.imp_left .inl
      | some u =>
          rw [hu] at hlive₂
          rw [List.filterMap_cons_some hu]
          refine hlive₂.mono fun id hid => ?_
          rcases hid with hid | ⟨v, hv, hkey⟩
          · exact .inl (.inl hid)
          · rcases List.mem_cons.mp hv with rfl | hv
            · exact .inl (.inr ⟨v, rfl, hkey⟩)
            · exact .inr ⟨v, hv, hkey⟩

/-- What the replay is missing is what the log binds anew. -/
theorem Live.replayed {entries : List WalEntry}
    (h : Live config dom (fun id => (∀ u ∈ pending g.floor g.log, u.key ≠ id) ∨
      ∃ u ∈ entries.filterMap WalEntry.update?, u.key = id) c d g
      (replay (entries.filterMap WalEntry.update?) g.base))
    (hpending : pending g.floor g.log = entries.filterMap WalEntry.update?) :
    Live config dom (fun _ => True) c d g g.contents := by
  rw [← hpending] at h
  refine h.mono fun id _ => ?_
  by_cases htouched : ∃ u ∈ pending g.floor g.log, u.key = id
  · exact .inr htouched
  · push Not at htouched
    exact .inl htouched

section

variable [LawfulEnv] [BareEntries] {n : Nat} {R : Fault → Nat → Disk → Prop}

/-- What is loaded is the snapshot; the entries to replay are those that the floor leaves. -/
theorem wp_loadCollection {path : String} (hconfig : config.Replayable dom) (h : Stored dom d g)
    {Q : Collection × Bool × List WalEntry → Nat → Disk → Prop} (hC : ∀ d', Stored dom d' g → C d')
    (hQ : ∀ c missing entries n d',
      Live config dom (fun id => ∀ u ∈ pending g.floor g.log, u.key ≠ id) c d' g g.base →
      pending g.floor g.log = entries.filterMap WalEntry.update? → (∀ e ∈ entries, e.Sound dom) →
      (entries = [] → Numbered g c) → Q (c, missing, entries) n d') :
    wp (loadCollection path config) C Q R n d := by
  obtain ⟨index, hindex, hshows⟩ := h.index
  have hbelow := below_nextAppendOffset index
  have hbehind : ∀ {d' : Disk}, d' .index = d .index → ∀ index', d'.IndexFile index' →
      index'.Below (RecordStore.nextAppendOffset index) := by
    intro d' hd' index' hindex'
    rw [Disk.IndexFile, hd'] at hindex'
    exact hindex.unique hindex' ▸ hbelow
  simp only [loadCollection, wp_bind]
  refine wp_loadIndex hindex ?_
  refine RecordStore.wp_openFile (fun d' hk => hC d' (h.keeps (hk _) (hbehind rfl))) ?_
  intro store d₁ hk hopen hcursor
  have h₁ := h.keeps (hk _) (hbehind rfl)
  simp only [draw, wp_bind, wp_asks, wp_modify, wp_pure]
  refine wp_loadMetadata h₁ fun loadedMetadata hmetadata => ?_
  refine wp_loadVectorIndex h₁ fun loadedIndex hable => ?_
  simp only [loadMinSeq, openWal, hconfig.enabled, if_true]
  refine wp_loadWalMeta h₁.floor (wp_newWal h₁ hC ?_)
  intro d₂ h₂ hheader hfiles
  have hread : d₂.read .data = d₁.read .data := by rw [Disk.read, Disk.read, hfiles _ (by simp)]
  obtain ⟨entries, hlog, hnumbered, hsound⟩ := h₂.log
  simp only [loadWalEntries, hconfig.enabled, if_true]
  refine wp_replay hlog hheader (fun e he => (hsound e he).legible) ?_
  refine hQ _ _ _ _ d₂ ?_ ?_ ?_ ?_
  · exact {
      replayable := hconfig
      stored := h₂
      behind := by
        intro index' hindex'
        have hsame : d₂ .index = d .index := by rw [hfiles _ (by simp), (hk 0).files _ (by simp [StoreFile.file])]
        exact hcursor ▸ hbehind hsame index' hindex'
      header := hheader
      file := rfl
      floor := Nat.lt_succ_self _
      openOn := ⟨hopen.dataFile, fun len hlen => by
        rw [hopen.mmap len hlen]
        exact congrArg List.length hread.symm⟩
      memory := {
        config := rfl
        shows := by
          rw [hread]
          exact (hk _).shows hbelow hshows
        below := hcursor ▸ hbelow
        sound := h.sound
        able := by
          cases hix : loadedIndex with
          | none => exact hconfig.able _
          | some ix => exact hable ix hix
        within := CacheManager.within_new dom _
        schema := by
          cases hmd : loadedMetadata with
          | none => rfl
          | some md => exact (hmetadata md hmd).1
        dimensions := by
          intro k hk
          cases hmd : loadedMetadata with
          | none =>
              rw [hmd] at hk
              cases hk
          | some md =>
              rw [hmd] at hk
              exact (hmetadata md hmd).2 k hk } }
  · rw [hnumbered, pending_numbered]
  · intro e he
    exact hsound e (List.mem_filter.mp he).1
  · intro hnone e he hup
    rw [hnumbered] at he
    obtain ⟨entry, hentry, rfl⟩ := List.mem_map.mp he
    have hle : entry.seq ≤ g.floor := by
      by_contra hlt
      have hmem : entry ∈ Wal.above g.floor entries := List.mem_filter.mpr ⟨hentry, by simpa using hlt⟩
      rw [hnone] at hmem
      cases hmem
    exact Nat.lt_succ_of_le hle

/-- An open returns a collection that holds what the files stood for, and an open that is
stopped leaves files that still do. -/
theorem wp_openCollection {path : String} (hconfig : config.Replayable dom) (h : Recoverable dom m d)
    {Q : Collection → Nat → Disk → Prop} (hC : ∀ d', Recoverable dom m d' → C d')
    (hQ : ∀ c n d' g', Serving config dom c d' g' m m → Q c n d') :
    wp (openCollection path config) C Q R n d := by
  obtain ⟨g, hstored, rfl⟩ := h
  have hC' : ∀ d', Stored dom d' g → C d' := fun d' hd' => hC d' ⟨g, hd', rfl⟩
  simp only [openCollection, wp_bind]
  refine wp_loadCollection hconfig hstored hC' ?_
  intro c missing entries n₁ d₁ hlive hpending hentries hnumbered
  cases entries with
  | cons entry entries =>
      simp only [List.isEmpty_cons, Bool.not_false, if_true, onCollection, wp_bind, wp_embed, wp_pure,
        recover]
      refine wp_replayWal (s := ⟨c, n₁⟩) hlive hentries hC' ?_
      intro s₂ d₂ hlive₂
      refine wp_recache (Live.replayed hlive₂ hpending) ?_
      intro s₃ hlive₃ _ _
      refine wp_checkpointNow hlive₃ rfl hC ?_
      intro s₄ d₄ g₄ h₄
      exact hQ s₄.coll _ d₄ g₄ h₄
  | nil =>
      have hbase : g.contents = g.base := by
        unfold Store.contents
        rw [hpending]
        rfl
      have hall : Live config dom (fun _ => True) c d₁ g g.contents := by
        rw [hbase]
        refine hlive.mono fun id _ u hu => ?_
        rw [hpending] at hu
        cases hu
      have hrecache : ∀ (ix : VectorIndex) (n : Nat), ix.Able dom →
          wp (onCollection { c with vectorIndex := ix } rebuildVectorCache) C Q R n d₁ := by
        intro ix n hix
        simp only [onCollection, wp_bind, wp_embed, wp_pure]
        refine wp_recache (s := ⟨{ c with vectorIndex := ix }, n⟩)
          (hall.remember (hall.memory.setVectorIndex hix) rfl rfl) ?_
        intro s₂ hlive₂ hcheckpoint₂ _
        refine hQ s₂.coll _ d₁ g ⟨hlive₂, rfl, ?_⟩
        unfold Numbered
        rw [hcheckpoint₂]
        exact hnumbered rfl
      simp only [List.isEmpty_nil, Bool.not_true, Bool.false_eq_true, if_false, wp_bind, restoreVectorIndex,
        wp_ite, wp_pure]
      refine ⟨fun _ => ?_, fun _ => hrecache _ _ hall.memory.able⟩
      exact wp_rebuildVectorIndex (P := fun _ => True) (fun _ _ => trivial) hall.openOn hall.memory.shows
        hall.memory.sound hall.memory.able trivial fun ix n hix _ => hrecache ix n hix

end

end CollectionBuilder

end
