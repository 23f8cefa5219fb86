-- SUMMARY: Collections that are checkpointed, closed and opened again, and what that does to the searches of a graph.
import Piramid.Collections.Session
import Piramid.Index.Reach

/-!
# Opening a collection again

The sidecars of a checkpoint hold the offset index and the vector index. The cache is
no part of them: opening a collection rebuilds it from the documents, so that the
vectors of removed nodes are gone although the graph still has the nodes.
-/

open Loop Prog

section

variable [Env]

/-- A store that is opened on the file of another one. -/
theorem Held.reopened {f : StoreFile} {store store' : RecordStore} {index : OffsetIndex} {d d' : Disk}
    {t : Table} (h : Held f store index d t) (hk : ∀ k, Disk.Keeps f k d d')
    (hopen : store'.OpenOn f d') (hcursor : store'.appendCursor = RecordStore.nextAppendOffset index) :
    Held f store' index d' t where
  openOn := hopen
  shows := (hk store.appendCursor).shows h.below h.shows
  below := hcursor ▸ below_nextAppendOffset index
  own := h.own
  fits := h.fits

namespace CollectionBuilder

variable {config : CollectionConfig} {n : Nat} {d : Disk}

theorem ensures_loadMinSeq {Q : Nat → Nat → Disk → Prop} (hQ : ∀ minSeq, Q minSeq n d) :
    ensures (loadMinSeq config) Q n d := by
  unfold loadMinSeq Wal.loadWalMeta
  split
  · rw [ensures_bind, ensures_device]
    split
    · exact ensures_pure.mpr (hQ _)
    · split
      · exact ensures_fault
      · exact ensures_pure.mpr (hQ _)
  · exact ensures_pure.mpr (hQ _)

theorem ensures_openWal {seq : Nat} {Q : Wal → Nat → Disk → Prop}
    (hQ : ∀ wal d', d' .data = d .data → Q wal n d') : ensures (openWal config seq) Q n d := by
  unfold openWal
  split
  · simp only [Wal.new, Wal.ensureHeader, fileLen, Bool.not_true, Bool.false_eq_true, if_false,
      ensures_bind, ensures_emit, ensures_device, ensures_pure, ensures_when, Effect.apply_create,
      Effect.apply_append]
    exact ⟨fun _ => hQ _ _ (by simp), fun _ => hQ _ _ (by simp)⟩
  · exact ensures_pure.mpr (hQ _ _ rfl)

theorem ensures_loadWalEntries {wal : Wal} {minSeq : Nat} {Q : List WalEntry → Nat → Disk → Prop}
    (hQ : ∀ entries, Q entries n d) : ensures (loadWalEntries config wal minSeq) Q n d := by
  unfold loadWalEntries Wal.replay
  split
  · split
    · exact ensures_pure.mpr (hQ _)
    · simp only [ensures_bind, ensures_device, ensures_ofExcept]
      exact fun entries _ => hQ entries
  · exact ensures_pure.mpr (hQ _)

variable [LawfulEnv] {path : String} {c : Collection} {t : Table}

/-- What is loaded of a collection that was saved. -/
theorem ensures_loadCollection {Q : Collection × Bool × List WalEntry → Nat → Disk → Prop}
    (h : Held .data c.recordStore c.index d t) (hsaved : Saved c d)
    (hQ : ∀ c' entries n' d', c'.vectorIndex = c.vectorIndex →
      Held .data c'.recordStore c'.index d' t → c'.metadata.vectorCount = t.len →
      Q (c', false, entries) n' d') :
    ensures (loadCollection path config) Q n d := by
  simp only [loadCollection, loadIndex, ensures_bind, ensures_device]
  rw [hsaved.index]
  simp only [LawfulEnv.offsetIndex c.index, ensures_pure]
  refine ensures_of_wp (RecordStore.wp_openFile (C := fun _ => True) (R := fun _ _ _ => True)
    (fun _ _ => trivial) ?_)
  intro store d₁ hk hopen hcursor
  have hheld : Held .data store c.index d₁ t := h.reopened hk hopen hcursor
  have hfile : ∀ f, f ≠ .data → d₁ f = d f := fun f hf => (hk 0).files f hf
  simp only [draw, ensures_bind, ensures_asks, ensures_modify, ensures_pure, loadMetadata,
    loadVectorIndex, ensures_device]
  rw [hfile .metadata (by simp), hsaved.metadata]
  simp only [LawfulEnv.collectionMetadata c.metadata]
  split
  · exact ensures_fault
  rw [ensures_pure, hfile .vecindex (by simp), hsaved.vectorIndex]
  simp only [LawfulEnv.vectorIndex c.vectorIndex, ensures_pure]
  refine ensures_loadMinSeq fun minSeq => ensures_openWal fun wal d₂ hd₂ => ?_
  exact ensures_loadWalEntries fun entries => hQ _ entries _ d₂ rfl (hheld.disk hd₂) h.len

/-- A collection that was saved, opened again without a log to replay. -/
theorem ensures_reopen {Q : Collection → Nat → Disk → Prop} (h : Coherent c d t)
    (hsaved : Saved c d) {c₀ : Collection} {missing : Bool}
    (hload : (loadCollection path config n d).result = .ok (c₀, missing, []))
    (hQ : ∀ c' n' d', Coherent c' d' t → c'.vectorIndex = c.vectorIndex → Q c' n' d') :
    ensures (openCollection path config) Q n d := by
  simp only [openCollection, ensures_bind]
  have hloaded : ensures (loadCollection path config) (fun out _ d' => out.2.1 = false ∧
      out.1.vectorIndex = c.vectorIndex ∧ Held .data out.1.recordStore out.1.index d' t ∧
      out.1.metadata.vectorCount = t.len) n d :=
    ensures_loadCollection h.held hsaved fun c' entries n' d' hix hheld hcounted =>
      ⟨rfl, hix, hheld, hcounted⟩
  refine ensures_mono (ensures_result hloaded hload) ?_
  rintro _ n₁ d₁ ⟨rfl, rfl, hix, hheld, hcounted⟩
  simp only [List.isEmpty_nil, Bool.not_true, Bool.false_eq_true, if_false, ensures_bind,
    restoreVectorIndex, and_false, ensures_pure, onCollection, ensures_embed]
  refine Collection.ensures_recache (s := ⟨c₀, n₁⟩) hheld ?_ ?_ hcounted fun s' h' hsame => ?_
  · exact hix ▸ h.cached.tracked
  · exact hix ▸ h.cached.intact
  · exact hQ s'.coll _ d₁ h' (hsame.trans hix)

end CollectionBuilder

/-! ## Reachable collections -/

open CollectionBuilder

/-- The sessions of a collection, with the disk they leave and the table of the calls
made: it is opened where there are no files, makes calls that return, and is saved by a
checkpoint and opened again with no log to replay. -/
inductive Reached (path : String) (config : CollectionConfig) :
    Session → Disk → Table → Prop
  | opened {n n' : Nat} {c : Collection} {d : Disk}
      (h : Runs (openCollection path config) n Disk.empty c n' d) : Reached path config ⟨c, n'⟩ d ∅
  | performed {s s' : Session} {d d' : Disk} {t : Table} {op : SessionOp} {reply : Reply}
      (h : Reached path config s d t)
      (hfits : ∀ doc ∈ op.writes t, (RecordStore.encodeDocument doc).length < 2 ^ 32)
      (hrun : Runs op.perform s d reply s' d') : Reached path config s' d' (op.apply t)
  | reopened {s s' : Session} {d d' d'' : Disk} {t : Table} {c₀ c : Collection} {missing : Bool}
      {n n' : Nat} (h : Reached path config s d t)
      (hsave : Runs Collection.checkpointNow s d () s' d')
      (hload : (loadCollection path config n d').result = .ok (c₀, missing, []))
      (hrun : Runs (openCollection path config) n d' c n' d'') : Reached path config ⟨c, n'⟩ d'' t

variable [LawfulEnv] {path : String} {config : CollectionConfig} {s s' : Session} {d d' d'' : Disk}
  {t : Table}

omit [LawfulEnv] in
theorem Coherent.checkpointed (h : Coherent s.coll d t)
    (hsave : Runs Collection.checkpointNow s d () s' d') :
    Coherent s'.coll d' t ∧ Saved s'.coll d' ∧ s'.coll.vectorIndex = s.coll.vectorIndex := by
  have hens : ensures Collection.checkpointNow (fun _ s' d' => Coherent s'.coll d' t ∧
      Saved s'.coll d' ∧ s'.coll.vectorIndex = s.coll.vectorIndex) s d := by
    refine Collection.ensures_checkpointNow_saved fun s' d' ha hsaved => ?_
    exact ⟨h.aside ha, hsaved, by rw [ha.coll]⟩
  exact ensures_runs hens hsave

theorem Coherent.reopened {c c₀ c' : Collection} {missing : Bool} {n n' : Nat} (h : Coherent c d t)
    (hsaved : Saved c d) (hload : (loadCollection path config n d).result = .ok (c₀, missing, []))
    (hrun : Runs (openCollection path config) n d c' n' d') :
    Coherent c' d' t ∧ c'.vectorIndex = c.vectorIndex := by
  have hens : ensures (openCollection path config) (fun c' _ d' => Coherent c' d' t ∧
      c'.vectorIndex = c.vectorIndex) n d :=
    ensures_reopen h hsaved hload fun c' n' d' h' hsame => ⟨h', hsame⟩
  exact ensures_runs hens hrun

theorem Reached.coherent (h : Reached path config s d t) : Coherent s.coll d t := by
  induction h with
  | @opened n _ _ _ hrun =>
      have hens : ensures (openCollection path config) (fun c _ d => Coherent c d ∅) n Disk.empty :=
        ensures_openCollection fun c n d h => h
      have hcoh := ensures_runs hens hrun
      exact hcoh
  | @performed s _ d _ t op _ _ hfits hrun ih =>
      have hens : ensures op.perform (fun _ s' d' => Coherent s'.coll d' (op.apply t)) s d :=
        op.ensures_perform ih hfits fun s' d' h' => h'
      have hcoh := ensures_runs hens hrun
      exact hcoh
  | reopened _ hsave hload hrun ih =>
      obtain ⟨hcoh, hsaved, -⟩ := ih.checkpointed hsave
      exact (hcoh.reopened hsaved hload hrun).1

omit [LawfulEnv] in
theorem Reached.performedAll {ops : List SessionOp} {replies : List Reply}
    (h : Reached path config s d t) (hfits : t.Fits ops)
    (hrun : Runs (performAll ops) s d replies s' d') :
    Reached path config s' d' (t.run ops) := by
  induction ops generalizing s d t replies with
  | nil =>
      obtain ⟨-, rfl, rfl⟩ := runs_pure.mp hrun
      exact h
  | cons op ops ih =>
      obtain ⟨reply, s₁, d₁, hop, hrest⟩ := runs_bind.mp hrun
      obtain ⟨replies, s₂, d₂, hops, hpure⟩ := runs_bind.mp hrest
      obtain ⟨-, rfl, rfl⟩ := runs_pure.mp hpure
      exact ih (h.performed hfits.1 hop) hfits.2 hops

omit [LawfulEnv] in
/-- Sessions on a new collection are reachable. -/
theorem reached_session {ops : List SessionOp} {replies : List Reply} {n n' : Nat}
    (hfits : Table.Fits ∅ ops)
    (hrun : Runs (session path config ops) n Disk.empty (replies, s) n' d) :
    Reached path config s d (Table.run ∅ ops) := by
  obtain ⟨c, n₁, d₁, hopen, hrest⟩ := runs_bind.mp hrun
  obtain ⟨hops, -⟩ := runs_embed.mp hrest
  exact (Reached.opened hopen).performedAll hfits hops

/-! ## Searches of a graph -/

/-- Searches of the graphs of both collections, without a filter, give the same results. -/
def Collection.SearchesAs (c c' : Collection) : Prop :=
  ∃ ix ix', c.vectorIndex = .hnsw ix ∧ c'.vectorIndex = .hnsw ix' ∧
    ∀ query k ef order order',
      ix.search query k ef (c.cache.reader order) none c.cache.metadata =
        ix'.search query k ef (c'.cache.reader order') none c'.cache.metadata

omit [LawfulEnv] in
/-- The caches of two collections with one graph and one table have the same vectors
for the live nodes. -/
theorem Coherent.searchesAs {c c' : Collection} {ix : HnswIndex} (h : Coherent c d t)
    (h' : Coherent c' d' t) (hix : c.vectorIndex = .hnsw ix) (hsame : c'.vectorIndex = c.vectorIndex)
    (hlive : ∀ id, ix.Reaches id → ix.isTombstone id = false) : c.SearchesAs c' := by
  refine ⟨ix, ix, hix, hsame.trans hix, fun query k ef order order' => ?_⟩
  refine HnswIndex.search_congr fun id hid => ?_
  have hintact := h.cached.intact
  have htracked := h.cached.tracked
  rw [hix] at hintact htracked
  have hkey : id ∈ t.keys := by
    rw [← htracked]
    exact HnswIndex.mem_trackedIds.mpr ⟨hid.mem hintact.1 hintact.2, hlive id hid⟩
  obtain ⟨doc, hdoc⟩ := (HashMap.mem_keys_iff t id).mp hkey
  exact (h.cached.mirrors.vectors id doc hdoc).trans (h'.cached.mirrors.vectors id doc hdoc).symm

/-- Where no removed node can be reached in the graph, neither opening a collection
again nor the consistency check changes what searches find. -/
theorem reopening_keeps_searches (h : Reached path config s d t) {ix : HnswIndex}
    (hix : s.coll.vectorIndex = .hnsw ix) (hlive : ∀ id, ix.Reaches id → ix.isTombstone id = false) :
    (∀ s' d' d'' n n' c₀ missing c, Runs Collection.checkpointNow s d () s' d' →
        (loadCollection path config n d').result = .ok (c₀, missing, []) →
        Runs (openCollection path config) n d' c n' d'' → s'.coll.SearchesAs c) ∧
      ∀ s' d', Runs Collection.ensureConsistent s d () s' d' → s.coll.SearchesAs s'.coll := by
  have hcoh := h.coherent
  constructor
  · intro s' d' d'' n n' c₀ missing c hsave hload hrun
    obtain ⟨hcoh', hsaved, hsame⟩ := hcoh.checkpointed hsave
    obtain ⟨hnew, hkept⟩ := hcoh'.reopened hsaved hload hrun
    exact hcoh'.searchesAs hnew (hsame.trans hix) hkept hlive
  · intro s' d' hrun
    have hens : ensures Collection.ensureConsistent (fun _ s' d' => Coherent s'.coll d' t ∧
        s'.coll.vectorIndex = s.coll.vectorIndex) s d :=
      Collection.ensures_ensureConsistent hcoh fun s' h hkept => ⟨h, hkept⟩
    obtain ⟨hnew, hkept⟩ := ensures_runs hens hrun
    exact hcoh.searchesAs hnew hix hkept hlive

end

/-! ## A removed node that leads to a live one -/

section

attribute [local instance] Reference.flat

open Reference CollectionBuilder

/-- A graph on layer 0 in which every node keeps one neighbour. -/
def chainConfig : CollectionConfig :=
  config (.hnsw 1 1 10 10 F32.one .dotProduct .auto) .unlimited 1000

/-- The number zero, and twice the number one. -/
def chain : List SessionOp :=
  [.call (.insert { doc 0 1 with vector := [F32.zero] }), .call (.insert (doc 1 1)),
    .call (.insert (doc 2 1))]

/-- What a search for the number one finds. -/
def found (c : Collection) : Option (List Uuid) :=
  match c.vectorIndex with
  | .hnsw ix => (ix.search [F32.one] 3 10 (c.cache.reader Bincode.idOrder) none c.cache.metadata).toOption
  | _ => none

theorem Collection.SearchesAs.found_eq {c c' : Collection} (h : c.SearchesAs c') :
    found c = found c' := by
  obtain ⟨ix, ix', hix, hix', hsame⟩ := h
  unfold found
  rw [hix, hix']
  exact congrArg Except.toOption (hsame _ _ _ _ _)

/-- A session that ends with a checkpoint. -/
def saved (ops : List SessionOp) : Io Nat (Session × Session) := do
  let (_, s) ← session "c" chainConfig ops
  let (_, s') ← Prog.embed (fun _ => s) Session.draws Collection.checkpointNow
  pure (s, s')

theorem reached_saved {ops : List SessionOp} {s s' : Session} (hfits : Table.Fits ∅ ops)
    (hsaved : (saved ops 0 Disk.empty).result = .ok (s, s')) :
    ∃ d, Reached "c" chainConfig s d (Table.run ∅ ops) ∧
      Runs Collection.checkpointNow s d () s' ((saved ops).final 0 Disk.empty) := by
  obtain ⟨⟨replies, s₁⟩, n₁, d₁, hsession, hrest⟩ := runs_bind.mp (runs_of_ok hsaved)
  obtain ⟨⟨u, s₂⟩, n₂, d₂, hcheckpoint, hpure⟩ := runs_bind.mp hrest
  obtain ⟨hpair, -, hd⟩ := runs_pure.mp hpure
  cases hpair
  subst hd
  exact ⟨d₁, reached_session hfits hsession, (runs_embed.mp hcheckpoint).1⟩

/-- A loaded log with nothing to replay. -/
theorem load_of_isEmpty {x : Except Fault (Collection × Bool × List WalEntry)}
    (h : x.toOption.map (fun out => out.2.2.isEmpty) = some true) :
    ∃ c missing, x = .ok (c, missing, []) := by
  cases x with
  | error e => cases h
  | ok out =>
      obtain ⟨c, missing, entries⟩ := out
      have hentries : entries = [] := List.isEmpty_iff.mp (Option.some.inj h)
      exact ⟨c, missing, by rw [hentries]⟩

/-- The entry point is one of these nodes, no edge leads away from them, and none of them is
removed. -/
def encloses (ids : List Uuid) (c : Collection) : Bool :=
  match c.vectorIndex with
  | .hnsw ix => ix.startNode.all ids.contains && ids.all fun id =>
      !ix.isTombstone id && (ix.nodes.lookup id).all fun node => node.connections.flatten.all ids.contains
  | _ => false

theorem live_of_encloses {ids : List Uuid} {c : Collection} (h : encloses ids c) :
    ∃ ix, c.vectorIndex = .hnsw ix ∧ ∀ id, ix.Reaches id → ix.isTombstone id = false := by
  unfold encloses at h
  split at h
  · rename_i ix hix
    rw [Bool.and_eq_true, List.all_eq_true] at h
    obtain ⟨hstart, hids⟩ := h
    have hlive : ∀ id ∈ ids, ix.isTombstone id = false := by
      intro id hid
      have hnode := hids id hid
      rw [Bool.and_eq_true, Bool.not_eq_true'] at hnode
      exact hnode.1
    refine ⟨ix, hix, fun id hid => hlive id ?_⟩
    induction hid with
    | start hentry =>
        rw [hentry] at hstart
        exact List.contains_iff_mem.mp hstart
    | @edge id next level _ hnext ih =>
        have hnode := hids id ih
        unfold HnswIndex.neighborsAt at hnext
        cases hlookup : ix.nodes.lookup id with
        | none => simp [hlookup] at hnext
        | some node =>
            rw [hlookup, Option.bind_some] at hnext
            cases hlevel : node.connections[level]? with
            | none => simp [hlevel] at hnext
            | some neighbors =>
                rw [hlevel, Option.getD_some] at hnext
                have hmem : next ∈ node.connections.flatten :=
                  List.mem_flatten.mpr ⟨neighbors, List.mem_of_getElem? hlevel, hnext⟩
                rw [hlookup, Option.all_some, Bool.and_eq_true, List.all_eq_true] at hnode
                exact List.contains_iff_mem.mp (hnode.2 next hmem)
  · cases h

/-- A session is saved, and its collection is opened again. -/
theorem saved_and_opened (ops : List SessionOp) (ids : List Uuid) (live : Bool)
    (before after : Option (List Uuid)) (hfits : Table.Fits ∅ ops)
    (hbefore : (saved ops 0 Disk.empty).result.toOption.map
      (fun out => (encloses ids out.1.coll, found out.2.coll)) = some (live, before))
    (hload : (loadCollection "c" chainConfig 0
      ((saved ops).final 0 Disk.empty)).result.toOption.map (fun out => out.2.2.isEmpty) = some true)
    (hafter : (openCollection "c" chainConfig 0
      ((saved ops).final 0 Disk.empty)).result.toOption.map found = some after) :
    ∃ s s' d d' d'' c₀ c missing n', Reached "c" chainConfig s d (Table.run ∅ ops) ∧
      Runs Collection.checkpointNow s d () s' d' ∧
      (loadCollection "c" chainConfig 0 d').result = .ok (c₀, missing, []) ∧
      Runs (openCollection "c" chainConfig) 0 d' c n' d'' ∧
      encloses ids s.coll = live ∧ found s'.coll = before ∧ found c = after := by
  obtain ⟨c₀, missing, hload⟩ := load_of_isEmpty hload
  cases hsaved : (saved ops 0 Disk.empty).result with
  | error e =>
      rw [hsaved] at hbefore
      cases hbefore
  | ok out =>
      cases hopen : (openCollection "c" chainConfig 0 ((saved ops).final 0 Disk.empty)).result with
      | error e =>
          rw [hopen] at hafter
          cases hafter
      | ok c =>
          rw [hsaved] at hbefore
          rw [hopen] at hafter
          obtain ⟨s, s'⟩ := out
          obtain ⟨d, hreached, hcheckpoint⟩ := reached_saved hfits hsaved
          have hpair : (encloses ids s.coll, found s'.coll) = (live, before) := Option.some.inj hbefore
          exact ⟨s, s', d, _, _, c₀, c, missing, _, hreached, hcheckpoint, hload, runs_of_ok hopen,
            congrArg Prod.fst hpair, congrArg Prod.snd hpair, Option.some.inj hafter⟩

theorem fits_chain_delete (id : Uuid) : Table.Fits ∅ (chain ++ [.call (.delete id)]) := by
  refine ⟨?_, ?_, ?_, fun doc hdoc => absurd hdoc (List.not_mem_nil), trivial⟩
  all_goals decide +kernel

/-- Once the node at the end is removed, no edge leads to it, and the searches stay as they
are. -/
theorem chain_keeps_searches :
    ∃ (s s' : Session) (d d' d'' : Disk) (c₀ c : Collection) (missing : Bool) (n' : Nat),
      Reached "c" chainConfig s d (Table.run ∅ (chain ++ [.call (.delete 0)])) ∧
        Runs Collection.checkpointNow s d () s' d' ∧
        (loadCollection "c" chainConfig 0 d').result = .ok (c₀, missing, []) ∧
        Runs (openCollection "c" chainConfig) 0 d' c n' d'' ∧
        found s'.coll = some [1, 2] ∧ s'.coll.SearchesAs c := by
  obtain ⟨s, s', d, d', d'', c₀, c, missing, n', hreached, hsave, hload, hopen, henclosed, hfound, -⟩ :=
    saved_and_opened (chain ++ [.call (.delete 0)]) [1, 2] true (some [1, 2]) (some [1, 2])
      (fits_chain_delete 0) (by decide +kernel) (by decide +kernel) (by decide +kernel)
  obtain ⟨ix, hix, hlive⟩ := live_of_encloses henclosed
  refine ⟨s, s', d, d', d'', c₀, c, missing, n', hreached, hsave, hload, hopen, hfound, ?_⟩
  exact (reopening_keeps_searches hreached hix hlive).1 _ _ _ _ _ _ _ _ hsave hload hopen

/-- Once the node in the middle is removed, opening the collection again loses the one
behind it. -/
theorem removed_node_cuts_chain :
    ∃ (s s' : Session) (d d' d'' : Disk) (t : Table) (c₀ c : Collection) (missing : Bool) (n' : Nat),
      Reached "c" chainConfig s d t ∧ Runs Collection.checkpointNow s d () s' d' ∧
        (loadCollection "c" chainConfig 0 d').result = .ok (c₀, missing, []) ∧
        Runs (openCollection "c" chainConfig) 0 d' c n' d'' ∧
        found s'.coll = some [2, 0] ∧ found c = some [0] ∧ ¬s'.coll.SearchesAs c := by
  obtain ⟨s, s', d, d', d'', c₀, c, missing, n', hreached, hsave, hload, hopen, -, hbefore, hafter⟩ :=
    saved_and_opened (chain ++ [.call (.delete 1)]) [0, 2] false (some [2, 0]) (some [0])
      (fits_chain_delete 1) (by decide +kernel) (by decide +kernel) (by decide +kernel)
  refine ⟨s, s', d, d', d'', _, c₀, c, missing, n', hreached, hsave, hload, hopen, hbefore, hafter,
    fun hsame => ?_⟩
  have heq := hsame.found_eq
  rw [hbefore, hafter] at heq
  revert heq
  decide

end
