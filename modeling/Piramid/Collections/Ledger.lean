-- SUMMARY: A process that crashes and restarts keeps every call that returned, and a beginning of the one it was in.
import Piramid.Base.Simulation
import Piramid.Collections.Compacting
import Piramid.Collections.Session
import Piramid.Reference.Sample

/-!
# The ledger

What the machine promises its clients: a table, and whether it is being served. A call that
returned is in the table for good; a call that a crash cuts off is in it up to some update. The
machine refines the ledger in every run in which the documents can be stored, no limit is set,
and no crash falls between the two halves of a compaction.
-/

open Prog Simulation SnapshotLog

/-! ## Updates of a table -/

namespace Table

def update (t : Table) : DocUpdate → Table
  | .put id doc => t.insert id doc
  | .del id => t.erase id

def updateAll (t : Table) (us : List DocUpdate) : Table := us.foldl update t

theorem lookup_updateAll (t : Table) (us : List DocUpdate) :
    (t.updateAll us).lookup = replay us t.lookup := by
  induction us generalizing t with
  | nil => rfl
  | cons u us ih =>
      have hstep : (t.update u).lookup = u.apply t.lookup := by
        funext id
        cases u with
        | put id' doc => exact HashMap.lookup_insert t id' id doc
        | del id' => exact HashMap.lookup_erase t id' id
      rw [replay_cons, ← hstep]
      exact ih (t.update u)

end Table

/-- The updates that a call makes, in the order in which it logs them. -/
def Call.updates (t : Table) : Call → List DocUpdate
  | .insert doc | .upsert doc => [.put doc.id doc]
  | .insertBatch docs => docs.map fun doc => .put doc.id doc
  | .updateMetadata id metadata => ((t.lookup id).map fun doc => .put id { doc with metadata }).toList
  | .updateVector id vector => ((t.lookup id).map fun doc => .put id { doc with vector }).toList
  | .delete id => [.del id]
  | .deleteBatch ids => (ids.filter fun id => (t.lookup id).isSome).map .del
  | .checkpoint | .rebuildIndex | .compact => []

/-- All of its updates are what a call does. -/
theorem Call.lookup_apply (t : Table) (call : Call) :
    (call.apply t).lookup = replay (call.updates t) t.lookup := by
  have hall : ∀ us, replay us t.lookup = (t.updateAll us).lookup := fun us => (t.lookup_updateAll us).symm
  cases call with
  | insert doc | upsert doc => exact (hall [.put doc.id doc]).symm
  | insertBatch docs =>
      rw [updates, hall, Table.updateAll, List.foldl_map]
      rfl
  | updateMetadata id metadata =>
      rw [updates, apply]
      cases hdoc : t.lookup id with
      | none => rfl
      | some doc => exact (hall [.put id { doc with metadata }]).symm
  | updateVector id vector =>
      rw [updates, apply]
      cases hdoc : t.lookup id with
      | none => rfl
      | some doc => exact (hall [.put id { doc with vector }]).symm
  | delete id => exact (hall [.del id]).symm
  | deleteBatch ids =>
      rw [updates, replay_dels, hall, Table.updateAll, List.foldl_map]
      rfl
  | checkpoint | rebuildIndex | compact => rfl

/-! ## The ledger -/

structure Ledger where
  table : Table
  serving : Bool

namespace Ledger

/-- Nothing stored, nothing running. -/
def fresh : Ledger := ⟨∅, false⟩

/-- What an event may do to the ledger. -/
inductive Step : Ledger → Event → Ledger → Prop
  | opened {l : Ledger} : Step l .open ⟨l.table, true⟩
  | openStopped {l : Ledger} {k : Nat} : Step l (.crashOpen k) ⟨l.table, false⟩
  | called {t : Table} {call : Call} : Step ⟨t, true⟩ (.call call) ⟨call.apply t, true⟩
  /-- A call that is cut off has made some first updates. -/
  | callStopped {t : Table} {call : Call} {k : Nat} (j : Nat) :
    Step ⟨t, true⟩ (.crashCall call k) ⟨t.updateAll ((call.updates t).take j), false⟩
  | unheard {t : Table} {call : Call} : Step ⟨t, false⟩ (.call call) ⟨t, false⟩
  | unheardStopped {t : Table} {call : Call} {k : Nat} : Step ⟨t, false⟩ (.crashCall call k) ⟨t, false⟩

/-- What a run of events may do to the ledger. -/
abbrev Steps : Ledger → List Event → Ledger → Prop := Simulation.Steps Step

variable [Env]

/-- The documents that an event writes can be stored. -/
def Storable (dom : VectorDomain) (l : Ledger) : Event → Prop
  | .open | .crashOpen _ => True
  | .call call | .crashCall call _ => ∀ doc ∈ call.writes l.table, doc.Sound dom

/-- Whatever the crashes leave, the documents that are written can be stored. -/
def Orderly (dom : VectorDomain) : Ledger → List Event → Prop := Always Step (Storable dom)

end Ledger

namespace Machine

variable [Env]

/-- The open or the call of an event returns; nothing is asked of one that is cut off. -/
def Returns (path : String) (config : CollectionConfig) (m : Machine) : Event → Prop
  | .open => ∃ c, (CollectionBuilder.openCollection path config m.draws m.disk).result = .ok c
  | .call call => ∀ c, m.coll = some c → (call.run ⟨c, m.draws⟩ m.disk).result = .ok ()
  | .crashOpen _ | .crashCall _ _ => True

def AllReturn (path : String) (config : CollectionConfig) : Machine → List Event → Prop :=
  Along (step path config) (Returns path config)

/-- The event is no crash of a compaction that leaves its new data file beside the old offset
index. -/
def Spares (path : String) (config : CollectionConfig) (m : Machine) (e : Event) : Prop :=
  ∀ k, e = .crashCall .compact k → (m.step path config e).disk .data = m.disk .data ∨
    (m.step path config e).disk .index ≠ m.disk .index

def Spared (path : String) (config : CollectionConfig) : Machine → List Event → Prop :=
  Along (step path config) (Spares path config)

/-- The machine stands where the ledger does. -/
def Follows (config : CollectionConfig) (dom : VectorDomain) (m : Machine) (l : Ledger) : Prop :=
  if l.serving then
    ∃ c g, m.coll = some c ∧ Serving config dom c m.disk g l.table.lookup l.table.lookup
  else m.coll = none ∧ Recoverable dom l.table.lookup m.disk

end Machine

/-! ## One event -/

section

variable [Env] [LawfulEnv] {path : String} {config : CollectionConfig} {dom : VectorDomain} {s : Session} {d : Disk}
  {g : StoredMap} {t : Table}

/-- What a call that is cut off can leave. -/
def Call.Leaves (call : Call) (dom : VectorDomain) (t : Table) (d d' : Disk) : Prop :=
  (∃ j, Recoverable dom (replay ((call.updates t).take j) t.lookup) d') ∨
    call = .compact ∧ d' .data ≠ d .data ∧ d' .index = d .index

omit [LawfulEnv] in
/-- A call that makes one update. -/
theorem Call.leaves_one {call : Call} {u : DocUpdate} (hu : call.updates t = [u]) {d' : Disk}
    (h : Recoverable dom (u.apply t.lookup) d') : call.Leaves dom t d d' := by
  refine .inl ⟨1, ?_⟩
  rw [hu]
  exact h

/-- A call on documents that can be stored returns, with its updates carried out. -/
theorem Call.wp_run {call : Call} (h : Serving config dom s.coll d g t.lookup t.lookup)
    (hdocs : ∀ doc ∈ call.writes t, doc.Sound dom) :
    wp call.run (call.Leaves dom t d)
      (fun _ s' d' => ∃ g', Serving config dom s'.coll d' g' (call.apply t).lookup (call.apply t).lookup)
      (fun _ _ _ => False) s d := by
  rw [call.lookup_apply]
  cases call with
  | insert doc =>
      refine wp_void.mpr (Collection.wp_insert h (hdocs doc (by simp [writes])) ?_ ?_)
      · exact fun d' hd' => leaves_one rfl hd'
      · exact fun s' d' g' h' => ⟨g', h'⟩
  | insertBatch docs =>
      refine wp_void.mpr (Collection.wp_insertBatch h hdocs ?_ ?_)
      · exact fun d' j hd' => .inl ⟨j, hd'⟩
      · exact fun s' d' g' h' => ⟨g', h'⟩
  | upsert doc =>
      refine wp_void.mpr (Collection.wp_upsert h (hdocs doc (by simp [writes])) ?_ ?_)
      · exact fun d' hd' => leaves_one rfl hd'
      · exact fun s' d' g' h' => ⟨g', h'⟩
  | updateMetadata id metadata =>
      refine wp_void.mpr (Collection.wp_updateMetadata h ?_ ?_ ?_ ?_)
      · exact fun doc hdoc => hdocs _ (by simp [writes, hdoc])
      · exact fun doc hdoc d' hd' => leaves_one (by simp [updates, hdoc]) hd'
      · intro hnone
        exact ⟨g, by simpa [updates, hnone] using h⟩
      · intro doc hdoc s' d' g' h'
        exact ⟨g', by simpa [updates, hdoc] using h'⟩
  | updateVector id vector =>
      refine wp_void.mpr (Collection.wp_updateVector h ?_ ?_ ?_ ?_)
      · exact fun doc hdoc => hdocs _ (by simp [writes, hdoc])
      · exact fun doc hdoc d' hd' => leaves_one (by simp [updates, hdoc]) hd'
      · intro hnone
        exact ⟨g, by simpa [updates, hnone] using h⟩
      · intro doc hdoc s' d' g' h'
        exact ⟨g', by simpa [updates, hdoc] using h'⟩
  | delete id =>
      refine wp_void.mpr (Collection.wp_delete h ?_ ?_)
      · exact fun d' hd' => leaves_one rfl hd'
      · exact fun s' d' g' h' => ⟨g', h'⟩
  | deleteBatch ids =>
      refine wp_void.mpr (Collection.wp_deleteBatch h ?_ ?_)
      · exact fun d' j hd' => .inl ⟨j, hd'⟩
      · exact fun s' d' g' h' => ⟨g', h'⟩
  | checkpoint =>
      refine Collection.wp_checkpointNow h.live h.contents ?_ ?_
      · exact fun d' hd' => .inl ⟨0, hd'⟩
      · exact fun s' d' g' h' => ⟨g', h'⟩
  | rebuildIndex =>
      refine Collection.wp_rebuildIndex h ?_ ?_
      · exact fun d' hd' => .inl ⟨0, hd'⟩
      · exact fun s' d' g' h' => ⟨g', h'⟩
  | compact =>
      refine wp_void.mpr (Collection.wp_compact h ?_ ?_ ?_)
      · exact fun d' hd' => .inl ⟨0, hd'⟩
      · rintro d' ⟨hfiles, -⟩
        by_cases hdata : d' .data = d .data
        · refine .inl ⟨0, g, h.live.stored.other fun f hf => ?_, h.contents⟩
          by_cases hfile : f = .data
          · exact hfile ▸ hdata
          · exact hfiles f hfile hf
        · exact .inr ⟨rfl, hdata, hfiles _ (by simp) (by simp)⟩
      · exact fun _ s' d' g' h' => ⟨g', h'⟩

namespace Machine

variable {m : Machine} {l : Ledger}

omit [LawfulEnv] in
theorem Follows.served (h : m.Follows config dom l) (hserving : l.serving = true) :
    ∃ c g, m.coll = some c ∧ Serving config dom c m.disk g l.table.lookup l.table.lookup := by
  rw [Follows, if_pos hserving] at h
  exact h

omit [LawfulEnv] in
theorem Follows.recoverable (h : m.Follows config dom l) : Recoverable dom l.table.lookup m.disk := by
  unfold Follows at h
  split at h
  · obtain ⟨c, g, -, hserving⟩ := h
    exact hserving.recoverable
  · exact h.2

variable [BareEntries]

/-- What an open leaves, whether it is stopped or not. -/
theorem Follows.opens (h : m.Follows config dom l) (path : String) (hconfig : config.Replayable dom) :
    wp (CollectionBuilder.openCollection path config) (Recoverable dom l.table.lookup)
      (fun c _ d' => ∃ g', Serving config dom c d' g' l.table.lookup l.table.lookup)
      (fun _ _ _ => False) m.draws m.disk :=
  CollectionBuilder.wp_openCollection hconfig h.recoverable (fun _ hd' => hd') fun _ _ _ g' h' => ⟨g', h'⟩

/-- Each event of the machine is one of the ledger, and returns. -/
theorem Follows.step {e : Event} (h : m.Follows config dom l) (path : String)
    (hconfig : config.Replayable dom) (hdocs : l.Storable dom e) (hspared : m.Spares path config e) :
    m.Returns path config e ∧ ∃ l', l.Step e l' ∧ (m.step path config e).Follows config dom l' := by
  obtain ⟨t, serving⟩ := l
  cases e with
  | «open» =>
      obtain ⟨c, hok, g', hserving⟩ := wp_returns (h.opens path hconfig)
      refine ⟨⟨c, hok⟩, ⟨t, true⟩, .opened, ?_⟩
      rw [Follows, if_pos rfl]
      refine ⟨c, g', ?_, hserving⟩
      simp only [Machine.step, hok]
      rfl
  | crashOpen k =>
      refine ⟨trivial, ⟨t, false⟩, .openStopped, ?_⟩
      rw [Follows, if_neg (by simp)]
      exact ⟨rfl, wp_crash (h.opens path hconfig) h.recoverable k⟩
  | call call =>
      cases serving with
      | false =>
          have hcoll : m.coll = none := by
            rw [Follows, if_neg (by simp)] at h
            exact h.1
          refine ⟨fun c hc => ?_, ⟨t, false⟩, .unheard, ?_⟩
          · rw [hcoll] at hc
            cases hc
          · simpa only [Machine.step, hcoll] using h
      | true =>
          obtain ⟨c, g, hcoll, hserving⟩ := h.served rfl
          obtain ⟨⟨⟩, hok, g', h'⟩ := wp_returns (Call.wp_run (s := ⟨c, m.draws⟩) hserving hdocs)
          refine ⟨fun c' hc' => ?_, ⟨call.apply t, true⟩, .called, ?_⟩
          · rw [hcoll] at hc'
            cases hc'
            exact hok
          · rw [Follows, if_pos rfl]
            refine ⟨(call.run ⟨c, m.draws⟩ m.disk).state.coll, g', ?_, ?_⟩
            · simp only [Machine.step, hcoll]
            · simpa only [Machine.step, hcoll] using h'
  | crashCall call k =>
      cases serving with
      | false =>
          have hcoll : m.coll = none := by
            rw [Follows, if_neg (by simp)] at h
            exact h.1
          refine ⟨trivial, ⟨t, false⟩, .unheardStopped, ?_⟩
          simpa only [Machine.step, hcoll] using h
      | true =>
          obtain ⟨c, g, hcoll, hserving⟩ := h.served rfl
          have hstart : call.Leaves dom t m.disk m.disk := .inl ⟨0, hserving.recoverable⟩
          have hleft := wp_crash (Call.wp_run (s := ⟨c, m.draws⟩) hserving hdocs) hstart k
          have hdisk : (m.step path config (.crashCall call k)).disk =
              call.run.crash k ⟨c, m.draws⟩ m.disk := by
            simp only [Machine.step, hcoll]
          rw [← hdisk] at hleft
          have hgone : (m.step path config (.crashCall call k)).coll = none := by
            simp only [Machine.step, hcoll]
          rcases hleft with ⟨j, hj⟩ | ⟨rfl, hdata, hindex⟩
          · refine ⟨trivial, ⟨t.updateAll ((call.updates t).take j), false⟩, .callStopped j, ?_⟩
            rw [Follows, if_neg (by simp), Table.lookup_updateAll]
            exact ⟨hgone, hj⟩
          · rcases hspared k rfl with hsame | hnew
            · exact absurd hsame hdata
            · exact absurd hindex hnew

/-- Every event of a run is one of the ledger, and returns. -/
theorem Follows.run {events : List Event} (h : m.Follows config dom l) (path : String)
    (hconfig : config.Replayable dom) (hdocs : l.Orderly dom events) (hspared : m.Spared path config events) :
    m.AllReturn path config events ∧
      ∃ l', l.Steps events l' ∧ (m.run path config events).Follows config dom l' :=
  Simulation.run (fun _ _ _ h hdocs hspared => h.step path hconfig hdocs hspared) h hdocs hspared

omit [LawfulEnv] [BareEntries] in
theorem follows_fresh : Machine.fresh.Follows config dom Ledger.fresh := by
  rw [Follows, if_neg (by simp [Ledger.fresh])]
  exact ⟨rfl, .of_none rfl rfl rfl rfl rfl⟩

/-- A process that is started on an empty disk, crashes between any two effects and is started
again: every open and every call that is not cut off returns, and after the run the open
collection, or the one that an open brings back, reads exactly a table that the ledger allows. -/
theorem run_recovers (path : String) {config : CollectionConfig} {dom : VectorDomain}
    (hconfig : config.Replayable dom) {events : List Event} (hdocs : Ledger.fresh.Orderly dom events)
    (hspared : Machine.fresh.Spared path config events) :
    let m := Machine.fresh.run path config events
    Machine.fresh.AllReturn path config events ∧ ∃ l, Ledger.fresh.Steps events l ∧
      (m.coll.isSome ↔ l.serving = true) ∧
      (∀ c, m.coll = some c → ∀ id, c.get m.disk id = .ok (l.table.lookup id)) ∧
      ∀ id, (m.step path config .open).Reads id (.ok (l.table.lookup id)) := by
  intro m
  obtain ⟨hall, l, hsteps, h⟩ := follows_fresh.run path hconfig hdocs hspared
  refine ⟨hall, l, hsteps, ?_, ?_, fun id => ?_⟩
  · cases hserving : l.serving with
    | false =>
        have hcoll : m.coll = none := by
          rw [Follows, hserving, if_neg (by simp)] at h
          exact h.1
        simp [hcoll]
    | true =>
        obtain ⟨c, g, hcoll, -⟩ := h.served hserving
        have : m.coll = some c := hcoll
        simp [this]
  · intro c hc id
    cases hserving : l.serving with
    | false =>
        rw [Follows, hserving, if_neg (by simp)] at h
        rw [show m.coll = none from h.1] at hc
        cases hc
    | true =>
        obtain ⟨c', g, hcoll, hs⟩ := h.served hserving
        rw [show m.coll = some c' from hcoll] at hc
        cases hc
        exact hs.live.get id
  · obtain ⟨l', hopened, h'⟩ := (h.step (e := .open) path hconfig trivial fun k hk => by cases hk).2
    cases hopened
    obtain ⟨c, g, hcoll, hs⟩ := h'.served rfl
    exact ⟨c, hcoll, hs.live.get id⟩

end Machine

end

/-! ## A batch that is cut off -/

section

attribute [local instance] Reference.flat

/-- The number one is the only vector. -/
def Reference.ones : VectorDomain := ⟨1, fun vector => vector = [F32.one]⟩

theorem Reference.doc_sound (n : Nat) (text : String)
    (hfits : (RecordStore.encodeDocument { Reference.doc n 1 with text }).length < 2 ^ 32) :
    Document.Sound ones { Reference.doc n 1 with text } where
  vector := ⟨rfl, rfl⟩
  legible := Reference.legible _ _
  fits := hfits

def Reference.linkedConfig : CollectionConfig :=
  Reference.config (.hnsw 2 2 2 2 F32.one .cosine .auto) .unlimited 1000

/-- All distances are zero. -/
theorem Reference.linked_replayable : linkedConfig.Replayable ones where
  enabled := rfl
  unlimited := rfl
  usable := ⟨by decide, fun n htype => by cases htype⟩
  sorts n := by
    intro a ha
    have hzero : ∀ x, (∃ b, ones.Has b ∧
        (HnswIndex.new (linkedConfig.index.hnswConfig)).distance a b = .ok x) → x = F32.zero := by
      rintro x ⟨b, hb, hx⟩
      have hdistance : (HnswIndex.new (linkedConfig.index.hnswConfig)).distance [F32.one] [F32.one] =
          .ok F32.zero := by decide +kernel
      rw [ha.admits, hb.admits, hdistance] at hx
      exact (Except.ok.inj hx).symm
    have hordered : F32.Ordered fun x => ∃ b, ones.Has b ∧
        (HnswIndex.new (linkedConfig.index.hnswConfig)).distance a b = .ok x := by
      refine ⟨fun _ => 0, fun x y hx hy => ?_⟩
      rw [hzero x hx, hzero y hy]
      decide +kernel
    exact hordered.sorts

/-- A document is inserted, and a process that inserts two more is stopped after three effects. -/
def cutBatch : List Event :=
  [.open, .call (.insert (Reference.doc 0 1)),
    .crashCall (.insertBatch [Reference.doc 1 1, Reference.doc 2 1]) 3]

theorem cut_batch_recovers :
    let m := Machine.fresh.run "c" Reference.linkedConfig cutBatch
    Machine.fresh.AllReturn "c" Reference.linkedConfig cutBatch ∧ ∃ l, Ledger.fresh.Steps cutBatch l ∧
      (m.coll.isSome ↔ l.serving = true) ∧
      (∀ c, m.coll = some c → ∀ id, c.get m.disk id = .ok (l.table.lookup id)) ∧
      ∀ id, (m.step "c" Reference.linkedConfig .open).Reads id (.ok (l.table.lookup id)) := by
  have h0 : (Reference.doc 0 1).Sound Reference.ones := Reference.doc_sound 0 "" (by decide +kernel)
  have h1 : (Reference.doc 1 1).Sound Reference.ones := Reference.doc_sound 1 "" (by decide +kernel)
  have h2 : (Reference.doc 2 1).Sound Reference.ones := Reference.doc_sound 2 "" (by decide +kernel)
  refine Machine.run_recovers "c" Reference.linked_replayable ?_ ?_
  · refine ⟨trivial, fun _ _ => ⟨?_, fun _ _ => ⟨?_, fun _ _ => trivial⟩⟩⟩
    · simpa [Ledger.Storable, Call.writes] using h0
    · simpa [Ledger.Storable, Call.writes] using ⟨h1, h2⟩
  · exact Along.of_forall (fun m e he k hk => by simp [cutBatch, hk] at he) _

end
