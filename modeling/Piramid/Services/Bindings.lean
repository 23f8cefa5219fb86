-- SUMMARY: What the requests make of one document of a collection: which of them touch it, and which leave it in its place, or gone.
import Piramid.Base.Invariant
import Piramid.Services.Server

/-!
# One document of the catalog

A collection has a document under an id, or it has none. What a request may do to that is read off
the request; every other one leaves it as it is, whether it is answered or cut off.
-/

open Device Prog SnapshotLog

namespace Request

/-- The ids of documents that a request asks to be deleted, as text. -/
def deletes : Request → List String
  | .deleteVector _ text => [text]
  | .deleteVectors _ texts => texts
  | _ => []

variable [Floats] [UuidText]

/-- The updates of its table that a request may make. -/
def Makes (w : Surroundings) (r : Request) (u : DocUpdate) : Prop :=
  (∃ doc ∈ r.writes w, u = Catalog.put doc) ∨
    ∃ text ∈ r.deletes, ∃ id, UuidText.parseStr text = some id ∧ u = .del id

/-- The request may change what the collection has under the id. -/
def Touches (w : Surroundings) (name : String) (id : Uuid) (r : Request) : Prop :=
  r.name? = some name ∧ (r = .deleteCollection name ∨ ∃ u, r.Makes w u ∧ u.key = id)

/-- The request asks that nothing be left under the id. -/
def Removes (name : String) (id : Uuid) (r : Request) : Prop :=
  r.name? = some name ∧ (r = .deleteCollection name ∨ ∃ text ∈ r.deletes, UuidText.parseStr text = some id)

/-- The request may store a document there. -/
def Stores (w : Surroundings) (name : String) (id : Uuid) (r : Request) : Prop :=
  r.name? = some name ∧ ∃ doc ∈ r.writes w, doc.id = id

end Request

/-- The request of an event, answered or cut off. -/
def ServerEvent.request? : ServerEvent → Option (Surroundings × Request)
  | .request w r | .crashRequest w r _ => some (w, r)
  | .query _ _ _ | .runTask _ _ | .initiateShutdown | .crashQuery _ _ _ _ | .crashTask _ _ _ => none

/-- The collection has the document under the id. -/
def Tables.Holds (name : String) (id : Uuid) (doc : Document) (ts : Tables) : Prop :=
  ∃ t, ts.lookup name = some t ∧ t.lookup id = some doc

/-! ## What leaves a document in its place -/

namespace Tables.Holds

variable {name : String} {id : Uuid} {doc : Document} {ts : Tables}

theorem mem (h : ts.Holds name id doc) : name ∈ ts := by
  obtain ⟨t, ht, -⟩ := h
  exact Finmap.mem_iff.mpr ⟨t, ht⟩

theorem lookup_table (h : ts.Holds name id doc) : (ts.table name).lookup id = some doc := by
  obtain ⟨t, ht, hdoc⟩ := h
  rw [Tables.table_eq ht]
  exact hdoc

theorem of_lookup_table (h : (ts.table name).lookup id = some doc) : ts.Holds name id doc := by
  cases ht : ts.lookup name with
  | none =>
      rw [Tables.table, ht] at h
      exact absurd h (by simp)
  | some t =>
      rw [Tables.table_eq ht] at h
      exact ⟨t, ht, h⟩

theorem create (h : ts.Holds name id doc) {name' : String} (hne : name' ∉ ts) :
    Tables.Holds name id doc (ts.apply (.create name')) := by
  obtain ⟨t, ht, hdoc⟩ := h
  refine ⟨t, ?_, hdoc⟩
  refine (Finmap.lookup_insert_of_ne _ fun heq => hne ?_).trans ht
  rw [← heq]
  exact Finmap.mem_iff.mpr ⟨t, ht⟩

theorem update (h : ts.Holds name id doc) {name' : String} {u : DocUpdate}
    (hu : name' = name → u.key ≠ id) : Tables.Holds name id doc (ts.apply (.update name' u)) := by
  have hdoc := h.lookup_table
  obtain ⟨t, ht, -⟩ := h
  by_cases heq : name' = name
  · subst heq
    refine ⟨(ts.table name').update u, Finmap.lookup_insert _, ?_⟩
    have hkey := hu rfl
    cases u with
    | put id' doc' =>
        rw [Table.update, HashMap.lookup_insert, if_neg fun heq => hkey heq.symm]
        exact hdoc
    | del id' =>
        rw [Table.update, HashMap.lookup_erase, if_neg fun heq => hkey heq.symm]
        exact hdoc
  · exact ⟨t, (Finmap.lookup_insert_of_ne _ fun h => heq h.symm).trans ht, Tables.table_eq ht ▸ hdoc⟩

theorem drop (h : ts.Holds name id doc) {name' : String} (hne : name' ≠ name) :
    Tables.Holds name id doc (ts.apply (.drop name')) := by
  obtain ⟨t, ht, hdoc⟩ := h
  exact ⟨t, (Finmap.lookup_erase_ne fun heq => hne heq.symm).trans ht, hdoc⟩

end Tables.Holds

/-- The collection, if there is one, has nothing under the id. -/
def Tables.Lacks (name : String) (id : Uuid) (ts : Tables) : Prop :=
  ∀ t, ts.lookup name = some t → t.lookup id = none

namespace Tables.Lacks

variable {name : String} {id : Uuid} {ts : Tables}

theorem lookup_table (h : ts.Lacks name id) : (ts.table name).lookup id = none := by
  cases ht : ts.lookup name with
  | none =>
      rw [Tables.table, ht]
      exact Finmap.lookup_empty id
  | some t =>
      rw [Tables.table_eq ht]
      exact h t ht

theorem create (h : ts.Lacks name id) (name' : String) : Tables.Lacks name id (ts.apply (.create name')) := by
  intro t ht
  change Finmap.lookup name (Finmap.insert name' ∅ ts) = some t at ht
  rw [HashMap.lookup_insert] at ht
  split at ht
  · cases ht
    exact Finmap.lookup_empty id
  · exact h t ht

theorem update (h : ts.Lacks name id) {name' : String} {u : DocUpdate}
    (hu : name' = name → ∀ doc, u ≠ .put id doc) : Tables.Lacks name id (ts.apply (.update name' u)) := by
  intro t ht
  change Finmap.lookup name (Finmap.insert name' ((ts.table name').update u) ts) = some t at ht
  rw [HashMap.lookup_insert] at ht
  split at ht
  · rename_i heq
    subst heq
    cases ht
    cases u with
    | put id' doc' =>
        have hne : id ≠ id' := fun heq => hu rfl doc' (by rw [heq])
        rw [Table.update, HashMap.lookup_insert, if_neg hne]
        exact h.lookup_table
    | del id' =>
        rw [Table.update, HashMap.lookup_erase]
        split
        · rfl
        · exact h.lookup_table
  · exact h t ht

theorem drop (h : ts.Lacks name id) (name' : String) : Tables.Lacks name id (ts.apply (.drop name')) := by
  intro t ht
  change Finmap.lookup name (Finmap.erase name' ts) = some t at ht
  rw [HashMap.lookup_erase] at ht
  split at ht
  · cases ht
  · exact h t ht

end Tables.Lacks

/-! ## Steps of the catalog -/

namespace Catalog

section

variable {I : Tables → Prop} {config : ServerConfig} {w : Surroundings} {name : String}

theorem keeps_getOrCreate (h : ∀ ts, name ∉ ts → I ts → I (ts.apply (.create name))) :
    Keeps I (getOrCreate name) := by
  refine .bind keeps_ensureAvailable fun _ => fun cs ts hts => ?_
  refine wp_bind.mpr (wp_device.mpr ?_)
  by_cases hmem : name ∈ ts
  · rw [if_pos hmem]
    exact wp_bind.mpr (wp_emitAll.mpr ⟨trivial, wp_modify.mpr hts⟩)
  · rw [if_neg hmem]
    have hcreated := h ts hmem hts
    exact wp_bind.mpr (wp_emitAll.mpr ⟨⟨hcreated, trivial⟩, wp_modify.mpr hcreated⟩)

theorem keeps_carryOut {us : List DocUpdate} (h : ∀ u ∈ us, ∀ ts, I ts → I (ts.apply (.update name u))) :
    Keeps I (carryOut name us) := by
  refine .emitAll fun e he ts hts => ?_
  obtain ⟨u, hu, rfl⟩ := List.mem_map.mp he
  exact h u hu ts hts

end

section

variable [UuidText]

theorem parsed_id {text : String} {id : Uuid} (h : Service.parseId text = .ok id) :
    UuidText.parseStr text = some id := by
  rw [Service.parseId] at h
  cases htext : UuidText.parseStr text with
  | none =>
      rw [htext] at h
      cases h
  | some id' =>
      rw [htext] at h
      exact congrArg some (Except.ok.inj h)

theorem parseId_of {text : String} {id : Uuid} (h : UuidText.parseStr text = some id) :
    Service.parseId text = .ok id := by
  rw [Service.parseId, h]
  rfl

/-- Exactly the ids of a request are parsed. -/
theorem mem_parsed {texts : List String} {ids : List Uuid} (h : Service.parseIds texts = .ok ids)
    {id : Uuid} : id ∈ ids ↔ ∃ text ∈ texts, UuidText.parseStr text = some id := by
  induction texts generalizing ids with
  | nil =>
      cases h
      simp
  | cons text texts ih =>
      rw [Service.parseIds, List.mapM_cons] at h
      cases htext : UuidText.parseStr text with
      | none =>
          rw [htext] at h
          cases h
      | some id' =>
          rw [htext] at h
          cases hrest : Service.parseIds texts with
          | error e =>
              rw [Service.parseIds] at hrest
              rw [hrest] at h
              cases h
          | ok ids' =>
              have hids := ih hrest
              rw [Service.parseIds] at hrest
              rw [hrest] at h
              cases h
              simp [hids, htext, eq_comm]

end

/-- What the creation of a table, the updates of a request and the drop of a table keep, the answer to
the request keeps. -/
theorem answer_keeps [Env] [UnicodeTables] [UuidText] {I : Tables → Prop} {config : ServerConfig}
    {w : Surroundings} {r : Request}
    (hcreate : ∀ name, r.name? = some name → ∀ ts, name ∉ ts → I ts → I (ts.apply (.create name)))
    (hupdate : ∀ name, r.name? = some name → ∀ u, r.Makes w u → ∀ ts, I ts → I (ts.apply (.update name u)))
    (hdrop : ∀ name, r = .deleteCollection name → ∀ ts, I ts → I (ts.apply (.drop name))) :
    Keeps I (r.answer config w) := by
  cases r with
  | listCollections =>
      refine .bind keeps_ensureAvailable fun _ => ?_
      refine .bind (.asks _) fun _ => ?_
      exact .bind .device fun _ => .pure _
  | createCollection name =>
      refine .bind keeps_ensureAvailable fun _ => ?_
      refine .bind (.ofExcept _) fun _ => ?_
      refine .bind (keeps_getOrCreate (hcreate name rfl)) fun _ => ?_
      exact .bind keeps_table fun _ => .pure _
  | getCollection name | collectionCount name =>
      refine .bind keeps_ensureAvailable fun _ => ?_
      refine .bind keeps_getExisting fun _ => ?_
      exact .bind keeps_table fun _ => .pure _
  | deleteCollection name =>
      refine .bind keeps_ensureAvailable fun _ => ?_
      refine .bind (.asks _) fun loaded => ?_
      refine .bind (.modify _) fun _ => ?_
      refine .bind (.emitAll fun e he ts hts => ?_) fun _ => .pure _
      split at he
      · rw [List.mem_singleton.mp he]
        exact hdrop name rfl ts hts
      · cases he
  | compactCollection name =>
      exact .bind keeps_ensureAvailable fun _ => .bind keeps_getExisting fun _ => .pure _
  | rebuildIndex name =>
      refine .bind keeps_ensureAvailable fun _ => ?_
      refine .bind keeps_getExisting fun _ => ?_
      exact .bind (.modify _) fun _ => .pure _
  | rebuildIndexStatus name =>
      refine .bind keeps_ensureAvailable fun _ => .bind (.asks _) fun st => ?_
      cases st.rebuildJobs.lookup name with
      | none => exact .fault _
      | some job => exact .pure _
  | insertVector name req =>
      refine .bind keeps_ensureAvailable fun _ => ?_
      refine .bind keeps_ensureWriteAllowed fun _ => ?_
      refine .bind (.ofExcept _) fun _ => ?_
      refine .bind (keeps_getOrCreate (hcreate name rfl)) fun _ => ?_
      simp only [Request.Makes, Request.writes] at hupdate
      cases hvector : req.vector with
      | none =>
          cases hvectors : req.vectors with
          | none => exact .fault _
          | some vectors =>
              refine .check fun docs hbuilt => .bind (keeps_carryOut fun u hu => ?_) fun _ => .pure _
              obtain ⟨doc, hdoc, rfl⟩ := List.mem_map.mp hu
              simp only [hvector, hvectors, hbuilt] at hupdate
              exact hupdate name rfl _ (.inl ⟨doc, hdoc, rfl⟩)
      | some vector =>
          cases hvectors : req.vectors with
          | some vectors => exact .fault _
          | none =>
              refine .check fun doc hbuilt => .bind (keeps_carryOut fun u hu => ?_) fun _ => .pure _
              rw [List.mem_singleton.mp hu]
              simp only [hvector, hvectors, hbuilt] at hupdate
              exact hupdate name rfl _ (.inl ⟨doc, List.mem_singleton_self doc, rfl⟩)
  | getVector name text =>
      refine .bind keeps_ensureAvailable fun _ => ?_
      refine .bind keeps_getExisting fun _ => ?_
      refine .bind (.ofExcept _) fun uuid => ?_
      refine .bind keeps_table fun t => ?_
      cases t.lookup uuid with
      | none => exact .fault _
      | some entry => exact .bind (.ofExcept _) fun _ => .pure _
  | listVectors name params =>
      refine .bind keeps_ensureAvailable fun _ => ?_
      refine .bind keeps_getExisting fun _ => ?_
      refine .bind keeps_table fun _ => ?_
      exact .bind (.ofExcept _) fun _ => .pure _
  | deleteVector name text =>
      refine .bind keeps_ensureAvailable fun _ => .bind keeps_ensureWriteAllowed fun _ =>
        .bind keeps_getExisting fun _ => .check fun uuid hparse => .bind keeps_table fun _ =>
        .bind (keeps_carryOut fun u hu => ?_) fun _ => .pure _
      rw [List.mem_singleton.mp hu]
      refine hupdate name rfl _ (.inr ⟨text, List.mem_singleton_self text, uuid, ?_, rfl⟩)
      exact parsed_id hparse
  | deleteVectors name texts =>
      refine .bind keeps_ensureAvailable fun _ => .bind keeps_ensureWriteAllowed fun _ =>
        .bind (.ofExcept _) fun _ => .bind (.ofExcept _) fun _ => .bind keeps_getExisting fun _ =>
        .check fun uuids hparse => .bind keeps_table fun _ => .bind (keeps_carryOut fun u hu => ?_)
        fun _ => .pure _
      obtain ⟨id, hid, rfl⟩ := List.mem_map.mp hu
      obtain ⟨text, htext, htextid⟩ := (mem_parsed hparse).mp (List.mem_of_mem_filter hid)
      exact hupdate name rfl _ (.inr ⟨text, htext, id, htextid, rfl⟩)
  | upsertVector name req =>
      refine .bind keeps_ensureAvailable fun _ => .bind keeps_ensureWriteAllowed fun _ =>
        .bind (.ofExcept _) fun _ => .bind (.ofExcept _) fun _ => .bind (.ofExcept _) fun _ =>
        .bind (keeps_getOrCreate (hcreate name rfl)) fun _ => .check fun id hid => .bind keeps_table fun _ =>
        .bind (keeps_carryOut fun u hu => ?_) fun _ => .pure _
      rw [List.mem_singleton.mp hu]
      simp only [Request.Makes, Request.writes, hid] at hupdate
      exact hupdate name rfl _ (.inl ⟨_, List.mem_singleton_self _, rfl⟩)
  | embedText name req =>
      refine .bind keeps_ensureAvailable fun _ => ?_
      refine .bind keeps_ensureWriteAllowed fun _ => ?_
      refine .bind (keeps_getOrCreate (hcreate name rfl)) fun _ => .check fun embed hembed => ?_
      simp only [Request.Makes, Request.writes, hembed] at hupdate
      cases htext : req.text with
      | none =>
          cases htexts : req.texts with
          | none => exact .fault _
          | some texts =>
              refine .ite (.fault _) (.check fun responses hresponses =>
                .bind (keeps_carryOut fun u hu => ?_) fun _ => .pure _)
              obtain ⟨doc, hdoc, rfl⟩ := List.mem_map.mp hu
              simp only [htext, htexts, hresponses] at hupdate
              exact hupdate name rfl _ (.inl ⟨doc, hdoc, rfl⟩)
      | some text =>
          cases htexts : req.texts with
          | some texts => exact .fault _
          | none =>
              refine .check fun response hresponse => .bind (keeps_carryOut fun u hu => ?_) fun _ => .pure _
              rw [List.mem_singleton.mp hu]
              simp only [htext, htexts, hresponse] at hupdate
              exact hupdate name rfl _ (.inl ⟨_, List.mem_singleton_self _, rfl⟩)

end Catalog

/-- What the answers to requests keep, the events keep. -/
theorem CatalogServer.Step.keeps [Env] [UnicodeTables] [UuidText] {I : Tables → Prop} {config : ServerConfig}
    {a b : CatalogServer} {e : ServerEvent} (h : CatalogServer.Step config a e b)
    (he : ∀ w r, e.request? = some (w, r) → Keeps I (r.answer config w)) (ha : I a.tables) :
    I b.tables := by
  cases h with
  | request => exact (he _ _ rfl).final ha
  | queried hreply => exact ha
  | ran htask => exact ha
  | noTask htask => exact ha
  | shutdown => exact ha
  | requestStopped j => exact (he _ _ rfl).crash ha j
  | queryStopped => exact ha
  | taskStopped => exact ha

/-- A request that does not touch a document leaves it in its place. -/
theorem Catalog.answer_holds [Env] [UnicodeTables] [UuidText] {config : ServerConfig} {w : Surroundings}
    {name : String} {id : Uuid} {doc : Document} {r : Request} (h : ¬r.Touches w name id) :
    Keeps (Tables.Holds name id doc) (r.answer config w) := by
  refine answer_keeps (fun name' _ ts hne hts => hts.create hne) (fun name' hname' u hu ts hts => ?_)
    fun name' hr ts hts => ?_
  · exact hts.update fun heq hkey => h ⟨heq ▸ hname', .inr ⟨u, hu, hkey⟩⟩
  · exact hts.drop fun heq => h ⟨by rw [hr, heq]; rfl, .inl (by rw [hr, heq])⟩

/-- A request that stores nothing under an id brings nothing back. -/
theorem Catalog.answer_lacks [Env] [UnicodeTables] [UuidText] {config : ServerConfig} {w : Surroundings}
    {name : String} {id : Uuid} {r : Request} (h : ¬r.Stores w name id) :
    Keeps (Tables.Lacks name id) (r.answer config w) := by
  refine answer_keeps (fun name' _ ts _ hts => hts.create name') (fun name' hname' u hu ts hts => ?_)
    fun name' _ ts hts => hts.drop name'
  refine hts.update fun heq doc hput => h ⟨heq ▸ hname', ?_⟩
  rcases hu with ⟨doc', hdoc', rfl⟩ | ⟨text, -, id', -, rfl⟩
  · exact ⟨doc', hdoc', congrArg Update.key hput⟩
  · cases hput

/-! ## What a request stores -/

/-- The document that a request leaves under an id: the last one that it writes. -/
def Request.written [Floats] [UuidText] (w : Surroundings) (r : Request) (id : Uuid) : Option Document :=
  (r.writes w).reverse.find? fun doc => doc.id = id

theorem replay_puts {docs : List Document} {id : Uuid} {doc : Document}
    (h : docs.reverse.find? (fun doc => doc.id = id) = some doc) (m : DocMap) :
    replay (docs.map Catalog.put) m id = some doc := by
  induction docs using List.reverseRecOn with
  | nil => cases h
  | append_singleton docs last ih =>
      rw [List.reverse_append, List.reverse_singleton, List.singleton_append, List.find?_cons] at h
      have hkey : (Catalog.put last).key = last.id := rfl
      rw [List.map_append, replay_append, List.map_singleton, replay_cons, replay_nil, Update.apply, hkey]
      by_cases hid : last.id = id
      · simp only [hid, decide_true, Option.some.injEq] at h
        subst h
        rw [if_pos hid.symm]
        rfl
      · simp only [hid, decide_false] at h
        rw [if_neg (Ne.symm hid)]
        exact ih h

namespace Catalog

variable {name : String} {cs : CatalogState} {ts : Tables} {R : Fault → CatalogState → Tables → Prop}
  {Q : Unit → CatalogState → Tables → Prop}

theorem wp_getOrCreate (hR : ∀ e cs ts, R e cs ts) (hQ : ∀ cs ts, name ∈ ts → Q () cs ts) :
    wp (getOrCreate name) (fun _ => True) Q R cs ts := by
  refine wp_bind.mpr (Keeps.wp_still (fun _ => keeps_ensureAvailable) trivial (fun _ cs => ?_) fun _ _ => hR _ _ _)
  refine wp_bind.mpr (wp_device.mpr (wp_bind.mpr (wp_emitAll.mpr ⟨.of_forall (fun _ => trivial) _ _, ?_⟩)))
  refine wp_modify.mpr (hQ _ _ ?_)
  by_cases hmem : name ∈ ts
  · rw [if_pos hmem]
    exact hmem
  · rw [if_neg hmem]
    exact Finmap.mem_iff.mpr ⟨∅, Finmap.lookup_insert _⟩

/-- Documents that are put into a table that exists are there. -/
theorem wp_putAll (docs : List Document) {id : Uuid} {doc : Document} (hmem : name ∈ ts)
    (hdoc : docs.reverse.find? (fun doc => doc.id = id) = some doc)
    (hQ : ∀ ts', ts'.Holds name id doc → Q () cs ts') :
    wp (carryOut name (docs.map put)) (fun _ => True) Q R cs ts := by
  refine wp_emitAll.mpr ⟨.of_forall (fun _ => trivial) _ _,
    hQ _ ⟨(ts.table name).updateAll (docs.map put), ?_, ?_⟩⟩
  · rw [Tables.lookup_updates hmem, if_pos rfl]
  · exact (congrFun (Table.lookup_updateAll _ _) id).trans (replay_puts hdoc _)

/-- A request that is answered has stored what it writes. -/
theorem answer_stores [Env] [UnicodeTables] [UuidText] {config : ServerConfig} {w : Surroundings}
    {r : Request} {id : Uuid} {doc : Document} (hname : r.name? = some name)
    (hdoc : r.written w id = some doc) :
    wp (r.answer config w) (fun _ => True) (fun _ _ ts => ts.Holds name id doc) (fun _ _ _ => True) cs ts := by
  cases r with
  | insertVector name' req =>
      cases hname
      refine wp_bind.mpr (Keeps.wp_still (fun _ => keeps_ensureAvailable) trivial (fun _ cs => ?_)
        fun _ _ => trivial)
      refine wp_bind.mpr (Keeps.wp_still (fun _ => keeps_ensureWriteAllowed) trivial (fun _ cs => ?_)
        fun _ _ => trivial)
      refine wp_bind.mpr (wp_ofExcept.mpr ⟨fun _ _ => ?_, fun _ _ => trivial⟩)
      refine wp_bind.mpr (wp_getOrCreate (fun _ _ _ => trivial) fun cs ts hmem => ?_)
      simp only [Request.written, Request.writes] at hdoc
      cases hvector : req.vector with
      | none =>
          cases hvectors : req.vectors with
          | none => exact wp_fault.mpr trivial
          | some vectors =>
              refine wp_bind.mpr (wp_ofExcept.mpr ⟨fun docs hbuilt => ?_, fun _ _ => trivial⟩)
              simp only [hvector, hvectors, hbuilt] at hdoc
              exact wp_bind.mpr (wp_putAll docs hmem hdoc fun ts' h => wp_pure.mpr h)
      | some vector =>
          cases hvectors : req.vectors with
          | some vectors => exact wp_fault.mpr trivial
          | none =>
              refine wp_bind.mpr (wp_ofExcept.mpr ⟨fun doc' hbuilt => ?_, fun _ _ => trivial⟩)
              simp only [hvector, hvectors, hbuilt] at hdoc
              exact wp_bind.mpr (wp_putAll [doc'] hmem hdoc fun ts' h => wp_pure.mpr h)
  | upsertVector name' req =>
      cases hname
      refine wp_bind.mpr (Keeps.wp_still (fun _ => keeps_ensureAvailable) trivial (fun _ cs => ?_)
        fun _ _ => trivial)
      refine wp_bind.mpr (Keeps.wp_still (fun _ => keeps_ensureWriteAllowed) trivial (fun _ cs => ?_)
        fun _ _ => trivial)
      refine wp_bind.mpr (wp_ofExcept.mpr ⟨fun _ _ => ?_, fun _ _ => trivial⟩)
      refine wp_bind.mpr (wp_ofExcept.mpr ⟨fun _ _ => ?_, fun _ _ => trivial⟩)
      refine wp_bind.mpr (wp_ofExcept.mpr ⟨fun _ _ => ?_, fun _ _ => trivial⟩)
      refine wp_bind.mpr (wp_getOrCreate (fun _ _ _ => trivial) fun cs ts hmem => ?_)
      refine wp_bind.mpr (wp_ofExcept.mpr ⟨fun id' hid' => ?_, fun _ _ => trivial⟩)
      refine wp_bind.mpr (Keeps.wp_still (fun _ => keeps_table) trivial (fun _ cs => ?_) fun _ _ => trivial)
      simp only [Request.written, Request.writes, hid'] at hdoc
      exact wp_bind.mpr (wp_putAll [Service.upsertEntry w req id'] hmem hdoc fun ts' h =>
        wp_pure.mpr h)
  | embedText name' req =>
      cases hname
      refine wp_bind.mpr (Keeps.wp_still (fun _ => keeps_ensureAvailable) trivial (fun _ cs => ?_)
        fun _ _ => trivial)
      refine wp_bind.mpr (Keeps.wp_still (fun _ => keeps_ensureWriteAllowed) trivial (fun _ cs => ?_)
        fun _ _ => trivial)
      refine wp_bind.mpr (wp_getOrCreate (fun _ _ _ => trivial) fun cs ts hmem => ?_)
      refine wp_bind.mpr (wp_ofExcept.mpr ⟨fun embed hembed => ?_, fun _ _ => trivial⟩)
      simp only [Request.written, Request.writes, hembed] at hdoc
      cases htext : req.text with
      | none =>
          cases htexts : req.texts with
          | none => exact wp_fault.mpr trivial
          | some texts =>
              refine wp_ite.mpr ⟨fun _ => wp_fault.mpr trivial, fun _ => ?_⟩
              refine wp_bind.mpr (wp_ofExcept.mpr ⟨fun responses hresponses => ?_, fun _ _ => trivial⟩)
              simp only [htext, htexts, hresponses] at hdoc
              exact wp_bind.mpr (wp_putAll _ hmem hdoc fun ts' h => wp_pure.mpr h)
      | some text =>
          cases htexts : req.texts with
          | some texts => exact wp_fault.mpr trivial
          | none =>
              refine wp_bind.mpr (wp_ofExcept.mpr ⟨fun response hresponse => ?_, fun _ _ => trivial⟩)
              simp only [htext, htexts, hresponse] at hdoc
              exact wp_bind.mpr (wp_putAll [_] hmem hdoc fun ts' h => wp_pure.mpr h)
  | listCollections | createCollection _ | getCollection _ | collectionCount _ | deleteCollection _
  | compactCollection _ | rebuildIndex _ | rebuildIndexStatus _ | getVector _ _ | listVectors _ _
  | deleteVector _ _ | deleteVectors _ _ => cases hdoc

/-- Deletions that are carried out leave nothing under their ids. -/
theorem wp_deleteAll {us : List DocUpdate} {id : Uuid} (hmem : name ∈ ts)
    (hus : replay us (ts.table name).lookup id = none) (hQ : ∀ ts', ts'.Lacks name id → Q () cs ts') :
    wp (carryOut name us) (fun _ => True) Q R cs ts := by
  refine wp_emitAll.mpr ⟨.of_forall (fun _ => trivial) _ _, hQ _ fun t ht => ?_⟩
  rw [Tables.lookup_updates hmem, if_pos rfl] at ht
  cases ht
  exact (congrFun (Table.lookup_updateAll _ _) id).trans hus

theorem wp_getExisting (hR : ∀ e cs ts, R e cs ts) (hQ : ∀ cs, name ∈ ts → Q () cs ts) :
    wp (getExisting name) (fun _ => True) Q R cs ts := by
  refine wp_bind.mpr (Keeps.wp_still (fun _ => keeps_ensureAvailable) trivial (fun _ cs => ?_)
    fun _ _ => hR _ _ _)
  refine wp_bind.mpr (wp_device.mpr ?_)
  by_cases hmem : name ∈ ts
  · rw [if_pos hmem]
    exact wp_modify.mpr (hQ _ hmem)
  · rw [if_neg hmem]
    exact wp_fault.mpr (hR _ _ _)

/-- A deletion that is answered has been carried out. Only a collection that is loaded is deleted. -/
theorem answer_removes [Env] [UnicodeTables] [UuidText] {config : ServerConfig} {w : Surroundings}
    {r : Request} {id : Uuid} (hr : r.Removes name id) :
    wp (r.answer config w) (fun _ => True)
      (fun response _ ts => (r = .deleteCollection name → response = .deleted true) → ts.Lacks name id)
      (fun _ _ _ => True) cs ts := by
  obtain ⟨hname, hr⟩ := hr
  cases r with
  | deleteCollection name' =>
      cases hname
      refine wp_bind.mpr (Keeps.wp_still (fun _ => keeps_ensureAvailable) trivial (fun _ cs => ?_)
        fun _ _ => trivial)
      refine wp_bind.mpr (wp_asks.mpr (wp_bind.mpr (wp_modify.mpr (wp_bind.mpr (wp_emitAll.mpr ?_)))))
      refine ⟨.of_forall (fun _ => trivial) _ _, wp_pure.mpr fun hdeleted => ?_⟩
      have hloaded := hdeleted rfl
      by_cases hmem : name ∈ cs.loaded
      · rw [if_pos hmem]
        intro t ht
        have hdropped : Finmap.lookup name (ts.apply (.drop name)) = none := Finmap.lookup_erase name ts
        cases hdropped.symm.trans ht
      · simp [hmem] at hloaded
  | deleteVector name' text =>
      cases hname
      obtain hr | ⟨text', htext', hparse⟩ := hr
      · cases hr
      · rw [List.mem_singleton.mp htext'] at hparse
        refine wp_bind.mpr (Keeps.wp_still (fun _ => keeps_ensureAvailable) trivial (fun _ cs => ?_)
          fun _ _ => trivial)
        refine wp_bind.mpr (Keeps.wp_still (fun _ => keeps_ensureWriteAllowed) trivial (fun _ cs => ?_)
          fun _ _ => trivial)
        refine wp_bind.mpr (wp_getExisting (fun _ _ _ => trivial) fun cs hmem => ?_)
        refine wp_bind.mpr (wp_ofExcept.mpr ⟨fun uuid huuid => ?_, fun _ _ => trivial⟩)
        refine wp_bind.mpr (Keeps.wp_still (fun _ => keeps_table) trivial (fun _ cs => ?_) fun _ _ => trivial)
        refine wp_bind.mpr (wp_deleteAll hmem ?_ fun ts' h => wp_pure.mpr fun _ => h)
        obtain rfl := Option.some.inj (hparse.symm.trans (parsed_id huuid))
        exact (replay_del [id] _ id).trans (if_pos (List.mem_singleton_self id))
  | deleteVectors name' texts =>
      cases hname
      obtain hr | ⟨text, htext, hparse⟩ := hr
      · cases hr
      · refine wp_bind.mpr (Keeps.wp_still (fun _ => keeps_ensureAvailable) trivial (fun _ cs => ?_)
          fun _ _ => trivial)
        refine wp_bind.mpr (Keeps.wp_still (fun _ => keeps_ensureWriteAllowed) trivial (fun _ cs => ?_)
          fun _ _ => trivial)
        refine wp_bind.mpr (wp_ofExcept.mpr ⟨fun _ _ => ?_, fun _ _ => trivial⟩)
        refine wp_bind.mpr (wp_ofExcept.mpr ⟨fun _ _ => ?_, fun _ _ => trivial⟩)
        refine wp_bind.mpr (wp_getExisting (fun _ _ _ => trivial) fun cs hmem => ?_)
        refine wp_bind.mpr (wp_ofExcept.mpr ⟨fun uuids huuids => ?_, fun _ _ => trivial⟩)
        refine wp_bind.mpr (wp_bind.mpr (wp_device.mpr (wp_pure.mpr ?_)))
        refine wp_bind.mpr (wp_deleteAll hmem ?_ fun ts' h => wp_pure.mpr fun _ => h)
        rw [replay_dels, replay_del, if_pos ((mem_parsed huuids).mpr ⟨text, htext, hparse⟩)]
  | listCollections | createCollection _ | getCollection _ | collectionCount _ | compactCollection _
  | rebuildIndex _ | rebuildIndexStatus _ | insertVector _ _ | getVector _ _ | listVectors _ _
  | upsertVector _ _ | embedText _ _ =>
      obtain hr | ⟨text, htext, -⟩ := hr
      · cases hr
      · cases htext

theorem wp_ensureAvailable {C : Tables → Prop} (hdown : cs.shuttingDown = true → R .shuttingDown cs ts)
    (hup : cs.shuttingDown = false → Q () cs ts) : wp ensureAvailable C Q R cs ts := by
  refine wp_bind.mpr (wp_asks.mpr ?_)
  cases hcs : cs.shuttingDown with
  | true => exact wp_fault.mpr (hdown hcs)
  | false => exact wp_pure.mpr (hup hcs)

/-- What is there is what is answered, unless the server is shutting down. -/
theorem wp_getVector (cs : CatalogState) [Env] [UuidText] {w : Surroundings} {text : String} {id : Uuid}
    {doc : Document} (h : ts.Holds name id doc) (htext : UuidText.parseStr text = some id) :
    wp (getVector w name text) (fun _ => True)
      (fun response _ _ => cs.shuttingDown = false ∧ response =
        .vector ⟨doc.id.display, doc.vector, doc.text, metadataToJson w.fields doc.metadata⟩)
      (fun e _ _ => cs.shuttingDown = true ∧ e = .shuttingDown) cs ts := by
  refine wp_bind.mpr (wp_ensureAvailable (fun hdown => ⟨hdown, rfl⟩) fun hup => ?_)
  refine wp_bind.mpr (wp_bind.mpr (wp_ensureAvailable (fun hdown => ⟨hdown, rfl⟩) fun _ => ?_))
  refine wp_bind.mpr (wp_device.mpr ?_)
  rw [if_pos h.mem]
  refine wp_modify.mpr (wp_bind.mpr ?_)
  rw [parseId_of htext]
  refine wp_ofExcept.mpr ⟨fun id' hid' => ?_, fun e he => by cases he⟩
  cases hid'
  refine wp_bind.mpr (wp_bind.mpr (wp_device.mpr (wp_pure.mpr ?_)))
  rw [h.lookup_table]
  have hvector : Service.vectorResponse w doc =
      .ok ⟨doc.id.display, doc.vector, doc.text, metadataToJson w.fields doc.metadata⟩ := rfl
  refine wp_bind.mpr ?_
  rw [hvector]
  refine wp_ofExcept.mpr ⟨fun vector heq => ?_, fun e he => by cases he⟩
  obtain rfl := Except.ok.inj heq
  exact wp_pure.mpr ⟨hup, rfl⟩

/-- What is not there is not found, unless the server is shutting down. -/
theorem wp_getVector_lacks (cs : CatalogState) [Env] [UuidText] {w : Surroundings} {text : String} {id : Uuid}
    (h : ts.Lacks name id) (htext : UuidText.parseStr text = some id) :
    wp (getVector w name text) (fun _ => True) (fun _ _ _ => False)
      (fun e _ _ => e = if cs.shuttingDown then .shuttingDown
        else .notFound (if name ∈ ts then VECTOR_NOT_FOUND else "Collection not found")) cs ts := by
  refine wp_bind.mpr (wp_ensureAvailable (fun hdown => by rw [hdown]; rfl) fun hup => ?_)
  refine wp_bind.mpr (wp_bind.mpr (wp_ensureAvailable (fun hdown => by rw [hdown]; rfl) fun _ => ?_))
  refine wp_bind.mpr (wp_device.mpr ?_)
  rw [hup]
  by_cases hmem : name ∈ ts
  · simp only [hmem, if_true]
    refine wp_modify.mpr (wp_bind.mpr ?_)
    rw [parseId_of htext]
    refine wp_ofExcept.mpr ⟨fun id' hid' => ?_, fun e he => by cases he⟩
    cases hid'
    refine wp_bind.mpr (wp_bind.mpr (wp_device.mpr (wp_pure.mpr ?_)))
    rw [h.lookup_table]
    exact wp_fault.mpr rfl
  · simp only [hmem, if_false]
    exact wp_fault.mpr rfl

end Catalog
