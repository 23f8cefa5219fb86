-- SUMMARY: When the server stands where the catalog does, and what opening and operating on one collection make of it.
import Piramid.Collections.Presence
import Piramid.Services.Catalog

/-!
# Server and catalog

The catalog has a table for each collection whose data file exists, and the files stand for the
table; a loaded collection also holds it in memory. Each step of a service is matched by a step of
the catalog.
-/

open Device Prog SnapshotLog

section

variable [Env]

/-- The logs of the collections can be replayed, and no budget of the caches is in force. -/
structure ServerConfig.Serviceable (config : ServerConfig) (doms : String → VectorDomain) : Prop where
  replayable : ∀ name, config.collection.Replayable (doms name)
  unbudgeted : config.collection.cache.enabled = false ∨ config.collection.cache.maxBytes = none

theorem ServerConfig.Serviceable.no_budget {config : ServerConfig} {doms : String → VectorDomain}
    (h : config.Serviceable doms) :
    ¬(config.collection.cache.enabled = true ∧ config.collection.cache.maxBytes.isSome) := by
  rintro ⟨henabled, hbytes⟩
  cases h.unbudgeted with
  | inl hdisabled => simp [hdisabled] at henabled
  | inr hnone => simp [hnone] at hbytes

/-- The files of a collection stand for its table, and are there if there is one. -/
structure Kept (dom : VectorDomain) (t : Option Table) (d : Disk) : Prop where
  recoverable : Recoverable dom (t.getD ∅).lookup d
  created : d.Created ↔ t.isSome

/-- The files of all collections, each with vectors of its own domain. -/
def KeptAll (doms : String → VectorDomain) (disks : Family String Disk) (ts : Tables) : Prop :=
  ∀ name, Kept (doms name) (ts.lookup name) (disks name)

/-- A collection that is loaded holds the table that its files stand for. -/
structure Open (config : ServerConfig) (dom : VectorDomain) (c : Collection) (t : Option Table) (d : Disk) : Prop where
  serving : ∃ g, Serving config.collection dom c d g (t.getD ∅).lookup (t.getD ∅).lookup
  created : d.Created
  present : t.isSome

/-- The server stands where the catalog does. -/
structure Stands (config : ServerConfig) (doms : String → VectorDomain) (st : AppState) (disks : Family String Disk)
    (cs : CatalogState) (ts : Tables) : Prop where
  shuttingDown : st.shuttingDown = cs.shuttingDown
  readOnly : st.readOnly = cs.readOnly
  rebuildJobs : st.rebuildJobs = cs.rebuildJobs
  tasks : st.tasks.map (fun task => (task.collection, task.startedAt)) = cs.tasks
  loaded : ∀ name, (st.collections.lookup name).isSome ↔ name ∈ cs.loaded
  opened : ∀ name handle, st.collections.lookup name = some handle →
    ∃ c, st.heap.lookup handle = some c ∧ Open config (doms name) c (ts.lookup name) (disks name)
  closed : ∀ name, st.collections.lookup name = none → Kept (doms name) (ts.lookup name) (disks name)
  own : ∀ name name' handle, st.collections.lookup name = some handle →
    st.collections.lookup name' = some handle → name = name'
  old : ∀ name handle, st.collections.lookup name = some handle → handle < st.nextHandle
  held : ∀ task ∈ st.tasks, st.collections.lookup task.collection = some task.handle

/-- The same, and `handle` is that of `name`. -/
structure Found (config : ServerConfig) (doms : String → VectorDomain) (name : String) (handle : CollectionHandle)
    (st : AppState) (disks : Family String Disk) (cs : CatalogState) (ts : Tables) : Prop where
  stands : Stands config doms st disks cs ts
  found : st.collections.lookup name = some handle

/-- The server faults as the catalog does, and stands where it does. -/
def Refused (config : ServerConfig) (doms : String → VectorDomain) (e : Fault) (st : AppState)
    (disks : Family String Disk) (e' : Fault) (cs : CatalogState) (ts : Tables) : Prop :=
  e = e' ∧ Stands config doms st disks cs ts

variable {config : ServerConfig} {doms : String → VectorDomain} {name : String} {handle : CollectionHandle}
  {st : AppState} {disks : Family String Disk} {cs : CatalogState} {ts : Tables} {dom : VectorDomain}
  {c : Collection} {t : Option Table} {d : Disk}

theorem Open.kept (h : Open config dom c t d) : Kept dom t d := by
  obtain ⟨g, hserving⟩ := h.serving
  exact ⟨hserving.recoverable, by simp [h.created, h.present]⟩

/-- The files of a collection stand for sound documents, each under its own id. -/
theorem Kept.sound (h : Kept dom t d) : DocMap.Sound dom (t.getD ∅).lookup := by
  obtain ⟨g, hstored, hcontents⟩ := h.recoverable
  obtain ⟨entries, -, hlog, hentries⟩ := hstored.log
  rw [← hcontents]
  refine hstored.sound.replay fun u hu => ?_
  rw [hlog, pending_numbered, List.mem_filterMap] at hu
  obtain ⟨entry, hentry, hupdate⟩ := hu
  exact (hentries entry (List.mem_of_mem_filter hentry)).update hupdate

/-- One disk changes, and with it its table. -/
theorem KeptAll.set (h : KeptAll doms disks ts) {ts' : Tables} (hd : Kept (doms name) (ts'.lookup name) d)
    (hts : ∀ name', name' ≠ name → ts'.lookup name' = ts.lookup name') :
    KeptAll doms (disks.set name d) ts' := by
  intro name'
  by_cases heq : name' = name
  · subst heq
    rw [Family.set_self]
    exact hd
  · rw [hts name' heq, Family.set_other _ heq]
    exact h name'

namespace Open

variable {t : Table}

theorem get (h : Open config dom c (some t) d) (id : Uuid) : c.get d id = .ok (t.lookup id) := by
  obtain ⟨g, hserving⟩ := h.serving
  exact hserving.live.get id

theorem keys (h : Open config dom c (some t) d) : c.index.keys = t.keys := by
  obtain ⟨g, hserving⟩ := h.serving
  ext id
  rw [Finmap.mem_keys, Collection.Serving.mem_index hserving, HashMap.mem_keys_iff]
  exact Option.isSome_iff_exists

theorem count (h : Open config dom c (some t) d) : c.count = t.len := by
  unfold Collection.count HashMap.len
  rw [h.keys]

theorem getAll (h : Open config dom c (some t) d) (order : HashOrder Uuid) :
    c.getAll d order = .ok ((order.enum t.keys).filterMap t.lookup) := by
  obtain ⟨g, hserving⟩ := h.serving
  rw [hserving.live.getAll order, h.keys]
  rfl

end Open

namespace Stands

theorem kept (h : Stands config doms st disks cs ts) : KeptAll doms disks ts := by
  intro name
  cases hname : st.collections.lookup name with
  | none => exact h.closed name hname
  | some handle =>
      obtain ⟨c, -, hopen⟩ := h.opened name handle hname
      exact hopen.kept

/-- A collection that is loaded exists. -/
theorem mem (h : Stands config doms st disks cs ts) (hname : st.collections.lookup name = some handle) :
    name ∈ ts := by
  obtain ⟨c, -, hopen⟩ := h.opened name handle hname
  exact Finmap.lookup_isSome.mp hopen.present

theorem created_iff (h : Stands config doms st disks cs ts) (name : String) :
    (disks name).Created ↔ name ∈ ts :=
  (h.kept name).created.trans Finmap.lookup_isSome

/-- A collection changes behind its handle, on its own disk and in its own table. -/
theorem setOpen (h : Stands config doms st disks cs ts) (hname : st.collections.lookup name = some handle)
    {c' : Collection} {d' : Disk} {ts' : Tables} (draws : Nat)
    (hopen : Open config (doms name) c' (ts'.lookup name) d')
    (hts : ∀ name', name' ≠ name → ts'.lookup name' = ts.lookup name') :
    Stands config doms { st with heap := st.heap.insert handle c', draws } (disks.set name d') cs ts' where
  shuttingDown := h.shuttingDown
  readOnly := h.readOnly
  rebuildJobs := h.rebuildJobs
  tasks := h.tasks
  loaded := h.loaded
  opened := by
    intro name' handle' hname'
    by_cases heq : name' = name
    · subst heq
      obtain rfl : handle' = handle := Option.some.inj (hname'.symm.trans hname)
      exact ⟨c', by simp, by simpa using hopen⟩
    · have hne : handle' ≠ handle := fun hhandle => heq (h.own name' name handle' hname' (hhandle ▸ hname))
      obtain ⟨c₀, hc₀, hopen₀⟩ := h.opened name' handle' hname'
      refine ⟨c₀, ?_, ?_⟩
      · rw [HashMap.lookup_insert, if_neg hne]
        exact hc₀
      · rw [hts name' heq, Family.set_other _ heq]
        exact hopen₀
  closed := by
    intro name' hname'
    have heq : name' ≠ name := fun heq => by
      rw [heq, hname] at hname'
      cases hname'
    rw [hts name' heq, Family.set_other _ heq]
    exact h.closed name' hname'
  own := h.own
  old := h.old
  held := h.held

/-- Loading what is loaded changes nothing. -/
theorem loadAgain (h : Stands config doms st disks cs ts)
    (hname : st.collections.lookup name = some handle) :
    { cs with loaded := insert name cs.loaded } = cs := by
  have hmem : name ∈ cs.loaded := (h.loaded name).mp (by simp [hname])
  rw [Finset.insert_eq_of_mem hmem]

/-- A collection that was just opened is registered. -/
theorem register (h : Stands config doms st disks cs ts) (hname : st.collections.lookup name = none)
    {d' : Disk} {ts' : Tables} (draws : Nat) (hopen : Open config (doms name) c (ts'.lookup name) d')
    (hts : ∀ name', name' ≠ name → ts'.lookup name' = ts.lookup name') :
    Found config doms name st.nextHandle (AppState.register { st with draws } name c) (disks.set name d')
      { cs with loaded := insert name cs.loaded } ts' := by
  have hlookup : ∀ name', (AppState.register { st with draws } name c).collections.lookup name' =
      if name' = name then some st.nextHandle else st.collections.lookup name' := fun name' =>
    HashMap.lookup_insert _ _ _ _
  have hne : ∀ name' handle', st.collections.lookup name' = some handle' →
      name' ≠ name ∧ handle' ≠ st.nextHandle := by
    intro name' handle' hname'
    refine ⟨fun heq => ?_, Nat.ne_of_lt (h.old name' handle' hname')⟩
    rw [heq, hname] at hname'
    cases hname'
  refine ⟨?_, by rw [hlookup, if_pos rfl]⟩
  exact {
    shuttingDown := h.shuttingDown
    readOnly := h.readOnly
    rebuildJobs := h.rebuildJobs
    tasks := h.tasks
    loaded := by
      intro name'
      rw [hlookup, Finset.mem_insert]
      split
      · rename_i heq
        simp [heq]
      · rename_i heq
        simp [heq, h.loaded name']
    opened := by
      intro name' handle' hname'
      rw [hlookup] at hname'
      split at hname'
      · rename_i heq
        subst heq
        cases hname'
        exact ⟨c, Finmap.lookup_insert _, by simpa using hopen⟩
      · rename_i heq
        obtain ⟨c₀, hc₀, hopen₀⟩ := h.opened name' handle' hname'
        refine ⟨c₀, ?_, ?_⟩
        · exact (HashMap.lookup_insert _ _ _ _).trans ((if_neg (hne name' handle' hname').2).trans hc₀)
        · rw [hts name' heq, Family.set_other _ heq]
          exact hopen₀
    closed := by
      intro name' hname'
      rw [hlookup] at hname'
      split at hname'
      · cases hname'
      · rename_i heq
        rw [hts name' heq, Family.set_other _ heq]
        exact h.closed name' hname'
    own := by
      intro name₁ name₂ handle' h₁ h₂
      rw [hlookup] at h₁ h₂
      split at h₁
      · split at h₂
        · rename_i heq₁ heq₂
          rw [heq₁, heq₂]
        · cases h₁
          exact absurd rfl (hne name₂ _ h₂).2
      · split at h₂
        · cases h₂
          exact absurd rfl (hne name₁ _ h₁).2
        · exact h.own name₁ name₂ handle' h₁ h₂
    old := by
      intro name' handle' hname'
      rw [hlookup] at hname'
      change handle' < st.nextHandle + 1
      split at hname'
      · cases hname'
        exact Nat.lt_succ_self _
      · exact Nat.lt_succ_of_lt (h.old name' handle' hname')
    held := by
      intro task htask
      have hheld := h.held task htask
      rw [hlookup, if_neg (hne _ _ hheld).1]
      exact hheld }

/-- A collection that no rebuild holds is taken out of the map, its table dropped. -/
theorem unregister (h : Stands config doms st disks cs ts)
    (hidle : ∀ task ∈ st.tasks, task.collection ≠ name) (hgone : Kept (doms name) none d) :
    Stands config doms (st.unregister name) (disks.set name d) { cs with loaded := cs.loaded.erase name }
      (ts.erase name) := by
  have hlookup : ∀ name', (st.unregister name).collections.lookup name' =
      if name' = name then none else st.collections.lookup name' := HashMap.lookup_erase _ _
  have hstill : ∀ name' handle', (st.unregister name).collections.lookup name' = some handle' →
      name' ≠ name ∧ st.collections.lookup name' = some handle' := by
    intro name' handle' hname'
    rw [hlookup] at hname'
    split at hname'
    · cases hname'
    · rename_i hne
      exact ⟨hne, hname'⟩
  exact {
    shuttingDown := h.shuttingDown
    readOnly := h.readOnly
    rebuildJobs := h.rebuildJobs
    tasks := h.tasks
    loaded := by
      intro name'
      rw [hlookup, Finset.mem_erase, ← h.loaded name']
      split
      · rename_i heq
        simp [heq]
      · rename_i hne
        simp [hne]
    opened := by
      intro name' handle' hname'
      obtain ⟨hne, hold⟩ := hstill name' handle' hname'
      rw [Finmap.lookup_erase_ne hne, Family.set_other _ hne]
      exact h.opened name' handle' hold
    closed := by
      intro name' hname'
      by_cases heq : name' = name
      · subst heq
        rw [Finmap.lookup_erase, Family.set_self]
        exact hgone
      · rw [hlookup, if_neg heq] at hname'
        rw [Finmap.lookup_erase_ne heq, Family.set_other _ heq]
        exact h.closed name' hname'
    own := fun name₁ name₂ handle' h₁ h₂ => h.own name₁ name₂ handle' (hstill _ _ h₁).2 (hstill _ _ h₂).2
    old := fun name' handle' hname' => h.old name' handle' (hstill _ _ hname').2
    held := by
      intro task htask
      rw [hlookup, if_neg (hidle task htask)]
      exact h.held task htask }

/-- Taking out what is not there changes nothing. -/
theorem unregister_none (h : Stands config doms st disks cs ts)
    (hname : st.collections.lookup name = none) :
    st.unregister name = st ∧ { cs with loaded := cs.loaded.erase name } = cs := by
  have hnot : name ∉ cs.loaded := by
    rw [← h.loaded name, hname]
    simp
  have hsame : st.collections.erase name = st.collections := by
    refine Finmap.ext_lookup fun name' => ?_
    rw [HashMap.lookup_erase]
    split
    · rename_i heq
      rw [heq, hname]
    · rfl
  rw [AppState.unregister, hsame, Finset.erase_eq_of_notMem hnot]
  exact ⟨rfl, rfl⟩

/-- A rebuild is started on a collection that is found. -/
theorem startRebuild (h : Found config doms name handle st disks cs ts) (now : Nat) :
    Stands config doms (st.startRebuild name handle now) disks
      { cs with
        rebuildJobs := cs.rebuildJobs.insert name ⟨.running, now, none, none⟩
        tasks := cs.tasks ++ [(name, now)] } ts := by
  obtain ⟨h, hfound⟩ := h
  exact {
    shuttingDown := h.shuttingDown
    readOnly := h.readOnly
    rebuildJobs := by rw [AppState.startRebuild, h.rebuildJobs]
    tasks := by rw [AppState.startRebuild, List.map_append, h.tasks]; rfl
    loaded := h.loaded
    opened := h.opened
    closed := h.closed
    own := h.own
    old := h.old
    held := by
      intro task htask
      rcases List.mem_append.mp htask with hold | hnew
      · exact h.held task hold
      · rw [List.mem_singleton.mp hnew]
        exact hfound }

end Stands

end
