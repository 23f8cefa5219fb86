-- SUMMARY: Each request, matched by what the catalog does for it.
import Piramid.Services.Steps

/-!
# Requests

The services as one type of requests. For each of them the server gives the answer that the
catalog gives, and stands where the catalog does; stopped anywhere, it leaves files that stand for
the tables that a crash of the catalog leaves.
-/

open Device Prog SnapshotLog

inductive Request where
  | listCollections
  | createCollection (name : String)
  | getCollection (name : String)
  | collectionCount (name : String)
  | deleteCollection (name : String)
  | compactCollection (name : String)
  | rebuildIndex (name : String)
  | rebuildIndexStatus (name : String)
  | insertVector (name : String) (req : InsertRequest)
  | getVector (name : String) (id : String)
  | listVectors (name : String) (params : ListVectorsQuery)
  | deleteVector (name : String) (id : String)
  | deleteVectors (name : String) (ids : List String)
  | upsertVector (name : String) (req : UpsertRequest)
  | embedText (name : String) (req : EmbedRequest)

namespace Request

/-- The collection that a request is about. -/
def name? : Request → Option String
  | .listCollections => none
  | .createCollection name | .getCollection name | .collectionCount name | .deleteCollection name
  | .compactCollection name | .rebuildIndex name | .rebuildIndexStatus name | .insertVector name _
  | .getVector name _ | .listVectors name _ | .deleteVector name _ | .deleteVectors name _
  | .upsertVector name _ | .embedText name _ => some name

/-- The service checks the name before anything else sees it. -/
def checksName : Request → Bool
  | .createCollection _ | .insertVector _ _ | .deleteVectors _ _ | .upsertVector _ _ => true
  | _ => false

/-- A crash may fall into the request. A compaction puts a new data file beside the old offset
index, and a deletion removes one file after the other. -/
def interruptible : Request → Bool
  | .deleteCollection _ | .compactCollection _ => false
  | _ => true

/-- The documents that a request writes, if it comes to that. -/
def writes [Floats] [UuidText] (w : Surroundings) : Request → List Document
  | .insertVector _ req =>
    match req.vector, req.vectors with
    | some _, none => (Service.buildSingleEntry w req).toOption.toList
    | none, some _ => (Service.buildBatchEntries w req).toOption.getD []
    | _, _ => []
  | .upsertVector _ req => ((Service.upsertId w req.id).toOption.map (Service.upsertEntry w req)).toList
  | .embedText _ req =>
    match Service.embedder w, req.text, req.texts with
    | .ok embed, some text, none =>
      ((Service.embedOne embed 0 text).toOption.map fun response =>
        Service.embeddedEntry w 0 response text req.metadata).toList
    | .ok embed, none, some texts =>
      ((Service.embedEach embed texts).toOption.map (Service.embeddedEntries w req texts)).getD []
    | _, _, _ => []
  | _ => []

section

variable [Env] [UnicodeTables] [UuidText]

def serve (config : ServerConfig) (w : Surroundings) : Request → ServiceM Response
  | .listCollections => Service.listCollections w
  | .createCollection name => Service.createCollection config name
  | .getCollection name => Service.getCollection config name
  | .collectionCount name => Service.collectionCount config name
  | .deleteCollection name => Service.deleteCollection name
  | .compactCollection name => Service.compactCollection config name
  | .rebuildIndex name => Service.rebuildIndex config w name
  | .rebuildIndexStatus name => Service.rebuildIndexStatus name
  | .insertVector name req => Service.insertVector config w name req
  | .getVector name id => Service.getVector config w name id
  | .listVectors name params => Service.listVectors config w name params
  | .deleteVector name id => Service.deleteVector config w name id
  | .deleteVectors name ids => Service.deleteVectors config w name ids
  | .upsertVector name req => Service.upsertVector config w name req
  | .embedText name req => Service.embedText config w name req

def answer (config : ServerConfig) (w : Surroundings) : Request → CatalogM Response
  | .listCollections => Catalog.listCollections w
  | .createCollection name => Catalog.createCollection name
  | .getCollection name => Catalog.getCollection name
  | .collectionCount name => Catalog.collectionCount name
  | .deleteCollection name => Catalog.deleteCollection name
  | .compactCollection name => Catalog.compactCollection name
  | .rebuildIndex name => Catalog.rebuildIndex w name
  | .rebuildIndexStatus name => Catalog.rebuildIndexStatus name
  | .insertVector name req => Catalog.insertVector config w name req
  | .getVector name id => Catalog.getVector w name id
  | .listVectors name params => Catalog.listVectors w name params
  | .deleteVector name id => Catalog.deleteVector config w name id
  | .deleteVectors name ids => Catalog.deleteVectors config w name ids
  | .upsertVector name req => Catalog.upsertVector config w name req
  | .embedText name req => Catalog.embedText config w name req

end

end Request

section

variable [Env] {config : ServerConfig} {doms : String → VectorDomain} {name : String} {handle : CollectionHandle}
  {st : AppState} {disks : Family String Disk} {cs : CatalogState} {ts : Tables} {w : Surroundings}

/-- The server answers as the catalog does, and stands where it does. -/
def Replied (config : ServerConfig) (doms : String → VectorDomain) (r : Response) (st : AppState)
    (disks : Family String Disk) (r' : Response) (cs : CatalogState) (ts : Tables) : Prop :=
  r.summary = r' ∧ Stands config doms st disks cs ts

/-- A service does what the catalog does, and its crashes are crashes of the catalog. -/
abbrev Mirrors (config : ServerConfig) (doms : String → VectorDomain) (p : ServiceM Response) (q : CatalogM Response)
    (J : Family String Disk → Tables → Prop) : AppState → Family String Disk → CatalogState → Tables → Prop :=
  Matches p q J (Replied config doms) (Refused config doms)

namespace Service

/-! ## Reading -/

theorem wp_collectionInfos {entries : List (String × CollectionHandle)} {C : Family String Disk → Prop}
    {Q : List CollectionInfo → AppState → Family String Disk → Prop}
    {R : Fault → AppState → Family String Disk → Prop} (h : Stands config doms st disks cs ts)
    (hentries : ∀ e ∈ entries, st.collections.lookup e.1 = some e.2)
    (hQ : ∀ infos, infos.map CollectionInfo.summary =
      entries.map (fun e => Catalog.info e.1 (ts.table e.1)) → Q infos st disks) :
    wp (collectionInfos entries) C Q R st disks := by
  induction entries generalizing Q with
  | nil => exact wp_pure.mpr (hQ [] rfl)
  | cons e entries ih =>
      obtain ⟨name, handle⟩ := e
      have hfound : Found config doms name handle st disks cs ts := ⟨h, hentries (name, handle) (by simp)⟩
      refine wp_bind.mpr (wp_underRead hfound fun c hopen => ⟨_, rfl, ?_⟩)
      refine wp_bind.mpr (ih (fun e' he' => hentries e' (by simp [he'])) fun infos hinfos => ?_)
      refine wp_pure.mpr (hQ _ ?_)
      rw [List.map_cons, hinfos, List.map_cons, CollectionInfo.summary, collectionInfo, hopen.count]
      rfl

theorem listCollections_mirrors (h : Stands config doms st disks cs ts) :
    Mirrors config doms (listCollections w) (Catalog.listCollections w) (KeptAll doms) st disks cs ts := by
  refine matches_bind (matches_ensureAvailable h ?_)
  have hkeys : st.collections.keys = cs.loaded := by
    ext name
    rw [HashMap.mem_keys_iff, ← h.loaded name]
    exact Option.isSome_iff_exists.symm
  refine matches_left (wp_asks.mpr ?_)
  refine matches_left (wp_collectionInfos h (fun e he => (w.names.mem_entries _ _ _).mp he) ?_)
  intro infos hinfos
  refine matches_of_wp (.collections ((w.names.enum cs.loaded).map fun name =>
    Catalog.info name (ts.table name))) cs [] rfl (wp_pure.mpr ⟨?_, h⟩)
  rw [Response.summary, hinfos, ← hkeys, ← w.names.map_fst_entries, List.map_map]
  rfl

variable [LawfulEnv] [BareEntries]

theorem createCollection_mirrors [UnicodeTables] (hconfig : config.Serviceable doms)
    (h : Stands config doms st disks cs ts) :
    Mirrors config doms (createCollection config name) (Catalog.createCollection name) (KeptAll doms)
      st disks cs ts := by
  refine matches_bind (matches_ensureAvailable h (matches_bind (matches_check h fun _ _ => ?_)))
  refine matches_seq (matches_getOrCreate hconfig h) ?_
  intro handle st disks _ cs ts hfound
  refine matches_table.mpr (matches_left (wp_underRead hfound fun c hopen => ⟨_, rfl, ?_⟩))
  refine matches_pure.mpr ⟨?_, hfound.stands⟩
  rw [Response.summary, CollectionInfo.summary, collectionInfo, hopen.count]
  rfl

theorem getCollection_mirrors (hconfig : config.Serviceable doms)
    (h : Stands config doms st disks cs ts) :
    Mirrors config doms (getCollection config name) (Catalog.getCollection name) (KeptAll doms)
      st disks cs ts := by
  refine matches_bind (matches_ensureAvailable h ?_)
  refine matches_seq (matches_getExisting hconfig h) ?_
  intro handle st disks _ cs ts hfound
  refine matches_table.mpr (matches_left (wp_underRead hfound fun c hopen => ⟨_, rfl, ?_⟩))
  refine matches_pure.mpr ⟨?_, hfound.stands⟩
  rw [Response.summary, CollectionInfo.summary, collectionInfo, hopen.count]
  rfl

theorem collectionCount_mirrors (hconfig : config.Serviceable doms)
    (h : Stands config doms st disks cs ts) :
    Mirrors config doms (collectionCount config name) (Catalog.collectionCount name) (KeptAll doms)
      st disks cs ts := by
  refine matches_bind (matches_ensureAvailable h ?_)
  refine matches_seq (matches_getExisting hconfig h) ?_
  intro handle st disks _ cs ts hfound
  refine matches_table.mpr (matches_left (wp_underRead hfound fun c hopen => ⟨_, rfl, ?_⟩))
  refine matches_pure.mpr ⟨?_, hfound.stands⟩
  rw [hopen.count]
  rfl

theorem getVector_mirrors [UuidText] (hconfig : config.Serviceable doms) (h : Stands config doms st disks cs ts)
    (id : String) :
    Mirrors config doms (getVector config w name id) (Catalog.getVector w name id) (KeptAll doms)
      st disks cs ts := by
  refine matches_bind (matches_ensureAvailable h ?_)
  refine matches_seq (matches_getExisting hconfig h) ?_
  intro handle st disks _ cs ts hfound
  refine matches_bind (matches_check hfound.stands fun uuid _ => ?_)
  refine matches_table.mpr (matches_left (wp_underRead hfound fun c hopen => ⟨_, hopen.get uuid, ?_⟩))
  cases hdoc : (ts.table name).lookup uuid with
  | none => exact matches_fault.mpr ⟨rfl, hfound.stands⟩
  | some entry =>
      exact matches_bind (matches_check hfound.stands fun vector _ =>
        matches_pure.mpr ⟨rfl, hfound.stands⟩)

theorem listVectors_mirrors (hconfig : config.Serviceable doms)
    (h : Stands config doms st disks cs ts) (params : ListVectorsQuery) :
    Mirrors config doms (listVectors config w name params) (Catalog.listVectors w name params)
      (KeptAll doms) st disks cs ts := by
  refine matches_bind (matches_ensureAvailable h ?_)
  refine matches_seq (matches_getExisting hconfig h) ?_
  intro handle st disks _ cs ts hfound
  refine matches_table.mpr (matches_left (wp_underRead hfound fun c hopen => ⟨_, hopen.getAll w.ids, ?_⟩))
  exact matches_bind (matches_check hfound.stands fun vectors _ =>
    matches_pure.mpr ⟨rfl, hfound.stands⟩)

omit [LawfulEnv] [BareEntries] in
theorem rebuildIndexStatus_mirrors (h : Stands config doms st disks cs ts) :
    Mirrors config doms (rebuildIndexStatus name) (Catalog.rebuildIndexStatus name) (KeptAll doms)
      st disks cs ts := by
  refine matches_bind (matches_ensureAvailable h (matches_bind (matches_asks.mpr ?_)))
  rw [id, id, h.rebuildJobs]
  cases hjob : cs.rebuildJobs.lookup name with
  | none => exact matches_fault.mpr ⟨rfl, h⟩
  | some job => exact matches_pure.mpr ⟨rfl, h⟩

/-! ## Writing -/

omit [BareEntries] in
/-- What follows a write of documents under one lock. -/
theorem insert_mirrors {doc : Document} (h : Found config doms name handle st disks cs ts)
    (hdoc : doc.Sound (doms name)) :
    Matches (underWrite name handle (Collection.insert doc)) (Catalog.carryOut name [Catalog.put doc])
      (KeptAll doms)
      (fun id st' disks' _ cs' ts' => id = doc.id ∧ Found config doms name handle st' disks' cs' ts')
      (Refused config doms) st disks cs ts := by
  refine matches_underWrite h (Collection.blocks_insert doc) fun c g hserving => ?_
  refine Collection.wp_insert hserving hdoc (fun d' hd' => ⟨1, hd'⟩) ?_
  exact fun s' d' g' h' => ⟨rfl, g', h'⟩

omit [BareEntries] in
theorem insertBatch_mirrors {docs : List Document} (h : Found config doms name handle st disks cs ts)
    (hdocs : ∀ doc ∈ docs, doc.Sound (doms name)) :
    Matches (underWrite name handle (Collection.insertBatch docs))
      (Catalog.carryOut name (docs.map Catalog.put)) (KeptAll doms)
      (fun ids st' disks' _ cs' ts' =>
        ids = docs.map Document.id ∧ Found config doms name handle st' disks' cs' ts')
      (Refused config doms) st disks cs ts := by
  refine matches_underWrite h (Collection.blocks_insertBatch docs) fun c g hserving => ?_
  refine Collection.wp_insertBatch hserving hdocs (fun d' j hd' => ⟨j, hd'⟩) ?_
  exact fun s' d' g' h' => ⟨rfl, g', h'⟩

theorem insertVector_mirrors [UnicodeTables] [UuidText] (hconfig : config.Serviceable doms)
    (h : Stands config doms st disks cs ts) {req : InsertRequest}
    (hdocs : ∀ doc ∈ Request.writes w (.insertVector name req), doc.Sound (doms name)) :
    Mirrors config doms (insertVector config w name req) (Catalog.insertVector config w name req)
      (KeptAll doms) st disks cs ts := by
  refine matches_bind (matches_ensureAvailable h (matches_bind (matches_ensureWriteAllowed h ?_)))
  refine matches_bind (matches_check h fun _ _ => matches_seq (matches_getOrCreate hconfig h) ?_)
  intro handle st disks _ cs ts hfound
  simp only [Request.writes] at hdocs
  cases hvector : req.vector with
  | none =>
      cases hvectors : req.vectors with
      | none => exact matches_fault.mpr ⟨rfl, hfound.stands⟩
      | some vectors =>
          refine matches_bind (matches_check hfound.stands fun docs hbuilt => ?_)
          have hsound : ∀ doc ∈ docs, doc.Sound (doms name) := by
            simp only [hvector, hvectors, hbuilt] at hdocs
            exact hdocs
          refine matches_seq (insertBatch_mirrors hfound hsound) ?_
          rintro _ st disks _ cs ts ⟨rfl, hfound⟩
          refine matches_enforceCacheBudget hconfig (matches_pure.mpr ⟨?_, hfound.stands⟩)
          exact congrArg (Response.insertedMulti · _) List.map_map
  | some vector =>
      cases hvectors : req.vectors with
      | some vectors => exact matches_fault.mpr ⟨rfl, hfound.stands⟩
      | none =>
          refine matches_bind (matches_check hfound.stands fun doc hbuilt => ?_)
          have hsound : doc.Sound (doms name) := by
            simp only [hvector, hvectors, hbuilt] at hdocs
            exact hdocs doc (List.mem_singleton_self doc)
          refine matches_seq (insert_mirrors hfound hsound) ?_
          rintro _ st disks _ cs ts ⟨rfl, hfound⟩
          exact matches_enforceCacheBudget hconfig (matches_pure.mpr ⟨rfl, hfound.stands⟩)

theorem upsertVector_mirrors [UnicodeTables] [UuidText] (hconfig : config.Serviceable doms)
    (h : Stands config doms st disks cs ts) {req : UpsertRequest}
    (hdocs : ∀ doc ∈ Request.writes w (.upsertVector name req), doc.Sound (doms name)) :
    Mirrors config doms (upsertVector config w name req) (Catalog.upsertVector config w name req)
      (KeptAll doms) st disks cs ts := by
  refine matches_bind (matches_ensureAvailable h (matches_bind (matches_ensureWriteAllowed h ?_)))
  refine matches_bind (matches_check h fun _ _ => matches_bind (matches_check h fun _ _ => ?_))
  refine matches_bind (matches_check h fun _ _ => matches_seq (matches_getOrCreate hconfig h) ?_)
  intro handle st disks _ cs ts hfound
  refine matches_bind (matches_check hfound.stands fun id hid => ?_)
  have hsound : (upsertEntry w req id).Sound (doms name) := by
    simp only [Request.writes, hid] at hdocs
    exact hdocs _ (List.mem_singleton_self _)
  refine matches_table.mpr (matches_left (wp_underRead hfound fun c hopen => ⟨_, hopen.get id, ?_⟩))
  refine matches_seq (matches_underWrite (a := id) hfound
    (Collection.blocks_upsert (upsertEntry w req id)) fun c g hserving => ?_) ?_
  · refine Collection.wp_upsert hserving hsound (fun d' hd' => ⟨1, hd'⟩) ?_
    exact fun s' d' g' h' => ⟨rfl, g', h'⟩
  · rintro _ st disks _ cs ts ⟨rfl, hfound⟩
    exact matches_enforceCacheBudget hconfig (matches_pure.mpr ⟨rfl, hfound.stands⟩)

theorem embedText_mirrors [UuidText] (hconfig : config.Serviceable doms) (h : Stands config doms st disks cs ts)
    {req : EmbedRequest}
    (hdocs : ∀ doc ∈ Request.writes w (.embedText name req), doc.Sound (doms name)) :
    Mirrors config doms (embedText config w name req) (Catalog.embedText config w name req) (KeptAll doms)
      st disks cs ts := by
  refine matches_bind (matches_ensureAvailable h (matches_bind (matches_ensureWriteAllowed h ?_)))
  refine matches_seq (matches_getOrCreate hconfig h) ?_
  intro handle st disks _ cs ts hfound
  refine matches_bind (matches_check hfound.stands fun embed hembed => ?_)
  simp only [Request.writes, hembed] at hdocs
  cases htext : req.text with
  | none =>
      cases htexts : req.texts with
      | none => exact matches_fault.mpr ⟨rfl, hfound.stands⟩
      | some texts =>
          by_cases hempty : texts = []
          · simp only [hempty, if_true]
            exact matches_fault.mpr ⟨rfl, hfound.stands⟩
          · simp only [hempty, if_false]
            refine matches_bind (matches_check hfound.stands fun responses hresponses => ?_)
            have hsound : ∀ doc ∈ embeddedEntries w req texts responses, doc.Sound (doms name) := by
              simp only [htext, htexts, hresponses] at hdocs
              exact hdocs
            refine matches_seq (insertBatch_mirrors hfound hsound) ?_
            rintro _ st disks _ cs ts ⟨rfl, hfound⟩
            refine matches_enforceCacheBudget hconfig (matches_pure.mpr ⟨?_, hfound.stands⟩)
            exact congrArg (Response.embeddedMulti · _ _) List.map_map
  | some text =>
      cases htexts : req.texts with
      | some texts => exact matches_fault.mpr ⟨rfl, hfound.stands⟩
      | none =>
          refine matches_bind (matches_check hfound.stands fun response hresponse => ?_)
          have hsound : (embeddedEntry w 0 response text req.metadata).Sound (doms name) := by
            simp only [htext, htexts, hresponse] at hdocs
            exact hdocs _ (List.mem_singleton_self _)
          refine matches_seq (insert_mirrors hfound hsound) ?_
          rintro _ st disks _ cs ts ⟨rfl, hfound⟩
          exact matches_enforceCacheBudget hconfig (matches_pure.mpr ⟨rfl, hfound.stands⟩)

theorem deleteVector_mirrors [UuidText] (hconfig : config.Serviceable doms)
    (h : Stands config doms st disks cs ts) (id : String) :
    Mirrors config doms (deleteVector config w name id) (Catalog.deleteVector config w name id)
      (KeptAll doms) st disks cs ts := by
  refine matches_bind (matches_ensureAvailable h (matches_bind (matches_ensureWriteAllowed h ?_)))
  refine matches_seq (matches_getExisting hconfig h) ?_
  intro handle st disks _ cs ts hfound
  refine matches_bind (matches_check hfound.stands fun uuid _ => matches_table.mpr ?_)
  refine matches_seq (matches_underWrite (a := ((ts.table name).lookup uuid).isSome) hfound
    (Collection.blocks_delete uuid) fun c g hserving => ?_) ?_
  · refine Collection.wp_delete hserving (fun d' hd' => ⟨1, hd'⟩) ?_
    exact fun s' d' g' h' => ⟨rfl, g', h'⟩
  · rintro _ st' disks' _ cs' ts' ⟨rfl, hfound'⟩
    refine matches_pure.mpr ⟨congrArg Response.deleted ?_, hfound'.stands⟩
    rw [Bool.eq_iff_iff, decide_eq_true_eq]
    exact Finmap.lookup_isSome

theorem deleteVectors_mirrors [UnicodeTables] [UuidText] (hconfig : config.Serviceable doms)
    (h : Stands config doms st disks cs ts) (ids : List String) :
    Mirrors config doms (deleteVectors config w name ids) (Catalog.deleteVectors config w name ids)
      (KeptAll doms) st disks cs ts := by
  refine matches_bind (matches_ensureAvailable h (matches_bind (matches_ensureWriteAllowed h ?_)))
  refine matches_bind (matches_check h fun _ _ => matches_bind (matches_check h fun _ _ => ?_))
  refine matches_seq (matches_getExisting hconfig h) ?_
  intro handle st disks _ cs ts hfound
  refine matches_bind (matches_check hfound.stands fun uuids _ => matches_table.mpr ?_)
  refine matches_seq (matches_underWrite (a := DocMap.present (ts.table name).lookup uuids) hfound
    (Collection.blocks_deleteBatch uuids) fun c g hserving => ?_) ?_
  · refine Collection.wp_deleteBatch hserving (fun d' j hd' => ⟨j, hd'⟩) ?_
    exact fun s' d' g' h' => ⟨rfl, g', h'⟩
  · rintro _ st' disks' _ cs' ts' ⟨rfl, hfound'⟩
    refine matches_pure.mpr ⟨?_, hfound'.stands⟩
    have hset : (uuids.toFinset.filter fun id => ((ts.table name).lookup id).isSome) =
        uuids.toFinset ∩ (ts.table name).keys := by
      ext id
      rw [Finset.mem_filter, Finset.mem_inter, HashMap.mem_keys_iff, Option.isSome_iff_exists]
    rw [DocMap.present, hset]
    rfl

/-! ## Deleting, compacting, rebuilding -/

omit [Env] [LawfulEnv] [BareEntries] in
/-- Files are removed one after the other. -/
theorem wp_removeEach {fs : List CollFile} {Q : PUnit → AppState → Family String Disk → Prop}
    {R : Fault → AppState → Family String Disk → Prop}
    (hQ : ∀ d, (∀ f ∈ fs, d f = none) → (∀ f, disks name f = none → d f = none) →
      Q ⟨⟩ st (disks.set name d)) :
    wp (fs.forM fun f => Prog.emit (name, Effect.remove f)) (fun _ => True) Q R st disks := by
  induction fs generalizing disks with
  | nil =>
      refine wp_pure.mpr ?_
      simpa using hQ (disks name) (by simp) fun _ h => h
  | cons f fs ih =>
      refine wp_bind.mpr (wp_emit.mpr ⟨trivial, ih fun d hgone hmono => ?_⟩)
      rw [Family.apply_eq] at hmono ⊢
      simp only [Family.set_self, Family.set_set, Effect.apply_remove] at hmono ⊢
      refine hQ d (fun f' hf' => ?_) fun f' hf' => hmono f' ?_
      · rcases List.mem_cons.mp hf' with rfl | hf'
        · exact hmono f' (by simp)
        · exact hgone f' hf'
      · by_cases heq : f' = f
        · simp [heq]
        · rw [Disk.put_other _ heq]
          exact hf'

omit [LawfulEnv] [BareEntries] in
theorem deleteCollection_mirrors (h : Stands config doms st disks cs ts)
    (hidle : ∀ task ∈ cs.tasks, task.1 ≠ name) :
    Mirrors config doms (deleteCollection name) (Catalog.deleteCollection name) (fun _ _ => True)
      st disks cs ts := by
  refine matches_bind (matches_ensureAvailable h (matches_bind (matches_asks.mpr ?_)))
  refine matches_bind (matches_modify.mpr ?_)
  rw [id]
  have hloaded := h.loaded name
  cases hname : st.collections.lookup name with
  | none =>
      obtain ⟨hst, hcs⟩ := h.unregister_none hname
      rw [hname] at hloaded
      have hnot : name ∉ cs.loaded := fun hmem => by simp [hmem] at hloaded
      rw [hst, hcs]
      refine matches_seq (Q := fun _ st' disks' _ cs' ts' => Stands config doms st' disks' cs' ts') ?_ ?_
      · refine matches_of_wp () cs [] ?_ ?_
        · rw [if_neg hnot]
          rfl
        · exact wp_when.mpr ⟨fun hsome => by simp at hsome, fun _ => h⟩
      · intro _ st disks _ cs ts h
        simp only [hnot]
        exact matches_pure.mpr ⟨rfl, h⟩
  | some handle =>
      have hmem : name ∈ cs.loaded := hloaded.mp (by simp [hname])
      refine matches_seq (Q := fun _ st' disks' _ cs' ts' => Stands config doms st' disks' cs' ts') ?_ ?_
      · refine matches_of_wp () { cs with loaded := cs.loaded.erase name } [.drop name] ?_ ?_
        · rw [if_pos hmem]
          rfl
        · refine wp_when.mpr ⟨fun _ => wp_mono (wp_removeEach (R := fun _ _ _ => False)
            fun d hgone _ => ?_) (fun _ _ => ⟨0, trivial⟩) (fun _ _ _ h => h) (fun _ _ _ h => h),
            fun hnot => absurd rfl hnot⟩
          refine h.unregister (fun task htask heq => ?_) ⟨?_, ?_⟩
          · refine hidle (task.collection, task.startedAt) ?_ heq
            rw [← h.tasks]
            exact List.mem_map_of_mem htask
          · exact .of_none (hgone _ (by decide)) (hgone _ (by decide)) (hgone _ (by decide))
              (hgone _ (by decide)) (hgone _ (by decide))
          · simp [Disk.Created, hgone .data (by decide)]
      · intro _ st disks _ cs ts h
        simp only [hmem]
        exact matches_pure.mpr ⟨rfl, h⟩

/-- A compaction that is not stopped changes no table. -/
theorem compactCollection_mirrors (hconfig : config.Serviceable doms)
    (h : Stands config doms st disks cs ts) :
    Mirrors config doms (compactCollection config name) (Catalog.compactCollection name)
      (fun _ _ => True) st disks cs ts := by
  refine matches_bind (matches_ensureAvailable h ?_)
  refine matches_seq (matches_mono (fun _ _ _ => trivial) (fun _ _ _ _ _ _ h => h)
    (fun _ _ _ _ _ _ h => h) (matches_getExisting hconfig h)) ?_
  intro handle st disks _ cs ts hfound
  refine matches_left (wp_underWrite hfound fun c hopen => ?_)
  obtain ⟨g, hserving⟩ := hopen.serving
  have hcreated : wp Collection.compact (fun _ => True) (fun _ _ d => d.Created)
      (fun _ _ d => d.Created) ⟨c, st.draws⟩ (disks name) := by
    refine wp_void.mp (wp_of_final (Call.created_final .compact ?_))
    exact hopen.created
  refine wp_mono (wp_and (Collection.wp_compact (C := fun _ => True) (R := fun _ _ _ => False)
    (Q := fun _ s' d' => ∃ g', Serving config.collection (doms name) s'.coll d' g' (ts.table name).lookup
      (ts.table name).lookup) hserving (fun _ _ => trivial) (fun _ _ => trivial)
    fun _ s' d' g' h' => ⟨g', h'⟩) hcreated) (fun _ _ => trivial) ?_ (fun _ _ _ hfalse => hfalse.1.elim)
  rintro stats s' d' ⟨⟨g', hserving'⟩, hcreated'⟩
  exact matches_pure.mpr ⟨rfl, (found_set [] hfound s'.draws hcreated' hserving').stands⟩

theorem rebuildIndex_mirrors (hconfig : config.Serviceable doms)
    (h : Stands config doms st disks cs ts) :
    Mirrors config doms (rebuildIndex config w name) (Catalog.rebuildIndex w name) (KeptAll doms)
      st disks cs ts := by
  refine matches_bind (matches_ensureAvailable h ?_)
  refine matches_seq (matches_getExisting hconfig h) ?_
  intro handle st disks _ cs ts hfound
  exact matches_bind (matches_modify.mpr (matches_pure.mpr ⟨rfl, .startRebuild hfound w.now⟩))

omit [BareEntries] in
/-- A rebuild in the background succeeds. -/
theorem runTask_mirrors {task : RebuildTask}
    (h : Found config doms task.collection task.handle st disks cs ts) :
    Matches (runTask w task) (Catalog.runTask w (task.collection, task.startedAt)) (KeptAll doms)
      (fun _ st' disks' _ cs' ts' => Stands config doms st' disks' cs' ts') (fun _ _ _ _ _ _ => False)
      st disks cs ts := by
  refine matches_left (wp_attempt.mpr (wp_underWrite h fun c hopen => ?_))
  obtain ⟨g, hserving⟩ := hopen.serving
  refine wp_mono (wp_and (Collection.wp_rebuildIndex
    (C := Recoverable (doms task.collection) (ts.table task.collection).lookup) (R := fun _ _ _ => False)
    (Q := fun _ s' d' => ∃ g', Serving config.collection (doms task.collection) s'.coll d' g'
      (ts.table task.collection).lookup (ts.table task.collection).lookup) hserving (fun _ hd' => hd')
    fun s' d' g' h' => ⟨g', h'⟩) (Collection.blocks_rebuildIndex.wp_created hopen.created)) ?_ ?_
    (fun _ _ _ hfalse => hfalse.1.elim)
  · rintro d' ⟨hd', hcreated'⟩
    refine h.stands.kept.set ?_ fun _ _ => rfl
    rw [Tables.lookup_eq (h.stands.mem h.found)]
    exact ⟨hd', by simp [hcreated']⟩
  · rintro ⟨⟩ s' d' ⟨⟨g', hserving'⟩, hcreated'⟩
    have hset := (found_set [] h s'.draws hcreated' hserving').stands
    refine matches_modify.mpr { hset with rebuildJobs := ?_ }
    rw [AppState.finishRebuild, ← hset.rebuildJobs]

end Service

/-! ## Any request -/

/-- Whatever the request is, the server does what the catalog does. -/
theorem Request.mirrors [LawfulEnv] [BareEntries] [UnicodeTables] [UuidText] (hconfig : config.Serviceable doms)
    (h : Stands config doms st disks cs ts) (r : Request)
    (hdocs : ∀ name, r.name? = some name → ∀ doc ∈ r.writes w, doc.Sound (doms name))
    (hidle : ∀ name, r = .deleteCollection name → ∀ task ∈ cs.tasks, task.1 ≠ name) :
    Mirrors config doms (r.serve config w) (r.answer config w)
      (fun disks ts => r.interruptible = true → KeptAll doms disks ts) st disks cs ts := by
  have hall : ∀ {p : ServiceM Response} {q : CatalogM Response},
      Mirrors config doms p q (KeptAll doms) st disks cs ts →
      Mirrors config doms p q (fun disks ts => r.interruptible = true → KeptAll doms disks ts)
        st disks cs ts := fun hm =>
    matches_mono (fun _ _ hkept _ => hkept) (fun _ _ _ _ _ _ h => h) (fun _ _ _ _ _ _ h => h) hm
  have hwhole : ∀ {p : ServiceM Response} {q : CatalogM Response}, r.interruptible = false →
      Mirrors config doms p q (fun _ _ => True) st disks cs ts →
      Mirrors config doms p q (fun disks ts => r.interruptible = true → KeptAll doms disks ts)
        st disks cs ts := fun hr hm =>
    matches_mono (fun _ _ _ htrue => by rw [hr] at htrue; cases htrue) (fun _ _ _ _ _ _ h => h)
      (fun _ _ _ _ _ _ h => h) hm
  cases r with
  | listCollections => exact hall (Service.listCollections_mirrors h)
  | createCollection name => exact hall (Service.createCollection_mirrors hconfig h)
  | getCollection name => exact hall (Service.getCollection_mirrors hconfig h)
  | collectionCount name => exact hall (Service.collectionCount_mirrors hconfig h)
  | deleteCollection name => exact hwhole rfl (Service.deleteCollection_mirrors h (hidle name rfl))
  | compactCollection name => exact hwhole rfl (Service.compactCollection_mirrors hconfig h)
  | rebuildIndex name => exact hall (Service.rebuildIndex_mirrors hconfig h)
  | rebuildIndexStatus name => exact hall (Service.rebuildIndexStatus_mirrors h)
  | insertVector name req => exact hall (Service.insertVector_mirrors hconfig h (hdocs name rfl))
  | getVector name id => exact hall (Service.getVector_mirrors hconfig h id)
  | listVectors name params => exact hall (Service.listVectors_mirrors hconfig h params)
  | deleteVector name id => exact hall (Service.deleteVector_mirrors hconfig h id)
  | deleteVectors name ids => exact hall (Service.deleteVectors_mirrors hconfig h ids)
  | upsertVector name req => exact hall (Service.upsertVector_mirrors hconfig h (hdocs name rfl))
  | embedText name req => exact hall (Service.embedText_mirrors hconfig h (hdocs name rfl))

end
