-- SUMMARY: The steps that services share, each matched by a step of the catalog: the gates, finding a collection, reading it and writing to it.
import Piramid.Services.Standing

/-!
# Steps of the services

Whatever opens a collection is matched by loading its table, and an operation on a collection by
the updates that it logs. A crash in between leaves what a crash of the catalog leaves.
-/

open Device Prog SnapshotLog

/-! ## Updates of the tables -/

namespace Tables

variable {ts : Tables} {name : String}

theorem table_eq {t : Table} (h : ts.lookup name = some t) : ts.table name = t := by
  rw [table, h]
  rfl

theorem lookup_eq (h : name ∈ ts) : ts.lookup name = some (ts.table name) := by
  obtain ⟨t, ht⟩ := Finmap.mem_iff.mp h
  rw [table_eq ht, ht]

/-- Updates of one table. -/
theorem lookup_updates (h : name ∈ ts) (us : List DocUpdate) (name' : String) :
    Finmap.lookup name' (applyAll (us.map (CatalogEffect.update name)) ts) =
      if name' = name then some ((ts.table name).updateAll us) else ts.lookup name' := by
  induction us generalizing ts with
  | nil =>
      by_cases heq : name' = name
      · subst heq
        simpa [Table.updateAll] using lookup_eq h
      · simp [heq]
  | cons u us ih =>
      have hlookup : ∀ name', Finmap.lookup name' (ts.apply (.update name u)) =
          if name' = name then some ((ts.table name).update u) else ts.lookup name' := fun name' =>
        HashMap.lookup_insert _ _ _ _
      have hmem : name ∈ ts.apply (.update name u) := Finmap.mem_iff.mpr ⟨_, by rw [hlookup, if_pos rfl]⟩
      change Finmap.lookup name' (applyAll (us.map (CatalogEffect.update name)) (ts.apply (.update name u))) = _
      rw [ih hmem, hlookup, table_eq (show Finmap.lookup name (ts.apply (.update name u)) = _ by
        rw [hlookup, if_pos rfl])]
      by_cases heq : name' = name
      · simp only [heq, if_true]
        rfl
      · simp [heq]

end Tables

section

variable [Env] {config : ServerConfig} {doms : String → VectorDomain} {name : String} {handle : CollectionHandle}
  {st : AppState} {disks : Family String Disk} {cs : CatalogState} {ts : Tables}
  {J : Family String Disk → Tables → Prop} {w : Surroundings}

namespace Service

/-! ## Gates -/

theorem matches_ensureAvailable {Q : Unit → AppState → Family String Disk → Unit → CatalogState → Tables → Prop}
    (h : Stands config doms st disks cs ts) (hQ : Q () st disks () cs ts) :
    Matches ensureAvailable Catalog.ensureAvailable J Q (Refused config doms) st disks cs ts := by
  refine matches_bind (matches_asks.mpr ?_)
  cases hdown : cs.shuttingDown with
  | false =>
      rw [id, h.shuttingDown, hdown]
      exact matches_pure.mpr hQ
  | true =>
      rw [id, h.shuttingDown, hdown]
      exact matches_fault.mpr ⟨rfl, h⟩

theorem matches_ensureWriteAllowed
    {Q : Unit → AppState → Family String Disk → Unit → CatalogState → Tables → Prop}
    (h : Stands config doms st disks cs ts) (hQ : Q () st disks () cs ts) :
    Matches (ensureWriteAllowed config w) (Catalog.ensureWriteAllowed config w) J Q (Refused config doms)
      st disks cs ts := by
  refine matches_bind (matches_asks.mpr ?_)
  rw [id, id, h.shuttingDown, h.readOnly]
  cases hdown : cs.shuttingDown with
  | true => exact matches_fault.mpr ⟨rfl, h⟩
  | false =>
      cases hro : cs.readOnly with
      | true => exact matches_fault.mpr ⟨rfl, h⟩
      | false =>
          simp only [Bool.false_eq_true, if_false]
          cases hmin : config.diskMinFreeBytes with
          | none => exact matches_pure.mpr hQ
          | some minFree =>
              refine matches_bind (matches_ofExcept (fun free _ => ?_) fun e _ => ⟨rfl, h⟩)
              cases free with
              | none => exact matches_pure.mpr hQ
              | some free =>
                  by_cases hlow : free < minFree ∧ config.diskReadonlyOnLowSpace = true
                  · simp only [hlow, and_self, if_true]
                    refine matches_bind (matches_modify.mpr (matches_fault.mpr ⟨rfl, ?_⟩))
                    exact { h with readOnly := rfl }
                  · simp only [hlow, if_false]
                    exact matches_pure.mpr hQ

/-- What the programs check in the same way. -/
theorem matches_check {α : Type} {x : Except Fault α}
    {Q : α → AppState → Family String Disk → α → CatalogState → Tables → Prop}
    (h : Stands config doms st disks cs ts) (hQ : ∀ a, x = .ok a → Q a st disks a cs ts) :
    Matches (Prog.ofExcept x : ServiceM α) (Prog.ofExcept x : CatalogM α) J Q (Refused config doms)
      st disks cs ts :=
  matches_ofExcept hQ fun _ _ => ⟨rfl, h⟩

/-- Without a budget there is nothing to enforce. -/
theorem matches_enforceCacheBudget {α β : Type} {p : Unit → ServiceM α} {q : CatalogM β}
    {Q : α → AppState → Family String Disk → β → CatalogState → Tables → Prop}
    {R : Fault → AppState → Family String Disk → Fault → CatalogState → Tables → Prop}
    (hconfig : config.Serviceable doms) (hnext : Matches (p ()) q J Q R st disks cs ts) :
    Matches (enforceCacheBudget config >>= p) q J Q R st disks cs ts := by
  refine matches_left ?_
  unfold enforceCacheBudget
  rw [if_neg hconfig.no_budget]
  exact wp_pure.mpr hnext

/-! ## Finding a collection -/

variable [LawfulEnv] [BareEntries]

/-- Opening a collection that is not loaded is matched by creating its table, unless there is
one. -/
theorem matches_openAndRegister (hconfig : config.Serviceable doms)
    (h : Stands config doms st disks cs ts) (hname : st.collections.lookup name = none)
    {q : CatalogM Unit} (hq : q cs ts = ⟨.ok (), { cs with loaded := insert name cs.loaded },
      if name ∈ ts then [] else [.create name]⟩) :
    Matches (openAndRegister config name) q (KeptAll doms)
      (fun handle st' disks' _ cs' ts' => Found config doms name handle st' disks' cs' ts')
      (Refused config doms) st disks cs ts := by
  have hrecoverable := (h.closed name hname).recoverable
  -- the tables after the creation, if there is one
  obtain ⟨ts', hts'⟩ : ∃ ts', ts' = applyAll (if name ∈ ts then [] else [CatalogEffect.create name]) ts := ⟨_, rfl⟩
  have hlookup : ts'.lookup name = some ((ts.lookup name).getD ∅) := by
    by_cases hmem : name ∈ ts
    · rw [hts', if_pos hmem]
      exact Tables.lookup_eq hmem
    · rw [hts', if_neg hmem, Finmap.lookup_eq_none.mpr hmem]
      exact Finmap.lookup_insert _
  have hother : ∀ name', name' ≠ name → ts'.lookup name' = ts.lookup name' := by
    intro name' hne
    rw [hts']
    split
    · rfl
    · exact Finmap.lookup_insert_of_ne _ hne
  have hall : ∀ d', Recoverable (doms name) ((ts.lookup name).getD ∅).lookup d' ∧ d'.Created →
      KeptAll doms (disks.set name d') ts' := by
    rintro d' ⟨hd', hcreated⟩
    refine h.kept.set ?_ hother
    rw [hlookup]
    exact ⟨hd', by simp [hcreated]⟩
  refine matches_of_wp _ _ _ hq ?_
  refine wp_bind.mpr (wp_focus.mpr ?_)
  have hopens : wp (CollectionBuilder.openCollection (collectionPath config.dataDir name) config.collection)
      (Recoverable (doms name) ((ts.lookup name).getD ∅).lookup)
      (fun c _ d' => ∃ g', Serving config.collection (doms name) c d' g' ((ts.lookup name).getD ∅).lookup
        ((ts.lookup name).getD ∅).lookup) (fun _ _ _ => False) st.draws (disks name) :=
    CollectionBuilder.wp_openCollection (hconfig.replayable _) hrecoverable (fun _ hd' => hd') fun _ _ _ g' hserving =>
      ⟨g', hserving⟩
  refine wp_mono (wp_and hopens (wp_openCollection_created hrecoverable)) ?_ ?_ ?_
  · intro d' hd'
    refine ⟨(if name ∈ ts then [] else [CatalogEffect.create name]).length, ?_⟩
    rw [List.take_length, ← hts']
    exact hall d' hd'
  · rintro c n d' ⟨⟨g', hserving⟩, hcreated⟩
    refine wp_bind.mpr (wp_asks.mpr (wp_bind.mpr (wp_modify.mpr (wp_pure.mpr ?_))))
    rw [← hts']
    refine h.register hname n ⟨⟨g', ?_⟩, hcreated, by simp [hlookup]⟩ hother
    rw [hlookup]
    exact hserving
  · exact fun _ _ _ hfalse => hfalse.1

theorem matches_getExisting (hconfig : config.Serviceable doms) (h : Stands config doms st disks cs ts) :
    Matches (getExistingCollection config name) (Catalog.getExisting name) (KeptAll doms)
      (fun handle st' disks' _ cs' ts' => Found config doms name handle st' disks' cs' ts')
      (Refused config doms) st disks cs ts := by
  refine matches_bind (matches_ensureAvailable h ?_)
  refine (matches_congr (show (do
      let ts ← Prog.device
      if name ∈ ts then Catalog.load name else Prog.fault (.notFound "Collection not found") : CatalogM Unit)
      cs ts = (if name ∈ ts then Catalog.load name else Prog.fault (.notFound "Collection not found") :
      CatalogM Unit) cs ts from rfl)).mpr ?_
  refine matches_left (wp_asks.mpr ?_)
  rw [id]
  cases hname : st.collections.lookup name with
  | some handle =>
      rw [if_pos (h.mem hname)]
      refine matches_of_wp () cs [] ?_ (wp_pure.mpr ⟨h, hname⟩)
      have hload : Catalog.load name cs ts =
          ⟨.ok (), { cs with loaded := insert name cs.loaded }, []⟩ := rfl
      rw [hload, h.loadAgain hname]
  | none =>
      refine matches_left (wp_device.mpr ?_)
      have hcreated : (disks name .data).isSome = true ↔ name ∈ ts := h.created_iff name
      by_cases hmem : name ∈ ts
      · simp only [hmem, hcreated, if_true]
        refine matches_openAndRegister hconfig h hname ?_
        rw [if_pos hmem]
        rfl
      · simp only [hmem, hcreated, if_false]
        exact matches_fault.mpr ⟨rfl, h⟩

theorem matches_getOrCreate (hconfig : config.Serviceable doms) (h : Stands config doms st disks cs ts) :
    Matches (getOrCreateCollection config name) (Catalog.getOrCreate name) (KeptAll doms)
      (fun handle st' disks' _ cs' ts' => Found config doms name handle st' disks' cs' ts')
      (Refused config doms) st disks cs ts := by
  refine matches_bind (matches_ensureAvailable h ?_)
  have hrun : (do
      let ts ← Prog.device
      Prog.emitAll (if name ∈ ts then [] else [.create name])
      Catalog.load name : CatalogM Unit) cs ts =
      ⟨.ok (), { cs with loaded := insert name cs.loaded }, if name ∈ ts then [] else [.create name]⟩ := by
    change (⟨_, _, _⟩ : Outcome _ _ _ _) = _
    simp
  refine matches_left (wp_asks.mpr ?_)
  rw [id]
  cases hname : st.collections.lookup name with
  | some handle =>
      rw [if_pos (h.mem hname), h.loadAgain hname] at hrun
      exact matches_of_wp _ _ _ hrun (wp_pure.mpr ⟨h, hname⟩)
  | none => exact matches_openAndRegister hconfig h hname hrun

/-! ## Reading and writing -/

omit [LawfulEnv] [BareEntries] in
/-- What is found is open, and has a table. -/
theorem found_open (h : Found config doms name handle st disks cs ts) :
    ∃ c, st.heap.lookup handle = some c ∧ Open config (doms name) c (some (ts.table name)) (disks name) := by
  obtain ⟨c, hc, hopen⟩ := h.stands.opened name handle h.found
  exact ⟨c, hc, Tables.lookup_eq (h.stands.mem h.found) ▸ hopen⟩

omit [LawfulEnv] [BareEntries] in
theorem wp_underRead {α : Type} {read : Collection → Disk → Except Fault α} {C : Family String Disk → Prop}
    {Q : α → AppState → Family String Disk → Prop} {R : Fault → AppState → Family String Disk → Prop}
    (h : Found config doms name handle st disks cs ts)
    (hread : ∀ c, Open config (doms name) c (some (ts.table name)) (disks name) →
      ∃ a, read c (disks name) = .ok a ∧ Q a st disks) :
    wp (underRead name handle read) C Q R st disks := by
  obtain ⟨c, hc, hopen⟩ := found_open h
  obtain ⟨a, ha, hQ⟩ := hread c hopen
  refine wp_bind.mpr (wp_bind.mpr (wp_asks.mpr ?_))
  rw [id, hc]
  refine wp_pure.mpr (wp_bind.mpr (wp_device.mpr (wp_ofExcept.mpr ⟨fun a' ha' => ?_, fun e he => ?_⟩)))
  · rw [ha] at ha'
    cases ha'
    exact hQ
  · rw [ha] at he
    cases he

omit [LawfulEnv] [BareEntries] in
theorem wp_underWrite {α : Type} {op : CollM α} {C : Family String Disk → Prop}
    {Q : α → AppState → Family String Disk → Prop} {R : Fault → AppState → Family String Disk → Prop}
    (h : Found config doms name handle st disks cs ts)
    (hop : ∀ c, Open config (doms name) c (some (ts.table name)) (disks name) →
      wp op (fun d' => C (disks.set name d'))
        (fun a s' d' => Q a { st with heap := st.heap.insert handle s'.coll, draws := s'.draws }
          (disks.set name d'))
        (fun e s' d' => R e { st with heap := st.heap.insert handle s'.coll, draws := s'.draws }
          (disks.set name d'))
        ⟨c, st.draws⟩ (disks name)) :
    wp (underWrite name handle op) C Q R st disks := by
  obtain ⟨c, hc, hopen⟩ := found_open h
  refine wp_bind.mpr (wp_bind.mpr (wp_asks.mpr ?_))
  rw [id, hc]
  exact wp_pure.mpr (wp_focus.mpr (hop c hopen))

omit [LawfulEnv] [BareEntries] in
/-- What is found stays found when it changes behind its handle. -/
theorem found_set {c : Collection} {d : Disk} {g : StoredMap} (us : List DocUpdate)
    (h : Found config doms name handle st disks cs ts) (draws : Nat) (hcreated : d.Created)
    (hserving : Serving config.collection (doms name) c d g (replay us (ts.table name).lookup)
      (replay us (ts.table name).lookup)) :
    Found config doms name handle { st with heap := st.heap.insert handle c, draws } (disks.set name d) cs
      (applyAll (us.map (.update name)) ts) := by
  have hmem := h.stands.mem h.found
  refine ⟨h.stands.setOpen h.found draws ?_ fun name' hne => ?_, h.found⟩
  · rw [Tables.lookup_updates hmem, if_pos rfl]
    refine ⟨⟨g, ?_⟩, hcreated, rfl⟩
    rw [Option.getD_some, Table.lookup_updateAll]
    exact hserving
  · rw [Tables.lookup_updates hmem, if_neg hne]

omit [LawfulEnv] [BareEntries] in
/-- An operation is matched by the updates that it logs. -/
theorem matches_underWrite {α : Type} {op : CollM α} {us : List DocUpdate} {a : α}
    (h : Found config doms name handle st disks cs ts) (hkeeps : EmitsBlocks Keeping op)
    (hop : ∀ c g, Serving config.collection (doms name) c (disks name) g (ts.table name).lookup
        (ts.table name).lookup →
      wp op (fun d' => ∃ j, Recoverable (doms name) (replay (us.take j) (ts.table name).lookup) d')
        (fun a' s' d' => a' = a ∧ ∃ g', Serving config.collection (doms name) s'.coll d' g'
          (replay us (ts.table name).lookup) (replay us (ts.table name).lookup))
        (fun _ _ _ => False) ⟨c, st.draws⟩ (disks name)) :
    Matches (underWrite name handle op) (Catalog.carryOut name us) (KeptAll doms)
      (fun a' st' disks' _ cs' ts' => a' = a ∧ Found config doms name handle st' disks' cs' ts')
      (Refused config doms) st disks cs ts := by
  have hmem := h.stands.mem h.found
  refine matches_of_wp () cs (us.map (.update name)) rfl ?_
  refine wp_underWrite h fun c hopen => ?_
  obtain ⟨g, hserving⟩ := hopen.serving
  refine wp_mono (wp_and (hop c g hserving) (hkeeps.wp_created hopen.created)) ?_ ?_ ?_
  · rintro d' ⟨⟨j, hj⟩, hcreated'⟩
    refine ⟨j, h.stands.kept.set ?_ fun name' hne => ?_⟩
    · rw [← List.map_take, Tables.lookup_updates hmem, if_pos rfl]
      refine ⟨?_, by simp [hcreated']⟩
      rw [Option.getD_some, Table.lookup_updateAll]
      exact hj
    · rw [← List.map_take, Tables.lookup_updates hmem, if_neg hne]
  · rintro a' s' d' ⟨⟨rfl, g', hserving'⟩, hcreated'⟩
    exact ⟨rfl, found_set us h s'.draws hcreated' hserving'⟩
  · exact fun _ _ _ hfalse => hfalse.1

omit [Env] [LawfulEnv] [BareEntries] in
/-- What the catalog reads. -/
theorem matches_table {D E ε σ α β : Type} [Device D E] {p : Prog D E ε σ α} {q : Table → CatalogM β}
    {J : D → Tables → Prop} {Q : α → σ → D → β → CatalogState → Tables → Prop}
    {R : ε → σ → D → Fault → CatalogState → Tables → Prop} {s : σ} {d : D} :
    Matches p (Catalog.table name >>= q) J Q R s d cs ts ↔ Matches p (q (ts.table name)) J Q R s d cs ts :=
  matches_congr rfl

end Service

end
