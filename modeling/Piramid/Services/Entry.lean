-- SUMMARY: Where requests come in: which services check the name of the collection, and that they do it first.
import Piramid.Services.Server

/-!
# Entry points

A service that opens a collection, or creates it, gets it from the collection manager. What comes
before that has no effect, and whether the name is among what is checked there is a property of the
service alone.
-/

open Prog

/-- The service that opens the collection of a request, or creates it. -/
def Request.entryPoint : Request → Option EntryPoint
  | .createCollection _ => some .createCollection
  | .getCollection _ => some .getCollection
  | .collectionCount _ => some .collectionCount
  | .compactCollection _ => some .compactCollection
  | .rebuildIndex _ => some .rebuildIndex
  | .insertVector _ _ => some .insertVector
  | .getVector _ _ => some .getVector
  | .listVectors _ _ => some .listVectors
  | .deleteVector _ _ => some .deleteVector
  | .deleteVectors _ _ => some .deleteVectors
  | .upsertVector _ _ => some .upsertVector
  | .embedText _ _ => some .embedText
  | .listCollections | .deleteCollection _ | .rebuildIndexStatus _ => none

def QueryRequest.entryPoint : QueryRequest → EntryPoint
  | .search _ => .searchVectors
  | .rangeSearch _ => .rangeSearchVectors
  | .textSearch _ => .searchByText

theorem Request.checksName_eq (r : Request) : r.checksName = r.entryPoint.any EntryPoint.validates := by
  cases r <;> rfl

namespace Service

variable [Env] [UnicodeTables] {config : ServerConfig} {w : Surroundings} {name : String} {e : EntryPoint}

/-- What a service does until it has the handle of its collection: `check` is what it checks besides
the name. -/
def enter (config : ServerConfig) (w : Surroundings) (name : String) (e : EntryPoint) (writes creates : Bool)
    (check : Except Fault Unit) : ServiceM CollectionHandle := do
  ensureAvailable
  Prog.when (writes = true) (ensureWriteAllowed config w)
  Prog.ofExcept (if e.validates then validateCollectionName name else .ok ())
  Prog.ofExcept check
  if creates then getOrCreateCollection config name else getExistingCollection config name

/-- A program that begins as the services do that come in at `e`. -/
def Enters (config : ServerConfig) (w : Surroundings) (name : String) (e : EntryPoint) (p : ServiceM Response) :
    Prop :=
  ∃ writes creates check rest, p = enter config w name e writes creates check >>= rest

omit [Env] [UnicodeTables] in
/-- Two checks in a row are one. -/
theorem ofExcept_seq {α : Type} (x y : Except Fault Unit) (p : ServiceM α) :
    (Prog.ofExcept (x >>= fun _ => y) >>= fun _ => p) =
      Prog.ofExcept x >>= fun _ => Prog.ofExcept y >>= fun _ => p := by
  cases x <;> rfl

theorem enter_bind (writes creates : Bool) (check : Except Fault Unit)
    (rest : CollectionHandle → ServiceM Response) :
    enter config w name e writes creates check >>= rest = (do
      ensureAvailable
      Prog.when (writes = true) (ensureWriteAllowed config w)
      Prog.ofExcept (if e.validates then validateCollectionName name else .ok ())
      Prog.ofExcept check
      let handle ← (if creates then getOrCreateCollection config name else getExistingCollection config name)
      rest handle) := by
  simp only [enter, Prog.bind_bind]

/-- Every service checks the name, or leaves it unchecked, as its entry point says. -/
theorem request_enters [UuidText] {r : Request} (he : r.entryPoint = some e) (hname : r.name? = some name) :
    Enters config w name e (r.serve config w) := by
  cases r with
  | listCollections => cases he
  | deleteCollection name => cases he
  | rebuildIndexStatus name => cases he
  | createCollection name =>
      cases he
      cases hname
      refine ⟨false, true, .ok (), ?_, ?_⟩
      on_goal 2 =>
        simp only [enter_bind, EntryPoint.validates, Prog.when, Bool.false_eq_true, if_false, if_true,
          Prog.pure_then, Prog.ofExcept_ok_then]
        rfl
  | getCollection name | collectionCount name | compactCollection name | rebuildIndex name
  | getVector name _ | listVectors name _ =>
      cases he
      cases hname
      refine ⟨false, false, .ok (), ?_, ?_⟩
      on_goal 2 =>
        simp only [enter_bind, EntryPoint.validates, Prog.when, Bool.false_eq_true, if_false, Prog.pure_then,
          Prog.ofExcept_ok_then]
        rfl
  | insertVector name req =>
      cases he
      cases hname
      refine ⟨true, true, .ok (), ?_, ?_⟩
      on_goal 2 =>
        simp only [enter_bind, EntryPoint.validates, Prog.when, if_true, Prog.ofExcept_ok_then]
        rfl
  | deleteVector name id =>
      cases he
      cases hname
      refine ⟨true, false, .ok (), ?_, ?_⟩
      on_goal 2 =>
        simp only [enter_bind, EntryPoint.validates, Prog.when, Bool.false_eq_true, if_false, if_true,
          Prog.ofExcept_ok_then]
        rfl
  | deleteVectors name ids =>
      cases he
      cases hname
      refine ⟨true, false, validateBatchSize ids.length maxBatchSize "Delete", ?_, ?_⟩
      on_goal 2 =>
        simp only [enter_bind, EntryPoint.validates, Prog.when, Bool.false_eq_true, if_false, if_true]
        rfl
  | upsertVector name req =>
      cases he
      cases hname
      refine ⟨true, true, (do validateText req.text; validateVector req.vector), ?_, ?_⟩
      on_goal 2 =>
        simp only [enter_bind, EntryPoint.validates, Prog.when, if_true, ofExcept_seq]
        rfl
  | embedText name req =>
      cases he
      cases hname
      refine ⟨true, true, .ok (), ?_, ?_⟩
      on_goal 2 =>
        simp only [enter_bind, EntryPoint.validates, Prog.when, Bool.false_eq_true, if_false, if_true,
          Prog.ofExcept_ok_then]
        rfl

theorem query_enters [Lowercase] (r : QueryRequest) :
    Enters config w name r.entryPoint (query config w name r) := by
  cases r with
  | search req =>
      refine ⟨false, false, .ok (), ?_, ?_⟩
      on_goal 2 =>
        simp only [enter_bind, QueryRequest.entryPoint, EntryPoint.validates, Prog.when,
          Bool.false_eq_true, if_false, if_true, Prog.pure_then, Prog.ofExcept_ok_then, query, locate,
          QueryRequest.precheck, Prog.bind_bind]
        rfl
  | rangeSearch req =>
      refine ⟨false, false, validateVector req.vector, ?_, ?_⟩
      on_goal 2 =>
        simp only [enter_bind, QueryRequest.entryPoint, EntryPoint.validates, Prog.when,
          Bool.false_eq_true, if_false, if_true, Prog.pure_then, query, locate,
          QueryRequest.precheck, Prog.bind_bind, ofExcept_seq]
        rfl
  | textSearch req =>
      refine ⟨false, false, .ok (), ?_, ?_⟩
      on_goal 2 =>
        simp only [enter_bind, QueryRequest.entryPoint, EntryPoint.validates, Prog.when,
          Bool.false_eq_true, if_false, Prog.pure_then, Prog.ofExcept_ok_then, query, locate,
          QueryRequest.precheck, Prog.bind_bind]
        rfl

/-- No file is touched, and no collection is loaded. -/
def Untouched (st : AppState) (disks : Family String Disk) (st' : AppState) (disks' : Family String Disk) :
    Prop :=
  st'.collections = st.collections ∧ st'.heap = st.heap ∧ disks' = disks

variable {C : Family String Disk → Prop} {Q : Unit → AppState → Family String Disk → Prop} {st : AppState}
  {disks : Family String Disk}

omit [Env] [UnicodeTables] in
theorem wp_ensureAvailable_untouched (hQ : Q () st disks) :
    wp ensureAvailable C Q (fun _ => Untouched st disks) st disks := by
  refine wp_bind.mpr (wp_asks.mpr ?_)
  split
  · exact wp_fault.mpr ⟨rfl, rfl, rfl⟩
  · exact wp_pure.mpr hQ

omit [Env] [UnicodeTables] in
theorem wp_ensureWriteAllowed_untouched (hQ : Q () st disks) :
    wp (ensureWriteAllowed config w) C Q (fun _ => Untouched st disks) st disks := by
  refine wp_bind.mpr (wp_asks.mpr ?_)
  split
  · exact wp_fault.mpr ⟨rfl, rfl, rfl⟩
  split
  · exact wp_fault.mpr ⟨rfl, rfl, rfl⟩
  split
  · exact wp_pure.mpr hQ
  refine wp_bind.mpr (wp_ofExcept.mpr ⟨fun free _ => ?_, fun _ _ => ⟨rfl, rfl, rfl⟩⟩)
  split
  · exact wp_pure.mpr hQ
  split
  · exact wp_bind.mpr (wp_modify.mpr (wp_fault.mpr ⟨rfl, rfl, rfl⟩))
  · exact wp_pure.mpr hQ

/-- A name that the entry point does not accept is refused before the service has any effect. -/
theorem Enters.refuses {p : ServiceM Response} (h : Enters config w name e p) (hname : ¬e.Accepts name)
    (st : AppState) (disks : Family String Disk) :
    wp p (fun _ => False) (fun _ _ _ => False) (fun _ => Untouched st disks) st disks := by
  obtain ⟨hval, hbad⟩ := Classical.not_imp.mp hname
  obtain ⟨writes, creates, check, rest, rfl⟩ := h
  rw [enter_bind, hval, if_pos rfl]
  refine wp_bind.mpr (wp_ensureAvailable_untouched ?_)
  have hrefused : wp (Prog.ofExcept (validateCollectionName name) >>= fun _ => Prog.ofExcept check >>= fun _ =>
      (if creates then getOrCreateCollection config name else getExistingCollection config name) >>= rest)
      (fun _ => False) (fun _ _ _ => False) (fun _ => Untouched st disks) st disks :=
    wp_bind.mpr (wp_ofExcept.mpr ⟨fun _ hok => absurd hok hbad, fun _ _ => ⟨rfl, rfl, rfl⟩⟩)
  exact wp_bind.mpr (wp_when.mpr ⟨fun _ => wp_ensureWriteAllowed_untouched hrefused, fun _ => hrefused⟩)

theorem Enters.untouched {p : ServiceM Response} (h : Enters config w name e p) (hname : ¬e.Accepts name)
    (st : AppState) (disks : Family String Disk) :
    Untouched st disks (p st disks).state (p.final st disks) := by
  have hrefuses := h.refuses hname st disks
  cases hresult : (p st disks).result with
  | ok response => exact (wp_ok hrefuses hresult).elim
  | error fault => exact wp_error hrefuses hresult

end Service

namespace Server

variable [Env] [UnicodeTables] [UuidText] [Lowercase] {config : ServerConfig} {w : Surroundings} {name : String}

/-- No request gets to the files, or to a collection, through a name that its entry point does not
accept. -/
theorem request_untouched {r : Request} {e : EntryPoint} (he : r.entryPoint = some e)
    (hname : r.name? = some name) (hbad : ¬e.Accepts name) (s : Server) :
    (s.step config (.request w r)).disks = s.disks ∧
      (s.step config (.request w r)).app.collections = s.app.collections := by
  have henters : Service.Enters config w name e (r.serve config w) := Service.request_enters he hname
  obtain ⟨hcollections, -, hdisks⟩ := henters.untouched hbad s.app s.disks
  exact ⟨hdisks, hcollections⟩

theorem query_untouched {r : QueryRequest} (hbad : ¬r.entryPoint.Accepts name) (s : Server) :
    (s.step config (.query w name r)).disks = s.disks ∧
      (s.step config (.query w name r)).app.collections = s.app.collections := by
  have henters : Service.Enters config w name r.entryPoint (Service.query config w name r) :=
    Service.query_enters r
  obtain ⟨hcollections, -, hdisks⟩ := henters.untouched hbad s.app s.disks
  exact ⟨hdisks, hcollections⟩

end Server
