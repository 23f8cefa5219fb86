-- SUMMARY: The server in a run: requests, rebuilds in the background, crashes. What its clients are told is what the catalog says.
import Piramid.Base.Simulation
import Piramid.Services.Queries
import Piramid.Services.Requests

/-!
# The server

Requests come one after the other, and rebuilds are carried out between them. A process that stops
between any two effects leaves its files to the next one. The server refines the catalog in every
run in which the documents can be stored, the names are those of separate files, no collection is
deleted while a rebuild of it is pending, and no crash falls into a compaction or a deletion.
-/

open Device Prog Simulation

/-- `initiate_shutdown`. -/
def AppState.initiateShutdown (st : AppState) : AppState := { st with shuttingDown := true }

/-- What happens to the server. -/
inductive ServerEvent where
  | request (w : Surroundings) (r : Request)
  /-- A search of a collection. -/
  | query (w : Surroundings) (name : String) (r : QueryRequest)
  /-- Job number `i` in the background is carried out. -/
  | runTask (w : Surroundings) (i : Nat)
  | initiateShutdown
  /-- The process stops after `k` effects of a request, and another one is started. -/
  | crashRequest (w : Surroundings) (r : Request) (k : Nat)
  | crashQuery (w : Surroundings) (name : String) (r : QueryRequest) (k : Nat)
  /-- The same, in a job in the background. -/
  | crashTask (w : Surroundings) (i k : Nat)

structure Server where
  app : AppState
  disks : Family String Disk
  /-- What the clients were told, in order. -/
  replies : List (Except Fault Response)

namespace Server

/-- A first process on an empty data directory. -/
def fresh : Server := ⟨.new 0, fun _ => Disk.empty, []⟩

/-- The job that is number `i`, and the state without it. -/
def takeTask (st : AppState) (i : Nat) : Option (RebuildTask × AppState) :=
  st.tasks[i]?.map fun task => (task, { st with tasks := st.tasks.eraseIdx i })

variable [Env] [UnicodeTables] [UuidText] [Lowercase] (config : ServerConfig)

def step (s : Server) : ServerEvent → Server
  | .request w r =>
    let p := r.serve config w
    ⟨(p s.app s.disks).state, p.final s.app s.disks, s.replies ++ [(p s.app s.disks).result]⟩
  | .query w name r =>
    let p := Service.query config w name r
    ⟨(p s.app s.disks).state, p.final s.app s.disks, s.replies ++ [(p s.app s.disks).result]⟩
  | .runTask w i =>
    match takeTask s.app i with
    | none => s
    | some (task, app) =>
      let p := Service.runTask w task
      { s with app := (p app s.disks).state, disks := p.final app s.disks }
  | .initiateShutdown => { s with app := s.app.initiateShutdown }
  | .crashRequest w r k =>
    let p := r.serve config w
    { s with app := .new (p s.app s.disks).state.draws, disks := p.crash k s.app s.disks }
  | .crashQuery w name r k =>
    let p := Service.query config w name r
    { s with app := .new (p s.app s.disks).state.draws, disks := p.crash k s.app s.disks }
  | .crashTask w i k =>
    match takeTask s.app i with
    | none => { s with app := .new s.app.draws }
    | some (task, app) =>
      let p := Service.runTask w task
      { s with app := .new (p app s.disks).state.draws, disks := p.crash k app s.disks }

def run (s : Server) (events : List ServerEvent) : Server := events.foldl (step config) s

end Server

/-- The catalog in the place of the server. -/
structure CatalogServer where
  state : CatalogState
  tables : Tables
  replies : List (Except Fault Response)

namespace CatalogServer

def fresh : CatalogServer := ⟨Catalog.start, ∅, []⟩

section

variable [Env] [UnicodeTables] [UuidText] (config : ServerConfig)

/-- What an event may do to the catalog. -/
inductive Step : CatalogServer → ServerEvent → CatalogServer → Prop
  | request {a : CatalogServer} {w : Surroundings} {r : Request} :
    Step a (.request w r) ⟨(r.answer config w a.state a.tables).state,
      (r.answer config w).final a.state a.tables,
      a.replies ++ [(r.answer config w a.state a.tables).result]⟩
  /-- A search may find any documents of the table. -/
  | queried {a : CatalogServer} {w : Surroundings} {name : String} {r : QueryRequest}
    {reply : Except Fault Response} (hreply : Catalog.MayReply config w name r a.state a.tables reply) :
    Step a (.query w name r) ⟨(Catalog.prepare name r a.state a.tables).state, a.tables, a.replies ++ [reply]⟩
  | ran {a : CatalogServer} {w : Surroundings} {i : Nat} {task : String × Nat}
    (htask : a.state.tasks[i]? = some task) :
    Step a (.runTask w i)
      { a with state := (Catalog.runTask w task { a.state with tasks := a.state.tasks.eraseIdx i }
          a.tables).state }
  | noTask {a : CatalogServer} {w : Surroundings} {i : Nat} (htask : a.state.tasks[i]? = none) :
    Step a (.runTask w i) a
  | shutdown {a : CatalogServer} :
    Step a .initiateShutdown { a with state := { a.state with shuttingDown := true } }
  /-- A request that is cut off has had some first effects, and nobody is told. -/
  | requestStopped {a : CatalogServer} {w : Surroundings} {r : Request} {k : Nat} (j : Nat) :
    Step a (.crashRequest w r k) ⟨Catalog.start, (r.answer config w).crash j a.state a.tables, a.replies⟩
  | queryStopped {a : CatalogServer} {w : Surroundings} {name : String} {r : QueryRequest} {k : Nat} :
    Step a (.crashQuery w name r k) ⟨Catalog.start, a.tables, a.replies⟩
  | taskStopped {a : CatalogServer} {w : Surroundings} {i k : Nat} :
    Step a (.crashTask w i k) ⟨Catalog.start, a.tables, a.replies⟩

end

/-- What is asked of a request. Collections with names that pass `validate_collection_name` have no
file in common. -/
structure Fit [Env] [UnicodeTables] [UuidText] (doms : String → VectorDomain) (w : Surroundings) (r : Request)
    (cs : CatalogState) : Prop where
  named : ∀ name, r.name? = some name → r.checksName = false → validateCollectionName name = .ok ()
  sound : ∀ name, r.name? = some name → ∀ doc ∈ r.writes w, doc.Sound (doms name)
  idle : ∀ name, r = .deleteCollection name → ∀ task ∈ cs.tasks, task.1 ≠ name

/-- What is asked of a search: a search by text does not check the name of its collection. -/
def Named [UnicodeTables] (name : String) (r : QueryRequest) : Prop :=
  ∀ req, r = .textSearch req → validateCollectionName name = .ok ()

/-- What is asked of an event. -/
def Admits [Env] [UnicodeTables] [UuidText] (doms : String → VectorDomain) (a : CatalogServer) :
    ServerEvent → Prop
  | .request w r => Fit doms w r a.state
  | .crashRequest w r _ => Fit doms w r a.state ∧ r.interruptible = true
  | .query _ name r | .crashQuery _ name r _ => Named name r
  | .runTask _ _ | .initiateShutdown | .crashTask _ _ _ => True

end CatalogServer

section

variable [Env] {config : ServerConfig} {doms : String → VectorDomain}

/-- The server stands where the catalog does, and its clients were told the same. -/
structure Server.Agrees (config : ServerConfig) (doms : String → VectorDomain) (s : Server) (a : CatalogServer) :
    Prop where
  stands : Stands config doms s.app s.disks a.state a.tables
  replies : s.replies.map (Except.map Response.summary) = a.replies

/-- A process that has just been started. -/
theorem KeptAll.restart {disks : Family String Disk} {ts : Tables} (h : KeptAll doms disks ts) (draws : Nat) :
    Stands config doms (.new draws) disks Catalog.start ts where
  shuttingDown := rfl
  readOnly := rfl
  rebuildJobs := rfl
  tasks := rfl
  loaded := by simp [AppState.new, Catalog.start]
  opened := fun name handle hname => by simp [AppState.new] at hname
  closed := fun name _ => h name
  own := fun name name' handle hname => by simp [AppState.new] at hname
  old := fun name handle hname => by simp [AppState.new] at hname
  held := fun task htask => by simp [AppState.new] at htask

theorem keptAll_fresh : KeptAll doms Server.fresh.disks ∅ := fun _ =>
  ⟨.of_none rfl rfl rfl rfl rfl, by simp [Server.fresh, Disk.Created, Disk.empty]⟩

/-- A job is taken from those in the background. -/
theorem Stands.takeTask {st st' : AppState} {disks : Family String Disk} {cs : CatalogState} {ts : Tables}
    {i : Nat} {task : RebuildTask} (h : Stands config doms st disks cs ts)
    (htask : Server.takeTask st i = some (task, st')) :
    cs.tasks[i]? = some (task.collection, task.startedAt) ∧
      Found config doms task.collection task.handle st' disks
        { cs with tasks := cs.tasks.eraseIdx i } ts := by
  obtain ⟨task', hget, heq⟩ := Option.map_eq_some_iff.mp htask
  cases heq
  refine ⟨by rw [← h.tasks, List.getElem?_map, hget]; rfl, ?_, h.held task (List.mem_of_getElem? hget)⟩
  exact { h with
    tasks := by
      change (st.tasks.eraseIdx i).map _ = cs.tasks.eraseIdx i
      rw [← h.tasks, List.eraseIdx_map]
    held := fun task' htask' => h.held task' (List.mem_of_mem_eraseIdx htask') }

namespace Server

variable [LawfulEnv] [BareEntries] [UnicodeTables] [UuidText] [Lowercase] {s : Server} {a : CatalogServer}

/-- Each event of the server is one of the catalog. -/
theorem Agrees.step {e : ServerEvent} (h : s.Agrees config doms a) (hconfig : config.Serviceable doms)
    (hfit : a.Admits doms e) :
    ∃ b, CatalogServer.Step config a e b ∧ (s.step config e).Agrees config doms b := by
  cases e with
  | request w r =>
      have hmirrors := r.mirrors (w := w) hconfig h.stands hfit.sound hfit.idle
      refine ⟨_, .request, ?_⟩
      cases hresult : (r.serve config w s.app s.disks).result with
      | ok reply =>
          obtain ⟨reply', hreply', hsummary, hstands⟩ := hmirrors.ok hresult
          refine ⟨hstands, ?_⟩
          simp only [Server.step, List.map_append, h.replies, hresult, hreply', List.map_cons, List.map_nil,
            Except.map, hsummary]
      | error e =>
          obtain ⟨e', he', rfl, hstands⟩ := hmirrors.error hresult
          refine ⟨hstands, ?_⟩
          simp only [Server.step, List.map_append, h.replies, hresult, he', List.map_cons, List.map_nil,
            Except.map]
  | query w name r =>
      have hquery : wp (Service.query config w name r) _ _ _ s.app s.disks :=
        Service.wp_query hconfig h.stands
      cases hresult : (Service.query config w name r s.app s.disks).result with
      | ok response =>
          obtain ⟨hstands, hreply⟩ := wp_ok hquery hresult
          refine ⟨_, .queried hreply, hstands, ?_⟩
          have hsame : response.summary = response := hreply.summary
          simp only [Server.step, List.map_append, h.replies, hresult, List.map_cons, List.map_nil,
            Except.map, hsame]
      | error e =>
          obtain ⟨hstands, hreply⟩ := wp_error hquery hresult
          refine ⟨_, .queried hreply, hstands, ?_⟩
          simp only [Server.step, List.map_append, h.replies, hresult, List.map_cons, List.map_nil, Except.map]
  | runTask w i =>
      cases htake : takeTask s.app i with
      | none =>
          have hnone : a.state.tasks[i]? = none := by
            rw [← h.stands.tasks, List.getElem?_map, Option.map_eq_none_iff]
            exact Option.map_eq_none_iff.mp htake
          refine ⟨a, .noTask hnone, ?_⟩
          simpa only [Server.step, htake] using h
      | some taken =>
          obtain ⟨task, st⟩ := taken
          obtain ⟨htask, hfound⟩ := h.stands.takeTask htake
          have hmirrors := Service.runTask_mirrors (w := w) hfound
          refine ⟨_, .ran htask, ?_⟩
          simp only [Server.step, htake]
          cases hresult : (Service.runTask w task st s.disks).result with
          | ok _ =>
              obtain ⟨-, -, hstands⟩ := hmirrors.ok hresult
              exact ⟨hstands, h.replies⟩
          | error e =>
              obtain ⟨-, -, hfalse⟩ := hmirrors.error hresult
              exact hfalse.elim
  | initiateShutdown =>
      exact ⟨_, .shutdown, { h.stands with shuttingDown := rfl }, h.replies⟩
  | crashRequest w r k =>
      obtain ⟨hfit, hr⟩ := hfit
      have hmirrors := r.mirrors (w := w) hconfig h.stands hfit.sound hfit.idle
      obtain ⟨j, hj⟩ := hmirrors.crash (fun _ => h.stands.kept) k
      exact ⟨_, .requestStopped j, (hj hr).restart _, h.replies⟩
  | crashQuery w name r k =>
      have hquery : wp (Service.query config w name r) _ _ _ s.app s.disks :=
        Service.wp_query hconfig h.stands
      exact ⟨_, .queryStopped, (wp_crash hquery h.stands.kept k).restart _, h.replies⟩
  | crashTask w i k =>
      cases htake : takeTask s.app i with
      | none =>
          refine ⟨_, .taskStopped, ?_⟩
          simp only [Server.step, htake]
          exact ⟨h.stands.kept.restart _, h.replies⟩
      | some taken =>
          obtain ⟨task, st⟩ := taken
          obtain ⟨htask, hfound⟩ := h.stands.takeTask htake
          obtain ⟨j, hj⟩ := (Service.runTask_mirrors (w := w) hfound).crash h.stands.kept k
          refine ⟨_, .taskStopped, ?_⟩
          simp only [Server.step, htake]
          have hsame : (Catalog.runTask w (task.collection, task.startedAt)).crash j
              { a.state with tasks := a.state.tasks.eraseIdx i } a.tables = a.tables := by
            simp [Prog.crash, Catalog.runTask, Prog.modify]
          rw [hsame] at hj
          exact ⟨hj.restart _, h.replies⟩

/-- Each run of the server is one of the catalog. -/
theorem Agrees.run {events : List ServerEvent} (h : s.Agrees config doms a)
    (hconfig : config.Serviceable doms)
    (hfit : Always (CatalogServer.Step config) (CatalogServer.Admits doms) a events) :
    ∃ b, Steps (CatalogServer.Step config) a events b ∧ (s.run config events).Agrees config doms b := by
  obtain ⟨-, hrun⟩ := Simulation.run (R := fun _ _ => True) (G := fun _ _ => True)
    (fun s a e hs ha _ => ⟨trivial, hs.step hconfig ha⟩) h hfit (.of_forall (fun _ _ _ => trivial) _)
  exact hrun

omit [LawfulEnv] [BareEntries] [UnicodeTables] [UuidText] [Lowercase] in
theorem agrees_fresh : fresh.Agrees config doms CatalogServer.fresh := ⟨keptAll_fresh.restart 0, rfl⟩

/-- Whatever happens to a server that begins with an empty data directory, its clients are told what
those of the catalog are. Where a crash stops a request or a job, the next process goes on from what
the catalog has after some first effects of it. -/
theorem run_refines (config : ServerConfig) (doms : String → VectorDomain) (hconfig : config.Serviceable doms)
    {events : List ServerEvent}
    (hfit : Always (CatalogServer.Step config) (CatalogServer.Admits doms) CatalogServer.fresh events) :
    ∃ a, Steps (CatalogServer.Step config) CatalogServer.fresh events a ∧
      (fresh.run config events).replies.map (Except.map Response.summary) = a.replies := by
  obtain ⟨a, hsteps, hagrees⟩ := agrees_fresh.run hconfig hfit
  exact ⟨a, hsteps, hagrees.replies⟩

end Server

end

/-! ## A run with a crash -/

section

attribute [local instance] Reference.flat asciiLowercase

/-- No letters but those of ASCII. -/
local instance noOtherLetters : UnicodeTables := ⟨fun _ => false⟩

/-- There is one id that is ever asked for. -/
local instance zeroId : UuidText := ⟨fun _ => some 0⟩

def linkedServer : ServerConfig := ⟨"./data", Reference.linkedConfig, none, false⟩

def plainSurroundings : Surroundings where
  diskFreeBytes := .ok none
  newV4 := fun n => BitVec.ofNat 128 n
  now := 0
  names := .sortedBy id Function.injective_id
  ids := Bincode.idOrder
  fields := .sortedBy id Function.injective_id
  embedder := none

def insertOne : InsertRequest where
  vector := some [F32.one]
  vectors := none
  text := some "a"
  texts := none
  metadata := ∅
  metadataList := []
  normalize := false

/-- The second insert is stopped after one effect. -/
def cutInsert : List ServerEvent :=
  [.request plainSurroundings (.insertVector "c" insertOne),
    .crashRequest plainSurroundings (.insertVector "c" insertOne) 1,
    .request plainSurroundings (.getVector "c" (Uuid.display 0))]

theorem insertOne_sound :
    ∀ doc ∈ Request.writes plainSurroundings (.insertVector "c" insertOne), doc.Sound Reference.ones := by
  have hwrites : Request.writes plainSurroundings (.insertVector "c" insertOne) =
      [{ Reference.doc 0 1 with text := "a" }] := by rfl
  intro doc hdoc
  rw [hwrites, List.mem_singleton] at hdoc
  rw [hdoc]
  exact Reference.doc_sound 0 "a" (by decide +kernel)

theorem linkedServer_serviceable : linkedServer.Serviceable (fun _ => Reference.ones) :=
  ⟨fun _ => Reference.linked_replayable, .inr rfl⟩

theorem fit_insertOne (w : Surroundings)
    (hdocs : ∀ doc ∈ Request.writes w (.insertVector "c" insertOne), doc.Sound Reference.ones) (cs : CatalogState) :
    CatalogServer.Fit (fun _ => Reference.ones) w (.insertVector "c" insertOne) cs :=
  ⟨fun _ _ h => (by cases h), fun _ _ => hdocs, fun _ h => by cases h⟩

theorem fit_get (cs : CatalogState) :
    CatalogServer.Fit (fun _ => Reference.ones) plainSurroundings (.getVector "c" (Uuid.display 0)) cs := by
  refine ⟨fun name hname _ => ?_, fun _ _ _ h => (by cases h), fun _ h => by cases h⟩
  cases hname
  rfl

theorem cut_insert_refines :
    ∃ a, Steps (CatalogServer.Step linkedServer) CatalogServer.fresh cutInsert a ∧
      (Server.fresh.run linkedServer cutInsert).replies.map (Except.map Response.summary) = a.replies := by
  refine Server.run_refines linkedServer (fun _ => Reference.ones) linkedServer_serviceable ?_
  exact ⟨fit_insertOne _ insertOne_sound _, fun _ _ => ⟨⟨fit_insertOne _ insertOne_sound _, rfl⟩,
    fun _ _ => ⟨fit_get _, fun _ _ => trivial⟩⟩⟩

end
