-- SUMMARY: What a client was told is stored stays, and what it was told is gone stays gone, whatever crashes come between.
import Piramid.Services.Bindings

/-!
# Acknowledged requests

In the catalog a document stays under its id until a request touches it, and an id stays free until
a request stores something there. The server refines the catalog, so the same is true of what its
clients read, across crashes, restarts, rebuilds and compactions.
-/

open Device Prog Simulation

/-! ## Runs of the server -/

section

variable [Env] [LawfulEnv] [BareEntries] [UnicodeTables] [UuidText] [Lowercase]

namespace Server

variable {config : ServerConfig} {doms : String → VectorDomain} {s : Server} {a : CatalogServer}

omit [LawfulEnv] [BareEntries] in
theorem run_append (events events' : List ServerEvent) :
    s.run config (events ++ events') = (s.run config events).run config events' :=
  List.foldl_append

omit [LawfulEnv] [BareEntries] in
theorem run_concat (events : List ServerEvent) (e : ServerEvent) :
    s.run config (events ++ [e]) = (s.run config events).step config e := by
  rw [run_append]
  rfl

/-- The reply to a request is the answer of the catalog. -/
theorem Agrees.reply (h : s.Agrees config doms a) (hconfig : config.Serviceable doms) {w : Surroundings}
    {r : Request} (hfit : CatalogServer.Fit doms w r a.state) :
    (r.serve config w s.app s.disks).result.map Response.summary =
        (r.answer config w a.state a.tables).result ∧
      (s.step config (.request w r)).Agrees config doms ⟨(r.answer config w a.state a.tables).state,
        (r.answer config w).final a.state a.tables,
        a.replies ++ [(r.answer config w a.state a.tables).result]⟩ := by
  obtain ⟨b, hstep, hagrees⟩ := h.step (e := .request w r) hconfig hfit
  cases hstep
  refine ⟨?_, hagrees⟩
  have hreplies := hagrees.replies
  rw [Server.step, List.map_append, h.replies] at hreplies
  simpa using List.append_cancel_left hreplies

/-- What the catalog answers, the server answers. -/
theorem Agrees.answered (h : s.Agrees config doms a) (hconfig : config.Serviceable doms)
    {w : Surroundings} {r : Request} (hfit : CatalogServer.Fit doms w r a.state)
    (hanswer : ∃ response, (r.answer config w a.state a.tables).result = .ok response) :
    ∃ response, (s.step config (.request w r)).replies.getLast? = some (.ok response) := by
  obtain ⟨hreply, -⟩ := h.reply hconfig hfit
  obtain ⟨response', hanswer⟩ := hanswer
  rw [Server.step, List.getLast?_concat]
  cases hresult : (r.serve config w s.app s.disks).result with
  | ok response => exact ⟨response, rfl⟩
  | error e =>
      rw [hresult, hanswer] at hreply
      cases hreply

/-- What holds of the tables holds later on, if no event in between undoes it. -/
theorem Agrees.keeps (h : s.Agrees config doms a) (hconfig : config.Serviceable doms) {I : Tables → Prop}
    {after : List ServerEvent} {last : ServerEvent} (hI : I a.tables)
    (hkeeps : ∀ e ∈ after, ∀ w r, e.request? = some (w, r) → Keeps I (r.answer config w))
    (hfit : Always (CatalogServer.Step config) (CatalogServer.Admits doms) a (after ++ [last])) :
    ∃ b, (s.run config after).Agrees config doms b ∧ I b.tables ∧ b.Admits doms last := by
  obtain ⟨hafter, hlast⟩ := hfit.append
  obtain ⟨b, hsteps, hagrees⟩ := h.run hconfig hafter
  have hkept := hsteps.keep (I := fun a => I a.tables)
    (fun e he a b hstep => hstep.keeps (hkeeps e he)) hI
  exact ⟨b, hagrees, hkept, (hlast b hsteps).1⟩

/-- What an answered request has brought about holds later on, if no event in between undoes it. -/
theorem Agrees.established (hconfig : config.Serviceable doms) {I : Tables → Prop}
    {before after : List ServerEvent} {last : ServerEvent} {w : Surroundings} {r : Request}
    {response : Response} (hok : (fresh.run config (before ++ [.request w r])).replies.getLast? =
      some (.ok response))
    (hmade : ∀ cs ts, wp (r.answer config w) (fun _ => True)
      (fun response' _ ts => response.summary = response' → I ts) (fun _ _ _ => True) cs ts)
    (hkeeps : ∀ e ∈ after, ∀ w r, e.request? = some (w, r) → Keeps I (r.answer config w))
    (hfit : Always (CatalogServer.Step config) (CatalogServer.Admits doms) CatalogServer.fresh
      ((before ++ [.request w r]) ++ (after ++ [last]))) :
    ∃ a, (fresh.run config ((before ++ [.request w r]) ++ after)).Agrees config doms a ∧ I a.tables ∧
      a.Admits doms last := by
  obtain ⟨hfit₁, hrest⟩ := hfit.append
  obtain ⟨hbefore, hrequest⟩ := hfit₁.append
  obtain ⟨a₀, hsteps₀, hagrees₀⟩ := agrees_fresh.run hconfig hbefore
  obtain ⟨hreply, hagrees₁⟩ := hagrees₀.reply hconfig (hrequest a₀ hsteps₀).1
  have hrequested : Steps (CatalogServer.Step config) a₀ [.request w r] _ := .head .request .refl
  have hsteps₁ := hsteps₀.append hrequested
  -- the request was answered, and so it was in the catalog
  rw [run_concat, Server.step, List.getLast?_concat, Option.some.injEq] at hok
  rw [hok] at hreply
  have hestablished := wp_ok (hmade _ _) hreply.symm rfl
  -- nothing undoes it afterwards
  rw [run_append, run_concat]
  exact hagrees₁.keeps hconfig hestablished hkeeps (hrest _ hsteps₁)

/-- A document that is there is what a client reads, unless the server is shutting down. -/
theorem Agrees.read (h : s.Agrees config doms a) (hconfig : config.Serviceable doms) {w : Surroundings}
    {name text : String} {id : Uuid} {doc : Document} (hholds : a.tables.Holds name id doc)
    (htext : UuidText.parseStr text = some id)
    (hfit : a.Admits doms (.request w (.getVector name text))) :
    (s.step config (.request w (.getVector name text))).replies = s.replies ++
      [if s.app.shuttingDown then .error .shuttingDown
        else .ok (.vector ⟨doc.id.display, doc.vector, doc.text, metadataToJson w.fields doc.metadata⟩)] := by
  obtain ⟨hread, -⟩ := h.reply hconfig hfit
  have hanswer := Catalog.wp_getVector a.state (w := w) hholds htext
  rw [h.stands.shuttingDown]
  refine congrArg (s.replies ++ [·]) ?_
  cases hresult : ((Request.getVector name text).serve config w s.app s.disks).result with
  | ok reply =>
      rw [hresult] at hread
      obtain ⟨hup, heq⟩ := wp_ok hanswer hread.symm
      rw [hup]
      cases reply with
      | vector vector => exact congrArg Except.ok heq
      | _ => cases heq
  | error e =>
      rw [hresult] at hread
      obtain ⟨hdown, heq⟩ := wp_error hanswer hread.symm
      rw [hdown, heq]
      rfl

/-- What a client was told is stored can be read for as long as no event touches it, whatever comes
between: other requests, rebuilds, compactions, crashes and restarts. -/
theorem acknowledged_survives (config : ServerConfig) (doms : String → VectorDomain)
    (hconfig : config.Serviceable doms) {before after : List ServerEvent} {w w' : Surroundings} {r : Request}
    {name text : String} {id : Uuid} {doc : Document} {response : Response} (hname : r.name? = some name)
    (hwritten : r.written w id = some doc) (htext : UuidText.parseStr text = some id)
    (hok : (fresh.run config (before ++ [.request w r])).replies.getLast? = some (.ok response))
    (hafter : ∀ e ∈ after, ∀ w r, e.request? = some (w, r) → ¬r.Touches w name id)
    (hfit : Always (CatalogServer.Step config) (CatalogServer.Admits doms) CatalogServer.fresh
      ((before ++ [.request w r]) ++ (after ++ [.request w' (.getVector name text)]))) :
    let s := fresh.run config ((before ++ [.request w r]) ++ after)
    (s.step config (.request w' (.getVector name text))).replies = s.replies ++
      [if s.app.shuttingDown then .error .shuttingDown
        else .ok (.vector ⟨doc.id.display, doc.vector, doc.text, metadataToJson w'.fields doc.metadata⟩)] := by
  intro s
  have hmade : ∀ cs ts, wp (r.answer config w) (fun _ => True)
      (fun response' _ ts => response.summary = response' → ts.Holds name id doc) (fun _ _ _ => True) cs ts :=
    fun cs ts => wp_mono (Catalog.answer_stores hname hwritten) (fun _ h => h) (fun _ _ _ h _ => h)
      fun _ _ _ h => h
  obtain ⟨a, hagrees, hholds, hget⟩ := Agrees.established hconfig hok hmade
    (fun e he w r hr => Catalog.answer_holds (hafter e he w r hr)) hfit
  exact hagrees.read hconfig hholds htext hget

/-- What a client was told is gone stays gone until a request stores it again: no crash, restart,
rebuild or compaction brings it back. -/
theorem deleted_stays_gone (config : ServerConfig) (doms : String → VectorDomain)
    (hconfig : config.Serviceable doms) {before after : List ServerEvent} {w w' : Surroundings} {r : Request}
    {name text : String} {id : Uuid} {response : Response} (hremoves : r.Removes name id)
    (hdeleted : r = .deleteCollection name → response = .deleted true)
    (htext : UuidText.parseStr text = some id)
    (hok : (fresh.run config (before ++ [.request w r])).replies.getLast? = some (.ok response))
    (hafter : ∀ e ∈ after, ∀ w r, e.request? = some (w, r) → ¬r.Stores w name id)
    (hfit : Always (CatalogServer.Step config) (CatalogServer.Admits doms) CatalogServer.fresh
      ((before ++ [.request w r]) ++ (after ++ [.request w' (.getVector name text)]))) :
    let s := fresh.run config ((before ++ [.request w r]) ++ after)
    (s.step config (.request w' (.getVector name text))).replies = s.replies ++
      [.error (if s.app.shuttingDown then .shuttingDown
        else .notFound (if (s.disks name .data).isSome then VECTOR_NOT_FOUND else "Collection not found"))] := by
  intro s
  have hmade : ∀ cs ts, wp (r.answer config w) (fun _ => True)
      (fun response' _ ts => response.summary = response' → ts.Lacks name id) (fun _ _ _ => True) cs ts := by
    refine fun cs ts => wp_mono (Catalog.answer_removes hremoves) (fun _ h => h) ?_ fun _ _ _ h => h
    rintro response' _ ts h rfl
    refine h fun hr => ?_
    rw [hdeleted hr]
    rfl
  obtain ⟨a, hagrees, hlacks, hget⟩ := Agrees.established hconfig hok hmade
    (fun e he w r hr => Catalog.answer_lacks (hafter e he w r hr)) hfit
  obtain ⟨hread, -⟩ := hagrees.reply hconfig hget
  have hanswer := Catalog.wp_getVector_lacks a.state (w := w') hlacks htext
  have hcreated : (s.disks name .data).isSome ↔ name ∈ a.tables := hagrees.stands.created_iff name
  rw [hagrees.stands.shuttingDown]
  refine congrArg (s.replies ++ [·]) ?_
  cases hresult : ((Request.getVector name text).serve config w' s.app s.disks).result with
  | ok reply =>
      rw [hresult] at hread
      exact (wp_ok hanswer hread.symm).elim
  | error e =>
      rw [hresult] at hread
      rw [wp_error hanswer hread.symm]
      simp only [hcreated]

end Server

end

/-! ## A document that outlives a crash -/

section

attribute [local instance] Reference.flat noOtherLetters zeroId asciiLowercase

/-- Another id for what is inserted. -/
def laterSurroundings : Surroundings := { plainSurroundings with newV4 := fun n => BitVec.ofNat 128 (n + 1) }

/-- What `insertOne` stores. -/
def storedOne : Document := { Reference.doc 0 1 with text := "a" }

theorem fit_create (cs : CatalogState) :
    CatalogServer.Fit (fun _ => Reference.ones) plainSurroundings (.createCollection "c") cs :=
  ⟨fun _ _ h => (by cases h), fun _ _ _ h => (by cases h), fun _ h => by cases h⟩

theorem later_writes : Request.writes laterSurroundings (.insertVector "c" insertOne) =
    [{ Reference.doc 1 1 with text := "a" }] := by rfl

theorem later_sound :
    ∀ doc ∈ Request.writes laterSurroundings (.insertVector "c" insertOne), doc.Sound Reference.ones := by
  intro doc hdoc
  rw [later_writes, List.mem_singleton] at hdoc
  rw [hdoc]
  exact Reference.doc_sound 1 "a" (by decide +kernel)

theorem fit_delete (cs : CatalogState) :
    CatalogServer.Fit (fun _ => Reference.ones) plainSurroundings (.deleteVector "c" (Uuid.display 0)) cs := by
  refine ⟨fun name hname _ => ?_, fun _ _ _ h => (by cases h), fun _ h => by cases h⟩
  cases hname
  rfl

/-- The second insert, of another document, is stopped after one effect. -/
def cutLater : ServerEvent := .crashRequest laterSurroundings (.insertVector "c" insertOne) 1

theorem cutLater_request {w : Surroundings} {r : Request}
    (h : ∃ e ∈ [cutLater], ServerEvent.request? e = some (w, r)) :
    w = laterSurroundings ∧ r = .insertVector "c" insertOne := by
  obtain ⟨e, he, hr⟩ := h
  rw [List.mem_singleton.mp he] at hr
  cases hr
  exact ⟨rfl, rfl⟩

/-- A document is stored, and the process stops in the middle of storing another one. -/
theorem one_survives :
    let s := Server.fresh.run linkedServer (([.request plainSurroundings (.createCollection "c")] ++
      [.request plainSurroundings (.insertVector "c" insertOne)]) ++ [cutLater])
    (s.step linkedServer (.request plainSurroundings (.getVector "c" (Uuid.display 0)))).replies =
      s.replies ++ [if s.app.shuttingDown then .error .shuttingDown
        else .ok (.vector ⟨storedOne.id.display, storedOne.vector, storedOne.text,
          metadataToJson plainSurroundings.fields storedOne.metadata⟩)] := by
  obtain ⟨-, hagrees⟩ := Server.agrees_fresh.reply linkedServer_serviceable (fit_create CatalogServer.fresh.state)
  obtain ⟨response, hok⟩ := hagrees.answered linkedServer_serviceable
    (fit_insertOne plainSurroundings insertOne_sound _) ⟨_, rfl⟩
  have hwritten : Request.written plainSurroundings (.insertVector "c" insertOne) 0 = some storedOne := by rfl
  have htext : UuidText.parseStr (Uuid.display 0) = some 0 := rfl
  refine Server.acknowledged_survives linkedServer (fun _ => Reference.ones) linkedServer_serviceable rfl
    hwritten htext hok ?_ ?_
  · intro e he w r hr
    obtain ⟨rfl, rfl⟩ := cutLater_request ⟨e, he, hr⟩
    rintro ⟨-, hdelete | ⟨u, ⟨doc, hdoc, rfl⟩ | ⟨text, htext, -⟩, hkey⟩⟩
    · cases hdelete
    · rw [later_writes, List.mem_singleton] at hdoc
      rw [hdoc] at hkey
      exact absurd hkey (by decide)
    · cases htext
  · exact ⟨fit_create _, fun _ _ => ⟨fit_insertOne _ insertOne_sound _, fun _ _ =>
      ⟨⟨fit_insertOne _ later_sound _, rfl⟩, fun _ _ => ⟨fit_get _, fun _ _ => trivial⟩⟩⟩⟩

/-- A document is stored and deleted, and the process stops in the middle of storing another one. -/
theorem one_stays_gone :
    let s := Server.fresh.run linkedServer (([.request plainSurroundings (.insertVector "c" insertOne)] ++
      [.request plainSurroundings (.deleteVector "c" (Uuid.display 0))]) ++ [cutLater])
    (s.step linkedServer (.request plainSurroundings (.getVector "c" (Uuid.display 0)))).replies =
      s.replies ++ [.error (if s.app.shuttingDown then .shuttingDown
        else .notFound (if (s.disks "c" .data).isSome then VECTOR_NOT_FOUND else "Collection not found"))] := by
  obtain ⟨-, hagrees⟩ := Server.agrees_fresh.reply linkedServer_serviceable
    (fit_insertOne plainSurroundings insertOne_sound CatalogServer.fresh.state)
  obtain ⟨response, hok⟩ := hagrees.answered linkedServer_serviceable (fit_delete _)
    ⟨_, rfl⟩
  have htext : UuidText.parseStr (Uuid.display 0) = some 0 := rfl
  refine Server.deleted_stays_gone linkedServer (fun _ => Reference.ones) linkedServer_serviceable
    ⟨rfl, .inr ⟨_, List.mem_singleton_self _, htext⟩⟩ (fun h => by cases h) htext hok ?_ ?_
  · intro e he w r hr
    obtain ⟨rfl, rfl⟩ := cutLater_request ⟨e, he, hr⟩
    rintro ⟨-, doc, hdoc, hid⟩
    rw [later_writes, List.mem_singleton] at hdoc
    rw [hdoc] at hid
    exact absurd hid (by decide)
  · exact ⟨fit_insertOne _ insertOne_sound _, fun _ _ => ⟨fit_delete _, fun _ _ =>
      ⟨⟨fit_insertOne _ later_sound _, rfl⟩, fun _ _ => ⟨fit_get _, fun _ _ => trivial⟩⟩⟩⟩

end
