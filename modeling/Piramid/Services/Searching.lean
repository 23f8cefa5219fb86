-- SUMMARY: What a search shows is what a client that asks for the same id reads.
import Piramid.Services.Acknowledged

/-!
# Searches in a run

A search and a read of one document are answered from the same table. A client who follows up a hit
finds what the hit showed for as long as no request touches the document, also in a process that has
recovered from a crash.
-/

open Device Prog Simulation

section

variable [Env] [LawfulEnv] [BareEntries] [UnicodeTables] [UuidText] [Lowercase]

namespace Server

/-- Whoever asks for the id at some point after the events, with no request in between that touches
it, is told this vector, this text and this metadata, or that the server is shutting down. -/
def Answers (config : ServerConfig) (doms : String → VectorDomain) (events : List ServerEvent) (name : String)
    (id : Uuid) (vector : Vector32) (text : String) (metadata : Metadata) : Prop :=
  ∀ (after : List ServerEvent) (w : Surroundings) (key : String), UuidText.parseStr key = some id →
    (∀ e ∈ after, ∀ w r, e.request? = some (w, r) → ¬r.Touches w name id) →
    Always (CatalogServer.Step config) (CatalogServer.Admits doms) CatalogServer.fresh
      (events ++ (after ++ [.request w (.getVector name key)])) →
    let s := fresh.run config (events ++ after)
    (s.step config (.request w (.getVector name key))).replies = s.replies ++
      [if s.app.shuttingDown then .error .shuttingDown
        else .ok (.vector ⟨id.display, vector, text, metadataToJson w.fields metadata⟩)]

/-- A document that is there after the events is what is answered from then on. -/
theorem Agrees.answers {config : ServerConfig} {doms : String → VectorDomain} {events : List ServerEvent}
    {a : CatalogServer} (h : (fresh.run config events).Agrees config doms a) (hconfig : config.Serviceable doms)
    (hsteps : Steps (CatalogServer.Step config) CatalogServer.fresh events a) {name : String} {id : Uuid}
    {doc : Document} (hholds : a.tables.Holds name id doc) :
    Answers config doms events name id doc.vector doc.text doc.metadata := by
  intro after w key hkey hafter hfit s
  obtain ⟨-, hrest⟩ := hfit.append
  obtain ⟨b, hagrees, hthere, hget⟩ := h.keeps hconfig hholds
    (fun e he w r hr => Catalog.answer_holds (hafter e he w r hr)) (hrest a hsteps)
  rw [← run_append] at hagrees
  have hown : doc.id = id := ((hagrees.stands.kept name).sound id doc hthere.lookup_table).1
  have hread := hagrees.read hconfig hthere hkey hget
  rw [hown] at hread
  exact hread

/-- A search that is answered lists, for each vector, documents that a client who asks for them from
then on is given as the hits show them, and each hit has the score of the vector that the client is
given. -/
theorem hits_are_read (config : ServerConfig) (doms : String → VectorDomain) (hconfig : config.Serviceable doms)
    {before : List ServerEvent} {w : Surroundings} {name : String} {r : QueryRequest}
    {results : SearchResultsResponse}
    (hok : (fresh.run config (before ++ [.query w name r])).replies.getLast? = some (.ok (.hits results)))
    (hfit : Always (CatalogServer.Step config) (CatalogServer.Admits doms) CatalogServer.fresh
      (before ++ [.query w name r])) :
    ∃ vectors metric, r.vectors w = .ok vectors ∧ parseMetric r.metric? = .ok metric ∧
      List.Forall₂ (fun query hits => hits.length ≤ r.k ∧ ∀ hit ∈ hits, r.Wants hit ∧
        ∃ id vector, hit.id = id.display ∧
          metric.calculate query vector config.collection.execution = .ok hit.score ∧
          Answers config doms (before ++ [.query w name r]) name id vector hit.text hit.metadata)
        vectors results.lists := by
  obtain ⟨hbefore, hquery⟩ := hfit.append
  obtain ⟨a, hsteps, hagrees⟩ := agrees_fresh.run hconfig hbefore
  -- the tables are the same before and after the search
  obtain ⟨b, hqueried, hagrees'⟩ := hagrees.step hconfig (hquery a hsteps).1
  rw [← run_concat] at hagrees'
  have hsteps' := hsteps.append (.head hqueried .refl)
  have htables : b.tables = a.tables := by
    cases hqueried
    rfl
  -- and the hits are of these tables
  rw [run_concat, Server.step, List.getLast?_concat, Option.some.injEq] at hok
  have hserved : wp (Service.query config w name r) _ _ _ _ _ := Service.wp_query hconfig hagrees.stands
  obtain ⟨-, hreply⟩ := wp_ok hserved hok
  obtain ⟨vectors, metric, hvectors, hmetric, hlists⟩ := hreply.told
  refine ⟨vectors, metric, hvectors, hmetric, hlists.imp fun query hits hhits => ⟨hhits.1, fun hit hhit => ?_⟩⟩
  obtain ⟨⟨id, doc, hdoc, hid, htext, hmetadata, hscore⟩, hwants⟩ := hhits.2 hit hhit
  rw [htext, hmetadata]
  have hholds : b.tables.Holds name id doc := by
    rw [htables]
    exact .of_lookup_table hdoc
  exact ⟨hwants, id, doc.vector, hid, hscore, hagrees'.answers hconfig hsteps' hholds⟩

end Server

end

/-! ## A hit that is read -/

section

attribute [local instance] Reference.flat noOtherLetters zeroId asciiLowercase

/-- A search for one document. -/
def searchOne : QueryRequest := .search
  { vector := some [F32.one]
    vectors := none
    k := 1
    metric := none
    ef := none
    nprobe := none
    overfetch := none
    preset := none }

/-- What is stored, and then searched for. -/
def insertThenSearch : List ServerEvent :=
  [.request plainSurroundings (.insertVector "c" insertOne)] ++ [.query plainSurroundings "c" searchOne]

/-- The hits of a single search that was answered. -/
def hitsTold : Option (Except Fault Response) → Option (List HitResponse)
  | some (.ok (.hits (.single hits))) => some hits
  | _ => none

theorem hitsTold_eq_some {reply : Option (Except Fault Response)} {hits : List HitResponse}
    (h : hitsTold reply = some hits) : reply = some (.ok (.hits (.single hits))) := by
  match reply, h with
  | some (.ok (.hits (.single _))), rfl => rfl

theorem one_told : (hitsTold (Server.fresh.run linkedServer insertThenSearch).replies.getLast?).map
    (List.map HitResponse.score) = some [F32.one] := by
  decide +kernel

/-- The document that was inserted is found, and read from then on. -/
theorem one_found :
    ∃ hit : HitResponse, hit.score = F32.one ∧
      (Server.fresh.run linkedServer insertThenSearch).replies.getLast? =
        some (.ok (.hits (.single [hit]))) ∧
      List.Forall₂ (fun query hits => hits.length ≤ 1 ∧ ∀ hit ∈ hits, searchOne.Wants hit ∧
        ∃ id vector, hit.id = id.display ∧
          Metric.cosine.calculate query vector linkedServer.collection.execution = .ok hit.score ∧
          Server.Answers linkedServer (fun _ => Reference.ones) insertThenSearch "c" id vector hit.text
            hit.metadata)
        [[F32.one]] [[hit]] := by
  obtain ⟨hits, htold, hscores⟩ := Option.map_eq_some_iff.mp one_told
  obtain ⟨hit, rfl, hscore⟩ := List.map_eq_singleton_iff.mp hscores
  have hok := hitsTold_eq_some htold
  obtain ⟨vectors, metric, hvectors, hmetric, hlists⟩ :=
    Server.hits_are_read linkedServer (fun _ => Reference.ones) linkedServer_serviceable hok
      ⟨fit_insertOne _ insertOne_sound _, fun _ _ => ⟨fun _ h => (by cases h), fun _ _ => trivial⟩⟩
  cases hvectors
  cases hmetric
  exact ⟨hit, hscore, hok, hlists⟩

end
