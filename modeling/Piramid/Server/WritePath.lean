-- SUMMARY: The locks that write requests take, and when they can block each other for good.
import Mathlib.Data.List.Sort
import Piramid.Base.HashMap
import Piramid.Base.Threads
import Piramid.Config

/-!
# The write path

A write request holds the lock of its collection while it enforces the cache
budget, which goes through the locks of all loaded collections. Locks are known
by the handles they belong to.
-/

open Threads

/-- What `CacheManager` reports about its memory. -/
structure Usage where
  vectorBytes : Nat
  metadataBytes : Nat

namespace Usage

/-- `memory_usage_bytes`. -/
def cacheBytes (u : Usage) : Nat := u.vectorBytes + u.metadataBytes

/-- `clear_metadata`. -/
def clearMetadata (u : Usage) : Usage := { u with metadataBytes := 0 }

end Usage

/-- The loaded collections, and what the cache of each one uses. -/
structure Loaded (H : Type) where
  handles : Finset H
  usage : H → Usage

/-- What a thread of the server does with collections of handles `H`. -/
abbrev RequestThread (H : Type) : Type := Thread H (Loaded H) Unit

variable {H : Type} [DecidableEq H]

namespace Loaded

/-- The collection is in the map after `get_or_create`. -/
def register (m : Loaded H) (h : H) : Loaded H := { m with handles := insert h m.handles }

def setUsage (m : Loaded H) (h : H) (u : Usage) : Loaded H :=
  { m with usage := Function.update m.usage h u }

end Loaded

namespace AppState

/-- `u64::saturating_add`. -/
def saturatingAdd (a b : Nat) : Nat := min (a + b) (2 ^ 64 - 1)

/-- The second loop of `enforce_cache_budget`. -/
def evict (maxBytes : Nat) (next : RequestThread H) : List (H × Nat) → Nat → RequestThread H
  | [], _ => next
  | (h, metadataBytes) :: collections, total =>
    if total ≤ maxBytes ∨ metadataBytes = 0 then next
    else
      .acquire h .write <|
      .act (fun m => m.setUsage h (m.usage h).clearMetadata) fun m =>
      .release h <|
      evict maxBytes next collections (total - (m.usage h).metadataBytes)

/-- The first loop of `enforce_cache_budget`, and what follows it. -/
def survey (maxBytes : Nat) (next : RequestThread H) :
    List H → Nat → List (H × Nat) → RequestThread H
  | [], total, collections =>
    if total > maxBytes then
      evict maxBytes next (collections.insertionSort fun a b => b.2 ≤ a.2) total
    else next
  | h :: handles, total, collections =>
    .acquire h .read <|
    .act id fun m =>
    .release h <|
    survey maxBytes next handles (saturatingAdd total (m.usage h).cacheBytes)
      (collections ++ [(h, (m.usage h).metadataBytes)])

/-- `enforce_cache_budget`, with the order in which the map of collections is iterated. -/
def enforceCacheBudget (cache : CacheConfig) (order : HashOrder H) (next : RequestThread H) :
    RequestThread H :=
  if !cache.enabled then next
  else
    match cache.maxBytes with
    | none => next
    | some maxBytes => .act id fun m => survey maxBytes next (order.enum m.handles) 0 []

end AppState

/-! ## Requests -/

/-- What a request does while it holds its collection: `write` is what the operation
does to the caches, or nothing if it returns an error. The guard lives until the end. -/
def underWriteLock (cache : CacheConfig) (order : HashOrder H) (h : H)
    (write : Option (Usage → Usage)) : RequestThread H :=
  .acquire h .write <|
    match write with
    | none => .release h (.ret ())
    | some write =>
      .act (fun m => m.setUsage h (write (m.usage h))) fun _ =>
      AppState.enforceCacheBudget cache order (.release h (.ret ()))

/-- A write request to the collection with handle `h`. -/
structure WriteRequest (H : Type) where
  h : H
  /-- The checks before the collection is looked up let the request pass. -/
  accepted : Bool
  /-- The text is embedded without an error. Requests with vectors have nothing to embed. -/
  embedded : Bool
  /-- What the operation does to the caches, or nothing if it returns an error. -/
  write : Option (Usage → Usage)

namespace WriteRequest

/-- `insert_vector`. -/
def insertVector (h : H) (accepted : Bool) (write : Option (Usage → Usage)) : WriteRequest H :=
  ⟨h, accepted, true, write⟩

/-- `upsert_vector`. -/
def upsertVector (h : H) (accepted : Bool) (write : Option (Usage → Usage)) : WriteRequest H :=
  ⟨h, accepted, true, write⟩

/-- `embed_text`. -/
def embedText (h : H) (accepted embedded : Bool) (write : Option (Usage → Usage)) :
    WriteRequest H :=
  ⟨h, accepted, embedded, write⟩

def thread (cache : CacheConfig) (order : HashOrder H) (req : WriteRequest H) : RequestThread H :=
  if !req.accepted then .ret ()
  else
    .act (·.register req.h) fun _ =>
    if !req.embedded then .ret () else underWriteLock cache order req.h req.write

/-- The request writes, and then comes to enforce the cache budget. -/
def CarriedOut (req : WriteRequest H) : Prop :=
  req.accepted = true ∧ req.embedded = true ∧ req.write.isSome

end WriteRequest

/-! ## When nothing can block for good -/

section

variable {cache : CacheConfig} {order : HashOrder H}

/-- Enforcing has an effect only with a budget in force. -/
theorem enforceCacheBudget_of_no_budget (h : cache.enabled = false ∨ cache.maxBytes = none)
    (next : RequestThread H) : AppState.enforceCacheBudget cache order next = next := by
  unfold AppState.enforceCacheBudget
  rcases h with h | h
  · simp [h]
  · cases henabled : cache.enabled with
    | false => simp
    | true => simp [h]

/-- A request that does not get to enforce a budget takes one lock. -/
theorem WriteRequest.thread_oneLock {req : WriteRequest H}
    (h : (cache.enabled = false ∨ cache.maxBytes = none) ∨ ¬req.CarriedOut) :
    (req.thread cache order).OneLock := by
  unfold WriteRequest.thread
  cases haccepted : req.accepted with
  | false => exact .ret ()
  | true =>
      refine .act fun _ => ?_
      cases hembedded : req.embedded with
      | false => exact .ret ()
      | true =>
          refine .acquire ?_
          cases hwrite : req.write with
          | none => exact .release (.ret ())
          | some write =>
              have hbudget := h.resolve_right fun hnot =>
                hnot ⟨haccepted, hembedded, by rw [hwrite]; rfl⟩
              refine .act fun _ => ?_
              rw [enforceCacheBudget_of_no_budget hbudget]
              exact .release (.ret ())

end

/-! ## When a request blocks itself -/

section

variable {ι : Type} [DecidableEq ι] {i : ι} {c : State ι H (Loaded H) Unit}

/-- A thread that holds `h` and goes through handles with `h` among them gets stuck. -/
theorem survey_blocks {maxBytes : Nat} {next : RequestThread H} {h : H} {m : Loaded H}
    (hothers : ∀ j, j ≠ i → c.held j = []) {handles : List H} (hmem : h ∈ handles) (total : Nat)
    (collections : List (H × Nat)) :
    Reaches Deadlocked (c.advance i m (AppState.survey maxBytes next handles total collections)
      [(h, .write)]) := by
  induction handles generalizing total collections with
  | nil => cases hmem
  | cons h' handles ih =>
      rw [AppState.survey]
      by_cases heq : h' = h
      · subst heq
        refine .here ⟨i, .single ⟨h', .read, _, Function.update_self i _ _, (h', .write), ?_, rfl,
          .inr rfl⟩⟩
        simp [State.advance]
      · refine .acquire ?_ (.act (.release ?_))
        · rintro j ⟨held, hin, hlock, -⟩
          by_cases hj : j = i
          · simp only [State.advance, hj, Function.update_self, List.mem_singleton] at hin
            exact heq (by rw [← hlock, hin])
          · simp only [State.advance, Function.update_of_ne hj, hothers j hj] at hin
            cases hin
        · have hheld : [(h', Mode.read), (h, Mode.write)].filter (fun held => held.1 ≠ h') =
              [(h, Mode.write)] := by simp [Ne.symm heq]
          rw [hheld]
          exact ih ((List.mem_cons.mp hmem).resolve_left (Ne.symm heq)) _ _

/-- The request takes the lock of its collection and asks for it once more. -/
theorem WriteRequest.blocks {cache : CacheConfig} {order : HashOrder H} {maxBytes : Nat}
    (henabled : cache.enabled = true) (hmax : cache.maxBytes = some maxBytes)
    {requests : ι → WriteRequest H} (hi : (requests i).CarriedOut) (m : Loaded H) :
    Reaches Deadlocked (start m fun j => (requests j).thread cache order) := by
  obtain ⟨haccepted, hembedded, hwrite⟩ := hi
  obtain ⟨write, hwrite⟩ := Option.isSome_iff_exists.mp hwrite
  rw [← State.advance_self (start m _) i]
  simp only [start, WriteRequest.thread, haccepted, hembedded, underWriteLock, hwrite,
    AppState.enforceCacheBudget, henabled, hmax, Bool.not_true, Bool.false_eq_true, if_false]
  refine .act (.acquire ?_ (.act (.act ?_)))
  · rintro j ⟨held, hin, -⟩
    simp [State.advance] at hin
  · refine survey_blocks (fun _ _ => rfl) ?_ _ _
    exact (order.mem_enum _ _).mpr (Finset.mem_insert_self _ _)

/-- For every configuration of the cache, whatever is loaded and whatever the requests
do: no interleaving leads to a request that waits for a lock it holds, or to requests
that wait for each other in a circle, exactly if there is no budget to enforce or
no request gets to enforce it. -/
theorem write_requests_never_deadlock_iff (cache : CacheConfig) (order : HashOrder H)
    (m : Loaded H) (requests : ι → WriteRequest H) :
    (∀ c, Steps (start m fun j => (requests j).thread cache order) c → ¬Deadlocked c) ↔
      (cache.enabled = false ∨ cache.maxBytes = none) ∨ ∀ i, ¬(requests i).CarriedOut := by
  constructor
  · intro hsafe
    by_contra hnot
    push Not at hnot
    obtain ⟨⟨henabled, hmax⟩, i, hi⟩ := hnot
    obtain ⟨maxBytes, hmax⟩ := Option.ne_none_iff_exists'.mp hmax
    have hblocks : Reaches Deadlocked (start m fun j => (requests j).thread cache order) :=
      WriteRequest.blocks (Bool.eq_true_of_not_eq_false henabled) hmax hi m
    obtain ⟨c, hc, hdead⟩ := hblocks
    exact hsafe c hc hdead
  · intro h c hc
    refine hc.not_deadlocked fun i => WriteRequest.thread_oneLock ?_
    exact h.imp_right fun hall => hall i

/-- One insertion into the only loaded collection, with any budget, never ends. -/
theorem insert_with_budget_deadlocks :
    let cache : CacheConfig := ⟨true, 10000, some 1000000⟩
    let order : HashOrder Unit := ⟨fun s => if () ∈ s then [()] else [], fun s => by
      split <;> simp, fun s k => by split <;> simp [*]⟩
    ∃ c, Steps (start ⟨∅, fun _ => ⟨0, 0⟩⟩ fun _ : Unit =>
      (WriteRequest.insertVector () true (some id)).thread cache order) c ∧ Deadlocked c :=
  WriteRequest.blocks (i := ()) rfl rfl ⟨rfl, rfl, rfl⟩ _

end
