-- SUMMARY: A bounded queue of bindings in the order of their last put, and what it holds after any events.
import Mathlib.Data.List.Induction
import Mathlib.Data.List.Nodup
import Mathlib.Tactic.Common

/-!
# Recency queues

A put moves its key to the end, and drops keys at the front until there are no more than
the capacity. What the queue holds is stated in terms of when a key was last put.
-/

namespace Recency

inductive Event (κ ν : Type) where
  | put (k : κ) (v : ν)
  | remove (k : κ)
  | clear

variable {κ ν : Type} [DecidableEq κ]

/-- A key is put at the end. -/
def put (capacity : Nat) (k : κ) (v : ν) (queue : List (κ × ν)) : List (κ × ν) :=
  let queue := queue.filter (·.1 ≠ k) ++ [(k, v)]
  queue.drop (queue.length - capacity)

def step (capacity : Nat) (queue : List (κ × ν)) : Event κ ν → List (κ × ν)
  | .put k v => put capacity k v queue
  | .remove k => queue.filter (·.1 ≠ k)
  | .clear => []

def run (capacity : Nat) (events : List (Event κ ν)) : List (κ × ν) := events.foldl (step capacity) []

def Event.puts (k : κ) : Event κ ν → Bool
  | .put k' _ => k' = k
  | _ => false

/-- How many events there were up to the last put of the key, or zero. -/
def lastPut (events : List (Event κ ν)) (k : κ) : Nat :=
  events.zipIdx.foldl (fun n e => if e.1.puts k then e.2 + 1 else n) 0

/-- What was last put under the key. -/
def lastValue (events : List (Event κ ν)) (k : κ) : Option ν :=
  events.foldl (fun v e => match e with
    | .put k' v' => if k' = k then some v' else v
    | _ => v) none

variable {capacity : Nat} {events : List (Event κ ν)} {queue : List (κ × ν)} {k : κ} {v : ν}

theorem lastPut_snoc (events : List (Event κ ν)) (e : Event κ ν) (k : κ) :
    lastPut (events ++ [e]) k = if e.puts k then events.length + 1 else lastPut events k := by
  unfold lastPut
  rw [List.zipIdx_append, List.foldl_append, Nat.zero_add]
  rfl

theorem lastPut_le (events : List (Event κ ν)) (k : κ) : lastPut events k ≤ events.length := by
  induction events using List.reverseRecOn with
  | nil => exact Nat.le_refl 0
  | append_singleton events e ih =>
      rw [lastPut_snoc, List.length_append, List.length_singleton]
      split
      · exact Nat.le_refl _
      · exact Nat.le_succ_of_le ih

theorem lastValue_snoc (events : List (Event κ ν)) (e : Event κ ν) (k : κ) :
    lastValue (events ++ [e]) k = match e with
      | .put k' v' => if k' = k then some v' else lastValue events k
      | _ => lastValue events k := by
  unfold lastValue
  rw [List.foldl_append]
  rfl

/-! ## What a queue holds -/

/-- The queue has each of its keys once, in the order of their last put, with what was put. -/
structure Holds (events : List (Event κ ν)) (queue : List (κ × ν)) : Prop where
  sorted : (queue.map Prod.fst).Pairwise fun a b => lastPut events a < lastPut events b
  values : ∀ e ∈ queue, lastValue events e.1 = some e.2

theorem Holds.nodup (h : Holds events queue) : (queue.map Prod.fst).Nodup :=
  h.sorted.imp fun {a b} hlt heq => by
    rw [heq] at hlt
    exact Nat.lt_irrefl _ hlt

theorem Holds.sublist {queue' : List (κ × ν)} (h : Holds events queue) (hsub : queue'.Sublist queue) :
    Holds events queue' where
  sorted := h.sorted.sublist (hsub.map Prod.fst)
  values e he := h.values e (hsub.subset he)

/-- An event that puts none of the keys. -/
theorem Holds.snoc (h : Holds events queue) {e : Event κ ν} (hputs : ∀ k ∈ queue.map Prod.fst, e.puts k = false) :
    Holds (events ++ [e]) queue where
  sorted := by
    refine h.sorted.imp_of_mem fun {a b} ha hb hlt => ?_
    rw [lastPut_snoc, lastPut_snoc, hputs a ha, hputs b hb]
    exact hlt
  values entry hentry := by
    have hput := hputs entry.1 (List.mem_map_of_mem hentry)
    rw [lastValue_snoc]
    cases e with
    | put k v =>
        have hne : k ≠ entry.1 := of_decide_eq_false hput
        simp only [if_neg hne]
        exact h.values entry hentry
    | remove k => exact h.values entry hentry
    | clear => exact h.values entry hentry

/-- The queue before keys at its front are dropped. -/
theorem Holds.put (h : Holds events queue) (k : κ) (v : ν) :
    Holds (events ++ [.put k v]) (queue.filter (·.1 ≠ k) ++ [(k, v)]) := by
  have hother : ∀ a ∈ (queue.filter (·.1 ≠ k)).map Prod.fst, Event.puts a (.put k v) = false := by
    intro a ha
    obtain ⟨entry, hentry, rfl⟩ := List.mem_map.mp ha
    have hne : entry.1 ≠ k := of_decide_eq_true (List.mem_filter.mp hentry).2
    exact decide_eq_false hne.symm
  have hrest : Holds (events ++ [.put k v]) (queue.filter (·.1 ≠ k)) :=
    (h.sublist List.filter_sublist).snoc hother
  have hlast : lastPut (events ++ [.put k v]) k = events.length + 1 := by
    rw [lastPut_snoc]
    exact if_pos (decide_eq_true rfl)
  constructor
  · rw [List.map_append]
    refine List.pairwise_append.mpr ⟨hrest.sorted, List.pairwise_singleton _ _, fun a ha b hb => ?_⟩
    rw [List.mem_singleton.mp hb, hlast, lastPut_snoc, hother a ha]
    exact Nat.lt_succ_of_le (lastPut_le events a)
  · intro entry hentry
    cases List.mem_append.mp hentry with
    | inl hin => exact hrest.values entry hin
    | inr hin =>
        rw [List.mem_singleton.mp hin, lastValue_snoc]
        exact if_pos rfl

theorem holds_step (h : Holds events queue) (e : Event κ ν) :
    Holds (events ++ [e]) (step capacity queue e) := by
  cases e with
  | put k v => exact (h.put k v).sublist (List.drop_sublist _ _)
  | remove k => exact (h.snoc fun _ _ => rfl).sublist List.filter_sublist
  | clear => exact ⟨List.Pairwise.nil, fun e he => by cases he⟩

/-- The event takes the key away by itself. -/
def Event.Drops (k : κ) : Event κ ν → Prop
  | .put _ _ => False
  | .remove k' => k' = k
  | .clear => True

end Recency
