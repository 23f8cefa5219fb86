-- SUMMARY: A map kept as a snapshot and a log of numbered updates: what it holds, and the steps that keep it.
import Mathlib.Data.List.Basic
import Mathlib.Tactic.Common

/-!
# Snapshot and log

A map is stored as a snapshot `base`, a log of numbered entries, and a `floor`:
entries numbered at most `floor` are no longer replayed. Taking a snapshot,
raising the floor and dropping the log are separate steps, and the map must come
out the same after each of them, although the log then replays updates that the
snapshot already has.
-/

namespace SnapshotLog

variable {κ ν : Type}

/-- One update of a map. -/
inductive Update (κ ν : Type) where
  | put (k : κ) (v : ν)
  | del (k : κ)

namespace Update

def key : Update κ ν → κ
  | .put k _ => k
  | .del k => k

/-- What the updated key is bound to afterwards. -/
def value : Update κ ν → Option ν
  | .put _ v => some v
  | .del _ => none

def apply [DecidableEq κ] (u : Update κ ν) (m : κ → Option ν) : κ → Option ν :=
  fun k => if k = u.key then u.value else m k

/-- An update of a key makes earlier ones of it moot. -/
theorem apply_apply [DecidableEq κ] {u v : Update κ ν} (h : v.key = u.key) (m : κ → Option ν) :
    u.apply (v.apply m) = u.apply m := by
  funext k
  by_cases hk : k = u.key
  · simp [apply, hk]
  · simp [apply, hk, h]

/-- Deleting a key that is not bound. -/
theorem apply_del [DecidableEq κ] {k : κ} {m : κ → Option ν} (h : m k = none) :
    (del k).apply m = m := by
  funext k'
  by_cases hk : k' = k
  · simp [apply, key, value, hk, h]
  · simp [apply, key, hk]

end Update

/-! ## Replay -/

section Replay

variable [DecidableEq κ]

/-- Apply updates in order. -/
def replay (us : List (Update κ ν)) (m : κ → Option ν) : κ → Option ν :=
  us.foldl (fun m u => u.apply m) m

@[simp] theorem replay_nil (m : κ → Option ν) : replay [] m = m := rfl

@[simp] theorem replay_cons (u : Update κ ν) (us : List (Update κ ν)) (m : κ → Option ν) :
    replay (u :: us) m = replay us (u.apply m) := rfl

theorem replay_append (us vs : List (Update κ ν)) (m : κ → Option ν) :
    replay (us ++ vs) m = replay vs (replay us m) := by
  simp [replay, List.foldl_append]

/-- A key no update touches keeps its binding. -/
theorem replay_untouched {us : List (Update κ ν)} {m : κ → Option ν} {k : κ}
    (h : ∀ u ∈ us, u.key ≠ k) : replay us m k = m k := by
  induction us generalizing m with
  | nil => rfl
  | cons u us ih =>
      rw [replay_cons, ih fun v hv => h v (by simp [hv])]
      have : k ≠ u.key := fun e => h u (by simp) e.symm
      simp [Update.apply, this]

/-- A key some update touches ends up the same from any map. -/
theorem replay_touched {us : List (Update κ ν)} {k : κ} (h : ∃ u ∈ us, u.key = k)
    (m m' : κ → Option ν) : replay us m k = replay us m' k := by
  induction us generalizing m m' with
  | nil => simp at h
  | cons u us ih =>
      by_cases hus : ∃ v ∈ us, v.key = k
      · exact ih hus _ _
      · have hk : u.key = k := by
          obtain ⟨v, hv, hvk⟩ := h
          cases List.mem_cons.mp hv with
          | inl e => exact e ▸ hvk
          | inr hmem => exact (hus ⟨v, hmem, hvk⟩).elim
        push Not at hus
        rw [replay_cons, replay_cons, replay_untouched hus, replay_untouched hus]
        simp [Update.apply, hk]

/-- Deletions, and nothing else. -/
theorem replay_del (ks : List κ) (m : κ → Option ν) (k : κ) :
    replay (ks.map .del) m k = if k ∈ ks then none else m k := by
  induction ks generalizing m with
  | nil => simp
  | cons k' ks ih =>
      rw [List.map_cons, replay_cons, ih]
      by_cases hks : k ∈ ks
      · simp [hks]
      · by_cases hk : k = k'
        · simp [hk, Update.apply, Update.key, Update.value]
        · simp [hks, hk, Update.apply, Update.key]

/-- Deletions of keys that are not bound can be left out. -/
theorem replay_dels (ks : List κ) (m : κ → Option ν) :
    replay ((ks.filter fun k => (m k).isSome).map .del) m = replay (ks.map .del) m := by
  funext k
  rw [replay_del, replay_del]
  by_cases hk : k ∈ ks
  · cases hm : m k with
    | none => simp
    | some v => simp [hk, hm]
  · simp [hk]

/-- Replaying the end of a log over what the whole log built changes nothing. -/
theorem replay_suffix (us vs : List (Update κ ν)) (m : κ → Option ν) :
    replay vs (replay (us ++ vs) m) = replay (us ++ vs) m := by
  funext k
  by_cases h : ∃ v ∈ vs, v.key = k
  · rw [replay_append, replay_touched h]
  · push Not at h
    exact replay_untouched h

end Replay

/-! ## Numbered logs -/

/-- A log entry: an update, or a marker that changes nothing. -/
structure Entry (κ ν : Type) where
  seq : Nat
  update : Option (Update κ ν)

/-- The updates of the entries numbered above `n`. -/
def pending (n : Nat) (log : List (Entry κ ν)) : List (Update κ ν) :=
  (log.filter fun e => n < e.seq).filterMap Entry.update

theorem pending_append (n : Nat) (log log' : List (Entry κ ν)) :
    pending n (log ++ log') = pending n log ++ pending n log' := by
  simp [pending]

theorem pending_cons (n : Nat) (e : Entry κ ν) (log : List (Entry κ ν)) :
    pending n (e :: log) = (if n < e.seq then e.update.toList else []) ++ pending n log := by
  by_cases h : n < e.seq
  · cases hu : e.update <;> simp [pending, h, hu]
  · simp [pending, h]

/-- Updates are numbered in the order they were logged. Markers are not
constrained. -/
def Ordered (log : List (Entry κ ν)) : Prop :=
  log.Pairwise fun a b => a.update.isSome → b.update.isSome → a.seq < b.seq

theorem Ordered.snoc {log : List (Entry κ ν)} (h : Ordered log) {e : Entry κ ν}
    (he : e.update.isSome → ∀ a ∈ log, a.update.isSome → a.seq < e.seq) : Ordered (log ++ [e]) := by
  rw [Ordered, List.pairwise_append]
  refine ⟨h, List.pairwise_singleton _ _, ?_⟩
  intro a ha b hb hau hbu
  obtain rfl := List.mem_singleton.mp hb
  exact he hbu a ha hau

/-- Raising the floor drops a beginning of what is replayed. -/
theorem pending_suffix {log : List (Entry κ ν)} (h : Ordered log) {m n : Nat} (hmn : m ≤ n) :
    ∃ us, pending m log = us ++ pending n log := by
  induction log with
  | nil => exact ⟨[], rfl⟩
  | cons e log ih =>
      obtain ⟨hhead, htail⟩ := List.pairwise_cons.mp h
      obtain ⟨us, hus⟩ := ih htail
      by_cases hn : n < e.seq
      · by_cases hu : e.update.isSome
        · -- every later update is numbered above `e`, so both floors keep all of them
          have hall : pending m log = pending n log := by
            rw [pending, pending, List.filterMap_filter, List.filterMap_filter]
            apply List.filterMap_congr
            intro a ha
            by_cases hau : a.update.isSome
            · have := hhead a ha hu hau
              simp [show m < a.seq by omega, show n < a.seq by omega]
            · simp only [Option.not_isSome_iff_eq_none] at hau
              simp [hau]
          exact ⟨[], by rw [pending_cons, pending_cons, hall]; simp [hn, show m < e.seq by omega]⟩
        · simp only [Option.not_isSome_iff_eq_none] at hu
          exact ⟨us, by rw [pending_cons, pending_cons, hus]; simp [hu]⟩
      · exact ⟨(if m < e.seq then e.update.toList else []) ++ us, by
          rw [pending_cons, pending_cons, hus]; simp [hn]⟩

/-! ## The stored map -/

/-- A stored map. -/
structure Store (κ ν : Type) where
  base : κ → Option ν
  floor : Nat
  log : List (Entry κ ν)

namespace Store

variable [DecidableEq κ]

/-- The map a store stands for. -/
def contents (st : Store κ ν) : κ → Option ν :=
  replay (pending st.floor st.log) st.base

theorem contents_append (st : Store κ ν) {e : Entry κ ν} (he : st.floor < e.seq) :
    contents { st with log := st.log ++ [e] } = replay e.update.toList st.contents := by
  have hlast : pending st.floor [e] = e.update.toList := by
    rw [pending_cons]
    simp [he, pending]
  rw [contents, pending_append, replay_append, hlast, contents]

/-- Taking a snapshot keeps the map. -/
theorem contents_snapshot (st : Store κ ν) :
    contents { st with base := st.contents } = st.contents := by
  simpa [contents] using replay_suffix [] (pending st.floor st.log) st.base

/-- Once a snapshot is taken, raising the floor keeps the map. -/
theorem contents_raise {st : Store κ ν} (h : Ordered st.log) (hbase : st.contents = st.base)
    {n : Nat} (hn : st.floor ≤ n) : contents { st with floor := n } = st.base := by
  obtain ⟨us, hus⟩ := pending_suffix h hn
  have hall : st.base = replay (us ++ pending n st.log) st.base := by
    rw [← hus]
    exact hbase.symm
  calc
    contents { st with floor := n } = replay (pending n st.log) st.base := rfl
    _ = replay (pending n st.log) (replay (us ++ pending n st.log) st.base) := by rw [← hall]
    _ = replay (us ++ pending n st.log) st.base := replay_suffix _ _ _
    _ = st.base := hall.symm

/-- Once a snapshot is taken, dropping the log keeps the map. -/
theorem contents_truncate (st : Store κ ν) : contents { st with log := [] } = st.base := rfl

end Store

end SnapshotLog
