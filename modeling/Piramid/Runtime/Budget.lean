-- SUMMARY: The byte budget of the caches of all loaded collections, and what is cleared to keep to it.
import Mathlib.Algebra.BigOperators.Group.Finset.Basic
import Piramid.Collections.Collection
import Piramid.Reference.Sample
import Piramid.Server.WritePath

/-!
# The cache budget

The sizes of all caches are taken first. While their sum is over the budget, the metadata
of the collection with the most of it is cleared. Sizes in bytes are natural numbers; only
the sum, which saturates, is a `u64`.
-/

/-- What allocations hold beyond the data in them: the capacity of each key of the metadata of a
document, that of each string and array in its value, and the size of a `MetadataValue`. -/
structure Capacities where
  key : Uuid → String → Nat
  /-- The string or the array at a place inside the value: `[2, 0]` is in the third element of the value
  the first one. -/
  value : Uuid → String → List Nat → Nat
  size : Nat

namespace MetadataValue

mutual

/-- `metadata_value_usage_bytes`. -/
def usageBytes (size : Nat) (capacity : List Nat → Nat) : MetadataValue → Nat
  | .string _ => capacity []
  | .array values => capacity [] * size + usageBytesEach size capacity 0 values
  | .integer _ | .float _ | .boolean _ | .null => size

def usageBytesEach (size : Nat) (capacity : List Nat → Nat) : Nat → List MetadataValue → Nat
  | _, [] => 0
  | i, v :: vs => v.usageBytes size (fun place => capacity (i :: place)) + usageBytesEach size capacity (i + 1) vs

end

end MetadataValue

/-- The size of a `Uuid`. -/
def UUID_BYTES : Nat := 16

/-- The size of an `f32`. -/
def F32_BYTES : Nat := 4

namespace CacheManager

/-- The bytes of the metadata of a document. -/
def entryUsageBytes (cap : Capacities) (id : Uuid) (metadata : Metadata) : Nat :=
  ∑ key ∈ metadata.keys, (cap.key id key +
    (metadata.lookup key).elim 0 (MetadataValue.usageBytes cap.size (cap.value id key)))

def metadataUsageBytes (cache : CacheManager) (cap : Capacities) : Nat :=
  ∑ id ∈ cache.metadata.keys, (UUID_BYTES + (cache.metadata.lookup id).elim 0 (entryUsageBytes cap id))

def vectorUsageBytes (cache : CacheManager) : Nat :=
  ∑ id ∈ cache.vectors.keys,
    (cache.vectors.lookup id).elim 0 fun vector => UUID_BYTES + vector.length * F32_BYTES

def memoryUsageBytes (cache : CacheManager) (cap : Capacities) : Nat :=
  cache.vectorUsageBytes + cache.metadataUsageBytes cap

/-- Metadata of no size is no metadata. -/
theorem metadata_of_usage_eq_zero {cache : CacheManager} {cap : Capacities}
    (h : cache.metadataUsageBytes cap = 0) : cache.metadata = ∅ := by
  refine Finmap.ext_lookup fun id => ?_
  rw [Finmap.lookup_empty, ← HashMap.not_mem_keys_iff]
  intro hid
  have hzero := Finset.sum_eq_zero_iff.mp h id hid
  exact absurd hzero (by simp [UUID_BYTES])

end CacheManager

/-- A collection that is loaded, with the capacities its cache has. -/
structure LoadedCollection where
  coll : Collection
  capacities : Capacities

/-- The map of loaded collections. -/
abbrev LoadedCollections : Type := HashMap String LoadedCollection

namespace LoadedCollection

def cacheUsageBytes (c : LoadedCollection) : Nat := c.coll.cache.memoryUsageBytes c.capacities

def metadataCacheUsageBytes (c : LoadedCollection) : Nat := c.coll.cache.metadataUsageBytes c.capacities

/-- `clear_metadata_cache`, but for the number of bytes it returns. -/
def clearMetadataCache (c : LoadedCollection) : LoadedCollection :=
  { c with coll := { c.coll with cache := c.coll.cache.clearMetadata } }

theorem cacheUsageBytes_clear (c : LoadedCollection) :
    c.clearMetadataCache.cacheUsageBytes + c.metadataCacheUsageBytes = c.cacheUsageBytes := rfl

end LoadedCollection

/-! ## Enforcing the budget -/

/-- The running total, the collections, and the names of those that were cleared. -/
structure Sweep where
  total : Nat
  loaded : LoadedCollections
  cleared : List String

/-- The loop over the collections with the sizes of their metadata, largest first. -/
def Sweep.run (maxBytes : Nat) : List (String × Nat) → Sweep → Sweep
  | [], s => s
  | (name, metadataBytes) :: rest, s =>
    if s.total ≤ maxBytes ∨ metadataBytes = 0 then s
    else
      match s.loaded.lookup name with
      | none => run maxBytes rest s
      | some c => run maxBytes rest
          { total := s.total - c.metadataCacheUsageBytes
            loaded := s.loaded.insert name c.clearMetadataCache
            cleared := s.cleared ++ [name] }

/-- `enforce_cache_budget`, with the names of the collections it clears. -/
def enforceCacheBudget (config : CacheConfig) (order : HashOrder String) (loaded : LoadedCollections) :
    LoadedCollections × List String :=
  if !config.enabled then (loaded, [])
  else
    match config.maxBytes with
    | none => (loaded, [])
    | some maxBytes =>
      let entries := order.entries loaded
      let total := entries.foldl (fun total e => AppState.saturatingAdd total e.2.cacheUsageBytes) 0
      let sampled := entries.map fun e => (e.1, e.2.metadataCacheUsageBytes)
      if total > maxBytes then
        let swept := Sweep.run maxBytes (sampled.insertionSort fun a b => b.2 ≤ a.2) ⟨total, loaded, []⟩
        (swept.loaded, swept.cleared)
      else (loaded, [])

namespace LoadedCollections

/-- The bytes of all caches. -/
def cacheUsageBytes (loaded : LoadedCollections) : Nat :=
  ∑ name ∈ loaded.keys, (loaded.lookup name).elim 0 LoadedCollection.cacheUsageBytes

/-- The collections once the metadata of some is cleared. -/
def clearEach (loaded : LoadedCollections) (names : List String) : LoadedCollections :=
  names.foldl (fun loaded name => match loaded.lookup name with
    | none => loaded
    | some c => loaded.insert name c.clearMetadataCache) loaded

variable {loaded : LoadedCollections} {name : String} {c c' : LoadedCollection}

theorem usage_insert (h : loaded.lookup name = some c) (c' : LoadedCollection) :
    cacheUsageBytes (loaded.insert name c') + c.cacheUsageBytes = loaded.cacheUsageBytes + c'.cacheUsageBytes := by
  have hin : name ∈ loaded.keys := (HashMap.mem_keys_iff _ _).mpr ⟨c, h⟩
  have hkeys : (loaded.insert name c').keys = loaded.keys := by
    rw [HashMap.keys_insert, Finset.insert_eq_of_mem hin]
  unfold cacheUsageBytes
  rw [hkeys, ← Finset.add_sum_erase _ _ hin, ← Finset.add_sum_erase loaded.keys _ hin]
  have hrest : ∑ name' ∈ loaded.keys.erase name,
      ((loaded.insert name c').lookup name').elim 0 LoadedCollection.cacheUsageBytes =
        ∑ name' ∈ loaded.keys.erase name, (loaded.lookup name').elim 0 LoadedCollection.cacheUsageBytes := by
    refine Finset.sum_congr rfl fun name' hname' => ?_
    rw [HashMap.lookup_insert, if_neg (Finset.mem_erase.mp hname').1]
  rw [hrest, HashMap.lookup_insert, if_pos rfl, h]
  simp only [Option.elim_some]
  omega

theorem clearEach_cons (loaded : LoadedCollections) (h : loaded.lookup name = some c) (names : List String) :
    loaded.clearEach (name :: names) = clearEach (loaded.insert name c.clearMetadataCache) names := by
  change clearEach (match loaded.lookup name with
    | none => loaded
    | some c => loaded.insert name c.clearMetadataCache) names = _
  rw [h]

/-- A collection is cleared if it is named. -/
theorem lookup_clearEach (loaded : LoadedCollections) {names : List String} (hnodup : names.Nodup) (name : String) :
    (loaded.clearEach names).lookup name =
      if name ∈ names then (loaded.lookup name).map LoadedCollection.clearMetadataCache
      else loaded.lookup name := by
  induction names generalizing loaded with
  | nil => rfl
  | cons name' names ih =>
      obtain ⟨hout, hnodup⟩ := List.nodup_cons.mp hnodup
      cases hname' : loaded.lookup name' with
      | none =>
          have hsame : loaded.clearEach (name' :: names) = loaded.clearEach names := by
            change clearEach (match loaded.lookup name' with
              | none => loaded
              | some c => loaded.insert name' c.clearMetadataCache) names = _
            rw [hname']
          rw [hsame, ih loaded hnodup]
          by_cases heq : name = name'
          · subst heq
            simp [hout, hname']
          · simp [heq]
      | some c =>
          rw [clearEach_cons loaded hname', ih _ hnodup, HashMap.lookup_insert]
          by_cases heq : name = name'
          · subst heq
            simp [hout, hname']
          · simp [heq]

/-- The total as `enforce_cache_budget` adds it up. -/
theorem foldl_usage (order : HashOrder String) (loaded : LoadedCollections) (hspace : loaded.cacheUsageBytes < 2 ^ 64) :
    (order.entries loaded).foldl (fun total e => AppState.saturatingAdd total e.2.cacheUsageBytes) 0 =
      loaded.cacheUsageBytes := by
  have hsum : ((order.entries loaded).map fun e => e.2.cacheUsageBytes).sum = loaded.cacheUsageBytes := by
    have hvalues : (order.entries loaded).map (fun e => e.2.cacheUsageBytes) =
        (order.entries loaded).map (fun e => (loaded.lookup e.1).elim 0 LoadedCollection.cacheUsageBytes) := by
      refine List.map_congr_left fun e he => ?_
      have hlookup : loaded.lookup e.1 = some e.2 := (order.mem_entries loaded e.1 e.2).mp he
      rw [hlookup]
      rfl
    have hkeys : (order.entries loaded).map
        (fun e => (loaded.lookup e.1).elim 0 LoadedCollection.cacheUsageBytes) =
          (order.enum loaded.keys).map fun name => (loaded.lookup name).elim 0 LoadedCollection.cacheUsageBytes := by
      rw [← order.map_fst_entries, List.map_map]
      rfl
    rw [hvalues, hkeys, ← List.sum_toFinset _ (order.nodup _), order.toFinset_enum]
    rfl
  have hfold : ∀ (entries : List (String × LoadedCollection)) (total : Nat),
      total + (entries.map fun e => e.2.cacheUsageBytes).sum < 2 ^ 64 →
        entries.foldl (fun total e => AppState.saturatingAdd total e.2.cacheUsageBytes) total =
          total + (entries.map fun e => e.2.cacheUsageBytes).sum := by
    intro entries
    induction entries with
    | nil => exact fun _ _ => rfl
    | cons e entries ih =>
        intro total hlt
        rw [List.map_cons, List.sum_cons, ← Nat.add_assoc] at hlt
        have hadd : AppState.saturatingAdd total e.2.cacheUsageBytes = total + e.2.cacheUsageBytes := by
          unfold AppState.saturatingAdd
          omega
        rw [List.foldl_cons, hadd, ih _ hlt, List.map_cons, List.sum_cons, Nat.add_assoc]
  rw [hfold _ _ (by rw [hsum, Nat.zero_add]; exact hspace), hsum, Nat.zero_add]

end LoadedCollections

/-! ## What a sweep clears -/

open LoadedCollections

/-- The sizes were taken of these collections, largest first. -/
structure Sampled (loaded : LoadedCollections) (sampled : List (String × Nat)) : Prop where
  nodup : (sampled.map Prod.fst).Nodup
  sizes : ∀ e ∈ sampled, ∃ c, loaded.lookup e.1 = some c ∧ c.metadataCacheUsageBytes = e.2

/-- Once the first collection is cleared, the other sizes are still those of their collections. -/
theorem Sampled.insert {loaded : LoadedCollections} {name : String} {bytes : Nat}
    {sampled : List (String × Nat)} (h : Sampled loaded ((name, bytes) :: sampled)) (c : LoadedCollection) :
    Sampled (loaded.insert name c.clearMetadataCache) sampled := by
  obtain ⟨hout, hnodup⟩ := List.nodup_cons.mp h.nodup
  refine ⟨hnodup, fun e he => ?_⟩
  obtain ⟨c', hc', hsize⟩ := h.sizes e (List.mem_cons_of_mem _ he)
  refine ⟨c', ?_, hsize⟩
  rw [HashMap.lookup_insert, if_neg, hc']
  intro heq
  have hin : e.1 ∈ sampled.map Prod.fst := List.mem_map_of_mem he
  exact hout (heq ▸ hin)

/-- A sweep clears the collections at the front of the list, each while the sum of all caches is over
the budget. -/
theorem Sweep.run_spec (maxBytes : Nat) {sampled : List (String × Nat)} {s : Sweep}
    (h : Sampled s.loaded sampled) (htotal : s.total = s.loaded.cacheUsageBytes) :
    ∃ done rest, sampled = done ++ rest ∧
      (Sweep.run maxBytes sampled s).cleared = s.cleared ++ done.map Prod.fst ∧
      (Sweep.run maxBytes sampled s).loaded = s.loaded.clearEach (done.map Prod.fst) ∧
      (∀ i < done.length, maxBytes < (s.loaded.clearEach ((done.map Prod.fst).take i)).cacheUsageBytes) ∧
      ((Sweep.run maxBytes sampled s).loaded.cacheUsageBytes ≤ maxBytes ∨ ∀ e ∈ rest.head?, e.2 = 0) := by
  induction sampled generalizing s with
  | nil => exact ⟨[], [], rfl, by simp [run], rfl, by simp, .inr (by simp)⟩
  | cons entry sampled ih =>
      obtain ⟨name, bytes⟩ := entry
      rw [run]
      split
      · rename_i hstop
        refine ⟨[], (name, bytes) :: sampled, rfl, (List.append_nil _).symm, rfl, by simp, ?_⟩
        rcases hstop with hwithin | hzero
        · exact .inl (htotal ▸ hwithin)
        · exact .inr (by simpa using hzero)
      · rename_i hgo
        obtain ⟨c, hc, -⟩ := h.sizes _ List.mem_cons_self
        have hc : s.loaded.lookup name = some c := hc
        rw [hc]
        have hsampled := h.insert c
        have hrest : s.total - c.metadataCacheUsageBytes =
            cacheUsageBytes (s.loaded.insert name c.clearMetadataCache) := by
          have husage := usage_insert hc c.clearMetadataCache
          have hclear := c.cacheUsageBytes_clear
          omega
        obtain ⟨done, rest, hsplit, hcleared, hloaded, hover, hend⟩ := ih (s := ⟨s.total - c.metadataCacheUsageBytes,
          s.loaded.insert name c.clearMetadataCache, s.cleared ++ [name]⟩) hsampled hrest
        refine ⟨(name, bytes) :: done, rest, by rw [hsplit]; rfl, ?_, ?_, fun i hi => ?_, hend⟩
        · simp only [hcleared, List.map_cons, List.append_assoc, List.singleton_append]
        · simp only [hloaded, List.map_cons, clearEach_cons s.loaded hc]
        · cases i with
          | zero =>
              change maxBytes < s.loaded.cacheUsageBytes
              rw [← htotal]
              exact not_le.mp (not_or.mp hgo).1
          | succ i =>
              rw [List.map_cons, List.take_succ_cons, clearEach_cons s.loaded hc]
              exact hover i (Nat.lt_of_succ_lt_succ hi)

/-- What enforcing a budget does to the loaded collections. -/
structure BudgetKept (maxBytes : Nat) (loaded loaded' : LoadedCollections) (cleared : List String) : Prop where
  outcome : loaded'.cacheUsageBytes ≤ maxBytes ∨
    ∀ name c, loaded'.lookup name = some c → c.coll.cache.metadata = ∅
  needed : ∀ i < cleared.length, maxBytes < (loaded.clearEach (cleared.take i)).cacheUsageBytes
  largest : cleared.Pairwise fun a b => ∀ ca cb, loaded.lookup a = some ca → loaded.lookup b = some cb →
    cb.metadataCacheUsageBytes ≤ ca.metadataCacheUsageBytes
  effect : loaded' = loaded.clearEach cleared
  names : loaded'.keys = loaded.keys
  unchanged : ∀ name c c', loaded.lookup name = some c → loaded'.lookup name = some c' →
    c'.coll = { c.coll with cache := c'.coll.cache } ∧ c'.coll.cache.vectors = c.coll.cache.vectors

/-- Clearing metadata leaves the rest as it is. -/
theorem LoadedCollections.clearEach_unchanged (loaded : LoadedCollections) {names : List String}
    (hnodup : names.Nodup) {name : String} {c c' : LoadedCollection} (hc : loaded.lookup name = some c)
    (hc' : (loaded.clearEach names).lookup name = some c') :
    c'.coll = { c.coll with cache := c'.coll.cache } ∧ c'.coll.cache.vectors = c.coll.cache.vectors := by
  rw [lookup_clearEach loaded hnodup, hc] at hc'
  split at hc'
  · cases hc'
    exact ⟨rfl, rfl⟩
  · cases hc'
    exact ⟨rfl, rfl⟩

theorem LoadedCollections.keys_clearEach (loaded : LoadedCollections) {names : List String} (hnodup : names.Nodup) :
    (loaded.clearEach names).keys = loaded.keys := by
  ext name
  rw [HashMap.mem_keys_iff, HashMap.mem_keys_iff, lookup_clearEach loaded hnodup]
  split
  · simp
  · rfl

/-- The sizes that a sweep goes by are those of the loaded collections, largest first. -/
theorem sampled_sorted (order : HashOrder String) (loaded : LoadedCollections) :
    Sampled loaded (((order.entries loaded).map fun e => (e.1, e.2.metadataCacheUsageBytes)).insertionSort
      fun a b => b.2 ≤ a.2) where
  nodup := by
    have hperm := (List.perm_insertionSort (fun a b : String × Nat => b.2 ≤ a.2)
      ((order.entries loaded).map fun e => (e.1, e.2.metadataCacheUsageBytes))).map Prod.fst
    rw [hperm.nodup_iff, List.map_map]
    change ((order.entries loaded).map Prod.fst).Nodup
    rw [order.map_fst_entries]
    exact order.nodup _
  sizes e he := by
    obtain ⟨entry, hentry, rfl⟩ := List.mem_map.mp ((List.perm_insertionSort _ _).mem_iff.mp he)
    exact ⟨entry.2, (order.mem_entries loaded entry.1 entry.2).mp hentry, rfl⟩

/-- A budget is enforced by clearing metadata, the largest first, and no more of it than needed. The caches
of a process have less than 2^64 bytes. -/
theorem enforceCacheBudget_spec {config : CacheConfig} {maxBytes : Nat} (order : HashOrder String)
    {loaded : LoadedCollections} (henabled : config.enabled = true) (hmax : config.maxBytes = some maxBytes)
    (hspace : loaded.cacheUsageBytes < 2 ^ 64) :
    BudgetKept maxBytes loaded (enforceCacheBudget config order loaded).1
      (enforceCacheBudget config order loaded).2 := by
  have henforce : enforceCacheBudget config order loaded =
      if loaded.cacheUsageBytes > maxBytes then
        ((Sweep.run maxBytes (((order.entries loaded).map fun e => (e.1, e.2.metadataCacheUsageBytes)).insertionSort
          fun a b => b.2 ≤ a.2) ⟨loaded.cacheUsageBytes, loaded, []⟩).loaded,
        (Sweep.run maxBytes (((order.entries loaded).map fun e => (e.1, e.2.metadataCacheUsageBytes)).insertionSort
          fun a b => b.2 ≤ a.2) ⟨loaded.cacheUsageBytes, loaded, []⟩).cleared)
      else (loaded, []) := by
    unfold enforceCacheBudget
    rw [henabled, hmax]
    simp only [Bool.not_true, Bool.false_eq_true, if_false, foldl_usage order loaded hspace]
  rw [henforce]
  by_cases hover : loaded.cacheUsageBytes > maxBytes
  · rw [if_pos hover]
    have hsampled := sampled_sorted order loaded
    have hsorted : (((order.entries loaded).map fun e => (e.1, e.2.metadataCacheUsageBytes)).insertionSort
        fun a b => b.2 ≤ a.2).Pairwise fun a b => b.2 ≤ a.2 := by
      have : Std.Total fun a b : String × Nat => b.2 ≤ a.2 := ⟨fun a b => le_total _ _⟩
      have : IsTrans (String × Nat) fun a b => b.2 ≤ a.2 := ⟨fun _ _ _ h h' => le_trans h' h⟩
      exact List.pairwise_insertionSort _ _
    have hall : ∀ name ∈ loaded.keys, name ∈ (((order.entries loaded).map fun e =>
        (e.1, e.2.metadataCacheUsageBytes)).insertionSort fun a b => b.2 ≤ a.2).map Prod.fst := by
      intro name hname
      obtain ⟨c, hc⟩ := (HashMap.mem_keys_iff _ _).mp hname
      refine List.mem_map_of_mem (f := Prod.fst) (a := (name, c.metadataCacheUsageBytes)) ?_
      refine (List.perm_insertionSort _ _).mem_iff.mpr ?_
      exact List.mem_map_of_mem (f := fun e : String × LoadedCollection => (e.1, e.2.metadataCacheUsageBytes))
        ((order.mem_entries loaded name c).mpr hc)
    revert hsampled hsorted hall
    generalize ((order.entries loaded).map fun e => (e.1, e.2.metadataCacheUsageBytes)).insertionSort
      (fun a b => b.2 ≤ a.2) = sampled
    intro hsampled hsorted hall
    obtain ⟨done, rest, rfl, hcleared, hloaded, hneeded, hend⟩ :=
      Sweep.run_spec maxBytes (s := ⟨loaded.cacheUsageBytes, loaded, []⟩) hsampled rfl
    rw [List.nil_append] at hcleared
    have hnodup : (done.map Prod.fst).Nodup := by
      have h := hsampled.nodup
      rw [List.map_append] at h
      exact (List.nodup_append'.mp h).1
    have hsizes : ∀ e ∈ done ++ rest, ∀ c, loaded.lookup e.1 = some c → c.metadataCacheUsageBytes = e.2 := by
      intro e he c hc
      obtain ⟨c', hc', hsize⟩ := hsampled.sizes e he
      rw [hc] at hc'
      cases hc'
      exact hsize
    simp only [hcleared, hloaded] at hend ⊢
    refine ⟨?_, ?_, ?_, rfl, loaded.keys_clearEach hnodup, fun name c c' hc hc' =>
      loaded.clearEach_unchanged hnodup hc hc'⟩
    · refine hend.imp_right fun hzero name c hc => ?_
      rw [lookup_clearEach loaded hnodup] at hc
      split at hc
      · obtain ⟨c₀, -, rfl⟩ := Option.map_eq_some_iff.mp hc
        rfl
      · -- the sizes that are left are no larger than the first of them
        rename_i hout
        have hin := hall name ((HashMap.mem_keys_iff _ _).mpr ⟨c, hc⟩)
        rw [List.map_append, List.mem_append] at hin
        obtain ⟨e, he, rfl⟩ := List.mem_map.mp (hin.resolve_left hout)
        have hsize := hsizes e (List.mem_append_right done he) c hc
        have hnone : e.2 = 0 := by
          cases rest with
          | nil => cases he
          | cons first rest =>
              have hfirst : first.2 = 0 := hzero first rfl
              cases List.mem_cons.mp he with
              | inl heq => rw [heq, hfirst]
              | inr htail =>
                  have hle := (List.pairwise_cons.mp (List.pairwise_append.mp hsorted).2.1).1 e htail
                  omega
        exact CacheManager.metadata_of_usage_eq_zero (hsize.trans hnone)
    · intro i hi
      rw [List.length_map] at hi
      exact hneeded i hi
    · refine List.pairwise_map.mpr ((List.pairwise_append.mp hsorted).1.imp_of_mem ?_)
      intro a b ha hb hle ca cb hca hcb
      rw [hsizes a (List.mem_append_left rest ha) ca hca, hsizes b (List.mem_append_left rest hb) cb hcb]
      exact hle
  · rw [if_neg hover]
    refine ⟨.inl (not_lt.mp hover), fun i hi => absurd hi (Nat.not_lt_zero i), List.Pairwise.nil, rfl, rfl, ?_⟩
    intro name c c' hc hc'
    rw [hc] at hc'
    cases hc'
    exact ⟨rfl, rfl⟩

/-! ## The locks it takes -/

section

open Threads

/-- The write path knows of the loaded collections by name, and of their caches by size. -/
structure Loaded.Shows (m : Loaded String) (loaded : LoadedCollections) : Prop where
  handles : m.handles = loaded.keys
  usage : ∀ name c, loaded.lookup name = some c →
    m.usage name = ⟨c.coll.cache.vectorUsageBytes, c.metadataCacheUsageBytes⟩

variable {ι : Type} [DecidableEq ι] {i : ι} {c : State ι String (Loaded String) Unit}
  {P : State ι String (Loaded String) Unit → Prop} {m : Loaded String} {maxBytes : Nat}
  {next : RequestThread String}

/-- A lock is free for a thread that holds none, while no other thread holds any. -/
theorem not_excludes (hfree : ∀ j, j ≠ i → c.held j = []) (thread : RequestThread String) (l : String)
    (mode : Mode) (j : ι) : ¬(c.advance i m thread []).Excludes j l mode := by
  rintro ⟨held, hin, -⟩
  by_cases hj : j = i
  · simp [State.advance, hj] at hin
  · simp [State.advance, Function.update_of_ne hj, hfree j hj] at hin

/-- The first loop adds up the sizes, and takes note of them. -/
theorem survey_reaches (hfree : ∀ j, j ≠ i → c.held j = []) (names : List String) (total : Nat)
    (collections : List (String × Nat))
    (h : Reaches P (c.advance i m (AppState.survey maxBytes next []
      (names.foldl (fun total name => AppState.saturatingAdd total (m.usage name).cacheBytes) total)
      (collections ++ names.map fun name => (name, (m.usage name).metadataBytes))) [])) :
    Reaches P (c.advance i m (AppState.survey maxBytes next names total collections) []) := by
  induction names generalizing total collections with
  | nil =>
      rw [List.map_nil, List.append_nil] at h
      exact h
  | cons name names ih =>
      rw [AppState.survey]
      refine .acquire (not_excludes hfree _ _ _) (.act (.release ?_))
      rw [List.map_cons, List.foldl_cons, ← List.singleton_append, ← List.append_assoc] at h
      simpa using ih _ _ h

/-- The collection is cleared under its lock. -/
theorem Loaded.Shows.clear {loaded : LoadedCollections} (h : m.Shows loaded) {name : String}
    {coll : LoadedCollection} (hcoll : loaded.lookup name = some coll) :
    (m.setUsage name (m.usage name).clearMetadata).Shows (loaded.insert name coll.clearMetadataCache) := by
  constructor
  · rw [HashMap.keys_insert, Finset.insert_eq_of_mem ((HashMap.mem_keys_iff _ _).mpr ⟨coll, hcoll⟩)]
    exact h.handles
  · intro name' coll' hcoll'
    rw [HashMap.lookup_insert] at hcoll'
    by_cases heq : name' = name
    · subst heq
      rw [if_pos rfl] at hcoll'
      cases hcoll'
      simp only [Loaded.setUsage, Function.update_self, h.usage name' coll hcoll]
      rfl
    · rw [if_neg heq] at hcoll'
      simp only [Loaded.setUsage, Function.update_of_ne heq, h.usage name' coll' hcoll']

/-- The second loop clears what a sweep clears. -/
theorem evict_reaches (hfree : ∀ j, j ≠ i → c.held j = []) {sampled : List (String × Nat)} {s : Sweep}
    (hsampled : Sampled s.loaded sampled) (hm : m.Shows s.loaded)
    (h : ∀ m', m'.Shows (Sweep.run maxBytes sampled s).loaded → Reaches P (c.advance i m' next [])) :
    Reaches P (c.advance i m (AppState.evict maxBytes next sampled s.total) []) := by
  induction sampled generalizing m s with
  | nil => exact h m hm
  | cons entry sampled ih =>
      obtain ⟨name, bytes⟩ := entry
      rw [Sweep.run] at h
      rw [AppState.evict]
      split
      · rename_i hstop
        rw [if_pos hstop] at h
        exact h m hm
      · rename_i hgo
        obtain ⟨coll, hcoll, -⟩ := hsampled.sizes _ List.mem_cons_self
        have hcoll : s.loaded.lookup name = some coll := hcoll
        rw [if_neg hgo, hcoll] at h
        refine .acquire (not_excludes hfree _ _ _) (.act (.release ?_))
        have hfreed : (m.usage name).metadataBytes = coll.metadataCacheUsageBytes := by
          rw [hm.usage name coll hcoll]
        rw [hfreed]
        simpa using ih (s := ⟨s.total - coll.metadataCacheUsageBytes,
          s.loaded.insert name coll.clearMetadataCache, s.cleared ++ [name]⟩)
          (hsampled.insert coll) (hm.clear hcoll) h

/-- Whoever enforces the budget while no lock is held gets through, and leaves the caches as
`enforceCacheBudget` does. -/
theorem enforceCacheBudget_reaches (hfree : ∀ j, j ≠ i → c.held j = []) {loaded : LoadedCollections}
    (hm : m.Shows loaded) (config : CacheConfig) (order : HashOrder String)
    (h : ∀ m', m'.Shows (enforceCacheBudget config order loaded).1 → Reaches P (c.advance i m' next [])) :
    Reaches P (c.advance i m (AppState.enforceCacheBudget config order next) []) := by
  unfold AppState.enforceCacheBudget
  unfold enforceCacheBudget at h
  split
  · rename_i hdisabled
    rw [if_pos hdisabled] at h
    exact h m hm
  rename_i henabled
  rw [if_neg henabled] at h
  cases hmax : config.maxBytes with
  | none =>
      rw [hmax] at h
      exact h m hm
  | some maxBytes =>
      rw [hmax] at h
      simp only at h
      refine .act (survey_reaches hfree _ _ _ ?_)
      -- both go through the same sizes
      have hnames : (order.entries loaded).map Prod.fst = order.enum m.handles := by
        rw [order.map_fst_entries, hm.handles]
      have husage : ∀ e ∈ order.entries loaded, m.usage e.1 =
          ⟨e.2.coll.cache.vectorUsageBytes, e.2.metadataCacheUsageBytes⟩ := fun e he =>
        hm.usage e.1 e.2 ((order.mem_entries loaded e.1 e.2).mp he)
      have hsampled : (order.enum m.handles).map (fun name => (name, (m.usage name).metadataBytes)) =
          (order.entries loaded).map fun e => (e.1, e.2.metadataCacheUsageBytes) := by
        rw [← hnames, List.map_map]
        refine List.map_congr_left fun e he => ?_
        simp only [Function.comp_apply, husage e he]
      have htotal : (order.enum m.handles).foldl
          (fun total name => AppState.saturatingAdd total (m.usage name).cacheBytes) 0 =
            (order.entries loaded).foldl (fun total e => AppState.saturatingAdd total e.2.cacheUsageBytes) 0 := by
        rw [← hnames, List.foldl_map]
        refine List.foldl_ext _ _ _ fun total e he => ?_
        rw [husage e he]
        rfl
      simp only [id_eq]
      rw [List.nil_append, hsampled, htotal, AppState.survey]
      split
      · rename_i hover
        rw [if_pos hover] at h
        exact evict_reaches hfree (s := ⟨_, loaded, []⟩) (sampled_sorted order loaded) hm h
      · rename_i hwithin
        rw [if_neg hwithin] at h
        exact h m hm

end

/-! ## Three collections over the budget -/

section

open Reference

/-- A collection with the vector and the metadata of one document in its cache, whose text has room
for `room` bytes. -/
def cachedDocument (name : String) (room : Nat) : LoadedCollection where
  coll :=
    { recordStore := ⟨.data, none, 0⟩
      index := ∅
      vectorIndex := .flat (.new ⟨.cosine, .auto⟩)
      cache := ((CacheManager.new ⟨true, 16, none⟩).putVector 0 [F32.one]).putMetadata 0
        (Finmap.insert "kind" (.string "a") ∅)
      config := flatConfig
      metadata := .new name 0
      path := name ++ ".db"
      checkpoint := .new ⟨false, 1⟩ }
  capacities := ⟨fun _ _ => 4, fun _ _ _ => room, 32⟩

/-- Names in their order. -/
def nameOrder : HashOrder String := .sortedBy id Function.injective_id

/-- The caches take 41, 140 and 50 bytes. -/
def threeLoaded : LoadedCollections :=
  Finmap.insert "a" (cachedDocument "a" 1) (Finmap.insert "b" (cachedDocument "b" 100)
    (Finmap.insert "c" (cachedDocument "c" 10) ∅))

/-- With a budget of 100 bytes, the metadata of the two largest goes, and that of the third stays. -/
theorem docs_cleared :
    BudgetKept 100 threeLoaded (enforceCacheBudget ⟨true, 16, some 100⟩ nameOrder threeLoaded).1
        (enforceCacheBudget ⟨true, 16, some 100⟩ nameOrder threeLoaded).2 ∧
      (enforceCacheBudget ⟨true, 16, some 100⟩ nameOrder threeLoaded).2 = ["b", "c"] := by
  have hspace : threeLoaded.cacheUsageBytes < 2 ^ 64 := by decide +kernel
  have hcleared : (enforceCacheBudget ⟨true, 16, some 100⟩ nameOrder threeLoaded).2 = ["b", "c"] := by
    decide +kernel
  exact ⟨enforceCacheBudget_spec nameOrder rfl rfl hspace, hcleared⟩

end
