-- SUMMARY: Hash maps as finite maps, with the lookup laws in conditional form, and the unknown order in which they are iterated.
import Mathlib.Data.Finmap
import Mathlib.Data.List.Sort
import Mathlib.Tactic.Common

/-!
# Hash maps

A hash map is a finite map: two are equal when they hold the same bindings. The
order in which one is iterated is no part of it, and comes from outside.
-/

/-- A hash map from `κ` to `ν`. -/
abbrev HashMap (κ ν : Type) : Type := Finmap fun _ : κ => ν

namespace HashMap

variable {κ ν : Type} [DecidableEq κ]

theorem lookup_insert (m : HashMap κ ν) (k k' : κ) (v : ν) :
    (m.insert k v).lookup k' = if k' = k then some v else m.lookup k' := by
  by_cases h : k' = k
  · subst h
    simp
  · simp [h, Finmap.lookup_insert_of_ne m h]

theorem lookup_erase (m : HashMap κ ν) (k k' : κ) :
    (m.erase k).lookup k' = if k' = k then none else m.lookup k' := by
  by_cases h : k' = k
  · subst h
    simp
  · simp [h, Finmap.lookup_erase_ne h]

theorem keys_insert (m : HashMap κ ν) (k : κ) (v : ν) :
    (m.insert k v).keys = insert k m.keys := by
  ext k'
  rw [Finmap.mem_keys, Finmap.mem_insert, Finset.mem_insert, Finmap.mem_keys]

/-- `HashMap::len`. -/
def len (m : HashMap κ ν) : Nat := m.keys.card

theorem mem_keys_iff (m : HashMap κ ν) (k : κ) : k ∈ m.keys ↔ ∃ v, m.lookup k = some v := by
  rw [Finmap.mem_keys, Finmap.mem_iff]

theorem not_mem_keys_iff (m : HashMap κ ν) (k : κ) : k ∉ m.keys ↔ m.lookup k = none := by
  rw [Finmap.mem_keys, ← Finmap.lookup_eq_none]

/-- Insert bindings one after the other. -/
def insertEach (m : HashMap κ ν) (entries : List (κ × ν)) : HashMap κ ν :=
  entries.foldl (fun m e => m.insert e.1 e.2) m

theorem lookup_insertEach_of_not_mem {m : HashMap κ ν} {entries : List (κ × ν)} {k : κ}
    (h : k ∉ entries.map Prod.fst) : (m.insertEach entries).lookup k = m.lookup k := by
  induction entries generalizing m with
  | nil => rfl
  | cons e entries ih =>
      simp only [List.map_cons, List.mem_cons, not_or] at h
      change (insertEach (m.insert e.1 e.2) entries).lookup k = m.lookup k
      rw [ih h.2, lookup_insert, if_neg h.1]

theorem lookup_insertEach_of_mem {m : HashMap κ ν} {entries : List (κ × ν)}
    (hnodup : (entries.map Prod.fst).Nodup) {k : κ} {v : ν} (h : (k, v) ∈ entries) :
    (m.insertEach entries).lookup k = some v := by
  induction entries generalizing m with
  | nil => cases h
  | cons e entries ih =>
      obtain ⟨hhead, htail⟩ := List.nodup_cons.mp hnodup
      change (insertEach (m.insert e.1 e.2) entries).lookup k = some v
      cases List.mem_cons.mp h with
      | inl heq =>
          subst heq
          rw [lookup_insertEach_of_not_mem hhead, lookup_insert, if_pos rfl]
      | inr hmem => exact ih htail hmem

end HashMap

/-- The order in which a set of keys is iterated, unknown but for this: each key
comes up exactly once. -/
structure HashOrder (κ : Type) where
  enum : Finset κ → List κ
  nodup : ∀ s, (enum s).Nodup
  mem_enum : ∀ s k, k ∈ enum s ↔ k ∈ s

namespace HashOrder

variable {κ ν : Type} [DecidableEq κ]

/-- The bindings of a map in iteration order. -/
def entries (o : HashOrder κ) (m : HashMap κ ν) : List (κ × ν) :=
  (o.enum m.keys).filterMap fun k => (m.lookup k).map (k, ·)

@[simp] theorem mem_entries (o : HashOrder κ) (m : HashMap κ ν) (k : κ) (v : ν) :
    (k, v) ∈ o.entries m ↔ m.lookup k = some v := by
  simp only [entries, List.mem_filterMap, Option.map_eq_some_iff, Prod.mk.injEq]
  constructor
  · rintro ⟨k', -, v', hv, rfl, rfl⟩
    exact hv
  · intro h
    exact ⟨k, (o.mem_enum _ _).mpr ((m.mem_keys_iff k).mpr ⟨v, h⟩), v, h, rfl, rfl⟩

theorem map_fst_entries (o : HashOrder κ) (m : HashMap κ ν) :
    (o.entries m).map Prod.fst = o.enum m.keys := by
  have key : ∀ ks : List κ, (∀ k ∈ ks, k ∈ m.keys) →
      (ks.filterMap fun k => (m.lookup k).map (k, ·)).map Prod.fst = ks := by
    intro ks hks
    induction ks with
    | nil => rfl
    | cons k ks ih =>
        obtain ⟨v, hv⟩ := (m.mem_keys_iff k).mp (hks k (by simp))
        have := ih fun k' hk' => hks k' (by simp [hk'])
        simp [hv, this]
  exact key _ fun k hk => (o.mem_enum _ _).mp hk

theorem toFinset_enum (o : HashOrder κ) (s : Finset κ) : (o.enum s).toFinset = s := by
  ext k
  simp [o.mem_enum]

theorem length_enum (o : HashOrder κ) (s : Finset κ) : (o.enum s).length = s.card := by
  rw [← List.toFinset_card_of_nodup (o.nodup s), toFinset_enum]

theorem length_entries (o : HashOrder κ) (m : HashMap κ ν) : (o.entries m).length = m.len := by
  rw [← List.length_map (f := Prod.fst), o.map_fst_entries, o.length_enum, HashMap.len]

/-- The bindings of a map, inserted in any order, give the map back. -/
theorem insertEach_entries (o : HashOrder κ) (m : HashMap κ ν) :
    HashMap.insertEach ∅ (o.entries m) = m := by
  refine Finmap.ext_lookup fun k => ?_
  have hkeys : (o.entries m).map Prod.fst = o.enum m.keys := o.map_fst_entries m
  cases hk : m.lookup k with
  | none =>
      rw [HashMap.lookup_insertEach_of_not_mem]
      · exact Finmap.lookup_empty k
      · rw [hkeys, o.mem_enum, HashMap.not_mem_keys_iff]
        exact hk
  | some v =>
      refine HashMap.lookup_insertEach_of_mem ?_ ((o.mem_entries m k v).mpr hk)
      rw [hkeys]
      exact o.nodup _

/-- The order of the numbers `key` gives the keys. -/
def sortedBy {ι : Type} [LinearOrder ι] (key : κ → ι) (hkey : key.Injective) : HashOrder κ where
  enum s := Quot.liftOn s.val (List.insertionSort fun k k' => key k ≤ key k')
    fun l l' (h : l.Perm l') => by
      have := total_of (fun k k' => key k ≤ key k')
      refine List.Perm.eq_of_pairwise (fun k k' _ _ hle hge => hkey (le_antisymm hle hge))
        (List.pairwise_insertionSort _ l) (List.pairwise_insertionSort _ l') ?_
      exact (List.perm_insertionSort _ l).trans (h.trans (List.perm_insertionSort _ l').symm)
  nodup s := by
    obtain ⟨⟨l⟩, hs⟩ := s
    exact (List.perm_insertionSort _ l).nodup_iff.mpr hs
  mem_enum s k := by
    obtain ⟨⟨l⟩, hs⟩ := s
    exact (List.perm_insertionSort _ l).mem_iff

end HashOrder
