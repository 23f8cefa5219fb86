-- SUMMARY: Offset indexes within the limits: what installing, removing and copying records does to them.
import Mathlib.Algebra.BigOperators.Group.Finset.Basic
import Mathlib.Order.Interval.Finset.Nat
import Piramid.Collections.Memory

/-!
# Offset indexes within the limits

The records that an index points to lie apart below the append cursor. So all live
records together are no longer than what is used of the data file, and a copy of them
stays within the limits that the original is within.
-/

open Loop Prog

/-- The index points to as many records as the limits allow, apart from each other and
below a cursor that is within the limits. -/
structure OffsetIndex.Bounded (limits : LimitsConfig) (index : OffsetIndex) (cursor : Nat) :
    Prop where
  vectors : ∀ n, limits.maxVectors = some n → index.len ≤ n
  total : ∀ n, limits.maxBytes = some n → cursor ≤ n
  entry : ∀ n, limits.maxVectorBytes = some n → ∀ id p, index.lookup id = some p → p.length ≤ n
  below : index.Below cursor
  apart : ∀ id id' p p', id ≠ id' → index.lookup id = some p → index.lookup id' = some p' →
    p.stop ≤ p'.offset ∨ p'.stop ≤ p.offset

/-- Where records of these sizes go, one behind the other. -/
def RecordStore.pointersFrom : Nat → List Nat → List EntryPointer
  | _, [] => []
  | cursor, bytes :: sizes => .new cursor bytes :: RecordStore.pointersFrom (cursor + bytes) sizes

/-- There is room for records of these sizes, one behind the other. -/
def LimitsConfig.Room (limits : LimitsConfig) : Nat → Nat → List Nat → Prop
  | _, _, [] => True
  | count, cursor, bytes :: sizes =>
    limits.Admits count cursor bytes ∧ limits.Room (count + 1) (cursor + bytes) sizes

theorem LimitsConfig.Room.mono {limits : LimitsConfig} {count count' cursor : Nat} {sizes : List Nat}
    (h : limits.Room count cursor sizes) (hcount : count' ≤ count) :
    limits.Room count' cursor sizes := by
  induction sizes generalizing count count' cursor with
  | nil => trivial
  | cons bytes sizes ih => exact ⟨h.1.mono hcount le_rfl, ih h.2 (Nat.add_le_add_right hcount 1)⟩

/-- Records that are small enough, and few and short enough together. -/
theorem LimitsConfig.room_of_le {limits : LimitsConfig} {count cursor : Nat} {sizes : List Nat}
    (hvectors : ∀ n, limits.maxVectors = some n → count + sizes.length ≤ n)
    (htotal : ∀ n, limits.maxBytes = some n → cursor + sizes.sum ≤ n)
    (hentry : ∀ n, limits.maxVectorBytes = some n → ∀ bytes ∈ sizes, bytes ≤ n) :
    limits.Room count cursor sizes := by
  induction sizes generalizing count cursor with
  | nil => trivial
  | cons bytes sizes ih =>
      simp only [List.length_cons, List.sum_cons] at hvectors htotal
      refine ⟨⟨fun n hn => ?_, fun n hn => ?_, fun n hn => hentry n hn bytes List.mem_cons_self⟩,
        ih (fun n hn => ?_) (fun n hn => ?_) fun n hn b hb => hentry n hn b (List.mem_cons_of_mem _ hb)⟩
      · have := hvectors n hn
        omega
      · have := htotal n hn
        omega
      · have := hvectors n hn
        omega
      · have := htotal n hn
        omega

/-- A batch that is accepted has room. -/
theorem Collection.room_of_enforceBatch {c : Collection} {sizes : List Nat}
    (h : c.enforceBatch sizes.length sizes.sum sizes.max? = .ok ()) :
    c.config.limits.Room c.index.len c.recordStore.appendCursor sizes := by
  unfold enforceBatch at h
  simp only [bind_unit_eq_ok, checkVectors_eq_ok, checkBytes_eq_ok, decide_eq_false_iff_not,
    not_lt] at h
  obtain ⟨hvectors, htotal, hentry⟩ := h
  refine LimitsConfig.room_of_le hvectors htotal fun n hn bytes hbytes => ?_
  cases hmax : sizes.max? with
  | none =>
      rw [List.max?_eq_none_iff.mp hmax] at hbytes
      cases hbytes
  | some most =>
      have hle : bytes ≤ most := (List.max?_eq_some_iff.mp hmax).2 bytes hbytes
      simp only [hmax] at hentry
      split at hentry
      · exact hle.trans (checkEntryBytes_eq_ok.mp hentry n hn)
      · have hzero : most = 0 := by omega
        rw [hzero] at hle
        exact hle.trans (Nat.zero_le n)

namespace OffsetIndex.Bounded

variable {limits : LimitsConfig} {index : OffsetIndex} {cursor cursor' : Nat}

theorem empty (limits : LimitsConfig) : Bounded limits ∅ 0 where
  vectors n _ := Nat.zero_le n
  total n _ := Nat.zero_le n
  entry n _ id p hp := by simp at hp
  below id p hp := by simp at hp
  apart id id' p p' _ hp := by simp at hp

/-- A store that is opened again appends behind the last record. -/
theorem reopen (h : index.Bounded limits cursor) :
    index.Bounded limits (RecordStore.nextAppendOffset index) :=
  { h with
    total := fun n hn => (nextAppendOffset_le h.below).trans (h.total n hn)
    below := below_nextAppendOffset index }

theorem erase (h : index.Bounded limits cursor) (id : Uuid) :
    OffsetIndex.Bounded limits (Finmap.erase id index) cursor := by
  have hold : ∀ id' p, (Finmap.erase id index).lookup id' = some p → index.lookup id' = some p := by
    intro id' p hp
    rw [HashMap.lookup_erase] at hp
    split at hp
    · cases hp
    · exact hp
  refine ⟨fun n hn => ?_, h.total, fun n hn id' p hp => h.entry n hn id' p (hold id' p hp),
    h.below.erase id, fun a b p p' hne hp hp' => h.apart a b p p' hne (hold a p hp) (hold b p' hp')⟩
  unfold HashMap.len
  rw [Finmap.keys_erase]
  exact (Finset.card_erase_le).trans (h.vectors n hn)

/-- A record is appended. -/
theorem install (h : index.Bounded limits cursor) (id : Uuid) {bytes : Nat}
    (hadmits : limits.Admits index.len cursor bytes) :
    OffsetIndex.Bounded limits (Finmap.insert id (.new cursor bytes) index) (cursor + bytes) := by
  have hstop : (EntryPointer.new cursor bytes).stop ≤ cursor + bytes :=
    Nat.add_le_add_left (Nat.mod_le _ _) cursor
  have hlookup : ∀ id' p, (Finmap.insert id (.new cursor bytes) index).lookup id' = some p →
      id' = id ∧ p = .new cursor bytes ∨ id' ≠ id ∧ index.lookup id' = some p := by
    intro id' p hp
    rw [HashMap.lookup_insert] at hp
    split at hp
    · rename_i hid
      exact .inl ⟨hid, (Option.some.inj hp).symm⟩
    · rename_i hid
      exact .inr ⟨hid, hp⟩
  refine ⟨fun n hn => ?_, hadmits.total, fun n hn id' p hp => ?_,
    (h.below.mono (Nat.le_add_right _ _)).insert id hstop, fun a b p p' hne hp hp' => ?_⟩
  · unfold HashMap.len
    rw [HashMap.keys_insert]
    exact (Finset.card_insert_le _ _).trans (hadmits.vectors n hn)
  · rcases hlookup id' p hp with ⟨-, rfl⟩ | ⟨-, hold⟩
    · exact (Nat.mod_le _ _).trans (hadmits.entry n hn)
    · exact h.entry n hn id' p hold
  · rcases hlookup a p hp with ⟨rfl, rfl⟩ | ⟨-, hold⟩
    · rcases hlookup b p' hp' with ⟨rfl, -⟩ | ⟨-, hold'⟩
      · exact absurd rfl hne
      · exact .inr (h.below b p' hold')
    · rcases hlookup b p' hp' with ⟨-, rfl⟩ | ⟨-, hold'⟩
      · exact .inl (h.below a p hold)
      · exact h.apart a b p p' hne hold hold'

/-- A batch of records is appended. -/
theorem installPointers (h : index.Bounded limits cursor) {ids : List Uuid} {sizes : List Nat}
    (hlen : ids.length = sizes.length) (hroom : limits.Room index.len cursor sizes) :
    OffsetIndex.Bounded limits
      (Collection.installPointers index (ids.zip (RecordStore.pointersFrom cursor sizes)))
      (cursor + sizes.sum) := by
  induction ids generalizing index cursor sizes with
  | nil =>
      rw [List.length_nil, eq_comm, List.length_eq_zero_iff] at hlen
      subst hlen
      exact h
  | cons id ids ih =>
      cases sizes with
      | nil => cases hlen
      | cons bytes sizes =>
          have hlen' : HashMap.len (Finmap.insert id (EntryPointer.new cursor bytes) index) ≤
              index.len + 1 := by
            unfold HashMap.len
            rw [HashMap.keys_insert]
            exact Finset.card_insert_le _ _
          have hrest := ih (h.install id hroom.1) (Nat.succ.inj hlen) (hroom.2.mono hlen')
          rw [List.sum_cons, ← Nat.add_assoc]
          exact hrest

/-- All live records together are no longer than what lies below the cursor. -/
theorem sum_lengths_le (h : index.Bounded limits cursor) :
    ∑ id ∈ index.keys, ((index.lookup id).map EntryPointer.length).getD 0 ≤ cursor := by
  have hcard : ∀ id ∈ index.keys, ((index.lookup id).map EntryPointer.length).getD 0 =
      (((index.lookup id).map fun p => Finset.Ico p.offset p.stop).getD ∅).card := by
    intro id hid
    obtain ⟨p, hp⟩ := (HashMap.mem_keys_iff index id).mp hid
    rw [hp]
    change p.length = (Finset.Ico p.offset (p.offset + p.length)).card
    rw [Nat.card_Ico, Nat.add_sub_cancel_left]
  rw [Finset.sum_congr rfl hcard, ← Finset.card_biUnion]
  · have hsub : (index.keys.biUnion fun id =>
        ((index.lookup id).map fun p => Finset.Ico p.offset p.stop).getD ∅) ⊆ Finset.range cursor := by
      intro x hx
      obtain ⟨id, hid, hx⟩ := Finset.mem_biUnion.mp hx
      obtain ⟨p, hp⟩ := (HashMap.mem_keys_iff index id).mp hid
      rw [hp] at hx
      exact Finset.mem_range.mpr ((Finset.mem_Ico.mp hx).2.trans_le (h.below id p hp))
    exact (Finset.card_le_card hsub).trans_eq (Finset.card_range cursor)
  · intro a ha b hb hne
    obtain ⟨p, hp⟩ := (HashMap.mem_keys_iff index a).mp ha
    obtain ⟨p', hp'⟩ := (HashMap.mem_keys_iff index b).mp hb
    change Disjoint (((index.lookup a).map fun p => Finset.Ico p.offset p.stop).getD ∅)
      (((index.lookup b).map fun p => Finset.Ico p.offset p.stop).getD ∅)
    rw [hp, hp']
    refine Finset.disjoint_left.mpr fun x hx hx' => ?_
    obtain ⟨hlo, hhi⟩ := Finset.mem_Ico.mp hx
    obtain ⟨hlo', hhi'⟩ := Finset.mem_Ico.mp hx'
    rcases h.apart a b p p' hne hp hp' with hle | hle
    · omega
    · omega

end OffsetIndex.Bounded
