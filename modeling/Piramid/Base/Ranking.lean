-- SUMMARY: Stable sorting by a score, and when its first items are also the best by another score.
import Mathlib.Data.List.Nodup
import Mathlib.Data.List.Sort
import Mathlib.Tactic.Common

/-!
# Rankings

A ranking has the items with the higher scores first, and items with one score in
the order they came in. Its first items are the best by that score. Whether they are
the best by another score as well is a matter of pairs of items.
-/

namespace Ranking

variable {α ι κ : Type} [DecidableEq α] {items l : List α} {a b : α}

/-! ## Pairs in a list -/

theorem pair_sublist (ha : a ∈ l) (hb : b ∈ l) (h : l.idxOf a < l.idxOf b) : [a, b].Sublist l := by
  induction l with
  | nil => cases ha
  | cons x l ih =>
      have hxb : x ≠ b := by
        intro heq
        subst heq
        simp at h
      have hbl : b ∈ l := (List.mem_cons.mp hb).resolve_left hxb.symm
      by_cases hxa : x = a
      · subst hxa
        exact (List.singleton_sublist.mpr hbl).cons_cons x
      · have hal : a ∈ l := (List.mem_cons.mp ha).resolve_left (Ne.symm hxa)
        rw [List.idxOf_cons_ne l hxa, List.idxOf_cons_ne l hxb] at h
        exact (ih hal hbl (Nat.succ_lt_succ_iff.mp h)).cons x

omit [DecidableEq α] in
theorem not_pair_sublist (hnodup : l.Nodup) (hab : [a, b].Sublist l) (hba : [b, a].Sublist l) :
    False := by
  induction l with
  | nil => cases hab
  | cons x l ih =>
      obtain ⟨hx, hnodup⟩ := List.nodup_cons.mp hnodup
      cases hab with
      | cons _ hab =>
          cases hba with
          | cons _ hba => exact ih hnodup hab hba
          | cons_cons _ hba => exact hx (hab.subset (by simp))
      | cons_cons _ hab =>
          cases hba with
          | cons _ hba => exact hx (hba.subset (by simp))
          | cons_cons _ hba => exact hx (List.singleton_sublist.mp hab)

omit [DecidableEq α] in
/-- In a list that goes up, as many items lie below one as stand before it. -/
theorem countP_of_pairwise {R : α → α → Prop} [DecidableRel R] (hasymm : ∀ a b, R a b → ¬R b a)
    (h : l.Pairwise R) {i : Nat} (hi : i < l.length) : (l.countP fun c => R c l[i]) = i := by
  induction l generalizing i with
  | nil => cases hi
  | cons x l ih =>
      obtain ⟨hx, hl⟩ := List.pairwise_cons.mp h
      cases i with
      | zero =>
          refine List.countP_eq_zero.mpr fun c hc => ?_
          simp only [List.getElem_cons_zero, decide_eq_true_eq]
          cases List.mem_cons.mp hc with
          | inl hcx =>
              subst hcx
              exact fun hself => hasymm c c hself hself
          | inr hcl => exact hasymm x c (hx c hcl)
      | succ i =>
          have hlen : i < l.length := Nat.lt_of_succ_lt_succ hi
          have hbelow : R x l[i] := hx _ (List.getElem_mem hlen)
          simp [hbelow, ih hl hlen]

/-! ## Sorting by a key -/

omit [DecidableEq α] in
/-- Items that compare as their keys do are sorted by their keys. -/
theorem sorted_by_key [LinearOrder κ] {r : α → α → Prop} [DecidableRel r] {key : α → κ}
    (h : ∀ a ∈ items, ∀ b ∈ items, r a b ↔ key a ≤ key b) :
    (items.insertionSort r).Pairwise fun a b => key a ≤ key b := by
  have hsorted : ((items.insertionSort r).map key).Pairwise (· ≤ ·) := by
    rw [List.map_insertionSort _ (· ≤ ·) _ _ h]
    exact List.pairwise_insertionSort (· ≤ ·) _
  exact List.pairwise_map.mp hsorted

omit [DecidableEq α] in
/-- Sorting by a key loses the order the items came in, except among items with one key. -/
theorem sorted_keys_eq [LinearOrder κ] {items items' : List α} {key : α → κ}
    (h : items.Pairwise fun a b => key a ≤ key b) (h' : items'.Pairwise fun a b => key a ≤ key b)
    (hperm : items.Perm items') : items.map key = items'.map key :=
  List.Perm.eq_of_pairwise (fun _ _ _ _ => le_antisymm) (List.pairwise_map.mpr h)
    (List.pairwise_map.mpr h') (hperm.map key)

/-! ## Rankings by a score -/

variable [LinearOrder ι] [LinearOrder κ] {score : α → ι} {score' : α → κ}

/-- The items, best first. -/
def rank (score : α → ι) (items : List α) : List α :=
  items.insertionSort fun a b => score b ≤ score a

/-- `a` scores higher than `b`, or as high and came in first. -/
def Outranks (score : α → ι) (items : List α) (a b : α) : Prop :=
  score b < score a ∨ score b = score a ∧ items.idxOf a < items.idxOf b

instance (a b : α) : Decidable (Outranks score items a b) :=
  inferInstanceAs (Decidable (_ ∨ _))

theorem Outranks.asymm (h : Outranks score items a b) : ¬Outranks score items b a := by
  rintro (h' | ⟨heq', h'⟩)
  · rcases h with h | ⟨heq, -⟩
    · exact lt_asymm h h'
    · exact (ne_of_lt h') heq.symm
  · rcases h with h | ⟨-, h⟩
    · exact (ne_of_lt h) heq'.symm
    · exact lt_asymm h h'

omit [DecidableEq α] in
theorem rank_perm (score : α → ι) (items : List α) : (rank score items).Perm items :=
  List.perm_insertionSort _ items

theorem pairwise_rank (hnodup : items.Nodup) :
    (rank score items).Pairwise (Outranks score items) := by
  have : Std.Total fun a b : α => score b ≤ score a := ⟨fun a b => le_total _ _⟩
  have : IsTrans α fun a b => score b ≤ score a := ⟨fun _ _ _ h h' => le_trans h' h⟩
  have hsorted : (rank score items).Pairwise fun a b => score b ≤ score a :=
    List.pairwise_insertionSort _ items
  have hrank : (rank score items).Nodup := (rank_perm score items).nodup_iff.mpr hnodup
  refine List.pairwise_iff_forall_sublist.mpr fun {a b} hab => ?_
  have hle : score b ≤ score a := List.pairwise_iff_forall_sublist.mp hsorted hab
  rcases lt_or_eq_of_le hle with hlt | heq
  · exact .inl hlt
  have ha : a ∈ items := (rank_perm score items).mem_iff.mp (hab.subset (by simp))
  have hb : b ∈ items := (rank_perm score items).mem_iff.mp (hab.subset (by simp))
  refine .inr ⟨heq, lt_of_not_ge fun hge => ?_⟩
  rcases lt_or_eq_of_le hge with hlt | hidx
  · -- sorting keeps `b` before `a`
    exact not_pair_sublist hrank hab
      (List.pair_sublist_insertionSort (le_of_eq heq.symm) (pair_sublist hb ha hlt))
  · have hsame : b = a := (List.idxOf_inj hb).mp hidx
    subst hsame
    exact not_pair_sublist hrank hab hab

/-- As many items outrank one as stand before it. -/
theorem countP_outranks (hnodup : items.Nodup) {i : Nat} (hi : i < (rank score items).length) :
    (items.countP fun c => Outranks score items c (rank score items)[i]) = i := by
  rw [← (rank_perm score items).countP_eq]
  exact countP_of_pairwise (fun _ _ => Outranks.asymm) (pairwise_rank hnodup) hi

/-! ## The best by another score -/

/-- `top` is ordered by the score, and none of the items that it leaves out is better. -/
structure BestBy (score' : α → κ) (top items : List α) : Prop where
  sorted : top.Pairwise fun a b => score' b ≤ score' a
  best : ∀ a ∈ top, ∀ b ∈ items, b ∉ top → score' b ≤ score' a

/-- Of the first `k` items by one score, none outranks one that is better by the other. -/
def Agree (score : α → ι) (score' : α → κ) (items : List α) (k : Nat) : Prop :=
  ∀ a ∈ items, ∀ b ∈ items, (items.countP fun c => Outranks score items c a) < k →
    Outranks score items a b → score' b ≤ score' a

theorem agree_self (score : α → ι) (items : List α) (k : Nat) : Agree score score items k := by
  rintro a - b - - (hlt | ⟨heq, -⟩)
  · exact le_of_lt hlt
  · exact le_of_eq heq

theorem bestBy_take_iff (hnodup : items.Nodup) {k : Nat} :
    BestBy score' ((rank score items).take k) items ↔ Agree score score' items k := by
  have hrank : (rank score items).Nodup := (rank_perm score items).nodup_iff.mpr hnodup
  have hsorted : (rank score items).Pairwise (Outranks score items) := pairwise_rank hnodup
  have hpair := List.pairwise_iff_getElem.mp hsorted
  have hmem : ∀ a ∈ items, ∃ i, ∃ hi : i < (rank score items).length, (rank score items)[i] = a :=
    fun a ha => List.getElem_of_mem ((rank_perm score items).mem_iff.mpr ha)
  have hitem : ∀ i (hi : i < (rank score items).length), (rank score items)[i] ∈ items :=
    fun i hi => (rank_perm score items).mem_iff.mp (List.getElem_mem hi)
  have htake : ∀ i (hi : i < (rank score items).length),
      (rank score items)[i] ∈ (rank score items).take k ↔ i < k := by
    intro i hi
    rw [List.mem_take_iff_getElem]
    constructor
    · rintro ⟨j, hj, heq⟩
      have : j = i := (List.Nodup.getElem_inj_iff hrank).mp heq
      omega
    · intro hik
      exact ⟨i, by omega, rfl⟩
  constructor
  · intro h a ha b hb hcount houtranks
    obtain ⟨i, hi, rfl⟩ := hmem a ha
    obtain ⟨j, hj, rfl⟩ := hmem b hb
    rw [countP_outranks hnodup hi] at hcount
    have hij : i < j := by
      rcases Nat.lt_trichotomy i j with hlt | heq | hgt
      · exact hlt
      · subst heq
        exact absurd houtranks houtranks.asymm
      · exact absurd (hpair j i hj hi hgt) houtranks.asymm
    by_cases hjk : j < k
    · have hsorted := List.pairwise_iff_getElem.mp h.sorted i j (by simp; omega) (by simp; omega) hij
      simpa using hsorted
    · exact h.best _ ((htake i hi).mpr hcount) _ hb fun hin => hjk ((htake j hj).mp hin)
  · intro h
    have key : ∀ i j (hi : i < (rank score items).length) (hj : j < (rank score items).length),
        i < j → i < k → score' (rank score items)[j] ≤ score' (rank score items)[i] := by
      intro i j hi hj hij hik
      refine h _ (hitem i hi) _ (hitem j hj) ?_ (hpair i j hi hj hij)
      rw [countP_outranks hnodup hi]
      exact hik
    constructor
    · refine List.pairwise_iff_getElem.mpr fun i j hi hj hij => ?_
      have hlen := List.length_take (i := k) (l := rank score items)
      have hkey := key i j (by omega) (by omega) hij (by omega)
      simpa using hkey
    · intro a ha b hb hout
      obtain ⟨i, hi, rfl⟩ := hmem a ((rank_perm score items).mem_iff.mp (List.mem_of_mem_take ha))
      obtain ⟨j, hj, rfl⟩ := hmem b hb
      have hik : i < k := (htake i hi).mp ha
      have hjk : ¬j < k := fun hjk => hout ((htake j hj).mpr hjk)
      exact key i j hi hj (by omega) hik

end Ranking
