-- SUMMARY: Binary heaps in an array: pushing and popping permute the elements and keep a greatest one on top.
import Mathlib.Data.List.Basic
import Mathlib.Data.List.Nodup
import Mathlib.Tactic.Common

/-!
# Binary heaps

The element at position `i` has its children at `2 * i + 1` and `2 * i + 2`. An element
that is pushed rises from the end. Behind one that is popped, the last element sinks to
the bottom along the greater children, and rises from there. How the elements compare is
a parameter, and nothing is asked of it but where a lemma says so.
-/

namespace BinaryHeap

variable {α : Type} (le : α → α → Bool)

/-- Two elements change places. -/
def swap (heap : List α) (i j : Nat) : List α :=
  match heap[i]?, heap[j]? with
  | some a, some b => (heap.set i b).set j a
  | _, _ => heap

/-- The element at `pos` rises past those that are not as great. -/
def siftUp : Nat → List α → Nat → List α
  | 0, heap, _ => heap
  | fuel + 1, heap, pos =>
    if pos = 0 then heap
    else
      match heap[pos]?, heap[(pos - 1) / 2]? with
      | some a, some b =>
        if le a b then heap else siftUp fuel (swap heap pos ((pos - 1) / 2)) ((pos - 1) / 2)
      | _, _ => heap

/-- The element at `pos` sinks to the bottom, each time below the greater child, and below
the second one if neither is greater. -/
def siftDownToBottom : Nat → List α → Nat → List α × Nat
  | 0, heap, pos => (heap, pos)
  | fuel + 1, heap, pos =>
    match heap[2 * pos + 1]?, heap[2 * pos + 2]? with
    | some a, some b =>
      let child := if le a b then 2 * pos + 2 else 2 * pos + 1
      siftDownToBottom fuel (swap heap pos child) child
    | some _, none => (swap heap pos (2 * pos + 1), 2 * pos + 1)
    | none, _ => (heap, pos)

def push (heap : List α) (a : α) : List α := siftUp le (heap.length + 1) (heap ++ [a]) heap.length

/-- The element on top, and the heap without it. -/
def pop (heap : List α) : Option (α × List α) :=
  match heap.getLast? with
  | none => none
  | some last =>
    match heap.dropLast with
    | [] => some (last, [])
    | top :: rest =>
      let sunk := siftDownToBottom le heap.length (last :: rest) 0
      some (top, siftUp le heap.length sunk.1 sunk.2)

def peek (heap : List α) : Option α := heap.head?

variable {le} {heap rest : List α} {a b : α} {i j k pos fuel : Nat}

/-! ## The elements -/

theorem getElem?_swap (ha : heap[i]? = some a) (hb : heap[j]? = some b) :
    (swap heap i j)[k]? = if k = j then some a else if k = i then some b else heap[k]? := by
  obtain ⟨hi, -⟩ := List.getElem?_eq_some_iff.mp ha
  obtain ⟨hj, -⟩ := List.getElem?_eq_some_iff.mp hb
  unfold swap
  rw [ha, hb]
  grind

theorem swap_perm (heap : List α) (i j : Nat) : (swap heap i j).Perm heap := by
  unfold swap
  split
  · rename_i a b ha hb
    obtain ⟨hi, rfl⟩ := List.getElem?_eq_some_iff.mp ha
    obtain ⟨hj, rfl⟩ := List.getElem?_eq_some_iff.mp hb
    exact List.set_set_perm hi hj
  · exact .refl _

theorem length_swap (heap : List α) (i j : Nat) : (swap heap i j).length = heap.length :=
  (swap_perm heap i j).length_eq

theorem siftUp_perm (fuel : Nat) (heap : List α) (pos : Nat) : (siftUp le fuel heap pos).Perm heap := by
  fun_induction siftUp le fuel heap pos with
  | case1 | case2 | case3 | case5 => exact .refl _
  | case4 fuel heap pos hpos a ha b hb hle ih => exact ih.trans (swap_perm _ _ _)

theorem siftDownToBottom_perm (fuel : Nat) (heap : List α) (pos : Nat) :
    (siftDownToBottom le fuel heap pos).1.Perm heap := by
  fun_induction siftDownToBottom le fuel heap pos with
  | case1 | case4 => exact .refl _
  | case2 fuel heap pos a ha b hb child ih => exact ih.trans (swap_perm _ _ _)
  | case3 => exact swap_perm _ _ _

theorem push_perm (heap : List α) (a : α) : (push le heap a).Perm (a :: heap) :=
  (siftUp_perm _ _ _).trans (List.perm_append_singleton a heap)

@[simp] theorem length_push (heap : List α) (a : α) : (push le heap a).length = heap.length + 1 :=
  (push_perm heap a).length_eq

@[simp] theorem mem_push : b ∈ push le heap a ↔ b = a ∨ b ∈ heap := by
  rw [(push_perm heap a).mem_iff, List.mem_cons]

theorem pop_eq_none : pop le heap = none ↔ heap = [] := by
  unfold pop
  split
  · rename_i hlast
    exact iff_of_true rfl (List.getLast?_eq_none_iff.mp hlast)
  · rename_i last hlast
    have hne : heap ≠ [] := by
      rintro rfl
      cases hlast
    split
    · exact iff_of_false (by simp) hne
    · exact iff_of_false (by simp) hne

/-- What is popped lies on top, in front of what has been shuffled. -/
theorem pop_eq_some (h : pop le heap = some (a, rest)) :
    peek heap = some a ∧ heap.Perm (a :: rest) := by
  unfold pop at h
  split at h
  · cases h
  rename_i last hlast
  have hheap : heap = heap.dropLast ++ [last] :=
    (List.dropLast_append_getLast? last hlast).symm
  split at h
  · rename_i hdrop
    cases h
    rw [hdrop] at hheap
    rw [hheap]
    exact ⟨rfl, .refl _⟩
  · rename_i top others hdrop
    cases h
    rw [hdrop] at hheap
    refine ⟨by rw [hheap]; rfl, ?_⟩
    calc heap.Perm (a :: (others ++ [last])) := by rw [hheap]; exact .refl _
      List.Perm _ (a :: (last :: others)) := (List.perm_append_singleton last others).cons a
      List.Perm _ _ := ((siftUp_perm _ _ _).trans (siftDownToBottom_perm _ _ _)).symm.cons a

theorem pop_perm (h : pop le heap = some (a, rest)) : heap.Perm (a :: rest) := (pop_eq_some h).2

theorem mem_peek (h : peek heap = some a) : a ∈ heap := List.mem_of_head? h

/-! ## The order -/

/-- `le` is a total preorder on the elements that satisfy `P`. -/
structure OrderedOn (le : α → α → Bool) (P : α → Prop) : Prop where
  total : ∀ a b, P a → P b → le a b = true ∨ le b a = true
  trans : ∀ a b c, P a → P b → P c → le a b = true → le b c = true → le a c = true

/-- No element is greater than the one above it. -/
def IsHeap (le : α → α → Bool) (heap : List α) : Prop :=
  ∀ i a b, 0 < i → heap[i]? = some a → heap[(i - 1) / 2]? = some b → le a b = true

theorem isHeap_nil : IsHeap le [] := by
  intro i a b _ ha
  cases ha

/-- A heap but for the element at `pos`, which may be too great for its place. -/
structure Rising (le : α → α → Bool) (heap : List α) (pos : Nat) : Prop where
  others : ∀ i a b, 0 < i → i ≠ pos → heap[i]? = some a → heap[(i - 1) / 2]? = some b → le a b = true
  across : ∀ i a b, 0 < pos → 0 < i → (i - 1) / 2 = pos → heap[i]? = some a →
    heap[(pos - 1) / 2]? = some b → le a b = true

/-- A heap but for the element at `pos`, which may be too great or too small for its place. -/
structure Sinking (le : α → α → Bool) (heap : List α) (pos : Nat) : Prop where
  others : ∀ i a b, 0 < i → i ≠ pos → (i - 1) / 2 ≠ pos → heap[i]? = some a →
    heap[(i - 1) / 2]? = some b → le a b = true
  across : ∀ i a b, 0 < pos → 0 < i → (i - 1) / 2 = pos → heap[i]? = some a →
    heap[(pos - 1) / 2]? = some b → le a b = true

variable {P : α → Prop}

/-- An element that is greater than the one above it changes places with it. -/
theorem Rising.swap (h : Rising le heap pos) (hle : OrderedOn le P) (hP : ∀ x ∈ heap, P x)
    (hpos : 0 < pos) (ha : heap[pos]? = some a) (hb : heap[(pos - 1) / 2]? = some b)
    (hgreater : ¬le a b = true) : Rising le (swap heap pos ((pos - 1) / 2)) ((pos - 1) / 2) := by
  have hPa : P a := hP a (List.mem_of_getElem? ha)
  have hPb : P b := hP b (List.mem_of_getElem? hb)
  have hba : le b a = true := (hle.total a b hPa hPb).resolve_left hgreater
  constructor
  · intro i c d hi hne hc hd
    rw [getElem?_swap ha hb] at hc hd
    rw [if_neg hne] at hc
    by_cases hipos : i = pos
    · -- the element above is now below
      subst hipos
      rw [if_pos rfl] at hc
      rw [if_pos rfl] at hd
      cases hc
      cases hd
      exact hba
    rw [if_neg hipos] at hc
    by_cases hsibling : (i - 1) / 2 = (pos - 1) / 2
    · rw [if_pos hsibling] at hd
      cases hd
      have hcb := h.others i c b hi hipos hc (hsibling ▸ hb)
      exact hle.trans c b a (hP c (List.mem_of_getElem? hc)) hPb hPa hcb hba
    rw [if_neg hsibling] at hd
    by_cases hchild : (i - 1) / 2 = pos
    · rw [if_pos hchild] at hd
      cases hd
      exact h.across i c b hpos hi hchild hc hb
    · rw [if_neg hchild] at hd
      exact h.others i c d hi hipos hc hd
  · intro i c d hparent hi hchild hc hd
    rw [getElem?_swap ha hb] at hc hd
    rw [if_neg (by omega)] at hc
    rw [if_neg (by omega), if_neg (by omega)] at hd
    have hbd : le b d = true := h.others _ b d hparent (by omega) hb hd
    by_cases hipos : i = pos
    · rw [if_pos hipos] at hc
      cases hc
      exact hbd
    · rw [if_neg hipos] at hc
      have hcb := h.others i c b hi hipos hc (hchild ▸ hb)
      exact hle.trans c b d (hP c (List.mem_of_getElem? hc)) hPb (hP d (List.mem_of_getElem? hd)) hcb hbd

theorem Rising.isHeap_siftUp (h : Rising le heap pos) (hle : OrderedOn le P) (hP : ∀ x ∈ heap, P x)
    (hfuel : pos < fuel) (hlen : pos < heap.length) : IsHeap le (siftUp le fuel heap pos) := by
  fun_induction siftUp le fuel heap pos with
  | case1 => omega
  | case2 fuel heap =>
      intro i a b hi
      exact h.others i a b hi (by omega)
  | case3 fuel heap pos hpos a b hb ha hab =>
      intro i c d hi hc hd
      by_cases hipos : i = pos
      · subst hipos
        rw [ha] at hc
        rw [hb] at hd
        cases hc
        cases hd
        exact hab
      · exact h.others i c d hi hipos hc hd
  | case4 fuel heap pos hpos a b hb ha hgreater ih =>
      refine ih (h.swap hle hP (by omega) ha hb hgreater) ?_ (by omega) ?_
      · intro x hx
        exact hP x ((swap_perm _ _ _).mem_iff.mp hx)
      · rw [length_swap]
        omega
  | case5 fuel heap pos hpos hnot =>
      exact (hnot heap[pos] heap[(pos - 1) / 2] (List.getElem?_eq_getElem hlen)
        (List.getElem?_eq_getElem (by omega))).elim

/-- An element changes places with a child that is as great as the other one. -/
theorem Sinking.swap (h : Sinking le heap pos) (ha : heap[pos]? = some a) (hj : (j - 1) / 2 = pos)
    (hpos : 0 < j) (hb : heap[j]? = some b)
    (hgreatest : ∀ i c, 0 < i → (i - 1) / 2 = pos → i ≠ j → heap[i]? = some c → le c b = true) :
    Sinking le (swap heap pos j) j := by
  constructor
  · intro i c d hi hne hchild hc hd
    rw [getElem?_swap ha hb] at hc hd
    rw [if_neg hne] at hc
    rw [if_neg hchild] at hd
    by_cases hipos : i = pos
    · subst hipos
      rw [if_pos rfl] at hc
      rw [if_neg (by omega)] at hd
      cases hc
      exact h.across j b d hi hpos hj hb hd
    rw [if_neg hipos] at hc
    by_cases hsibling : (i - 1) / 2 = pos
    · rw [if_pos hsibling] at hd
      cases hd
      exact hgreatest i c hi hsibling hne hc
    · rw [if_neg hsibling] at hd
      exact h.others i c d hi hipos hsibling hc hd
  · intro i c d _ hi hchild hc hd
    rw [getElem?_swap ha hb] at hc hd
    rw [if_neg (by omega), if_neg (by omega)] at hc
    rw [hj, if_neg (by omega), if_pos rfl] at hd
    cases hd
    exact h.others i c b hi (by omega) (by omega) hc (hchild ▸ hb)

theorem Sinking.rising_siftDownToBottom (h : Sinking le heap pos) (hle : OrderedOn le P)
    (hP : ∀ x ∈ heap, P x) (hfuel : heap.length ≤ pos + fuel) (hlen : pos < heap.length) :
    let sunk := siftDownToBottom le fuel heap pos
    Rising le sunk.1 sunk.2 ∧ sunk.2 < heap.length := by
  have hget : ∀ {heap : List α} {pos : Nat}, pos < heap.length → ∃ x, heap[pos]? = some x :=
    fun hlt => ⟨_, List.getElem?_eq_getElem hlt⟩
  fun_induction siftDownToBottom le fuel heap pos with
  | case1 => omega
  | case2 fuel heap pos a b hb ha child ih =>
      obtain ⟨x, hx⟩ := hget hlen
      have hlen' : 2 * pos + 2 < heap.length := (List.getElem?_eq_some_iff.mp hb).1
      have hPa : P a := hP a (List.mem_of_getElem? ha)
      have hPb : P b := hP b (List.mem_of_getElem? hb)
      have hchild : 0 < child ∧ (child - 1) / 2 = pos ∧ child ≤ 2 * pos + 2 := by
        unfold child
        split <;> omega
      have hsunk : Sinking le (BinaryHeap.swap heap pos child) child := by
        unfold child
        split
        · rename_i hab
          refine h.swap hx (by omega) (by omega) hb fun i c hi hparent hne hc => ?_
          have hleft : i = 2 * pos + 1 := by omega
          rw [hleft, ha] at hc
          cases hc
          exact hab
        · rename_i hnot
          refine h.swap hx (by omega) (by omega) ha fun i c hi hparent hne hc => ?_
          have hright : i = 2 * pos + 2 := by omega
          rw [hright, hb] at hc
          cases hc
          exact (hle.total _ _ hPa hPb).resolve_left hnot
      have hrest := ih hsunk (fun y hy => hP y ((swap_perm _ _ _).mem_iff.mp hy))
        (by rw [length_swap]; omega) (by rw [length_swap]; omega)
      rw [length_swap] at hrest
      exact hrest
  | case3 fuel heap pos a hb ha =>
      obtain ⟨x, hx⟩ := hget hlen
      have hlast : heap.length ≤ 2 * pos + 2 := List.getElem?_eq_none_iff.mp hb
      have hlen' : 2 * pos + 1 < heap.length := (List.getElem?_eq_some_iff.mp ha).1
      have hsunk : Sinking le (BinaryHeap.swap heap pos (2 * pos + 1)) (2 * pos + 1) := by
        refine h.swap hx (by omega) (by omega) ha fun i c hi hparent hne hc => ?_
        have hlt := (List.getElem?_eq_some_iff.mp hc).1
        omega
      refine ⟨⟨fun i c d hi hne hc hd => hsunk.others i c d hi hne ?_ hc hd, hsunk.across⟩, hlen'⟩
      -- the last element has no children
      have hlt := (List.getElem?_eq_some_iff.mp hc).1
      rw [length_swap] at hlt
      omega
  | case4 fuel heap pos ha =>
      have hlast : heap.length ≤ 2 * pos + 1 := List.getElem?_eq_none_iff.mp ha
      refine ⟨⟨fun i c d hi hne hc hd => h.others i c d hi hne ?_ hc hd, h.across⟩, hlen⟩
      have hlt : i < heap.length := (List.getElem?_eq_some_iff.mp hc).1
      omega

theorem IsHeap.push (h : IsHeap le heap) (hle : OrderedOn le P) (hP : ∀ x ∈ heap, P x) (ha : P a) :
    IsHeap le (push le heap a) := by
  unfold BinaryHeap.push
  refine Rising.isHeap_siftUp (P := P) ?_ hle ?_ (Nat.lt_succ_self _) (by simp)
  · constructor
    · intro i c d hi hne hc hd
      have hlt := (List.getElem?_eq_some_iff.mp hc).1
      rw [List.length_append, List.length_singleton] at hlt
      rw [List.getElem?_append_left (by omega)] at hc hd
      exact h i c d hi hc hd
    · intro i c d _ hi hchild hc
      have hlt := (List.getElem?_eq_some_iff.mp hc).1
      rw [List.length_append, List.length_singleton] at hlt
      omega
  · intro x hx
    cases List.mem_append.mp hx with
    | inl hold => exact hP x hold
    | inr hnew => exact List.mem_singleton.mp hnew ▸ ha

theorem IsHeap.pop (h : IsHeap le heap) (hle : OrderedOn le P) (hP : ∀ x ∈ heap, P x)
    (hpop : pop le heap = some (a, rest)) : IsHeap le rest := by
  unfold BinaryHeap.pop at hpop
  split at hpop
  · cases hpop
  rename_i last hlast
  have hheap : heap = heap.dropLast ++ [last] := (List.dropLast_append_getLast? last hlast).symm
  split at hpop
  · cases hpop
    exact isHeap_nil
  · rename_i top others hdrop
    cases hpop
    rw [hdrop] at hheap
    have hP' : ∀ x ∈ last :: others, P x := by
      intro x hx
      refine hP x ?_
      rw [hheap]
      rcases List.mem_cons.mp hx with rfl | hx
      · simp
      · simp [hx]
    have hsinking : Sinking le (last :: others) 0 := by
      constructor
      · intro i c d hi _ hchild hc hd
        have hlt := (List.getElem?_eq_some_iff.mp hc).1
        rw [List.length_cons] at hlt
        have hsame : ∀ k x, 0 < k → (last :: others)[k]? = some x → heap[k]? = some x := by
          intro k x hk hx
          have hklt := (List.getElem?_eq_some_iff.mp hx).1
          obtain ⟨k, rfl⟩ := Nat.exists_eq_succ_of_ne_zero (Nat.ne_of_gt hk)
          rw [hheap, List.getElem?_append_left (by simpa using hklt)]
          exact hx
        exact h i c d hi (hsame i c hi hc) (hsame _ d (by omega) hd)
      · intro i c d hpos
        exact absurd hpos (Nat.lt_irrefl 0)
    have hlen : (last :: others).length ≤ heap.length := by
      rw [hheap]
      simp
    have hdepth : (last :: others).length ≤ 0 + heap.length := by omega
    obtain ⟨hrising, hbound⟩ := hsinking.rising_siftDownToBottom hle hP' hdepth (by simp)
    refine hrising.isHeap_siftUp hle ?_ (by omega) ?_
    · intro x hx
      exact hP' x ((siftDownToBottom_perm _ _ _).mem_iff.mp hx)
    · rw [(siftDownToBottom_perm _ _ _).length_eq]
      exact hbound

/-- No element is greater than the one on top. -/
theorem IsHeap.le_peek (h : IsHeap le heap) (hle : OrderedOn le P) (hP : ∀ x ∈ heap, P x)
    (htop : peek heap = some a) : ∀ b ∈ heap, le b a = true := by
  have hroot : heap[0]? = some a := by rw [← List.head?_eq_getElem?]; exact htop
  have hPa : P a := hP a (mem_peek htop)
  have hall : ∀ (i : Nat) (b : α), heap[i]? = some b → le b a = true := by
    intro i
    induction i using Nat.strongRecOn with
    | ind i ih =>
        intro b hb
        have hPb : P b := hP b (List.mem_of_getElem? hb)
        by_cases hi : i = 0
        · rw [hi, hroot] at hb
          cases hb
          exact (hle.total a a hPa hPa).elim id id
        · have hlt : (i - 1) / 2 < heap.length := by
            have hlt := (List.getElem?_eq_some_iff.mp hb).1
            omega
          have hparent := List.getElem?_eq_getElem hlt
          have hpa := ih _ (by omega) _ hparent
          have hbp := h i b _ (by omega) hb hparent
          exact hle.trans b _ a hPb (hP _ (List.getElem_mem hlt)) hPa hbp hpa
  intro b hb
  obtain ⟨i, hi⟩ := List.mem_iff_getElem?.mp hb
  exact hall i b hi

end BinaryHeap
