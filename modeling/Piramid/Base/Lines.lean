-- SUMMARY: Splitting a byte stream into lines, and what is left when the stream is cut.
import Mathlib.Data.List.Basic
import Mathlib.Tactic.Common

/-!
# Lines of a byte stream

`lines` splits at line feeds, as buffered readers do: a carriage return just
before the line feed goes with it, and a last line without a line feed counts.
-/

namespace Lines

def lf : UInt8 := 10
def cr : UInt8 := 13

/-- The lines of a stream, without their terminators. -/
def lines : List UInt8 → List (List UInt8)
  | [] => []
  | b :: bs =>
    if b = lf then [] :: lines bs
    else if b = cr ∧ bs.head? = some lf then lines bs
    else
      match lines bs with
      | [] => [[b]]
      | l :: ls => (b :: l) :: ls

/-- A text that one line can hold. -/
def OneLine (l : List UInt8) : Prop := lf ∉ l ∧ cr ∉ l

theorem OneLine.of_cons {b : UInt8} {l : List UInt8} (h : OneLine (b :: l)) : OneLine l :=
  ⟨fun hm => h.1 (List.mem_cons_of_mem b hm), fun hm => h.2 (List.mem_cons_of_mem b hm)⟩

theorem lines_append {l : List UInt8} (h : OneLine l) (rest : List UInt8) :
    lines (l ++ lf :: rest) = l :: lines rest := by
  induction l with
  | nil => simp [lines]
  | cons b l ih =>
      have hb : b ≠ lf := fun e => h.1 (by simp [e])
      have hc : b ≠ cr := fun e => h.2 (by simp [e])
      simp [lines, hb, hc, ih h.of_cons]

/-- A last line without a terminator. -/
theorem lines_torn {l : List UInt8} (h : OneLine l) (hne : l ≠ []) : lines l = [l] := by
  induction l with
  | nil => exact (hne rfl).elim
  | cons b l ih =>
      have hb : b ≠ lf := fun e => h.1 (by simp [e])
      have hc : b ≠ cr := fun e => h.2 (by simp [e])
      by_cases hl : l = []
      · subst hl
        simp [lines, hb, hc]
      · simp [lines, hb, hc, ih h.of_cons hl]

/-- Terminate each text and join them. -/
def unlines (ls : List (List UInt8)) : List UInt8 :=
  ls.flatMap fun l => l ++ [lf]

@[simp] theorem unlines_nil : unlines [] = [] := rfl

@[simp] theorem unlines_cons (l : List UInt8) (ls : List (List UInt8)) :
    unlines (l :: ls) = l ++ lf :: unlines ls := by
  simp [unlines]

theorem unlines_append (ls ls' : List (List UInt8)) :
    unlines (ls ++ ls') = unlines ls ++ unlines ls' := by
  simp [unlines]

/-- Whole lines end with a line feed. -/
theorem getLast?_unlines {ls : List (List UInt8)} (h : ls ≠ []) :
    (unlines ls).getLast? = some lf := by
  rw [← List.dropLast_concat_getLast h, unlines_append, unlines_cons, unlines_nil]
  simp

/-- Reading back whole lines followed by anything else. -/
theorem lines_unlines_append {ls : List (List UInt8)} (h : ∀ l ∈ ls, OneLine l)
    (rest : List UInt8) : lines (unlines ls ++ rest) = ls ++ lines rest := by
  induction ls with
  | nil => rfl
  | cons l ls ih =>
      have := ih fun l' hl' => h l' (by simp [hl'])
      simp [lines_append (h l (by simp)), this]

theorem lines_unlines {ls : List (List UInt8)} (h : ∀ l ∈ ls, OneLine l) :
    lines (unlines ls) = ls := by
  simpa [lines] using lines_unlines_append h []

/-- The lines that lie, with their terminators, in the first `k` bytes. -/
def wholeLines : Nat → List (List UInt8) → List (List UInt8)
  | _, [] => []
  | k, l :: ls => if l.length < k then l :: wholeLines (k - (l.length + 1)) ls else []

theorem wholeLines_prefix (k : Nat) (ls : List (List UInt8)) : wholeLines k ls <+: ls := by
  induction ls generalizing k with
  | nil => exact List.prefix_refl _
  | cons l ls ih =>
      rw [wholeLines]
      split
      · exact (List.prefix_cons_inj l).mpr (ih _)
      · exact List.nil_prefix

/-- A cut of a stream of whole lines keeps some lines whole and a beginning of
the next one. -/
theorem take_unlines (ls : List (List UInt8)) (k : Nat) :
    ∃ torn, (unlines ls).take k = unlines (wholeLines k ls) ++ torn ∧
      (torn = [] ∨ ∃ l, wholeLines k ls ++ [l] <+: ls ∧ torn <+: l) := by
  induction ls generalizing k with
  | nil => exact ⟨[], by simp [wholeLines], .inl rfl⟩
  | cons l ls ih =>
      rw [wholeLines]
      split
      · rename_i hk
        obtain ⟨torn, htake, htorn⟩ := ih (k - (l.length + 1))
        refine ⟨torn, ?_, htorn.imp id ?_⟩
        · have hsplit : k = (l ++ [lf]).length + (k - (l.length + 1)) := by
            simp only [List.length_append, List.length_singleton]
            omega
          have hcons : unlines (l :: ls) = (l ++ [lf]) ++ unlines ls := by simp
          rw [hcons]
          conv_lhs => rw [hsplit]
          rw [List.take_length_add_append, htake]
          simp
        · rintro ⟨l', hl', ht⟩
          exact ⟨l', by simpa using hl', ht⟩
      · rename_i hk
        refine ⟨l.take k, ?_, .inr ⟨l, ⟨ls, rfl⟩, List.take_prefix _ _⟩⟩
        rw [unlines_cons, List.take_append_of_le_length (by omega)]
        rfl

theorem OneLine.of_prefix {l torn : List UInt8} (h : OneLine l) (ht : torn <+: l) : OneLine torn :=
  ⟨fun hm => h.1 (ht.subset hm), fun hm => h.2 (ht.subset hm)⟩

end Lines
