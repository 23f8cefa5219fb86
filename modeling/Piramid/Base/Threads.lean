-- SUMMARY: Threads that interleave atomic steps on shared data and take reader-writer locks; when no thread can wait for itself or in a circle.
import Mathlib.Logic.Relation
import Mathlib.Tactic.Common

/-!
# Threads

A thread is a program of atomic steps: it takes or gives back a lock, or reads
and changes the shared data. A reader-writer lock is not reentrant: a thread that
asks for a lock it already holds waits like any other.
-/

namespace Threads

inductive Mode where
  | read | write
deriving DecidableEq

/-- A program over locks `L` and shared data `S` that ends with an `α`. -/
inductive Thread (L S α : Type) where
  | ret (a : α)
  | acquire (l : L) (mode : Mode) (next : Thread L S α)
  | release (l : L) (next : Thread L S α)
  /-- Read the shared data and change it in one step. -/
  | act (change : S → S) (next : S → Thread L S α)

/-- The shared data, what each thread still does, and the locks it holds. -/
structure State (ι L S α : Type) where
  shared : S
  thread : ι → Thread L S α
  held : ι → List (L × Mode)

variable {ι L S α : Type}

namespace State

/-- Another thread, or the same one, holds `l` in a way that excludes `mode`. -/
def Excludes (c : State ι L S α) (j : ι) (l : L) (mode : Mode) : Prop :=
  ∃ held ∈ c.held j, held.1 = l ∧ (mode = .write ∨ held.2 = .write)

variable [DecidableEq ι] [DecidableEq L]

/-- Thread `i` goes on with `next` and the locks `held`. -/
def advance (c : State ι L S α) (i : ι) (shared : S) (next : Thread L S α)
    (held : List (L × Mode)) : State ι L S α where
  shared := shared
  thread := Function.update c.thread i next
  held := Function.update c.held i held

end State

variable [DecidableEq ι] [DecidableEq L]

/-- One step of thread `i`. -/
inductive Step (i : ι) : State ι L S α → State ι L S α → Prop where
  | acquire {c : State ι L S α} {l : L} {mode : Mode} {next : Thread L S α}
      (hi : c.thread i = .acquire l mode next) (hfree : ∀ j, ¬c.Excludes j l mode) :
      Step i c (c.advance i c.shared next ((l, mode) :: c.held i))
  | release {c : State ι L S α} {l : L} {next : Thread L S α} (hi : c.thread i = .release l next) :
      Step i c (c.advance i c.shared next ((c.held i).filter fun held => held.1 ≠ l))
  | act {c : State ι L S α} {change : S → S} {next : S → Thread L S α}
      (hi : c.thread i = .act change next) :
      Step i c (c.advance i (change c.shared) (next c.shared) (c.held i))

/-- Any number of steps, each of which its thread makes in a state where it may. -/
def StepsIf (may : ι → State ι L S α → Prop) : State ι L S α → State ι L S α → Prop :=
  Relation.ReflTransGen fun c c' => ∃ i, may i c ∧ Step i c c'

/-- What every step that is allowed keeps, every run of such steps keeps. -/
theorem StepsIf.keeps {may : ι → State ι L S α → Prop} {P : State ι L S α → Prop}
    (hstep : ∀ i c c', P c → may i c → Step i c c' → P c') {c c' : State ι L S α}
    (h : StepsIf may c c') (hc : P c) : P c' := by
  induction h with
  | refl => exact hc
  | tail _ hlast ih =>
      obtain ⟨i, hmay, hi⟩ := hlast
      exact hstep i _ _ ih hmay hi

/-- Any number of steps, each of any thread that is able to make one. -/
abbrev Steps : State ι L S α → State ι L S α → Prop := StepsIf fun _ _ => True

/-- Every thread at its beginning, no lock held. -/
def start (shared : S) (thread : ι → Thread L S α) : State ι L S α := ⟨shared, thread, fun _ => []⟩

/-! ## Running one thread -/

omit [DecidableEq L] in
theorem State.advance_advance (c : State ι L S α) (i : ι) (s s' : S) (t t' : Thread L S α)
    (held held' : List (L × Mode)) :
    (c.advance i s t held).advance i s' t' held' = c.advance i s' t' held' := by
  simp [State.advance]

/-- A run leads from `c` to a state with property `P`. -/
def Reaches (P : State ι L S α → Prop) (c : State ι L S α) : Prop := ∃ c', Steps c c' ∧ P c'

namespace Reaches

variable {P : State ι L S α → Prop} {c c' : State ι L S α} {i : ι} {s : S} {l : L} {mode : Mode}
  {next : Thread L S α} {held : List (L × Mode)}

theorem here (h : P c) : Reaches P c := ⟨c, .refl, h⟩

theorem step (h : Step i c c') (hc' : Reaches P c') : Reaches P c := by
  obtain ⟨c'', hsteps, hP⟩ := hc'
  exact ⟨c'', .head ⟨i, trivial, h⟩ hsteps, hP⟩

theorem acquire (hfree : ∀ j, ¬(c.advance i s (.acquire l mode next) held).Excludes j l mode)
    (h : Reaches P (c.advance i s next ((l, mode) :: held))) :
    Reaches P (c.advance i s (.acquire l mode next) held) := by
  refine step (.acquire (Function.update_self i _ _) hfree) ?_
  rw [State.advance_advance]
  simpa [State.advance] using h

theorem release (h : Reaches P (c.advance i s next (held.filter fun held => held.1 ≠ l))) :
    Reaches P (c.advance i s (.release l next) held) := by
  refine step (.release (Function.update_self i _ _)) ?_
  rw [State.advance_advance]
  simpa [State.advance] using h

theorem act {change : S → S} {next : S → Thread L S α}
    (h : Reaches P (c.advance i (change s) (next s) held)) :
    Reaches P (c.advance i s (.act change next) held) := by
  refine step (.act (Function.update_self i _ _)) ?_
  rw [State.advance_advance]
  simpa [State.advance] using h

end Reaches

omit [DecidableEq L] in
theorem State.advance_self (c : State ι L S α) (i : ι) :
    c.advance i c.shared (c.thread i) (c.held i) = c := by
  simp [State.advance]

/-! ## Deadlocks -/

/-- Thread `i` asks for a lock that thread `j` holds. -/
def Waits (c : State ι L S α) (i j : ι) : Prop :=
  ∃ l mode next, c.thread i = .acquire l mode next ∧ c.Excludes j l mode

/-- A thread waits for itself, or threads wait for each other in a circle. -/
def Deadlocked (c : State ι L S α) : Prop := ∃ i, Relation.TransGen (Waits c) i i

omit [DecidableEq ι] [DecidableEq L] in
/-- Without a thread that waits while it holds a lock there is no deadlock. -/
theorem not_deadlocked {c : State ι L S α}
    (h : ∀ i l mode next, c.thread i = .acquire l mode next → c.held i = []) : ¬Deadlocked c := by
  rintro ⟨i, hi⟩
  obtain ⟨j, hfirst, -⟩ := Relation.TransGen.head'_iff.mp hi
  obtain ⟨k, -, hlast⟩ := Relation.TransGen.tail'_iff.mp hi
  obtain ⟨l, mode, next, hacquire, -⟩ := hfirst
  obtain ⟨-, -, -, -, held, hheld, -⟩ := hlast
  rw [h i l mode next hacquire] at hheld
  cases hheld

/-- A thread that takes no lock any more. -/
inductive Thread.Unlocking : Thread L S α → Prop where
  | ret (a : α) : Unlocking (.ret a)
  | release {l : L} {next : Thread L S α} (h : Unlocking next) : Unlocking (.release l next)
  | act {change : S → S} {next : S → Thread L S α} (h : ∀ s, Unlocking (next s)) :
      Unlocking (.act change next)

/-- A thread that takes one lock at most. -/
inductive Thread.OneLock : Thread L S α → Prop where
  | ret (a : α) : OneLock (.ret a)
  | acquire {l : L} {mode : Mode} {next : Thread L S α} (h : next.Unlocking) :
      OneLock (.acquire l mode next)
  | act {change : S → S} {next : S → Thread L S α} (h : ∀ s, OneLock (next s)) :
      OneLock (.act change next)

/-- Threads that take one lock each, at most, never deadlock. -/
theorem Steps.not_deadlocked {shared : S} {thread : ι → Thread L S α}
    (hone : ∀ i, (thread i).OneLock) {c : State ι L S α} (h : Steps (start shared thread) c) :
    ¬Deadlocked c := by
  have hinv : ∀ i, (c.thread i).OneLock ∧ c.held i = [] ∨ (c.thread i).Unlocking := by
    refine h.keeps (P := fun c => ∀ i, (c.thread i).OneLock ∧ c.held i = [] ∨
      (c.thread i).Unlocking) ?_ fun i => .inl ⟨hone i, rfl⟩
    intro i c c' hc _ hstep j
    by_cases hj : j = i
    · subst hj
      cases hstep with
      | acquire hi hfree =>
          have hnext := hc j
          rw [hi] at hnext
          rcases hnext with ⟨hnext, -⟩ | hnext
          · cases hnext with
            | acquire hnext => exact .inr (by simpa [State.advance] using hnext)
          · cases hnext
      | release hi =>
          have hnext := hc j
          rw [hi] at hnext
          rcases hnext with ⟨hnext, -⟩ | hnext
          · cases hnext
          · cases hnext with
            | release hnext => simpa [State.advance] using Or.inr hnext
      | act hi =>
          have hnext := hc j
          rw [hi] at hnext
          rcases hnext with ⟨hnext, hheld⟩ | hnext
          · cases hnext with
            | act hnext => simpa [State.advance] using Or.inl ⟨hnext _, hheld⟩
          · cases hnext with
            | act hnext => simpa [State.advance] using Or.inr (hnext _)
    · cases hstep with
      | acquire | release | act => simpa [State.advance, hj] using hc j
  refine Threads.not_deadlocked fun i l mode next hi => ?_
  have := hinv i
  rw [hi] at this
  rcases this with ⟨-, hheld⟩ | hlocking
  · exact hheld
  · cases hlocking

end Threads
