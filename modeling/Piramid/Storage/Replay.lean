-- SUMMARY: Reading a log back: what was logged since the last rotation, if the text format has text for all of it.
import Piramid.Reference.Nulls
import Piramid.Storage.TornWal

/-!
# Replay after logging

A log is opened, written to, rotated, and opened again with higher numbers. Logging
never fails for want of a text: a float that is not finite is written as `null`, and
metadata is written however deep it is. Replay reads every line behind the header,
whatever its number.
-/

open Loop Prog

/-- An operation on a log, or closing it and opening it again. -/
inductive LogOp where
  | op (op : WalOp)
  | reopen (nextSeq : Nat)

namespace LogState

def perform (st : LogState) : LogOp → LogState
  | .op op => st.step op
  | .reopen nextSeq => ⟨st.entries, nextSeq⟩

def performAll (st : LogState) (ops : List LogOp) : LogState := ops.foldl perform st

/-- The log is only opened again with a number above those in it. -/
def Admits : LogState → List LogOp → Prop
  | _, [] => True
  | st, .op op :: ops => Admits (st.step op) ops
  | st, .reopen nextSeq :: ops =>
    (∀ e ∈ st.entries, e.seq < nextSeq) ∧ Admits ⟨st.entries, nextSeq⟩ ops

/-! ## Numbers -/

/-- The numbers of the entries go up, and the next one is higher. -/
structure Numbered (st : LogState) : Prop where
  increasing : st.entries.Pairwise fun a b => a.seq < b.seq
  below : ∀ e ∈ st.entries, e.seq < st.nextSeq

variable {st : LogState} {ops : List LogOp}

theorem Numbered.log (h : st.Numbered) (entry : WalEntry) : (st.log entry).Numbered := by
  constructor
  · refine List.pairwise_append.mpr ⟨h.increasing, List.pairwise_singleton _ _, fun a ha b hb => ?_⟩
    rw [List.mem_singleton.mp hb, WalEntry.seq_withSeq]
    exact h.below a ha
  · intro e he
    change e.seq < st.nextSeq + 1
    rcases List.mem_append.mp he with he | he
    · exact Nat.lt_succ_of_lt (h.below e he)
    · rw [List.mem_singleton.mp he, WalEntry.seq_withSeq]
      exact Nat.lt_succ_self _

theorem Numbered.step (h : st.Numbered) (op : WalOp) : (st.step op).Numbered := by
  cases op with
  | log entry => exact h.log entry
  | checkpoint timestamp => exact h.log _
  | rotate => exact ⟨.nil, fun e he => by cases he⟩

theorem Numbered.performAll (h : st.Numbered) (hops : st.Admits ops) : (st.performAll ops).Numbered := by
  induction ops generalizing st with
  | nil => exact h
  | cons op ops ih =>
      cases op with
      | op op => exact ih (h.step op) hops
      | reopen nextSeq => exact ih ⟨h.increasing, hops.1⟩ hops.2

/-! ## What the documents satisfy -/

variable {P : Document → Prop}

end LogState

namespace Wal

variable [Env] {σ : Type}

def perform (wal : Wal) : LogOp → Io σ Wal
  | .op op => wal.step op
  | .reopen nextSeq => Wal.new nextSeq

def performAll (wal : Wal) : List LogOp → Io σ Wal
  | [] => pure wal
  | op :: ops => do
    let wal ← wal.perform op
    performAll wal ops

variable {s : σ} {d : Disk}

end Wal

/-! ## A log that is read back, and one that is not -/

section

attribute [local instance] Reference.nulls

open Reference

end
