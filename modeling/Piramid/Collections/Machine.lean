-- SUMMARY: A process that serves one collection, with the crashes that end it.
import Piramid.Collections.Call

/-!
# The machine

A process opens the collection, answers calls and crashes; another one opens what
it left on the disk. A crash takes the process between two effects of what it was
doing, and the draws that it would still have made are never made again.
-/

/-- The process and the disk under it. -/
structure Machine where
  disk : Disk
  draws : Nat
  /-- The open collection, while there is one. -/
  coll : Option Collection

inductive Event where
  | open
  /-- A crash after `k` effects of an open. -/
  | crashOpen (k : Nat)
  | call (call : Call)
  /-- A crash after `k` effects of a call. -/
  | crashCall (call : Call) (k : Nat)

namespace Machine

/-- Nothing on the disk, nothing running. -/
def fresh : Machine := ⟨Disk.empty, 0, none⟩

variable [Env] (path : String) (config : CollectionConfig)

def step (m : Machine) : Event → Machine
  | .open =>
    let p := CollectionBuilder.openCollection path config
    ⟨p.final m.draws m.disk, (p m.draws m.disk).state, (p m.draws m.disk).result.toOption⟩
  | .crashOpen k =>
    let p := CollectionBuilder.openCollection path config
    ⟨p.crash k m.draws m.disk, (p m.draws m.disk).state, none⟩
  | .call call =>
    match m.coll with
    | none => m
    | some c =>
      let s := (call.run ⟨c, m.draws⟩ m.disk).state
      ⟨call.run.final ⟨c, m.draws⟩ m.disk, s.draws, some s.coll⟩
  | .crashCall call k =>
    match m.coll with
    | none => m
    | some c =>
      let s := (call.run ⟨c, m.draws⟩ m.disk).state
      ⟨call.run.crash k ⟨c, m.draws⟩ m.disk, s.draws, none⟩

def run (m : Machine) (events : List Event) : Machine := events.foldl (step path config) m

/-- The collection is open and reads `x` for `id`. -/
def Reads (m : Machine) (id : Uuid) (x : Except Fault (Option Document)) : Prop :=
  ∃ c, m.coll = some c ∧ c.get m.disk id = x

end Machine
