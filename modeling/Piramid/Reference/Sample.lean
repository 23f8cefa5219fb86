-- SUMMARY: Small configurations and documents to run the machine on.
import Piramid.Collections.Machine
import Piramid.Reference.Env

namespace Reference

/-- A collection that grows from a map of 16 bytes and checkpoints after `frequency`
operations. -/
def config (index : IndexConfig) (limits : LimitsConfig) (frequency : Nat) : CollectionConfig where
  index := index
  memory := ⟨16, true⟩
  wal := ⟨true, frequency, none, 1000000, false⟩
  limits := limits
  cache := ⟨true, 16, none⟩

def flatConfig : CollectionConfig := config (.flat .cosine .auto) .unlimited 1000

/-- The `n`-th document, with a vector of `dim` components. -/
def doc (n dim : Nat) : Document := ⟨BitVec.ofNat 128 n, List.replicate dim F32.one, "", ∅⟩

/-- The machine after the events, started on an empty disk. -/
def after [Env] (config : CollectionConfig) (events : List Event) : Machine :=
  Machine.fresh.run "c" config events

end Reference
