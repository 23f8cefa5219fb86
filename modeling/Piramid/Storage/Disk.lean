-- SUMMARY: The files of a collection and the effects operations have on them.
import Piramid.Base.Extent
import Piramid.Base.Prog
import Piramid.Storage.Env

/-!
# The disk

A collection at `path` owns the files named here. An effect is one system call
that changes a file, or one write through the memory map, which the file shows
at once.
-/

/-- The files of a collection. -/
inductive CollFile where
  /-- `{path}`. -/
  | data
  /-- `{path}.index.db`. -/
  | index
  /-- `{path}.vecindex.db`. -/
  | vecindex
  /-- `{path}.metadata.db`. -/
  | metadata
  /-- `{path}.wal.db`. -/
  | wal
  /-- `{path}.wal.meta`. -/
  | walMeta
  /-- `{path}.wal.tmp`. -/
  | walMetaTmp
  /-- `{path}.compact`. -/
  | compactTmp
deriving DecidableEq

/-- The files a record store is opened on. -/
inductive StoreFile where
  | data | compactTmp
deriving DecidableEq

@[coe] def StoreFile.file : StoreFile → CollFile
  | .data => .data
  | .compactTmp => .compactTmp

instance : Coe StoreFile CollFile := ⟨StoreFile.file⟩

abbrev Disk : Type := CollFile → Option Bytes

namespace Disk

def empty : Disk := fun _ => none

def put (d : Disk) (f : CollFile) (bytes : Option Bytes) : Disk :=
  fun f' => if f' = f then bytes else d f'

@[simp] theorem put_self (d : Disk) (f : CollFile) (bytes : Option Bytes) :
    d.put f bytes f = bytes := by
  simp [put]

@[simp] theorem put_other (d : Disk) {f f' : CollFile} (h : f' ≠ f) (bytes : Option Bytes) :
    d.put f bytes f' = d f' := by
  simp [put, h]

/-- The contents of a file, empty if it does not exist. -/
def read (d : Disk) (f : CollFile) : Bytes := (d f).getD []

theorem read_of_eq {d : Disk} {f : CollFile} {bytes : Bytes} (h : d f = some bytes) :
    d.read f = bytes := by
  rw [read, h]
  rfl

@[simp] theorem read_put_self (d : Disk) (f : CollFile) (bytes : Option Bytes) :
    (d.put f bytes).read f = bytes.getD [] := by
  simp [read]

@[simp] theorem read_put_other (d : Disk) {f f' : CollFile} (h : f' ≠ f) (bytes : Option Bytes) :
    (d.put f bytes).read f' = d.read f' := by
  simp [read, h]

end Disk

inductive Effect where
  /-- Open with `create`, keeping what is there. -/
  | create (f : CollFile)
  | setLen (f : CollFile) (size : Nat)
  /-- Write at an offset, through the file or through its memory map. -/
  | store (f : CollFile) (offset : Nat) (bytes : Bytes)
  /-- `fs::write`. -/
  | write (f : CollFile) (bytes : Bytes)
  | append (f : CollFile) (bytes : Bytes)
  /-- Open with `create` and `truncate`. -/
  | truncate (f : CollFile)
  | rename (src dst : CollFile)
  | remove (f : CollFile)
  /-- `sync_all`, and the flush of the memory map before it. -/
  | sync (f : CollFile)

namespace Effect

def apply (e : Effect) (d : Disk) : Disk :=
  match e with
  | .create f => d.put f (some (d.read f))
  | .setLen f size => d.put f (some (Extent.resize (d.read f) size))
  | .store f offset bytes => d.put f (some (Extent.overwrite (d.read f) offset bytes))
  | .write f bytes => d.put f (some bytes)
  | .append f bytes => d.put f (some (d.read f ++ bytes))
  | .truncate f => d.put f (some [])
  | .rename src dst => (d.put dst (d src)).put src none
  | .remove f => d.put f none
  | .sync _ => d

instance : Device Disk Effect := ⟨apply⟩

section

variable (d : Disk) (f : CollFile)

@[simp] theorem apply_create : Device.apply (create f) d = d.put f (some (d.read f)) := rfl

@[simp] theorem apply_setLen (size : Nat) :
    Device.apply (setLen f size) d = d.put f (some (Extent.resize (d.read f) size)) := rfl

@[simp] theorem apply_store (offset : Nat) (bytes : Bytes) :
    Device.apply (store f offset bytes) d =
      d.put f (some (Extent.overwrite (d.read f) offset bytes)) := rfl

@[simp] theorem apply_write (bytes : Bytes) :
    Device.apply (write f bytes) d = d.put f (some bytes) := rfl

@[simp] theorem apply_append (bytes : Bytes) :
    Device.apply (append f bytes) d = d.put f (some (d.read f ++ bytes)) := rfl

@[simp] theorem apply_truncate : Device.apply (truncate f) d = d.put f (some []) := rfl

@[simp] theorem apply_rename (dst : CollFile) :
    Device.apply (rename f dst) d = (d.put dst (d f)).put f none := rfl

@[simp] theorem apply_remove : Device.apply (remove f) d = d.put f none := rfl

@[simp] theorem apply_sync : Device.apply (sync f) d = d := rfl

end

/-- The files an effect changes. -/
def Touches (e : Effect) (f : CollFile) : Prop :=
  match e with
  | .create f' | .setLen f' _ | .store f' _ _ | .write f' _ | .append f' _ | .truncate f'
  | .remove f' => f' = f
  | .rename src dst => src = f ∨ dst = f
  | .sync _ => False

theorem apply_untouched {e : Effect} {f : CollFile} (h : ¬e.Touches f) (d : Disk) :
    Device.apply e d f = d f := by
  change e.apply d f = d f
  cases e with
  | rename src dst =>
      simp only [Touches, not_or] at h
      simp [apply, Disk.put, Ne.symm h.1, Ne.symm h.2]
  | sync f' => rfl
  | create f' | setLen f' _ | store f' _ _ | write f' _ | append f' _ | truncate f' | remove f' =>
      simp only [Touches] at h
      simp [apply, Disk.put, Ne.symm h]

end Effect

/-- Programs of the collection layer, with their own state `σ`. -/
abbrev Io (σ α : Type) : Type := Prog Disk Effect Fault σ α

/-- A state that counts the draws made so far. -/
class Counting (σ : Type) where
  count : σ → Nat
  next : σ → σ

instance : Counting Nat := ⟨id, (· + 1)⟩

/-- Draw from the environment. -/
def draw [Env] {σ : Type} [Counting σ] : Io σ Chance := do
  let n ← Prog.asks Counting.count
  Prog.modify Counting.next
  pure (Env.chance n)

/-- An `Err` the caller gets. -/
def fail {σ α : Type} (e : PiramidError) : Io σ α := Prog.fault (.error e)
