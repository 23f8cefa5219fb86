-- SUMMARY: Floating point numbers, execution modes, and the similarity metrics of the indexes.
import Mathlib.Logic.Equiv.Defs
import Piramid.Error

/-!
# Metrics

Floats are their bit patterns. What the processor computes on them is a
parameter; which checks come before it, and which modes have no kernel, is not.
-/

/-- An `f32`, by its bits. -/
abbrev F32 : Type := BitVec 32

/-- An `f64`, by its bits. -/
abbrev F64 : Type := BitVec 64

abbrev Vector32 : Type := List F32

namespace F32

def zero : F32 := 0x00000000#32
def one : F32 := 0x3f800000#32
def ten : F32 := 0x41200000#32
def tenth : F32 := 0x3dcccccd#32
def converged : F32 := 0x3f7d70a4#32   -- 0.99
def infinity : F32 := 0x7f800000#32

/-- Neither an infinity nor a NaN. -/
def isFinite (x : F32) : Bool := x &&& infinity != infinity

end F32

namespace F64

def infinity : F64 := 0x7ff0000000000000#64

def isFinite (x : F64) : Bool := x &&& infinity != infinity

end F64

/-- `config::ExecutionMode`. -/
inductive ExecutionMode where
  | auto | simd | scalar | gpu | parallel | binary | jit
deriving DecidableEq

/-- `metrics::Metric`. -/
inductive Metric where
  | cosine | euclidean | dotProduct
deriving DecidableEq

/-- Whether the least or the greatest score comes first. -/
inductive SortOrder where
  | ascending | descending
deriving DecidableEq

/-- What the processor computes: arithmetic on `f32`, and the value each kernel
returns on two vectors of one length. -/
class Floats where
  add : F32 → F32 → F32
  sub : F32 → F32 → F32
  mul : F32 → F32 → F32
  div : F32 → F32 → F32
  neg : F32 → F32
  sqrt : F32 → F32
  ln : F32 → F32
  floor : F32 → F32
  max : F32 → F32 → F32
  min : F32 → F32 → F32
  partialCmp : F32 → F32 → Option Ordering
  ofUsize : Nat → F32
  /-- `as usize`. -/
  toUsize : F32 → Nat
  /-- Whether the vector instructions `ExecutionMode::resolve` looks for are there. -/
  simdDetected : Bool
  cosineKernel : ExecutionMode → Vector32 → Vector32 → F32
  euclideanKernel : ExecutionMode → Vector32 → Vector32 → F32
  dotKernel : ExecutionMode → Vector32 → Vector32 → F32
  /-- What `slice::sort_by` makes of scores that are not totally ordered, if it does not panic. -/
  disorder : SortOrder → List F32 → (n : Nat) → Option (Equiv.Perm (Fin n))

section

variable [Floats]

/-- `a.partial_cmp(b).unwrap_or(Ordering::Equal)`. -/
def F32.cmp (a b : F32) : Ordering := (Floats.partialCmp a b).getD .eq

/-- The operator `<`. -/
def F32.lt (a b : F32) : Bool := Floats.partialCmp a b = some .lt

/-- The operator `>`. -/
def F32.gt (a b : F32) : Bool := Floats.partialCmp a b = some .gt

/-- The operator `>=`. -/
def F32.ge (a b : F32) : Bool :=
  Floats.partialCmp a b = some .gt || Floats.partialCmp a b = some .eq

/-- The numbers compare as those of a linear order: none of them is a NaN. -/
def F32.Ordered (P : F32 → Prop) : Prop :=
  ∃ key : F32 → Int, ∀ x y, P x → P y → Floats.partialCmp x y = some (compare (key x) (key y))

def ExecutionMode.resolve : ExecutionMode → ExecutionMode
  | .auto => if Floats.simdDetected then .simd else .scalar
  | mode => mode

/-- The mode has kernels. -/
def ExecutionMode.Implemented (mode : ExecutionMode) : Prop := mode ≠ .gpu

instance (mode : ExecutionMode) : Decidable mode.Implemented :=
  inferInstanceAs (Decidable (mode ≠ .gpu))

namespace Compute

/-- `cosine_similarity`, `euclidean_distance` and `dot_product` dispatch alike:
no kernel for the GPU, and each kernel asserts equal lengths first. -/
def dispatch (name : String) (kernel : ExecutionMode → Vector32 → Vector32 → F32)
    (a b : Vector32) (mode : ExecutionMode) : Except Fault F32 :=
  match mode.resolve with
  | .gpu => .error (.panic ("GPU " ++ name ++ " is not implemented"))
  | resolved =>
    if a.length = b.length then .ok (kernel resolved a b)
    else .error (.panic "Vectors must have same length")

def cosineSimilarity : Vector32 → Vector32 → ExecutionMode → Except Fault F32 :=
  dispatch "cosine similarity" Floats.cosineKernel

def euclideanDistance : Vector32 → Vector32 → ExecutionMode → Except Fault F32 :=
  dispatch "euclidean distance" Floats.euclideanKernel

def dotProduct : Vector32 → Vector32 → ExecutionMode → Except Fault F32 :=
  dispatch "dot product" Floats.dotKernel

end Compute

/-- `Metric::calculate`. -/
def Metric.calculate (metric : Metric) (a b : Vector32) (mode : ExecutionMode) :
    Except Fault F32 :=
  match metric with
  | .cosine => Compute.cosineSimilarity a b mode
  | .euclidean => do
    let dist ← Compute.euclideanDistance a b mode
    pure (Floats.div F32.one (Floats.add F32.one dist))
  | .dotProduct => Compute.dotProduct a b mode

theorem Compute.dispatch_ok {name : String} {kernel : ExecutionMode → Vector32 → Vector32 → F32}
    {a b : Vector32} {mode : ExecutionMode} (hmode : mode.Implemented) (hlen : a.length = b.length) :
    ∃ x, dispatch name kernel a b mode = .ok x := by
  cases mode with
  | gpu => exact absurd rfl hmode
  | auto =>
      cases hs : (Floats.simdDetected : Bool) <;>
        exact ⟨_, by simp only [dispatch, ExecutionMode.resolve, hs, hlen]; rfl⟩
  | simd => exact ⟨_, by simp only [dispatch, ExecutionMode.resolve, hlen]; rfl⟩
  | scalar => exact ⟨_, by simp only [dispatch, ExecutionMode.resolve, hlen]; rfl⟩
  | parallel => exact ⟨_, by simp only [dispatch, ExecutionMode.resolve, hlen]; rfl⟩
  | binary => exact ⟨_, by simp only [dispatch, ExecutionMode.resolve, hlen]; rfl⟩
  | jit => exact ⟨_, by simp only [dispatch, ExecutionMode.resolve, hlen]; rfl⟩

/-- An implemented mode scores any two vectors of one length. -/
theorem Metric.calculate_ok (metric : Metric) {a b : Vector32} {mode : ExecutionMode}
    (hmode : mode.Implemented) (hlen : a.length = b.length) :
    ∃ x, metric.calculate a b mode = .ok x := by
  cases metric with
  | cosine => exact Compute.dispatch_ok hmode hlen
  | dotProduct => exact Compute.dispatch_ok hmode hlen
  | euclidean =>
      have hdist : ∃ dist, Compute.euclideanDistance a b mode = .ok dist :=
        Compute.dispatch_ok hmode hlen
      obtain ⟨dist, hdist⟩ := hdist
      refine ⟨Floats.div F32.one (Floats.add F32.one dist), ?_⟩
      rw [Metric.calculate, hdist]
      rfl

end
