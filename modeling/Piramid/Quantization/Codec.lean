-- SUMMARY: Quantized vectors: the scalar and the block-wise code of a vector, and what is decoded from them.
import Piramid.AppConfig
import Piramid.Base.Blocks

/-!
# Quantization

The codec is written over any type of numbers with the operations that it uses. A
product-quantized vector is cut into blocks of one length, the last one may be
shorter; each block has its own least and greatest value.
-/

/-- What the codec does with an `f32`. -/
class Single (K : Type) where
  infinity : K
  negInfinity : K
  /-- `f32::EPSILON`. -/
  epsilon : K
  /-- A constant, or a cast from an integer. -/
  ofInt : Int → K
  add : K → K → K
  sub : K → K → K
  mul : K → K → K
  div : K → K → K
  min : K → K → K
  max : K → K → K
  abs : K → K
  lt : K → K → Bool
  round : K → K
  clamp : K → K → K → K
  /-- `as i8`. -/
  toI8 : K → Int8
  /-- `as u8`. -/
  toU8 : K → UInt8

open Single

section

variable {K : Type} [Single K]

/-! ## One range for the whole vector -/

/-- `quantization::ScalarQuantizedVector`. -/
structure ScalarQuantizedVector (K : Type) where
  values : List Int8
  min : K
  max : K

namespace ScalarQuantizedVector

/-- The code of one component. -/
def quantize (min range v : K) : Int8 :=
  let normalized := div (sub v min) range
  let scaled := sub (mul normalized (ofInt 254)) (ofInt 127)
  toI8 (clamp (round scaled) (ofInt (-127)) (ofInt 127))

def dequantize (min range : K) (q : Int8) : K :=
  let normalized := div (add (ofInt q.toInt) (ofInt 127)) (ofInt 254)
  add (mul normalized range) min

/-- `ScalarQuantizedVector::from_f32`. -/
def fromF32 (vector : List K) : ScalarQuantizedVector K :=
  if vector.isEmpty then ⟨[], ofInt 0, ofInt 0⟩
  else
    let min := vector.foldl Single.min infinity
    let max := vector.foldl Single.max negInfinity
    if lt (abs (sub max min)) epsilon then ⟨List.replicate vector.length 0, min, max⟩
    else
      let range := sub max min
      ⟨vector.map (quantize min range), min, max⟩

/-- `ScalarQuantizedVector::to_f32`. -/
def toF32 (sq : ScalarQuantizedVector K) : List K :=
  if sq.values.isEmpty then []
  else if lt (abs (sub sq.max sq.min)) epsilon then List.replicate sq.values.length sq.min
  else
    let range := sub sq.max sq.min
    sq.values.map (dequantize sq.min range)

end ScalarQuantizedVector

/-! ## A range for each block -/

/-- `quantization::ProductQuantizedVector`. -/
structure ProductQuantizedVector (K : Type) where
  codes : List UInt8
  blockMins : List K
  blockMaxs : List K
  dim : Nat
  subquantizers : Nat

namespace ProductQuantizedVector

/-- The blocks that a loop over `0..subquantizers` comes to: it breaks at the first one that
begins behind the vector. -/
def blocks (dim subquantizers : Nat) : List Nat :=
  (List.range subquantizers).takeWhile fun blockIdx =>
    blockIdx * divCeil dim subquantizers < dim

/-- `&vector[start..end]`. -/
def block (vector : List K) (blockLen blockIdx : Nat) : List K :=
  let start := blockIdx * blockLen
  let stop := Nat.min (start + blockLen) vector.length
  (vector.drop start).take (stop - start)

/-- One component, in the fold that finds the range of a block. -/
def widen (bounds : K × K) (v : K) : K × K := (Single.min bounds.1 v, Single.max bounds.2 v)

def blockBounds (slice : List K) : K × K := slice.foldl widen (infinity, negInfinity)

/-- How wide a block is taken to be. -/
def blockRange (blockMin blockMax : K) : K := Single.max (sub blockMax blockMin) epsilon

def encode (blockMin range v : K) : UInt8 :=
  let normalized := div (sub v blockMin) range
  toU8 (clamp (round (mul normalized (ofInt 255))) (ofInt 0) (ofInt 255))

def decode (blockMin range : K) (code : UInt8) : K :=
  let normalized := div (ofInt code.toNat) (ofInt 255)
  add (mul normalized range) blockMin

/-- One round of the loop of `from_f32`. -/
def pushBlock (vector : List K) (blockLen : Nat) (pq : ProductQuantizedVector K) (blockIdx : Nat) :
    ProductQuantizedVector K :=
  let slice := block vector blockLen blockIdx
  let bounds := blockBounds slice
  let range := blockRange bounds.1 bounds.2
  { pq with
    blockMins := pq.blockMins ++ [bounds.1]
    blockMaxs := pq.blockMaxs ++ [bounds.2]
    codes := pq.codes ++ slice.map (encode bounds.1 range) }

/-- `ProductQuantizedVector::from_f32`. -/
def fromF32 (vector : List K) (subquantizers : Nat) : ProductQuantizedVector K :=
  if vector.isEmpty then ⟨[], [], [], 0, 0⟩
  else
    let dim := vector.length
    let subquantizers := Nat.min (Nat.max subquantizers 1) dim
    let blockLen := divCeil dim subquantizers
    (blocks dim subquantizers).foldl (pushBlock vector blockLen) ⟨[], [], [], dim, subquantizers⟩

def corrupted (message : String) : Fault := .error (.storage (.corruptedData message))

/-- `xs[i]`. -/
def at' (xs : List K) (i : Nat) : Except Fault K :=
  match xs[i]? with
  | some x => .ok x
  | none => .error (.panic ("index out of bounds: the len is " ++ toString xs.length ++
      " but the index is " ++ toString i))

/-- The inner loop of `try_to_f32`, over `count` positions. -/
def decodeBlock (codes : List UInt8) (blockMin range : K) :
    Nat → List K × Nat → Except Fault (List K × Nat)
  | 0, acc => .ok acc
  | count + 1, (values, idx) =>
    match codes[idx]? with
    | none => .error (corrupted ("PQ vector missing code at position " ++ toString idx))
    | some code =>
      decodeBlock codes blockMin range count (values ++ [decode blockMin range code], idx + 1)

/-- One round of the outer loop of `try_to_f32`. -/
def decodeNext (pq : ProductQuantizedVector K) (acc : List K × Nat) (blockIdx : Nat) :
    Except Fault (List K × Nat) := do
  let blockLen := divCeil pq.dim pq.subquantizers
  let start := blockIdx * blockLen
  let stop := Nat.min (start + blockLen) pq.dim
  let blockMax ← at' pq.blockMaxs blockIdx
  let blockMin ← at' pq.blockMins blockIdx
  decodeBlock pq.codes blockMin (blockRange blockMin blockMax) (stop - start) acc

/-- `ProductQuantizedVector::try_to_f32`. -/
def tryToF32 (pq : ProductQuantizedVector K) : Except Fault (List K) :=
  if pq.codes.isEmpty ∨ pq.subquantizers = 0 then
    if pq.dim = 0 then .ok []
    else .error (corrupted "PQ vector has no codes or subquantizers for non-empty dimension")
  else if pq.blockMins.length < pq.subquantizers ∨ pq.blockMaxs.length < pq.subquantizers then
    .error (corrupted "PQ vector block metadata is shorter than subquantizer count")
  else do
    let acc ← (blocks pq.dim pq.subquantizers).foldlM (decodeNext pq) ([], 0)
    if acc.1.length ≠ pq.dim then
      .error (corrupted ("PQ vector decoded dimension mismatch: expected " ++ toString pq.dim ++
        ", got " ++ toString acc.1.length))
    else .ok acc.1

end ProductQuantizedVector

/-! ## Either -/

/-- `quantization::QuantizationKind`. -/
inductive QuantizationKind where
  | scalar | pq
deriving DecidableEq

/-- `quantization::QuantizedVector`. -/
structure QuantizedVector (K : Type) where
  values : List Int8
  min : K
  max : K
  pq : Option (ProductQuantizedVector K)
  kind : QuantizationKind

namespace QuantizedVector

def fromScalar (vector : List K) : QuantizedVector K :=
  let scalar := ScalarQuantizedVector.fromF32 vector
  ⟨scalar.values, scalar.min, scalar.max, none, .scalar⟩

def fromPq (vector : List K) (subquantizers : Nat) : QuantizedVector K :=
  ⟨[], ofInt 0, ofInt 0, some (ProductQuantizedVector.fromF32 vector subquantizers), .pq⟩

/-- `QuantizedVector::from_f32_with_config`. -/
def fromF32WithConfig (vector : List K) (cfg : QuantizationConfig) :
    Except Fault (QuantizedVector K) :=
  match cfg.level with
  | .none | .int8 => .ok (fromScalar vector)
  | .pq subquantizers => .ok (fromPq vector subquantizers)
  | .int4 => .error (.panic "Int4 quantization is not implemented")
  | .float16 => .error (.panic "Float16 quantization is not implemented")

/-- `QuantizedVector::try_to_f32`. -/
def tryToF32 (qv : QuantizedVector K) : Except Fault (List K) :=
  match qv.kind with
  | .scalar => .ok (ScalarQuantizedVector.toF32 ⟨qv.values, qv.min, qv.max⟩)
  | .pq =>
    match qv.pq with
    | none => .error (ProductQuantizedVector.corrupted "vector is marked as PQ but has no PQ payload")
    | some pq => pq.tryToF32

end QuantizedVector

end
