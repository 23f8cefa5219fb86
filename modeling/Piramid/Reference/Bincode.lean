-- SUMMARY: A concrete binary format for what is stored: the bytes of bincode, with an escape for values it cannot hold.
import Mathlib.Data.String.Basic
import Piramid.Base.Format
import Piramid.Storage.Laws

/-!
# A binary format

Fixed-width little-endian integers, a length before a sequence, a number before
the fields of a variant. The model's numbers are unbounded and its characters are
any, so the largest word and the byte 255 announce a value that has no bytes of
its own.
-/

namespace Bincode

open Format

/-- A format of bytes. -/
abbrev Binary (α : Type) : Type := Format UInt8 α

def byte : Binary (Fin 256) := symbol.map UInt8.toFin UInt8.ofFin fun _ => rfl

/-! ## Numbers -/

def natural : Binary Nat := unary 1 0 (by decide)

/-- A `u64` or `usize`. -/
def u64 : Binary Nat :=
  escape (littleEndian byte 8) natural
    (fun n => if h : n < 2 ^ 64 - 1 then some ⟨n, by omega⟩ else none)
    (fun k => if k.val < 2 ^ 64 - 1 then some k.val else none)
    ⟨2 ^ 64 - 1, by decide⟩
    (by
      intro n k h
      split at h
      · cases h
        exact if_pos ‹_›
      · cases h)
    (by decide)

def u32 : Binary Nat :=
  escape (littleEndian byte 4) natural
    (fun n => if h : n < 2 ^ 32 - 1 then some ⟨n, by omega⟩ else none)
    (fun k => if k.val < 2 ^ 32 - 1 then some k.val else none)
    ⟨2 ^ 32 - 1, by decide⟩
    (by
      intro n k h
      split at h
      · cases h
        exact if_pos ‹_›
      · cases h)
    (by decide)

/-- An integer as a difference of two numbers. -/
def integer : Binary Int :=
  (natural.seq natural).map (fun p => (p.1 : Int) - p.2) (fun i => (i.toNat, (-i).toNat))
    fun i => by omega

/-- An `i64` or `isize`, in two's complement. -/
def i64 : Binary Int :=
  escape (littleEndian byte 8) integer
    (fun i => if h : 0 ≤ i ∧ i < 2 ^ 63 then some ⟨i.toNat, by omega⟩
      else if h : -2 ^ 63 < i ∧ i < 0 then some ⟨(i + 2 ^ 64).toNat, by omega⟩ else none)
    (fun k => if k.val < 2 ^ 63 then some (k.val : Int)
      else if k.val = 2 ^ 63 then none else some ((k.val : Int) - 2 ^ 64))
    ⟨2 ^ 63, by decide⟩
    (by
      intro i k h
      split at h
      · cases h
        simp only
        rw [if_pos (by omega)]
        congr 1
        omega
      · split at h
        · cases h
          simp only
          rw [if_neg (by omega), if_neg (by omega)]
          congr 1
          omega
        · cases h)
    (by decide)

def boolean : Binary Bool :=
  symbol.convert (fun c => if c = 0 then some false else if c = 1 then some true else none)
    (fun b => if b then 1 else 0) (by decide)

def f32 : Binary F32 :=
  (littleEndian byte 4).map (fun k => BitVec.ofNat 32 k) (fun x => ⟨x.toNat, x.isLt⟩)
    fun x => BitVec.eq_of_toNat_eq (Nat.mod_eq_of_lt x.isLt)

def f64 : Binary F64 :=
  (littleEndian byte 8).map (fun k => BitVec.ofNat 64 k) (fun x => ⟨x.toNat, x.isLt⟩)
    fun x => BitVec.eq_of_toNat_eq (Nat.mod_eq_of_lt x.isLt)

/-! ## Ids, texts and sequences -/

/-- The bytes of an id, after their number. -/
def uuid : Binary Uuid :=
  after [16, 0, 0, 0, 0, 0, 0, 0] <| (bigEndian byte 16).map (fun k => BitVec.ofNat 128 k)
    (fun id => ⟨id.toNat, id.isLt⟩) fun id => BitVec.eq_of_toNat_eq (Nat.mod_eq_of_lt id.isLt)

def char : Binary Char :=
  escape symbol (u32.map Char.ofNat Char.toNat Char.ofNat_toNat)
    (fun c => if c.toNat < 128 then some (UInt8.ofNat c.toNat) else none)
    (fun b => if b < 128 then some (Char.ofNat b.toNat) else none)
    255
    (by
      intro c b h
      split at h
      · rename_i hc
        cases h
        have hb : (UInt8.ofNat c.toNat).toNat = c.toNat := by
          rw [UInt8.toNat_ofNat']
          omega
        have hlt : UInt8.ofNat c.toNat < 128 := by
          rw [UInt8.lt_iff_toNat_lt, hb]
          exact hc
        rw [if_pos hlt, hb, Char.ofNat_toNat]
      · cases h)
    (by decide)

def sequence {α : Type} (f : Binary α) : Binary (List α) := Format.list u64 f

def string : Binary String :=
  (sequence char).map String.ofList String.toList fun _ => String.ofList_toList

def optional {α : Type} (f : Binary α) : Binary (Option α) := Format.option boolean f

/-- The order ids are stored in. -/
def idOrder : HashOrder Uuid := .sortedBy BitVec.toNat fun _ _ => BitVec.eq_of_toNat_eq

def mapById {α : Type} (f : Binary α) : Binary (HashMap Uuid α) := hashMap idOrder u64 uuid f

def idSet : Binary (Finset Uuid) := finset idOrder u64 uuid

/-- The number of a variant without fields. -/
def variant {α : Type} (parse : Nat → Option α) (print : α → Nat)
    (h : ∀ a, parse (print a) = some a) : Binary α :=
  u32.convert parse print h

/-! ## Metadata -/

/-- The head of a metadata value. -/
inductive Token where
  | string (s : String)
  | integer (i : Int)
  | float (f : F64)
  | boolean (b : Bool)
  /-- An array of the `n` values that come next. -/
  | array (n : Nat)
  | null

def Token.arity : Token → Nat
  | .array n => n
  | _ => 0

mutual

def tokens : MetadataValue → List Token
  | .string s => [.string s]
  | .integer i => [.integer i]
  | .float f => [.float f]
  | .boolean b => [.boolean b]
  | .array vs => .array vs.length :: tokensOf vs
  | .null => [.null]

def tokensOf : List MetadataValue → List Token
  | [] => []
  | v :: vs => tokens v ++ tokensOf vs

end

/-- The values that tokens are the heads of. -/
def assemble : List Token → List MetadataValue
  | [] => []
  | .string s :: ts => .string s :: assemble ts
  | .integer i :: ts => .integer i :: assemble ts
  | .float f :: ts => .float f :: assemble ts
  | .boolean b :: ts => .boolean b :: assemble ts
  | .array n :: ts => .array ((assemble ts).take n) :: (assemble ts).drop n
  | .null :: ts => .null :: assemble ts

mutual

theorem assemble_tokens (v : MetadataValue) (ts : List Token) :
    assemble (tokens v ++ ts) = v :: assemble ts := by
  cases v with
  | string | integer | float | boolean | null => rfl
  | array vs =>
      rw [tokens, List.cons_append, assemble, assemble_tokensOf vs, List.take_left, List.drop_left]

theorem assemble_tokensOf (vs : List MetadataValue) (ts : List Token) :
    assemble (tokensOf vs ++ ts) = vs ++ assemble ts := by
  cases vs with
  | nil => rfl
  | cons v vs =>
      rw [tokensOf, List.append_assoc, assemble_tokens v, assemble_tokensOf vs, List.cons_append]

end

mutual

theorem complete_tokens (v : MetadataValue) (n : Nat) (ts : List Token) :
    complete Token.arity (n + 1) (tokens v ++ ts) = complete Token.arity n ts := by
  cases v with
  | string | integer | float | boolean | null => rfl
  | array vs => exact complete_tokensOf vs n ts

theorem complete_tokensOf (vs : List MetadataValue) (n : Nat) (ts : List Token) :
    complete Token.arity (n + vs.length) (tokensOf vs ++ ts) = complete Token.arity n ts := by
  cases vs with
  | nil => rfl
  | cons v vs =>
      rw [tokensOf, List.append_assoc, List.length_cons, ← Nat.add_assoc, complete_tokens v,
        complete_tokensOf vs]

end

/-- The kind of a token. -/
inductive Kind where
  | string | integer | float | boolean | array | null

def kind : Binary Kind :=
  variant
    (fun
      | 0 => some .string
      | 1 => some .integer
      | 2 => some .float
      | 3 => some .boolean
      | 4 => some .array
      | 5 => some .null
      | _ => none)
    (fun
      | .string => 0
      | .integer => 1
      | .float => 2
      | .boolean => 3
      | .array => 4
      | .null => 5)
    (by rintro (_ | _) <;> rfl)

/-- What a token of each kind carries. -/
def Kind.Payload : Kind → Type
  | .string => String
  | .integer => Int
  | .float => F64
  | .boolean => Bool
  | .array => Nat
  | .null => Unit

def payload : (k : Kind) → Binary k.Payload
  | .string => string
  | .integer => i64
  | .float => f64
  | .boolean => boolean
  | .array => u64
  | .null => empty

def token : Binary Token :=
  (tagged kind payload).map
    (fun
      | ⟨.string, s⟩ => .string s
      | ⟨.integer, i⟩ => .integer i
      | ⟨.float, f⟩ => .float f
      | ⟨.boolean, b⟩ => .boolean b
      | ⟨.array, n⟩ => .array n
      | ⟨.null, _⟩ => .null)
    (fun
      | .string s => ⟨.string, s⟩
      | .integer i => ⟨.integer, i⟩
      | .float f => ⟨.float, f⟩
      | .boolean b => ⟨.boolean, b⟩
      | .array n => ⟨.array, n⟩
      | .null => ⟨.null, ()⟩)
    (by rintro (_ | _) <;> rfl)

theorem token_ne_nil (t : Token) : token.encode t ≠ [] := by
  cases t <;> exact List.cons_ne_nil _ _

def metadataValue : Binary MetadataValue :=
  (term Token.arity token token_ne_nil).convert (fun ts => (assemble ts.val).head?)
    (fun v => ⟨tokens v, by
      have h := complete_tokens v 0 []
      rw [List.append_nil] at h
      exact h⟩)
    fun v => by
      have h := assemble_tokens v []
      rw [List.append_nil] at h
      rw [h]
      rfl

def metadata : Binary Metadata :=
  hashMap (.sortedBy id Function.injective_id) u64 string metadataValue

/-! ## What is stored -/

def document : Binary Document :=
  (uuid.seq ((sequence f32).seq (string.seq metadata))).map
    (fun p => ⟨p.1, p.2.1, p.2.2.1, p.2.2.2⟩)
    (fun doc => (doc.id, doc.vector, doc.text, doc.metadata)) fun _ => rfl

def offsetIndex : Binary OffsetIndex :=
  mapById <| (u64.seq u32).map (fun p => ⟨p.1, p.2⟩) (fun e => (e.offset, e.length)) fun _ => rfl

def collectionMetadata : Binary CollectionMetadata :=
  (u32.seq (string.seq (u64.seq (u64.seq ((optional u64).seq u64))))).map
    (fun p => ⟨p.1, p.2.1, p.2.2.1, p.2.2.2.1, p.2.2.2.2.1, p.2.2.2.2.2⟩)
    (fun m => (m.schemaVersion, m.name, m.createdAt, m.updatedAt, m.dimensions, m.vectorCount))
    fun _ => rfl

def metric : Binary Metric :=
  variant
    (fun
      | 0 => some .cosine
      | 1 => some .euclidean
      | 2 => some .dotProduct
      | _ => none)
    (fun
      | .cosine => 0
      | .euclidean => 1
      | .dotProduct => 2)
    (by rintro (_ | _) <;> rfl)

def executionMode : Binary ExecutionMode :=
  variant
    (fun
      | 0 => some .auto
      | 1 => some .simd
      | 2 => some .scalar
      | 3 => some .gpu
      | 4 => some .parallel
      | 5 => some .binary
      | 6 => some .jit
      | _ => none)
    (fun
      | .auto => 0
      | .simd => 1
      | .scalar => 2
      | .gpu => 3
      | .parallel => 4
      | .binary => 5
      | .jit => 6)
    (by rintro (_ | _) <;> rfl)

def flatIndex : Binary FlatIndex :=
  (((metric.seq executionMode).map (fun p => FlatConfig.mk p.1 p.2) (fun c => (c.metric, c.mode))
      fun _ => rfl).seq (sequence uuid)).map
    (fun p => ⟨p.1, p.2⟩) (fun ix => (ix.config, ix.vectorIds)) fun _ => rfl

def hnswConfig : Binary HnswConfig :=
  (u64.seq (u64.seq (u64.seq (u64.seq (f32.seq (metric.seq executionMode)))))).map
    (fun p => ⟨p.1, p.2.1, p.2.2.1, p.2.2.2.1, p.2.2.2.2.1, p.2.2.2.2.2.1, p.2.2.2.2.2.2⟩)
    (fun c => (c.m, c.mMax, c.efConstruction, c.efSearch, c.ml, c.metric, c.mode)) fun _ => rfl

def hnswNode : Binary HnswNode :=
  ((sequence (sequence uuid)).seq boolean).map (fun p => ⟨p.1, p.2⟩)
    (fun node => (node.connections, node.tombstone)) fun _ => rfl

def hnswIndex : Binary HnswIndex :=
  (hnswConfig.seq ((mapById hnswNode).seq (i64.seq (optional uuid)))).map
    (fun p => ⟨p.1, p.2.1, p.2.2.1, p.2.2.2⟩)
    (fun ix => (ix.config, ix.nodes, ix.maxLevel, ix.startNode)) fun _ => rfl

def ivfConfig : Binary IvfConfig :=
  (u64.seq (u64.seq (u64.seq (metric.seq executionMode)))).map
    (fun p => ⟨p.1, p.2.1, p.2.2.1, p.2.2.2.1, p.2.2.2.2⟩)
    (fun c => (c.numClusters, c.numProbes, c.maxIterations, c.metric, c.mode)) fun _ => rfl

def ivfIndex : Binary IvfIndex :=
  (ivfConfig.seq ((sequence (sequence f32)).seq ((sequence (sequence uuid)).seq
      ((mapById u64).seq (idSet.seq u64))))).map
    (fun p => ⟨p.1, p.2.1, p.2.2.1, p.2.2.2.1, p.2.2.2.2.1, p.2.2.2.2.2⟩)
    (fun ix => (ix.config, ix.centroids, ix.invertedLists, ix.vectorToCluster, ix.pendingVectors,
      ix.dimensions)) fun _ => rfl

def indexType : Binary IndexType :=
  variant
    (fun
      | 0 => some .flat
      | 1 => some .hnsw
      | 2 => some .ivf
      | _ => none)
    (fun
      | .flat => 0
      | .hnsw => 1
      | .ivf => 2)
    (by rintro (_ | _) <;> rfl)

/-- The indexes of each type. -/
def Index : IndexType → Type
  | .flat => FlatIndex
  | .hnsw => HnswIndex
  | .ivf => IvfIndex

def index : (t : IndexType) → Binary (Index t)
  | .flat => flatIndex
  | .hnsw => hnswIndex
  | .ivf => ivfIndex

def vectorIndex : Binary VectorIndex :=
  (tagged indexType index).map
    (fun
      | ⟨.flat, ix⟩ => .flat ix
      | ⟨.hnsw, ix⟩ => .hnsw ix
      | ⟨.ivf, ix⟩ => .ivf ix)
    (fun
      | .flat ix => ⟨.flat, ix⟩
      | .hnsw ix => ⟨.hnsw, ix⟩
      | .ivf ix => ⟨.ivf, ix⟩)
    (by rintro (_ | _) <;> rfl)

/-! ## As a codec -/

/-- The codec of a format. What follows the value is ignored. -/
def codec {α : Type} (f : Binary α) : Codec α where
  encode := f.encode
  decode bytes :=
    match f.decode bytes with
    | some (a, _) => .ok a
    | none => .error "unexpected end of file"

theorem codec_roundTrips {α : Type} (f : Binary α) : (codec f).RoundTrips := by
  intro a
  simp [codec]

theorem codec_rejectsTorn {α : Type} (f : Binary α) : (codec f).RejectsTorn := by
  intro a torn hpre hne b hb
  simp [codec, f.decode_torn hpre hne] at hb

end Bincode
