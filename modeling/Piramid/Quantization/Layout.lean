-- SUMMARY: The blocks of a product-quantized vector: what the encoder writes, and when the decoder reads it.
import Piramid.Quantization.Exact

/-!
# Layout

The encoder cuts the vector into blocks of the same length, so that fewer blocks
than asked for may be enough. The decoder wants as many as were asked for.
-/

open Single

namespace ProductQuantizedVector

section

variable {K : Type} [Single K]

omit [Single K] in
theorem block_eq (vector : List K) (blockLen b : Nat) :
    block vector blockLen b = (vector.drop (b * blockLen)).take blockLen := by
  unfold block
  refine List.take_eq_take_iff.mpr ?_
  simp only [List.length_drop, Nat.min_def]
  split <;> split <;> split <;> omega

/-- The number of blocks that are asked for, as it is stored. -/
def nominal (dim subquantizers : Nat) : Nat := min (max subquantizers 1) dim

/-- The length of the blocks. -/
def blockLen (dim subquantizers : Nat) : Nat := divCeil dim (nominal dim subquantizers)

/-- The number of blocks that there are. -/
def actual (dim subquantizers : Nat) : Nat := divCeil dim (blockLen dim subquantizers)

section

variable {dim : Nat} (hdim : 0 < dim) (s : Nat)

include hdim

theorem nominal_pos : 0 < nominal dim s := by
  unfold nominal
  omega

theorem blockLen_pos : 0 < blockLen dim s := by
  unfold blockLen
  rw [lt_divCeil (nominal_pos hdim s)]
  omega

theorem le_actual_mul : dim ≤ actual dim s * blockLen dim s := by
  by_contra hlt
  have hmore := (lt_divCeil (blockLen_pos hdim s)).mpr (not_le.mp hlt)
  exact lt_irrefl _ hmore

/-- No more blocks are needed than were asked for. -/
theorem actual_le_nominal : actual dim s ≤ nominal dim s := by
  by_contra hlt
  have hmore := (lt_divCeil (blockLen_pos hdim s)).mp (not_le.mp hlt)
  -- that many blocks already cover the vector
  have hcover : dim ≤ nominal dim s * blockLen dim s := by
    by_contra hshort
    rw [not_le, Nat.mul_comm] at hshort
    have := (lt_divCeil (nominal_pos hdim s)).mpr hshort
    exact lt_irrefl _ this
  omega

theorem blocks_eq : blocks dim (nominal dim s) = List.range (actual dim s) := by
  have hblocks := takeWhile_range_blocks (nominal dim s) dim (blockLen_pos hdim s)
  exact hblocks.trans (congrArg List.range (min_eq_right (actual_le_nominal hdim s)))

/-- All blocks that were asked for are there when the last one begins inside the vector. -/
theorem nominal_le_actual_iff :
    nominal dim s ≤ actual dim s ↔ (nominal dim s - 1) * blockLen dim s < dim := by
  have hpos := nominal_pos hdim s
  rw [← lt_divCeil (blockLen_pos hdim s)]
  change nominal dim s ≤ actual dim s ↔ nominal dim s - 1 < actual dim s
  omega

end

/-! ## What the encoder writes -/

section

variable (vector : List K) (s : Nat)

/-- The least and the greatest value of block `b`. -/
def boundsAt (b : Nat) : K × K := blockBounds (block vector (blockLen vector.length s) b)

def rangeAt (b : Nat) : K := blockRange (boundsAt vector s b).1 (boundsAt vector s b).2

/-- The code of a component of block `b`, and what it is decoded to. -/
def encodeAt (b : Nat) (v : K) : UInt8 := encode (boundsAt vector s b).1 (rangeAt vector s b) v

def decodeAt (b : Nat) (code : UInt8) : K :=
  decode (boundsAt vector s b).1 (rangeAt vector s b) code

theorem foldl_pushBlock (bs : List Nat) (pq : ProductQuantizedVector K) :
    bs.foldl (pushBlock vector (blockLen vector.length s)) pq =
      { pq with
        codes := pq.codes ++ bs.flatMap fun b =>
          (block vector (blockLen vector.length s) b).map (encodeAt vector s b)
        blockMins := pq.blockMins ++ bs.map fun b => (boundsAt vector s b).1
        blockMaxs := pq.blockMaxs ++ bs.map fun b => (boundsAt vector s b).2 } := by
  induction bs generalizing pq with
  | nil => simp
  | cons b bs ih =>
      rw [List.foldl_cons, ih]
      simp only [pushBlock, List.flatMap_cons, List.map_cons, List.append_assoc, List.cons_append,
        List.nil_append]
      rfl

/-- The codes lie in the order of the components, and there is a range for each block. -/
theorem fromF32_eq (h : vector ≠ []) :
    fromF32 vector s =
      { codes := vector.mapIdx fun i v =>
          encodeAt vector s (i / blockLen vector.length s) v
        blockMins := (List.range (actual vector.length s)).map fun b => (boundsAt vector s b).1
        blockMaxs := (List.range (actual vector.length s)).map fun b => (boundsAt vector s b).2
        dim := vector.length
        subquantizers := nominal vector.length s } := by
  have hdim : 0 < vector.length := List.length_pos_iff.mpr h
  have hempty : ¬vector.isEmpty = true := by simpa using h
  have hcodes := flatMap_range_blocks vector (encodeAt vector s) (blockLen_pos hdim s)
    (actual vector.length s)
  rw [List.take_of_length_le (le_actual_mul hdim s)] at hcodes
  unfold fromF32
  rw [if_neg hempty]
  change (blocks vector.length (nominal vector.length s)).foldl
    (pushBlock vector (blockLen vector.length s)) _ = _
  rw [blocks_eq hdim, foldl_pushBlock]
  simp only [block_eq, List.nil_append]
  rw [← hcodes]
  rfl

end

/-! ## What the decoder reads -/

/-- The inner loop, where there is a code for every round. -/
theorem decodeBlock_eq {codes : List UInt8} (pre cs post : List UInt8)
    (hcodes : codes = pre ++ cs ++ post) (blockMin range : K) (values : List K) :
    decodeBlock codes blockMin range cs.length (values, pre.length) =
      .ok (values ++ cs.map (decode blockMin range), pre.length + cs.length) := by
  induction cs generalizing pre values with
  | nil => simp [decodeBlock]
  | cons code cs ih =>
      have hhere : codes[pre.length]? = some code := by
        rw [hcodes]
        simp
      have hsplit : codes = (pre ++ [code]) ++ cs ++ post := by
        rw [hcodes]
        simp
      have hrest := ih (pre ++ [code]) hsplit (values ++ [decode blockMin range code])
      rw [List.length_append, List.length_singleton] at hrest
      rw [List.length_cons, decodeBlock, hhere]
      refine hrest.trans ?_
      rw [List.map_cons, List.append_assoc, List.singleton_append]
      exact congrArg (fun n => Except.ok (_, n)) (by omega)

omit [Single K] in
theorem at_map_range (g : Nat → K) {n b : Nat} (hb : b < n) :
    at' ((List.range n).map g) b = .ok (g b) := by
  unfold at'
  rw [List.getElem?_map, List.getElem?_range hb]
  rfl

/-- The outer loop, over blocks whose codes lie one behind the other. -/
theorem foldlM_decodeNext (pq : ProductQuantizedVector K) {lo hi : Nat → K}
    {codesOf : Nat → List UInt8} (bs : List Nat)
    (hlo : ∀ b ∈ bs, at' pq.blockMins b = .ok (lo b))
    (hhi : ∀ b ∈ bs, at' pq.blockMaxs b = .ok (hi b))
    (hcount : ∀ b ∈ bs,
      Nat.min (b * divCeil pq.dim pq.subquantizers + divCeil pq.dim pq.subquantizers) pq.dim -
        b * divCeil pq.dim pq.subquantizers = (codesOf b).length)
    (pre post : List UInt8) (hcodes : pq.codes = pre ++ bs.flatMap codesOf ++ post)
    (values : List K) :
    bs.foldlM (decodeNext pq) (values, pre.length) =
      .ok (values ++ bs.flatMap fun b => (codesOf b).map (decode (lo b) (blockRange (lo b) (hi b))),
        pre.length + (bs.flatMap codesOf).length) := by
  induction bs generalizing pre values with
  | nil => simp [pure, Except.pure]
  | cons b bs ih =>
      have hnext : decodeNext pq (values, pre.length) b =
          .ok (values ++ (codesOf b).map (decode (lo b) (blockRange (lo b) (hi b))),
            pre.length + (codesOf b).length) := by
        unfold decodeNext
        rw [hlo b (by simp), hhi b (by simp)]
        change decodeBlock _ _ _ _ _ = _
        rw [hcount b (by simp)]
        refine decodeBlock_eq pre (codesOf b) (bs.flatMap codesOf ++ post) ?_ _ _ _
        rw [hcodes]
        simp
      have hrest := ih (fun b hb => hlo b (by simp [hb])) (fun b hb => hhi b (by simp [hb]))
        (fun b hb => hcount b (by simp [hb])) (pre ++ codesOf b) (by rw [hcodes]; simp)
        (values ++ (codesOf b).map (decode (lo b) (blockRange (lo b) (hi b))))
      rw [List.length_append] at hrest
      rw [List.foldlM_cons, hnext]
      refine hrest.trans ?_
      simp only [List.flatMap_cons, List.append_assoc, List.length_append, Nat.add_assoc]

/-- The whole loop, on what the encoder writes. -/
theorem foldlM_fromF32 (vector : List K) (s : Nat) (h : vector ≠ []) :
    ((List.range (actual vector.length s)).foldlM (decodeNext (fromF32 vector s)) ([], 0)) =
      .ok (vector.mapIdx (fun i v => decodeAt vector s (i / blockLen vector.length s)
        (encodeAt vector s (i / blockLen vector.length s) v)), vector.length) := by
  have hdim : 0 < vector.length := List.length_pos_iff.mpr h
  have hlen := blockLen_pos hdim s
  have hcover := List.take_of_length_le (le_actual_mul hdim s)
  have hpq := fromF32_eq vector s h
  have hcodes := flatMap_range_blocks vector (encodeAt vector s) hlen (actual vector.length s)
  have hvalues := flatMap_range_blocks vector
    (fun b v => decodeAt vector s b (encodeAt vector s b v)) hlen (actual vector.length s)
  rw [hcover] at hcodes hvalues
  have hmin : ∀ b ∈ List.range (actual vector.length s),
      at' (fromF32 vector s).blockMins b = .ok (boundsAt vector s b).1 := by
    intro b hb
    rw [hpq]
    exact at_map_range _ (List.mem_range.mp hb)
  have hmax : ∀ b ∈ List.range (actual vector.length s),
      at' (fromF32 vector s).blockMaxs b = .ok (boundsAt vector s b).2 := by
    intro b hb
    rw [hpq]
    exact at_map_range _ (List.mem_range.mp hb)
  have hcount : ∀ b ∈ List.range (actual vector.length s),
      Nat.min (b * blockLen vector.length s + blockLen vector.length s) vector.length -
        b * blockLen vector.length s =
      (((vector.drop (b * blockLen vector.length s)).take (blockLen vector.length s)).map
        (encodeAt vector s b)).length := by
    intro b _
    rw [List.length_map, List.length_take, List.length_drop]
    simp only [Nat.min_def]
    split <;> split <;> omega
  have hflat : (fromF32 vector s).codes = [] ++ (List.range (actual vector.length s)).flatMap
      (fun b => ((vector.drop (b * blockLen vector.length s)).take
        (blockLen vector.length s)).map (encodeAt vector s b)) ++ [] := by
    rw [hpq, hcodes]
    simp
  have hdiv : divCeil (fromF32 vector s).dim (fromF32 vector s).subquantizers =
      blockLen vector.length s := by
    rw [hpq]
    rfl
  have hdimension : (fromF32 vector s).dim = vector.length := by rw [hpq]
  have hloop := foldlM_decodeNext (fromF32 vector s) _ hmin hmax
    (fun b hb => by rw [hdiv, hdimension]; exact hcount b hb) [] [] hflat []
  rw [List.length_nil, hcodes, List.length_mapIdx] at hloop
  refine hloop.trans ?_
  simp only [List.nil_append, List.map_map, Nat.zero_add]
  rw [← hvalues]
  rfl

/-- A vector is decoded component by component, each with the range of its block, when all the
blocks that were asked for are there. Otherwise the decoder refuses. -/
theorem tryToF32_fromF32 (vector : List K) (s : Nat) (h : vector ≠ []) :
    (fromF32 vector s).tryToF32 =
      if (nominal vector.length s - 1) * blockLen vector.length s < vector.length then
        .ok (vector.mapIdx fun i v => decodeAt vector s (i / blockLen vector.length s)
          (encodeAt vector s (i / blockLen vector.length s) v))
      else .error (corrupted "PQ vector block metadata is shorter than subquantizer count") := by
  have hdim : 0 < vector.length := List.length_pos_iff.mpr h
  have hpos := nominal_pos hdim s
  have hheld := nominal_le_actual_iff hdim s
  have hpq := fromF32_eq vector s h
  have hsome : ¬((fromF32 vector s).codes.isEmpty ∨ (fromF32 vector s).subquantizers = 0) := by
    rw [hpq]
    simp only [List.isEmpty_iff, List.mapIdx_eq_nil_iff, h, false_or]
    omega
  have hdimension : (fromF32 vector s).dim = vector.length := by rw [hpq]
  have hblocks : blocks (fromF32 vector s).dim (fromF32 vector s).subquantizers =
      List.range (actual vector.length s) := by
    rw [hpq]
    exact blocks_eq hdim s
  have hshort : ((fromF32 vector s).blockMins.length < (fromF32 vector s).subquantizers ∨
      (fromF32 vector s).blockMaxs.length < (fromF32 vector s).subquantizers) ↔
      ¬(nominal vector.length s - 1) * blockLen vector.length s < vector.length := by
    rw [hpq, ← hheld]
    simp
  unfold tryToF32
  rw [if_neg hsome]
  by_cases hall : (nominal vector.length s - 1) * blockLen vector.length s < vector.length
  · rw [if_pos hall, if_neg (fun hmany => hshort.mp hmany hall), hblocks, foldlM_fromF32 vector s h,
      hdimension]
    exact if_neg (by simp)
  · rw [if_neg hall, if_pos (hshort.mpr hall)]

end

/-- A vector is decoded to as many components when the last block that was asked for begins
inside it, and only then. -/
theorem decodes_iff {K : Type} [Single K] (vector : List K) (s : Nat) (cfg : QuantizationConfig)
    (h : vector ≠ []) (hcfg : cfg.level = .pq s) :
    ((∃ values, (fromF32 vector s).tryToF32 = .ok values ∧ values.length = vector.length) ↔
      (nominal vector.length s - 1) * blockLen vector.length s < vector.length) ∧
    ((∃ qv values, QuantizedVector.fromF32WithConfig vector cfg = .ok qv ∧
        qv.tryToF32 = .ok values ∧ values.length = vector.length) ↔
      (nominal vector.length s - 1) * blockLen vector.length s < vector.length) := by
  have hdecode : (∃ values, (fromF32 vector s).tryToF32 = .ok values ∧
      values.length = vector.length) ↔
      (nominal vector.length s - 1) * blockLen vector.length s < vector.length := by
    rw [tryToF32_fromF32 vector s h]
    constructor
    · rintro ⟨values, hvalues, _⟩
      by_contra hshort
      rw [if_neg hshort] at hvalues
      cases hvalues
    · intro hall
      rw [if_pos hall]
      exact ⟨_, rfl, List.length_mapIdx⟩
  have hconfig : QuantizedVector.fromF32WithConfig vector cfg =
      .ok (QuantizedVector.fromPq vector s) := by
    simp only [QuantizedVector.fromF32WithConfig, hcfg]
  refine ⟨hdecode, ?_⟩
  rw [← hdecode, hconfig]
  constructor
  · rintro ⟨_, values, hqv, hvalues, hlength⟩
    cases hqv
    exact ⟨values, hvalues, hlength⟩
  · rintro ⟨values, hvalues, hlength⟩
    exact ⟨_, values, rfl, hvalues, hlength⟩

/-! Five components in four blocks of two, and in two blocks of three. -/

def fiveZeros : List Exact := List.replicate 5 (.finite 0)

theorem five_in_four_not_decoded :
    fiveZeros ≠ [] ∧ (∀ x ∈ fiveZeros, ∃ q, x = .finite q) ∧
      (fromF32 fiveZeros 4).tryToF32 =
        .error (corrupted "PQ vector block metadata is shorter than subquantizer count") ∧
      ¬∃ values, (fromF32 fiveZeros 4).tryToF32 = .ok values ∧ values.length = fiveZeros.length := by
  have hrefused : (fromF32 fiveZeros 4).tryToF32 =
      .error (corrupted "PQ vector block metadata is shorter than subquantizer count") := by
    rw [tryToF32_fromF32 fiveZeros 4 (List.cons_ne_nil _ _), if_neg (by decide)]
  refine ⟨List.cons_ne_nil _ _, fun x hx => ⟨0, List.eq_of_mem_replicate hx⟩, hrefused, ?_⟩
  rintro ⟨values, hvalues, _⟩
  rw [hrefused] at hvalues
  cases hvalues

def twoBlocks : QuantizationConfig := ⟨.pq 2, .index, false, true, false, false⟩

theorem five_in_two_decoded :
    (∃ values, (fromF32 fiveZeros 2).tryToF32 = .ok values ∧ values.length = fiveZeros.length) ∧
      ∃ qv values, QuantizedVector.fromF32WithConfig fiveZeros twoBlocks = .ok qv ∧
        qv.tryToF32 = .ok values ∧ values.length = fiveZeros.length := by
  have hiff := decodes_iff fiveZeros 2 twoBlocks (by simp [fiveZeros]) rfl
  exact ⟨hiff.1.mpr (by decide), hiff.2.mpr (by decide)⟩

end ProductQuantizedVector
