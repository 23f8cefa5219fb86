-- SUMMARY: How far a decoded vector is from the one that was quantized, in exact arithmetic.
import Mathlib.Order.Bounds.Basic
import Mathlib.Tactic.FieldSimp
import Mathlib.Tactic.Ring
import Piramid.Quantization.Layout

/-!
# Precision

A component is mapped onto a scale of codes, rounded to the nearest code and mapped
back. Rounding moves it by half a code at most, so the error is half the width of a
code.
-/

open Exact

/-! ## Least and greatest values -/

/-- A fold that begins at a number finds the least of it and the list. -/
theorem foldl_min_finite (a : ℚ) (qs : List ℚ) :
    ∃ lo, (qs.map Exact.finite).foldl Single.min (.finite a) = .finite lo ∧
      IsLeast {q | q ∈ a :: qs} lo := by
  induction qs generalizing a with
  | nil => exact ⟨a, rfl, by simp, by simp⟩
  | cons q qs ih =>
      obtain ⟨lo, hfold, hmem, hle⟩ := ih (min a q)
      have hmin : lo ≤ min a q := hle (by simp)
      refine ⟨lo, ?_, ?_, ?_⟩
      · rw [List.map_cons, List.foldl_cons, min_finite]
        exact hfold
      · cases List.mem_cons.mp hmem with
        | inl heq =>
            cases min_choice a q with
            | inl ha => simp [heq, ha]
            | inr hq => simp [heq, hq]
        | inr hin => simp [hin]
      · intro x hx
        simp only [Set.mem_ofPred_eq, List.mem_cons] at hx
        obtain rfl | rfl | hx := hx
        · exact hmin.trans (min_le_left _ _)
        · exact hmin.trans (min_le_right _ _)
        · exact hle (by simp [hx])

theorem foldl_max_finite (a : ℚ) (qs : List ℚ) :
    ∃ hi, (qs.map Exact.finite).foldl Single.max (.finite a) = .finite hi ∧
      IsGreatest {q | q ∈ a :: qs} hi := by
  induction qs generalizing a with
  | nil => exact ⟨a, rfl, by simp, by simp⟩
  | cons q qs ih =>
      obtain ⟨hi, hfold, hmem, hge⟩ := ih (max a q)
      have hmax : max a q ≤ hi := hge (by simp)
      refine ⟨hi, ?_, ?_, ?_⟩
      · rw [List.map_cons, List.foldl_cons, max_finite]
        exact hfold
      · cases List.mem_cons.mp hmem with
        | inl heq =>
            cases max_choice a q with
            | inl ha => simp [heq, ha]
            | inr hq => simp [heq, hq]
        | inr hin => simp [hin]
      · intro x hx
        simp only [Set.mem_ofPred_eq, List.mem_cons] at hx
        obtain rfl | rfl | hx := hx
        · exact (le_max_left _ _).trans hmax
        · exact (le_max_right _ _).trans hmax
        · exact hge (by simp [hx])

variable {qs : List ℚ} {lo hi : ℚ}

theorem foldl_min_eq (hlo : IsLeast {q | q ∈ qs} lo) :
    (qs.map Exact.finite).foldl Single.min Single.infinity = .finite lo := by
  cases qs with
  | nil => cases hlo.1
  | cons q qs =>
      obtain ⟨lo', hfold, hleast⟩ := foldl_min_finite q qs
      rw [List.map_cons, List.foldl_cons, min_infinity, hfold, hleast.unique hlo]

theorem foldl_max_eq (hhi : IsGreatest {q | q ∈ qs} hi) :
    (qs.map Exact.finite).foldl Single.max Single.negInfinity = .finite hi := by
  cases qs with
  | nil => cases hhi.1
  | cons q qs =>
      obtain ⟨hi', hfold, hgreatest⟩ := foldl_max_finite q qs
      rw [List.map_cons, List.foldl_cons, max_negInfinity, hfold, hgreatest.unique hhi]

/-! ## One component -/

/-- Rounding `x` on a scale with `n` codes for the width `range` costs half a code. -/
theorem rescaled_error {x range n : ℚ} {i : ℤ} (hrange : 0 < range) (hn : 0 < n) (offset : ℚ)
    (hround : |(i : ℚ) - (x / range * n - offset)| ≤ 1 / 2) :
    |((i : ℚ) + offset) / n * range - x| ≤ range / (2 * n) := by
  have hfactor : ((i : ℚ) + offset) / n * range - x =
      ((i : ℚ) - (x / range * n - offset)) * (range / n) := by
    field_simp
    ring
  have hscale : 0 < range / n := div_pos hrange hn
  rw [hfactor, abs_mul, abs_of_pos hscale]
  calc |(i : ℚ) - (x / range * n - offset)| * (range / n)
    _ ≤ 1 / 2 * (range / n) := mul_le_mul_of_nonneg_right hround hscale.le
    _ = range / (2 * n) := by field_simp

namespace ScalarQuantizedVector

/-- The code of a component between the ends of the range, and what it is decoded to. -/
theorem dequantize_quantize {lo range v : ℚ} (hrange : 0 < range) (hlo : lo ≤ v)
    (hhi : v ≤ lo + range) :
    ∃ d, dequantize (Exact.finite lo) (Exact.finite range)
        (quantize (Exact.finite lo) (Exact.finite range) (Exact.finite v)) = .finite d ∧
      |d - v| ≤ range / 508 ∧ lo ≤ d ∧ d ≤ lo + range := by
  have hzero : 0 ≤ (v - lo) / range := div_nonneg (by linarith) hrange.le
  have hone : (v - lo) / range ≤ 1 := (div_le_one hrange).mpr (by linarith)
  -- the code, before it is a byte
  generalize hi : roundHalfAway ((v - lo) / range * 254 - 127) = i
  have hcode : -127 ≤ i ∧ i ≤ 127 := by
    rw [← hi]
    exact roundHalfAway_mem (-127) 127 (by push_cast; linarith) (by push_cast; linarith)
  have hlow : (((-127 : ℤ) : ℚ)) ≤ i := by exact_mod_cast hcode.1
  have hhigh : (i : ℚ) ≤ ((127 : ℤ) : ℚ) := by exact_mod_cast hcode.2
  have hquantize : (quantize (Exact.finite lo) (Exact.finite range) (Exact.finite v)).toInt = i := by
    unfold quantize
    simp only [sub_finite, div_finite _ hrange.ne', ofInt_eq, mul_finite, round_finite]
    push_cast at hlow hhigh ⊢
    rw [hi, clamp_finite hlow hhigh, toInt_toI8 hcode.1 hcode.2]
  have hdequantize : dequantize (Exact.finite lo) (Exact.finite range)
      (quantize (Exact.finite lo) (Exact.finite range) (Exact.finite v)) =
      .finite ((i + 127) / 254 * range + lo) := by
    unfold dequantize
    have hscale : (254 : ℚ) ≠ 0 := by norm_num
    simp only [hquantize, ofInt_eq, add_finite]
    push_cast
    rw [div_finite _ hscale]
    simp only [mul_finite, add_finite]
  push_cast at hlow hhigh
  have hnear := abs_roundHalfAway_sub_le ((v - lo) / range * 254 - 127)
  rw [hi] at hnear
  have herror := rescaled_error hrange (by norm_num : (0 : ℚ) < 254) 127 hnear
  have hfraction : 0 ≤ ((i : ℚ) + 127) / 254 := by
    refine div_nonneg ?_ (by norm_num)
    linarith
  have hfraction' : ((i : ℚ) + 127) / 254 ≤ 1 := by
    refine (div_le_one (by norm_num)).mpr ?_
    linarith
  refine ⟨_, hdequantize, ?_, ?_, ?_⟩
  · have hshift : ((i : ℚ) + 127) / 254 * range + lo - v =
        ((i : ℚ) + 127) / 254 * range - (v - lo) := by ring
    rw [hshift]
    refine herror.trans (le_of_eq ?_)
    ring
  · have hpos := mul_nonneg hfraction hrange.le
    linarith
  · have hle := mul_le_mul_of_nonneg_right hfraction' hrange.le
    linarith

end ScalarQuantizedVector

namespace ProductQuantizedVector

theorem decode_encode {lo range v : ℚ} (hrange : 0 < range) (hlo : lo ≤ v)
    (hhi : v ≤ lo + range) :
    ∃ d, decode (Exact.finite lo) (Exact.finite range)
        (encode (Exact.finite lo) (Exact.finite range) (Exact.finite v)) = .finite d ∧
      |d - v| ≤ range / 510 := by
  have hzero : 0 ≤ (v - lo) / range := div_nonneg (by linarith) hrange.le
  have hone : (v - lo) / range ≤ 1 := (div_le_one hrange).mpr (by linarith)
  generalize hi : roundHalfAway ((v - lo) / range * 255) = i
  have hcode : 0 ≤ i ∧ i ≤ 255 := by
    rw [← hi]
    exact roundHalfAway_mem 0 255 (by push_cast; linarith) (by push_cast; linarith)
  have hlow : (((0 : ℤ) : ℚ)) ≤ i := by exact_mod_cast hcode.1
  have hhigh : (i : ℚ) ≤ ((255 : ℤ) : ℚ) := by exact_mod_cast hcode.2
  have hencode :
      ((encode (Exact.finite lo) (Exact.finite range) (Exact.finite v)).toNat : ℤ) = i := by
    unfold encode
    simp only [sub_finite, div_finite _ hrange.ne', ofInt_eq, mul_finite, round_finite]
    push_cast at hlow hhigh ⊢
    rw [hi, clamp_finite hlow hhigh, toNat_toU8 hcode.1 hcode.2]
  have hdecode : decode (Exact.finite lo) (Exact.finite range)
      (encode (Exact.finite lo) (Exact.finite range) (Exact.finite v)) =
      .finite (i / 255 * range + lo) := by
    unfold decode
    have hscale : (255 : ℚ) ≠ 0 := by norm_num
    simp only [hencode, ofInt_eq]
    push_cast
    rw [div_finite _ hscale]
    simp only [mul_finite, add_finite]
  have hnear := abs_roundHalfAway_sub_le ((v - lo) / range * 255)
  rw [hi] at hnear
  have herror := rescaled_error hrange (by norm_num : (0 : ℚ) < 255) 0 (by rwa [sub_zero])
  rw [add_zero] at herror
  refine ⟨_, hdecode, ?_⟩
  have hshift : (i : ℚ) / 255 * range + lo - v = (i : ℚ) / 255 * range - (v - lo) := by ring
  rw [hshift]
  refine herror.trans (le_of_eq ?_)
  ring

end ProductQuantizedVector

/-! ## Whole vectors -/

/-- The rational number, where there is one. -/
def Exact.value : Exact → ℚ
  | .finite q => q
  | _ => 0

/-- A map whose values are all rational. -/
theorem mapIdx_finite {f : ℕ → ℚ → Exact} {P : ℕ → ℚ → ℚ → Prop}
    (h : ∀ i q, qs[i]? = some q → ∃ d, f i q = .finite d ∧ P i q d) :
    ∃ ds : List ℚ, qs.mapIdx f = ds.map .finite ∧ ds.length = qs.length ∧
      ∀ (i : ℕ) (q d : ℚ), qs[i]? = some q → ds[i]? = some d → P i q d := by
  refine ⟨qs.mapIdx fun i q => (f i q).value, ?_, List.length_mapIdx, ?_⟩
  · refine List.ext_getElem? fun i => ?_
    rw [List.getElem?_map, List.getElem?_mapIdx, List.getElem?_mapIdx, Option.map_map]
    cases hq : qs[i]? with
    | none => rfl
    | some q =>
        obtain ⟨d, hd, _⟩ := h i q hq
        simp [hd, value]
  · intro i q d hq hd
    obtain ⟨d', hd', hP⟩ := h i q hq
    rw [List.getElem?_mapIdx, hq, Option.map_some, Option.some.injEq, hd'] at hd
    rw [← hd]
    exact hP

/-- A list that is not empty has a least and a greatest value. -/
theorem exists_bounds (h : qs ≠ []) :
    ∃ lo hi, IsLeast {q | q ∈ qs} lo ∧ IsGreatest {q | q ∈ qs} hi := by
  cases qs with
  | nil => exact (h rfl).elim
  | cons q qs =>
      obtain ⟨lo, _, hlo⟩ := foldl_min_finite q qs
      obtain ⟨hi, _, hhi⟩ := foldl_max_finite q qs
      exact ⟨lo, hi, hlo, hhi⟩

namespace ScalarQuantizedVector

/-- How far a component may be off: half a code, or less than what counts as no range. -/
structure Near (lo hi q d : ℚ) : Prop where
  lower : lo ≤ d
  upper : d ≤ hi
  wide : ε ≤ hi - lo → |d - q| ≤ (hi - lo) / 508
  narrow : hi - lo < ε → |d - q| < ε

theorem toF32_fromF32 (hlo : IsLeast {q | q ∈ qs} lo) (hhi : IsGreatest {q | q ∈ qs} hi) :
    ∃ ds : List ℚ, (fromF32 (qs.map Exact.finite)).toF32 = ds.map .finite ∧
      ds.length = qs.length ∧
      ∀ (i : ℕ) (q d : ℚ), qs[i]? = some q → ds[i]? = some d → Near lo hi q d := by
  have hle : lo ≤ hi := hlo.2 hhi.1
  have hnil : qs ≠ [] := List.ne_nil_of_mem hlo.1
  have hmem : ∀ (i : ℕ) q, qs[i]? = some q → lo ≤ q ∧ q ≤ hi := fun i q hq =>
    ⟨hlo.2 (List.mem_of_getElem? hq), hhi.2 (List.mem_of_getElem? hq)⟩
  have hempty : ¬(qs.map Exact.finite).isEmpty = true := by simpa using hnil
  by_cases hnarrow : hi - lo < ε
  · have htest : Single.lt (Single.abs (Single.sub (Exact.finite hi) (Exact.finite lo)))
        (Single.epsilon : Exact) = true := by
      simpa [abs_of_nonneg (sub_nonneg.mpr hle)] using hnarrow
    have hfrom : fromF32 (qs.map Exact.finite) =
        ⟨List.replicate qs.length 0, .finite lo, .finite hi⟩ := by
      unfold fromF32
      rw [if_neg hempty]
      simp only [foldl_min_eq hlo, foldl_max_eq hhi]
      rw [if_pos htest, List.length_map]
    refine ⟨List.replicate qs.length lo, ?_, by simp, fun i q d hq hd => ?_⟩
    · rw [hfrom, toF32]
      simp only [htest, if_true, List.length_replicate, List.map_replicate]
      rw [if_neg (by simpa using hnil)]
    · obtain ⟨hqlo, hqhi⟩ := hmem i q hq
      obtain ⟨_, rfl⟩ := List.mem_replicate.mp (List.mem_of_getElem? hd)
      refine ⟨le_rfl, hle, fun hwide => absurd hnarrow (not_lt.mpr hwide), fun _ => ?_⟩
      rw [abs_sub_comm, abs_of_nonneg (sub_nonneg.mpr hqlo)]
      linarith
  · have hrange : 0 < hi - lo := ε_pos.trans_le (not_lt.mp hnarrow)
    have htest : Single.lt (Single.abs (Single.sub (Exact.finite hi) (Exact.finite lo)))
        (Single.epsilon : Exact) = false := by
      simpa [abs_of_nonneg (sub_nonneg.mpr hle)] using hnarrow
    have hfrom : fromF32 (qs.map Exact.finite) =
        ⟨qs.map fun q => quantize (Exact.finite lo) (.finite (hi - lo)) (.finite q),
          .finite lo, .finite hi⟩ := by
      unfold fromF32
      rw [if_neg hempty]
      simp only [foldl_min_eq hlo, foldl_max_eq hhi]
      rw [if_neg (by rw [htest]; exact Bool.false_ne_true), sub_finite, List.map_map]
      rfl
    have hto : (fromF32 (qs.map Exact.finite)).toF32 = qs.mapIdx fun _ q =>
        dequantize (Exact.finite lo) (Exact.finite (hi - lo))
          (quantize (Exact.finite lo) (.finite (hi - lo)) (.finite q)) := by
      rw [hfrom, toF32, if_neg (by simpa using hnil),
        if_neg (by rw [htest]; exact Bool.false_ne_true)]
      refine List.ext_getElem? fun i => ?_
      simp only [List.getElem?_map, List.getElem?_mapIdx, sub_finite]
      cases qs[i]? with
      | none => rfl
      | some q => rfl
    rw [hto]
    refine mapIdx_finite fun i q hq => ?_
    obtain ⟨hqlo, hqhi⟩ := hmem i q hq
    obtain ⟨d, hd, herror, hlower, hupper⟩ :=
      dequantize_quantize hrange hqlo (by linarith)
    exact ⟨d, hd, hlower, by linarith, fun _ => herror, fun h => absurd h hnarrow⟩

end ScalarQuantizedVector

namespace ProductQuantizedVector

theorem foldl_widen (slice : List Exact) (bounds : Exact × Exact) :
    slice.foldl widen bounds =
      (slice.foldl Single.min bounds.1, slice.foldl Single.max bounds.2) := by
  induction slice generalizing bounds with
  | nil => rfl
  | cons v slice ih => exact ih _

theorem blockBounds_eq (hlo : IsLeast {q | q ∈ qs} lo) (hhi : IsGreatest {q | q ∈ qs} hi) :
    blockBounds (qs.map Exact.finite) = (.finite lo, .finite hi) := by
  rw [blockBounds, foldl_widen, foldl_min_eq hlo, foldl_max_eq hhi]

theorem block_map (qs : List ℚ) (len b : ℕ) :
    block (qs.map Exact.finite) len b = (block qs len b).map .finite := by
  rw [block_eq, block_eq, List.map_take, List.map_drop]

/-- A component lies in its block. -/
theorem mem_block {i : ℕ} {q : ℚ} (hq : qs[i]? = some q) {len : ℕ} (hlen : 0 < len) :
    q ∈ block qs len (i / len) := by
  have hsplit : i / len * len + i % len = i := Nat.div_add_mod' i len
  rw [block_eq]
  refine List.mem_of_getElem? (i := i % len) ?_
  rw [List.getElem?_take_of_lt (Nat.mod_lt i hlen), List.getElem?_drop, hsplit]
  exact hq

/-- Every component is off by half a code of its block at most. -/
theorem tryToF32_near {s : ℕ} {values : List Exact} (h : qs ≠ [])
    (hvalues : (fromF32 (qs.map Exact.finite) s).tryToF32 = .ok values) :
    ∃ ds : List ℚ, values = ds.map .finite ∧ ds.length = qs.length ∧
      ∀ (i : ℕ) (q d : ℚ), qs[i]? = some q → ds[i]? = some d → ∀ blockMin blockMax,
        IsLeast {x | x ∈ block qs (blockLen qs.length s) (i / blockLen qs.length s)} blockMin →
        IsGreatest {x | x ∈ block qs (blockLen qs.length s) (i / blockLen qs.length s)} blockMax →
        |d - q| ≤ max (blockMax - blockMin) ε / 510 := by
  have hdim : 0 < qs.length := List.length_pos_iff.mpr h
  have hlen := blockLen_pos hdim s
  have hmap : qs.map Exact.finite ≠ [] := by simpa using h
  rw [tryToF32_fromF32 _ s hmap] at hvalues
  split at hvalues
  swap
  · cases hvalues
  have hback : values = qs.mapIdx fun i q =>
      decodeAt (qs.map Exact.finite) s (i / blockLen qs.length s)
        (encodeAt (qs.map Exact.finite) s (i / blockLen qs.length s) (.finite q)) := by
    cases hvalues
    refine List.ext_getElem? fun i => ?_
    rw [List.getElem?_mapIdx, List.getElem?_mapIdx, List.getElem?_map, List.length_map]
    cases qs[i]? with
    | none => rfl
    | some q => rfl
  rw [hback]
  refine mapIdx_finite fun i q hq => ?_
  have hin := mem_block hq hlen
  obtain ⟨lo, hi, hlo, hhi⟩ := exists_bounds (List.ne_nil_of_mem hin)
  have hqlo : lo ≤ q := hlo.2 hin
  have hqhi : q ≤ hi := hhi.2 hin
  have hbounds : boundsAt (qs.map Exact.finite) s (i / blockLen qs.length s) =
      (.finite lo, .finite hi) := by
    rw [boundsAt, List.length_map, block_map, blockBounds_eq hlo hhi]
  have hwidth : rangeAt (qs.map Exact.finite) s (i / blockLen qs.length s) =
      .finite (max (hi - lo) ε) := by
    rw [rangeAt, hbounds, blockRange, sub_finite, epsilon_eq, max_finite]
  have hrange : 0 < max (hi - lo) ε := ε_pos.trans_le (le_max_right _ _)
  have hupper : q ≤ lo + max (hi - lo) ε := by
    have hmax := le_max_left (hi - lo) ε
    linarith
  obtain ⟨d, hd, herror⟩ := decode_encode hrange hqlo hupper
  refine ⟨d, ?_, fun blockMin blockMax hmin hmax => ?_⟩
  · rw [decodeAt, encodeAt, hbounds, hwidth]
    exact hd
  · rw [hmin.unique hlo, hmax.unique hhi]
    exact herror

end ProductQuantizedVector

/-- In exact arithmetic both codes keep every component of every vector near: the scalar one
within half a code of the whole range and inside it, the block-wise one, where it decodes,
within half a code of the block. -/
theorem quantization_error_bounded (qs : List ℚ) (h : qs ≠ []) :
    (∀ lo hi, IsLeast {q | q ∈ qs} lo → IsGreatest {q | q ∈ qs} hi →
      ∃ ds : List ℚ,
        (ScalarQuantizedVector.fromF32 (qs.map Exact.finite)).toF32 = ds.map .finite ∧
        ds.length = qs.length ∧
        ∀ (i : ℕ) (q d : ℚ), qs[i]? = some q → ds[i]? = some d →
          ScalarQuantizedVector.Near lo hi q d) ∧
    ∀ s values, (ProductQuantizedVector.fromF32 (qs.map Exact.finite) s).tryToF32 = .ok values →
      ∃ ds : List ℚ, values = ds.map .finite ∧ ds.length = qs.length ∧
        ∀ (i : ℕ) (q d : ℚ), qs[i]? = some q → ds[i]? = some d → ∀ blockMin blockMax,
          IsLeast {x | x ∈ ProductQuantizedVector.block qs
            (ProductQuantizedVector.blockLen qs.length s)
            (i / ProductQuantizedVector.blockLen qs.length s)} blockMin →
          IsGreatest {x | x ∈ ProductQuantizedVector.block qs
            (ProductQuantizedVector.blockLen qs.length s)
            (i / ProductQuantizedVector.blockLen qs.length s)} blockMax →
          |d - q| ≤ max (blockMax - blockMin) ε / 510 :=
  ⟨fun _ _ hlo hhi => ScalarQuantizedVector.toF32_fromF32 hlo hhi,
    fun _ _ hvalues => ProductQuantizedVector.tryToF32_near h hvalues⟩

/-- Two blocks of three components. -/
def steps : List ℚ := [0, 1 / 4, 1, 2, 9 / 4, 3]

/-- A quarter is between two codes, on the scale of the whole range and on that of a block. -/
theorem steps_near :
    (∃ ds : List ℚ, (ScalarQuantizedVector.fromF32 (steps.map Exact.finite)).toF32 = ds.map .finite ∧
      ds[1]? = some (63 / 254) ∧
      ∀ (i : ℕ) (q d : ℚ), steps[i]? = some q → ds[i]? = some d → ScalarQuantizedVector.Near 0 3 q d) ∧
    ∃ ds : List ℚ,
      (ProductQuantizedVector.fromF32 (steps.map Exact.finite) 2).tryToF32 = .ok (ds.map .finite) ∧
        ds[4]? = some (574 / 255) ∧ |(574 / 255 : ℚ) - 9 / 4| ≤ max (3 - 2) ε / 510 := by
  have hfinite : Function.Injective (List.map Exact.finite) :=
    List.map_injective_iff.mpr fun _ _ h => Exact.finite.inj h
  obtain ⟨hscalar, hproduct⟩ := quantization_error_bounded steps (List.cons_ne_nil _ _)
  constructor
  · have hlo : IsLeast {q | q ∈ steps} 0 := ⟨by simp [steps], by norm_num [steps, mem_lowerBounds]⟩
    have hhi : IsGreatest {q | q ∈ steps} 3 := ⟨by simp [steps], by norm_num [steps, mem_upperBounds]⟩
    have hdecoded : (ScalarQuantizedVector.fromF32 (steps.map Exact.finite)).toF32 =
        [0, 63 / 254, 255 / 254, 507 / 254, 573 / 254, 3].map Exact.finite := by decide +kernel
    obtain ⟨ds, hds, -, hnear⟩ := hscalar 0 3 hlo hhi
    refine ⟨ds, hds, ?_, hnear⟩
    rw [← hfinite (hdecoded.symm.trans hds)]
    rfl
  · have hdecoded : (ProductQuantizedVector.fromF32 (steps.map Exact.finite) 2).tryToF32 =
        .ok ([0, 64 / 255, 1, 2, 574 / 255, 3].map Exact.finite) := by decide +kernel
    obtain ⟨ds, hds, -, hnear⟩ := hproduct 2 _ hdecoded
    refine ⟨ds, hds ▸ hdecoded, ?_, ?_⟩
    · rw [← hfinite hds]
      rfl
    · have hblock : ProductQuantizedVector.block steps (ProductQuantizedVector.blockLen steps.length 2)
          (4 / ProductQuantizedVector.blockLen steps.length 2) = [2, 9 / 4, 3] := by decide +kernel
      refine hnear 4 (9 / 4) (574 / 255) rfl (by rw [← hfinite hds]; rfl) 2 3 ?_ ?_
      · rw [hblock]
        exact ⟨by simp, by norm_num [mem_lowerBounds]⟩
      · rw [hblock]
        exact ⟨by simp, by norm_num [mem_upperBounds]⟩
