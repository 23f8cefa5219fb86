-- SUMMARY: An insertion into a graph ends for every draw but those that are zero or give more layers than can be allocated.
import Mathlib.Analysis.Complex.ExponentialBounds
import Mathlib.Analysis.SpecialFunctions.Log.ENNRealLog
import Piramid.Index.Layers

/-!
# Draws

The layer of a new node is `floor(-ln(r) * ml)` for a random number `r`, which may be zero.
Over the extended reals the layer is infinite then, and the cast of it saturates, so that
one more than the layer does not fit.
-/

open Loop
open scoped ENNReal

/-! ## Layers over the extended reals -/

/-- `x.floor() as usize`. -/
noncomputable def EReal.saturated (x : EReal) : Nat :=
  if x = ⊤ then 2 ^ 64 - 1 else min ⌊x.toReal⌋₊ (2 ^ 64 - 1)

/-- The layer for the draw `k / 2^24` and the factor `ml`. -/
noncomputable def drawnLayer (k : Nat) (ml : ℝ) : Nat :=
  EReal.saturated (-ENNReal.log ((k : ℝ≥0∞) / 2 ^ 24) * ml)

/-- The draw is not zero, and the lists of its layers can be allocated, at 24 bytes for
each list. -/
def Drawable (k : Nat) (ml : ℝ) : Prop :=
  0 < k ∧ -Real.log ((k : ℝ) / 2 ^ 24) * ml < 384307168202282325

variable {k : Nat} {ml : ℝ}

theorem drawnLayer_zero (hml : 0 < ml) : drawnLayer 0 ml = 2 ^ 64 - 1 := by
  unfold drawnLayer EReal.saturated
  rw [Nat.cast_zero, ENNReal.zero_div, ENNReal.log_zero, EReal.neg_bot, EReal.top_mul_coe_of_pos hml,
    if_pos rfl]

theorem drawnLayer_of_pos (hk : 0 < k) :
    drawnLayer k ml = min ⌊-Real.log ((k : ℝ) / 2 ^ 24) * ml⌋₊ (2 ^ 64 - 1) := by
  have hne : (k : ℝ≥0∞) / 2 ^ 24 ≠ 0 := by
    rw [Ne, ENNReal.div_eq_zero_iff, not_or]
    exact ⟨Nat.cast_ne_zero.mpr hk.ne', ENNReal.pow_ne_top ENNReal.ofNat_ne_top⟩
  have htop : (k : ℝ≥0∞) / 2 ^ 24 ≠ ⊤ :=
    ENNReal.div_ne_top (ENNReal.natCast_ne_top k) (pow_ne_zero _ two_ne_zero)
  have hreal : ((k : ℝ≥0∞) / 2 ^ 24).toReal = (k : ℝ) / 2 ^ 24 := by
    rw [ENNReal.toReal_div, ENNReal.toReal_natCast, ENNReal.toReal_pow, ENNReal.toReal_ofNat]
  have hlog : -ENNReal.log ((k : ℝ≥0∞) / 2 ^ 24) * ml =
      ((-Real.log ((k : ℝ) / 2 ^ 24) * ml : ℝ) : EReal) := by
    rw [ENNReal.log_pos_real hne htop, hreal, EReal.coe_mul, EReal.coe_neg]
  unfold drawnLayer EReal.saturated
  rw [hlog, if_neg (EReal.coe_ne_top _), EReal.toReal_coe]

/-- The lists of the layers can be allocated just for the draws above. -/
theorem allocatable_drawnLayer_iff (hml : 0 < ml) :
    Allocatable (drawnLayer k ml + 1) ↔ Drawable k ml := by
  unfold Allocatable Drawable
  cases Nat.eq_zero_or_pos k with
  | inl hk =>
      rw [hk, drawnLayer_zero hml]
      exact iff_of_false (by decide) fun h => lt_irrefl 0 h.1
  | inr hk =>
      have hfloor := Nat.floor_lt' (a := -Real.log ((k : ℝ) / 2 ^ 24) * ml)
        (show (384307168202282325 : Nat) ≠ 0 by decide)
      rw [drawnLayer_of_pos hk, and_iff_right hk]
      push_cast at hfloor
      rw [← hfloor]
      omega

/-! ## Insertions -/

namespace HnswIndex

section

variable [Floats] {ix ix' : HnswIndex} {id : Uuid} {vector : Vector32} {vectors : VectorReader} {r : F32}

/-- Nothing but a comparison, or a sort by what comparisons yield, can stop an insertion.
None does where all vectors have one length, the mode has kernels and the distances can be
sorted. The new node has its layers, and there is a highest one. -/
structure Completes (ix : HnswIndex) (id : Uuid) (vector : Vector32) (vectors : VectorReader) (r : F32) :
    Prop where
  ends : Faults (fun e => e ∈ Fault.comparisons ∨ e = .disorder) (ix.insertChecked id vector vectors r)
  returns : ix.config.mode.Implemented → vectors.Uniform vector.length →
    (ix.startNode.isSome → ix.SortsDistances vectors id vector) →
    ∃ ix', ix.insertChecked id vector vectors r = .ok ix'
  stored : ∀ ix', ix.insertChecked id vector vectors r = .ok ix' →
    (∃ node, ix'.nodes.lookup id = some node ∧ node.connections.length = ix.randomLayer r + 1) ∧
      0 ≤ ix'.maxLevel

theorem completes_of_allocatable (h : Allocatable (ix.randomLayer r + 1)) :
    ix.Completes id vector vectors r := by
  have hsame : ix.insertChecked id vector vectors r = ix.insert id vector vectors r :=
    insertChecked_of_allocatable h
  refine ⟨?_, fun hmode hv hsorts => ?_, fun ix' hret => ?_⟩
  · rw [hsame]
    exact ends_insert (fun a b => (comparisons_distance a b).mono fun _ => .inl) (.inr rfl) id vector r
  · have hinserted : Returns (Inserted id (ix.randomLayer r) ix) (ix.insert id vector vectors r) :=
      insert_returns hmode hv hsorts r
    obtain ⟨ix', hix', -⟩ := hinserted
    exact ⟨ix', hsame.trans hix'⟩
  · rw [hsame] at hret
    have hins := insert_inserted hret
    constructor
    · have hnode : id ∈ ix'.nodes.keys := by
        rw [hins.keys]
        exact Finset.mem_insert_self _ _
      obtain ⟨node, hnode⟩ := (HashMap.mem_keys_iff _ _).mp hnode
      have hlevels := levels_insert hret id
      rw [if_pos rfl, levels_of_lookup hnode] at hlevels
      exact ⟨node, hnode, hlevels⟩
    · rw [hins.maxLevel]
      split
      · exact Int.natCast_nonneg _
      · rename_i hbelow
        exact le_trans (Int.natCast_nonneg _) (not_lt.mp (not_or.mp hbelow).2)

/-- Otherwise the addition overflows, or the allocation is too large. -/
theorem not_completes_of_not_allocatable (h : ¬Allocatable (ix.randomLayer r + 1)) :
    ¬ix.Completes id vector vectors r := by
  intro hcompletes
  have hends := hcompletes.ends
  unfold insertChecked at hends
  split at hends
  · exact absurd (hends _ rfl) (by decide)
  · exact absurd (hends _ rfl) (by decide)

/-- Where the layer is that of the draw over the extended reals, an insertion completes
just for the draws whose layers can be allocated, whatever the graph is. -/
theorem completes_iff (hml : 0 < ml) (hlayer : ix.randomLayer r = drawnLayer k ml) :
    ix.Completes id vector vectors r ↔ Drawable k ml := by
  rw [← allocatable_drawnLayer_iff hml, ← hlayer]
  constructor
  · intro hcompletes
    by_contra hlarge
    exact not_completes_of_not_allocatable hlarge hcompletes
  · exact completes_of_allocatable

end

/-! ### The draw of zero -/

section

/-- The arithmetic with the logarithm of zero. -/
@[reducible] def logarithms : Floats :=
  { ieee with ln := fun x => if x = F32.zero then Reference.neg F32.infinity else Reference.floats.ln x }

attribute [local instance] logarithms

/-- The layer of the draw of zero is the largest number there is, and one more overflows. -/
theorem zero_does_not_complete :
    (HnswIndex.new dotConfig).randomLayer F32.zero = drawnLayer 0 1 ∧
      ¬(HnswIndex.new dotConfig).Completes 0 [F32.one] (.ones [0]) F32.zero := by
  have hlayer : (HnswIndex.new dotConfig).randomLayer F32.zero = 2 ^ 64 - 1 := by
    decide +kernel
  constructor
  · rw [hlayer, drawnLayer_zero one_pos]
  · intro hcompletes
    have hends := hcompletes.ends
    unfold insertChecked at hends
    rw [hlayer] at hends
    exact absurd (hends _ rfl) (by decide)

/-- The draw of a half gives the lowest layer. A third node is linked to the first of the two
there are. -/
theorem half_completes :
    ∃ ix, insertEach dotConfig [(0, [F32.one]), (1, [F32.one])] Reference.half = .ok ix ∧
      ix.startNode = some 0 ∧ ix.SortsDistances (.ones [0, 1, 2]) 2 [F32.one] ∧
      ix.Completes 2 [F32.one] (.ones [0, 1, 2]) Reference.half ∧
      ∃ ix', ix.insertChecked 2 [F32.one] (.ones [0, 1, 2]) Reference.half = .ok ix' ∧
        ix'.neighborsAt 2 0 = [0] := by
  have hlog : -Real.log (((2 ^ 23 : Nat) : ℝ) / 2 ^ 24) * 1 = Real.log 2 := by
    have hhalf : ((2 ^ 23 : Nat) : ℝ) / 2 ^ 24 = (2 : ℝ)⁻¹ := by norm_num
    rw [hhalf, Real.log_inv, neg_neg, mul_one]
  have hsmall : Real.log 2 < 1 := lt_trans Real.log_two_lt_d9 (by norm_num)
  have hrun : (insertEach dotConfig [(0, [F32.one]), (1, [F32.one])] Reference.half).toOption.map
      (fun ix => (ix.startNode, ix.randomLayer Reference.half,
        (ix.insertChecked 2 [F32.one] (.ones [0, 1, 2]) Reference.half).toOption.map
          fun ix' => ix'.neighborsAt 2 0)) = some (some 0, 0, some [0]) := by
    decide +kernel
  obtain ⟨ix, hix, hrun⟩ := ok_of_map hrun
  simp only [Prod.mk.injEq] at hrun
  obtain ⟨hstart, hlowest, hlinked⟩ := hrun
  obtain ⟨ix', hix', hlinked⟩ := ok_of_map hlinked
  have hgrown := (built_insertEach (by decide) hix).grown
  have hlayer : ix.randomLayer Reference.half = drawnLayer (2 ^ 23) 1 := by
    have hfloor : ⌊Real.log 2⌋₊ = 0 := Nat.floor_eq_zero.mpr hsmall
    rw [hlowest, drawnLayer_of_pos (by decide), hlog, hfloor]
    decide
  have hsorts : ix.SortsDistances (.ones [0, 1, 2]) 2 [F32.one] := by
    refine sortsDistances_of_few (by decide +kernel) fun n layer => ?_
    refine (hgrown.fitting.length_neighborsAt n layer).trans_lt ?_
    rw [hgrown.config]
    unfold HnswConfig.degree
    split
    · decide
    · decide
  refine ⟨ix, hix, hstart, hsorts, (completes_iff one_pos hlayer).mpr ⟨by decide, ?_⟩, ix', hix',
    hlinked⟩
  rw [hlog]
  exact lt_trans hsmall (by norm_num)

end

end HnswIndex
