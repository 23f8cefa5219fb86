-- SUMMARY: When the limits admit a record.
import Piramid.Collections.Stored

/-!
# Limits

The limits depend on how many documents there are and on where the next record
goes.
-/

/-- What `enforce_single` accepts: one more record of `bytes` bytes, at `cursor`,
with `count` documents. -/
structure LimitsConfig.Admits (limits : LimitsConfig) (count cursor bytes : Nat) : Prop where
  vectors : ∀ n, limits.maxVectors = some n → count < n
  total : ∀ n, limits.maxBytes = some n → cursor + bytes ≤ n
  entry : ∀ n, limits.maxVectorBytes = some n → bytes ≤ n

namespace LimitsConfig.Admits

variable {limits : LimitsConfig} {count count' cursor cursor' bytes : Nat}

theorem mono (h : limits.Admits count cursor bytes) (hcount : count' ≤ count)
    (hcursor : cursor' ≤ cursor) : limits.Admits count' cursor' bytes where
  vectors n hn := hcount.trans_lt (h.vectors n hn)
  total n hn := (Nat.add_le_add_right hcursor bytes).trans (h.total n hn)
  entry := h.entry

theorem unlimited (count cursor bytes : Nat) : LimitsConfig.unlimited.Admits count cursor bytes := by
  constructor <;> intro n hn <;> cases hn

end LimitsConfig.Admits

namespace Collection

theorem checkVectors_eq_ok {limits : LimitsConfig} {exceeded : Nat → Bool} :
    checkVectors limits exceeded = .ok () ↔
      ∀ n, limits.maxVectors = some n → exceeded n = false := by
  unfold checkVectors
  cases limits.maxVectors with
  | none => simp
  | some n => cases h : exceeded n <;> simp [h]

theorem checkBytes_eq_ok {limits : LimitsConfig} {required : Nat} :
    checkBytes limits required = .ok () ↔ ∀ n, limits.maxBytes = some n → required ≤ n := by
  unfold checkBytes
  cases limits.maxBytes with
  | none => simp
  | some n =>
      by_cases h : required > n
      · simp [h]
      · simp [h, not_lt.mp h]

theorem checkEntryBytes_eq_ok {limits : LimitsConfig} {entryBytes : Nat} :
    checkEntryBytes limits entryBytes = .ok () ↔
      ∀ n, limits.maxVectorBytes = some n → entryBytes ≤ n := by
  unfold checkEntryBytes
  cases limits.maxVectorBytes with
  | none => simp
  | some n =>
      by_cases h : entryBytes > n
      · simp [h]
      · simp [h, not_lt.mp h]

theorem enforceSingle_eq_ok {c : Collection} {bytes : Nat} :
    c.enforceSingle bytes = .ok () ↔
      c.config.limits.Admits c.index.len c.recordStore.appendCursor bytes := by
  unfold enforceSingle
  simp only [Loop.bind_unit_eq_ok, checkVectors_eq_ok, checkBytes_eq_ok, checkEntryBytes_eq_ok,
    decide_eq_false_iff_not, not_le]
  exact ⟨fun h => ⟨h.1, h.2.1, h.2.2⟩, fun h => ⟨h.vectors, h.total, h.entry⟩⟩

/-- Without limits every batch is accepted. -/
theorem enforceBatch_unlimited {c : Collection} (h : c.config.limits = .unlimited) (n bytes : Nat)
    (most : Option Nat) : c.enforceBatch n bytes most = .ok () := by
  have hentry : ∀ bytes, checkEntryBytes c.config.limits bytes = .ok () := by
    intro bytes
    rw [checkEntryBytes_eq_ok, h]
    intro n hn
    cases hn
  have hvectors : ∀ exceeded, checkVectors c.config.limits exceeded = .ok () := by
    intro exceeded
    rw [checkVectors_eq_ok, h]
    intro n hn
    cases hn
  have hbytes : ∀ required, checkBytes c.config.limits required = .ok () := by
    intro required
    rw [checkBytes_eq_ok, h]
    intro n hn
    cases hn
  unfold enforceBatch
  rw [Loop.bind_unit_eq_ok, Loop.bind_unit_eq_ok]
  refine ⟨hvectors _, hbytes _, ?_⟩
  split
  · split
    · exact hentry _
    · rfl
  · rfl

end Collection
