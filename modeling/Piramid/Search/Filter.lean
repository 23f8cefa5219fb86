-- SUMMARY: Metadata filters, and when their comparisons of numbers form a total order.
import Piramid.Base.Binary64
import Piramid.Document

/-!
# Filters

The two equality tests and membership compare metadata values as they are stored.
The four order tests compare what the values are as floats, so a number can be
neither below, above nor equal to another one.
-/

namespace MetadataValue

mutual

/-- The derived `PartialEq`. -/
def beq : MetadataValue → MetadataValue → Bool
  | .string s, .string t => s == t
  | .integer i, .integer j => i == j
  | .float f, .float g => Binary64.eq f g
  | .boolean b, .boolean c => b == c
  | .array vs, .array ws => allBeq vs ws
  | .null, .null => true
  | _, _ => false

def allBeq : List MetadataValue → List MetadataValue → Bool
  | [], [] => true
  | v :: vs, w :: ws => v.beq w && allBeq vs ws
  | _, _ => false

end

/-- The number a value is compared by. -/
def asNumber : MetadataValue → Option F64
  | .integer i => some (Binary64.ofInt i)
  | .float f => some f
  | _ => none

end MetadataValue

/-- `search::query::FilterCondition`. -/
inductive FilterCondition where
  | eq (field : String) (expected : MetadataValue)
  | ne (field : String) (expected : MetadataValue)
  | gt (field : String) (expected : MetadataValue)
  | gte (field : String) (expected : MetadataValue)
  | lt (field : String) (expected : MetadataValue)
  | lte (field : String) (expected : MetadataValue)
  | isIn (field : String) (values : List MetadataValue)

def compareValues (actual : Option MetadataValue) (expected : MetadataValue)
    (cmp : F64 → F64 → Bool) : Bool :=
  match actual with
  | none => false
  | some actual =>
    match actual.asNumber, expected.asNumber with
    | some actualNum, some expectedNum => cmp actualNum expectedNum
    | _, _ => false

/-- `metadata.get(field) == Some(expected)`. -/
def FilterCondition.holds (actual : Option MetadataValue) (expected : MetadataValue) : Bool :=
  actual.any fun value => value.beq expected

def FilterCondition.matches (metadata : Metadata) : FilterCondition → Bool
  | .eq field expected => holds (metadata.lookup field) expected
  | .ne field expected => !holds (metadata.lookup field) expected
  | .gt field expected => compareValues (metadata.lookup field) expected Binary64.gt
  | .gte field expected => compareValues (metadata.lookup field) expected Binary64.ge
  | .lt field expected => compareValues (metadata.lookup field) expected Binary64.lt
  | .lte field expected => compareValues (metadata.lookup field) expected Binary64.le
  | .isIn field values =>
    -- `contains` asks each element whether it equals the value
    (metadata.lookup field).any fun value => values.any fun element => element.beq value

/-- `search::query::Filter`. -/
structure Query.Filter where
  conditions : List FilterCondition

namespace Query.Filter

def new : Filter := ⟨[]⟩

def push (filter : Filter) (condition : FilterCondition) : Filter :=
  ⟨filter.conditions ++ [condition]⟩

def eq (filter : Filter) (field : String) (value : MetadataValue) : Filter :=
  filter.push (.eq field value)

def ne (filter : Filter) (field : String) (value : MetadataValue) : Filter :=
  filter.push (.ne field value)

def gt (filter : Filter) (field : String) (value : MetadataValue) : Filter :=
  filter.push (.gt field value)

def gte (filter : Filter) (field : String) (value : MetadataValue) : Filter :=
  filter.push (.gte field value)

def lt (filter : Filter) (field : String) (value : MetadataValue) : Filter :=
  filter.push (.lt field value)

def lte (filter : Filter) (field : String) (value : MetadataValue) : Filter :=
  filter.push (.lte field value)

def isIn (filter : Filter) (field : String) (values : List MetadataValue) : Filter :=
  filter.push (.isIn field values)

end Query.Filter

def Query.Filter.matches (filter : Query.Filter) (metadata : Metadata) : Bool :=
  filter.conditions.all fun condition => condition.matches metadata

/-- A filter matches what all its conditions match. -/
theorem Query.Filter.matches_push (filter : Query.Filter) (condition : FilterCondition) (metadata : Metadata) :
    (filter.push condition).matches metadata =
      (filter.matches metadata && condition.matches metadata) := by
  simp [Query.Filter.matches, push]

theorem Query.Filter.matches_new (metadata : Metadata) : Query.Filter.new.matches metadata = true := rfl

/-! ## Comparing numbers -/

namespace MetadataValue

/-- An operand: any `i64` or any `f64`. -/
def Operand : MetadataValue → Prop
  | .integer i => -2 ^ 63 ≤ i ∧ i < 2 ^ 63
  | .float _ => True
  | _ => False

/-- A number: any `i64`, or an `f64` that is not NaN. -/
def Number : MetadataValue → Prop
  | .integer i => -2 ^ 63 ≤ i ∧ i < 2 ^ 63
  | .float f => Binary64.isNan f = false
  | _ => False

/-- A number has one float to be compared by. -/
theorem Operand.asNumber {b : MetadataValue} (h : b.Operand) : ∃ y, b.asNumber = some y := by
  cases b with
  | integer i => exact ⟨_, rfl⟩
  | float f => exact ⟨_, rfl⟩
  | string | boolean | array | null => exact h.elim

theorem Number.operand {a : MetadataValue} (h : a.Number) : a.Operand := by
  cases a with
  | integer i => exact h
  | float f => trivial
  | string | boolean | array | null => exact h.elim

theorem Number.not_nan {a : MetadataValue} (h : a.Number) {x : F64} (hx : a.asNumber = some x) :
    Binary64.isNan x = false := by
  cases a with
  | integer i =>
      cases hx
      exact Binary64.isNan_ofInt (by unfold Number at h; omega)
  | float f =>
      cases hx
      exact h
  | string | boolean | array | null => exact h.elim

/-- Equality with a number does not depend on the side. -/
theorem Number.beq_comm {a : MetadataValue} (h : a.Number) (b : MetadataValue) :
    a.beq b = b.beq a := by
  cases a with
  | integer i =>
      cases b with
      | integer j => exact Bool.beq_comm
      | _ => simp [beq]
  | float f =>
      cases b with
      | float g => exact Binary64.eq_comm f g
      | _ => simp [beq]
  | string | boolean | array | null => exact h.elim

/-- Equal numbers are one float. -/
theorem Number.eq_of_beq {a b : MetadataValue} (h : a.Number) {x y : F64}
    (hx : a.asNumber = some x) (hy : b.asNumber = some y) (heq : a.beq b = true) :
    Binary64.eq x y = true := by
  cases a with
  | integer i =>
      cases b with
      | integer j =>
          cases hx
          cases hy
          have hij : i = j := by simpa [beq] using heq
          have hnan := h.not_nan (x := Binary64.ofInt i) rfl
          rw [← hij]
          exact (Binary64.eq_iff hnan hnan).mpr rfl
      | string | float | boolean | array | null => simp [beq] at heq
  | float f =>
      cases b with
      | float g =>
          cases hx
          cases hy
          exact heq
      | string | integer | boolean | array | null => simp [beq] at heq
  | string | boolean | array | null => exact h.elim

/-- The operand is not NaN, and unless the two are one number stored alike they are different
floats: not an integer beside the float it rounds to, nor two integers that round to one float. -/
def Separated : MetadataValue → MetadataValue → Prop
  | .integer i, .integer j => i ≠ j → ¬Binary64.eq (Binary64.ofInt i) (Binary64.ofInt j)
  | .integer i, .float g => ¬Binary64.isNan g ∧ ¬Binary64.eq (Binary64.ofInt i) g
  | .float f, .integer j => ¬Binary64.eq f (Binary64.ofInt j)
  | .float _, .float g => ¬Binary64.isNan g
  | _, _ => True

end MetadataValue

namespace Query.Filter

/-- The comparisons of the field with `b` are those of a total order on numbers. -/
structure Consistent (metadata : Metadata) (field : String) (b : MetadataValue) : Prop where
  /-- Exactly one of the three. -/
  one : [new.lt field b, new.eq field b, new.gt field b].countP (fun f => f.matches metadata) = 1
  gte : (new.gte field b).matches metadata =
    ((new.gt field b).matches metadata || (new.eq field b).matches metadata)
  lte : (new.lte field b).matches metadata =
    ((new.lt field b).matches metadata || (new.eq field b).matches metadata)
  ne : (new.ne field b).matches metadata = !(new.eq field b).matches metadata
  isIn : ∀ values, (new.isIn field values).matches metadata =
    values.any fun value => (new.eq field value).matches metadata
  integers : ∀ i j, metadata.lookup field = some (.integer i) → b = .integer j →
    (new.lt field b).matches metadata = decide (i < j)

variable {metadata : Metadata} {field : String} {a b : MetadataValue} {x y : F64}

theorem eq_matches (h : metadata.lookup field = some a) (b : MetadataValue) :
    (new.eq field b).matches metadata = a.beq b := by
  rw [eq, matches_push, matches_new, Bool.true_and, FilterCondition.matches, h]
  rfl

theorem ne_matches (h : metadata.lookup field = some a) (b : MetadataValue) :
    (new.ne field b).matches metadata = !a.beq b := by
  rw [ne, matches_push, matches_new, Bool.true_and, FilterCondition.matches, h]
  rfl

theorem isIn_matches (h : metadata.lookup field = some a) (values : List MetadataValue) :
    (new.isIn field values).matches metadata = values.any fun element => element.beq a := by
  rw [isIn, matches_push, matches_new, Bool.true_and, FilterCondition.matches, h]
  rfl

/-- What the order tests compare. -/
theorem compareValues_numbers (ha : a.asNumber = some x) (hb : b.asNumber = some y)
    (cmp : F64 → F64 → Bool) : compareValues (some a) b cmp = cmp x y := by
  simp only [compareValues, ha, hb]

section

variable (h : metadata.lookup field = some a) (ha : a.asNumber = some x) (hb : b.asNumber = some y)

include h ha hb

theorem lt_matches : (new.lt field b).matches metadata = Binary64.lt x y := by
  rw [lt, matches_push, matches_new, Bool.true_and, FilterCondition.matches, h,
    compareValues_numbers ha hb]

theorem gt_matches : (new.gt field b).matches metadata = Binary64.gt x y := by
  rw [gt, matches_push, matches_new, Bool.true_and, FilterCondition.matches, h,
    compareValues_numbers ha hb]

theorem lte_matches : (new.lte field b).matches metadata = Binary64.le x y := by
  rw [lte, matches_push, matches_new, Bool.true_and, FilterCondition.matches, h,
    compareValues_numbers ha hb]

theorem gte_matches : (new.gte field b).matches metadata = Binary64.ge x y := by
  rw [gte, matches_push, matches_new, Bool.true_and, FilterCondition.matches, h,
    compareValues_numbers ha hb]

end

/-- Two integers that do not round to one float are ordered as their floats are. -/
theorem lt_ofInt {i j : Int} (hi : (MetadataValue.integer i).Number)
    (hj : (MetadataValue.integer j).Number)
    (hsep : Binary64.eq (Binary64.ofInt i) (Binary64.ofInt j) = true → i = j) :
    Binary64.lt (Binary64.ofInt i) (Binary64.ofInt j) = decide (i < j) := by
  have hinan := hi.not_nan rfl
  have hjnan := hj.not_nan rfl
  have hiabs : i.natAbs ≤ 2 ^ 63 := by
    unfold MetadataValue.Number at hi
    omega
  have hjabs : j.natAbs ≤ 2 ^ 63 := by
    unfold MetadataValue.Number at hj
    omega
  rw [Binary64.eq_iff hinan hjnan] at hsep
  rw [Bool.eq_iff_iff, Binary64.lt_iff hinan hjnan, decide_eq_true_iff]
  constructor
  · intro hlt
    by_contra hge
    have hmono := Binary64.key_ofInt_mono hjabs hiabs (not_lt.mp hge)
    omega
  · intro hlt
    have hmono := Binary64.key_ofInt_mono hiabs hjabs hlt.le
    have hne : Binary64.key (Binary64.ofInt i) ≠ Binary64.key (Binary64.ofInt j) :=
      fun heq => hlt.ne (hsep heq)
    omega

/-- Equality fits in where the floats compare as equal, and nowhere else. -/
theorem count_one_iff {r : Option Ordering} {e : Bool} (he : e = true → r = some .eq) :
    [r == some .lt, e, r == some .gt].countP id = 1 ↔ r ≠ none ∧ (r = some .eq → e = true) := by
  cases r with
  | none =>
      cases e with
      | false => simp
      | true => cases he rfl
  | some o =>
      cases e with
      | false => cases o <;> simp
      | true =>
          cases he rfl
          simp

/-- The tests are consistent when the floats compare, and are equal only where the values are. -/
theorem consistent_iff (h : metadata.lookup field = some a) (hnum : a.Number) (hop : b.Operand)
    (hx : a.asNumber = some x) (hy : b.asNumber = some y) :
    Consistent metadata field b ↔
      Binary64.isNan y = false ∧ (Binary64.eq x y = true → a.beq b = true) := by
  have hxnan := hnum.not_nan hx
  have hbeq : a.beq b = true → Binary64.partialCmp x y = some .eq := fun heq => by
    simpa [Binary64.eq] using hnum.eq_of_beq hx hy heq
  have hcount : [new.lt field b, new.eq field b, new.gt field b].countP
      (fun f => f.matches metadata) = 1 ↔
      Binary64.partialCmp x y ≠ none ∧ (Binary64.partialCmp x y = some .eq → a.beq b = true) := by
    rw [← count_one_iff hbeq]
    simp only [List.countP_cons, List.countP_nil, lt_matches h hx hy, gt_matches h hx hy,
      eq_matches h, Binary64.lt, Binary64.gt, id]
  have hnan : Binary64.partialCmp x y ≠ none ↔ Binary64.isNan y = false := by
    cases hynan : Binary64.isNan y with
    | false => simp [Binary64.partialCmp_numbers hxnan hynan]
    | true => simp [Binary64.partialCmp_nan hynan]
  have heq : Binary64.eq x y = true ↔ Binary64.partialCmp x y = some .eq := by
    simp [Binary64.eq]
  rw [heq, ← hnan]
  constructor
  · intro hcons
    exact hcount.mp hcons.one
  · intro hsep
    -- so equality is what the order says it is
    have htest : (Binary64.partialCmp x y == some .eq) = a.beq b := by
      rw [Bool.eq_iff_iff, beq_iff_eq]
      exact ⟨hsep.2, hbeq⟩
    refine ⟨hcount.mpr hsep, ?_, ?_, ?_, ?_, ?_⟩
    · rw [gte_matches h hx hy, gt_matches h hx hy, eq_matches h, ← htest]
      rfl
    · rw [lte_matches h hx hy, lt_matches h hx hy, eq_matches h, ← htest]
      rfl
    · rw [ne_matches h, eq_matches h]
    · intro values
      rw [isIn_matches h]
      refine congrArg (fun test => values.any test) (funext fun value => ?_)
      rw [eq_matches h, hnum.beq_comm]
    · intro i j hi hj
      rw [h, Option.some.injEq] at hi
      subst hi hj
      cases hx
      cases hy
      rw [lt_matches h rfl rfl]
      refine lt_ofInt hnum hop fun heq' => ?_
      have hij := hsep.2 (heq.mp heq')
      simpa [MetadataValue.beq] using hij

/-- For a number and any operand, the comparisons form a total order exactly when the two are
separated. -/
theorem consistent_iff_separated (metadata : Metadata) (field : String) (a b : MetadataValue)
    (h : metadata.lookup field = some a) (ha : a.Number) (hb : b.Operand) :
    Consistent metadata field b ↔ a.Separated b := by
  obtain ⟨x, hx⟩ := ha.operand.asNumber
  obtain ⟨y, hy⟩ := hb.asNumber
  rw [consistent_iff h ha hb hx hy]
  cases a with
  | integer i =>
      cases hx
      cases b with
      | integer j =>
          cases hy
          have hnan : Binary64.isNan (Binary64.ofInt j) = false :=
            MetadataValue.Number.not_nan (a := .integer j) hb rfl
          simp only [MetadataValue.Separated, MetadataValue.beq, hnan, true_and, beq_iff_eq]
          exact ⟨fun hsep hne heq => hne (hsep heq), fun hsep heq => by_contra fun hne => hsep hne heq⟩
      | float g =>
          cases hy
          simp [MetadataValue.Separated, MetadataValue.beq]
      | string | boolean | array | null => exact hb.elim
  | float f =>
      cases hx
      cases b with
      | integer j =>
          cases hy
          have hnan : Binary64.isNan (Binary64.ofInt j) = false :=
            MetadataValue.Number.not_nan (a := .integer j) hb rfl
          simp [MetadataValue.Separated, MetadataValue.beq, hnan]
      | float g =>
          cases hy
          simp [MetadataValue.Separated, MetadataValue.beq]
      | string | boolean | array | null => exact hb.elim
  | string | boolean | array | null => exact ha.elim

/-! Two integers that round to one float. -/

def scored : Metadata := Finmap.singleton "score" (.integer (2 ^ 53 + 1))

/-- No strict test matches, nor equality, and both of the other tests do. -/
theorem neighbours_not_consistent :
    scored.lookup "score" = some (.integer (2 ^ 53 + 1)) ∧ (MetadataValue.integer (2 ^ 53 + 1)).Number ∧
      (MetadataValue.integer (2 ^ 53)).Number ∧
      [new.lt "score" (.integer (2 ^ 53)), new.eq "score" (.integer (2 ^ 53)),
        new.gt "score" (.integer (2 ^ 53))].map (·.matches scored) = [false, false, false] ∧
      [new.gte "score" (.integer (2 ^ 53)), new.lte "score" (.integer (2 ^ 53))].map (·.matches scored) =
        [true, true] ∧
      ¬Consistent scored "score" (.integer (2 ^ 53)) := by
  have hnone : [new.lt "score" (.integer (2 ^ 53)), new.eq "score" (.integer (2 ^ 53)),
      new.gt "score" (.integer (2 ^ 53))].map (·.matches scored) = [false, false, false] := by decide
  have hboth : [new.gte "score" (.integer (2 ^ 53)), new.lte "score" (.integer (2 ^ 53))].map
      (·.matches scored) = [true, true] := by decide
  exact ⟨rfl, ⟨by decide, by decide⟩, ⟨by decide, by decide⟩, hnone, hboth,
    fun hcons => absurd hcons.one (by decide)⟩

theorem neighbours_below_consistent : Consistent scored "score" (.integer (2 ^ 53 - 1)) := by
  refine (consistent_iff_separated scored "score" (.integer (2 ^ 53 + 1)) (.integer (2 ^ 53 - 1))
    rfl ⟨by decide, by decide⟩ ⟨by decide, by decide⟩).mpr ?_
  intro _
  decide

end Query.Filter
