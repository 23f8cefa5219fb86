-- SUMMARY: Metadata on its way in and out of the API, and which JSON objects come out as they went in.
import Piramid.Base.Binary64
import Mathlib.Data.String.Basic
import Piramid.Document

/-!
# Metadata as JSON

The way in skips arrays and objects, and makes a float of an integer above the `i64`
range. The way out knows arrays of plain values.
-/

/-- `serde_json::Number`. -/
inductive JsonNumber where
  /-- A `u64`. -/
  | posInt (n : Nat)
  /-- An `i64` below zero. -/
  | negInt (i : Int)
  | float (f : F64)

namespace JsonNumber

/-- `Number::as_i64`. -/
def asI64 : JsonNumber → Option Int
  | .posInt n => if n < 2 ^ 63 then some n else none
  | .negInt i => some i
  | .float _ => none

/-- `Number::as_f64`. -/
def asF64 : JsonNumber → Option F64
  | .posInt n => some (Binary64.ofInt n)
  | .negInt i => some (Binary64.ofInt i)
  | .float f => some f

/-- `Number::from` of an `i64`. -/
def ofI64 (i : Int) : JsonNumber := if i < 0 then .negInt i else .posInt i.toNat

end JsonNumber

/-- `serde_json::Value`. -/
inductive JsonValue where
  | null
  | bool (b : Bool)
  | number (n : JsonNumber)
  | string (s : String)
  | array (vs : List JsonValue)
  | object (entries : List (String × JsonValue))

namespace JsonValue

/-- `json!` of an `i64`. -/
def ofI64 (i : Int) : JsonValue := .number (.ofI64 i)

/-- `json!` of an `f64`: there is no number for an infinity or a NaN. -/
def ofF64 (f : F64) : JsonValue := if f.isFinite then .number (.float f) else .null

end JsonValue

/-! ## The conversions -/

/-- The value that is inserted, if the loop does not `continue`. -/
def jsonToValue : JsonValue → Option MetadataValue
  | .string s => some (.string s)
  | .number n =>
    match n.asI64 with
    | some i => some (.integer i)
    | none => n.asF64.map .float
  | .bool b => some (.boolean b)
  | .null => some .null
  | .array _ | .object _ => none

/-- One round of the loop of `json_to_metadata`. -/
def insertJson (metadata : Metadata) (entry : String × JsonValue) : Metadata :=
  match jsonToValue entry.2 with
  | some value => metadata.insert entry.1 value
  | none => metadata

/-- `order` is the order in which the request's map is iterated. -/
def jsonToMetadata (order : HashOrder String) (json : HashMap String JsonValue) : Metadata :=
  (order.entries json).foldl insertJson ∅

/-- An item of an array. -/
def itemToJson : MetadataValue → JsonValue
  | .string s => .string s
  | .integer i => .ofI64 i
  | .float f => .ofF64 f
  | .boolean b => .bool b
  | .array _ | .null => .null

def valueToJson : MetadataValue → JsonValue
  | .string s => .string s
  | .integer i => .ofI64 i
  | .float f => .ofF64 f
  | .boolean b => .bool b
  | .null => .null
  | .array arr => .array (arr.map itemToJson)

def metadataToJson (order : HashOrder String) (metadata : Metadata) : HashMap String JsonValue :=
  HashMap.insertEach ∅ ((order.entries metadata).map fun entry => (entry.1, valueToJson entry.2))

/-! ## Key by key -/

/-- A map that is built from what is left of each binding of another one. -/
theorem HashOrder.lookup_collect {κ ν ν' : Type} [DecidableEq κ] (order : HashOrder κ)
    (m : HashMap κ ν) (f : ν → Option ν') (k : κ) :
    (HashMap.insertEach (∅ : HashMap κ ν')
      ((order.entries m).filterMap fun entry => (f entry.2).map (entry.1, ·))).lookup k =
      (m.lookup k).bind f := by
  have hmem : ∀ w, (k, w) ∈ (order.entries m).filterMap (fun entry => (f entry.2).map (entry.1, ·)) ↔
      (m.lookup k).bind f = some w := by
    intro w
    simp only [List.mem_filterMap, Option.map_eq_some_iff, Prod.mk.injEq, Option.bind_eq_some_iff]
    constructor
    · rintro ⟨⟨k', v⟩, hentry, w', hw, rfl, rfl⟩
      exact ⟨v, (order.mem_entries m _ v).mp hentry, hw⟩
    · rintro ⟨v, hv, hw⟩
      exact ⟨(k, v), (order.mem_entries m k v).mpr hv, w, hw, rfl, rfl⟩
  cases hk : (m.lookup k).bind f with
  | none =>
      rw [HashMap.lookup_insertEach_of_not_mem, Finmap.lookup_empty]
      intro hin
      obtain ⟨⟨k', w⟩, hw, rfl⟩ := List.mem_map.mp hin
      rw [hmem w, hk] at hw
      cases hw
  | some w =>
      refine HashMap.lookup_insertEach_of_mem ?_ ((hmem w).mpr hk)
      -- the keys that are left are some of the keys there were
      have hnodup : ((order.entries m).map Prod.fst).Nodup := by
        rw [order.map_fst_entries]
        exact order.nodup _
      refine List.Nodup.sublist ?_ hnodup
      generalize order.entries m = entries
      induction entries with
      | nil => exact .slnil
      | cons entry entries ih =>
          rw [List.filterMap_cons]
          cases f entry.2 with
          | none => exact ih.cons _
          | some w => exact ih.cons_cons _

section

variable (order : HashOrder String)

theorem foldl_insertJson (entries : List (String × JsonValue)) (metadata : Metadata) :
    entries.foldl insertJson metadata = metadata.insertEach
      (entries.filterMap fun entry => (jsonToValue entry.2).map (entry.1, ·)) := by
  induction entries generalizing metadata with
  | nil => rfl
  | cons entry entries ih =>
      rw [List.foldl_cons, ih, List.filterMap_cons, insertJson]
      cases jsonToValue entry.2 with
      | none => rfl
      | some value => rfl

theorem lookup_jsonToMetadata (json : HashMap String JsonValue) (k : String) :
    (jsonToMetadata order json).lookup k = (json.lookup k).bind jsonToValue := by
  unfold jsonToMetadata
  rw [foldl_insertJson]
  exact order.lookup_collect json jsonToValue k

theorem lookup_metadataToJson (metadata : Metadata) (k : String) :
    (metadataToJson order metadata).lookup k = (metadata.lookup k).map valueToJson := by
  have hcollect := order.lookup_collect metadata (fun value => some (valueToJson value)) k
  simp only [Option.map_some, List.filterMap_eq_map'] at hcollect
  rw [metadataToJson, hcollect, Option.map_eq_bind]
  rfl

end

/-! ## The round trip -/

namespace JsonValue

mutual

/-- Built from strings, booleans, null, numbers and arrays of these. -/
def Plain : JsonValue → Prop
  | .null | .bool _ | .string _ => True
  | .number (.posInt n) => n < 2 ^ 64
  | .number (.negInt i) => -2 ^ 63 ≤ i ∧ i < 0
  | .number (.float f) => f.isFinite
  | .array vs => AllPlain vs
  | .object _ => False

def AllPlain : List JsonValue → Prop
  | [] => True
  | v :: vs => v.Plain ∧ AllPlain vs

end

/-- Neither an array nor an integer above the `i64` range. -/
def Kept : JsonValue → Prop
  | .array _ => False
  | .number (.posInt n) => n < 2 ^ 63
  | _ => True

/-- A plain value comes out as it went in when it is kept, and only then. -/
theorem Plain.comes_back_iff {v : JsonValue} (h : v.Plain) :
    (jsonToValue v).map valueToJson = some v ↔ v.Kept := by
  cases v with
  | null | bool | string => simp [jsonToValue, valueToJson, Kept]
  | array vs => simp [jsonToValue, Kept]
  | object entries => exact (by simp [Plain] at h)
  | number n =>
      cases n with
      | posInt n =>
          by_cases hn : n < 2 ^ 63
          · have hvalue : jsonToValue (.number (.posInt n)) = some (.integer n) := by
              simp only [jsonToValue, JsonNumber.asI64, if_pos hn]
            have hneg : ¬(n : Int) < 0 := by omega
            have hback : valueToJson (.integer n) = .number (.posInt n) := by
              simp only [valueToJson, ofI64, JsonNumber.ofI64, if_neg hneg, Int.toNat_natCast]
            rw [hvalue, Option.map_some, hback]
            exact iff_of_true rfl hn
          · have hvalue : jsonToValue (.number (.posInt n)) = some (.float (Binary64.ofInt n)) := by
              simp only [jsonToValue, JsonNumber.asI64, if_neg hn, JsonNumber.asF64, Option.map_some]
            -- what comes out is a float, or null
            rw [hvalue, Option.map_some, valueToJson, ofF64]
            simp only [Kept, hn, iff_false]
            split <;> simp
      | negInt i =>
          have hneg : i < 0 := by
            simp only [Plain] at h
            exact h.2
          simp [jsonToValue, JsonNumber.asI64, valueToJson, ofI64, JsonNumber.ofI64, Kept, hneg]
      | float f =>
          have hfinite : f.isFinite = true := by simpa only [Plain] using h
          simp [jsonToValue, JsonNumber.asI64, JsonNumber.asF64, valueToJson, ofF64, Kept, hfinite]

end JsonValue

/-- A metadata object comes back when none of its values is an array or an integer above the
`i64` range, and only then, in whatever order the maps are iterated. -/
theorem metadata_comes_back_iff (order order' : HashOrder String) (json : HashMap String JsonValue)
    (h : ∀ k v, json.lookup k = some v → v.Plain) :
    metadataToJson order' (jsonToMetadata order json) = json ↔
      ∀ k v, json.lookup k = some v → v.Kept := by
  have hlookup : ∀ k, (metadataToJson order' (jsonToMetadata order json)).lookup k =
      (json.lookup k).bind fun v => (jsonToValue v).map valueToJson := by
    intro k
    rw [lookup_metadataToJson, lookup_jsonToMetadata, Option.map_bind]
    rfl
  constructor
  · intro hback k v hv
    have hk := hlookup k
    rw [hback, hv, Option.bind_some] at hk
    exact (h k v hv).comes_back_iff.mp hk.symm
  · intro hkept
    refine Finmap.ext_lookup fun k => ?_
    rw [hlookup]
    cases hv : json.lookup k with
    | none => rfl
    | some v => exact (h k v hv).comes_back_iff.mpr (hkept k v hv)

/-! A list of tags, and a year. -/

/-- The order of the keys themselves. -/
def byKey : HashOrder String := .sortedBy id Function.injective_id

def oneField (k : String) (v : JsonValue) : HashMap String JsonValue :=
  Finmap.insert k v ∅

theorem lookup_oneField {k k' : String} {v w : JsonValue} (h : (oneField k v).lookup k' = some w) :
    w = v := by
  rw [oneField, HashMap.lookup_insert, Finmap.lookup_empty] at h
  split at h
  · exact (Option.some.inj h).symm
  · cases h

theorem tags_are_dropped :
    ¬∀ (order order' : HashOrder String) (json : HashMap String JsonValue),
      (∀ k v, json.lookup k = some v → v.Plain) →
      metadataToJson order' (jsonToMetadata order json) = json := by
  intro hall
  have hplain : ∀ k v, (oneField "tags" (.array [.string "a"])).lookup k = some v → v.Plain := by
    intro k v hv
    rw [lookup_oneField hv]
    simp [JsonValue.Plain, JsonValue.AllPlain]
  have hback := congrArg (Finmap.lookup "tags") (hall byKey byKey _ hplain)
  rw [lookup_metadataToJson, lookup_jsonToMetadata, oneField, Finmap.lookup_insert] at hback
  cases hback

theorem year_comes_back :
    metadataToJson byKey (jsonToMetadata byKey (oneField "year" (.number (.posInt 1984)))) =
      oneField "year" (.number (.posInt 1984)) := by
  refine (metadata_comes_back_iff byKey byKey _ fun k v hv => ?_).mpr fun k v hv => ?_
  · rw [lookup_oneField hv]
    simp [JsonValue.Plain]
  · rw [lookup_oneField hv]
    simp [JsonValue.Kept]
