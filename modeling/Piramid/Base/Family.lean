-- SUMMARY: Families of devices, and programs that run on one member of a family.
import Piramid.Base.Prog

/-!
# Families of devices

One device for each index. An effect on the family says which member it is on, and a program for
one device becomes a program for the family that leaves all other members alone.
-/

open Device

/-- One device for each index. -/
def Family (ι D : Type) : Type := ι → D

namespace Family

variable {ι D E : Type} [DecidableEq ι]

def set (ds : Family ι D) (i : ι) (d : D) : Family ι D := fun j => if j = i then d else ds j

@[simp] theorem set_self (ds : Family ι D) (i : ι) (d : D) : ds.set i d i = d := by
  simp [set]

@[simp] theorem set_other (ds : Family ι D) {i j : ι} (h : j ≠ i) (d : D) : ds.set i d j = ds j := by
  simp [set, h]

@[simp] theorem set_set (ds : Family ι D) (i : ι) (d d' : D) : (ds.set i d).set i d' = ds.set i d' := by
  funext j
  by_cases h : j = i
  · simp [h]
  · simp [h]

@[simp] theorem set_get (ds : Family ι D) (i : ι) : ds.set i (ds i) = ds := by
  funext j
  by_cases h : j = i
  · simp [h]
  · simp [h]

instance [Device D E] : Device (Family ι D) (ι × E) := ⟨fun e ds => ds.set e.1 (apply e.2 (ds e.1))⟩

variable [Device D E]

@[simp] theorem apply_eq (e : ι × E) (ds : Family ι D) :
    Device.apply e ds = ds.set e.1 (Device.apply e.2 (ds e.1)) := rfl

/-- Effects on one member change that member alone. -/
theorem applyAll_map (i : ι) (es : List E) (ds : Family ι D) :
    applyAll (es.map fun e => (i, e)) ds = ds.set i (applyAll es (ds i)) := by
  induction es generalizing ds with
  | nil => simp
  | cons e es ih => simp [ih]

theorem through_map {C : Family ι D → Prop} (i : ι) (es : List E) (ds : Family ι D) :
    Through C (es.map fun e => (i, e)) ds ↔ Through (fun d => C (ds.set i d)) es (ds i) := by
  induction es generalizing ds with
  | nil => simp [Through]
  | cons e es ih => simp [Through, ih]

end Family

namespace Prog

variable {ι D E ε σ τ α : Type} [DecidableEq ι] [Device D E]

/-- Run a program on member `i` of a family, on a state built from this one; `out` puts the state
that it reaches back. -/
def focus (i : ι) (into : σ → τ) (out : τ → σ → σ) (p : Prog D E ε τ α) :
    Prog (Family ι D) (ι × E) ε σ α := fun s ds =>
  match p (into s) (ds i) with
  | ⟨r, t, es⟩ => ⟨r, out t s, es.map fun e => (i, e)⟩

@[simp] theorem wp_focus {i : ι} {into : σ → τ} {out : τ → σ → σ} {p : Prog D E ε τ α}
    {C : Family ι D → Prop} {Q : α → σ → Family ι D → Prop} {R : ε → σ → Family ι D → Prop} {s : σ}
    {ds : Family ι D} :
    wp (focus i into out p) C Q R s ds ↔
      wp p (fun d => C (ds.set i d)) (fun a t d => Q a (out t s) (ds.set i d))
        (fun e t d => R e (out t s) (ds.set i d)) (into s) (ds i) := by
  unfold wp focus
  cases hp : p (into s) (ds i) with
  | mk r t es =>
      cases r with
      | ok a => simp only [Family.through_map, Family.applyAll_map]
      | error e => simp only [Family.through_map, Family.applyAll_map]

end Prog
