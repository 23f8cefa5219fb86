-- SUMMARY: Runs of a relation, and the rule that a system whose every step the relation allows has runs that it allows.
import Mathlib.Tactic.Common

/-!
# Simulation

A system takes a step for each event. A relation says which steps an abstract state may take for
it. If each step of the system is one that the relation allows, so is each run, even if that is
known only for events that satisfy conditions on the states in which they occur.
-/

namespace Simulation

variable {S A E : Type}

/-- Runs of a relation. -/
inductive Steps (spec : A → E → A → Prop) : A → List E → A → Prop
  | refl {a : A} : Steps spec a [] a
  | head {a b a' : A} {e : E} {es : List E} (hstep : spec a e b) (hsteps : Steps spec b es a') :
    Steps spec a (e :: es) a'

theorem Steps.append {spec : A → E → A → Prop} {a b a' : A} {es es' : List E} (h : Steps spec a es b)
    (h' : Steps spec b es' a') : Steps spec a (es ++ es') a' := by
  induction h with
  | refl => exact h'
  | head hstep _ ih => exact .head hstep (ih h')

/-- What each step keeps, a run keeps. -/
theorem Steps.keep {spec : A → E → A → Prop} {I : A → Prop} {a b : A} {es : List E} (h : Steps spec a es b)
    (hstep : ∀ e ∈ es, ∀ a b, spec a e b → I a → I b) (ha : I a) : I b := by
  induction h with
  | refl => exact ha
  | @head a b a' e es hfirst _ ih =>
      exact ih (fun e' he' => hstep e' (by simp [he'])) (hstep e (by simp) a b hfirst ha)

/-- Whatever steps the relation takes, each event satisfies `P` where it occurs. -/
def Always (spec : A → E → A → Prop) (P : A → E → Prop) : A → List E → Prop
  | _, [] => True
  | a, e :: es => P a e ∧ ∀ b, spec a e b → Always spec P b es

theorem Always.append {spec : A → E → A → Prop} {P : A → E → Prop} {a : A} {es es' : List E}
    (h : Always spec P a (es ++ es')) :
    Always spec P a es ∧ ∀ b, Steps spec a es b → Always spec P b es' := by
  induction es generalizing a with
  | nil =>
      refine ⟨trivial, fun b hb => ?_⟩
      cases hb
      exact h
  | cons e es ih =>
      refine ⟨⟨h.1, fun b hb => (ih (h.2 b hb)).1⟩, fun b' hb' => ?_⟩
      cases hb' with
      | head hstep hsteps => exact (ih (h.2 _ hstep)).2 b' hsteps

/-- Each event of a run of the system satisfies `P` where it occurs. -/
def Along (step : S → E → S) (P : S → E → Prop) : S → List E → Prop
  | _, [] => True
  | s, e :: es => P s e ∧ Along step P (step s e) es

theorem Along.of_forall {step : S → E → S} {P : S → E → Prop} {es : List E} (h : ∀ s, ∀ e ∈ es, P s e)
    (s : S) : Along step P s es := by
  induction es generalizing s with
  | nil => trivial
  | cons e es ih => exact ⟨h s e (by simp), ih (fun s e he => h s e (by simp [he])) _⟩

/-- Each step is one that the relation allows, and gives something good: so does each run. -/
theorem run {step : S → E → S} {spec : A → E → A → Prop} {rel : S → A → Prop} {P : A → E → Prop}
    {R G : S → E → Prop}
    (hstep : ∀ s a e, rel s a → P a e → R s e → G s e ∧ ∃ b, spec a e b ∧ rel (step s e) b)
    {s : S} {a : A} {es : List E} (h : rel s a) (hspec : Always spec P a es)
    (hsystem : Along step R s es) :
    Along step G s es ∧ ∃ a', Steps spec a es a' ∧ rel (es.foldl step s) a' := by
  induction es generalizing s a with
  | nil => exact ⟨trivial, a, .refl, h⟩
  | cons e es ih =>
      obtain ⟨hgood, b, hb, hrel⟩ := hstep s a e h hspec.1 hsystem.1
      obtain ⟨hall, a', hsteps, h'⟩ := ih hrel (hspec.2 b hb) hsystem.2
      exact ⟨⟨hgood, hall⟩, a', .head hb hsteps, h'⟩

end Simulation
