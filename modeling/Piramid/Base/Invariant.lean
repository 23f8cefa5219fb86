-- SUMMARY: Programs that keep an invariant of their device, whatever state they begin in and wherever they stop.
import Piramid.Base.Relational

/-!
# Invariants of a device

An invariant that a program keeps holds between any two of its effects, and after it, whether it
returned or faulted.
-/

open Device

namespace Prog

variable {D E ε σ α β : Type} [Device D E]

/-- Where `I` holds, the program never leads to a device where it does not. -/
def Keeps (I : D → Prop) (p : Prog D E ε σ α) : Prop :=
  ∀ s d, I d → wp p I (fun _ _ d => I d) (fun _ _ d => I d) s d

@[simp] theorem wp_emitAll {es : List E} {C : D → Prop} {Q : Unit → σ → D → Prop} {R : ε → σ → D → Prop}
    {s : σ} {d : D} :
    wp (emitAll es : Prog D E ε σ Unit) C Q R s d ↔ Through C es d ∧ Q () s (applyAll es d) := by
  simp [wp, emitAll]

namespace Keeps

variable {I : D → Prop} {p : Prog D E ε σ α} {f : α → Prog D E ε σ β} {s : σ} {d : D}

theorem final (h : Keeps I p) (hd : I d) : I (p.final s d) := by
  cases hr : (p s d).result with
  | ok a => exact wp_ok (h s d hd) hr
  | error e => exact wp_error (h s d hd) hr

theorem crash (h : Keeps I p) (hd : I d) (k : Nat) : I (p.crash k s d) := wp_crash (h s d hd) hd k

protected theorem pure (a : α) : Keeps I (pure a : Prog D E ε σ α) := fun _ _ hd => wp_pure.mpr hd

protected theorem fault (e : ε) : Keeps I (fault e : Prog D E ε σ α) := fun _ _ hd => wp_fault.mpr hd

protected theorem asks (g : σ → α) : Keeps I (asks g : Prog D E ε σ α) := fun _ _ hd => wp_asks.mpr hd

protected theorem device : Keeps I (device : Prog D E ε σ D) := fun _ _ hd => wp_device.mpr hd

protected theorem modify (g : σ → σ) : Keeps I (modify g : Prog D E ε σ Unit) := fun _ _ hd =>
  wp_modify.mpr hd

protected theorem ofExcept (x : Except ε α) : Keeps I (ofExcept x : Prog D E ε σ α) := fun _ _ hd =>
  wp_ofExcept.mpr ⟨fun _ _ => hd, fun _ _ => hd⟩

protected theorem bind (h : Keeps I p) (hf : ∀ a, Keeps I (f a)) : Keeps I (p >>= f) := fun s d hd =>
  wp_bind.mpr (wp_mono (h s d hd) (fun _ h => h) (fun a s d hd => hf a s d hd) fun _ _ _ h => h)

/-- What a check gives is known afterwards. -/
theorem check {x : Except ε α} (hf : ∀ a, x = .ok a → Keeps I (f a)) : Keeps I (Prog.ofExcept x >>= f) :=
  fun s d hd => wp_bind.mpr (wp_ofExcept.mpr ⟨fun a ha => hf a ha s d hd, fun _ _ => hd⟩)

protected theorem ite {c : Prop} [Decidable c] {q : Prog D E ε σ α} (hp : Keeps I p) (hq : Keeps I q) :
    Keeps I (if c then p else q) := by
  split
  · exact hp
  · exact hq

theorem emitAll {es : List E} (h : ∀ e ∈ es, ∀ d, I d → I (apply e d)) :
    Keeps I (emitAll es : Prog D E ε σ Unit) := by
  intro s d hd
  refine wp_emitAll.mpr ?_
  induction es generalizing d with
  | nil => exact ⟨trivial, hd⟩
  | cons e es ih =>
      have he := h e (by simp) d hd
      obtain ⟨hthrough, hfinal⟩ := ih (fun e' he' => h e' (by simp [he'])) (apply e d) he
      exact ⟨⟨he, hthrough⟩, hfinal⟩

/-- A program that keeps whatever holds leaves the device as it is. -/
theorem wp_still {C : D → Prop} {Q : α → σ → D → Prop} {R : ε → σ → D → Prop} (h : ∀ I, Keeps I p)
    (hC : C d) (hQ : ∀ a s, Q a s d) (hR : ∀ e s, R e s d) : wp p C Q R s d := by
  refine wp_mono (h (· = d) s d rfl) ?_ ?_ ?_
  · rintro _ rfl
    exact hC
  · rintro a s _ rfl
    exact hQ a s
  · rintro e s _ rfl
    exact hR e s

end Keeps

end Prog
