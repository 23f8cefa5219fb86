-- SUMMARY: Programs over a state and a device, which return or fault and record every effect they have on the device.
import Mathlib.Data.List.Basic
import Mathlib.Tactic.Common

/-!
# Programs with recorded effects

A program reads its state and the device, returns a value or faults, and leaves
a new state. It never changes the device itself: it only emits effects, and the
device it ends on is the one it began on with its effects applied in order. So
the devices a crash can leave behind are exactly the ones reached by a prefix of
the effects, and the same list of effects can be read by several devices.
-/

/-- A device `D` that effects of type `E` change. -/
class Device (D : Type) (E : outParam Type) where
  apply : E → D → D

namespace Device

variable {D E : Type} [Device D E]

/-- Apply effects in order. -/
def applyAll (es : List E) (d : D) : D :=
  es.foldl (fun d e => apply e d) d

@[simp] theorem applyAll_nil (d : D) : applyAll ([] : List E) d = d := rfl

@[simp] theorem applyAll_cons (e : E) (es : List E) (d : D) :
    applyAll (e :: es) d = applyAll es (apply e d) := rfl

theorem applyAll_append (es es' : List E) (d : D) :
    applyAll (es ++ es') d = applyAll es' (applyAll es d) := by
  simp [applyAll, List.foldl_append]

/-- Every device reached after one or more of the effects satisfies `C`. -/
def Through (C : D → Prop) : List E → D → Prop
  | [], _ => True
  | e :: es, d => C (apply e d) ∧ Through C es (apply e d)

theorem Through.append {C : D → Prop} {es es' : List E} {d : D} :
    Through C (es ++ es') d ↔ Through C es d ∧ Through C es' (applyAll es d) := by
  induction es generalizing d with
  | nil => simp [Through]
  | cons e es ih => simp [Through, ih, and_assoc]

theorem Through.of_forall {C : D → Prop} (hC : ∀ d, C d) (es : List E) (d : D) : Through C es d := by
  induction es generalizing d with
  | nil => trivial
  | cons e es ih => exact ⟨hC _, ih _⟩

theorem Through.mono {C C' : D → Prop} (hC : ∀ d, C d → C' d) {es : List E} {d : D}
    (h : Through C es d) : Through C' es d := by
  induction es generalizing d with
  | nil => trivial
  | cons e es ih => exact ⟨hC _ h.1, ih h.2⟩

theorem Through.and {C C' : D → Prop} {es : List E} {d : D} (h : Through C es d)
    (h' : Through C' es d) : Through (fun d => C d ∧ C' d) es d := by
  induction es generalizing d with
  | nil => trivial
  | cons e es ih => exact ⟨⟨h.1, h'.1⟩, ih h.2 h'.2⟩

/-- A crash after any number of the effects leaves a device that satisfies `C`. -/
theorem Through.take {C : D → Prop} {es : List E} {d : D} (h : Through C es d) (hd : C d)
    (k : Nat) : C (applyAll (es.take k) d) := by
  induction es generalizing d k with
  | nil => simpa using hd
  | cons e es ih =>
      cases k with
      | zero => exact hd
      | succ k => exact ih h.2 h.1 k

end Device

open Device

/-- What a program leaves: its result, the state it reached (also when it
faults), and the effects it had. -/
structure Outcome (E ε σ α : Type) where
  result : Except ε α
  state : σ
  effects : List E

/-- A program over device `D`, with effects `E`, faults `ε` and state `σ`. -/
def Prog (D E ε σ α : Type) : Type := σ → D → Outcome E ε σ α

namespace Prog

variable {D E ε σ τ α β : Type}

/-- The device a program ends on. -/
def final [Device D E] (p : Prog D E ε σ α) (s : σ) (d : D) : D :=
  applyAll (p s d).effects d

/-- The device left by a crash after the first `k` effects. -/
def crash [Device D E] (p : Prog D E ε σ α) (k : Nat) (s : σ) (d : D) : D :=
  applyAll ((p s d).effects.take k) d

/-! ## Constructors -/

protected def pure (a : α) : Prog D E ε σ α := fun s _ => ⟨.ok a, s, []⟩

protected def bind [Device D E] (p : Prog D E ε σ α) (f : α → Prog D E ε σ β) : Prog D E ε σ β :=
  fun s d =>
    match p s d with
    | ⟨.ok a, s', es⟩ =>
      match f a s' (applyAll es d) with
      | ⟨r, s'', es'⟩ => ⟨r, s'', es ++ es'⟩
    | ⟨.error e, s', es⟩ => ⟨.error e, s', es⟩

instance [Device D E] : Monad (Prog D E ε σ) where
  pure := Prog.pure
  bind := Prog.bind

/-- Fault. -/
def fault (e : ε) : Prog D E ε σ α := fun s _ => ⟨.error e, s, []⟩

/-- The result of a computation that touches neither the state nor the device. -/
def ofExcept (x : Except ε α) : Prog D E ε σ α := fun s _ => ⟨x, s, []⟩

/-- A value read off the state. -/
def asks (f : σ → α) : Prog D E ε σ α := fun s _ => ⟨.ok (f s), s, []⟩

/-- Change the state. -/
def modify (f : σ → σ) : Prog D E ε σ Unit := fun s _ => ⟨.ok (), f s, []⟩

/-- The current device. -/
def device : Prog D E ε σ D := fun s d => ⟨.ok d, s, []⟩

/-- Have one effect on the device. -/
def emit (e : E) : Prog D E ε σ Unit := fun s _ => ⟨.ok (), s, [e]⟩

/-- `if c { p }`. -/
def when [Device D E] (c : Prop) [Decidable c] (p : Prog D E ε σ Unit) : Prog D E ε σ Unit :=
  if c then p else pure ()

/-- Run a program on a state built from this one, and hand the state it reaches
back as a value. A fault drops that state. -/
def embed (into : σ → τ) (out : τ → σ) (p : Prog D E ε τ α) : Prog D E ε σ (α × τ) := fun s d =>
  match p (into s) d with
  | ⟨.ok a, t, es⟩ => ⟨.ok (a, t), out t, es⟩
  | ⟨.error e, t, es⟩ => ⟨.error e, out t, es⟩

/-! ## Programs whose effects come in blocks -/

/-- The effects of the program are a concatenation of lists that satisfy `B`. -/
def EmitsBlocks (B : List E → Prop) (p : Prog D E ε σ α) : Prop :=
  ∀ s d, ∃ bs : List (List E), (p s d).effects = bs.flatten ∧ ∀ b ∈ bs, B b

variable {B : List E → Prop}

theorem EmitsBlocks.of_none {p : Prog D E ε σ α} (h : ∀ s d, (p s d).effects = []) :
    EmitsBlocks B p :=
  fun s d => ⟨[], h s d, by simp⟩

theorem EmitsBlocks.fault (e : ε) : EmitsBlocks B (fault e : Prog D E ε σ α) :=
  .of_none fun _ _ => rfl

theorem EmitsBlocks.ofExcept (x : Except ε α) : EmitsBlocks B (ofExcept x : Prog D E ε σ α) :=
  .of_none fun _ _ => rfl

theorem EmitsBlocks.asks (f : σ → α) : EmitsBlocks B (asks f : Prog D E ε σ α) :=
  .of_none fun _ _ => rfl

theorem EmitsBlocks.modify (f : σ → σ) : EmitsBlocks B (modify f : Prog D E ε σ Unit) :=
  .of_none fun _ _ => rfl

theorem EmitsBlocks.device : EmitsBlocks B (device : Prog D E ε σ D) :=
  .of_none fun _ _ => rfl

theorem EmitsBlocks.emit {e : E} (h : B [e]) : EmitsBlocks B (emit e : Prog D E ε σ Unit) :=
  fun _ _ => ⟨[[e]], rfl, by simpa using h⟩

theorem EmitsBlocks.embed {into : σ → τ} {out : τ → σ} {p : Prog D E ε τ α}
    (hp : EmitsBlocks B p) : EmitsBlocks B (embed into out p) := by
  intro s d
  obtain ⟨bs, heq, hbs⟩ := hp (into s) d
  refine ⟨bs, ?_, hbs⟩
  rw [← heq, Prog.embed]
  split <;> rename_i h <;> rw [h]

theorem EmitsBlocks.ite {c : Prop} [Decidable c] {p q : Prog D E ε σ α} (hp : EmitsBlocks B p)
    (hq : EmitsBlocks B q) : EmitsBlocks B (if c then p else q) := by
  split
  · exact hp
  · exact hq

variable [Device D E]

theorem EmitsBlocks.pure (a : α) : EmitsBlocks B (pure a : Prog D E ε σ α) :=
  .of_none fun _ _ => rfl

theorem EmitsBlocks.bind {p : Prog D E ε σ α} {f : α → Prog D E ε σ β} (hp : EmitsBlocks B p)
    (hf : ∀ a, EmitsBlocks B (f a)) : EmitsBlocks B (p >>= f) := by
  intro s d
  obtain ⟨bs, heq, hbs⟩ := hp s d
  change ∃ bs, (Prog.bind p f s d).effects = _ ∧ _
  cases hr : p s d with
  | mk r s' es =>
      rw [hr] at heq
      cases r with
      | error e => exact ⟨bs, by simpa [Prog.bind, hr] using heq, hbs⟩
      | ok a =>
          obtain ⟨bs', heq', hbs'⟩ := hf a s' (applyAll es d)
          refine ⟨bs ++ bs', ?_, fun b hb => (List.mem_append.mp hb).elim (hbs b) (hbs' b)⟩
          simp only [Prog.bind, hr, List.flatten_append, heq']
          exact congrArg (· ++ bs'.flatten) heq

theorem EmitsBlocks.when {c : Prop} [Decidable c] {p : Prog D E ε σ Unit} (hp : EmitsBlocks B p) :
    EmitsBlocks B (when c p) :=
  .ite hp (.pure _)

theorem EmitsBlocks.forM {xs : List α} {f : α → Prog D E ε σ PUnit}
    (hf : ∀ x, EmitsBlocks B (f x)) : EmitsBlocks B (xs.forM f) := by
  induction xs with
  | nil => exact .pure _
  | cons x xs ih => exact (hf x).bind fun _ => ih

/-! ## Programs one after the other -/

theorem pure_then (a : α) (f : α → Prog D E ε σ β) : (pure a : Prog D E ε σ α) >>= f = f a := rfl

theorem ofExcept_ok_then (a : α) (f : α → Prog D E ε σ β) : ofExcept (.ok a) >>= f = f a := rfl

theorem bind_bind {γ : Type} (p : Prog D E ε σ α) (f : α → Prog D E ε σ β) (g : β → Prog D E ε σ γ) :
    p >>= f >>= g = p >>= fun a => f a >>= g := by
  funext s d
  change Prog.bind (Prog.bind p f) g s d = Prog.bind p (fun a => Prog.bind (f a) g) s d
  unfold Prog.bind
  cases hp : p s d with
  | mk r s' es =>
      cases r with
      | error e => rfl
      | ok a =>
          simp only
          cases hf : f a s' (applyAll es d) with
          | mk r' s'' es' =>
              cases r' with
              | error e => rfl
              | ok b => simp only [applyAll_append, List.append_assoc]

/-! ## Programs whose faults are known -/

/-- Every fault of the program satisfies `P`. -/
def Raises (P : ε → Prop) (p : Prog D E ε σ α) : Prop := ∀ s d e, (p s d).result = .error e → P e

section

variable {P : ε → Prop}

omit [Device D E] in
theorem Raises.of_ok {p : Prog D E ε σ α} (h : ∀ s d, ∃ a, (p s d).result = .ok a) : Raises P p := by
  intro s d e he
  obtain ⟨a, ha⟩ := h s d
  rw [ha] at he
  cases he

omit [Device D E] in
theorem Raises.fault {e : ε} (h : P e) : Raises P (fault e : Prog D E ε σ α) := by
  intro s d e' he
  cases he
  exact h

omit [Device D E] in
theorem Raises.ofExcept {x : Except ε α} (h : ∀ e, x = .error e → P e) :
    Raises P (ofExcept x : Prog D E ε σ α) :=
  fun _ _ e he => h e he

omit [Device D E] in
theorem Raises.asks (f : σ → α) : Raises P (asks f : Prog D E ε σ α) := .of_ok fun _ _ => ⟨_, rfl⟩

omit [Device D E] in
theorem Raises.modify (f : σ → σ) : Raises P (modify f : Prog D E ε σ Unit) :=
  .of_ok fun _ _ => ⟨_, rfl⟩

omit [Device D E] in
theorem Raises.device : Raises P (device : Prog D E ε σ D) := .of_ok fun _ _ => ⟨_, rfl⟩

omit [Device D E] in
theorem Raises.emit (e : E) : Raises P (emit e : Prog D E ε σ Unit) := .of_ok fun _ _ => ⟨_, rfl⟩

theorem Raises.pure (a : α) : Raises P (pure a : Prog D E ε σ α) := .of_ok fun _ _ => ⟨_, rfl⟩

theorem Raises.bind {p : Prog D E ε σ α} {f : α → Prog D E ε σ β} (hp : Raises P p)
    (hf : ∀ a, Raises P (f a)) : Raises P (p >>= f) := by
  intro s d e he
  change (Prog.bind p f s d).result = _ at he
  unfold Prog.bind at he
  cases hr : p s d with
  | mk r s' es =>
      rw [hr] at he
      cases r with
      | error e' =>
          cases he
          exact hp s d e (congrArg Outcome.result hr)
      | ok a => exact hf a s' (applyAll es d) e he

omit [Device D E] in
theorem Raises.ite {c : Prop} [Decidable c] {p q : Prog D E ε σ α} (hp : Raises P p)
    (hq : Raises P q) : Raises P (if c then p else q) := by
  split
  · exact hp
  · exact hq

theorem Raises.when {c : Prop} [Decidable c] {p : Prog D E ε σ Unit} (hp : Raises P p) :
    Raises P (when c p) :=
  .ite hp (.pure _)

theorem Raises.forM {xs : List α} {f : α → Prog D E ε σ PUnit} (hf : ∀ x, Raises P (f x)) :
    Raises P (xs.forM f) := by
  induction xs with
  | nil => exact .pure _
  | cons x xs ih => exact (hf x).bind fun _ => ih

end

/-! ## Weakest preconditions with a crash condition -/

/-- From state `s` on device `d`, every device that one or more of the effects
lead to satisfies `C`, a return satisfies `Q`, and a fault satisfies `R`. -/
def wp (p : Prog D E ε σ α) (C : D → Prop) (Q : α → σ → D → Prop) (R : ε → σ → D → Prop)
    (s : σ) (d : D) : Prop :=
  match p s d with
  | ⟨.ok a, s', es⟩ => Through C es d ∧ Q a s' (applyAll es d)
  | ⟨.error e, s', es⟩ => Through C es d ∧ R e s' (applyAll es d)

variable {C : D → Prop} {Q : α → σ → D → Prop} {R : ε → σ → D → Prop} {s : σ} {d : D}

theorem wp_through {p : Prog D E ε σ α} (h : wp p C Q R s d) : Through C (p s d).effects d := by
  rw [wp] at h
  split at h <;> rename_i hp <;> rw [hp] <;> exact h.1

theorem wp_crash {p : Prog D E ε σ α} (h : wp p C Q R s d) (hd : C d) (k : Nat) :
    C (p.crash k s d) :=
  (wp_through h).take hd k

theorem wp_ok {p : Prog D E ε σ α} {a : α} (h : wp p C Q R s d) (ha : (p s d).result = .ok a) :
    Q a (p s d).state (p.final s d) := by
  rw [wp] at h
  rw [final]
  split at h <;> rename_i hp <;> rw [hp] at ha ⊢
  · cases ha
    exact h.2
  · cases ha

theorem wp_error {p : Prog D E ε σ α} {e : ε} (h : wp p C Q R s d)
    (he : (p s d).result = .error e) : R e (p s d).state (p.final s d) := by
  rw [wp] at h
  rw [final]
  split at h <;> rename_i hp <;> rw [hp] at he ⊢
  · cases he
  · cases he
    exact h.2

/-- A program that cannot fault returns. -/
theorem wp_returns {p : Prog D E ε σ α} (h : wp p C Q (fun _ _ _ => False) s d) :
    ∃ a, (p s d).result = .ok a ∧ Q a (p s d).state (p.final s d) := by
  cases hr : (p s d).result with
  | ok a => exact ⟨a, rfl, wp_ok h hr⟩
  | error e => exact (wp_error h hr).elim

theorem wp_mono {p : Prog D E ε σ α} {C' : D → Prop} {Q' : α → σ → D → Prop}
    {R' : ε → σ → D → Prop} (h : wp p C Q R s d) (hC : ∀ d, C d → C' d)
    (hQ : ∀ a s d, Q a s d → Q' a s d) (hR : ∀ e s d, R e s d → R' e s d) :
    wp p C' Q' R' s d := by
  rw [wp] at h ⊢
  split at h
  · exact ⟨h.1.mono hC, hQ _ _ _ h.2⟩
  · exact ⟨h.1.mono hC, hR _ _ _ h.2⟩

theorem wp_and {p : Prog D E ε σ α} {C' : D → Prop} {Q' : α → σ → D → Prop}
    {R' : ε → σ → D → Prop} (h : wp p C Q R s d) (h' : wp p C' Q' R' s d) :
    wp p (fun d => C d ∧ C' d) (fun a s d => Q a s d ∧ Q' a s d) (fun e s d => R e s d ∧ R' e s d)
      s d := by
  rw [wp] at h h' ⊢
  split at h
  · rename_i hp
    rw [hp] at h'
    exact ⟨h.1.and h'.1, h.2, h'.2⟩
  · rename_i hp
    rw [hp] at h'
    exact ⟨h.1.and h'.1, h.2, h'.2⟩

/-- Weaken the postcondition alone. -/
theorem wp_conseq {p : Prog D E ε σ α} {Q' : α → σ → D → Prop} (h : wp p C Q R s d)
    (hQ : ∀ a s d, Q a s d → Q' a s d) : wp p C Q' R s d :=
  wp_mono h (fun _ => id) hQ (fun _ _ _ => id)

/-- A program whose faults are known, where nothing else matters. -/
theorem Raises.wp {P : ε → Prop} {p : Prog D E ε σ α} (h : Raises P p) {Q : α → σ → D → Prop}
    {R : ε → σ → D → Prop} (hQ : ∀ a s d, Q a s d) (hR : ∀ e s d, P e → R e s d) :
    wp p (fun _ => True) Q R s d := by
  have hthrough : Through (fun _ => True) (p s d).effects d := .of_forall (fun _ => trivial) _ _
  unfold Prog.wp
  split
  · rename_i hp
    rw [hp] at hthrough
    exact ⟨hthrough, hQ _ _ _⟩
  · rename_i hp
    rw [hp] at hthrough
    exact ⟨hthrough, hR _ _ _ (h s d _ (congrArg Outcome.result hp))⟩

@[simp] theorem wp_pure {a : α} : wp (pure a : Prog D E ε σ α) C Q R s d ↔ Q a s d := by
  simp [wp, pure, Prog.pure, Through]

@[simp] theorem wp_fault {e : ε} : wp (fault e : Prog D E ε σ α) C Q R s d ↔ R e s d := by
  simp [wp, fault, Through]

@[simp] theorem wp_ofExcept {x : Except ε α} :
    wp (ofExcept x : Prog D E ε σ α) C Q R s d ↔
      (∀ a, x = .ok a → Q a s d) ∧ (∀ e, x = .error e → R e s d) := by
  cases x <;> simp [wp, ofExcept, Through]

@[simp] theorem wp_asks {f : σ → α} : wp (asks f : Prog D E ε σ α) C Q R s d ↔ Q (f s) s d := by
  simp [wp, asks, Through]

@[simp] theorem wp_modify {f : σ → σ} {Q : Unit → σ → D → Prop} :
    wp (modify f : Prog D E ε σ Unit) C Q R s d ↔ Q () (f s) d := by
  simp [wp, modify, Through]

@[simp] theorem wp_device {Q : D → σ → D → Prop} :
    wp (device : Prog D E ε σ D) C Q R s d ↔ Q d s d := by
  simp [wp, device, Through]

@[simp] theorem wp_emit {e : E} {Q : Unit → σ → D → Prop} :
    wp (emit e : Prog D E ε σ Unit) C Q R s d ↔ C (apply e d) ∧ Q () s (apply e d) := by
  simp [wp, emit, Through]

@[simp] theorem wp_bind {p : Prog D E ε σ α} {f : α → Prog D E ε σ β} {Q : β → σ → D → Prop} :
    wp (p >>= f) C Q R s d ↔ wp p C (fun a s d => wp (f a) C Q R s d) R s d := by
  change wp (Prog.bind p f) C Q R s d ↔ _
  cases hp : p s d with
  | mk r s' es =>
      cases r with
      | error e => simp [wp, Prog.bind, hp]
      | ok a =>
          cases hf : f a s' (applyAll es d) with
          | mk r' s'' es' =>
              cases r' <;> simp [wp, Prog.bind, hp, hf, Through.append, applyAll_append, and_assoc]

@[simp] theorem wp_embed {into : σ → τ} {out : τ → σ} {p : Prog D E ε τ α}
    {Q : α × τ → σ → D → Prop} :
    wp (embed into out p) C Q R s d ↔
      wp p C (fun a t d => Q (a, t) (out t) d) (fun e t d => R e (out t) d) (into s) d := by
  cases hp : p (into s) d with
  | mk r t es => cases r <;> simp [wp, embed, hp]

@[simp] theorem wp_ite {c : Prop} [Decidable c] {p q : Prog D E ε σ α} :
    wp (if c then p else q) C Q R s d ↔ (c → wp p C Q R s d) ∧ (¬c → wp q C Q R s d) := by
  by_cases h : c <;> simp [h]

@[simp] theorem wp_when {c : Prop} [Decidable c] {p : Prog D E ε σ Unit}
    {Q : Unit → σ → D → Prop} :
    wp (when c p) C Q R s d ↔ (c → wp p C Q R s d) ∧ (¬c → Q () s d) := by
  by_cases h : c <;> simp [when, h]

/-- A loop over a list, with an invariant indexed by what is left of the list. -/
theorem wp_forM {xs : List α} {f : α → Prog D E ε σ PUnit} {Q : PUnit → σ → D → Prop}
    (I : List α → σ → D → Prop)
    (step : ∀ x xs s d, I (x :: xs) s d → wp (f x) C (fun _ => I xs) R s d)
    (done : ∀ s d, I [] s d → Q ⟨⟩ s d) (h : I xs s d) :
    wp (xs.forM f) C Q R s d := by
  induction xs generalizing s d with
  | nil => exact wp_pure.mpr (done s d h)
  | cons x xs ih => exact wp_bind.mpr (wp_conseq (step x xs s d h) fun _ _ _ h' => ih h')

/-! ## Frames -/

/-- Whether the program returns, faults or is stopped, `f` of the state and `g` of the device
stay as they are. -/
def Frames {φ γ : Type} (f : σ → φ) (g : D → γ) (p : Prog D E ε σ α) : Prop :=
  ∀ s d, wp p (fun d' => g d' = g d) (fun _ s' d' => f s' = f s ∧ g d' = g d)
    (fun _ s' d' => f s' = f s ∧ g d' = g d) s d

section

variable {φ γ : Type} {f : σ → φ} {g : D → γ}

theorem Frames.wp {p : Prog D E ε σ α} (h : Frames f g p) (hC : ∀ d', g d' = g d → C d')
    (hQ : ∀ a s' d', f s' = f s → g d' = g d → Q a s' d')
    (hR : ∀ e s' d', f s' = f s → g d' = g d → R e s' d') : wp p C Q R s d :=
  wp_mono (h s d) hC (fun a s' d' hframe => hQ a s' d' hframe.1 hframe.2)
    fun e s' d' hframe => hR e s' d' hframe.1 hframe.2

theorem Frames.mono {φ' γ' : Type} {f' : σ → φ'} {g' : D → γ'} {p : Prog D E ε σ α}
    (h : Frames f g p) (hf : ∀ s s', f s' = f s → f' s' = f' s)
    (hg : ∀ d d', g d' = g d → g' d' = g' d) : Frames f' g' p :=
  fun s d => h.wp (fun d' => hg d d') (fun _ s' d' hs hd => ⟨hf s s' hs, hg d d' hd⟩)
    fun _ s' d' hs hd => ⟨hf s s' hs, hg d d' hd⟩

theorem Frames.pure (a : α) : Frames f g (pure a : Prog D E ε σ α) :=
  fun _ _ => wp_pure.mpr ⟨rfl, rfl⟩

theorem Frames.fault (e : ε) : Frames f g (fault e : Prog D E ε σ α) :=
  fun _ _ => wp_fault.mpr ⟨rfl, rfl⟩

theorem Frames.ofExcept (x : Except ε α) : Frames f g (ofExcept x : Prog D E ε σ α) :=
  fun _ _ => wp_ofExcept.mpr ⟨fun _ _ => ⟨rfl, rfl⟩, fun _ _ => ⟨rfl, rfl⟩⟩

theorem Frames.asks (read : σ → α) : Frames f g (asks read : Prog D E ε σ α) :=
  fun _ _ => wp_asks.mpr ⟨rfl, rfl⟩

theorem Frames.modify {change : σ → σ} (h : ∀ s, f (change s) = f s) :
    Frames f g (modify change : Prog D E ε σ Unit) :=
  fun s _ => wp_modify.mpr ⟨h s, rfl⟩

theorem Frames.device : Frames f g (device : Prog D E ε σ D) :=
  fun _ _ => wp_device.mpr ⟨rfl, rfl⟩

theorem Frames.emit {e : E} (h : ∀ d : D, g (apply e d) = g d) :
    Frames f g (emit e : Prog D E ε σ Unit) :=
  fun _ d => wp_emit.mpr ⟨h d, rfl, h d⟩

theorem Frames.bind {p : Prog D E ε σ α} {k : α → Prog D E ε σ β} (hp : Frames f g p)
    (hk : ∀ a, Frames f g (k a)) : Frames f g (p >>= k) := by
  intro s d
  refine wp_bind.mpr (hp.wp (fun _ => id) (fun a s₁ d₁ hs hd => ?_) fun _ _ _ hs hd => ⟨hs, hd⟩)
  exact (hk a).wp (fun _ h => h.trans hd) (fun _ _ _ hs' hd' => ⟨hs'.trans hs, hd'.trans hd⟩)
    fun _ _ _ hs' hd' => ⟨hs'.trans hs, hd'.trans hd⟩

theorem Frames.ite {c : Prop} [Decidable c] {p q : Prog D E ε σ α} (hp : Frames f g p)
    (hq : Frames f g q) : Frames f g (if c then p else q) :=
  fun s d => wp_ite.mpr ⟨fun _ => hp s d, fun _ => hq s d⟩

theorem Frames.when {c : Prop} [Decidable c] {p : Prog D E ε σ Unit} (hp : Frames f g p) :
    Frames f g (when c p) :=
  fun s d => wp_when.mpr ⟨fun _ => hp s d, fun _ => ⟨rfl, rfl⟩⟩

theorem Frames.forM {xs : List α} {body : α → Prog D E ε σ PUnit} (h : ∀ x, Frames f g (body x)) :
    Frames f g (xs.forM body) := by
  induction xs with
  | nil => exact .pure _
  | cons x xs ih => exact (h x).bind fun _ => ih

end

/-! ## Invariants -/

/-- Whether the program returns, faults or is stopped, `C` still holds of the device, and if
it is not stopped then `I` still holds of the state. -/
def Maintains (I : σ → Prop) (C : D → Prop) (p : Prog D E ε σ α) : Prop :=
  ∀ s d, I s → C d → wp p C (fun _ s' d' => I s' ∧ C d') (fun _ s' d' => I s' ∧ C d') s d

section

variable {I : σ → Prop} {C : D → Prop}

/-- What a program leaves as it is can be relied on. -/
theorem Frames.maintains {φ γ : Type} {f : σ → φ} {g : D → γ} {p : Prog D E ε σ α}
    (h : Frames f g p) (hI : ∀ s s', f s' = f s → I s → I s')
    (hC : ∀ d d', g d' = g d → C d → C d') : Maintains I C p :=
  fun s d hs hd => h.wp (fun d' hd' => hC d d' hd' hd)
    (fun _ s' d' hs' hd' => ⟨hI s s' hs' hs, hC d d' hd' hd⟩)
    fun _ s' d' hs' hd' => ⟨hI s s' hs' hs, hC d d' hd' hd⟩

theorem Maintains.pure (a : α) : Maintains I C (pure a : Prog D E ε σ α) :=
  fun _ _ hs hd => wp_pure.mpr ⟨hs, hd⟩

theorem Maintains.ofExcept (x : Except ε α) : Maintains I C (ofExcept x : Prog D E ε σ α) :=
  fun _ _ hs hd => wp_ofExcept.mpr ⟨fun _ _ => ⟨hs, hd⟩, fun _ _ => ⟨hs, hd⟩⟩

theorem Maintains.modify {change : σ → σ} (h : ∀ s, I s → I (change s)) :
    Maintains I C (modify change : Prog D E ε σ Unit) :=
  fun s _ hs hd => wp_modify.mpr ⟨h s hs, hd⟩

theorem Maintains.bind {p : Prog D E ε σ α} {k : α → Prog D E ε σ β} (hp : Maintains I C p)
    (hk : ∀ a, Maintains I C (k a)) : Maintains I C (p >>= k) :=
  fun s d hs hd => wp_bind.mpr (wp_conseq (hp s d hs hd) fun a s' d' h => hk a s' d' h.1 h.2)

/-- What follows may use what is read. -/
theorem Maintains.bind_asks {read : σ → α} {k : α → Prog D E ε σ β}
    (h : ∀ s d, I s → C d → Prog.wp (k (read s)) C (fun _ s' d' => I s' ∧ C d')
      (fun _ s' d' => I s' ∧ C d') s d) : Maintains I C (asks read >>= k) :=
  fun s d hs hd => wp_bind.mpr (wp_asks.mpr (h s d hs hd))

theorem Maintains.asks (read : σ → α) : Maintains I C (asks read : Prog D E ε σ α) :=
  fun _ _ hs hd => wp_asks.mpr ⟨hs, hd⟩

theorem Maintains.ite {c : Prop} [Decidable c] {p q : Prog D E ε σ α} (hp : Maintains I C p)
    (hq : Maintains I C q) : Maintains I C (if c then p else q) :=
  fun s d hs hd => wp_ite.mpr ⟨fun _ => hp s d hs hd, fun _ => hq s d hs hd⟩

theorem Maintains.when {c : Prop} [Decidable c] {p : Prog D E ε σ Unit} (hp : Maintains I C p) :
    Maintains I C (when c p) :=
  fun s d hs hd => wp_when.mpr ⟨fun _ => hp s d hs hd, fun _ => ⟨hs, hd⟩⟩

theorem Maintains.forM {xs : List α} {body : α → Prog D E ε σ PUnit}
    (h : ∀ x, Maintains I C (body x)) : Maintains I C (xs.forM body) := by
  induction xs with
  | nil => exact .pure _
  | cons x xs ih => exact (h x).bind fun _ => ih

end

/-! ## Partial correctness -/

/-- A return satisfies `Q`. Nothing is said about faults and crashes. -/
def ensures (p : Prog D E ε σ α) (Q : α → σ → D → Prop) (s : σ) (d : D) : Prop :=
  wp p (fun _ => True) Q (fun _ _ _ => True) s d

theorem ensures_of_wp {p : Prog D E ε σ α} (h : wp p C Q R s d) : ensures p Q s d :=
  wp_mono h (fun _ _ => trivial) (fun _ _ _ => id) fun _ _ _ _ => trivial

theorem ensures_ok {p : Prog D E ε σ α} {a : α} (h : ensures p Q s d)
    (ha : (p s d).result = .ok a) : Q a (p s d).state (p.final s d) :=
  wp_ok h ha

/-- A program whose result is known. -/
theorem ensures_result {p : Prog D E ε σ α} {a : α} (h : ensures p Q s d)
    (ha : (p s d).result = .ok a) : ensures p (fun b s d => b = a ∧ Q b s d) s d := by
  unfold ensures wp at h ⊢
  split at h
  · rename_i hp
    rw [hp] at ha
    cases ha
    exact ⟨h.1, rfl, h.2⟩
  · rename_i hp
    rw [hp] at ha
    cases ha

theorem ensures_mono {p : Prog D E ε σ α} {Q' : α → σ → D → Prop} (h : ensures p Q s d)
    (hQ : ∀ a s d, Q a s d → Q' a s d) : ensures p Q' s d :=
  wp_conseq h hQ

theorem ensures_and {p : Prog D E ε σ α} {Q' : α → σ → D → Prop} (h : ensures p Q s d)
    (h' : ensures p Q' s d) : ensures p (fun a s d => Q a s d ∧ Q' a s d) s d :=
  ensures_of_wp (wp_and h h')

theorem ensures_of_forall {p : Prog D E ε σ α} (h : ∀ a s d, Q a s d) : ensures p Q s d := by
  have hthrough : ∀ es : List E, Through (fun _ => True) es d :=
    fun es => .of_forall (fun _ => trivial) es d
  unfold ensures wp
  split
  · exact ⟨hthrough _, h _ _ _⟩
  · exact ⟨hthrough _, trivial⟩

@[simp] theorem ensures_pure {a : α} :
    ensures (pure a : Prog D E ε σ α) Q s d ↔ Q a s d := wp_pure

@[simp] theorem ensures_fault {e : ε} : ensures (fault e : Prog D E ε σ α) Q s d := by
  simp [ensures]

@[simp] theorem ensures_ofExcept {x : Except ε α} :
    ensures (ofExcept x : Prog D E ε σ α) Q s d ↔ ∀ a, x = .ok a → Q a s d := by
  simp [ensures]

@[simp] theorem ensures_asks {f : σ → α} :
    ensures (asks f : Prog D E ε σ α) Q s d ↔ Q (f s) s d := wp_asks

@[simp] theorem ensures_modify {f : σ → σ} {Q : Unit → σ → D → Prop} :
    ensures (modify f : Prog D E ε σ Unit) Q s d ↔ Q () (f s) d := wp_modify

@[simp] theorem ensures_device {Q : D → σ → D → Prop} :
    ensures (device : Prog D E ε σ D) Q s d ↔ Q d s d := wp_device

@[simp] theorem ensures_emit {e : E} {Q : Unit → σ → D → Prop} :
    ensures (emit e : Prog D E ε σ Unit) Q s d ↔ Q () s (apply e d) := by
  simp [ensures]

@[simp] theorem ensures_bind {p : Prog D E ε σ α} {f : α → Prog D E ε σ β}
    {Q : β → σ → D → Prop} :
    ensures (p >>= f) Q s d ↔ ensures p (fun a s d => ensures (f a) Q s d) s d := wp_bind

@[simp] theorem ensures_embed {into : σ → τ} {out : τ → σ} {p : Prog D E ε τ α}
    {Q : α × τ → σ → D → Prop} :
    ensures (embed into out p) Q s d ↔ ensures p (fun a t d => Q (a, t) (out t) d) (into s) d :=
  wp_embed

@[simp] theorem ensures_ite {c : Prop} [Decidable c] {p q : Prog D E ε σ α} :
    ensures (if c then p else q) Q s d ↔ (c → ensures p Q s d) ∧ (¬c → ensures q Q s d) := wp_ite

@[simp] theorem ensures_when {c : Prop} [Decidable c] {p : Prog D E ε σ Unit}
    {Q : Unit → σ → D → Prop} :
    ensures (when c p) Q s d ↔ (c → ensures p Q s d) ∧ (¬c → Q () s d) := wp_when

/-- An effect that may or may not take place. -/
theorem ensures_when_emit {c : Prop} [Decidable c] {e : E} {Q : Unit → σ → D → Prop}
    (hQ : ∀ d', Q () s d') : ensures (when c (emit e) : Prog D E ε σ Unit) Q s d := by
  rw [ensures_when, ensures_emit]
  exact ⟨fun _ => hQ _, fun _ => hQ _⟩

/-- A loop over a list, with an invariant indexed by what is left of the list. -/
theorem ensures_forM {xs : List α} {f : α → Prog D E ε σ PUnit} {Q : PUnit → σ → D → Prop}
    (I : List α → σ → D → Prop)
    (step : ∀ x xs s d, I (x :: xs) s d → ensures (f x) (fun _ => I xs) s d)
    (done : ∀ s d, I [] s d → Q ⟨⟩ s d) (h : I xs s d) : ensures (xs.forM f) Q s d :=
  wp_forM I step done h

/-! ## Runs that return -/

/-- From `s` on `d` the program returns `a` and leaves `s'` and `d'`. -/
def Runs (p : Prog D E ε σ α) (s : σ) (d : D) (a : α) (s' : σ) (d' : D) : Prop :=
  (p s d).result = .ok a ∧ (p s d).state = s' ∧ p.final s d = d'

theorem runs_of_ok {p : Prog D E ε σ α} {a : α} (h : (p s d).result = .ok a) :
    Runs p s d a (p s d).state (p.final s d) :=
  ⟨h, rfl, rfl⟩

theorem ensures_runs {p : Prog D E ε σ α} {a : α} {s' : σ} {d' : D} (h : ensures p Q s d)
    (hrun : Runs p s d a s' d') : Q a s' d' := by
  obtain ⟨ha, rfl, rfl⟩ := hrun
  exact ensures_ok h ha

theorem runs_pure {a b : α} {s' : σ} {d' : D} :
    Runs (pure a : Prog D E ε σ α) s d b s' d' ↔ a = b ∧ s = s' ∧ d = d' := by
  unfold Runs final
  change Except.ok a = Except.ok b ∧ s = s' ∧ applyAll [] d = d' ↔ _
  rw [Except.ok.injEq, applyAll_nil]

theorem runs_device {s' : σ} {d' a : D} :
    Runs (device : Prog D E ε σ D) s d a s' d' ↔ d = a ∧ s = s' ∧ d = d' := by
  unfold Runs final
  change Except.ok d = Except.ok a ∧ s = s' ∧ applyAll [] d = d' ↔ _
  rw [Except.ok.injEq, applyAll_nil]

theorem runs_bind {p : Prog D E ε σ α} {f : α → Prog D E ε σ β} {b : β} {s' : σ} {d' : D} :
    Runs (p >>= f) s d b s' d' ↔ ∃ a s₁ d₁, Runs p s d a s₁ d₁ ∧ Runs (f a) s₁ d₁ b s' d' := by
  unfold Runs final
  change (Prog.bind p f s d).result = _ ∧ (Prog.bind p f s d).state = _ ∧
    applyAll (Prog.bind p f s d).effects d = _ ↔ _
  cases hp : p s d with
  | mk r s₁ es =>
      cases r with
      | error e => simp [Prog.bind, hp]
      | ok a =>
          cases hf : f a s₁ (applyAll es d) with
          | mk r' s₂ es' => simp [Prog.bind, hp, hf, applyAll_append]

theorem runs_embed {into : σ → τ} {out : τ → σ} {p : Prog D E ε τ α} {a : α} {t : τ} {s' : σ}
    {d' : D} :
    Runs (embed into out p) s d (a, t) s' d' ↔ Runs p (into s) d a t d' ∧ out t = s' := by
  unfold Runs final
  cases hp : p (into s) d with
  | mk r t' es =>
      cases r with
      | error e => simp [embed, hp]
      | ok a' =>
          simp only [embed, hp, Except.ok.injEq, Prod.mk.injEq]
          constructor
          · rintro ⟨⟨ha, rfl⟩, hs, hd⟩
            exact ⟨⟨ha, rfl, hd⟩, hs⟩
          · rintro ⟨⟨ha, rfl, hd⟩, hs⟩
            exact ⟨⟨ha, rfl⟩, hs, hd⟩

end Prog
