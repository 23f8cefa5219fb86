-- SUMMARY: Loops over a list in the exception monad: what every iteration keeps, the loop keeps.
import Mathlib.Data.List.Basic
import Mathlib.Tactic.Common

/-!
# Loops that can fail

Two rules for `List.foldlM` in `Except`: one that also shows the loop returns,
one for a loop that is known to have returned.
-/

namespace Loop

variable {ε α β : Type}

/-- `x` returns a value with property `P`. -/
def Returns (P : α → Prop) (x : Except ε α) : Prop := ∃ a, x = .ok a ∧ P a

theorem Returns.ok {P : α → Prop} {a : α} (h : P a) : Returns P (.ok a : Except ε α) :=
  ⟨a, rfl, h⟩

theorem eq_ok_get {x : Except ε α} (h : x.toOption.isSome) : x = .ok (x.toOption.get h) := by
  cases x with
  | error e => cases h
  | ok a => rfl

/-- What a computation is found to return. -/
theorem ok_of_map {x : Except ε α} {f : α → β} {b : β} (h : x.toOption.map f = some b) :
    ∃ a, x = .ok a ∧ f a = b := by
  cases x with
  | error e => cases h
  | ok a => exact ⟨a, rfl, Option.some.inj h⟩

theorem Returns.bind {P : α → Prop} {Q : β → Prop} {x : Except ε α} {f : α → Except ε β}
    (hx : Returns P x) (hf : ∀ a, P a → Returns Q (f a)) : Returns Q (x >>= f) := by
  obtain ⟨a, rfl, ha⟩ := hx
  exact hf a ha

theorem Returns.map {P : α → Prop} {Q : β → Prop} {x : Except ε α} {f : α → β}
    (hx : Returns P x) (hf : ∀ a, P a → Q (f a)) : Returns Q (f <$> x) := by
  obtain ⟨a, rfl, ha⟩ := hx
  exact ⟨f a, rfl, hf a ha⟩

theorem Returns.mono {P Q : α → Prop} {x : Except ε α} (hx : Returns P x) (h : ∀ a, P a → Q a) :
    Returns Q x := by
  obtain ⟨a, rfl, ha⟩ := hx
  exact ⟨a, rfl, h a ha⟩

theorem bind_eq_ok {x : Except ε α} {f : α → Except ε β} {b : β} :
    (x >>= f) = .ok b ↔ ∃ a, x = .ok a ∧ f a = .ok b := by
  cases x with
  | error e =>
      refine ⟨fun h => ?_, fun ⟨_, h, _⟩ => by cases h⟩
      change Except.error e = Except.ok b at h
      cases h
  | ok a =>
      refine ⟨fun h => ⟨a, rfl, h⟩, ?_⟩
      rintro ⟨a', h, hf⟩
      cases h
      exact hf

theorem map_eq_ok {x : Except ε α} {f : α → β} {b : β} :
    f <$> x = .ok b ↔ ∃ a, x = .ok a ∧ f a = b := by
  cases x with
  | error e =>
      refine ⟨fun h => ?_, fun ⟨_, h, _⟩ => by cases h⟩
      change Except.error e = Except.ok b at h
      cases h
  | ok a =>
      change Except.ok (f a) = Except.ok b ↔ _
      simp

theorem bind_unit_eq_ok {x : Except ε Unit} {f : Unit → Except ε β} {b : β} :
    (x >>= f) = .ok b ↔ x = .ok () ∧ f () = .ok b := by
  rw [bind_eq_ok]
  exact ⟨fun ⟨_, hx, hf⟩ => ⟨hx, hf⟩, fun ⟨hx, hf⟩ => ⟨(), hx, hf⟩⟩

/-- Every iteration returns and keeps the invariant, which may speak of what is
left of the list. -/
theorem foldlM_returns {f : β → α → Except ε β} (I : List α → β → Prop) {l : List α} {b : β}
    (step : ∀ x xs b, I (x :: xs) b → Returns (I xs) (f b x)) (h : I l b) :
    Returns (I []) (l.foldlM f b) := by
  induction l generalizing b with
  | nil => exact .ok h
  | cons x xs ih =>
      rw [List.foldlM_cons]
      exact (step x xs b h).bind fun b' hb' => ih hb'

/-- A loop that returned kept what each iteration that returns keeps. -/
theorem foldlM_keeps {f : β → α → Except ε β} (I : List α → β → Prop) {l : List α} {b b' : β}
    (step : ∀ x xs b b', I (x :: xs) b → f b x = .ok b' → I xs b')
    (h : I l b) (hret : l.foldlM f b = .ok b') : I [] b' := by
  induction l generalizing b with
  | nil =>
      cases hret
      exact h
  | cons x xs ih =>
      rw [List.foldlM_cons, bind_eq_ok] at hret
      obtain ⟨b₁, h₁, hrest⟩ := hret
      exact ih (step x xs b b₁ h h₁) hrest

/-- A loop that returned was in some state at each item, and every iteration returned. -/
theorem foldlM_ok_of_mem {f : β → α → Except ε β} {l : List α} {b b' : β} (h : l.foldlM f b = .ok b')
    {x : α} (hx : x ∈ l) : ∃ b₁ b₂, f b₁ x = .ok b₂ := by
  induction l generalizing b with
  | nil => cases hx
  | cons x' l ih =>
      rw [List.foldlM_cons] at h
      obtain ⟨b₁, hstep, hrest⟩ := bind_eq_ok.mp h
      cases List.mem_cons.mp hx with
      | inl heq => exact ⟨b, b₁, heq ▸ hstep⟩
      | inr hmem => exact ih hrest hmem

/-- Two loops that do the same wherever the invariant holds. -/
theorem foldlM_congr {f g : β → α → Except ε β} (I : β → Prop) {l : List α} {b : β}
    (hsame : ∀ x ∈ l, ∀ b, I b → f b x = g b x)
    (step : ∀ x ∈ l, ∀ b b', I b → f b x = .ok b' → I b') (h : I b) : l.foldlM f b = l.foldlM g b := by
  induction l generalizing b with
  | nil => rfl
  | cons x xs ih =>
      rw [List.foldlM_cons, List.foldlM_cons, ← hsame x (by simp) b h]
      cases hb : f b x with
      | error e => rfl
      | ok b' =>
          exact ih (fun x' hx' => hsame x' (by simp [hx'])) (fun x' hx' => step x' (by simp [hx']))
            (step x (by simp) b b' h hb)

theorem mapM_returns {f : α → Except ε β} {P : α → β → Prop} {xs : List α}
    (step : ∀ x ∈ xs, Returns (P x) (f x)) :
    Returns (fun ys => ys.length = xs.length ∧ ∀ y ∈ ys, ∃ x ∈ xs, P x y) (xs.mapM f) := by
  induction xs with
  | nil => exact ⟨[], rfl, rfl, by simp⟩
  | cons x xs ih =>
      obtain ⟨y, hy, hpy⟩ := step x (by simp)
      obtain ⟨ys, hys, hlen, hall⟩ := ih fun x' hx' => step x' (by simp [hx'])
      refine ⟨y :: ys, by rw [List.mapM_cons, hy, hys]; rfl, by simp [hlen], ?_⟩
      intro y' hy'
      cases List.mem_cons.mp hy' with
      | inl h => exact ⟨x, by simp, h ▸ hpy⟩
      | inr h =>
          obtain ⟨x', hx', hp⟩ := hall y' h
          exact ⟨x', by simp [hx'], hp⟩

/-- What a `mapM` that returned computed. -/
theorem mapM_eq_ok {f : α → Except ε β} {xs : List α} {ys : List β} (h : xs.mapM f = .ok ys) :
    ys.length = xs.length ∧ ∀ y ∈ ys, ∃ x ∈ xs, f x = .ok y := by
  induction xs generalizing ys with
  | nil =>
      cases h
      simp
  | cons x xs ih =>
      rw [List.mapM_cons, bind_eq_ok] at h
      obtain ⟨y, hy, h⟩ := h
      rw [bind_eq_ok] at h
      obtain ⟨ys', hys', h⟩ := h
      cases h
      obtain ⟨hlen, hall⟩ := ih hys'
      refine ⟨by simp [hlen], ?_⟩
      intro y' hy'
      cases List.mem_cons.mp hy' with
      | inl h => exact ⟨x, by simp, h ▸ hy⟩
      | inr h =>
          obtain ⟨x', hx', hf⟩ := hall y' h
          exact ⟨x', by simp [hx'], hf⟩

/-- The results stand in the places of what they were computed from. -/
theorem forall₂_of_mapM {f : α → Except ε β} {xs : List α} {ys : List β} (h : xs.mapM f = .ok ys) :
    List.Forall₂ (fun x y => f x = .ok y) xs ys := by
  induction xs generalizing ys with
  | nil =>
      cases h
      exact .nil
  | cons x xs ih =>
      rw [List.mapM_cons] at h
      obtain ⟨y, hy, h⟩ := bind_eq_ok.mp h
      obtain ⟨ys', hys', h⟩ := bind_eq_ok.mp h
      cases h
      exact .cons hy (ih hys')

theorem mapM_covers {f : α → Except ε β} {xs : List α} {ys : List β} (h : xs.mapM f = .ok ys)
    {x : α} (hx : x ∈ xs) : ∃ y ∈ ys, f x = .ok y := by
  induction xs generalizing ys with
  | nil => cases hx
  | cons x' xs ih =>
      rw [List.mapM_cons, bind_eq_ok] at h
      obtain ⟨y, hy, h⟩ := h
      rw [bind_eq_ok] at h
      obtain ⟨ys', hys', h⟩ := h
      cases h
      cases List.mem_cons.mp hx with
      | inl heq => exact ⟨y, List.mem_cons_self, heq ▸ hy⟩
      | inr hmem =>
          obtain ⟨y', hy', hf⟩ := ih hys' hmem
          exact ⟨y', List.mem_cons_of_mem _ hy', hf⟩

theorem mapM_ok_of_mem {f : α → Except ε β} {xs : List α} {ys : List β} (h : xs.mapM f = .ok ys)
    {x : α} (hx : x ∈ xs) : ∃ y, f x = .ok y := by
  obtain ⟨y, -, hy⟩ := mapM_covers h hx
  exact ⟨y, hy⟩

theorem mapM_eq_map {f : α → Except ε β} {g : α → β} {xs : List α}
    (h : ∀ x ∈ xs, f x = .ok (g x)) : xs.mapM f = .ok (xs.map g) := by
  induction xs with
  | nil => rfl
  | cons x xs ih =>
      rw [List.mapM_cons, h x (by simp), ih fun x' hx' => h x' (by simp [hx'])]
      rfl

/-- A `mapM` that returned, where `g` says what each step computes. -/
theorem mapM_ok_eq_map {f : α → Except ε β} {g : α → β} {xs : List α} {ys : List β}
    (h : xs.mapM f = .ok ys) (hg : ∀ x ∈ xs, ∀ y, f x = .ok y → y = g x) : ys = xs.map g := by
  have hf : ∀ x ∈ xs, f x = .ok (g x) := by
    intro x hx
    obtain ⟨y, hy⟩ := mapM_ok_of_mem h hx
    rw [hy, hg x hx y hy]
  rw [mapM_eq_map hf] at h
  exact (Except.ok.inj h).symm

/-! ## How a computation can fail -/

/-- Every fault of `x` has property `P`. -/
def Faults (P : ε → Prop) (x : Except ε α) : Prop := ∀ e, x = .error e → P e

theorem Faults.ok {P : ε → Prop} (a : α) : Faults P (.ok a : Except ε α) := by
  intro e he
  cases he

theorem Faults.error {P : ε → Prop} {e : ε} (h : P e) : Faults P (.error e : Except ε α) := by
  intro e' he'
  cases he'
  exact h

theorem Faults.mono {P Q : ε → Prop} {x : Except ε α} (hx : Faults P x) (h : ∀ e, P e → Q e) :
    Faults Q x :=
  fun e he => h e (hx e he)

theorem Faults.bind {P : ε → Prop} {x : Except ε α} {f : α → Except ε β} (hx : Faults P x)
    (hf : ∀ a, x = .ok a → Faults P (f a)) : Faults P (x >>= f) := by
  cases x with
  | error e => exact .error (hx e rfl)
  | ok a => exact hf a rfl

theorem Faults.of_bind {P : ε → Prop} {x : Except ε α} {f : α → Except ε β}
    (h : Faults P (x >>= f)) : Faults P x := by
  intro e he
  refine h e ?_
  rw [he]
  rfl

theorem Faults.bind_iff {P : ε → Prop} {x : Except ε α} {f : α → Except ε β} (hx : Faults P x) :
    Faults P (x >>= f) ↔ ∀ a, x = .ok a → Faults P (f a) := by
  refine ⟨fun h a ha e he => h e ?_, fun h => hx.bind h⟩
  rw [ha]
  exact he

theorem Returns.faults {P : α → Prop} {Q : ε → Prop} {x : Except ε α} (h : Returns P x) :
    Faults Q x := by
  obtain ⟨a, rfl, -⟩ := h
  exact .ok a

/-- No fault has both properties. -/
theorem ok_of_faults {P Q : ε → Prop} {x : Except ε α} (hp : Faults P x) (hq : Faults Q x)
    (hpq : ∀ e, P e → ¬Q e) : ∃ a, x = .ok a := by
  cases x with
  | error e => exact absurd (hq e rfl) (hpq e (hp e rfl))
  | ok a => exact ⟨a, rfl⟩

theorem Faults.map {P : ε → Prop} {x : Except ε α} {f : α → β} (hx : Faults P x) :
    Faults P (f <$> x) := by
  cases x with
  | error e => exact .error (hx e rfl)
  | ok a => exact .ok _

theorem Faults.mapM {P : ε → Prop} {f : α → Except ε β} {xs : List α}
    (hf : ∀ x ∈ xs, Faults P (f x)) : Faults P (xs.mapM f) := by
  induction xs with
  | nil => exact .ok _
  | cons x xs ih =>
      rw [List.mapM_cons]
      refine (hf x (by simp)).bind fun y _ => ?_
      exact (ih fun x' hx' => hf x' (by simp [hx'])).bind fun ys _ => .ok _

theorem Faults.forM {P : ε → Prop} {f : α → Except ε PUnit} {xs : List α}
    (hf : ∀ x ∈ xs, Faults P (f x)) : Faults P (xs.forM f) := by
  induction xs with
  | nil => exact .ok _
  | cons x xs ih =>
      exact (hf x (by simp)).bind fun _ _ => ih fun x' hx' => hf x' (by simp [hx'])

/-- A loop that keeps an invariant. -/
theorem Faults.foldlM_of {P : ε → Prop} {f : β → α → Except ε β} (I : β → Prop) {l : List α} {b : β}
    (hf : ∀ x ∈ l, ∀ b, I b → Faults P (f b x))
    (step : ∀ x ∈ l, ∀ b b', I b → f b x = .ok b' → I b') (h : I b) : Faults P (l.foldlM f b) := by
  induction l generalizing b with
  | nil => exact .ok _
  | cons x l ih =>
      rw [List.foldlM_cons]
      refine (hf x List.mem_cons_self b h).bind fun b' hb' => ?_
      exact ih (fun x' hx' => hf x' (List.mem_cons_of_mem x hx'))
        (fun x' hx' => step x' (List.mem_cons_of_mem x hx')) (step x List.mem_cons_self b b' h hb')

theorem Faults.foldlM {P : ε → Prop} {f : β → α → Except ε β} {l : List α} {b : β}
    (hf : ∀ x ∈ l, ∀ b, Faults P (f b x)) : Faults P (l.foldlM f b) :=
  .foldlM_of (fun _ => True) (fun x hx b _ => hf x hx b) (fun _ _ _ _ _ _ => trivial) trivial

end Loop
