-- SUMMARY: Two programs side by side: the first returns and faults as the second does, and its crashes are crashes of the second.
import Piramid.Base.Prog

/-!
# Relating two programs

A program over one device is compared with a program over another one, which says what the first
is for. They begin in related states and end in related states, with related values or faults.
Wherever a crash stops the first, there is a place where a crash of the second leaves a related
device.
-/

open Device

namespace Prog

variable {D E ε σ α β D' E' ε' σ' α' β' : Type}

/-- Run a program, and hand on how it ended. -/
def attempt (p : Prog D E ε σ α) : Prog D E ε σ (Except ε α) := fun s d =>
  match p s d with
  | ⟨r, s', es⟩ => ⟨.ok r, s', es⟩

/-- Have effects one after the other. -/
def emitAll (es : List E) : Prog D E ε σ Unit := fun s _ => ⟨.ok (), s, es⟩

variable [Device D E] [Device D' E']

@[simp] theorem wp_attempt {p : Prog D E ε σ α} {C : D → Prop} {Q : Except ε α → σ → D → Prop}
    {R : ε → σ → D → Prop} {s : σ} {d : D} :
    wp (attempt p) C Q R s d ↔ wp p C (fun a => Q (.ok a)) (fun e => Q (.error e)) s d := by
  unfold wp attempt
  cases hp : p s d with
  | mk r s' es => cases r <;> rfl

/-- From `s` on `d`, the program `p` does what `q` does from `s'` on `d'`: each device that its
effects lead to is `J`-related to one that a crash of `q` leaves, and it ends as `q` ends. -/
def Matches (p : Prog D E ε σ α) (q : Prog D' E' ε' σ' α') (J : D → D' → Prop)
    (Q : α → σ → D → α' → σ' → D' → Prop) (R : ε → σ → D → ε' → σ' → D' → Prop)
    (s : σ) (d : D) (s' : σ') (d' : D') : Prop :=
  wp p (fun x => ∃ j, J x (q.crash j s' d'))
    (fun a t x => ∃ b, (q s' d').result = .ok b ∧ Q a t x b (q s' d').state (q.final s' d'))
    (fun e t x => ∃ e', (q s' d').result = .error e' ∧ R e t x e' (q s' d').state (q.final s' d')) s d

variable {p : Prog D E ε σ α} {q : Prog D' E' ε' σ' α'} {J : D → D' → Prop}
  {Q : α → σ → D → α' → σ' → D' → Prop} {R : ε → σ → D → ε' → σ' → D' → Prop}
  {s : σ} {d : D} {s' : σ'} {d' : D'}

/-- A crash of the first program is matched by one of the second. -/
theorem Matches.crash (h : Matches p q J Q R s d s' d') (hd : J d d') (k : Nat) :
    ∃ j, J (p.crash k s d) (q.crash j s' d') :=
  wp_crash h ⟨0, by simpa [Prog.crash] using hd⟩ k

theorem Matches.ok (h : Matches p q J Q R s d s' d') {a : α} (ha : (p s d).result = .ok a) :
    ∃ b, (q s' d').result = .ok b ∧ Q a (p s d).state (p.final s d) b (q s' d').state (q.final s' d') :=
  wp_ok h ha

theorem Matches.error (h : Matches p q J Q R s d s' d') {e : ε} (he : (p s d).result = .error e) :
    ∃ e', (q s' d').result = .error e' ∧
      R e (p s d).state (p.final s d) e' (q s' d').state (q.final s' d') :=
  wp_error h he

/-- Where `p` begins in a state that does not matter, and `q` with steps that have no effect. -/
theorem matches_congr {q₁ : Prog D' E' ε' σ' α'} {s₁ : σ'} (h : q s' d' = q₁ s₁ d') :
    Matches p q J Q R s d s' d' ↔ Matches p q₁ J Q R s d s₁ d' := by
  unfold Matches Prog.crash final
  rw [h]

/-! ## Crashes of a program in parts -/

section

variable {f : α → Prog D E ε σ β}

/-- A crash in the first part. -/
theorem crash_bind_left (p : Prog D E ε σ α) (f : α → Prog D E ε σ β) (s : σ) (d : D) (k : Nat) :
    ∃ j, (p >>= f).crash j s d = p.crash k s d := by
  refine ⟨min k (p s d).effects.length, ?_⟩
  have htake : (p s d).effects.take (min k (p s d).effects.length) = (p s d).effects.take k := by
    rw [← List.take_take, List.take_length]
  unfold Prog.crash
  change applyAll ((Prog.bind p f s d).effects.take _) d = _
  unfold Prog.bind
  cases hp : p s d with
  | mk r t es =>
      rw [hp] at htake
      cases r with
      | error e => rw [htake]
      | ok a =>
          simp only at htake ⊢
          rw [List.take_append_of_le_length (Nat.min_le_right _ _), htake]

/-- A crash in the second part. -/
theorem crash_bind_right {a : α} (ha : (p s d).result = .ok a) (k : Nat) :
    ∃ j, (p >>= f).crash j s d = (f a).crash k (p s d).state (p.final s d) := by
  refine ⟨(p s d).effects.length + k, ?_⟩
  unfold Prog.crash final
  change applyAll ((Prog.bind p f s d).effects.take _) d = _
  unfold Prog.bind
  cases hp : p s d with
  | mk r t es =>
      rw [hp] at ha
      cases ha
      simp only [List.take_length_add_append, applyAll_append]

theorem run_bind_ok {a : α} (ha : (p s d).result = .ok a) :
    ((p >>= f) s d).result = (f a (p s d).state (p.final s d)).result ∧
      ((p >>= f) s d).state = (f a (p s d).state (p.final s d)).state ∧
      (p >>= f).final s d = (f a).final (p s d).state (p.final s d) := by
  have hrun : (p >>= f) s d = Prog.bind p f s d := rfl
  unfold final
  rw [hrun]
  unfold Prog.bind
  cases hp : p s d with
  | mk r t es =>
      rw [hp] at ha
      cases ha
      simp only [applyAll_append, and_self]

theorem run_bind_error {e : ε} (he : (p s d).result = .error e) :
    ((p >>= f) s d).result = .error e ∧ ((p >>= f) s d).state = (p s d).state ∧
      (p >>= f).final s d = p.final s d := by
  have hrun : (p >>= f) s d = Prog.bind p f s d := rfl
  unfold final
  rw [hrun]
  unfold Prog.bind
  cases hp : p s d with
  | mk r t es =>
      rw [hp] at he
      cases he
      exact ⟨rfl, rfl, rfl⟩

end

/-! ## Rules -/

@[simp] theorem matches_pure {a : α} {b : α'} :
    Matches (pure a : Prog D E ε σ α) (pure b : Prog D' E' ε' σ' α') J Q R s d s' d' ↔ Q a s d b s' d' := by
  refine Iff.trans wp_pure ?_
  constructor
  · rintro ⟨b', hb', h⟩
    cases hb'
    exact h
  · exact fun h => ⟨b, rfl, h⟩

@[simp] theorem matches_fault {e : ε} {e' : ε'} :
    Matches (fault e : Prog D E ε σ α) (fault e' : Prog D' E' ε' σ' α') J Q R s d s' d' ↔
      R e s d e' s' d' := by
  refine Iff.trans wp_fault ?_
  constructor
  · rintro ⟨e'', he'', h⟩
    cases he''
    exact h
  · exact fun h => ⟨e', rfl, h⟩

@[simp] theorem matches_asks {f : σ → α} {f' : σ' → α'} :
    Matches (asks f : Prog D E ε σ α) (asks f' : Prog D' E' ε' σ' α') J Q R s d s' d' ↔
      Q (f s) s d (f' s') s' d' := by
  refine Iff.trans wp_asks ?_
  constructor
  · rintro ⟨b, hb, h⟩
    cases hb
    exact h
  · exact fun h => ⟨_, rfl, h⟩

@[simp] theorem matches_modify {f : σ → σ} {f' : σ' → σ'}
    {Q : Unit → σ → D → Unit → σ' → D' → Prop} :
    Matches (modify f : Prog D E ε σ Unit) (modify f' : Prog D' E' ε' σ' Unit) J Q R s d s' d' ↔
      Q () (f s) d () (f' s') d' := by
  refine Iff.trans wp_modify ?_
  constructor
  · rintro ⟨b, hb, h⟩
    cases hb
    exact h
  · exact fun h => ⟨_, rfl, h⟩

/-- A computation that both programs make. -/
theorem matches_ofExcept {x : Except ε α} {Q : α → σ → D → α → σ' → D' → Prop}
    {R : ε → σ → D → ε → σ' → D' → Prop} (hQ : ∀ a, x = .ok a → Q a s d a s' d')
    (hR : ∀ e, x = .error e → R e s d e s' d') :
    Matches (ofExcept x : Prog D E ε σ α) (ofExcept x : Prog D' E' ε σ' α) J Q R s d s' d' := by
  refine wp_ofExcept.mpr ⟨fun a ha => ?_, fun e he => ?_⟩
  · exact ⟨a, ha, hQ a ha⟩
  · exact ⟨e, he, hR e he⟩

/-- One part after the other. -/
theorem matches_bind {f : α → Prog D E ε σ β} {g : α' → Prog D' E' ε' σ' β'}
    {Q : β → σ → D → β' → σ' → D' → Prop}
    (h : Matches p q J (fun a t x b t' x' => Matches (f a) (g b) J Q R t x t' x') R s d s' d') :
    Matches (p >>= f) (q >>= g) J Q R s d s' d' := by
  refine wp_bind.mpr (wp_mono h ?_ ?_ ?_)
  · rintro x ⟨j, hj⟩
    obtain ⟨k, hk⟩ := crash_bind_left q g s' d' j
    exact ⟨k, hk ▸ hj⟩
  · rintro a t x ⟨b, hb, hab⟩
    obtain ⟨hresult, hstate, hfinal⟩ := run_bind_ok (f := g) hb
    rw [hresult, hstate, hfinal]
    refine wp_mono hab ?_ (fun _ _ _ h => h) (fun _ _ _ h => h)
    rintro y ⟨j, hj⟩
    obtain ⟨k, hk⟩ := crash_bind_right (f := g) hb j
    exact ⟨k, hk ▸ hj⟩
  · rintro e t x ⟨e', he', hR⟩
    obtain ⟨hresult, hstate, hfinal⟩ := run_bind_error (f := g) he'
    rw [hresult, hstate, hfinal]
    exact ⟨e', rfl, hR⟩

/-- The first program goes on its own, without an effect that the second one would have to match. -/
theorem matches_left {f : α → Prog D E ε σ β} {q : Prog D' E' ε' σ' β'}
    {Q : β → σ → D → β' → σ' → D' → Prop}
    (h : wp p (fun x => J x d') (fun a t x => Matches (f a) q J Q R t x s' d')
      (fun e t x => ∃ e', (q s' d').result = .error e' ∧ R e t x e' (q s' d').state (q.final s' d')) s d) :
    Matches (p >>= f) q J Q R s d s' d' := by
  refine wp_bind.mpr (wp_mono h (fun x hx => ⟨0, ?_⟩) (fun _ _ _ h => h) (fun _ _ _ h => h))
  simpa [Prog.crash] using hx

/-- Effects of the second program, in the place of something that the first one does. -/
theorem matches_of_wp (b : α') (t' : σ') (es : List E') (hq : q s' d' = ⟨.ok b, t', es⟩)
    (h : wp p (fun x => ∃ j, J x (applyAll (es.take j) d')) (fun a t x => Q a t x b t' (applyAll es d'))
      (fun _ _ _ => False) s d) :
    Matches p q J Q R s d s' d' := by
  unfold Matches Prog.crash final
  rw [hq]
  exact wp_mono h (fun _ hx => hx) (fun a t x hQ => ⟨b, rfl, hQ⟩) (fun _ _ _ hfalse => hfalse.elim)

theorem matches_mono {J' : D → D' → Prop} {Q' : α → σ → D → α' → σ' → D' → Prop}
    {R' : ε → σ → D → ε' → σ' → D' → Prop} (hJ : ∀ x x', J x x' → J' x x')
    (hQ : ∀ a t x b t' x', Q a t x b t' x' → Q' a t x b t' x')
    (hR : ∀ e t x e' t' x', R e t x e' t' x' → R' e t x e' t' x')
    (h : Matches p q J Q R s d s' d') : Matches p q J' Q' R' s d s' d' := by
  refine wp_mono h ?_ ?_ ?_
  · rintro x ⟨j, hj⟩
    exact ⟨j, hJ _ _ hj⟩
  · rintro a t x ⟨b, hb, h⟩
    exact ⟨b, hb, hQ _ _ _ _ _ _ h⟩
  · rintro e t x ⟨e', he', h⟩
    exact ⟨e', he', hR _ _ _ _ _ _ h⟩

/-- One part after the other, the first of which ends in its own way. -/
theorem matches_seq {f : α → Prog D E ε σ β} {g : α' → Prog D' E' ε' σ' β'}
    {Q' : β → σ → D → β' → σ' → D' → Prop} (h : Matches p q J Q R s d s' d')
    (hnext : ∀ a t x b t' x', Q a t x b t' x' → Matches (f a) (g b) J Q' R t x t' x') :
    Matches (p >>= f) (q >>= g) J Q' R s d s' d' :=
  matches_bind (matches_mono (fun _ _ h => h) hnext (fun _ _ _ _ _ _ h => h) h)

end Prog
