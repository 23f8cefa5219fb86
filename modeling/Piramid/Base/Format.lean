-- SUMMARY: Self-delimiting formats: encodings that say where they end, and the combinators they are built from.
import Mathlib.Tactic.Ring
import Piramid.Base.HashMap

/-!
# Self-delimiting formats

A format encodes values as lists of symbols, such that the decoder finds the end
of an encoding by itself and never looks behind it. Formats carry the proof of
that, so what is built from them has it too: an encoding that ends early and an
encoding with something behind it are never taken for a whole one.
-/

/-- A format for `α` over the symbols `σ`. The decoder also returns what follows. -/
structure Format (σ α : Type) where
  encode : α → List σ
  decode : List σ → Option (α × List σ)
  decode_encode : ∀ a rest, decode (encode a ++ rest) = some (a, rest)
  decode_append : ∀ s a rest more, decode s = some (a, rest) →
    decode (s ++ more) = some (a, rest ++ more)

namespace Format

variable {σ τ α β : Type}

@[simp] theorem decode_encode_nil (f : Format σ α) (a : α) : f.decode (f.encode a) = some (a, []) := by
  have h := f.decode_encode a []
  rwa [List.append_nil] at h

/-- The beginning of an encoding that is cut short is not one itself. -/
theorem decode_torn (f : Format σ α) {a : α} {torn : List σ} (hpre : torn <+: f.encode a)
    (hne : torn ≠ f.encode a) : f.decode torn = none := by
  obtain ⟨rest, hrest⟩ := hpre
  cases hd : f.decode torn with
  | none => rfl
  | some p =>
      have h := f.decode_append torn p.1 p.2 rest hd
      rw [hrest, decode_encode_nil] at h
      simp only [Option.some.injEq, Prod.mk.injEq] at h
      have hnil : rest = [] := (List.append_eq_nil_iff.mp h.2.symm).2
      rw [hnil, List.append_nil] at hrest
      exact absurd hrest hne

/-- What some continuation is refused for, the beginning is refused for. -/
theorem decode_prefix_none (f : Format σ α) {s more : List σ} (h : f.decode (s ++ more) = none) :
    f.decode s = none := by
  cases hd : f.decode s with
  | none => rfl
  | some p =>
      have happ := f.decode_append s p.1 p.2 more hd
      rw [h] at happ
      cases happ

/-! ## Combinators -/

/-- Nothing at all. -/
def empty : Format σ Unit where
  encode _ := []
  decode s := some ((), s)
  decode_encode _ _ := rfl
  decode_append := by simp

/-- A single symbol. -/
def symbol : Format σ σ where
  encode a := [a]
  decode
    | [] => none
    | a :: s => some (a, s)
  decode_encode _ _ := rfl
  decode_append s a rest more h := by
    cases s with
    | nil => cases h
    | cons b s =>
        cases h
        rfl

/-- A fixed text. -/
def literal [DecidableEq σ] (text : List σ) : Format σ Unit where
  encode _ := text
  decode s := if text <+: s then some ((), s.drop text.length) else none
  decode_encode _ rest := by simp
  decode_append s a rest more h := by
    split at h
    · rename_i hpre
      cases h
      rw [if_pos (hpre.trans (List.prefix_append s more)),
        List.drop_append_of_le_length hpre.length_le]
    · cases h

/-- One format after the other. -/
def seq (f : Format σ α) (g : Format σ β) : Format σ (α × β) where
  encode p := f.encode p.1 ++ g.encode p.2
  decode s := (f.decode s).bind fun p => (g.decode p.2).map fun q => ((p.1, q.1), q.2)
  decode_encode p rest := by
    rw [List.append_assoc, f.decode_encode, Option.bind_some, g.decode_encode]
    rfl
  decode_append s a rest more h := by
    simp only [Option.bind_eq_some_iff, Option.map_eq_some_iff] at h
    obtain ⟨p, hp, q, hq, heq⟩ := h
    cases heq
    rw [f.decode_append s p.1 p.2 more hp, Option.bind_some, g.decode_append p.2 q.1 q.2 more hq]
    rfl

/-- Read the values of a format as values of another type. -/
def convert (f : Format σ α) (parse : α → Option β) (print : β → α)
    (h : ∀ b, parse (print b) = some b) : Format σ β where
  encode b := f.encode (print b)
  decode s := (f.decode s).bind fun p => (parse p.1).map fun b => (b, p.2)
  decode_encode b rest := by
    rw [f.decode_encode, Option.bind_some, h]
    rfl
  decode_append s a rest more hd := by
    simp only [Option.bind_eq_some_iff, Option.map_eq_some_iff] at hd
    obtain ⟨p, hp, b, hb, heq⟩ := hd
    cases heq
    rw [f.decode_append s p.1 p.2 more hp, Option.bind_some, hb]
    rfl

/-- Convert by a function that undoes `print`. -/
def map (f : Format σ α) (parse : α → β) (print : β → α) (h : ∀ b, parse (print b) = b) :
    Format σ β :=
  f.convert (fun a => some (parse a)) print fun b => congrArg some (h b)

/-- A text before a value. -/
def after [DecidableEq σ] (text : List σ) (f : Format σ α) : Format σ α :=
  ((literal text).seq f).map Prod.snd (fun a => ((), a)) fun _ => rfl

/-- A text behind a value. -/
def before [DecidableEq σ] (f : Format σ α) (text : List σ) : Format σ α :=
  (f.seq (literal text)).map Prod.fst (fun a => (a, ())) fun _ => rfl

/-- A tag, and then a value of the format the tag selects. -/
def tagged {ι : Type} {β : ι → Type} (tag : Format σ ι) (f : (i : ι) → Format σ (β i)) :
    Format σ (Σ i, β i) where
  encode x := tag.encode x.1 ++ (f x.1).encode x.2
  decode s := (tag.decode s).bind fun p => ((f p.1).decode p.2).map fun q => (⟨p.1, q.1⟩, q.2)
  decode_encode x rest := by
    rw [List.append_assoc, tag.decode_encode, Option.bind_some, (f x.1).decode_encode]
    rfl
  decode_append s x rest more h := by
    simp only [Option.bind_eq_some_iff, Option.map_eq_some_iff] at h
    obtain ⟨p, hp, q, hq, heq⟩ := h
    cases heq
    rw [tag.decode_append s p.1 p.2 more hp, Option.bind_some,
      (f p.1).decode_append p.2 q.1 q.2 more hq]
    rfl

/-- Values that have a short code, and the others behind the code `long`. -/
def escape {γ : Type} (f : Format σ γ) (g : Format σ α) (short : α → Option γ)
    (value : γ → Option α) (long : γ) (hshort : ∀ a c, short a = some c → value c = some a)
    (hlong : value long = none) : Format σ α where
  encode a :=
    match short a with
    | some c => f.encode c
    | none => f.encode long ++ g.encode a
  decode s := (f.decode s).bind fun p =>
    match value p.1 with
    | some a => some (a, p.2)
    | none => g.decode p.2
  decode_encode a rest := by
    split
    · rename_i c hc
      rw [f.decode_encode, Option.bind_some, hshort a c hc]
    · rw [List.append_assoc, f.decode_encode, Option.bind_some, hlong, g.decode_encode]
  decode_append s a rest more h := by
    rw [Option.bind_eq_some_iff] at h
    obtain ⟨p, hp, hrest⟩ := h
    rw [f.decode_append _ _ _ more hp, Option.bind_some]
    split at hrest
    · cases hrest
      rw [‹value p.1 = _›]
    · rw [‹value p.1 = _›]
      exact g.decode_append _ _ _ more hrest

/-- A value that may be missing, after a bit that says so. -/
def option (bit : Format σ Bool) (f : Format σ α) : Format σ (Option α) :=
  (tagged (β := fun b => if b then α else Unit) bit fun
      | false => empty
      | true => f).map
    (fun
      | ⟨false, _⟩ => none
      | ⟨true, a⟩ => some a)
    (fun
      | none => ⟨false, ()⟩
      | some a => ⟨true, a⟩)
    (by rintro (_ | a) <;> rfl)

/-! ## Texts that are refused -/

section

variable {f : Format σ α} {g : Format σ β} {s : List σ}

theorem decode_after [DecidableEq σ] (text : List σ) (f : Format σ α) (s : List σ) :
    (after text f).decode (text ++ s) = f.decode s := by
  change (((if text <+: text ++ s then some ((), (text ++ s).drop text.length) else none).bind
    fun p => (f.decode p.2).map fun q => ((p.1, q.1), q.2)).bind fun p => some (p.1.2, p.2)) = _
  rw [if_pos (List.prefix_append text s), List.drop_left, Option.bind_some]
  cases f.decode s with
  | none => rfl
  | some p => rfl

theorem seq_refuses_left (h : f.decode s = none) : (f.seq g).decode s = none := by
  change (f.decode s).bind _ = none
  rw [h]
  rfl

theorem seq_refuses_right (a : α) (h : g.decode s = none) : (f.seq g).decode (f.encode a ++ s) = none := by
  change (f.decode (f.encode a ++ s)).bind _ = none
  rw [f.decode_encode, Option.bind_some, h]
  rfl

theorem map_refuses {parse : α → β} {print : β → α} {hparse : ∀ b, parse (print b) = b}
    (h : f.decode s = none) : (f.map parse print hparse).decode s = none := by
  change (f.decode s).bind _ = none
  rw [h]
  rfl

theorem before_refuses [DecidableEq σ] {text : List σ} (h : f.decode s = none) :
    (before f text).decode s = none :=
  map_refuses (seq_refuses_left h)

theorem tagged_refuses {ι : Type} {β : ι → Type} {tag : Format σ ι} {f : (i : ι) → Format σ (β i)}
    (i : ι) (h : (f i).decode s = none) : (tagged tag f).decode (tag.encode i ++ s) = none := by
  change (tag.decode (tag.encode i ++ s)).bind _ = none
  rw [tag.decode_encode, Option.bind_some, h]
  rfl

end

/-! ## Lists -/

section

/-- Decode `n` values. -/
def decodeMany (f : Format σ α) : Nat → List σ → Option (List α × List σ)
  | 0, s => some ([], s)
  | n + 1, s => (f.decode s).bind fun p =>
      (decodeMany f n p.2).map fun q => (p.1 :: q.1, q.2)

theorem decodeMany_encode (f : Format σ α) (as : List α) (rest : List σ) :
    f.decodeMany as.length (as.flatMap f.encode ++ rest) = some (as, rest) := by
  induction as with
  | nil => rfl
  | cons a as ih =>
      simp only [List.length_cons, List.flatMap_cons, List.append_assoc, decodeMany,
        f.decode_encode, Option.bind_some, ih]
      rfl

theorem decodeMany_append (f : Format σ α) {n : Nat} {s : List σ} {as : List α} {rest : List σ}
    (h : f.decodeMany n s = some (as, rest)) (more : List σ) :
    f.decodeMany n (s ++ more) = some (as, rest ++ more) := by
  induction n generalizing s as rest with
  | zero =>
      cases h
      rfl
  | succ n ih =>
      simp only [decodeMany, Option.bind_eq_some_iff, Option.map_eq_some_iff] at h ⊢
      obtain ⟨p, hp, q, hq, heq⟩ := h
      cases heq
      exact ⟨_, f.decode_append _ _ _ more hp, _, ih hq, rfl⟩

/-- The length, then the values. -/
def list (len : Format σ Nat) (f : Format σ α) : Format σ (List α) where
  encode as := len.encode as.length ++ as.flatMap f.encode
  decode s := (len.decode s).bind fun p => f.decodeMany p.1 p.2
  decode_encode as rest := by
    rw [List.append_assoc, len.decode_encode, Option.bind_some, decodeMany_encode]
  decode_append s as rest more h := by
    rw [Option.bind_eq_some_iff] at h
    obtain ⟨p, hp, hmany⟩ := h
    rw [len.decode_append _ _ _ more hp, Option.bind_some, decodeMany_append f hmany]

/-- A hash map, as the list of its bindings in the given order. -/
def hashMap {κ ν : Type} [DecidableEq κ] (order : HashOrder κ) (len : Format σ Nat)
    (key : Format σ κ) (value : Format σ ν) : Format σ (HashMap κ ν) :=
  (list len (key.seq value)).map (HashMap.insertEach ∅) order.entries order.insertEach_entries

/-- A set, as the list of its members in the given order. -/
def finset {κ : Type} [DecidableEq κ] (order : HashOrder κ) (len : Format σ Nat)
    (key : Format σ κ) : Format σ (Finset κ) :=
  (list len key).map List.toFinset order.enum order.toFinset_enum

/-- Decode values, each announced by `more`, until `done`. The list of symbols
bounds how many there are. -/
def decodeStream [DecidableEq σ] (more done : σ) (f : Format σ α) :
    Nat → List σ → Option (List α × List σ)
  | 0, _ | _, [] => none
  | fuel + 1, c :: s =>
    if c = done then some ([], s)
    else if c = more then (f.decode s).bind fun p =>
      (decodeStream more done f fuel p.2).map fun q => (p.1 :: q.1, q.2)
    else none

/-- Each value behind the symbol `more`, and `done` at the end. -/
def encodeStream (more done : σ) (f : Format σ α) : List α → List σ
  | [] => [done]
  | a :: as => more :: (f.encode a ++ encodeStream more done f as)

variable [DecidableEq σ] {more done : σ} {f : Format σ α}

theorem decodeStream_encode (h : more ≠ done) (as : List α) (rest : List σ) {fuel : Nat}
    (hfuel : as.length < fuel) :
    decodeStream more done f fuel (encodeStream more done f as ++ rest) = some (as, rest) := by
  induction as generalizing fuel with
  | nil =>
      cases fuel with
      | zero => simp at hfuel
      | succ fuel => simp [encodeStream, decodeStream]
  | cons a as ih =>
      cases fuel with
      | zero => simp at hfuel
      | succ fuel =>
          have hrest : as.length < fuel := by simpa using hfuel
          simp only [encodeStream, List.cons_append, List.append_assoc, decodeStream, if_neg h,
            if_true, f.decode_encode, Option.bind_some, ih hrest]
          rfl

theorem decodeStream_append {fuel fuel' : Nat} (hfuel : fuel ≤ fuel') {s : List σ} {as : List α}
    {rest : List σ} (h : decodeStream more done f fuel s = some (as, rest)) (tail : List σ) :
    decodeStream more done f fuel' (s ++ tail) = some (as, rest ++ tail) := by
  induction fuel generalizing fuel' s as rest with
  | zero => simp [decodeStream] at h
  | succ fuel ih =>
      obtain ⟨fuel', rfl⟩ : ∃ n, fuel' = n + 1 := ⟨fuel' - 1, by omega⟩
      cases s with
      | nil => simp [decodeStream] at h
      | cons c s =>
          simp only [List.cons_append, decodeStream] at h ⊢
          split at h
          · cases h
            rw [if_pos ‹_›]
          · split at h
            · simp only [Option.bind_eq_some_iff, Option.map_eq_some_iff] at h
              obtain ⟨p, hp, q, hq, heq⟩ := h
              cases heq
              rw [if_neg ‹_›, if_pos ‹_›, f.decode_append _ _ _ tail hp, Option.bind_some,
                ih (by omega) hq]
              rfl
            · cases h

omit [DecidableEq σ] in
theorem length_le_encodeStream (as : List α) : as.length < (encodeStream more done f as).length := by
  induction as with
  | nil => simp [encodeStream]
  | cons a as ih =>
      simp only [encodeStream, List.length_cons, List.length_append]
      omega

/-- Values each behind the symbol `more`, and `done` at the end. -/
def stream (more done : σ) (h : more ≠ done) (f : Format σ α) : Format σ (List α) where
  encode := encodeStream more done f
  decode s := decodeStream more done f s.length s
  decode_encode as rest := by
    refine decodeStream_encode h as rest ?_
    rw [List.length_append]
    exact Nat.lt_add_right _ (length_le_encodeStream as)
  decode_append s as rest tail hd := decodeStream_append (by simp) hd tail

/-- Values between `start` and `done`, with `more` between them. No value may begin
like the end of the list. -/
def bracketed (start more done : σ) (h : more ≠ done) (f : Format σ α)
    (hf : ∀ a, ∃ c s, f.encode a = c :: s ∧ c ≠ done) : Format σ (List α) where
  encode
    | [] => [start, done]
    | a :: as => start :: (f.encode a ++ (stream more done h f).encode as)
  decode
    | c :: c' :: s =>
      if c ≠ start then none
      else if c' = done then some ([], s)
      else (f.seq (stream more done h f)).decode (c' :: s) |>.map fun p => (p.1.1 :: p.1.2, p.2)
    | _ => none
  decode_encode as rest := by
    cases as with
    | nil => simp
    | cons a as =>
        obtain ⟨c, s, hs, hc⟩ := hf a
        have hseq := (f.seq (stream more done h f)).decode_encode (a, as) rest
        simp only [seq, hs, List.cons_append] at hseq ⊢
        rw [if_neg (by simp), if_neg hc, hseq]
        rfl
  decode_append s as rest tail hd := by
    match s with
    | [] | [c] => cases hd
    | c :: c' :: s =>
      simp only [List.cons_append] at hd ⊢
      split at hd
      · cases hd
      · rw [if_neg ‹_›]
        split at hd
        · cases hd
          rw [if_pos ‹_›]
        · rw [if_neg ‹_›]
          rw [Option.map_eq_some_iff] at hd
          obtain ⟨p, hp, heq⟩ := hd
          cases heq
          have happ := (f.seq (stream more done h f)).decode_append _ _ _ tail hp
          rw [List.cons_append] at happ
          rw [happ]
          rfl

end

/-! ## Terms -/

section

/-- The symbols are `n` terms one after the other, each head before its arguments. -/
def complete (arity : τ → Nat) : Nat → List τ → Bool
  | 0, ts => ts.isEmpty
  | _ + 1, [] => false
  | n + 1, t :: ts => complete arity (n + arity t) ts

/-- Decode `n` terms. The list of symbols bounds how many heads there are. -/
def decodeTerms (arity : τ → Nat) (f : Format σ τ) : Nat → Nat → List σ → Option (List τ × List σ)
  | _, 0, s => some ([], s)
  | 0, _ + 1, _ => none
  | fuel + 1, n + 1, s => (f.decode s).bind fun p =>
      (decodeTerms arity f fuel (n + arity p.1) p.2).map fun q => (p.1 :: q.1, q.2)

variable {arity : τ → Nat} {f : Format σ τ}

theorem decodeTerms_encode {n : Nat} {ts : List τ} (h : complete arity n ts) (rest : List σ) {fuel : Nat}
    (hfuel : ts.length ≤ fuel) :
    decodeTerms arity f fuel n (ts.flatMap f.encode ++ rest) = some (ts, rest) := by
  induction ts generalizing n fuel with
  | nil =>
      cases n with
      | zero => rw [decodeTerms, List.flatMap_nil, List.nil_append]
      | succ n => cases h
  | cons t ts ih =>
      cases n with
      | zero => cases h
      | succ n =>
          cases fuel with
          | zero => simp at hfuel
          | succ fuel =>
              have hrest : ts.length ≤ fuel := by simpa using hfuel
              rw [decodeTerms, List.flatMap_cons, List.append_assoc, f.decode_encode, Option.bind_some,
                ih h hrest]
              rfl

theorem decodeTerms_append {fuel fuel' : Nat} (hfuel : fuel ≤ fuel') {n : Nat} {s : List σ} {ts : List τ}
    {rest : List σ} (h : decodeTerms arity f fuel n s = some (ts, rest)) (more : List σ) :
    decodeTerms arity f fuel' n (s ++ more) = some (ts, rest ++ more) := by
  induction fuel generalizing fuel' n s ts rest with
  | zero =>
      cases n with
      | zero =>
          rw [decodeTerms] at h ⊢
          cases h
          rfl
      | succ n => cases h
  | succ fuel ih =>
      cases n with
      | zero =>
          rw [decodeTerms] at h ⊢
          cases h
          rfl
      | succ n =>
          obtain ⟨fuel', rfl⟩ : ∃ n, fuel' = n + 1 := ⟨fuel' - 1, by omega⟩
          simp only [decodeTerms, Option.bind_eq_some_iff, Option.map_eq_some_iff] at h ⊢
          obtain ⟨p, hp, q, hq, heq⟩ := h
          cases heq
          exact ⟨_, f.decode_append _ _ _ more hp, _, ih (by omega) hq, rfl⟩

/-- A term as the list of its heads, each before its arguments. -/
def term (arity : τ → Nat) (f : Format σ τ) (hf : ∀ t, f.encode t ≠ []) :
    Format σ { ts : List τ // complete arity 1 ts } where
  encode ts := ts.val.flatMap f.encode
  decode s := (decodeTerms arity f s.length 1 s).bind fun p =>
    if h : complete arity 1 p.1 then some (⟨p.1, h⟩, p.2) else none
  decode_encode ts rest := by
    have hlen : ∀ ts : List τ, ts.length ≤ (ts.flatMap f.encode).length := by
      intro ts
      induction ts with
      | nil => exact Nat.zero_le _
      | cons t ts ih =>
          have hpos := List.length_pos_iff.mpr (hf t)
          rw [List.flatMap_cons, List.length_append, List.length_cons]
          omega
    rw [decodeTerms_encode ts.property rest, Option.bind_some, dif_pos ts.property]
    rw [List.length_append]
    exact Nat.le_add_right_of_le (hlen ts.val)
  decode_append s ts rest more h := by
    rw [Option.bind_eq_some_iff] at h
    obtain ⟨p, hp, hcomplete⟩ := h
    split at hcomplete
    · rename_i hc
      cases hcomplete
      have hfuel : s.length ≤ (s ++ more).length := by simp
      rw [decodeTerms_append hfuel hp more, Option.bind_some, dif_pos hc]
    · cases hcomplete

end

/-! ## Numbers -/

/-- A number by `k` digits, the least significant first. -/
def littleEndian {b : Nat} [NeZero b] (digit : Format σ (Fin b)) : (k : Nat) → Format σ (Fin (b ^ k))
  | 0 => empty.map (fun _ => ⟨0, Nat.one_pos⟩) (fun _ => ()) fun n =>
      Fin.ext (Nat.lt_one_iff.mp n.isLt).symm
  | k + 1 => (digit.seq (littleEndian digit k)).map
      (fun p => ⟨p.1 + b * p.2, by
        calc
          p.1 + b * p.2 < b + b * p.2 := by omega
          _ = b * (p.2 + 1) := by ring
          _ ≤ b * b ^ k := Nat.mul_le_mul_left b p.2.isLt
          _ = b ^ (k + 1) := by ring⟩)
      (fun n => (⟨n % b, Nat.mod_lt _ (NeZero.pos b)⟩,
        ⟨n / b, Nat.div_lt_of_lt_mul (by rw [← Nat.pow_succ']; exact n.isLt)⟩))
      fun n => by ext; exact Nat.mod_add_div n b

/-- A number by `k` digits, the most significant first. -/
def bigEndian {b : Nat} [NeZero b] (digit : Format σ (Fin b)) : (k : Nat) → Format σ (Fin (b ^ k))
  | 0 => empty.map (fun _ => ⟨0, Nat.one_pos⟩) (fun _ => ()) fun n =>
      Fin.ext (Nat.lt_one_iff.mp n.isLt).symm
  | k + 1 => (digit.seq (bigEndian digit k)).map
      (fun p => ⟨p.2 + b ^ k * p.1, by
        calc
          p.2 + b ^ k * p.1 < b ^ k + b ^ k * p.1 := by omega
          _ = b ^ k * (p.1 + 1) := by ring
          _ ≤ b ^ k * b := Nat.mul_le_mul_left _ p.1.isLt
          _ = b ^ (k + 1) := by ring⟩)
      (fun n => (⟨n / b ^ k, Nat.div_lt_of_lt_mul (by rw [← Nat.pow_succ]; exact n.isLt)⟩,
        ⟨n % b ^ k, Nat.mod_lt _ (Nat.pow_pos (NeZero.pos b))⟩))
      fun n => by ext; exact Nat.mod_add_div n (b ^ k)

/-- A number as so many symbols `more`, and `done` at the end. -/
def unary [DecidableEq σ] (more done : σ) (h : more ≠ done) : Format σ Nat :=
  (stream more done h empty).map List.length (fun n => List.replicate n ()) fun n => by simp

/-! ## Symbols written as pairs of symbols -/

/-- A way to write each symbol of `τ` as two symbols of `σ`, the first never `stop`. -/
structure Quotation (σ τ : Type) where
  quote : τ → σ × σ
  unquote : σ → σ → Option τ
  stop : σ
  unquote_quote : ∀ t, unquote (quote t).1 (quote t).2 = some t
  quote_ne_stop : ∀ t, (quote t).1 ≠ stop

namespace Quotation

variable [DecidableEq σ] (q : Quotation σ τ)

def encode : List τ → List σ
  | [] => [q.stop]
  | t :: ts => (q.quote t).1 :: (q.quote t).2 :: encode ts

def decode : List σ → Option (List τ × List σ)
  | [] => none
  | [c] => if c = q.stop then some ([], []) else none
  | c :: c' :: s =>
    if c = q.stop then some ([], c' :: s)
    else (q.unquote c c').bind fun t => (decode s).map fun p => (t :: p.1, p.2)

theorem decode_encode (ts : List τ) (rest : List σ) :
    q.decode (q.encode ts ++ rest) = some (ts, rest) := by
  induction ts with
  | nil => cases rest <;> simp [encode, decode]
  | cons t ts ih =>
      simp only [encode, List.cons_append, decode, if_neg (q.quote_ne_stop t), q.unquote_quote,
        Option.bind_some, ih]
      rfl

theorem decode_append {s : List σ} {ts : List τ} {rest : List σ} (h : q.decode s = some (ts, rest))
    (more : List σ) : q.decode (s ++ more) = some (ts, rest ++ more) := by
  induction s using decode.induct q generalizing ts rest with
  | case1 => cases h
  | case2 =>
      simp only [decode, if_true] at h
      cases h
      cases more <;> simp [decode]
  | case3 c hc => simp [decode, hc] at h
  | case4 c' s =>
      simp only [decode, if_true] at h
      cases h
      simp [decode]
  | case5 c c' s hc ih =>
      simp only [decode, if_neg hc, Option.bind_eq_some_iff, Option.map_eq_some_iff] at h
      obtain ⟨t, ht, p, hp, heq⟩ := h
      cases heq
      simp only [List.cons_append, decode, if_neg hc, ht, Option.bind_some, ih hp]
      rfl

end Quotation

/-- A format with each of its symbols quoted. -/
def quoted [DecidableEq σ] (q : Quotation σ τ) (f : Format τ α) : Format σ α where
  encode a := q.encode (f.encode a)
  decode s := (q.decode s).bind fun p => (f.decode p.1).map fun r => (r.1, p.2)
  decode_encode a rest := by
    rw [q.decode_encode, Option.bind_some, decode_encode_nil]
    rfl
  decode_append s a rest more h := by
    simp only [Option.bind_eq_some_iff, Option.map_eq_some_iff] at h
    obtain ⟨p, hp, r, hr, heq⟩ := h
    cases heq
    rw [q.decode_append hp, Option.bind_some, hr]
    rfl

/-! ## The symbols that occur -/

/-- Encodings consist of symbols that satisfy `p`. -/
def Within (p : σ → Prop) (f : Format σ α) : Prop := ∀ a, ∀ c ∈ f.encode a, p c

section

variable {p : σ → Prop} {f : Format σ α} {g : Format σ β}

theorem within_empty : (empty : Format σ Unit).Within p := fun _ _ h => (List.not_mem_nil h).elim

theorem Within.seq (hf : f.Within p) (hg : g.Within p) : (f.seq g).Within p :=
  fun x c hc => (List.mem_append.mp hc).elim (hf x.1 c) (hg x.2 c)

theorem Within.map (hf : f.Within p) {parse : α → β} {print : β → α}
    (h : ∀ b, parse (print b) = b) : (f.map parse print h).Within p :=
  fun b => hf (print b)

theorem within_literal [DecidableEq σ] {text : List σ} (h : ∀ c ∈ text, p c) :
    (literal text).Within p :=
  fun _ => h

theorem Within.after [DecidableEq σ] (hf : f.Within p) {text : List σ} (h : ∀ c ∈ text, p c) :
    (Format.after text f).Within p :=
  ((within_literal h).seq hf).map _

theorem Within.before [DecidableEq σ] (hf : f.Within p) {text : List σ} (h : ∀ c ∈ text, p c) :
    (f.before text).Within p :=
  (hf.seq (within_literal h)).map _

theorem Within.tagged {ι : Type} {β : ι → Type} {tag : Format σ ι} {f : (i : ι) → Format σ (β i)}
    (htag : tag.Within p) (hf : ∀ i, (f i).Within p) : (Format.tagged tag f).Within p :=
  fun x c hc => (List.mem_append.mp hc).elim (htag x.1 c) (hf x.1 x.2 c)

theorem Within.escape {γ : Type} {f : Format σ γ} {g : Format σ α} {short : α → Option γ}
    {value : γ → Option α} {long : γ} (hf : ∀ a k, short a = some k → ∀ c ∈ f.encode k, p c)
    (hlong : ∀ c ∈ f.encode long, p c) (hg : g.Within p)
    (hshort : ∀ a k, short a = some k → value k = some a) (hvalue : value long = none) :
    (Format.escape f g short value long hshort hvalue).Within p := by
  intro a
  simp only [Format.escape]
  split
  · exact hf a _ ‹_›
  · intro c hc
    exact (List.mem_append.mp hc).elim (hlong c) (hg a c)

theorem Within.stream [DecidableEq σ] {more done : σ} (hf : f.Within p) (h : more ≠ done)
    (hmore : p more) (hdone : p done) : (Format.stream more done h f).Within p := by
  intro as
  change ∀ c ∈ encodeStream more done f as, p c
  induction as with
  | nil => simpa [encodeStream] using hdone
  | cons a as ih =>
      simp only [encodeStream, List.forall_mem_cons, List.forall_mem_append]
      exact ⟨hmore, hf a, ih⟩

theorem Within.bracketed [DecidableEq σ] {start more done : σ} (hf : f.Within p)
    (h : more ≠ done) (hstart : p start) (hmore : p more) (hdone : p done)
    (hhead : ∀ a, ∃ c s, f.encode a = c :: s ∧ c ≠ done) :
    (Format.bracketed start more done h f hhead).Within p := by
  intro as
  cases as with
  | nil => simp [Format.bracketed, hstart, hdone]
  | cons a as =>
      simp only [Format.bracketed, List.forall_mem_cons, List.forall_mem_append]
      exact ⟨hstart, hf a, hf.stream h hmore hdone as⟩

theorem Within.bigEndian {b : Nat} [NeZero b] {digit : Format σ (Fin b)} (h : digit.Within p)
    (k : Nat) : (Format.bigEndian digit k).Within p := by
  induction k with
  | zero => exact within_empty.map _
  | succ k ih => exact (h.seq ih).map _

theorem within_quoted [DecidableEq σ] {q : Quotation σ τ} {f : Format τ α} (hstop : p q.stop)
    (hquote : ∀ t, p (q.quote t).1 ∧ p (q.quote t).2) : (quoted q f).Within p := by
  intro a
  change ∀ c ∈ q.encode (f.encode a), p c
  induction f.encode a with
  | nil => simpa [Quotation.encode] using hstop
  | cons t ts ih =>
      simp only [Quotation.encode, List.forall_mem_cons]
      exact ⟨(hquote t).1, (hquote t).2, ih⟩

end

end Format
