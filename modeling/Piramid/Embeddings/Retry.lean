-- SUMMARY: The embedder that tries again, and which attempt its answer comes from.
import Mathlib.Algebra.GroupWithZero.Nat
import Piramid.Embeddings.Types

/-!
# Retries

An attempt that fails with an error that another try may not meet is made again after a delay. The
answer is that of the last attempt, and every attempt before it failed in a way that is retried.
-/

/-- `embeddings::RetryConfig`. The number of retries is a `u32`, and the delays are `u64`s. -/
structure RetryConfig where
  maxRetries : Nat
  initialDelayMs : Nat
  maxDelayMs : Nat

namespace RetryConfig

/-- `Default for RetryConfig`. -/
def default : RetryConfig := ⟨3, 1000, 30000⟩

/-- Neither the counter of attempts nor a doubled delay overflows. -/
structure Countable (config : RetryConfig) : Prop where
  maxRetries : config.maxRetries + 1 < 2 ^ 32
  initialDelayMs : config.initialDelayMs * 2 < 2 ^ 64
  maxDelayMs : config.maxDelayMs * 2 < 2 ^ 64

end RetryConfig

/-- What came of a request, and how long it slept before each further attempt. -/
structure Retried where
  result : Except EmbeddingError EmbeddingResponse
  delays : List Nat

namespace RetryEmbedder

/-- The loop of `embed`, when `attempts` attempts have failed; `inner` says what each is answered. -/
def attempt (config : RetryConfig) (inner : Nat → Except EmbeddingError EmbeddingResponse)
    (attempts delayMs : Nat) : Except Fault Retried :=
  match inner attempts with
  | .ok response => .ok ⟨.ok response, []⟩
  | .error e =>
    if 2 ^ 32 ≤ attempts + 1 then .error (.panic "attempt to add with overflow")
    else if !e.isRecoverable || attempts + 1 > config.maxRetries then .ok ⟨.error e, []⟩
    else if 2 ^ 64 ≤ delayMs * 2 then .error (.panic "attempt to multiply with overflow")
    else do
      let rest ← attempt config inner (attempts + 1) (min (delayMs * 2) config.maxDelayMs)
      pure ⟨rest.result, delayMs :: rest.delays⟩
termination_by 2 ^ 32 - attempts

/-- `RetryEmbedder::embed`. -/
def embed (config : RetryConfig) (inner : Nat → Except EmbeddingError EmbeddingResponse) :
    Except Fault Retried :=
  attempt config inner 0 config.initialDelayMs

/-- The attempts from `first` on end with the one numbered `last`. -/
structure EndsAt (config : RetryConfig) (inner : Nat → Except EmbeddingError EmbeddingResponse)
    (first last : Nat) (result : Except EmbeddingError EmbeddingResponse) : Prop where
  answer : result = inner last
  retried : ∀ i, first ≤ i → i < last → ∃ e, inner i = .error e ∧ e.isRecoverable = true
  bounded : last ≤ config.maxRetries
  final : ∀ e, inner last = .error e → e.isRecoverable = true → last = config.maxRetries

variable {config : RetryConfig}

theorem attempt_returns (hconfig : config.Countable)
    (inner : Nat → Except EmbeddingError EmbeddingResponse) (attempts delayMs : Nat)
    (hattempts : attempts ≤ config.maxRetries) (hdelay : delayMs * 2 < 2 ^ 64) :
    ∃ retried, attempt config inner attempts delayMs = .ok retried ∧
      EndsAt config inner attempts (attempts + retried.delays.length) retried.result ∧
      ∀ delay ∈ retried.delays, delay ≤ max delayMs config.maxDelayMs := by
  fun_induction attempt config inner attempts delayMs with
  | case1 attempts delayMs response hinner =>
      refine ⟨_, rfl, ⟨hinner.symm, fun i hi hlt => absurd hi (by simpa using hlt), hattempts, ?_⟩, by simp⟩
      intro e he
      simp [hinner] at he
  | case2 attempts delayMs e hinner hfull =>
      have hcount := hconfig.maxRetries
      omega
  | case3 attempts delayMs e hinner hfull hstop =>
      refine ⟨_, rfl, ⟨hinner.symm, fun i hi hlt => absurd hi (by simpa using hlt), hattempts, ?_⟩, by simp⟩
      intro e' he' hrec
      rw [List.length_nil, Nat.add_zero, hinner] at he'
      cases he'
      simp only [hrec, Bool.not_true, Bool.false_or, decide_eq_true_eq] at hstop
      exact Nat.le_antisymm hattempts (Nat.le_of_lt_succ hstop)
  | case4 attempts delayMs e hinner hfull hgo hlong => omega
  | case5 attempts delayMs e hinner hfull hgo hlong ih =>
      simp only [Bool.or_eq_true, Bool.not_eq_true', decide_eq_true_eq, not_or, Bool.not_eq_false,
        Nat.not_lt] at hgo
      have hcap := hconfig.maxDelayMs
      obtain ⟨rest, hrest, hends, hdelays⟩ := ih hgo.2 (by omega)
      have hlast : attempts + (delayMs :: rest.delays).length = attempts + 1 + rest.delays.length := by
        rw [List.length_cons]
        omega
      refine ⟨⟨rest.result, delayMs :: rest.delays⟩, ?_, ?_, ?_⟩
      · rw [hrest]
        rfl
      · rw [hlast]
        refine ⟨hends.answer, fun i hi hlt => ?_, hends.bounded, hends.final⟩
        cases Nat.eq_or_lt_of_le hi with
        | inl heq =>
            subst heq
            exact ⟨e, hinner, hgo.1⟩
        | inr hlater => exact hends.retried i hlater hlt
      · intro delay hdelay
        cases List.mem_cons.mp hdelay with
        | inl heq => exact heq ▸ Nat.le_max_left _ _
        | inr hmem =>
            have hle := hdelays delay hmem
            omega

/-- A request returns, with the answer of the attempt behind its last delay. Each attempt before it met
an error that is retried, there are at most `maxRetries` further attempts, and an error that is retried
is answered only when there are none left. -/
theorem embed_spec (config : RetryConfig) (hconfig : config.Countable)
    (inner : Nat → Except EmbeddingError EmbeddingResponse) :
    ∃ retried, embed config inner = .ok retried ∧
      EndsAt config inner 0 retried.delays.length retried.result ∧
      ∀ delay ∈ retried.delays, delay ≤ max config.initialDelayMs config.maxDelayMs := by
  obtain ⟨retried, hretried, hends, hdelays⟩ :=
    attempt_returns hconfig inner 0 config.initialDelayMs (Nat.zero_le _) hconfig.initialDelayMs
  rw [Nat.zero_add] at hends
  exact ⟨retried, hretried, hends, hdelays⟩

/-- The provider is too busy twice, and then answers. -/
def busyTwice (i : Nat) : Except EmbeddingError EmbeddingResponse :=
  if i < 2 then .error .rateLimitExceeded else .ok ⟨[F32.one], some 1, "m"⟩

theorem third_attempt_answers :
    ∃ retried, embed .default busyTwice = .ok retried ∧
      EndsAt .default busyTwice 0 retried.delays.length retried.result ∧
      ∀ delay ∈ retried.delays, delay ≤ 30000 :=
  embed_spec .default ⟨by decide, by decide, by decide⟩ busyTwice

end RetryEmbedder
