/-
The contract of the retries.

Whatever the attempts come to, there is one number of attempts the helper makes: up to the
first that is no transient failure, and never more than it is allowed.  It returns what the
last of them came to, and it sleeps between two attempts and at no other time.  How long is
what the words of the program compute, without overflow.
-/
import SentrixIndexer.Backoff
import SentrixIndexer.Proofs.Pipeline

namespace SentrixIndexer

open Effect

/-- What a retried operation does. -/
inductive RetryCall
  | attempt
  | sleep (nanos : Nat)
  deriving DecidableEq, Repr

abbrev RetrySig (α : Type) : Signature where
  Call := RetryCall
  Answer
    | .attempt => Except ChainError α
    | .sleep _ => Unit

/-- The attempts made so far, and everything done, in order. -/
structure RetryLog where
  attempts : Nat
  calls : List RetryCall

section Contract

variable {α : Type} {outcome : Nat → Except ChainError α}

/-- The `k`-th attempt comes to `outcome k`. -/
def handleRetry (outcome : Nat → Except ChainError α) : Handler (RetrySig α) RetryLog
  | w, .attempt, r, w' =>
      r = outcome (w.attempts + 1) ∧ w' = ⟨w.attempts + 1, w.calls ++ [.attempt]⟩
  | w, .sleep nanos, _, w' => w' = ⟨w.attempts, w.calls ++ [.sleep nanos]⟩

/-- One attempt. -/
def attemptOnce (α : Type) : Script (RetrySig α) (Except ChainError α) :=
  Script.ask (S := RetrySig α) .attempt

/-- One sleep. -/
def sleepOnce (α : Type) (nanos : Nat) : Script (RetrySig α) Unit :=
  Script.ask (S := RetrySig α) (.sleep nanos)

/-- A failure the helper backs off from. -/
def Transient (r : Except ChainError α) : Prop := ∃ e, r = .error e ∧ e.isTransient = true

/-- An attempt, and `more` after it, each after a sleep. -/
def retryCalls (cfg : BackoffConfig) (attempt more : Nat) : List RetryCall :=
  .attempt :: (List.range' attempt more).flatMap fun k => [.sleep (cfg.sleepAfter k), .attempt]

/-- `more` attempts after the first are made from here, and what then is returned. -/
structure Retries (cfg : BackoffConfig) (outcome : Nat → Except ChainError α)
    (w : RetryLog) (left more : Nat) : Prop where
  within : more ≤ left
  transient : ∀ k, w.attempts + 1 ≤ k → k < w.attempts + 1 + more → Transient (outcome k)
  settled : more < left → ¬ Transient (outcome (w.attempts + 1 + more))
  run : ∀ w' r, Run (handleRetry outcome) w
      (retryFrom (sleepOnce α) cfg (attemptOnce α) (w.attempts + 1) left).toProg w' r ↔
    w' = ⟨w.attempts + 1 + more, w.calls ++ retryCalls cfg (w.attempts + 1) more⟩ ∧
      r = outcome (w.attempts + 1 + more)

theorem run_attempt {p : Except ChainError α → Script (RetrySig α) (Except ChainError α)}
    {w w' : RetryLog} {r : Except ChainError α} :
    Run (handleRetry outcome) w (attemptOnce α >>= p).toProg w' r ↔
      Run (handleRetry outcome) ⟨w.attempts + 1, w.calls ++ [.attempt]⟩
        (p (outcome (w.attempts + 1))).toProg w' r := by
  refine run_call.trans ⟨?_, fun h => ⟨_, _, ⟨rfl, rfl⟩, h⟩⟩
  intro h
  obtain ⟨_, _, ⟨rfl, rfl⟩, h⟩ := h
  exact h

theorem run_sleep {nanos : Nat} {p : Unit → Script (RetrySig α) (Except ChainError α)}
    {w w' : RetryLog} {r : Except ChainError α} :
    Run (handleRetry outcome) w (sleepOnce α nanos >>= p).toProg w' r ↔
      Run (handleRetry outcome) ⟨w.attempts, w.calls ++ [.sleep nanos]⟩ (p ()).toProg w' r := by
  refine run_call.trans ⟨?_, fun h => ⟨(), _, rfl, h⟩⟩
  intro h
  obtain ⟨_, _, rfl, h⟩ := h
  exact h

/-- An attempt that settles the matter is the last. -/
theorem retries_of_settled {cfg : BackoffConfig} {w : RetryLog} {left : Nat}
    (h : ¬ Transient (outcome (w.attempts + 1))) : Retries cfg outcome w left 0 := by
  refine ⟨Nat.zero_le _, fun k hk hlt => absurd hlt (by omega), fun _ => h, fun w' r => ?_⟩
  have hpure : ∀ p : Script (RetrySig α) (Except ChainError α),
      p = pure (outcome (w.attempts + 1)) → (Run (handleRetry outcome)
        ⟨w.attempts + 1, w.calls ++ [.attempt]⟩ p.toProg w' r ↔
      w' = ⟨w.attempts + 1 + 0, w.calls ++ retryCalls cfg (w.attempts + 1) 0⟩ ∧
        r = outcome (w.attempts + 1 + 0)) := by
    intro p hp
    rw [hp]
    exact run_pure
  cases left with
  | zero =>
      unfold retryFrom
      refine run_attempt.trans (hpure _ ?_)
      cases hr : outcome (w.attempts + 1) with
      | ok v => rfl
      | error e =>
          rw [hr] at h
          exact if_neg fun he => h ⟨e, rfl, he⟩
  | succ left =>
      unfold retryFrom
      refine run_attempt.trans (hpure _ ?_)
      cases hr : outcome (w.attempts + 1) with
      | ok v => rfl
      | error e =>
          rw [hr] at h
          exact if_neg fun he => h ⟨e, rfl, he⟩

/-- **The retries from any attempt on.** -/
theorem exists_retries (cfg : BackoffConfig) (outcome : Nat → Except ChainError α) :
    ∀ (left : Nat) (w : RetryLog), ∃ more, Retries cfg outcome w left more := by
  intro left
  induction left with
  | zero =>
      intro w
      by_cases h : Transient (outcome (w.attempts + 1))
      · refine ⟨0, Nat.le_refl 0, fun k hk hlt => absurd hlt (by omega),
          fun hlt => absurd hlt (Nat.lt_irrefl 0), fun w' r => ?_⟩
        obtain ⟨e, he, htransient⟩ := h
        unfold retryFrom
        refine run_attempt.trans ?_
        rw [Nat.add_zero, he]
        simp only [htransient, if_true]
        exact run_pure
      · exact ⟨0, retries_of_settled h⟩
  | succ left ih =>
      intro w
      by_cases h : Transient (outcome (w.attempts + 1))
      · obtain ⟨more, hmore⟩ := ih ⟨w.attempts + 1,
          w.calls ++ [.attempt] ++ [.sleep (cfg.sleepAfter (w.attempts + 1))]⟩
        have hnext : w.attempts + 1 + (more + 1) = w.attempts + 1 + 1 + more := by omega
        refine ⟨more + 1, Nat.succ_le_succ hmore.within, fun k hk hlt => ?_, fun hlt => ?_,
          fun w' r => ?_⟩
        · rcases Nat.eq_or_lt_of_le hk with rfl | hk
          · exact h
          · exact hmore.transient k hk (hnext ▸ hlt)
        · rw [hnext]
          exact hmore.settled (Nat.lt_of_succ_lt_succ hlt)
        · obtain ⟨e, he, htransient⟩ := h
          unfold retryFrom
          refine run_attempt.trans ?_
          rw [he]
          simp only [htransient, if_true]
          refine run_sleep.trans ((hmore.run w' r).trans ?_)
          rw [hnext]
          simp [retryCalls, List.range'_succ]
      · exact ⟨0, retries_of_settled h⟩

end Contract

/-- `retry_with_backoff` makes this number of attempts. -/
structure MakesAttempts {α : Type} (cfg : BackoffConfig) (outcome : Nat → Except ChainError α)
    (n : Nat) : Prop where
  one_le : 1 ≤ n
  within : n ≤ cfg.maxAttempts
  transient : ∀ k, 1 ≤ k → k < n → Transient (outcome k)
  settled : n < cfg.maxAttempts → ¬ Transient (outcome n)
  run : ∀ w' r, Run (handleRetry outcome) ⟨0, []⟩
      (retryWithBackoff (sleepOnce α) cfg (attemptOnce α)).toProg w' r ↔
    w' = ⟨n, .attempt :: (List.range' 1 (n - 1)).flatMap fun k =>
      [.sleep (cfg.sleepAfter k), .attempt]⟩ ∧ r = outcome n

/-- What the callers of the helper count on. -/
structure RetryContract (cfg : BackoffWords) : Prop where
  attempts : ∀ {α : Type} (outcome : Nat → Except ChainError α),
    ∃ n, MakesAttempts cfg.toConfig outcome n
  ceiling : ∀ k : UInt32, ∃ d, cfg.ceilingForAttempt k = some d ∧
    d.toNat = cfg.toConfig.ceilingForAttempt k.toNat
  sleep : ∀ k : UInt32, ∃ d, cfg.sleepAfter k = some d ∧
    d.toNat = cfg.toConfig.sleepAfter k.toNat
  sleep_le : ∀ k, cfg.toConfig.sleepAfter k ≤ cfg.toConfig.ceilingForAttempt k
  ceiling_le : ∀ k, cfg.toConfig.ceilingForAttempt k ≤ cfg.maxDelay.toNat
  ceiling_mono : 1 ≤ cfg.multiplier.toNat → ∀ j k, j ≤ k →
    cfg.toConfig.ceilingForAttempt j ≤ cfg.toConfig.ceilingForAttempt k

/-- **Every schedule honours the contract.** -/
theorem retry_contract (cfg : BackoffWords) : RetryContract cfg where
  attempts := by
    intro α outcome
    obtain ⟨more, h⟩ := exists_retries cfg.toConfig outcome (cfg.toConfig.maxAttempts - 1) ⟨0, []⟩
    have hone := cfg.toConfig.one_le_maxAttempts
    have hwithin := h.within
    have hcomm : 0 + 1 + more = more + 1 := by omega
    refine ⟨more + 1, by omega, by omega, fun k hk hlt => h.transient k (by simpa using hk)
      (by show k < 0 + 1 + more; omega), fun hlt => ?_, fun w' r => ?_⟩
    · rw [← hcomm]
      exact h.settled (by omega)
    · have hrun := h.run w' r
      simp only [Nat.zero_add, Nat.add_comm 1 more] at hrun
      exact hrun
  ceiling := cfg.ceilingForAttempt_eq
  sleep := cfg.sleepAfter_eq
  sleep_le := cfg.toConfig.sleepAfter_le
  ceiling_le := cfg.toConfig.ceilingForAttempt_le_maxDelay
  ceiling_mono hmul _ _ hjk := BackoffConfig.ceilingForAttempt_mono hmul hjk

/-- Two attempts time out, the third gets through. -/
def thirdTime (k : Nat) : Except ChainError Nat :=
  if k < 3 then .error (.rest true false none) else .ok k

/-- By the default schedule three attempts are made of such an operation, with some 61 and 43 ms
of sleep between them, and it would never sleep for more than 5 s. -/
theorem retry_contract_default :
    (∀ w' r, Run (handleRetry thirdTime) ⟨0, []⟩
        (retryWithBackoff (sleepOnce Nat) .default (attemptOnce Nat)).toProg w' r ↔
      w' = ⟨3, [.attempt, .sleep 60644531, .attempt, .sleep 42578125, .attempt]⟩ ∧ r = .ok 3) ∧
    ∀ k, BackoffConfig.default.sleepAfter k ≤ 5 * 10 ^ 9 := by
  have hcontract := retry_contract BackoffWords.default
  refine ⟨?_, fun k => (hcontract.sleep_le k).trans (hcontract.ceiling_le k)⟩
  obtain ⟨n, hn⟩ := hcontract.attempts thirdTime
  have hlow : 3 ≤ n := by
    by_contra hlt
    have hlt : n < 3 := by omega
    exact hn.settled (lt_trans hlt (by decide)) ⟨_, if_pos hlt, rfl⟩
  have hhigh : n ≤ 3 := by
    by_contra hgt
    obtain ⟨e, he, -⟩ := hn.transient 3 (by decide) (by omega)
    exact absurd he (by simp [thirdTime])
  obtain rfl : n = 3 := by omega
  have hcalls : (.attempt :: (List.range' 1 (3 - 1)).flatMap fun k =>
      [.sleep (BackoffConfig.default.sleepAfter k), .attempt] : List RetryCall) =
      [.attempt, .sleep 60644531, .attempt, .sleep 42578125, .attempt] := by decide +kernel
  intro w' r
  have hrun := hn.run w' r
  rw [BackoffWords.toConfig_default, hcalls] at hrun
  exact hrun

end SentrixIndexer
