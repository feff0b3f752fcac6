/-
The arithmetic of the backoff, in machine words.

`BackoffConfig` has natural numbers for delays.  The program has durations of a 64-bit
count of seconds, and goes through 32-, 64- and 128-bit words on its way from one to the
next.  Here every product, sum and cast that is not saturating or wrapping has to fit its
word, or there is no result.
-/
import SentrixIndexer.Chain
import Mathlib.Order.Lattice

namespace SentrixIndexer

/-! ### Bounds of the schedule -/

theorem BackoffConfig.ceilingForAttempt_le_maxDelay (cfg : BackoffConfig) (attempt : Nat) :
    cfg.ceilingForAttempt attempt ≤ cfg.maxDelay := Nat.min_le_right _ _

theorem BackoffConfig.ceilingForAttempt_lt (cfg : BackoffConfig) (attempt : Nat) :
    cfg.ceilingForAttempt attempt < 2 ^ 64 := by
  have hle : cfg.ceilingForAttempt attempt ≤ 2 ^ 64 - 1 :=
    Nat.le_trans (Nat.min_le_left _ _) (Nat.min_le_right _ _)
  omega

/-- The helper sleeps no longer than the ceiling. -/
theorem BackoffConfig.sleepAfter_le (cfg : BackoffConfig) (attempt : Nat) :
    cfg.sleepAfter attempt ≤ cfg.ceilingForAttempt attempt := by
  refine Nat.le_trans (Nat.min_le_left _ _) (Nat.div_le_of_le_mul ?_)
  rw [Nat.mul_comm 1024]
  exact Nat.mul_le_mul_left _ (Nat.mod_lt _ (by omega)).le

/-- **The ceilings grow** until they reach the cap. -/
theorem BackoffConfig.ceilingForAttempt_mono {cfg : BackoffConfig} (hmul : 1 ≤ cfg.multiplier)
    {j k : Nat} (hjk : j ≤ k) : cfg.ceilingForAttempt j ≤ cfg.ceilingForAttempt k := by
  have hpow : cfg.multiplier ^ (j - 1) ≤ cfg.multiplier ^ (k - 1) :=
    Nat.pow_le_pow_right hmul (Nat.sub_le_sub_right hjk 1)
  have hproduct : cfg.initialDelay * min (cfg.multiplier ^ (j - 1)) (2 ^ 32 - 1) ≤
      cfg.initialDelay * min (cfg.multiplier ^ (k - 1)) (2 ^ 32 - 1) :=
    Nat.mul_le_mul_left _ (min_le_min_right _ hpow)
  exact min_le_min_right _ (min_le_min_right _ (min_le_min_right _ hproduct))

/-! ### Words -/

/-- The value, if the word is wide enough. -/
def fitIn (bits v : Nat) : Option Nat := if v < 2 ^ bits then some v else none

theorem fitIn_eq_some {bits v : Nat} (h : v < 2 ^ bits) : fitIn bits v = some v := if_pos h

/-- Seconds, and the nanoseconds of the last one. -/
structure Duration where
  secs : UInt64
  nanos : UInt32
  nanos_lt : nanos.toNat < 1000000000

namespace Duration

/-- No nanoseconds beyond the whole seconds. -/
theorem whole : (0 : UInt32).toNat < 1000000000 := by decide

/-- What the duration comes to. -/
def toNat (d : Duration) : Nat := d.secs.toNat * 1000000000 + d.nanos.toNat

/-- `Duration::as_nanos`, in `u128`. -/
def asNanos (d : Duration) : Option Nat := do
  let whole ← fitIn 128 (d.secs.toNat * 1000000000)
  fitIn 128 (whole + d.nanos.toNat)

/-- `Duration::from_nanos`. -/
def fromNanos (n : UInt64) : Duration where
  secs := UInt64.ofNat (n.toNat / 1000000000)
  nanos := UInt32.ofNat (n.toNat % 1000000000)
  nanos_lt := by
    rw [UInt32.toNat_ofNat_of_lt' (by show _ < 2 ^ 32; omega)]
    exact Nat.mod_lt _ (by omega)

/-- By seconds, then by nanoseconds. -/
instance : Min Duration where
  min a b := if a.secs < b.secs ∨ a.secs = b.secs ∧ a.nanos ≤ b.nanos then a else b

theorem asNanos_eq (d : Duration) : d.asNanos = some d.toNat := by
  have hsecs := d.secs.toNat_lt
  have hnanos := d.nanos_lt
  have hsum : d.secs.toNat * 1000000000 + d.nanos.toNat < 2 ^ 128 := by omega
  have hwhole := Nat.lt_of_le_of_lt (Nat.le_add_right _ d.nanos.toNat) hsum
  unfold asNanos
  rw [fitIn_eq_some hwhole, Option.bind_eq_bind, Option.bind_some, fitIn_eq_some hsum]
  rfl

theorem toNat_fromNanos (n : UInt64) : (fromNanos n).toNat = n.toNat := by
  have hn := n.toNat_lt
  unfold toNat fromNanos
  rw [UInt64.toNat_ofNat_of_lt' (by show _ < 2 ^ 64; omega),
    UInt32.toNat_ofNat_of_lt' (by show _ < 2 ^ 32; omega)]
  exact Nat.div_add_mod' _ _

theorem toNat_min (a b : Duration) : (min a b).toNat = min a.toNat b.toNat := by
  have ha := a.nanos_lt
  have hb := b.nanos_lt
  show (if a.secs < b.secs ∨ a.secs = b.secs ∧ a.nanos ≤ b.nanos then a else b).toNat = _
  split
  · rename_i h
    rw [UInt64.lt_iff_toNat_lt, UInt32.le_iff_toNat_le, ← UInt64.toNat_inj] at h
    unfold toNat
    omega
  · rename_i h
    rw [UInt64.lt_iff_toNat_lt, UInt32.le_iff_toNat_le, ← UInt64.toNat_inj] at h
    unfold toNat
    omega

end Duration

/-- The share of the ceiling, in 1024ths; its product wraps. -/
def jitterRatio (attempt : Nat) : Nat := attempt * 1103515245 % 2 ^ 64 % 1024

theorem jitterRatio_le (attempt : Nat) : jitterRatio attempt ≤ 1024 :=
  (Nat.mod_lt _ (by omega)).le

theorem BackoffConfig.sleepAfter_def (cfg : BackoffConfig) (attempt : Nat) :
    cfg.sleepAfter attempt =
      min (cfg.ceilingForAttempt attempt * jitterRatio attempt / 1024) (2 ^ 64 - 1) := rfl

/-- `BackoffConfig`, as the program holds it. -/
structure BackoffWords where
  initialDelay : Duration
  maxDelay : Duration
  maxAttempts : UInt32
  multiplier : UInt32
  one_le_maxAttempts : 1 ≤ maxAttempts.toNat

namespace BackoffWords

/-- The schedule in natural numbers. -/
def toConfig (cfg : BackoffWords) : BackoffConfig where
  initialDelay := cfg.initialDelay.toNat
  maxDelay := cfg.maxDelay.toNat
  maxAttempts := cfg.maxAttempts.toNat
  multiplier := cfg.multiplier.toNat
  one_le_maxAttempts := cfg.one_le_maxAttempts

/-- `BackoffConfig::default()`: 100 ms, twice as long each time, and never over 5 s. -/
def default : BackoffWords where
  initialDelay := ⟨0, 100000000, by decide⟩
  maxDelay := ⟨5, 0, Duration.whole⟩
  maxAttempts := 6
  multiplier := 2
  one_le_maxAttempts := by decide

/-- The schedule the workers retry by. -/
theorem toConfig_default : default.toConfig = .default := rfl

/-- `ceiling_for_attempt`: the power and the product saturate, the cast to `u64` must fit. -/
def ceilingForAttempt (cfg : BackoffWords) (attempt : UInt32) : Option Duration := do
  let factor := min (cfg.multiplier.toNat ^ (attempt.toNat - 1)) (2 ^ 32 - 1)
  let initial ← cfg.initialDelay.asNanos
  let nanos := min (initial * factor) (2 ^ 128 - 1)
  let nanos ← fitIn 64 (min nanos (2 ^ 64 - 1))
  return min (Duration.fromNanos (UInt64.ofNat nanos)) cfg.maxDelay

/-- The sleep after `attempt`: the product with the ceiling must fit `u128`. -/
def sleepAfter (cfg : BackoffWords) (attempt : UInt32) : Option Duration := do
  let ceiling ← cfg.ceilingForAttempt attempt
  let nanos ← ceiling.asNanos
  let scaled ← fitIn 128 (nanos * jitterRatio attempt.toNat)
  let actual ← fitIn 64 (min (scaled / 1024) (2 ^ 64 - 1))
  return Duration.fromNanos (UInt64.ofNat actual)

/-- **The ceiling is computed without overflow**, to what the schedule says. -/
theorem ceilingForAttempt_eq (cfg : BackoffWords) (attempt : UInt32) :
    ∃ d, cfg.ceilingForAttempt attempt = some d ∧
      d.toNat = cfg.toConfig.ceilingForAttempt attempt.toNat := by
  unfold ceilingForAttempt BackoffConfig.ceilingForAttempt
  rw [Duration.asNanos_eq, Option.bind_eq_bind, Option.bind_some]
  simp only [toConfig]
  generalize cfg.initialDelay.toNat * min (cfg.multiplier.toNat ^ (attempt.toNat - 1))
    (2 ^ 32 - 1) = product
  have hfit : min (min product (2 ^ 128 - 1)) (2 ^ 64 - 1) < 2 ^ 64 := by omega
  rw [fitIn_eq_some hfit, Option.bind_some]
  refine ⟨_, rfl, ?_⟩
  rw [Duration.toNat_min, Duration.toNat_fromNanos, UInt64.toNat_ofNat_of_lt' hfit]

/-- **So is the sleep.** -/
theorem sleepAfter_eq (cfg : BackoffWords) (attempt : UInt32) :
    ∃ d, cfg.sleepAfter attempt = some d ∧
      d.toNat = cfg.toConfig.sleepAfter attempt.toNat := by
  obtain ⟨ceiling, hceiling, hnat⟩ := cfg.ceilingForAttempt_eq attempt
  have hlt : ceiling.toNat ≤ 2 ^ 64 := hnat ▸ (cfg.toConfig.ceilingForAttempt_lt _).le
  have hratio := jitterRatio_le attempt.toNat
  unfold sleepAfter
  rw [hceiling, BackoffConfig.sleepAfter_def, ← hnat]
  generalize jitterRatio attempt.toNat = ratio at hratio
  have hprod : ceiling.toNat * ratio < 2 ^ 128 :=
    calc ceiling.toNat * ratio ≤ 2 ^ 64 * 1024 := Nat.mul_le_mul hlt hratio
      _ < 2 ^ 128 := by omega
  have hfit : min (ceiling.toNat * ratio / 1024) (2 ^ 64 - 1) < 2 ^ 64 := by omega
  rw [Option.bind_eq_bind, Option.bind_some, Duration.asNanos_eq, Option.bind_eq_bind,
    Option.bind_some, fitIn_eq_some hprod, Option.bind_some, fitIn_eq_some hfit,
    Option.bind_some]
  refine ⟨_, rfl, ?_⟩
  rw [Duration.toNat_fromNanos, UInt64.toNat_ofNat_of_lt' hfit]

end BackoffWords

end SentrixIndexer
