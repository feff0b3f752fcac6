/-
The circuit breaker of the cache.

A failure counter of 32 bits, which wraps, and a latch that says until when the breaker is
open.  A success clears the counter alone; a call that finds the window over clears both;
every failure from the threshold on sets the latch anew.  A moment that the clock cannot
represent makes the addition panic, after the failure was counted.
-/
import SentrixIndexer.Backoff

namespace SentrixIndexer

/-- The last nanosecond an `Instant` can name, its seconds being an `i64`. -/
def latestInstant : Nat := (2 ^ 63 - 1) * 1000000000 + 999999999

/-- `Instant + Duration`. -/
def instantAdd (now : Nat) (d : Duration) : Except String Nat :=
  if now + d.toNat ≤ latestInstant then .ok (now + d.toNat)
  else .error "overflow when adding duration to instant"

/-- What a breaker is made with. -/
structure BreakerConfig where
  threshold : UInt32
  openFor : Duration

/-- Where a breaker stands. -/
structure CircuitBreaker where
  failures : UInt32
  openUntil : Option Nat
  deriving DecidableEq

namespace CircuitBreaker

/-- `CircuitBreaker::new`. -/
def new : CircuitBreaker := ⟨0, none⟩

/-- `is_open`: once the window has elapsed the breaker is half open, and all is reset. -/
def isOpen (b : CircuitBreaker) (now : Nat) : Bool × CircuitBreaker :=
  match b.openUntil with
  | some deadline => if now < deadline then (true, b) else (false, ⟨0, none⟩)
  | none => (false, b)

/-- `record_success`. -/
def recordSuccess (b : CircuitBreaker) : CircuitBreaker := { b with failures := 0 }

/-- `record_failure`, which may panic. -/
def recordFailure (cfg : BreakerConfig) (b : CircuitBreaker) (now : Nat) :
    Except String Unit × CircuitBreaker :=
  let prev := b.failures
  let b := { b with failures := prev + 1 }
  if prev + 1 ≥ cfg.threshold then
    match instantAdd now cfg.openFor with
    | .ok deadline => (.ok (), { b with openUntil := some deadline })
    | .error e => (.error e, b)
  else (.ok (), b)

end CircuitBreaker

/-! ### Timed traces -/

inductive BreakerCall
  | isOpen
  | recordSuccess
  | recordFailure
  deriving DecidableEq, Repr

/-- A call on the breaker, and when it was made. -/
structure TimedCall where
  call : BreakerCall
  time : Nat

/-- The breaker after some calls, the latest of which comes first. -/
def breakerAfter (cfg : BreakerConfig) : List TimedCall → CircuitBreaker
  | [] => .new
  | ⟨.isOpen, now⟩ :: past => ((breakerAfter cfg past).isOpen now).2
  | ⟨.recordSuccess, _⟩ :: past => (breakerAfter cfg past).recordSuccess
  | ⟨.recordFailure, now⟩ :: past => ((breakerAfter cfg past).recordFailure cfg now).2

end SentrixIndexer
