/-
The single-flight gate of the tail loop.

At most one indexing chain runs at a time.  A tip offered while one runs is stashed,
the highest wins, and the running chain picks it up when it is done.  Each operation
is one critical section and is modelled as one step.
-/
import SentrixIndexer.Domain

namespace SentrixIndexer

structure SingleFlight where
  inflight : Bool
  pending : Option Int
  deriving DecidableEq, Repr

/-- Outcome of an offer. -/
inductive Offer
  /-- The caller took the gate and runs with this height. -/
  | acquired (h : Int)
  /-- The gate was busy; the tip waits for the chain in flight. -/
  | stashed
  deriving DecidableEq, Repr

namespace SingleFlight

/-- `SingleFlight::new`. -/
def new : SingleFlight := ⟨false, none⟩

/-- The higher of a tip and what is stashed already. -/
def freshest (g : SingleFlight) (tip : Int) : Int :=
  g.pending.elim tip fun stashed => max stashed tip

/-- `offer`: take a free gate, or stash the tip. -/
def offer (g : SingleFlight) (tip : Int) : Offer × SingleFlight :=
  if g.inflight then (.stashed, { g with pending := some (g.freshest tip) })
  else (.acquired (g.freshest tip), ⟨true, none⟩)

/-- `take_pending_and_release`: go on with a stashed tip, or free the gate. -/
def takePendingAndRelease (g : SingleFlight) : Option Int × SingleFlight :=
  match g.pending with
  | some next => (some next, { g with pending := none })
  | none => (none, { g with inflight := false })

end SingleFlight

end SentrixIndexer
