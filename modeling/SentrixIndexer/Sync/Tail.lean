/-
The tail loop: walk the cursor forward as blocks finalize.

Each finalized block offers its height to the single-flight gate.  Whoever takes the
gate walks from the cursor to the offered tip, block by block, and goes on with
whatever tip was stashed meanwhile.  The gate outlives a session: the indexer
reconnects with the same one.
-/
import SentrixIndexer.Sync.Backfill

namespace SentrixIndexer

open Effect

/-- Why the tail loop ended. -/
inductive TailExit
  | cancelled
  | lagged
  | streamEnded
  deriving DecidableEq, Repr

/-- `while h <= cap`: ingest the heights one after another. -/
def ingestAll (analytics : Bool) : List Int → SyncScript Unit
  | [] => return ()
  | h :: rest => do
      ingestOne analytics h
      ingestAll analytics rest

/-- One pass of `handle_finalized`: walk to `current`, then look for a stashed tip. -/
def walkPass (cfg : SyncConfig) (analytics : Bool) (current : Int) :
    SyncScript (Int ⊕ Unit) := do
  let cursor := (← readCursorCall).getD (-1)
  let cap := saturatingSub current (asI64 cfg.safeLag)
  if cursor < cap then ingestAll analytics (inclusive (cursor + 1) cap)
  match ← ExceptT.lift SyncCall.takePendingAndRelease.ask with
  | none => return .inr ()
  | some next => return .inl next

/-- How a pass ends: the gate is freed, or kept for the tip stashed meanwhile. -/
def takeNext : SyncScript (Int ⊕ Unit) := do
  match ← ExceptT.lift SyncCall.takePendingAndRelease.ask with
  | none => return .inr ()
  | some next => return .inl next

/-- `handle_finalized`. -/
def handleFinalized (cfg : SyncConfig) (analytics : Bool) (tip : Int) :
    SyncProg Unit := do
  match ← ExceptT.lift (SyncCall.offer tip).await with
  | .stashed => return ()
  | .acquired h => Prog.iterateE (fun current => Script.toProgE (walkPass cfg analytics current)) h

/-- One pass of the event loop of `run_tail`. -/
def tailPass (cfg : SyncConfig) (analytics : Bool) : SyncProg (Unit ⊕ TailExit) := do
  if ← ExceptT.lift SyncCall.isCancelled.await then return .inr .cancelled
  match ← ExceptT.lift (chainCall .streamMessage).toProg with
  | none => return .inl ()
  | some (.error status) => throw (.chain status)
  | some (.ok none) => return .inr .streamEnded
  | some (.ok (some (.blockFinalized none))) => return .inl ()
  | some (.ok (some (.blockFinalized (some index)))) =>
      handleFinalized cfg analytics (heightOfU64 index)
      return .inl ()
  | some (.ok (some .lagged)) => return .inr .lagged
  | some (.ok (some .other)) => return .inl ()

/-- `run_tail`: one session of the event stream. -/
def runTail (cfg : SyncConfig) (analytics : Bool) : SyncProg TailExit := do
  match ← ExceptT.lift (chainCall .streamEvents).toProg with
  | .error e => throw (.chain e)
  | .ok () => Prog.iterateE (fun _ => tailPass cfg analytics) ()

/-- How long the tail task waits before it reconnects. -/
def reconnectDelay : Except SyncError TailExit → Nat
  | .ok _ => 2 * 10 ^ 9
  | .error _ => 5 * 10 ^ 9

/-- One pass of the tail task of the indexer binary: connect, run a session, wait. -/
def sessionPass (cfg : SyncConfig) (analytics : Bool) : Prog SyncSig (Unit ⊕ Unit) := do
  if ← SyncCall.isCancelled.await then return .inr ()
  match ← (chainCall .connect).toProg with
  | .error _ =>
      (SyncCall.sleep (5 * 10 ^ 9)).await
      return .inl ()
  | .ok () =>
      match ← (runTail cfg analytics).run with
      | .ok .cancelled => return .inr ()
      | r =>
          (SyncCall.sleep (reconnectDelay r)).await
          return .inl ()

/-- The tail task: sessions until cancelled, all on one gate. -/
def tailTask (cfg : SyncConfig) (analytics : Bool) : Prog SyncSig Unit :=
  Prog.iterate (fun _ => sessionPass cfg analytics) ()

end SentrixIndexer
