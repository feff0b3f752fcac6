/-
The indexer as a system of tasks.

Any number of tasks share one store and one gate.  An idle task may start a backfill
pass or handle a finalized tip, under any configuration; the chain may move and the
process may be told to stop at any time; a crash drops every task and leaves the
store.  The binary runs one backfill and one tail task, which is one such
interleaving.
-/
import SentrixIndexer.Sync.Tail

namespace SentrixIndexer

open Effect

/-- Run `p` for its effects; the task logs an error and goes on. -/
def discard {α : Type} (p : SyncProg α) : Prog SyncSig Unit := p.run.bind fun _ => .pure ()

/-- What a writer task may start. -/
inductive WriterTask : Prog SyncSig Unit → Prop
  | backfill (cfg : SyncConfig) (tuning : Tuning) (analytics : Bool) :
      WriterTask (discard (runBackfill cfg tuning analytics))
  | finalized (cfg : SyncConfig) (analytics : Bool) (tip : Int) :
      WriterTask (discard (handleFinalized cfg analytics tip))

variable {χ : Type}

/-- What happens around the tasks: the chain moves, the process is told to stop. -/
inductive Surroundings (moves : χ → χ → Prop) : World χ → World χ → Prop
  | chain {w : World χ} {chain' : χ} (h : moves w.chain chain') :
      Surroundings moves w { w with chain := chain' }
  | cancel (w : World χ) : Surroundings moves w { w with cancelled := true }

/-- The backfill and tail writers over nodes that answer by `rpc` and move by `moves`. -/
def indexer (rpc : Rpc χ) (moves : χ → χ → Prop) : System SyncSig TaskId (World χ) Unit where
  handler := handle rpc
  spawn _ p := WriterTask p
  env := Surroundings moves
  crash w w' := w' = w.restart

/-- The indexer goes on, from some state of a run that has the first store to one that has the
second. -/
def Meanwhile (rpc : Rpc χ) (moves : χ → χ → Prop) (chain : χ) (s s' : Store) : Prop :=
  ∃ c c', Reachable (indexer rpc moves) (World.init chain) c ∧
    Relation.ReflTransGen (Move (indexer rpc moves)) c c' ∧
    c.world.store = s ∧ c'.world.store = s'

/-- The nodes serve, at every height, a block that carries that height. -/
def FaithfulHeights (rpc : Rpc χ) : Prop :=
  ∀ chain h block chain', rpc chain (.restBlock h) (.ok (some block)) chain' → block.index = h

end SentrixIndexer
