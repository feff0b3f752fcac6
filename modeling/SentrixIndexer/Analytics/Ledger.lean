/-
The analytics rows of the writes.

A write that has been answered `Ok` owes one row for each transaction of its bundles, and
the task pushes them one after another, until a push fails because the channel is closed.
The state is that of the indexer with a record: the writes that were answered `Ok`, the
rows each task still has to push for its last write, and the rows that a closed channel
has cost.  No program reads it.
-/
import SentrixIndexer.Effect.Monitor
import SentrixIndexer.Sync.Indexer

namespace SentrixIndexer

open Effect

/-- The rows pushed after the transaction has committed. -/
def Txn.rows : Txn → List RawTxRow
  | .writeBlock b => analyticsRows b
  | .batchWriteBlocks bundles => bundles.flatMap analyticsRows
  | _ => []

/-- The hashes of the transactions it writes. -/
def Txn.hashes : Txn → List Hash
  | .writeBlock b => b.txs.map Transaction.hash
  | .batchWriteBlocks bundles => bundles.flatMap fun b => b.txs.map Transaction.hash
  | _ => []

/-- No bundle has a height below zero. -/
def Txn.Indexed : Txn → Prop
  | .writeBlock b => 0 ≤ b.block.height
  | .batchWriteBlocks bundles => ∀ b ∈ bundles, 0 ≤ b.block.height
  | _ => True

/-- The rows a task owes: it pushes the first of them next, and does nothing else before all
are pushed. -/
def rowsOwed : Monitor SyncSig (List RawTxRow) where
  Allows owed
    | .push row => owed.head? = some row
    | .transact t => owed = [] ∧ t.Indexed
    | _ => owed = []
  next
    | _, .transact t, .ok () => t.rows
    | owed, .push _, true => owed.tail
    | _, .push _, false => []
    | owed, _, _ => owed

structure Ledger where
  /-- The transactions that were answered `Ok`, newest first. -/
  acked : List (TaskId × Txn)
  /-- What the last write of each task still has to push. -/
  owed : TaskId → List RawTxRow
  /-- What a closed channel has cost. -/
  missed : List RawTxRow

namespace Ledger

def empty : Ledger := ⟨[], fun _ => [], []⟩

/-- The record after a call of the task has been answered. -/
def note (l : Ledger) (i : TaskId) (c : SyncCall) (r : c.Answer) : Ledger where
  acked := match c, r with
    | .transact t, .ok () => (i, t) :: l.acked
    | _, _ => l.acked
  owed := Function.update l.owed i (rowsOwed.next (l.owed i) c r)
  missed := match c, r with
    | .push _, false => l.owed i ++ l.missed
    | _, _ => l.missed

end Ledger

variable {χ : Type}

/-- The state of the indexer with the record of its writes. -/
structure Booked (χ : Type) where
  world : World χ
  ledger : Ledger

def Booked.init (chain : χ) : Booked χ := ⟨.init chain, .empty⟩

/-- What a task of a process with an analytics handle may start. -/
inductive AnalyticsTask : Prog SyncSig Unit → Prop
  | backfill (cfg : SyncConfig) (tuning : Tuning) :
      AnalyticsTask (discard (runBackfill cfg tuning true))
  | finalized (cfg : SyncConfig) (tip : Int) :
      AnalyticsTask (discard (handleFinalized cfg true tip))

/-- The writers of one process, with their writes recorded; the process does not crash. -/
def bookedIndexer (rpc : Rpc χ) (moves : χ → χ → Prop) :
    System SyncSig TaskId (Booked χ) Unit where
  handler i x c r x' := handle rpc i x.world c r x'.world ∧ x'.ledger = x.ledger.note i c r
  spawn _ p := AnalyticsTask p
  env x x' := Surroundings moves x.world x'.world ∧ x'.ledger = x.ledger
  crash _ _ := False

/-- The rows that have been pushed, each with its task, newest first. -/
def pushedRows (events : List Event) : List (TaskId × RawTxRow) :=
  events.filterMap fun
    | .pushed i row => some (i, row)
    | _ => none

/-- How many rows have been pushed for the transaction. -/
def pushedFor (hash : Hash) (events : List Event) : Nat :=
  (pushedRows events).countP fun e => e.2.txHash = hash

/-- The transaction repeats no hash, its own or one of an earlier write. -/
def WritesNew (acked : List (TaskId × Txn)) (t : Txn) : Prop :=
  t.hashes.Nodup ∧ ∀ hash ∈ t.hashes, ∀ e ∈ acked, hash ∉ e.2.hashes

/-- If the step answers a transaction with `Ok`, then it is one that writes new hashes only. -/
def AcksNew (x x' : Booked χ) : Prop :=
  ∀ i t, x'.ledger.acked = (i, t) :: x.ledger.acked → WritesNew x.ledger.acked t

end SentrixIndexer
