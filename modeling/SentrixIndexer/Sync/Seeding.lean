/-
The one-time seeding of the addresses registry.

At boot the indexer spawns a task that counts the registry and, when it is empty, fills
it from the transactions already stored.  The block writers do not wait for it: their
commits fall before, between and after its statements.  The `INSERT .. SELECT` reads the
transactions as they are when it starts and takes effect when it ends, so a commit can
also fall inside it.  Any of the statements may fail, which the task only logs, and the
process may crash and start again at any point.
-/
import SentrixIndexer.Effect.Labelled
import SentrixIndexer.Sync.World

namespace SentrixIndexer

/-- Where the seeding task of the current process stands. -/
inductive SeederPc
  | counting
  /-- The count was 0. -/
  | selecting
  /-- The `SELECT` has been read, its rows are not in place yet. -/
  | inserting (rows : List AddressRow)
  | ended
  deriving DecidableEq, Repr

structure Seeding where
  store : Store
  pc : SeederPc

/-- The process has started over the store. -/
def Seeding.boot (s : Store) : Seeding := ⟨s, .counting⟩

inductive SeedAct
  /-- A block writer commits. -/
  | commit (t : Txn)
  /-- A statement of the task takes effect. -/
  | query
  /-- A statement of the task fails. -/
  | fail
  | restart
  deriving DecidableEq

inductive SeedStep : Seeding → SeedAct → Seeding → Prop
  | commit {c : Seeding} {t : Txn} {s : Store} (hblocks : ∀ h, t ≠ .rewindTo h)
      (hrun : t.run c.store = .ok s) : SeedStep c (.commit t) { c with store := s }
  | countZero {c : Seeding} (hpc : c.pc = .counting) (hcount : Addresses.count c.store = 0) :
      SeedStep c .query { c with pc := .selecting }
  | countSome {c : Seeding} (hpc : c.pc = .counting) (hcount : Addresses.count c.store ≠ 0) :
      SeedStep c .query { c with pc := .ended }
  | select {c : Seeding} (hpc : c.pc = .selecting) :
      SeedStep c .query { c with pc := .inserting (Addresses.historyRows c.store) }
  | insert {c : Seeding} {rows : List AddressRow} {s : Store} (hpc : c.pc = .inserting rows)
      (hrun : Addresses.insertHistory rows c.store = .ok s) : SeedStep c .query ⟨s, .ended⟩
  | fail {c : Seeding} (hpc : c.pc ≠ .ended) : SeedStep c .fail { c with pc := .ended }
  | restart {c : Seeding} : SeedStep c .restart (.boot c.store)

end SentrixIndexer
