/-
The analytics flusher, one step at a time.

The sync layer pushes rows into an unbounded channel; the flusher task moves them into
its buffer and writes the buffer to ClickHouse in one insert, on every tick and on
shutdown.  A step is what happens between two points where other tasks can run: a
branch of the `select!`, one `try_recv`, one answer of the ClickHouse client.

The indexer keeps a handle until it has cancelled the task, so the channel loses its
last sender only after that.  The state keeps a record of what happened, newest first,
which no step reads.
-/
import SentrixIndexer.BlockWriter

namespace SentrixIndexer

/-- Which branch of the `select!` the task is in. -/
inductive FlushBranch
  | tick
  | shutdown
  deriving DecidableEq, Repr

/-- Where the task stands. -/
inductive FlusherPc
  | selecting
  /-- In the `while let Ok(row) = rx.try_recv()` of the branch. -/
  | draining (branch : FlushBranch)
  /-- Past the last look into the channel, at the top of `flush`. -/
  | flushing (branch : FlushBranch)
  /-- In `flush`, before `client.insert`. -/
  | creating (branch : FlushBranch)
  /-- In `flush`, between two rows of `buf.drain(..)`. -/
  | writing (branch : FlushBranch)
  /-- The task has returned. -/
  | returned (ok : Bool)
  deriving DecidableEq, Repr

inductive FlushEvent
  /-- A push returned `Ok`. -/
  | pushed (row : RawTxRow)
  /-- The last look into the channel before the final flush. -/
  | lastDrain
  /-- `insert.end()` returned `Ok` for these rows. -/
  | ended (rows : List RawTxRow)
  /-- The client returned an error. -/
  | failed
  deriving DecidableEq

structure Flusher where
  /-- The channel, oldest row first. -/
  queue : List RawTxRow
  /-- Whether a handle is alive. -/
  handles : Bool
  cancelled : Bool
  pc : FlusherPc
  buf : List RawTxRow
  /-- The rows written to the insert in progress. -/
  insert : List RawTxRow
  events : List FlushEvent
  deriving DecidableEq

namespace Flusher

/-- `run_flusher`: an empty channel and a task that waits. -/
def init : Flusher := ⟨[], true, false, .selecting, [], [], []⟩

def note (c : Flusher) (e : FlushEvent) : Flusher := { c with events := e :: c.events }

/-- The task returns: its buffer, its insert and the receiving end of the channel are dropped. -/
def exit (c : Flusher) (ok : Bool) : Flusher :=
  { c with pc := .returned ok, buf := [], insert := [], queue := [] }

/-- The `?` of a client call that failed. -/
def fail (c : Flusher) : Flusher := (c.exit false).note .failed

/-- What follows a flush that went well. -/
def resume (c : Flusher) : FlushBranch → Flusher
  | .tick => { c with pc := .selecting }
  | .shutdown => c.exit true

/-- `flush`: nothing to do for an empty buffer. -/
def flush (c : Flusher) (branch : FlushBranch) : Flusher :=
  if c.buf.isEmpty then c.resume branch else { c with pc := .creating branch }

/-- The drain of the branch is over. -/
def drained (c : Flusher) : FlushBranch → Flusher
  | .tick => { c with pc := .flushing .tick }
  | .shutdown => { c.note .lastDrain with pc := .flushing .shutdown }

end Flusher

/-- One step: of a task that pushes, of the indexer, or of the flusher task. -/
inductive FlusherStep : Flusher → Flusher → Prop
  /-- `push` sends while the receiver is there. -/
  | push {c : Flusher} (row : RawTxRow) (hhandle : c.handles = true)
      (hopen : ∀ ok, c.pc ≠ .returned ok) :
      FlusherStep c ({ c with queue := c.queue ++ [row] }.note (.pushed row))
  | cancel {c : Flusher} : FlusherStep c { c with cancelled := true }
  /-- The last handle is dropped. -/
  | drop {c : Flusher} (hcancelled : c.cancelled = true) :
      FlusherStep c { c with handles := false }
  /-- `cancel.cancelled()`. -/
  | onCancelled {c : Flusher} (hpc : c.pc = .selecting) (hcancelled : c.cancelled = true) :
      FlusherStep c { c with pc := .draining .shutdown }
  /-- `tick.tick()`. -/
  | onTick {c : Flusher} (hpc : c.pc = .selecting) : FlusherStep c { c with pc := .draining .tick }
  /-- `rx.recv()` is `Some(row)`. -/
  | onRow {c : Flusher} (hpc : c.pc = .selecting) {row : RawTxRow} {rest : List RawTxRow}
      (hqueue : c.queue = row :: rest) :
      FlusherStep c { c with queue := rest, buf := c.buf ++ [row] }
  /-- `rx.recv()` is `None`. -/
  | onClosed {c : Flusher} (hpc : c.pc = .selecting) (hqueue : c.queue = [])
      (hhandle : c.handles = false) : FlusherStep c (c.drained .shutdown)
  /-- `rx.try_recv()` is `Ok(row)`. -/
  | drainRow {c : Flusher} {branch : FlushBranch} (hpc : c.pc = .draining branch)
      {row : RawTxRow} {rest : List RawTxRow} (hqueue : c.queue = row :: rest) :
      FlusherStep c { c with queue := rest, buf := c.buf ++ [row] }
  /-- `rx.try_recv()` finds nothing. -/
  | drainEnd {c : Flusher} {branch : FlushBranch} (hpc : c.pc = .draining branch)
      (hqueue : c.queue = []) : FlusherStep c (c.drained branch)
  | flush {c : Flusher} {branch : FlushBranch} (hpc : c.pc = .flushing branch) :
      FlusherStep c (c.flush branch)
  /-- `client.insert(table)` succeeds. -/
  | insertOk {c : Flusher} {branch : FlushBranch} (hpc : c.pc = .creating branch) :
      FlusherStep c { c with pc := .writing branch }
  | insertErr {c : Flusher} {branch : FlushBranch} (hpc : c.pc = .creating branch) :
      FlusherStep c c.fail
  /-- `insert.write(&row)` succeeds for the next row. -/
  | writeOk {c : Flusher} {branch : FlushBranch} (hpc : c.pc = .writing branch)
      {row : RawTxRow} {rest : List RawTxRow} (hbuf : c.buf = row :: rest) :
      FlusherStep c { c with buf := rest, insert := c.insert ++ [row] }
  | writeErr {c : Flusher} {branch : FlushBranch} (hpc : c.pc = .writing branch)
      {row : RawTxRow} {rest : List RawTxRow} (hbuf : c.buf = row :: rest) : FlusherStep c c.fail
  /-- `insert.end()` succeeds. -/
  | endOk {c : Flusher} {branch : FlushBranch} (hpc : c.pc = .writing branch) (hbuf : c.buf = []) :
      FlusherStep c (({ c with insert := [] }.note (.ended c.insert)).resume branch)
  | endErr {c : Flusher} {branch : FlushBranch} (hpc : c.pc = .writing branch)
      (hbuf : c.buf = []) : FlusherStep c c.fail

/-- The states some interleaving of pushes, ticks and answers reaches. -/
inductive FlusherReachable : Flusher → Prop
  | init : FlusherReachable .init
  | step {c c' : Flusher} (h : FlusherReachable c) (hs : FlusherStep c c') : FlusherReachable c'

/-- The rows whose push returned `Ok`, oldest first. -/
def acceptedRows : List FlushEvent → List RawTxRow
  | [] => []
  | .pushed row :: rest => acceptedRows rest ++ [row]
  | _ :: rest => acceptedRows rest

/-- The rows of the inserts that ended well, oldest first. -/
def deliveredRows : List FlushEvent → List RawTxRow
  | [] => []
  | .ended rows :: rest => deliveredRows rest ++ rows
  | _ :: rest => deliveredRows rest

end SentrixIndexer
