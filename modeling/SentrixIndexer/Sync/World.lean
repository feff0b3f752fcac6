/-
What the sync loops talk to.

A sync program calls the chain client, the database, the gate of the tail loop and
the analytics buffer.  The chain answers as a relation `rpc` lets it: which answers
are possible is an assumption of each result, not a part of the code.  The database
runs each transaction as a whole; it may refuse one for reasons of its own, and it
may lose the reply to a commit that took effect.

The state keeps a record of what happened, newest first: which heights were answered
404 to which task, which transactions each task committed, which analytics rows were
accepted.  No program reads it.
-/
import SentrixIndexer.BlockWriter
import SentrixIndexer.Chain
import SentrixIndexer.Effect.Tasks
import SentrixIndexer.Sync.SingleFlight

namespace SentrixIndexer

open Effect

/-! ### Errors and configuration -/

inductive SyncError
  | chain (e : ChainError)
  | db (e : DbError)
  | sqlx (e : DbError)
  | invalid (msg : String)
  deriving DecidableEq, Repr

structure SyncConfig where
  safeLag : UInt64
  maxBackfillHeight : Option Int
  reorgProbeDepth : UInt64

/-- `SyncConfig::default()`. -/
def SyncConfig.default : SyncConfig where
  safeLag := 8
  maxBackfillHeight := none
  reorgProbeDepth := 16

/-! ### Calls -/

/-- Calls to the chain client. -/
inductive ChainCall
  | blockNumber
  | restBlock (h : Int)
  | blockWithTxs (h : Int)
  | getLogs (fromBlock toBlock : Int)
  | connect
  | streamEvents
  | streamMessage
  deriving DecidableEq, Repr

@[reducible] def ChainCall.Answer : ChainCall → Type
  | .blockNumber => Except ChainError Int
  | .restBlock _ => Except ChainError (Option NativeBlockResponse)
  | .blockWithTxs _ => Except ChainError (Option RpcBlock)
  | .getLogs _ _ => Except ChainError (List RpcLog)
  | .connect => Except ChainError Unit
  | .streamEvents => Except ChainError Unit
  /- `none` while nothing has arrived. -/
  | .streamMessage => Option (Except ChainError (Option ChainEvent))

abbrev ChainSig : Signature := ⟨ChainCall, ChainCall.Answer⟩

/-- Everything the sync layer sends to the database as one transaction. -/
inductive Txn
  | writeBlock (b : BlockBundle)
  | batchWriteBlocks (bundles : List BlockBundle)
  | writeCursor (h : Int) (nowTs : Int)
  | rewindTo (h : Int)
  deriving DecidableEq, Repr

/-- The transaction of `rewind_to`. -/
def rewindTx (h : Int) : Statement := fun s => do
  let s ← Blocks.deleteFrom h s
  SentrixIndexer.writeCursor (saturatingSub h 1) 0 s

def Txn.run : Txn → Statement
  | .writeBlock b => writeBlockTx b
  | .batchWriteBlocks bundles => batchWriteBlocksTx bundles
  | .writeCursor h nowTs => SentrixIndexer.writeCursor h nowTs
  | .rewindTo h => rewindTx h

/-- Calls of a sync program. -/
inductive SyncCall
  | chain (c : ChainCall)
  | sleep (nanos : Nat)
  | isCancelled
  /-- Which of the fetches in flight the executor advances. -/
  | schedule (inflight : List Int)
  | readCursor
  | getByHeight (h : Int)
  | transact (t : Txn)
  | offer (tip : Int)
  | takePendingAndRelease
  | push (row : RawTxRow)

@[reducible] def SyncCall.Answer : SyncCall → Type
  | .chain c => c.Answer
  | .sleep _ => Unit
  | .isCancelled => Bool
  | .schedule _ => Nat
  | .readCursor => Except SyncError (Option Int)
  | .getByHeight _ => Except SyncError (Option Block)
  | .transact _ => Except SyncError Unit
  | .offer _ => Offer
  | .takePendingAndRelease => Option Int
  | .push _ => Bool

abbrev SyncSig : Signature := ⟨SyncCall, SyncCall.Answer⟩

/-- The answer to a call, in straight-line code. -/
def SyncCall.ask (c : SyncCall) : Script SyncSig c.Answer := .call c .pure

/-- The answer to a call, in code with loops. -/
def SyncCall.await (c : SyncCall) : Prog SyncSig c.Answer := .call c .pure

/-- Straight-line sync code that may fail. -/
abbrev SyncScript := ExceptT SyncError (Script SyncSig)

/-- Sync code with loops that may fail. -/
abbrev SyncProg := ExceptT SyncError (Prog SyncSig)

/-! ### The state the tasks share -/

abbrev TaskId := Nat

inductive Event
  /-- `RestClient::block` answered 404 to the task. -/
  | notFound (i : TaskId) (h : Int)
  | committed (i : TaskId) (t : Txn)
  | pushed (i : TaskId) (row : RawTxRow)
  deriving DecidableEq

/-- The state, over the states `χ` of the chain the nodes serve. -/
structure World (χ : Type) where
  store : Store
  gate : SingleFlight
  cancelled : Bool
  chain : χ
  events : List Event

variable {χ : Type}

/-- The state at the first start: nothing stored, nothing happened. -/
def World.init (chain : χ) : World χ := ⟨.empty, .new, false, chain, []⟩

def World.commit (w : World χ) (i : TaskId) (t : Txn) (s : Store) : World χ :=
  { w with store := s, events := .committed i t :: w.events }

/-- What a crash and a restart leave: the store, and a fresh process. -/
def World.restart (w : World χ) : World χ := { w with gate := .new, cancelled := false }

/-- How the nodes may answer, and what the chain state becomes. -/
abbrev Rpc (χ : Type) := Handler ChainSig χ

/-- The record an answer of the chain leaves. -/
def noteAnswer (i : TaskId) : (c : ChainCall) → c.Answer → List Event
  | .restBlock h, .ok none => [.notFound i h]
  | _, _ => []

/-- How the surroundings answer the task `i`. -/
def handle (rpc : Rpc χ) (i : TaskId) : Handler SyncSig (World χ)
  | w, .chain c, r, w' => ∃ chain', rpc w.chain c r chain' ∧
      w' = { w with chain := chain', events := noteAnswer i c r ++ w.events }
  | w, .sleep _, _, w' => w' = w
  | w, .isCancelled, r, w' => r = w.cancelled ∧ w' = w
  | w, .schedule _, _, w' => w' = w
  | w, .readCursor, r, w' => w' = w ∧ (r = .ok (readCursor w.store) ∨ ∃ e, r = .error e)
  | w, .getByHeight h, r, w' =>
      w' = w ∧ (r = .ok (Blocks.getByHeight w.store h) ∨ ∃ e, r = .error e)
  | w, .transact t, r, w' =>
      (∃ s, t.run w.store = .ok s ∧ w' = w.commit i t s) ∨ ((∃ e, r = .error e) ∧ w' = w)
  | w, .offer tip, r, w' =>
      r = (w.gate.offer tip).1 ∧ w' = { w with gate := (w.gate.offer tip).2 }
  | w, .takePendingAndRelease, r, w' =>
      r = w.gate.takePendingAndRelease.1 ∧
      w' = { w with gate := w.gate.takePendingAndRelease.2 }
  | w, .push row, r, w' =>
      (r = true ∧ w' = { w with events := .pushed i row :: w.events }) ∨ (r = false ∧ w' = w)

/-! ### What an answer does to the world -/

/-- The ways the world goes on from a call, whatever the answer. -/
inductive WorldStep (rpc : Rpc χ) (i : TaskId) (w : World χ) : SyncCall → World χ → Prop
  | stay (call : SyncCall) : WorldStep rpc i w call w
  | chain {c : ChainCall} {r : c.Answer} {chain' : χ} (h : rpc w.chain c r chain') :
      WorldStep rpc i w (.chain c)
        { w with chain := chain', events := noteAnswer i c r ++ w.events }
  | commit {t : Txn} {s : Store} (h : t.run w.store = .ok s) :
      WorldStep rpc i w (.transact t) (w.commit i t s)
  | offer (tip : Int) (gate : SingleFlight) : WorldStep rpc i w (.offer tip) { w with gate := gate }
  | take (gate : SingleFlight) : WorldStep rpc i w .takePendingAndRelease { w with gate := gate }
  | push (row : RawTxRow) :
      WorldStep rpc i w (.push row) { w with events := .pushed i row :: w.events }

theorem handle_step {rpc : Rpc χ} {i : TaskId} {w w' : World χ} {call : SyncCall} {r : call.Answer}
    (h : handle rpc i w call r w') : WorldStep rpc i w call w' := by
  cases call with
  | chain c =>
      obtain ⟨chain', hrpc, rfl⟩ := h
      exact .chain hrpc
  | transact t =>
      rcases h with ⟨s, hrun, rfl⟩ | ⟨-, rfl⟩
      · exact .commit hrun
      · exact .stay _
  | push row =>
      rcases h with ⟨-, rfl⟩ | ⟨-, rfl⟩
      · exact .push row
      · exact .stay _
  | offer tip =>
      obtain ⟨-, rfl⟩ := h
      exact .offer tip _
  | takePendingAndRelease =>
      obtain ⟨-, rfl⟩ := h
      exact .take _
  | sleep nanos =>
      obtain rfl : w' = w := h
      exact .stay _
  | schedule inflight =>
      obtain rfl : w' = w := h
      exact .stay _
  | isCancelled =>
      obtain ⟨-, rfl⟩ := h
      exact .stay _
  | readCursor =>
      obtain ⟨rfl, -⟩ := h
      exact .stay _
  | getByHeight k =>
      obtain ⟨rfl, -⟩ := h
      exact .stay _

end SentrixIndexer
