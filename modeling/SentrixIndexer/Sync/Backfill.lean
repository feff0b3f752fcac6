/-
The backfill loop: pipelined fetch, serial write.

`run_backfill` walks from the cursor to `min(tip - safe_lag, max_backfill)`.  Fetches
run concurrently in a bounded window and come out in height order; fetched bundles
wait in a buffer until it holds a batch, which is committed as one transaction.  A
height the node answers 404 for is skipped by a cursor write of its own, after the
buffer below it has been committed.

`ingest_one` fetches and writes one block; the tail loop walks with it.
-/
import SentrixIndexer.Convert
import SentrixIndexer.Sync.World
import SentrixIndexer.TokenDecode

namespace SentrixIndexer

open Effect

/-! ### The chain client -/

def chainCall (c : ChainCall) : Script SyncSig c.Answer := (SyncCall.chain c).ask

def sleepFor (nanos : Nat) : Script SyncSig Unit := (SyncCall.sleep nanos).ask

namespace ChainProvider

def blockNumber : Script SyncSig (Except ChainError Int) := chainCall .blockNumber

def blockWithTxs (h : Int) : Script SyncSig (Except ChainError (Option RpcBlock)) :=
  if heightAsU64 h = none then
    return .error (.invalidArgument ("block_with_txs: negative height " ++ heightDebug h))
  else chainCall (.blockWithTxs h)

/-- `logs_in_range`, without an emitter filter. -/
def logsInRange (fromBlock toBlock : Int) :
    Script SyncSig (Except ChainError (List RpcLog)) :=
  SentrixIndexer.logsInRange (chainCall (.getLogs fromBlock toBlock)) fromBlock toBlock

end ChainProvider

/-- `RestClient::block`: `None` on 404. -/
def RestClient.block (h : Int) :
    Script SyncSig (Except ChainError (Option NativeBlockResponse)) :=
  chainCall (.restBlock h)

/-- A chain call with retries, its last error as a `SyncError`. -/
def withRetry {α : Type} (op : Script SyncSig (Except ChainError α)) : SyncScript α :=
  ExceptT.mk do
    match ← retryWithBackoff sleepFor .default op with
    | .ok v => return .ok v
    | .error e => return .error (.chain e)

/-! ### The database -/

def readCursorCall : SyncScript (Option Int) := ExceptT.mk SyncCall.readCursor.ask

/-- Send one transaction. -/
def transact (t : Txn) : SyncScript Unit := ExceptT.mk (SyncCall.transact t).ask

/-- Push rows to the analytics buffer until it is closed. -/
def pushAll : List RawTxRow → Script SyncSig Unit
  | [] => return ()
  | row :: rest => do
      if ← (SyncCall.push row).ask then pushAll rest else return ()

/-- `write_block`: the transaction, then the analytics rows if a handle is wired. -/
def writeBlock (analytics : Bool) (b : BlockBundle) : SyncScript Unit := do
  transact (.writeBlock b)
  if analytics then ExceptT.lift (pushAll (analyticsRows b))

/-- `batch_write_blocks`. -/
def batchWriteBlocks (analytics : Bool) (bundles : List BlockBundle) : SyncScript Unit := do
  if bundles.isEmpty then return ()
  transact (.batchWriteBlocks bundles)
  if analytics then ExceptT.lift (pushAll (bundles.flatMap analyticsRows))

/-! ### Fetching one block -/

/-- A failed conversion as a `SyncError`. -/
def orInvalid {α : Type} (x : Except ConvertError α) : Except SyncError α :=
  x.mapError fun e => .invalid e.toText

/-- Logs of a transaction the block does not list are dropped. -/
def backedByTx (txs : List Transaction) (l : Log) : Bool := txs.any fun t => t.hash = l.txHash

/-- The bundle of a block response and the logs of its height. -/
def assemble (block : NativeBlockResponse) (logs : List RpcLog) :
    Except SyncError BlockBundle := do
  let domBlock ← orInvalid (toDomainBlockFromNative block)
  let domTxs ← orInvalid (toDomainTxsFromNative block)
  let domLogs ← orInvalid (logs.mapM toDomainLog)
  let domLogs := domLogs.filter (backedByTx domTxs)
  return {
    block := domBlock
    txs := domTxs
    logs := domLogs
    tokenTransfers := domLogs.filterMap decodeTransfer }

/-- `fetch_one`: `None` on 404. -/
def fetchOne (h : Int) : SyncScript (Option BlockBundle) := do
  match ← withRetry (RestClient.block h) with
  | none => return none
  | some block =>
      let logs ← withRetry (ChainProvider.logsInRange h h)
      let bundle ← assemble block logs
      return some bundle

/-- `ingest_one`: fetch and write one block, or step over a 404. -/
def ingestOne (analytics : Bool) (h : Int) : SyncScript Unit := do
  match ← withRetry (RestClient.block h) with
  | none => transact (.writeCursor h 0)
  | some block =>
      let logs ← withRetry (ChainProvider.logsInRange h h)
      let bundle ← assemble block logs
      writeBlock analytics bundle

/-! ### The pipeline -/

/-- How many fetches may be in flight, and how many bundles make a batch. -/
structure Tuning where
  concurrency : Nat
  batchSize : Nat
  concurrency_pos : 0 < concurrency
  batchSize_pos : 0 < batchSize

def defaultBackfillConcurrency : Nat := 50
def defaultBackfillBatch : Nat := 100

/-- `backfill_concurrency`, of the environment variable if it parses. -/
def backfillConcurrency (var : Option Nat) : Nat :=
  (var.filter fun n => 0 < n && n ≤ 500).getD defaultBackfillConcurrency

/-- `backfill_batch_size`. -/
def backfillBatchSize (var : Option Nat) : Nat :=
  (var.filter fun n => 0 < n && n ≤ 1000).getD defaultBackfillBatch

private theorem getD_filter_pos {var : Option Nat} {p : Nat → Bool} {d : Nat} (hd : 0 < d)
    (hp : ∀ n, p n = true → 0 < n) : 0 < (var.filter p).getD d := by
  rcases hf : var.filter p with _ | n
  · exact hd
  · rw [Option.filter_eq_some_iff] at hf
    exact hp n hf.2

/-- The tuning the environment asks for. -/
def Tuning.ofEnv (concurrency batch : Option Nat) : Tuning where
  concurrency := backfillConcurrency concurrency
  batchSize := backfillBatchSize batch
  concurrency_pos := getD_filter_pos (by decide) fun n hn => by simp at hn; omega
  batchSize_pos := getD_filter_pos (by decide) fun n hn => by simp at hn; omega

/-- `start..=cap`. -/
def inclusive (start cap : Int) : List Int :=
  (List.range (cap + 1 - start).toNat).map fun k : Nat => start + k

abbrev Fetches := Pool SyncSig Int (Except SyncError (Option BlockBundle))

/-- Heights not started yet, and the fetches in flight. -/
structure Pipeline where
  todo : List Int
  inflight : Fetches

/-- Start fetches until the window is full. -/
def Pipeline.fill (concurrency : Nat) (p : Pipeline) : Pipeline :=
  let room := concurrency - p.inflight.length
  { todo := p.todo.drop room
    inflight := p.inflight ++ (p.todo.take room).map fun h => (h, (fetchOne h).run) }

/-- What the `select!` of the loop yields. -/
inductive Next
  | cancelled
  | finished
  | item (h : Int) (result : Except SyncError (Option BlockBundle)) (rest : Pipeline)

/-- One poll of the `select!`: cancellation first, then the pipeline. -/
def pollNext (tuning : Tuning) (p : Pipeline) : Prog SyncSig (Pipeline ⊕ Next) := do
  if ← SyncCall.isCancelled.await then return .inr .cancelled
  let p := p.fill tuning.concurrency
  if p.inflight.isEmpty then return .inr .finished
  match ← Pool.turn ((SyncCall.schedule (p.inflight.map Prod.fst)).await) p.inflight with
  | .inl inflight => return .inl { p with inflight := inflight }
  | .inr (h, result, rest) => return .inr (.item h result { p with inflight := rest })

/-- What the backfill loop carries from pass to pass. -/
structure BackfillState where
  pipe : Pipeline
  buf : List BlockBundle
  cursor : Int

/-- `buf.iter().map(|b| b.block.height).max()`. -/
def highest (buf : List BlockBundle) : Option Int :=
  (buf.map fun b => b.block.height).max?

/-- Commit the buffer, if there is anything in it. -/
def flush (analytics : Bool) (s : BackfillState) : SyncScript BackfillState := do
  match highest s.buf with
  | none => return s
  | some h =>
      batchWriteBlocks analytics s.buf
      return { s with buf := [], cursor := h }

/-- What the loop does with the result for `h`. -/
def takeResult (analytics : Bool) (s : BackfillState) (h : Int) :
    Option BlockBundle → SyncScript BackfillState
  | some bundle => return { s with buf := s.buf ++ [bundle] }
  | none => do
      -- The buffer goes first, so the cursor never lands ahead of the data below the gap.
      if !s.buf.isEmpty then batchWriteBlocks analytics s.buf
      transact (.writeCursor h 0)
      return { s with buf := [], cursor := h }

/-- With nothing waiting a gap is only stepped over. -/
theorem takeResult_none_of_nil (analytics : Bool) {s : BackfillState} (hnil : s.buf = [])
    (h : Int) : takeResult analytics s h none = (do
      transact (.writeCursor h 0)
      return { s with buf := [], cursor := h }) := by
  simp [takeResult, hnil]

/-- Bundles that wait are written before the gap above them is stepped over. -/
theorem takeResult_none_of_ne_nil (analytics : Bool) {s : BackfillState} (hne : s.buf ≠ [])
    (h : Int) : takeResult analytics s h none = (do
      batchWriteBlocks analytics s.buf
      transact (.writeCursor h 0)
      return { s with buf := [], cursor := h }) := by
  simp [takeResult, hne]

/-- One pass of the backfill loop. -/
def backfillPass (tuning : Tuning) (analytics : Bool) (s : BackfillState) :
    SyncProg (BackfillState ⊕ Int) := do
  match ← ExceptT.lift (Prog.iterate (pollNext tuning) s.pipe) with
  | .cancelled =>
      let s ← Script.toProgE (flush analytics s)
      return .inr s.cursor
  | .finished =>
      let s ← Script.toProgE (flush analytics s)
      return .inr s.cursor
  | .item h result rest =>
      let fetched ← ExceptT.mk (Prog.pure result)
      let s ← Script.toProgE (takeResult analytics { s with pipe := rest } h fetched)
      if tuning.batchSize ≤ s.buf.length then
        let s ← Script.toProgE (flush analytics s)
        return .inl s
      else return .inl s

/-- How far this backfill goes. -/
def backfillCap (cfg : SyncConfig) (tip : Int) : Int :=
  let lagged := saturatingSub tip (asI64 cfg.safeLag)
  cfg.maxBackfillHeight.elim lagged fun m => min m lagged

/-- `run_backfill`. -/
def runBackfill (cfg : SyncConfig) (tuning : Tuning) (analytics : Bool) :
    SyncProg Int := do
  let cursor := (← Script.toProgE readCursorCall).getD (-1)
  let tip ← Script.toProgE (withRetry ChainProvider.blockNumber)
  let cap := backfillCap cfg tip
  if cap ≤ cursor then return cursor
  Prog.iterateE (backfillPass tuning analytics)
    { pipe := ⟨inclusive (cursor + 1) cap, []⟩, buf := [], cursor := cursor }

end SentrixIndexer
