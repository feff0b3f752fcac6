/-
The CoinBlast worker: chunks of the chain, from its own cursor to the lagging tip.

A chunk is walked twice.  The first pass inserts the curves the factory has created, the
second takes the curve events of every emitter, known or adopted on sight.  A chunk that
fails is tried again later; the cursor moves when one has succeeded.
-/
import SentrixIndexer.Coinblast.Handlers

namespace SentrixIndexer

open Effect

/-- Worker config, delays in nanoseconds. -/
structure WorkerConfig where
  network : Network
  chunkSize : UInt64
  safeLag : UInt64
  tick : Nat
  idleSleep : Nat

/-- `WorkerConfig::for_network`. -/
def WorkerConfig.forNetwork (network : Network) : WorkerConfig where
  network := network
  chunkSize := 4000
  safeLag := 5
  tick := 500 * 10 ^ 6
  idleSleep := 2 * 10 ^ 9

/-- `retry_with_backoff` under the default configuration. -/
def cbRetry {α : Type} (op : Script CbSig (Except ChainError α)) : CbScript α :=
  ExceptT.mk do
    match ← retryWithBackoff (fun nanos => (CbCall.sleep nanos).ask) BackoffConfig.default op with
    | .ok a => return .ok a
    | .error e => return .error (.chain e)

/-- `provider.logs_in_range`. -/
def cbLogsInRange (fromBlock toBlock : Int) (address : Option EvmAddress) :
    Script CbSig (Except ChainError (List RpcLog)) :=
  logsInRange (CbCall.chain (.getLogs fromBlock toBlock address)).ask fromBlock toBlock

/-! ### A chunk -/

/-- Pass 1: the curves the factory has created. -/
def passOne (abi : Abi) : List RpcLog → CbScript Unit
  | [] => return ()
  | l :: rest => do
      if l.topics.head? = some abi.curveCreatedHash then
        applyCurveCreated abi l
        ExceptT.lift (CbCall.insertKnown (hexAddr l.address)).ask
      passOne abi rest

/-- Vet the emitter of a curve event: whether it is, or now becomes, a known curve. -/
def vetEmitter (abi : Abi) (l : RpcLog) : CbScript Bool := do
  let emitter := hexAddr l.address
  if ← ExceptT.lift (CbCall.isKnown emitter).ask then return true
  else if ← ExceptT.lift (CbCall.isNonCurve emitter).ask then return false
  else
    let block := asI64 (l.blockNumber.getD 0)
    let txHash := (l.transactionHash.map fun h => hex0x h.toList).getD ""
    match ← ExceptT.lift (tryAdopt abi l.address block txHash).run with
    | .ok true =>
        ExceptT.lift (CbCall.insertKnown emitter).ask
        return true
    | .ok false =>
        ExceptT.lift (CbCall.cacheNonCurve emitter).ask
        return false
    | .error _ =>
        ExceptT.lift (CbCall.cacheNonCurve emitter).ask
        return false

/-- Hand a curve event to its handler. -/
def dispatch (abi : Abi) (t0 : B256) (l : RpcLog) : CbScript Unit := do
  if t0 = abi.buyHash then
    let _ ← applyBuy abi l
  else if t0 = abi.sellHash then
    let _ ← applySell abi l
  else if t0 = abi.graduatedHash then
    let _ ← applyGraduated abi l

/-- One log of pass 2. -/
def curveLog (abi : Abi) (l : RpcLog) : CbScript Unit := do
  match l.topics.head? with
  | none => return ()
  | some t0 =>
      if abi.IsCurveTopic t0 then
        if ← vetEmitter abi l then dispatch abi t0 l

/-- Pass 2: the curve events of the chunk. -/
def passTwo (abi : Abi) : List RpcLog → CbScript Unit
  | [] => return ()
  | l :: rest => do
      curveLog abi l
      passTwo abi rest

def runChunk (abi : Abi) (fromBlock toBlock : Int) (factory : EvmAddress) : CbScript Unit := do
  let factoryLogs ← cbRetry (cbLogsInRange fromBlock toBlock (some factory))
  passOne abi factoryLogs
  let curveLogs ← cbRetry (cbLogsInRange fromBlock toBlock none)
  passTwo abi curveLogs

/-! ### The loop -/

/-- `str::to_lowercase` of ASCII text; the worker stores no other curve. -/
def lowercase (s : String) : String := String.ofList (s.toList.map Char.toLower)

@[simp] theorem lowercase_hexAddr (a : EvmAddress) : lowercase (hexAddr a) = hexAddr a := by
  simp only [lowercase, hexAddr, hex0x, hexEncode, String.toList_append, String.toList_ofList,
    List.map_append, map_toLower_hexChars]
  rw [String.ofList_append]
  rfl

/-- `hydrate_known_curves`, into the sets the worker starts with. -/
def hydrateKnownCurves : CbScript Unit := do
  let curves ← ExceptT.mk CbCall.knownCurveAddresses.ask
  ExceptT.lift (CbCall.initSets (curves.map lowercase)).ask

/-- `read_cursor`: never below the block before the deployment. -/
def readCoinblastCursor (network : Network) : CbScript Int := do
  let cursor ← ExceptT.mk CbCall.readCursor.ask
  let floor := coinblastDeployBlock network - 1
  return max (cursor.getD floor) floor

/-- `select!` between the cancellation and a sleep; whether the loop goes on. -/
def idle (nanos : Nat) : CbScript (Unit ⊕ Unit) := do
  if ← ExceptT.lift (CbCall.sleepOrCancel nanos).ask then return .inr ()
  else return .inl ()

/-- The last block of the chunk right above the cursor. -/
def chunkEnd (cfg : WorkerConfig) (cursor target : Int) : Int :=
  min (saturatingAdd cursor (asI64 cfg.chunkSize)) target

/-- What follows the chunk that ends at `toBlock`. -/
def afterChunk (cfg : WorkerConfig) (toBlock : Int) : Except CbError Unit → CbScript (Unit ⊕ Unit)
  | .error _ => idle cfg.idleSleep
  | .ok () => do
      cbTransact (.setCursor toBlock)
      idle cfg.tick

/-- One pass of the loop. -/
def workerPass (abi : Abi) (cfg : WorkerConfig) : CbScript (Unit ⊕ Unit) := do
  if ← ExceptT.lift CbCall.isCancelled.ask then return .inr ()
  let cursor ← readCoinblastCursor cfg.network
  let tip ← cbRetry (CbCall.chain .blockNumber).ask
  let target := saturatingSub tip (asI64 cfg.safeLag)
  if target ≤ cursor then idle cfg.idleSleep
  else
    let toBlock := chunkEnd cfg cursor target
    let result ← ExceptT.lift
      (runChunk abi (cursor + 1) toBlock (coinblastFactoryAddress cfg.network)).run
    afterChunk cfg toBlock result

/-- `run_coinblast_worker`. -/
def runCoinblastWorker (abi : Abi) (cfg : WorkerConfig) : CbProg Unit := do
  Script.toProgE hydrateKnownCurves
  Prog.iterateE (fun _ => Script.toProgE (workerPass abi cfg)) ()

variable {χ : Type}

/-- The indexer process as the worker sees it: it may be told to stop, and it may crash. -/
inductive CbSurroundings (moves : χ → χ → Prop) : CbWorld χ → CbWorld χ → Prop
  | chain {w : CbWorld χ} {chain' : χ} (h : moves w.chain chain') :
      CbSurroundings moves w { w with chain := chain' }
  | cancel (w : CbWorld χ) : CbSurroundings moves w { w with cancelled := true }

/-- The worker over nodes that answer by `rpc` and move by `moves`: it is started again
whenever it is not running. -/
def coinblast (abi : Abi) (cfg : WorkerConfig) (rpc : CbRpc χ) (moves : χ → χ → Prop) :
    System CbSig Unit (CbWorld χ) (Except CbError Unit) where
  handler _ := cbHandle rpc
  spawn _ p := p = (runCoinblastWorker abi cfg).run
  env := CbSurroundings moves
  crash w w' := w' = w.restart

end SentrixIndexer
