/-
What is done with each CoinBlast event, and how an unknown emitter is vetted.

A handler reads a log, decodes it and makes one transaction of it.  An unknown emitter of
a curve event is asked the three views of a curve; one that answers all of them is
adopted.
-/
import SentrixIndexer.Coinblast.World

namespace SentrixIndexer

open Effect

/-! ### Fields of a log -/

def requireBlockNumber (l : RpcLog) : Except CbError Int :=
  match l.blockNumber with
  | none => .error (.invalid "log.block_number missing")
  | some n =>
      if i64Max < n.toNat then
        .error (.invalid ("block_number " ++ toString n.toNat ++ " > i64::MAX"))
      else .ok n.toNat

def requireLogIndex (l : RpcLog) : Except CbError Int :=
  match l.logIndex with
  | none => .error (.invalid "log.log_index missing")
  | some n =>
      if i32Max < n.toNat then
        .error (.invalid ("log_index " ++ toString n.toNat ++ " > i32::MAX"))
      else .ok n.toNat

def requireTxHash (l : RpcLog) : Except CbError Hash :=
  match l.transactionHash with
  | none => .error (.invalid "log.transaction_hash missing")
  | some h => .ok (hex0x h.toList)

/-- `decode::<E>`. -/
def decodeLog {α : Type} (decoder : List B256 → List UInt8 → Except String α) (l : RpcLog) :
    Except CbError α :=
  (decoder l.topics l.data).mapError .decode

/-- `price_per_token`. -/
def pricePerToken (srx tokens : Wei) : Wei := if tokens = 0 then 0 else srx / tokens

/-! ### Rows of events -/

/-- The row `apply_curve_created` inserts. -/
def curveCreatedRow (abi : Abi) (l : RpcLog) : Except CbError InsertCbToken := do
  let block ← requireBlockNumber l
  let txHash ← requireTxHash l
  let event ← decodeLog abi.decodeCurveCreated l
  return {
    curveAddress := hexAddr event.curve
    tokenAddress := hexAddr event.token
    ownerAddress := hexAddr event.owner
    name := event.name
    symbol := event.symbol
    curveSupply := event.curveSupply
    graduationThreshold := event.graduationSrxThreshold
    createdBlock := block
    createdTxHash := txHash }

/-- What a handler reads of a curve event. -/
structure TradeFields where
  trader : EvmAddress
  srx : Wei
  tokens : Wei
  fee : Wei

/-- The row of a curve event whose decoder reads these fields. -/
def tradeRow (kind : TradeKind) (fields : RpcLog → Except CbError TradeFields) (l : RpcLog) :
    Except CbError CbTrade := do
  let block ← requireBlockNumber l
  let logIndex ← requireLogIndex l
  let txHash ← requireTxHash l
  let event ← fields l
  return {
    curveAddress := hexAddr l.address
    tokenAddress := none
    kind := kind
    traderAddress := hexAddr event.trader
    srxAmount := event.srx
    tokenAmount := event.tokens
    fee := event.fee
    blockNumber := block
    txHash := txHash
    logIndex := logIndex }

def buyFields (abi : Abi) (l : RpcLog) : Except CbError TradeFields := do
  let event ← decodeLog abi.decodeBuy l
  return ⟨event.buyer, event.srxIn, event.tokensOut, event.fee⟩

def sellFields (abi : Abi) (l : RpcLog) : Except CbError TradeFields := do
  let event ← decodeLog abi.decodeSell l
  return ⟨event.seller, event.srxOut, event.tokensIn, event.fee⟩

def graduatedFields (abi : Abi) (l : RpcLog) : Except CbError TradeFields := do
  let event ← decodeLog abi.decodeGraduated l
  return ⟨event.pair, event.srxLiquidity, event.tokenLiquidity, 0⟩

/-- The transaction of a buy or a sell. -/
def CbTrade.bumping (t : CbTrade) : CbTxn :=
  .writeTrade t t.srxAmount (pricePerToken t.srxAmount t.tokenAmount)

/-- What the worker writes for a curve event with this topic. -/
def curveTxn (abi : Abi) (t0 : B256) (l : RpcLog) : Except CbError CbTxn :=
  if t0 = abi.buyHash then do return (← tradeRow .buy (buyFields abi) l).bumping
  else if t0 = abi.sellHash then do return (← tradeRow .sell (sellFields abi) l).bumping
  else do return .writeGraduated (← tradeRow .graduated (graduatedFields abi) l)

/-! ### Handlers -/

/-- One transaction. -/
def cbTransact (t : CbTxn) : CbScript t.Result := ExceptT.mk (CbCall.transact t).ask

def applyCurveCreated (abi : Abi) (l : RpcLog) : CbScript Unit := do
  let row ← ExceptT.mk (.pure (curveCreatedRow abi l))
  cbTransact (.insertToken row)

/-- A handler of a curve event: whether the trade is a new one. -/
def applyTrade (kind : TradeKind) (fields : RpcLog → Except CbError TradeFields) (l : RpcLog) :
    CbScript Bool := do
  let row ← ExceptT.mk (.pure (tradeRow kind fields l))
  cbTransact (.writeTrade row row.srxAmount (pricePerToken row.srxAmount row.tokenAmount))

def applyBuy (abi : Abi) (l : RpcLog) : CbScript Bool := applyTrade .buy (buyFields abi) l

def applySell (abi : Abi) (l : RpcLog) : CbScript Bool := applyTrade .sell (sellFields abi) l

def applyGraduated (abi : Abi) (l : RpcLog) : CbScript Bool := do
  let row ← ExceptT.mk (.pure (tradeRow .graduated (graduatedFields abi) l))
  cbTransact (.writeGraduated row)

/-! ### Orphan curves -/

/-- `provider.call`. -/
def ethCall (target : EvmAddress) (view : ViewFn) : CbScript (List UInt8) :=
  ExceptT.mk do
    match ← (CbCall.chain (.ethCall target view)).ask with
    | .ok raw => return .ok raw
    | .error e => return .error (.chain e)

/-- What a decoder makes of the answer of a view. -/
def viewResult {α : Type} (decoder : List UInt8 → Except String α) :
    Except ChainError (List UInt8) → Except CbError α
  | .ok raw => (decoder raw).mapError .decode
  | .error e => .error (.chain e)

/-- What a decoder makes of the bytes a view returns. -/
def callView {α : Type} (decoder : List UInt8 → Except String α) (target : EvmAddress)
    (view : ViewFn) : CbScript α := do
  let raw ← ethCall target view
  ExceptT.mk (.pure ((decoder raw).mapError .decode))

def callToken (abi : Abi) (target : EvmAddress) : CbScript EvmAddress :=
  callView abi.decodeToken target .token

/-- The first 32 bytes of a return value as a number. -/
def decodeUint256 (raw : List UInt8) : Except String Wei :=
  if raw.length < 32 then
    .error ("uint256 return too short: " ++ toString raw.length ++ " bytes")
  else .ok (ofBytesBE (raw.take 32))

def callUint256 (target : EvmAddress) (view : ViewFn) : CbScript Wei :=
  callView decodeUint256 target view

def callString (abi : Abi) (target : EvmAddress) (view : ViewFn) : CbScript String :=
  callView abi.decodeName target view

/-- `unwrap_or_else(|_| text)`. -/
def orText (text : String) (p : CbScript String) : CbScript String :=
  ExceptT.lift (p.run >>= fun r => Script.pure (r.toOption.getD text))

def zeroAddr : Address := "0x0000000000000000000000000000000000000000"

/-- The three views of a curve, if all of them answer. -/
def curveViews (abi : Abi) (candidate : EvmAddress) : CbScript (Option (EvmAddress × Wei × Wei)) := do
  match ← ExceptT.lift (callToken abi candidate).run with
  | .error _ => return none
  | .ok token =>
      match ← ExceptT.lift (callUint256 candidate .curveSupply).run with
      | .error _ => return none
      | .ok curveSupply =>
          match ← ExceptT.lift (callUint256 candidate .graduationSrxThreshold).run with
          | .error _ => return none
          | .ok graduationThreshold => return some (token, curveSupply, graduationThreshold)

/-- Probe an unknown emitter; one that answers as a curve is adopted. -/
def tryAdopt (abi : Abi) (candidate : EvmAddress) (createdBlock : Int) (createdTxHash : Hash) :
    CbScript Bool := do
  match ← curveViews abi candidate with
  | none => return false
  | some (token, curveSupply, graduationThreshold) =>
      let name ← orText "Unknown" (callString abi token .name)
      let symbol ← orText "???" (callString abi token .symbol)
      cbTransact (.insertToken {
        curveAddress := hexAddr candidate
        tokenAddress := hexAddr token
        ownerAddress := zeroAddr
        name := name
        symbol := symbol
        curveSupply := curveSupply
        graduationThreshold := graduationThreshold
        createdBlock := createdBlock
        createdTxHash := createdTxHash })
      return true

end SentrixIndexer
