/-
Chain responses as rows.

Blocks and transactions come from the native REST shape, logs from `eth_getLogs`.
A conversion fails only on a number that does not fit its column or on a log that
lacks a field every mined log has.
-/
import SentrixIndexer.Chain

namespace SentrixIndexer

/-- A conversion failed: the chain returned something out of its expected range. -/
inductive ConvertError
  | missing (field : String)
  | outOfRange (field : String)
  deriving DecidableEq, Repr

/-- The `Display` text of the error. -/
def ConvertError.toText : ConvertError → String
  | .missing field => "missing: " ++ field
  | .outOfRange field => "out of range: " ++ field

/-- Add a `0x` prefix if there is none. -/
def with0x (s : String) : String :=
  match s.toList with
  | '0' :: 'x' :: _ => s
  | '0' :: 'X' :: _ => s
  | _ => "0x" ++ s

/-- `to_domain_log`. -/
def toDomainLog (rpc : RpcLog) : Except ConvertError Log := do
  let height ← rpc.blockNumber.elim (.error (.missing "log.block_number")) .ok
  let rawIndex ← rpc.logIndex.elim (.error (.missing "log.log_index")) .ok
  if i32Max < rawIndex.toNat then .error (.outOfRange "log_index")
  let txHash ← rpc.transactionHash.elim (.error (.missing "log.transaction_hash")) .ok
  let topic := fun i => (rpc.topics[i]?).map fun t => hex0x t.toList
  return {
    blockHeight := heightOfU64 height
    txHash := hex0x txHash.toList
    logIndex := rawIndex.toNat
    address := hex0x rpc.address.toList
    topic0 := topic 0
    topic1 := topic 1
    topic2 := topic 2
    topic3 := topic 3
    data := some (hex0x rpc.data) }

/-- `to_domain_block_from_native`: gas accounting is not in the native shape. -/
def toDomainBlockFromNative (b : NativeBlockResponse) : Except ConvertError Block := do
  if b.index < 0 then .error (.outOfRange "block.index")
  if i32Max < b.transactions.length then .error (.outOfRange "tx_count")
  return {
    height := b.index
    hash := with0x b.hash
    parentHash := with0x b.previousHash
    timestamp := b.timestamp
    validator := with0x b.validator
    gasUsed := 0
    gasLimit := 0
    baseFee := none
    txCount := b.transactions.length
    stateRoot := (b.stateRoot.filter fun r => !r.isEmpty).map hex0x
    round := b.round
    justificationSigners := [] }

/-- What a coinbase transaction names as its sender. -/
def coinbaseSender : String := "COINBASE"

/-- The sender stored for a coinbase transaction. -/
def zeroAddress : Address := "0x0000000000000000000000000000000000000000"

def convertNativeTx (height : Int) (idx : Nat) (t : NativeBlockTx) :
    Except ConvertError Transaction := do
  if i32Max < idx then .error (.outOfRange "tx_index")
  if i64Max < t.nonce.toNat then .error (.outOfRange "tx.nonce")
  return {
    hash := with0x t.txid
    blockHeight := height
    txIndex := idx
    fromAddr := if t.fromAddress = coinbaseSender then zeroAddress else with0x t.fromAddress
    toAddr := t.toAddress.map with0x
    value := BitVec.ofNat 256 t.amount.toNat
    gasLimit := 0
    gasUsed := none
    gasPrice := none
    fee := BitVec.ofNat 256 t.fee.toNat
    nonce := t.nonce.toNat
    data := t.data
    status := 1
    contractAddress := none
    txType :=
      if t.fromAddress = coinbaseSender then .coinbase
      else if t.chainId = 0 then .system
      else .evm }

/-- **When a transaction is converted**, and what of it the row keeps. -/
theorem convertNativeTx_ok {height : Int} {idx : Nat} {t : NativeBlockTx} {tx : Transaction}
    (h : convertNativeTx height idx t = .ok tx) :
    ((idx : Int) ≤ i32Max ∧ (t.nonce.toNat : Int) ≤ i64Max) ∧
    (tx.blockHeight = height ∧ tx.txIndex = idx ∧ tx.nonce = t.nonce.toNat ∧
      tx.value = BitVec.ofNat 256 t.amount.toNat ∧ tx.fee = BitVec.ofNat 256 t.fee.toNat) ∧
    tx.hash = with0x t.txid ∧ tx.toAddr = t.toAddress.map with0x ∧
    tx.fromAddr = if t.fromAddress = coinbaseSender then zeroAddress
      else with0x t.fromAddress := by
  unfold convertNativeTx at h
  by_cases hidx : i32Max < (idx : Int)
  · simp [hidx, bind, Except.bind] at h
  · by_cases hnonce : i64Max < (t.nonce.toNat : Int)
    · simp [hidx, hnonce, bind, Except.bind] at h
    · simp only [hidx, hnonce, if_false] at h
      obtain rfl := Except.ok.inj h
      exact ⟨⟨by omega, by omega⟩, ⟨rfl, rfl, rfl, rfl, rfl⟩, rfl, rfl, rfl⟩

/-- The transactions from position `idx` on, converted until the first failure. -/
def convertNativeTxs (height : Int) : Nat → List NativeBlockTx →
    Except ConvertError (List Transaction)
  | _, [] => .ok []
  | idx, t :: rest => do
      let tx ← convertNativeTx height idx t
      let txs ← convertNativeTxs height (idx + 1) rest
      return tx :: txs

/-- `to_domain_txs_from_native`. -/
def toDomainTxsFromNative (b : NativeBlockResponse) : Except ConvertError (List Transaction) :=
  convertNativeTxs b.index 0 b.transactions

end SentrixIndexer
