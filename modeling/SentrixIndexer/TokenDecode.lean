/-
The ERC-20 / ERC-721 `Transfer` decoder.

Both standards share one selector.  A log with a fourth topic is an ERC-721
transfer of one token and must carry no data; a log with three is an ERC-20
transfer of the amount in its 32 bytes of data.  Anything else is no transfer.
-/
import SentrixIndexer.Domain

namespace SentrixIndexer

/-- `keccak256("Transfer(address,address,uint256)")`. -/
def transferTopic0 : String :=
  "0xddf252ad1be2c89b69c2b068fc378daa952ba7f163c4a11628f55a4df523b3ef"

/-- Last 20 bytes of a 32-byte topic. -/
def topicToAddress (topic : String) : Option Address :=
  let hex := trim0x topic.toList
  if hex.length ≠ 64 then none else some ("0x" ++ String.ofList (hex.drop 24))

/-- A 32-byte topic as a number. -/
def topicToU256 (topic : String) : Option Wei :=
  let hex := trim0x topic.toList
  if hex.length ≠ 64 then none else (hexBytes hex).map ofBytesBE

/-- A 32-byte data field as a number. -/
def dataToU256 (data : String) : Option Wei := topicToU256 data

/-- The standard, token id and amount a `Transfer` log carries. -/
def transferPayload (log : Log) : Option (TokenStandard × Option Wei × Wei) :=
  match log.topic3 with
  | some idTopic =>
      -- A custom event with three indexed arguments shares the selector but has data.
      if !((log.data.map fun d => (trim0x d.toList).isEmpty).getD true) then none
      else (topicToU256 idTopic).map fun tokenId => (.erc721, some tokenId, 1)
  | none => do
      let data ← log.data
      let amount ← dataToU256 data
      return (.erc20, none, amount)

/-- `decode_transfer`: `None` for anything but a transfer. -/
def decodeTransfer (log : Log) : Option TokenTransfer := do
  if log.topic0 ≠ some transferTopic0 then none
  let fromAddr ← log.topic1 >>= topicToAddress
  let toAddr ← log.topic2 >>= topicToAddress
  let (standard, tokenId, amount) ← transferPayload log
  return {
    blockHeight := log.blockHeight
    txHash := log.txHash
    logIndex := log.logIndex
    contract := log.address
    standard := standard
    fromAddr := fromAddr
    toAddr := toAddr
    tokenId := tokenId
    amount := amount }

end SentrixIndexer
