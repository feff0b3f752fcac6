/-
What the chain client returns, and how it retries.

The responses are the fields the indexer reads.  Decoding them from JSON, HTTP and
gRPC belongs to third-party crates, so a client method is a call whose answer is
already a value of these types or a `ChainError`.
-/
import SentrixIndexer.Domain
import SentrixIndexer.Effect.Script

namespace SentrixIndexer

open Effect

/-- `alloy_primitives::FixedBytes`. -/
abbrev FixedBytes (n : Nat) := Vector UInt8 n
abbrev EvmAddress := FixedBytes 20
abbrev B256 := FixedBytes 32

/-- A transaction as a block of `/chain/blocks/<n>` inlines it. -/
structure NativeBlockTx where
  txid : String
  fromAddress : String
  toAddress : Option String
  amount : UInt64
  fee : UInt64
  nonce : UInt64
  chainId : Int
  data : Option String
  deriving DecidableEq, Repr

/-- The response of `/chain/blocks/<n>`. -/
structure NativeBlockResponse where
  index : Int
  hash : String
  previousHash : String
  timestamp : Int
  validator : String
  round : Int
  stateRoot : Option (List UInt8)
  transactions : List NativeBlockTx
  deriving DecidableEq, Repr

/-- A log of `eth_getLogs`. -/
structure RpcLog where
  address : EvmAddress
  topics : List B256
  data : List UInt8
  blockNumber : Option UInt64
  blockHash : Option B256
  transactionHash : Option B256
  logIndex : Option UInt64
  deriving DecidableEq

/-- A block of `eth_getBlockByNumber`, of which only the header hash is read. -/
structure RpcBlock where
  hash : B256
  deriving DecidableEq

/-- An event of the `StreamEvents` push; the tail loop reads only two of them. -/
inductive ChainEvent
  /-- `BlockFinalized`, with the height of its block if it carries one. -/
  | blockFinalized (index : Option UInt64)
  | lagged
  | other
  deriving DecidableEq, Repr

/-! ### Errors -/

/-- gRPC status codes, those the retry helper distinguishes by name. -/
inductive GrpcCode
  | unavailable
  | deadlineExceeded
  | resourceExhausted
  | aborted
  | internal
  | other
  deriving DecidableEq, Repr

inductive ChainError
  | rpc (msg : String)
  | grpc (code : GrpcCode)
  | grpcTransport
  /-- A `reqwest` error: what it says of itself, and the HTTP status if there is one. -/
  | rest (isTimeout isConnect : Bool) (status : Option Nat)
  | decode (msg : String)
  | notFound (msg : String)
  | invalidArgument (msg : String)
  deriving DecidableEq, Repr

/-- Whether the retry helper backs off and tries again. -/
def ChainError.isTransient : ChainError → Bool
  | .rpc _ => true
  | .grpc code => code != .other
  | .grpcTransport => true
  | .rest isTimeout isConnect status =>
      isTimeout || isConnect || status.any fun s => 500 ≤ s && s < 600
  | .decode _ => false
  | .notFound _ => false
  | .invalidArgument _ => false

/-! ### Log ranges -/

/-- `{h:?}`. -/
def heightDebug (h : Int) : String := "BlockHeight(" ++ toString h ++ ")"

/-- `logs_in_range` over an inclusive range, where `request` asks for the logs. -/
def logsInRange {S : Signature} (request : Script S (Except ChainError (List RpcLog)))
    (fromBlock toBlock : Int) : Script S (Except ChainError (List RpcLog)) :=
  if toBlock < fromBlock then
    return .error (.invalidArgument
      ("logs_in_range: to (" ++ heightDebug toBlock ++ ") < from (" ++ heightDebug fromBlock ++ ")"))
  else if heightAsU64 fromBlock = none then
    return .error (.invalidArgument ("logs_in_range: negative from " ++ heightDebug fromBlock))
  else if heightAsU64 toBlock = none then
    return .error (.invalidArgument ("logs_in_range: negative to " ++ heightDebug toBlock))
  else request

/-! ### Retry -/

/-- Backoff schedule, delays in nanoseconds. -/
structure BackoffConfig where
  initialDelay : Nat
  maxDelay : Nat
  maxAttempts : Nat
  multiplier : Nat
  /-- `retry_with_backoff` panics when it is told to make no attempt. -/
  one_le_maxAttempts : 1 ≤ maxAttempts

/-- `BackoffConfig::default()`. -/
def BackoffConfig.default : BackoffConfig where
  initialDelay := 100 * 10 ^ 6
  maxDelay := 5 * 10 ^ 9
  maxAttempts := 6
  multiplier := 2
  one_le_maxAttempts := by decide

/-- The upper bound on the delay after `attempt`, counted from one. -/
def BackoffConfig.ceilingForAttempt (cfg : BackoffConfig) (attempt : Nat) : Nat :=
  let factor := min (cfg.multiplier ^ (attempt - 1)) (2 ^ 32 - 1)
  let nanos := min (cfg.initialDelay * factor) (2 ^ 128 - 1)
  min (min nanos (2 ^ 64 - 1)) cfg.maxDelay

/-- How long the helper sleeps after `attempt`: a fixed share of the ceiling. -/
def BackoffConfig.sleepAfter (cfg : BackoffConfig) (attempt : Nat) : Nat :=
  let jitterRatio := attempt * 1103515245 % 2 ^ 64 % 1024
  min (cfg.ceilingForAttempt attempt * jitterRatio / 1024) (2 ^ 64 - 1)

section Retry

variable {S : Signature} {α : Type}

/-- Attempts `attempt`, `attempt + 1`, .. with `left` more allowed after this one. -/
def retryFrom (sleep : Nat → Script S Unit) (cfg : BackoffConfig)
    (op : Script S (Except ChainError α)) : Nat → Nat → Script S (Except ChainError α)
  | attempt, left => do
      match ← op with
      | .ok v => return .ok v
      | .error e =>
          if e.isTransient then
            match left with
            | 0 => return .error e
            | left + 1 =>
                sleep (cfg.sleepAfter attempt)
                retryFrom sleep cfg op (attempt + 1) left
          else return .error e

/-- Run `op` with retries on transient errors. -/
def retryWithBackoff (sleep : Nat → Script S Unit) (cfg : BackoffConfig)
    (op : Script S (Except ChainError α)) : Script S (Except ChainError α) :=
  retryFrom sleep cfg op 1 (cfg.maxAttempts - 1)

end Retry

end SentrixIndexer
