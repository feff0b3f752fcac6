/-
One block, one transaction: the routes that are answered without the cache, and the GraphQL
fields next to them.

Each answer is made of a few statements, and every statement sees the store as it is by then.
A row is shown field by field; numbers wider than a double are shown as decimal text, and a
GraphQL amount is text where REST serialises a `Wei`.
-/
import SentrixIndexer.Api.Blocks
import SentrixIndexer.Api.Lookups
import SentrixIndexer.BlockWriter
import SentrixIndexer.Effect.Script
import SentrixIndexer.Relational.Ties

namespace SentrixIndexer

open Effect Relational

/-! ### Rows as they are shown -/

/-- A transaction as REST shows it; `sender` and `receiver` are its `from` and `to`. -/
structure WireTransaction where
  hash : String
  blockHeight : String
  txIndex : Int
  sender : String
  receiver : Option String
  value : Wei
  gasLimit : String
  gasUsed : Option String
  gasPrice : Option Wei
  fee : Wei
  nonce : String
  data : Option String
  status : Int
  contractAddress : Option String
  txType : String
  deriving DecidableEq, Repr

/-- `impl From<&Transaction> for WireTransaction`. -/
def WireTransaction.ofTransaction (t : Transaction) : WireTransaction where
  hash := t.hash
  blockHeight := t.blockHeight.repr
  txIndex := t.txIndex
  sender := t.fromAddr
  receiver := t.toAddr
  value := t.value
  gasLimit := t.gasLimit.repr
  gasUsed := t.gasUsed.map Int.repr
  gasPrice := t.gasPrice
  fee := t.fee
  nonce := t.nonce.repr
  data := t.data
  status := t.status
  contractAddress := t.contractAddress
  txType := t.txType.asStr

/-- A log as both transports show it, its topics in one list. -/
structure WireLog where
  blockHeight : String
  txHash : String
  logIndex : Int
  address : String
  topics : List String
  data : Option String
  deriving DecidableEq, Repr

/-- `impl From<&Log> for WireLog`, and `From<Log> for LogGql`. -/
def WireLog.ofLog (l : Log) : WireLog where
  blockHeight := l.blockHeight.repr
  txHash := l.txHash
  logIndex := l.logIndex
  address := l.address
  topics := [l.topic0, l.topic1, l.topic2, l.topic3].filterMap id
  data := l.data

/-- A block with its transactions, those ordered by `tx_index`. -/
structure WireBlockWithTxs where
  block : WireBlock
  transactions : List WireTransaction
  deriving DecidableEq, Repr

/-- The response of `/blocks/:height`. -/
structure DetailResponse where
  block : WireBlockWithTxs
  deriving DecidableEq, Repr

/-- The response of `/tx/:hash`. -/
structure TxResponse where
  tx : WireTransaction
  logs : List WireLog
  blockTimestamp : Int
  deriving DecidableEq, Repr

/-- `Wei::to_string`. -/
def weiText (w : Wei) : String := w.toNat.repr

/-- A block as GraphQL shows it. -/
structure BlockGql where
  height : String
  hash : String
  parentHash : String
  timestamp : String
  validator : String
  gasUsed : String
  gasLimit : String
  baseFee : Option String
  txCount : Int
  stateRoot : Option String
  round : Int
  deriving DecidableEq, Repr

/-- `impl From<Block> for BlockGql`. -/
def BlockGql.ofBlock (b : Block) : BlockGql where
  height := b.height.repr
  hash := b.hash
  parentHash := b.parentHash
  timestamp := b.timestamp.repr
  validator := b.validator
  gasUsed := b.gasUsed.repr
  gasLimit := b.gasLimit.repr
  baseFee := b.baseFee.map weiText
  txCount := b.txCount
  stateRoot := b.stateRoot
  round := b.round

/-- A transaction as GraphQL shows it. -/
structure TransactionGql where
  hash : String
  blockHeight : String
  txIndex : Int
  sender : String
  receiver : Option String
  value : String
  gasLimit : String
  gasUsed : Option String
  gasPrice : Option String
  fee : String
  nonce : String
  data : Option String
  status : Int
  contractAddress : Option String
  txType : String
  deriving DecidableEq, Repr

/-- `impl From<Transaction> for TransactionGql`. -/
def TransactionGql.ofTransaction (t : Transaction) : TransactionGql where
  hash := t.hash
  blockHeight := t.blockHeight.repr
  txIndex := t.txIndex
  sender := t.fromAddr
  receiver := t.toAddr
  value := weiText t.value
  gasLimit := t.gasLimit.repr
  gasUsed := t.gasUsed.map Int.repr
  gasPrice := t.gasPrice.map weiText
  fee := weiText t.fee
  nonce := t.nonce.repr
  data := t.data
  status := t.status
  contractAddress := t.contractAddress
  txType := t.txType.asStr

/-- What GraphQL answers to `transaction(hash)`. -/
structure TransactionWithLogs where
  tx : TransactionGql
  logs : List WireLog
  deriving DecidableEq, Repr

/-! ### Statements -/

/-- A statement of these routes. -/
inductive DetailRead
  | getByHeight (h : Int)
  /-- `transactions::for_block`. -/
  | forBlock (h : Int)
  | getByHash (hash : Hash)
  /-- `logs::for_tx`. -/
  | forTx (hash : Hash)
  | listBefore (before : Option Int) (limit : Int)
  deriving DecidableEq

@[reducible] def DetailRead.Answer : DetailRead → Type
  | .getByHeight _ => Except String (Option Block)
  | .forBlock _ => Except String (List Transaction)
  | .getByHash _ => Except String (Option Transaction)
  | .forTx _ => Except String (List Log)
  | .listBefore _ _ => Except String (List Block)

abbrev DetailSig : Signature := ⟨DetailRead, DetailRead.Answer⟩

abbrev DetailScript := Script DetailSig

def DetailRead.ask (r : DetailRead) : DetailScript r.Answer := .call r .pure

/-- The selection of `for_block`. -/
def Transactions.ofBlock (s : Store) (h : Int) : List Transaction :=
  s.transactions.rows.filter fun t => t.blockHeight = h

/-- What a statement finds in the store; rows with one key come in any order. -/
def DetailRead.Finds (s : Store) : (r : DetailRead) → r.Answer → Prop
  | .getByHeight h, answer => answer = .ok (Blocks.getByHeight s h)
  | .forBlock h, answer =>
      ∃ rows, OrderedBy Transaction.txIndex (Transactions.ofBlock s h) rows ∧ answer = .ok rows
  | .getByHash hash, answer => answer = .ok (Transactions.getByHash s hash)
  | .forTx hash, answer =>
      ∃ rows, OrderedBy Log.logIndex (Logs.ofTx s hash) rows ∧ answer = .ok rows
  | .listBefore before limit, answer => answer = .ok (Blocks.listBefore s before limit)

/-- The statement failed. -/
def DetailRead.Failed (e : String) : (r : DetailRead) → r.Answer → Prop
  | .getByHeight _, answer => answer = .error e
  | .forBlock _, answer => answer = .error e
  | .getByHash _, answer => answer = .error e
  | .forTx _, answer => answer = .error e
  | .listBefore _ _, answer => answer = .error e

/-- The database: a statement finds what there is, or fails, and changes nothing. -/
def readHandle : Handler DetailSig Store := fun s r answer s' =>
  s' = s ∧ (r.Finds s answer ∨ ∃ e, r.Failed e answer)

/-! ### REST -/

/-- `detail` of `/blocks/:height`. -/
def blockDetail (heightStr : String) : DetailScript (Except ApiError DetailResponse) :=
  match parseI64 heightStr with
  | none => .pure (.error (.invalidQuery "invalid height: must be a non-negative integer"))
  | some h => do
      match ← (DetailRead.getByHeight h).ask with
      | .error e => return .error (.db e)
      | .ok none => return .error (.notFound "block")
      | .ok (some block) =>
          match ← (DetailRead.forBlock h).ask with
          | .error e => return .error (.db e)
          | .ok txs => return .ok ⟨⟨.ofBlock block, txs.map .ofTransaction⟩⟩

/-- `detail` of `/tx/:hash`. -/
def transactionDetail (hash : String) : DetailScript (Except ApiError TxResponse) := do
  let hash := toLowercase hash
  match ← (DetailRead.getByHash hash).ask with
  | .error e => return .error (.db e)
  | .ok none => return .error (.notFound "tx")
  | .ok (some tx) =>
      match ← (DetailRead.forTx hash).ask with
      | .error e => return .error (.db e)
      | .ok logRows =>
          match ← (DetailRead.getByHeight tx.blockHeight).ask with
          | .error e => return .error (.db e)
          | .ok block =>
              return .ok
                { tx := .ofTransaction tx
                  logs := logRows.map .ofLog
                  blockTimestamp := (block.map Block.timestamp).getD 0 }

/-! ### GraphQL -/

/-- What a client is told of a database error. -/
def sanitizeDbErr : String := "internal server error"

namespace QueryRoot

/-- `block(height)`. -/
def block (height : Int) : DetailScript (Except String (Option BlockGql)) := do
  match ← (DetailRead.getByHeight height).ask with
  | .error _ => return .error sanitizeDbErr
  | .ok row => return .ok (row.map .ofBlock)

/-- The limit of `blocks(first)`: clamped to 1..100, 25 if there is none. -/
def limitOf (first : Option Int) : Int :=
  match first with
  | none => 25
  | some n => max 1 (min 100 n)

/-- `blocks(first, before)`. -/
def blocks (first before : Option Int) : DetailScript (Except String (List BlockGql)) := do
  match ← (DetailRead.listBefore before (limitOf first)).ask with
  | .error _ => return .error sanitizeDbErr
  | .ok rows => return .ok (rows.map .ofBlock)

/-- `transaction(hash)`. -/
def transaction (hash : String) : DetailScript (Except String (Option TransactionWithLogs)) := do
  let hash := toLowercase hash
  match ← (DetailRead.getByHash hash).ask with
  | .error _ => return .error sanitizeDbErr
  | .ok none => return .ok none
  | .ok (some tx) =>
      match ← (DetailRead.forTx hash).ask with
      | .error _ => return .error sanitizeDbErr
      | .ok logRows => return .ok (some ⟨.ofTransaction tx, logRows.map .ofLog⟩)

end QueryRoot

end SentrixIndexer
