/-
The block-write transactions.

A bundle is everything one block contributes to the store.  Both writers insert in
the order the foreign keys ask for and advance the cursor in the same transaction,
so either all of it is committed or none of it.  `write_block` writes one bundle
row by row; `batch_write_blocks` flattens any number of bundles, sorts the rows of
each table and writes them in pages.
-/
import Mathlib.Data.Prod.Lex
import SentrixIndexer.Db

namespace SentrixIndexer

open Relational

/-- Rows to write atomically. -/
structure BlockBundle where
  block : Block
  txs : List Transaction
  logs : List Log
  tokenTransfers : List TokenTransfer
  deriving DecidableEq, Repr

/-! ### The addresses of a batch -/

/-- Sightings under construction: one height for each address. -/
abbrev Sightings := Table (Prod.fst : Address × Int → Address)

/-- `*b = (*b).min(h)`. -/
def lowerTo (h : Int) (p : Address × Int) : Address × Int := (p.1, min p.2 h)

theorem fst_lowerTo (h : Int) (p : Address × Int) : (lowerTo h p).1 = p.1 := rfl

/-- `seen.entry(a).and_modify(|b| *b = (*b).min(h)).or_insert(h)`. -/
def noteAddress (h : Int) (seen : Sightings) (a : Address) : Sightings :=
  seen.upsert (a, h) (lowerTo h) (fst_lowerTo h)

def noteTx (seen : Sightings) (t : Transaction) : Sightings :=
  let seen := noteAddress t.blockHeight seen t.fromAddr
  match t.toAddr with
  | some receiver => noteAddress t.blockHeight seen receiver
  | none => seen

/--
`tx_addresses`: every sender and receiver, once, with the earliest of its heights.
The source reads them out of a hash map, in no particular order.
-/
def txAddresses (txs : List Transaction) : List (Address × Int) :=
  (txs.foldl noteTx .empty).rows

/-! ### Pages -/

/-- Page size for batch inserts. -/
def batchInsertChunk : Nat := 500

/-- Pages of `n` rows, at most `fuel` of them before the rest. -/
def chunksOf {V : Type} (n : Nat) : Nat → List V → List (List V)
  | _, [] => []
  | 0, rows => [rows]
  | fuel + 1, rows => rows.take n :: chunksOf n fuel (rows.drop n)

/-- `rows.chunks(BATCH_INSERT_CHUNK)`. -/
def chunks {V : Type} (rows : List V) : List (List V) :=
  chunksOf batchInsertChunk rows.length rows

/-! ### The two transactions -/

/-- The transaction of `write_block`. -/
def writeBlockTx (b : BlockBundle) : Statement := fun s => do
  let s ← Blocks.insert b.block s
  let s ← forEach Transactions.insert b.txs s
  let s ← Addresses.upsertBatch (txAddresses b.txs) s
  let s ← forEach Logs.insert b.logs s
  let s ← forEach TokenTransfers.insert b.tokenTransfers s
  writeCursor b.block.height b.block.timestamp s

def blocksOf (bundles : List BlockBundle) : List Block :=
  sortByKey (fun b => b.height) (bundles.map BlockBundle.block)

def txsOf (bundles : List BlockBundle) : List Transaction :=
  sortByKey (fun t => toLex (t.blockHeight, t.txIndex)) (bundles.flatMap BlockBundle.txs)

def logsOf (bundles : List BlockBundle) : List Log :=
  sortByKey (fun l => toLex (l.blockHeight, l.logIndex)) (bundles.flatMap BlockBundle.logs)

def transfersOf (bundles : List BlockBundle) : List TokenTransfer :=
  sortByKey (fun t => toLex (t.blockHeight, t.logIndex))
    (bundles.flatMap BlockBundle.tokenTransfers)

/-- The transaction of `batch_write_blocks`; there is none for an empty batch. -/
def batchWriteBlocksTx (bundles : List BlockBundle) : Statement := fun s =>
  match (bundles.map fun b => b.block.height).max? with
  | none => .ok s
  | some maxHeight => do
      let cursorTs := ((bundles.find? fun b => b.block.height = maxHeight).map
        fun b => b.block.timestamp).getD 0
      let s ← forEach Blocks.insertBatch (chunks (blocksOf bundles)) s
      let s ← forEach Transactions.insertBatch (chunks (txsOf bundles)) s
      let s ← forEach Addresses.upsertBatch (chunks (txAddresses (txsOf bundles))) s
      let s ← forEach Logs.insertBatch (chunks (logsOf bundles)) s
      let s ← forEach TokenTransfers.insertBatch (chunks (transfersOf bundles)) s
      writeCursor maxHeight cursorTs s

/-! ### The analytics rows of a write -/

/-- One row per indexed transaction, pushed to the analytics buffer. -/
structure RawTxRow where
  blockHeight : UInt64
  timestamp : UInt64
  txHash : Hash
  fromAddr : Address
  toAddr : Option Address
  valueStr : String
  feeStr : String
  gasUsed : UInt64
  status : UInt8
  txType : String
  deriving DecidableEq

def TxType.asStr : TxType → String
  | .native => "native"
  | .evm => "evm"
  | .system => "system"
  | .coinbase => "coinbase"

def rawTxRow (height : UInt64) (b : Block) (t : Transaction) : RawTxRow where
  blockHeight := height
  timestamp := UInt64.ofInt b.timestamp
  txHash := t.hash
  fromAddr := t.fromAddr
  toAddr := t.toAddr
  valueStr := toString t.value.toNat
  feeStr := toString t.fee.toNat
  gasUsed := UInt64.ofInt (t.gasUsed.getD 0)
  status := UInt8.ofInt t.status
  txType := t.txType.asStr

/-- The rows a bundle pushes: none when its height does not convert to `u64`. -/
def analyticsRows (b : BlockBundle) : List RawTxRow :=
  match heightAsU64 b.block.height with
  | none => []
  | some height => b.txs.map (rawTxRow height b.block)

end SentrixIndexer
