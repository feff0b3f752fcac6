/-
The Postgres tables and the statements the indexer issues against them.

Each statement is a function on the store that may fail with a constraint
violation; a failed statement aborts the transaction around it, so its partial
effect is never seen.  The constraints are those of the migrations: the primary
keys, `UNIQUE (blocks.hash)`, and the foreign keys
`transactions.block_height → blocks`, `logs.block_height → blocks` and
`logs.tx_hash → transactions`, all three `ON DELETE CASCADE`.  `token_transfers`
and `addresses` carry no foreign key.

`ON CONFLICT (key) DO NOTHING` names one arbiter key.  A row whose arbiter key is
taken is skipped before any other constraint is looked at; a row that passes it can
still violate another one.
-/
import Mathlib.Data.List.Dedup
import SentrixIndexer.Domain
import SentrixIndexer.Relational.StableSort

namespace SentrixIndexer

open Relational

/-- Why a statement failed. -/
inductive DbError
  | uniqueViolation (constraint : String)
  | foreignKeyViolation (constraint : String)
  /-- `ON CONFLICT DO UPDATE` may not touch one row twice in a statement. -/
  | cardinalityViolation
  /-- Pool timeout, lost connection, serialization failure, ... -/
  | transport (msg : String)
  deriving DecidableEq, Repr

def Log.key (l : Log) : Int × Int := (l.blockHeight, l.logIndex)

def TokenTransfer.key (t : TokenTransfer) : Hash × Int := (t.txHash, t.logIndex)

/-- Row of `addresses`. -/
structure AddressRow where
  address : Address
  firstSeenBlock : Int
  lastSeenBlock : Int
  isContract : Bool
  codeHash : Option String
  deriving DecidableEq, Repr

/-- Row of `_meta`.  The column is text; every writer stores the decimal of an `i64`. -/
structure MetaRow where
  key : String
  value : Int
  updatedAt : Int
  deriving DecidableEq, Repr

structure Store where
  blocks : Table Block.height
  transactions : Table Transaction.hash
  logs : Table Log.key
  tokenTransfers : Table TokenTransfer.key
  addresses : Table AddressRow.address
  metaRows : Table MetaRow.key

/-- The store right after the migrations. -/
def Store.empty : Store := ⟨.empty, .empty, .empty, .empty, .empty, .empty⟩

/-- A statement: the store it leaves, or why it failed. -/
abbrev Statement := Store → Except DbError Store

/-- Run a statement for each row, in order. -/
def forEach {V : Type} (stmt : V → Statement) (rows : List V) : Statement :=
  fun s => rows.foldlM (fun s v => stmt v s) s

namespace Blocks

/-- `INSERT INTO blocks .. ON CONFLICT (height) DO NOTHING`. -/
def insert (b : Block) : Statement := fun s =>
  if s.blocks.contains b.height then .ok s
  else if s.blocks.rows.any fun r => r.hash = b.hash then
    .error (.uniqueViolation "blocks_hash_key")
  else .ok { s with blocks := s.blocks.insertNew b }

/-- Multi-row insert. -/
def insertBatch (blocks : List Block) : Statement := forEach insert blocks

def getByHeight (s : Store) (h : Int) : Option Block := s.blocks.find? h

/-- `DELETE FROM blocks WHERE height >= $1`, with the cascades of its foreign keys. -/
def deleteFrom (h : Int) : Statement := fun s =>
  let dropsTx := fun t : Transaction => decide (h ≤ t.blockHeight)
  let droppedTxs := s.transactions.rows.filter dropsTx
  .ok { s with
    blocks := s.blocks.deleteWhere fun b => h ≤ b.height
    transactions := s.transactions.deleteWhere dropsTx
    logs := s.logs.deleteWhere fun l =>
      h ≤ l.blockHeight || droppedTxs.any fun t => t.hash = l.txHash }

end Blocks

namespace Transactions

/-- `INSERT INTO transactions .. ON CONFLICT (hash) DO NOTHING`. -/
def insert (t : Transaction) : Statement := fun s =>
  if s.transactions.contains t.hash then .ok s
  else if s.blocks.contains t.blockHeight then
    .ok { s with transactions := s.transactions.insertNew t }
  else .error (.foreignKeyViolation "transactions_block_height_fkey")

/-- Multi-row insert. -/
def insertBatch (txs : List Transaction) : Statement := forEach insert txs

end Transactions

namespace Logs

/-- `INSERT INTO logs .. ON CONFLICT (block_height, log_index) DO NOTHING`. -/
def insert (l : Log) : Statement := fun s =>
  if s.logs.contains l.key then .ok s
  else if !s.blocks.contains l.blockHeight then
    .error (.foreignKeyViolation "logs_block_height_fkey")
  else if !s.transactions.contains l.txHash then
    .error (.foreignKeyViolation "logs_tx_hash_fkey")
  else .ok { s with logs := s.logs.insertNew l }

/-- Multi-row insert. -/
def insertBatch (logs : List Log) : Statement := forEach insert logs

end Logs

namespace TokenTransfers

/-- `INSERT INTO token_transfers .. ON CONFLICT (tx_hash, log_index) DO NOTHING`. -/
def insert (t : TokenTransfer) : Statement := fun s =>
  .ok { s with tokenTransfers := s.tokenTransfers.insertNew t }

/-- Multi-row insert. -/
def insertBatch (transfers : List TokenTransfer) : Statement := forEach insert transfers

end TokenTransfers

namespace Addresses

/-- A row already there keeps everything but `last_seen_block`, the later of two heights. -/
def seeAgain (h : Int) (r : AddressRow) : AddressRow :=
  { r with lastSeenBlock := max r.lastSeenBlock h }

theorem address_seeAgain (h : Int) (r : AddressRow) : (seeAgain h r).address = r.address := rfl

def firstSighting (a : Address) (h : Int) : AddressRow where
  address := a
  firstSeenBlock := h
  lastSeenBlock := h
  isContract := false
  codeHash := none

/-- One sighting of an address at a height. -/
def upsert (rows : Table AddressRow.address) (seen : Address × Int) : Table AddressRow.address :=
  rows.upsert (firstSighting seen.1 seen.2) (seeAgain seen.2) (address_seeAgain seen.2)

/-- `INSERT INTO addresses .. ON CONFLICT (address) DO UPDATE SET last_seen_block = GREATEST(..)`. -/
def upsertBatch (seen : List (Address × Int)) : Statement := fun s =>
  if (seen.map Prod.fst).Nodup then .ok { s with addresses := seen.foldl upsert s.addresses }
  else .error .cardinalityViolation

/-- `SELECT COUNT(*) FROM addresses`. -/
def count (s : Store) : Nat := s.addresses.rows.length

/-- The senders of the transactions, `UNION ALL` their receivers, each with its height. -/
def sightingsOf (txs : List Transaction) : List (Address × Int) :=
  (txs.map fun t => (t.fromAddr, t.blockHeight)) ++
    txs.filterMap fun t => t.toAddr.map fun a => (a, t.blockHeight)

/-- The row of one group: `MIN(block_height)` and `MAX(block_height)` of its sightings. -/
def groupRow (seen : List (Address × Int)) (a : Address) : AddressRow :=
  let heights := (seen.filter fun p => p.1 = a).map Prod.snd
  { address := a
    firstSeenBlock := heights.min?.getD 0
    lastSeenBlock := heights.max?.getD 0
    isContract := false
    codeHash := none }

/-- What the `SELECT .. GROUP BY addr` of `backfill_from_transactions` returns. -/
def historyRows (s : Store) : List AddressRow :=
  let seen := sightingsOf s.transactions.rows
  (seen.map Prod.fst).dedup.map (groupRow seen)

/-- The `INSERT .. ON CONFLICT (address) DO NOTHING` of `backfill_from_transactions`. -/
def insertHistory (rows : List AddressRow) : Statement := fun s =>
  .ok { s with addresses := s.addresses.insertAll rows }

end Addresses

/-! ### The sync cursor -/

def lastSyncedHeightKey : String := "last_synced_height"

/-- `read_cursor`: `None` means no row yet. -/
def readCursor (s : Store) : Option Int :=
  (s.metaRows.find? lastSyncedHeightKey).map MetaRow.value

/-- The `_meta` row of the cursor after `write_cursor`: its value never decreases. -/
def MetaRow.advance (h : Int) (nowTs : Int) (r : MetaRow) : MetaRow :=
  { r with value := max r.value h, updatedAt := nowTs }

theorem MetaRow.key_advance (h : Int) (nowTs : Int) (r : MetaRow) :
    (r.advance h nowTs).key = r.key := rfl

/-- `write_cursor`. -/
def writeCursor (h : Int) (nowTs : Int) : Statement := fun s =>
  .ok { s with
    metaRows := s.metaRows.upsert
      { key := lastSyncedHeightKey, value := h, updatedAt := nowTs } (.advance h nowTs)
      (MetaRow.key_advance h nowTs) }

/-- What the cursor counts as where it is used: `-1` when it is unset. -/
def Store.cursor (s : Store) : Int := (readCursor s).getD (-1)

end SentrixIndexer
